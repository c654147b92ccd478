import Catp.Provision.Startup
import Mathlib.Data.List.Lex
import Mathlib.Data.List.Sort
import Mathlib.Data.String.Basic

/-!
# The directory of the bundles

A directory is the texts of its files by name. `write` and `readFile` are `write_file` and
`read_file` of `src/provisioning.rs`, and `loadBundlesDir` reads the files with the extension
`bundle` in the order of their names. What can go wrong with the files themselves is left out:
every name can be written, and every file is text.

A collector started from a directory keeps one peer for each `sender_id` it finds, that of the
file whose name is the largest (`lookup_startup_iff`).

* `bundlePaths` is sorted by name, as the source sorts the paths: the order decides which of two
  bundles of one sender is provisioned last.
* `loadBundlesDir_eq_ok_iff` relates the bundles to the files one by one, and
  `exists_loadBundlesDir_iff` says that loading stops on a malformed file and on nothing else.
* `bundleName_injective` keeps the files of different nodes apart. It is what `generate` rests on.

A file with another extension is never read here, whatever is in it, and it stays where it is.
-/

namespace Catp.Provision

open Hex

/-- The texts of the files, by name. -/
abbrev Dir := AList fun _ : List Char => List Char

/-- The extension of the files a directory is read for. -/
def bundleExtension : List Char := "bundle".toList

/-- `node-{:08x}.bundle`. -/
def bundleName (senderId : UInt32) : List Char :=
  "node-".toList ++ padded 8 senderId.toNat ++ '.' :: bundleExtension

/-- `Path::extension`: what stands behind the last dot of a file name, unless nothing stands before
it. -/
def extension (name : List Char) : Option (List Char) :=
  if ((name.rdropWhile (· != '.')).dropLast).isEmpty then none
  else some (name.rtakeWhile (· != '.'))

namespace Dir

/-- Write the bundle to a file, which is created or replaced. -/
def write (d : Dir) (name : List Char) (b : Bundle) : Dir := d.insert name b.toText

/-- The bundle in a file, if there is a file. -/
def readFile (d : Dir) (name : List Char) : Option (Except ProvisionError Bundle) :=
  (d.lookup name).map Bundle.parse

/-- The names of the bundle files, in order. -/
def bundlePaths (d : Dir) : List (List Char) :=
  (d.keys.filter fun name => extension name = some bundleExtension).insertionSort (· ≤ ·)

end Dir

/-- Load every `*.bundle` file, in the order of the names. Stops at the first malformed file. -/
def loadBundlesDir (d : Dir) : Except ProvisionError (List Bundle) :=
  loadBundles (d.bundlePaths.map fun name => (d.lookup name).getD [])

/-! ### Names -/

theorem bundleName_injective : Function.Injective bundleName := by
  intro id id' h
  obtain ⟨hstem, -⟩ := List.append_inj' h rfl
  have hdigits := congrArg number (List.append_cancel_left hstem)
  rw [number_padded, number_padded] at hdigits
  exact UInt32.toNat_inj.mp hdigits

theorem parse_toText_eq (b : Bundle) : Bundle.parse b.toText = .ok b :=
  (documented_iff.mp (documented_toText b)).1

namespace Dir

variable {d : Dir} {name : List Char}

@[simp] theorem readFile_write (b : Bundle) : (d.write name b).readFile name = some (.ok b) := by
  rw [readFile, write, AList.lookup_insert, Option.map_some, parse_toText_eq]

theorem readFile_write_of_ne {name' : List Char} (h : name' ≠ name) (b : Bundle) :
    (d.write name b).readFile name' = d.readFile name' := by
  rw [readFile, write, AList.lookup_insert_ne h, readFile]

private theorem mem_bundlePaths : name ∈ d.bundlePaths ↔
    (∃ r, d.readFile name = some r) ∧ extension name = some bundleExtension := by
  rw [bundlePaths, List.mem_insertionSort, List.mem_filter, readFile, ← AList.mem_keys,
    ← AList.lookup_isSome, decide_eq_true_eq]
  cases d.lookup name <;> simp

private theorem pairwise_bundlePaths (d : Dir) : d.bundlePaths.Pairwise (· < ·) := by
  have hnodup : d.bundlePaths.Nodup :=
    (List.perm_insertionSort _ _).nodup_iff.mpr (d.keys_nodup.filter _)
  exact ((List.pairwise_insertionSort (· ≤ ·) _).and hnodup).imp fun h =>
    lt_of_le_of_ne h.1 h.2

end Dir

/-! ### Loading -/

theorem mapM_eq_ok_iff {ε α β : Type} {f : α → Except ε β} {l : List α} {bs : List β} :
    l.mapM f = .ok bs ↔ List.Forall₂ (fun a b => f a = .ok b) l bs := by
  induction l generalizing bs with
  | nil =>
    rw [List.mapM_nil, List.forall₂_nil_left_iff]
    exact ⟨fun h => (Except.ok.inj h).symm, fun h => h ▸ rfl⟩
  | cons a l ih =>
    rw [List.mapM_cons, List.forall₂_cons_left_iff]
    simp only [bind_eq_ok_iff, ih]
    constructor
    · rintro ⟨b, hb, cs, hcs, h⟩
      exact ⟨b, cs, hb, hcs, (Except.ok.inj h).symm⟩
    · rintro ⟨b, cs, hb, hcs, rfl⟩
      exact ⟨b, hb, cs, hcs, rfl⟩

theorem exists_forall₂_iff {α β : Type} {R : α → β → Prop} {l : List α} :
    (∃ bs, List.Forall₂ R l bs) ↔ ∀ a ∈ l, ∃ b, R a b := by
  induction l with
  | nil => exact iff_of_true ⟨[], .nil⟩ (List.forall_mem_nil _)
  | cons a l ih =>
    rw [List.forall_mem_cons, ← ih]
    constructor
    · rintro ⟨bs, h⟩
      obtain ⟨b, cs, hb, hcs, -⟩ := List.forall₂_cons_left_iff.mp h
      exact ⟨⟨b, hb⟩, cs, hcs⟩
    · rintro ⟨⟨b, hb⟩, cs, hcs⟩
      exact ⟨b :: cs, .cons hb hcs⟩

private theorem forall₂_congr_left {α β : Type} {R S : α → β → Prop} {l : List α} {bs : List β}
    (h : ∀ a ∈ l, ∀ b, R a b ↔ S a b) : List.Forall₂ R l bs ↔ List.Forall₂ S l bs := by
  induction l generalizing bs with
  | nil => rw [List.forall₂_nil_left_iff, List.forall₂_nil_left_iff]
  | cons a l ih =>
    obtain ⟨ha, hl⟩ := List.forall_mem_cons.mp h
    simp only [List.forall₂_cons_left_iff, ha, ih hl]

variable {d : Dir} {bs : List Bundle}

/-- The bundles loaded are those of the bundle files, in order, and all of them are well formed. -/
theorem loadBundlesDir_eq_ok_iff : loadBundlesDir d = .ok bs ↔
    List.Forall₂ (fun name b => d.readFile name = some (.ok b)) d.bundlePaths bs := by
  rw [loadBundlesDir, loadBundles, mapM_eq_ok_iff, List.forall₂_map_left_iff]
  refine forall₂_congr_left fun name hname b => ?_
  obtain ⟨⟨r, hr⟩, -⟩ := Dir.mem_bundlePaths.mp hname
  rw [Dir.readFile] at hr ⊢
  obtain ⟨text, htext, -⟩ := Option.map_eq_some_iff.mp hr
  simp [htext]

/-- Loading fails exactly on a malformed file. -/
theorem exists_loadBundlesDir_iff : (∃ bs, loadBundlesDir d = .ok bs) ↔
    ∀ name r, extension name = some bundleExtension → d.readFile name = some r →
      ∃ b, r = .ok b := by
  simp only [loadBundlesDir_eq_ok_iff, exists_forall₂_iff, Dir.mem_bundlePaths]
  constructor
  · intro h name r hext hr
    obtain ⟨b, hb⟩ := h name ⟨⟨r, hr⟩, hext⟩
    exact ⟨b, Option.some.inj (hr.symm.trans hb)⟩
  · rintro h name ⟨⟨r, hr⟩, hext⟩
    obtain ⟨b, rfl⟩ := h name r hext hr
    exact ⟨b, hr⟩

private theorem exists_of_forall₂ {α β : Type} {R : α → β → Prop} {l : List α} {bs : List β} {b : β}
    (h : List.Forall₂ R l bs) (hb : b ∈ bs) : ∃ a ∈ l, R a b := by
  induction h with
  | nil => exact absurd hb List.not_mem_nil
  | cons hR _ ih =>
    rcases List.mem_cons.mp hb with rfl | hb
    · exact ⟨_, List.mem_cons_self, hR⟩
    · obtain ⟨a, ha, hR⟩ := ih hb
      exact ⟨a, List.mem_cons_of_mem _ ha, hR⟩

/-- A collector can be started if every bundle file is well formed and names a registered suite. -/
theorem exists_startup_of_forall (limit : RateLimit)
    (h : ∀ name r, extension name = some bundleExtension → d.readFile name = some r →
      ∃ b, r = .ok b ∧ CipherId.fromU8 b.cipherId ≠ none) :
    ∃ bs c, loadBundlesDir d = .ok bs ∧ startup (some limit) bs = .ok c := by
  obtain ⟨bs, hload⟩ := exists_loadBundlesDir_iff.mpr fun name r hext hr => by
    obtain ⟨b, hb, -⟩ := h name r hext hr
    exact ⟨b, hb⟩
  obtain ⟨c, hstart⟩ := (exists_startup_iff limit bs .new).mpr fun b hb => by
    obtain ⟨name, hname, hb⟩ := exists_of_forall₂ (loadBundlesDir_eq_ok_iff.mp hload) hb
    obtain ⟨b', hb', hcipher⟩ := h name _ (Dir.mem_bundlePaths.mp hname).2 hb
    exact Except.ok.inj hb' ▸ hcipher
  exact ⟨bs, c, hload, hstart⟩

/-- The files from which a collector knows a sender. -/
def NamesSender (d : Dir) (id : UInt32) (name : List Char) : Prop :=
  extension name = some bundleExtension ∧ ∃ b, d.readFile name = some (.ok b) ∧ b.senderId = id

/-! ### Starting -/

variable {limit : RateLimit} {c c' : Collector}

/-- Of the bundles of one sender the last one counts. -/
private theorem lookup_foldlM_eq (h : bs.foldlM (provisionBundle (some limit)) c = .ok c')
    (id : UInt32) :
    c'.peers.lookup id = match bs.reverse.find? fun b => b.senderId = id with
      | none => c.peers.lookup id
      | some b => (CipherId.fromU8 b.cipherId).map (peerOf limit b) := by
  induction bs using List.reverseRecOn generalizing c' with
  | nil =>
    cases h
    rfl
  | append_singleton bs b ih =>
    rw [List.foldlM_append] at h
    simp only [bind_eq_ok_iff, List.foldlM_cons, List.foldlM_nil, provisionBundle_eq_ok_iff] at h
    obtain ⟨c₁, h₁, c₂, ⟨cipher, hcipher, rfl⟩, h₂⟩ := h
    cases h₂
    rw [List.reverse_append, List.reverse_singleton, List.singleton_append, List.find?_cons]
    by_cases hid : b.senderId = id
    · subst hid
      rw [decide_eq_true rfl]
      simp [hcipher]
    · rw [decide_eq_false hid]
      dsimp only
      rw [← ih h₁]
      exact AList.lookup_insert_ne (Ne.symm hid)

/-- The first bundle of a sender, in the order from the largest name down, is the one in the file
with the largest name. -/
theorem find?_eq_some_iff {names : List (List Char)} (hgt : names.Pairwise (· > ·))
    (h : List.Forall₂ (fun name b => d.readFile name = some (.ok b)) names bs) {id : UInt32}
    {b : Bundle} : (bs.find? fun b => b.senderId = id) = some b ↔
      ∃ name, d.readFile name = some (.ok b) ∧ IsGreatest
        {n | n ∈ names ∧ ∃ b, d.readFile n = some (.ok b) ∧ b.senderId = id} name := by
  induction h with
  | nil =>
    refine iff_of_false (by simp) ?_
    rintro ⟨name, -, hmem, -⟩
    exact List.not_mem_nil hmem.1
  | @cons name₀ b₀ names bs hread _ ih =>
    obtain ⟨hall, hrest⟩ := List.pairwise_cons.mp hgt
    rw [List.find?_cons]
    by_cases hid : b₀.senderId = id
    · rw [decide_eq_true hid]
      -- the names come in descending order, so the first one found is the greatest
      have hfirst : IsGreatest
          {n | n ∈ name₀ :: names ∧ ∃ b, d.readFile n = some (.ok b) ∧ b.senderId = id} name₀ := by
        refine ⟨⟨List.mem_cons_self, b₀, hread, hid⟩, fun n hn => ?_⟩
        rcases List.mem_cons.mp hn.1 with rfl | hn
        · exact le_rfl
        · exact (hall n hn).le
      constructor
      · rintro h
        obtain rfl := Option.some.inj h
        exact ⟨name₀, hread, hfirst⟩
      · rintro ⟨name, hb, hgreatest⟩
        rw [hgreatest.unique hfirst, hread] at hb
        rw [Except.ok.inj (Option.some.inj hb)]
    · rw [decide_eq_false hid]
      dsimp only
      rw [ih hrest]
      -- a file of another sender adds nothing to the set
      have hset : {n | n ∈ name₀ :: names ∧ ∃ b, d.readFile n = some (.ok b) ∧ b.senderId = id} =
          {n | n ∈ names ∧ ∃ b, d.readFile n = some (.ok b) ∧ b.senderId = id} := by
        ext n
        simp only [Set.mem_ofPred_eq, List.mem_cons]
        constructor
        · rintro ⟨rfl | hn, b', hb', hid'⟩
          · rw [hread] at hb'
            exact absurd (Except.ok.inj (Option.some.inj hb') ▸ hid') hid
          · exact ⟨hn, b', hb', hid'⟩
        · rintro ⟨hn, hb'⟩
          exact ⟨.inr hn, hb'⟩
      rw [hset]

/-- **The file with the largest name counts.** A collector started from a directory has a peer for
a sender exactly if some bundle file names it, and the peer is that of the last such file. -/
theorem lookup_startup_iff (hload : loadBundlesDir d = .ok bs)
    (hstart : startup (some limit) bs = .ok c) {id : UInt32}
    {peer : PeerState defaultWindowWords} : c.peers.lookup id = some peer ↔
      ∃ name b cipher, IsGreatest {n | NamesSender d id n} name ∧
        d.readFile name = some (.ok b) ∧ CipherId.fromU8 b.cipherId = some cipher ∧
        peer = peerOf limit b cipher := by
  have hset : {n | n ∈ d.bundlePaths ∧ ∃ b, d.readFile n = some (.ok b) ∧ b.senderId = id} =
      {n | NamesSender d id n} := by
    ext n
    simp only [Set.mem_ofPred_eq, NamesSender, Dir.mem_bundlePaths]
    constructor
    · rintro ⟨⟨-, hext⟩, hb⟩
      exact ⟨hext, hb⟩
    · rintro ⟨hext, b, hb, hid⟩
      exact ⟨⟨⟨_, hb⟩, hext⟩, b, hb, hid⟩
  have hfind : ∀ b, (bs.reverse.find? fun b => b.senderId = id) = some b ↔
      ∃ name, d.readFile name = some (.ok b) ∧ IsGreatest {n | NamesSender d id n} name := by
    intro b
    rw [find?_eq_some_iff (List.pairwise_reverse.mpr d.pairwise_bundlePaths)
      (List.forall₂_reverse_iff.mpr (loadBundlesDir_eq_ok_iff.mp hload))]
    simp only [List.mem_reverse, hset]
  rw [lookup_foldlM_eq hstart]
  rcases hfound : bs.reverse.find? fun b => b.senderId = id with _ | b
  · rw [hfound]
    refine iff_of_false (by simp [Collector.new]) ?_
    rintro ⟨name, b, -, hgreatest, hb, -, -⟩
    rw [(hfind b).mpr ⟨name, hb, hgreatest⟩] at hfound
    cases hfound
  · obtain ⟨name, hb, hgreatest⟩ := (hfind b).mp hfound
    rw [hfound]
    dsimp only
    rw [Option.map_eq_some_iff]
    constructor
    · rintro ⟨cipher, hcipher, rfl⟩
      exact ⟨name, b, cipher, hgreatest, hb, hcipher, rfl⟩
    · rintro ⟨name', b', cipher, hgreatest', hb', hcipher, rfl⟩
      rw [hgreatest'.unique hgreatest, hb] at hb'
      obtain rfl := Except.ok.inj (Option.some.inj hb')
      exact ⟨cipher, hcipher, rfl⟩

end Catp.Provision
