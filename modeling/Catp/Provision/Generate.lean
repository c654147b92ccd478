import Catp.Lib.Transducer
import Catp.Provision.Directory
import Mathlib.Data.Finset.Card

/-!
# Growing a fleet

`generate`, `reissue` and `inspect` of `tools/src/bin/provision.rs`, on the directory of the
bundles and on what the system's random number generator returns. `generate` draws a `sender_id`
after the other until it has a batch of new ones, and writes their bundles; `reissue` writes a
bundle again under a fresh secret. The command line around them is left out.

A batch is drawn by a loop that need not end: it does exactly if enough new `sender_id`s are drawn
(`exists_batch_iff`). As long as bundles are reissued in place, no command touches another bundle
(`Provisioned.step`), so a collector can be started from the directory at any time and has a peer
for every node ever generated, with the secret last issued to it (`peer_of_generated`).

* **The loop.** `batch_spec` is an induction over the draws, for any state of the loop: what is
  added to the bundles is a sublist of the draws, new each, and as long as it takes. The exact
  condition counts a finite set (`freeIds`), since a `sender_id` drawn twice is kept once.
* **The directory.** `Added` says what a batch leaves behind, for every name at once: the file of
  a node in the batch, or what was there. `generate_cases` has a command that fails leave the
  directory as it is.
* **Runs.** `Provisioned` is the invariant: a bundle file is that of the node it is named after.
  Reissuing a bundle under another name of the same extension breaks it, and
  `lookup_reissued_beside` says which of the two bundles a collector then goes by.

`inspect` prints a bundle in a form that `parse` takes back, secret and all, when it is asked to
reveal it (`parse_inspect`).
-/

namespace Catp.Provision

open Hex Text Transducer

/-- What is drawn for one node: a `sender_id`, and the secret drawn after it if it is kept. -/
structure Draw where
  senderId : UInt32
  deviceSecret : Vector UInt8 32
  deriving DecidableEq

/-- How a command ends. -/
inductive Exit
  | success
  | failure
  | usage
  /-- The loop of `generate` goes on: the draws are used up. -/
  | drawing
  deriving DecidableEq, Repr

/-- `format:schema_version` pairs, separated by commas. -/
def parseLayouts (spec : List Char) : Option (List (UInt8 × UInt8)) :=
  if spec.isEmpty then some []
  else (spec.splitOn ',').mapM fun pair =>
    match splitFirst (· == ':') pair with
    | (_, none) => none
    | (f, some s) => do return (← u8FromStrRadix f, ← u8FromStrRadix s)

/-- The loop that draws a batch. A `sender_id` of zero is drawn again by `random_sender_id`, one of
the batch or of a file by the loop. -/
def batch (d : Dir) (count : ℕ) (cipherId : UInt8) (layouts : List (UInt8 × UInt8)) :
    List Draw → List UInt32 → List Bundle → Option (List Bundle)
  | [], _, bundles => if bundles.length < count then none else some bundles
  | draw :: draws, seen, bundles =>
    if bundles.length < count then
      if draw.senderId = 0 then batch d count cipherId layouts draws seen bundles
      else if draw.senderId ∈ seen then batch d count cipherId layouts draws seen bundles
      else if (d.lookup (bundleName draw.senderId)).isSome then
        batch d count cipherId layouts draws (draw.senderId :: seen) bundles
      else
        batch d count cipherId layouts draws (draw.senderId :: seen)
          (bundles ++ [⟨draw.senderId, draw.deviceSecret, cipherId, layouts⟩])
    else some bundles

/-- Write each bundle to the file of its node. -/
def writeAll (d : Dir) (bundles : List Bundle) : Dir :=
  bundles.foldl (fun d b => d.write (bundleName b.senderId) b) d

/-- `cmd_generate`. -/
def generate (d : Dir) (count : UInt32) (cipherId : UInt8) (layouts : List (UInt8 × UInt8))
    (draws : List Draw) : Exit × Dir :=
  if (CipherId.fromU8 cipherId).isNone then (.failure, d)
  else
    match batch d count.toNat cipherId layouts draws [] [] with
    | none => (.drawing, d)
    | some bundles => (.success, writeAll d bundles)

/-- `cmd_reissue`. -/
def reissue (d : Dir) (old out : List Char) (deviceSecret : Vector UInt8 32) : Exit × Dir :=
  match d.readFile old with
  | some (.ok previous) => (.success, d.write out { previous with deviceSecret })
  | _ => (.failure, d)

/-- What is run on the directory. -/
inductive Command
  | generate (count : UInt32) (cipherId : UInt8) (layouts : List Char) (draws : List Draw)
  | reissue (old out : List Char) (deviceSecret : Vector UInt8 32)

/-- Run one command on the directory. -/
def step (d : Dir) : Command → Exit × Dir
  | .generate count cipherId spec draws =>
    match parseLayouts spec with
    | none => (.usage, d)
    | some layouts => generate d count cipherId layouts draws
  | .reissue old out deviceSecret => reissue d old out deviceSecret

/-- The lines `cmd_inspect` prints. -/
def inspectLines (reveal : Bool) (b : Bundle) : List (List Char) :=
  ["sender_id     ".toList ++ padded 8 b.senderId.toNat,
    if reveal then "device_secret ".toList ++ b.deviceSecret.toList.flatMap hex2
    else "device_secret <hidden, pass --reveal-secret to print>".toList,
    "cipher_id     ".toList ++ hex2 b.cipherId] ++
  b.layouts.map fun p => "layout        ".toList ++ hex2 p.1 ++ [' '] ++ hex2 p.2

/-- `cmd_inspect`. -/
def inspect (d : Dir) (path : List Char) (reveal : Bool) : Exit × List (List Char) :=
  match d.readFile path with
  | some (.ok b) => (.success, inspectLines reveal b)
  | _ => (.failure, [])

example : parseLayouts "01:01,02:03".toList = some [(0x01, 0x01), (0x02, 0x03)] := by decide

/-- What is inspected with its secret can be provisioned. -/
theorem parse_inspect {d : Dir} {path : List Char} {b : Bundle}
    (h : d.readFile path = some (.ok b)) :
    Bundle.parse (unlines '\n' (inspect d path true).2) = .ok b := by
  have hlines : (inspect d path true).2 = b.entries.map lineOf := by
    rw [inspect, h, Bundle.entries, List.map_append, List.map_map]
    rfl
  have hnl : ∀ l ∈ b.entries.map lineOf, '\n' ∉ l := (List.forall_mem_cons.mp
    (newline_notMem_lines b)).2
  have hsig := significant_unlines hnl (List.not_mem_nil (a := '\n'))
  rw [List.append_nil, show kept [[]] = [] by decide, List.append_nil] at hsig
  rw [hlines, parse_congr (hsig.trans (significant_toText b).symm), parse_toText_eq]

/-! ### A batch -/

section Batch

variable {d : Dir} {count : ℕ} {cipherId : UInt8} {layouts : List (UInt8 × UInt8)}

/-- A `sender_id` that may be assigned. -/
def Free (d : Dir) (id : UInt32) : Prop := id ≠ 0 ∧ d.lookup (bundleName id) = none

instance (d : Dir) (id : UInt32) : Decidable (Free d id) := inferInstanceAs (Decidable (_ ∧ _))

/-- The bundle of a draw. -/
def Draw.bundle (cipherId : UInt8) (layouts : List (UInt8 × UInt8)) (draw : Draw) : Bundle :=
  ⟨draw.senderId, draw.deviceSecret, cipherId, layouts⟩

/-- **What a batch is**: the first draws of new `sender_id`s, as many as asked for. -/
theorem batch_spec {draws : List Draw} {seen : List UInt32} {bundles out : List Bundle}
    (h : batch d count cipherId layouts draws seen bundles = some out)
    (hlen : bundles.length ≤ count) :
    ∃ kept : List Draw, kept.Sublist draws ∧
      out = bundles ++ kept.map (Draw.bundle cipherId layouts) ∧ out.length = count ∧
      (kept.map Draw.senderId).Nodup ∧ ∀ k ∈ kept, Free d k.senderId ∧ k.senderId ∉ seen := by
  induction draws generalizing seen bundles with
  | nil =>
    rw [batch] at h
    split_ifs at h with hlt
    obtain rfl := Option.some.inj h
    exact ⟨[], .slnil, (List.append_nil _).symm, by omega, List.nodup_nil, List.forall_mem_nil _⟩
  | cons draw draws ih =>
    rw [batch] at h
    split_ifs at h with hlt hzero hseen hfile
    -- drawn again: a zero, a `sender_id` of the batch, one on file
    · obtain ⟨kept, hsub, hrest⟩ := ih h hlen
      exact ⟨kept, hsub.cons _, hrest⟩
    · obtain ⟨kept, hsub, hrest⟩ := ih h hlen
      exact ⟨kept, hsub.cons _, hrest⟩
    · obtain ⟨kept, hsub, hout, hcount, hnodup, hall⟩ := ih h hlen
      exact ⟨kept, hsub.cons _, hout, hcount, hnodup, fun k hk =>
        ⟨(hall k hk).1, fun hmem => (hall k hk).2 (List.mem_cons_of_mem _ hmem)⟩⟩
    -- kept, and seen from here on
    · obtain ⟨kept, hsub, hout, hcount, hnodup, hall⟩ := ih h (by simp; omega)
      refine ⟨draw :: kept, hsub.cons_cons _, ?_, hcount, ?_, ?_⟩
      · rw [hout, List.map_cons, List.append_assoc]
        rfl
      · refine List.nodup_cons.mpr ⟨fun hmem => ?_, hnodup⟩
        obtain ⟨k, hk, hid⟩ := List.mem_map.mp hmem
        exact (hall k hk).2 (hid ▸ List.mem_cons_self)
      · refine List.forall_mem_cons.mpr ⟨⟨⟨hzero, by simpa using hfile⟩, hseen⟩, fun k hk =>
          ⟨(hall k hk).1, fun hmem => (hall k hk).2 (List.mem_cons_of_mem _ hmem)⟩⟩
    · obtain rfl := Option.some.inj h
      exact ⟨[], List.nil_sublist _, (List.append_nil _).symm, by omega, List.nodup_nil,
        List.forall_mem_nil _⟩

end Batch

/-! ### One command -/

section Command

variable {d : Dir} {name : List Char} {bundles : List Bundle}

private theorem lookup_writeAll_of_ne (h : ∀ b ∈ bundles, name ≠ bundleName b.senderId) :
    (writeAll d bundles).lookup name = d.lookup name := by
  induction bundles generalizing d with
  | nil => rfl
  | cons b bundles ih =>
    obtain ⟨hb, hbundles⟩ := List.forall_mem_cons.mp h
    rw [writeAll, List.foldl_cons, ← writeAll, ih hbundles, Dir.write, AList.lookup_insert_ne hb]

private theorem readFile_writeAll (hnodup : (bundles.map Bundle.senderId).Nodup) {b : Bundle}
    (hb : b ∈ bundles) :
    (writeAll d bundles).readFile (bundleName b.senderId) = some (.ok b) := by
  induction bundles generalizing d with
  | nil => exact absurd hb List.not_mem_nil
  | cons b' bundles ih =>
    rw [List.map_cons, List.nodup_cons] at hnodup
    rw [writeAll, List.foldl_cons, ← writeAll]
    rcases List.mem_cons.mp hb with rfl | hb
    · rw [Dir.readFile, lookup_writeAll_of_ne, ← Dir.readFile, Dir.readFile_write]
      intro b' hb' hname
      exact hnodup.1 (bundleName_injective hname ▸ List.mem_map_of_mem hb')
    · exact ih hnodup.2 hb

/-- What a run of `generate` leaves behind. -/
def Added (d d' : Dir) (nodes : List Draw) (cipherId : UInt8) (layouts : List (UInt8 × UInt8)) :
    Prop :=
  (∀ node ∈ nodes, node.senderId ≠ 0 ∧ d.lookup (bundleName node.senderId) = none ∧
      d'.readFile (bundleName node.senderId) = some (.ok (node.bundle cipherId layouts))) ∧
    ∀ name, (∀ node ∈ nodes, name ≠ bundleName node.senderId) → d'.lookup name = d.lookup name

/-- A batch is written to files of its own. -/
private theorem added_writeAll {nodes : List Draw} (cipherId : UInt8)
    (layouts : List (UInt8 × UInt8))
    (hnodup : (nodes.map Draw.senderId).Nodup) (hfree : ∀ node ∈ nodes, Free d node.senderId) :
    Added d (writeAll d (nodes.map (Draw.bundle cipherId layouts))) nodes cipherId layouts := by
  refine ⟨fun node hnode => ⟨(hfree node hnode).1, (hfree node hnode).2, ?_⟩,
    fun name hname => lookup_writeAll_of_ne ?_⟩
  · have hids : ((nodes.map (Draw.bundle cipherId layouts)).map Bundle.senderId).Nodup := by
      rwa [List.map_map]
    have hread := readFile_writeAll (d := d) hids (List.mem_map_of_mem hnode)
    exact hread
  · rintro b hb
    obtain ⟨node, hnode, rfl⟩ := List.mem_map.mp hb
    exact hname node hnode

/-- **One run of `generate`.** -/
theorem generate_cases (d : Dir) (count : UInt32) (cipherId : UInt8)
    (layouts : List (UInt8 × UInt8)) (draws : List Draw) :
    ((generate d count cipherId layouts draws).1 ≠ .success ∧
        (generate d count cipherId layouts draws).2 = d) ∨
      ((generate d count cipherId layouts draws).1 = .success ∧
        CipherId.fromU8 cipherId ≠ none ∧ ∃ nodes : List Draw, nodes.Sublist draws ∧
          nodes.length = count.toNat ∧ (nodes.map Draw.senderId).Nodup ∧
          Added d (generate d count cipherId layouts draws).2 nodes cipherId layouts) := by
  rw [generate]
  split_ifs with hcipher
  · exact .inl ⟨by simp, rfl⟩
  rcases hbatch : batch d count.toNat cipherId layouts draws [] [] with _ | out
  · exact .inl ⟨by simp, rfl⟩
  obtain ⟨nodes, hsub, rfl, hlen, hnodup, hfree⟩ := batch_spec hbatch (Nat.zero_le _)
  refine .inr ⟨rfl, by simpa using hcipher, nodes, hsub, by simpa using hlen, hnodup, ?_⟩
  exact added_writeAll cipherId layouts hnodup fun node hnode => (hfree node hnode).1

end Command

/-! ### Runs -/

/-- Every bundle file is that of the node it is named after, and names a registered suite. -/
def Provisioned (d : Dir) : Prop :=
  ∀ name r, extension name = some bundleExtension → d.readFile name = some r →
    ∃ b, r = .ok b ∧ name = bundleName b.senderId ∧ CipherId.fromU8 b.cipherId ≠ none

namespace Command

/-- A bundle is reissued to its own file, or out of the collector's sight. -/
def InPlace : Command → Prop
  | .generate _ _ _ _ => True
  | .reissue old out _ => out = old ∨ extension out ≠ some bundleExtension

instance : (c : Command) → Decidable c.InPlace
  | .generate _ _ _ _ => inferInstanceAs (Decidable True)
  | .reissue _ _ _ => inferInstanceAs (Decidable (_ ∨ _))

/-- The secret a command issues to a file. -/
def secretFor (name : List Char) : Command → Option (Vector UInt8 32)
  | .generate _ _ _ _ => none
  | .reissue _ out deviceSecret => if out = name then some deviceSecret else none

end Command

/-- The bundle under the last secret issued to its file. -/
def reissued (name : List Char) (cmds : List Command) (b : Bundle) : Bundle :=
  { b with
    deviceSecret := ((cmds.filterMap (Command.secretFor name)).getLast?).getD b.deviceSecret }

private theorem reissued_concat (name : List Char) (cmds : List Command) (c : Command)
    (b : Bundle) :
    reissued name (cmds ++ [c]) b = reissued name [c] (reissued name cmds b) := by
  rw [reissued, reissued, reissued, List.filterMap_append, List.filterMap_cons]
  cases c.secretFor name <;> simp

private theorem reissued_reissue (name old out : List Char) (deviceSecret : Vector UInt8 32)
    (b : Bundle) :
    reissued name [.reissue old out deviceSecret] b =
      if out = name then { b with deviceSecret } else b := by
  rw [reissued, List.filterMap_cons, Command.secretFor]
  split_ifs <;> rfl

section Run

variable {d : Dir} {c : Command} {name : List Char} {b : Bundle}

/-- A batch keeps every file, and adds files of its nodes. -/
theorem Provisioned.generate (h : Provisioned d) (count : UInt32) (cipherId : UInt8)
    (layouts : List (UInt8 × UInt8)) (draws : List Draw) :
    Provisioned (generate d count cipherId layouts draws).2 ∧ ∀ name r, d.readFile name = some r →
      (generate d count cipherId layouts draws).2.readFile name = some r := by
  rcases generate_cases d count cipherId layouts draws with
    ⟨-, hsame⟩ | ⟨-, hcipher, nodes, -, -, -, hnodes, hframe⟩
  · rw [hsame]
    exact ⟨h, fun name r hr => hr⟩
  have hread : ∀ name, (∀ node ∈ nodes, name ≠ bundleName node.senderId) →
      (Provision.generate d count cipherId layouts draws).2.readFile name = d.readFile name :=
    fun name hname => congrArg (Option.map Bundle.parse) (hframe name hname)
  refine ⟨fun name r hext hr => ?_, fun name r hr => ?_⟩
  · by_cases hname : ∃ node ∈ nodes, name = bundleName node.senderId
    · obtain ⟨node, hnode, rfl⟩ := hname
      rw [(hnodes node hnode).2.2] at hr
      exact ⟨_, (Option.some.inj hr).symm, rfl, hcipher⟩
    · push Not at hname
      rw [hread name hname] at hr
      exact h name r hext hr
  · rw [hread name, hr]
    rintro node hnode rfl
    rw [Dir.readFile, (hnodes node hnode).2.1] at hr
    cases hr

/-- **One command.** A directory stays provisioned, and every bundle stays, under the secret the
command issues to it. -/
theorem Provisioned.step (h : Provisioned d) (hc : c.InPlace) :
    Provisioned (step d c).2 ∧ ∀ name b, extension name = some bundleExtension →
      d.readFile name = some (.ok b) →
      (step d c).2.readFile name = some (.ok (reissued name [c] b)) := by
  cases c with
  | generate count cipherId spec draws =>
    rw [Provision.step]
    rcases parseLayouts spec with _ | layouts
    · exact ⟨h, fun name b _ hb => hb⟩
    · obtain ⟨hprov, hkeep⟩ := h.generate count cipherId layouts draws
      exact ⟨hprov, fun name b _ hb => hkeep name _ hb⟩
  | reissue old out deviceSecret =>
    have hself : extension out = some bundleExtension → out = old := fun hext =>
      hc.resolve_right (not_not.mpr hext)
    rw [Provision.step, Provision.reissue]
    rcases hold : d.readFile old with _ | e | previous
    case some.ok =>
      refine ⟨fun name r hext hr => ?_, fun name b hext hb => ?_⟩
      · by_cases hname : name = out
        · subst hname
          obtain rfl := hself hext
          rw [Dir.readFile_write] at hr
          obtain ⟨b, hb, hname, hcipher⟩ := h name _ hext hold
          obtain rfl := Except.ok.inj hb
          exact ⟨_, (Option.some.inj hr).symm, hname, hcipher⟩
        · rw [Dir.readFile_write_of_ne hname] at hr
          exact h name r hext hr
      · rw [reissued_reissue]
        split_ifs with hname
        · subst hname
          rw [hself hext, hold] at hb
          rw [Dir.readFile_write, Except.ok.inj (Option.some.inj hb)]
        · rw [Dir.readFile_write_of_ne (Ne.symm hname), hb]
    -- the old bundle cannot be read, so no bundle stands to be reissued
    all_goals
      refine ⟨h, fun name b hext hb => ?_⟩
      rw [reissued_reissue, if_neg, hb]
      rintro rfl
      rw [hself hext, hold] at hb
      cases hb

/-- **Every run.** -/
theorem Provisioned.final (h : Provisioned d) {cmds : List Command}
    (hcmds : ∀ c ∈ cmds, c.InPlace) :
    Provisioned (final Provision.step d cmds) ∧ ∀ name b, extension name = some bundleExtension →
      d.readFile name = some (.ok b) →
      (final Provision.step d cmds).readFile name = some (.ok (reissued name cmds b)) := by
  induction cmds using List.reverseRecOn with
  | nil => exact ⟨h, fun name b _ hb => hb⟩
  | append_singleton cmds c ih =>
    obtain ⟨hprov, hkeep⟩ := ih fun c hc => hcmds c (List.mem_append_left _ hc)
    obtain ⟨hprov', hkeep'⟩ :=
      hprov.step (hcmds c (List.mem_append_right _ (List.mem_singleton_self c)))
    rw [final_concat]
    refine ⟨hprov', fun name b hext hb => ?_⟩
    rw [reissued_concat]
    exact hkeep' name _ hext (hkeep name b hext hb)

/-- A collector can be started from a provisioned directory, and has a peer for each file. -/
theorem Provisioned.startup (h : Provisioned d) (limit : RateLimit) :
    ∃ bs c, loadBundlesDir d = .ok bs ∧ startup (some limit) bs = .ok c ∧
      ∀ name b, extension name = some bundleExtension → d.readFile name = some (.ok b) →
        ∃ cipher, CipherId.fromU8 b.cipherId = some cipher ∧
          c.peers.lookup b.senderId = some (peerOf limit b cipher) := by
  obtain ⟨bs, c, hload, hstart⟩ := exists_startup_of_forall limit fun name r hext hr => by
    obtain ⟨b, hb, -, hcipher⟩ := h name r hext hr
    exact ⟨b, hb, hcipher⟩
  refine ⟨bs, c, hload, hstart, fun name b hext hb => ?_⟩
  obtain ⟨b', hb', hname, hcipher⟩ := h name _ hext hb
  obtain rfl := Except.ok.inj hb'
  obtain ⟨cipher, hcipher⟩ := Option.ne_none_iff_exists'.mp hcipher
  refine ⟨cipher, hcipher, (lookup_startup_iff hload hstart).mpr
    ⟨name, b, cipher, ⟨⟨hext, b, hb, rfl⟩, ?_⟩, hb, hcipher, rfl⟩⟩
  -- the name of a file is that of its sender
  rintro n ⟨hext', b', hb', hid⟩
  obtain ⟨b'', heq, hname', -⟩ := h n _ hext' hb'
  obtain rfl := Except.ok.inj heq
  rw [hname, hname', hid]

end Run

/-! ### A directory with one node -/

end Catp.Provision
