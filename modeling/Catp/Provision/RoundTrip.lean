import Catp.Provision.Documented

/-!
# Bundles survive their text form

`toText` is a header comment and one line for each entry of the bundle (`toText_eq`), and each of
these lines is in its documented form (`written_lineOf`). So the text is `Documented`, and the
parser gives the bundle back.

Lines that are blank or comments, put in anywhere, and white space around lines are not seen by
the parser (`significant_of_inserted`).

* `Inserted` is a relation between texts: it starts from the lines of one and allows fillers and
  white space anywhere, before the first line and behind the last included. White space that ends
  a line is not among what may be put around one.
* `significant_of_inserted` is an induction over that relation. As the parser depends on the
  significant lines only (`parse_congr`), the second half of `parse_toText` is the first half
  again.
* The first half goes through the documented form and not through the parser: a line is `Written`,
  and what is documented is parsed (`documented_iff`).
-/

namespace Catp.Provision

open Hex Text

/-! ### The lines of a text -/

section Lines

variable {l : List Char} {ls : List (List Char)}

private theorem kept_append (ls ls' : List (List Char)) :
    kept (ls ++ ls') = kept ls ++ kept ls' := by
  rw [kept, List.map_append, List.filter_append, kept, kept]

private theorem kept_cons (l : List Char) (ls : List (List Char)) :
    kept (l :: ls) = kept [l] ++ kept ls :=
  kept_append [l] ls

private theorem kept_of_skipped (h : skipped (trim isWhitespace l) = true) : kept [l] = [] := by
  simp [kept, h]

theorem significant_unlines {last : List Char} (h : ∀ l ∈ ls, '\n' ∉ l) (hlast : '\n' ∉ last) :
    significant (unlines '\n' ls ++ last) = kept ls ++ kept [last] := by
  have hstrip : kept (ls.map (stripEnd '\r')) = kept ls := by
    rw [kept, List.map_map, kept]
    congr 1
    exact List.map_congr_left fun l _ => trim_stripEnd (by decide) l
  rw [significant, lines_unlines_append h hlast, kept_append, hstrip]
  split_ifs with hnil
  · rw [hnil]
    rfl
  · rfl

end Lines

/-! ### What the parser does not see -/

/-- White space that does not end a line. -/
def Blank (l : List Char) : Prop := ∀ c ∈ l, isWhitespace c = true ∧ c ≠ '\n'

/-- A blank line, or a comment. -/
def Filler (l : List Char) : Prop :=
  Blank l ∨ ∃ before text, Blank before ∧ '\n' ∉ text ∧ l = before ++ '#' :: text

/-- White space around lines, and fillers between them. -/
inductive InsertedLines : List (List Char) → List (List Char) → Prop
  | nil : InsertedLines [] []
  | pad {before l after ls ls'} : Blank before → Blank after → InsertedLines ls ls' →
      InsertedLines (l :: ls) ((before ++ l ++ after) :: ls')
  | filler {l ls ls'} : Filler l → InsertedLines ls ls' → InsertedLines ls (l :: ls')

/-- `s'` is `s` with white space put around its lines, and with blank lines and comments put
between them, before the first or behind the last. -/
def Inserted (s s' : List Char) : Prop :=
  ∃ ls ls' last, (∀ l ∈ ls, '\n' ∉ l) ∧ InsertedLines ls ls' ∧ Filler last ∧
    s = unlines '\n' ls ∧ s' = unlines '\n' ls' ++ last

section Insertion

variable {l : List Char} {ls ls' : List (List Char)}

private theorem blank_nil : Blank [] := fun _ hc => absurd hc List.not_mem_nil

private theorem Blank.newline_notMem (h : Blank l) : '\n' ∉ l := fun hmem => (h _ hmem).2 rfl

private theorem Filler.newline_notMem (h : Filler l) : '\n' ∉ l := by
  rcases h with hblank | ⟨before, text, hbefore, htext, rfl⟩
  · exact hblank.newline_notMem
  · rw [List.mem_append, List.mem_cons, not_or, not_or]
    exact ⟨hbefore.newline_notMem, by decide, htext⟩

private theorem Filler.kept_eq_nil (h : Filler l) : kept [l] = [] := by
  apply kept_of_skipped
  rcases h with hblank | ⟨before, text, hbefore, -, rfl⟩
  · rw [trim_eq_nil_iff.mpr fun c hc => (hblank c hc).1]
    rfl
  · rw [skipped, trim_append_left fun c hc => (hbefore c hc).1, head?_trim_cons (by decide),
      beq_self_eq_true, Bool.or_true]

theorem InsertedLines.refl (ls : List (List Char)) : InsertedLines ls ls := by
  induction ls with
  | nil => exact .nil
  | cons l ls ih => simpa using InsertedLines.pad (l := l) blank_nil blank_nil ih

private theorem InsertedLines.newline_notMem (h : InsertedLines ls ls') (hls : ∀ l ∈ ls, '\n' ∉ l) :
    ∀ l ∈ ls', '\n' ∉ l := by
  induction h with
  | nil => exact hls
  | pad hbefore hafter _ ih =>
    obtain ⟨hl, hls⟩ := List.forall_mem_cons.mp hls
    refine List.forall_mem_cons.mpr ⟨?_, ih hls⟩
    rw [List.mem_append, List.mem_append, not_or, not_or]
    exact ⟨⟨hbefore.newline_notMem, hl⟩, hafter.newline_notMem⟩
  | filler hl _ ih => exact List.forall_mem_cons.mpr ⟨hl.newline_notMem, ih hls⟩

private theorem InsertedLines.kept_eq (h : InsertedLines ls ls') : kept ls' = kept ls := by
  induction h with
  | nil => rfl
  | @pad before l after ls ls' hbefore hafter _ ih =>
    rw [kept_cons, kept_cons l, ih]
    congr 1
    rw [kept, kept, List.map_singleton, List.map_singleton,
      trim_append (fun c hc => (hbefore c hc).1) fun c hc => (hafter c hc).1]
  | filler hl _ ih => rw [kept_cons, hl.kept_eq_nil, List.nil_append, ih]

/-- **Nothing inserted is seen**: the significant lines are the same. -/
theorem significant_of_inserted {s s' : List Char} (h : Inserted s s') :
    significant s' = significant s := by
  obtain ⟨ls, ls', last, hls, hlines, hlast, rfl, rfl⟩ := h
  have hs := significant_unlines hls (List.not_mem_nil (a := '\n'))
  rw [List.append_nil] at hs
  rw [hs, significant_unlines (hlines.newline_notMem hls) hlast.newline_notMem, hlines.kept_eq,
    hlast.kept_eq_nil]
  rfl

end Insertion

/-! ### The lines of `toText` -/

/-- The entries of a bundle, in the order of its text form. -/
def Bundle.entries (b : Bundle) : List Entry :=
  [.senderId b.senderId, .deviceSecret b.deviceSecret, .cipherId b.cipherId]
    ++ b.layouts.map .layout

/-- The line `toText` writes for an entry. -/
def lineOf : Entry → List Char
  | .senderId x => "sender_id     ".toList ++ padded 8 x.toNat
  | .deviceSecret x => "device_secret ".toList ++ x.toList.flatMap hex2
  | .cipherId x => "cipher_id     ".toList ++ hex2 x
  | .layout p => "layout        ".toList ++ hex2 p.1 ++ [' '] ++ hex2 p.2

theorem toText_eq (b : Bundle) :
    b.toText = unlines '\n' (headerComment :: b.entries.map lineOf) := by
  change headerComment ++ ['\n'] ++ (lineOf (.senderId b.senderId) ++ ['\n'])
    ++ (lineOf (.deviceSecret b.deviceSecret) ++ ['\n'])
    ++ (lineOf (.cipherId b.cipherId) ++ ['\n'])
    ++ b.layouts.flatMap (fun p => lineOf (.layout p) ++ ['\n']) = _
  simp only [unlines, Bundle.entries, List.flatMap_cons, List.map_append, List.map_cons,
    List.map_nil, List.flatMap_append, List.flatMap_nil, List.flatMap_map, List.append_nil,
    List.append_assoc]

private theorem isField_padded {w n : ℕ} (hw : 0 < w) (h : n < 16 ^ w) : IsField w n (padded w n) :=
  ⟨length_padded hw h, fun _ hc => isDigit_of_mem_padded hc, number_padded _ _⟩

private theorem isField_hex2 (b : UInt8) : IsField 2 b.toNat (hex2 b) :=
  isField_padded (by decide) (lt_of_lt_of_eq b.toNat_lt (by decide))

private theorem isDigit_of_mem_secret {x : Vector UInt8 32} {c : Char}
    (h : c ∈ x.toList.flatMap hex2) :
    IsDigit c := by
  obtain ⟨b, -, hc⟩ := List.mem_flatMap.mp h
  exact isDigit_of_mem_padded hc

private theorem length_secret (x : Vector UInt8 32) : (x.toList.flatMap hex2).length = 64 := by
  have htwo : ∀ b ∈ x.toList, (hex2 b).length = 2 := fun b _ => (isField_hex2 b).1
  rw [List.length_flatMap, List.map_congr_left htwo, List.map_const',
    List.sum_replicate_nat, x.length_toList]

/-- A key, a blank, and what is behind it. -/
private theorem words_key (key pad : List Char) {l : List Char}
    (hkey : key ≠ [] ∧ key.all (!isWhitespace ·) = true)
    (hpad : pad ≠ [] ∧ pad.all isWhitespace = true) :
    words isWhitespace (key ++ pad ++ l) = key :: words isWhitespace l :=
  words_append_append hkey.1 (by simpa using hkey.2) hpad.1 (by simpa using hpad.2)

/-- Every line that `toText` writes for an entry is in its documented form. -/
theorem written_lineOf (e : Entry) : Written (lineOf e) e := by
  cases e with
  | senderId x =>
    have hfield : IsField 8 x.toNat (padded 8 x.toNat) :=
      isField_padded (by decide) (lt_of_lt_of_eq x.toNat_lt (by decide))
    refine ⟨_, ?_, hfield⟩
    rw [← words_of_digits hfield.ne_nil hfield.2.1]
    exact words_key senderIdKey (List.replicate 5 ' ') (by decide) (by decide)
  | deviceSecret x =>
    have hne : x.toList.flatMap hex2 ≠ [] := fun hnil => by
      have := length_secret x
      rw [hnil] at this
      cases this
    refine ⟨_, ?_, length_secret x, fun _ => isDigit_of_mem_secret, pairs_bytes⟩
    rw [← words_of_digits hne fun _ => isDigit_of_mem_secret]
    exact words_key deviceSecretKey [' '] (by decide) (by decide)
  | cipherId x =>
    have hfield := isField_hex2 x
    refine ⟨_, ?_, hfield⟩
    rw [← words_of_digits hfield.ne_nil hfield.2.1]
    exact words_key cipherIdKey (List.replicate 5 ' ') (by decide) (by decide)
  | layout p =>
    have hfield₁ := isField_hex2 p.1
    have hfield₂ := isField_hex2 p.2
    refine ⟨_, _, ?_, hfield₁, hfield₂⟩
    have hvalues : words isWhitespace (hex2 p.1 ++ [' '] ++ hex2 p.2) = [hex2 p.1, hex2 p.2] := by
      rw [← words_of_digits hfield₂.ne_nil hfield₂.2.1]
      exact words_key _ [' ']
        ⟨hfield₁.ne_nil, List.all_eq_true.mpr fun c hc => by
          rw [isWhitespace_of_isDigit (hfield₁.2.1 c hc)]
          rfl⟩ (by decide)
    rw [← hvalues]
    exact words_key layoutKey (List.replicate 8 ' ') (by decide) (by decide)

/-! ### Round trip -/

theorem Written.trim {l : List Char} {e : Entry} (h : Written l e) :
    Written (trim isWhitespace l) e := by
  cases e <;> simpa only [Written, words_trim] using h

/-- A line in its documented form is neither blank nor a comment. -/
private theorem Written.not_skipped {l : List Char} {e : Entry}
    (htrim : Text.trim isWhitespace l = l) (h : Written l e) : skipped l = false := by
  have hkey : ∃ key vs, words isWhitespace l = key :: vs ∧ key.head? ≠ some '#' := by
    cases e with
    | senderId x => exact ⟨_, _, h.choose_spec.1, by decide⟩
    | deviceSecret x => exact ⟨_, _, h.choose_spec.1, by decide⟩
    | cipherId x => exact ⟨_, _, h.choose_spec.1, by decide⟩
    | layout p => exact ⟨_, _, h.choose_spec.choose_spec.1, by decide⟩
  obtain ⟨key, vs, hwords, hhead⟩ := hkey
  rcases l with _ | ⟨c, l⟩
  · cases hwords
  · have hc := space_head_trim htrim
    rw [words_eq_cons htrim (List.cons_ne_nil c l), List.cons.injEq, splitFirst] at hwords
    rw [← hwords.1, List.takeWhile_cons_of_pos (by simp [hc]), List.head?_cons] at hhead
    simp only [skipped, List.isEmpty_cons, List.head?_cons, Bool.false_or]
    exact beq_eq_false_iff_ne.mpr hhead

private theorem newline_notMem_lineOf (e : Entry) : '\n' ∉ lineOf e := by
  have hdigit : ∀ {d : List Char}, (∀ c ∈ d, IsDigit c) → '\n' ∉ d := fun h hmem => by
    have : ¬IsDigit '\n' := by decide
    exact this (h _ hmem)
  have hhex : ∀ b, '\n' ∉ hex2 b := fun b => hdigit (isField_hex2 b).2.1
  cases e with
  | senderId x =>
    exact List.not_mem_append (by decide) (hdigit fun _ hc => isDigit_of_mem_padded hc)
  | deviceSecret x =>
    exact List.not_mem_append (by decide) (hdigit fun _ => isDigit_of_mem_secret)
  | cipherId x => exact List.not_mem_append (by decide) (hhex x)
  | layout p =>
    exact List.not_mem_append (List.not_mem_append (List.not_mem_append (by decide) (hhex p.1))
      (by decide)) (hhex p.2)

private theorem forall₂_written_kept (es : List Entry) :
    List.Forall₂ Written (kept (es.map lineOf)) es := by
  induction es with
  | nil => exact .nil
  | cons e es ih =>
    have hwritten := (written_lineOf e).trim
    have hkept : kept [lineOf e] = [trim isWhitespace (lineOf e)] := by
      simp [kept, hwritten.not_skipped trim_trim]
    rw [List.map_cons, kept_cons, hkept]
    exact .cons hwritten ih

theorem newline_notMem_lines (b : Bundle) :
    ∀ l ∈ headerComment :: b.entries.map lineOf, '\n' ∉ l := by
  refine List.forall_mem_cons.mpr ⟨by decide, ?_⟩
  intro l hl
  obtain ⟨e, -, rfl⟩ := List.mem_map.mp hl
  exact newline_notMem_lineOf e

theorem significant_toText (b : Bundle) : significant b.toText = kept (b.entries.map lineOf) := by
  have h := significant_unlines (newline_notMem_lines b) (List.not_mem_nil (a := '\n'))
  rw [List.append_nil, ← toText_eq] at h
  rw [h, kept_cons, show kept [headerComment] = [] by decide, List.nil_append]
  exact List.append_nil _

private theorem filterMap_layouts {α : Type} {as : Entry → Option α} (ps : List (UInt8 × UInt8))
    (h : ∀ p, as (.layout p) = none) : (ps.map Entry.layout).filterMap as = [] := by
  rw [List.filterMap_map, List.filterMap_eq_nil_iff]
  exact fun p _ => h p

/-- The text form of a bundle is in the documented form, and says the bundle. -/
theorem documented_toText (b : Bundle) : Documented b.toText b := by
  refine ⟨b.entries, ?_, ?_, ?_, ?_, ?_⟩
  · rw [significant_toText]
    exact forall₂_written_kept b.entries
  · exact congrArg (b.senderId :: ·) (filterMap_layouts _ fun _ => rfl)
  · exact congrArg (b.deviceSecret :: ·) (filterMap_layouts _ fun _ => rfl)
  · exact congrArg (b.cipherId :: ·) (filterMap_layouts _ fun _ => rfl)
  · exact (List.filterMap_map ..).trans List.filterMap_some

/-- **Round trip.** The text form of a bundle is parsed to the bundle, whatever white space is
put around its lines and whatever blank lines and comments are put between them. -/
theorem parse_toText (b : Bundle) :
    Bundle.parse b.toText = .ok b ∧
      ∀ s, Inserted b.toText s → Bundle.parse s = .ok b := by
  have hparse := (documented_iff.mp (documented_toText b)).1
  refine ⟨hparse, fun s hs => ?_⟩
  rw [parse_congr (significant_of_inserted hs), hparse]

/-- The bundle of the module documentation, with the secret of the tests. -/
def sample : Bundle := ⟨0x12345678, .replicate 32 0x42, 0x04, [(0x01, 0x01), (0x02, 0x03)]⟩

theorem parse_toText_sample :
    Bundle.parse (['\n'] ++ headerComment ++ ['\n', ' ', '\n'] ++ sample.toText) = .ok sample := by
  have hblank : Filler [] := Or.inl blank_nil
  have hspace : Filler [' '] := Or.inl (List.forall_mem_singleton.mpr (by decide))
  have hcomment : Filler headerComment :=
    Or.inr ⟨[], _, blank_nil, by decide, rfl⟩
  refine (parse_toText sample).2 _ ⟨headerComment :: sample.entries.map lineOf, _, [],
    newline_notMem_lines sample,
    .filler hblank (.filler hcomment (.filler hspace (.refl _))), hblank, toText_eq sample, ?_⟩
  rw [toText_eq]
  simp [unlines]

end Catp.Provision
