import Catp.Provision.Bundle

/-!
# Bundles in the documented form

`Documented s b` says that the text `s` is written the way the module documentation shows it, and
that the bundle `b` is what it says: one line for each single-valued field, and fields of the
documented widths. The parser accepts more. `documented_iff` says how much: the documented texts
are the accepted ones that are `Strict`, which repeat no single-valued field, sign no number and
give each number its width.

A field is compared where it is read. `isField_iff` says that a number of the documented width is
what the parser reads, without a sign and of that width; `exists_field_iff` lifts this to a key
with one number behind it, and `written_iff` to all four kinds of line. What remains is counting:
in an accepted text a single-valued field is set as often as its key begins a line
(`count_le_one_iff`).

`Strict` looks at the text alone, so `documented_iff` is a condition on the input under which the
parser accepts no more than is documented. `documented_twice` is an accepted text that is not
strict, and not documented.
-/

namespace Catp.Provision

open Hex Text

/-- `w` digits, which are the number `n`. -/
def IsField (w n : ℕ) (d : List Char) : Prop :=
  d.length = w ∧ (∀ c ∈ d, IsDigit c) ∧ number d = n

/-- A line in its documented form: the key and its values, with white space between them. -/
def Written (l : List Char) : Entry → Prop
  | .senderId x => ∃ d, words isWhitespace l = [senderIdKey, d] ∧ IsField 8 x.toNat d
  | .deviceSecret x => ∃ d, words isWhitespace l = [deviceSecretKey, d] ∧ d.length = 64 ∧
      (∀ c ∈ d, IsDigit c) ∧ (pairs d).map (fun p => number [p.1, p.2]) = x.toList.map UInt8.toNat
  | .cipherId x => ∃ d, words isWhitespace l = [cipherIdKey, d] ∧ IsField 2 x.toNat d
  | .layout p => ∃ d e, words isWhitespace l = [layoutKey, d, e] ∧ IsField 2 p.1.toNat d ∧
      IsField 2 p.2.toNat e

/-- The significant lines of the text are in their documented form, exactly one for each
single-valued field, and they say what is in the bundle. -/
def Documented (s : List Char) (b : Bundle) : Prop :=
  ∃ es, List.Forall₂ Written (significant s) es ∧
    es.filterMap Entry.asSenderId = [b.senderId] ∧
    es.filterMap Entry.asDeviceSecret = [b.deviceSecret] ∧
    es.filterMap Entry.asCipherId = [b.cipherId] ∧
    es.filterMap Entry.asLayout = b.layouts

/-- What stands before the first white space of a line. -/
def keyOf (l : List Char) : List Char := (splitFirst isWhitespace l).1

/-- What stands behind it. -/
def restOf (l : List Char) : List Char :=
  trim isWhitespace ((splitFirst isWhitespace l).2.getD [])

/-- A number of `w` characters, without a sign. -/
def Plain (w : ℕ) (d : List Char) : Prop := d.length = w ∧ d.head? ≠ some '+'

/-- The numbers of the line have their documented widths, and no sign. -/
def StrictLine (l : List Char) : Prop :=
  (keyOf l = senderIdKey → ∀ d ∈ words isWhitespace (restOf l), Plain 8 d) ∧
    (keyOf l = cipherIdKey ∨ keyOf l = layoutKey →
      ∀ d ∈ words isWhitespace (restOf l), Plain 2 d)

/-- No single-valued field stands on two lines, and every number has its documented width and no
sign. -/
def Strict (s : List Char) : Prop :=
  (∀ l ∈ significant s, StrictLine l) ∧
    ∀ key ∈ [senderIdKey, deviceSecretKey, cipherIdKey],
      ((significant s).map keyOf).count key ≤ 1

instance (w : ℕ) (d : List Char) : Decidable (Plain w d) := inferInstanceAs (Decidable (_ ∧ _))

instance (l : List Char) : Decidable (StrictLine l) := inferInstanceAs (Decidable (_ ∧ _))

instance (s : List Char) : Decidable (Strict s) := inferInstanceAs (Decidable (_ ∧ _))

/-! ### What a line says -/

private theorem mem_significant {s l : List Char} (h : l ∈ significant s) :
    trim isWhitespace l = l ∧ l ≠ [] := by
  obtain ⟨hmem, hskip⟩ := List.mem_filter.mp h
  obtain ⟨l', -, rfl⟩ := List.mem_map.mp hmem
  refine ⟨trim_trim, ?_⟩
  intro hnil
  rw [hnil] at hskip
  cases hskip

private theorem trim_restOf (l : List Char) : trim isWhitespace (restOf l) = restOf l := trim_trim

private theorem entryOf_eq (l : List Char) : entryOf l = entry (keyOf l) (restOf l) := rfl

variable {key rest l d : List Char} {e : Entry}

/-- What a key and the text behind it have to be for an entry. -/
def Says (key rest : List Char) : Entry → Prop
  | .senderId x => key = senderIdKey ∧ u32FromStrRadix rest = some x
  | .deviceSecret x => key = deviceSecretKey ∧ secretOf rest = .ok x
  | .cipherId x => key = cipherIdKey ∧ u8FromStrRadix rest = some x
  | .layout p => key = layoutKey ∧ layoutOf rest = .ok p

private theorem keys_ne : senderIdKey ≠ deviceSecretKey ∧ senderIdKey ≠ cipherIdKey ∧
    senderIdKey ≠ layoutKey ∧ deviceSecretKey ≠ cipherIdKey ∧ deviceSecretKey ≠ layoutKey ∧
    cipherIdKey ≠ layoutKey := by
  decide

theorem entry_eq_ok_iff : entry key rest = .ok e ↔ Says key rest e := by
  obtain ⟨hsd, hsc, hsl, hdc, hdl, hcl⟩ := keys_ne
  unfold entry
  split_ifs with h1 h2 h3 h4
  · cases e <;> simp [map_eq_ok_iff, Says, orBad_eq_ok_iff, h1, hsd, hsc, hsl]
  · cases e <;> simp [map_eq_ok_iff, Says, h2, hsd.symm, hdc, hdl]
  · cases e <;> simp [map_eq_ok_iff, Says, orBad_eq_ok_iff, h3, hsc.symm, hdc.symm, hcl]
  · cases e <;> simp [map_eq_ok_iff, Says, h4, hsl.symm, hdl.symm, hcl.symm]
  · cases e <;> simp [Says, h1, h2, h3, h4]

theorem secretOf_eq_ok_iff {x : Vector UInt8 32} :
    secretOf rest = .ok x ↔ rest.length = 64 ∧ (∀ c ∈ rest, IsDigit c) ∧
      (pairs rest).map (fun p => number [p.1, p.2]) = x.toList.map UInt8.toNat := by
  have hparse : secretOf rest = .ok x ↔ parseHexBytes rest = some x.toList := by
    simp only [secretOf, bind_eq_ok_iff, orBad_eq_ok_iff]
    constructor
    · rintro ⟨bytes, hbytes, h⟩
      split_ifs at h with hlen
      rw [hbytes, ← Except.ok.inj h]
      rfl
    · intro h
      exact ⟨_, h, dif_pos x.length_toList⟩
  rw [hparse, parseHexBytes_eq_some_iff]
  constructor
  · rintro ⟨hdigits, heven, hbytes⟩
    have hlen := congrArg List.length hbytes
    rw [List.length_map, length_pairs, List.length_map, x.length_toList] at hlen
    exact ⟨by omega, hdigits, hbytes⟩
  · rintro ⟨hlen, hdigits, hbytes⟩
    exact ⟨hdigits, by rw [hlen], hbytes⟩

theorem layoutOf_eq_ok_iff {p : UInt8 × UInt8} :
    layoutOf rest = .ok p ↔ ∃ d e, words isWhitespace rest = [d, e] ∧
      u8FromStrRadix d = some p.1 ∧ u8FromStrRadix e = some p.2 := by
  obtain ⟨format, schemaVersion⟩ := p
  rw [layoutOf]
  rcases words isWhitespace rest with _ | ⟨d, _ | ⟨e, _ | ⟨g, ws⟩⟩⟩
  · simp
  · simp
  · simp only [bind_eq_ok_iff, orBad_eq_ok_iff, Except.ok.injEq, Prod.mk.injEq]
    constructor
    · rintro ⟨_, hd, _, he, rfl, rfl⟩
      exact ⟨d, e, rfl, hd, he⟩
    · rintro ⟨_, _, hde, hd, he⟩
      cases hde
      exact ⟨_, hd, _, he, rfl, rfl⟩
  · simp

/-! ### Strict lines -/

theorem IsField.ne_nil {w n : ℕ} (h : IsField (w + 1) n d) : d ≠ [] := by
  rintro rfl
  cases h.1

private theorem head_ne_plus (h : ∀ c ∈ d, IsDigit c) : d.head? ≠ some '+' := by
  intro hhead
  have : ¬IsDigit '+' := by decide
  exact this (h _ (List.mem_of_head? hhead))

/-- A field of a width is what `from_str_radix` reads, without a sign and of that width. -/
theorem isField_iff {w n : ℕ} :
    IsField (w + 1) n d ↔ (IsNumber (unsigned d) ∧ number (unsigned d) = n) ∧ Plain (w + 1) d := by
  constructor
  · rintro h
    have hhead := head_ne_plus h.2.1
    rw [unsigned, if_neg hhead]
    exact ⟨⟨⟨h.ne_nil, h.2.1⟩, h.2.2⟩, h.1, hhead⟩
  · rintro ⟨⟨hnum, hval⟩, hlen, hhead⟩
    rw [unsigned, if_neg hhead] at hnum hval
    exact ⟨hlen, hnum.2, hval⟩

theorem words_of_digits (hne : d ≠ []) (hd : ∀ c ∈ d, IsDigit c) : words isWhitespace d = [d] :=
  words_of_forall hne fun c hc => isWhitespace_of_isDigit (hd c hc)

/-- Nothing in a number, with its sign, is white space. -/
private theorem words_of_isNumber (h : IsNumber (unsigned d)) : words isWhitespace d = [d] := by
  rcases d with _ | ⟨a, d⟩
  · exact absurd rfl h.1
  · rw [unsigned, List.head?_cons, List.tail_cons] at h
    split_ifs at h with hplus
    · refine words_of_forall (List.cons_ne_nil _ _) (List.forall_mem_cons.mpr ⟨?_, ?_⟩)
      · rw [Option.some.inj hplus]
        decide
      · exact fun c hc => isWhitespace_of_isDigit (h.2 c hc)
    · exact words_of_digits h.1 h.2

/-- A key and one number behind it, in the documented form or as the parser reads it. -/
theorem exists_field_iff {w n : ℕ}
    (hwords : words isWhitespace l = keyOf l :: words isWhitespace (restOf l)) :
    (∃ d, words isWhitespace l = [key, d] ∧ IsField (w + 1) n d) ↔
      (keyOf l = key ∧ IsNumber (unsigned (restOf l)) ∧ number (unsigned (restOf l)) = n) ∧
        ∀ d ∈ words isWhitespace (restOf l), Plain (w + 1) d := by
  constructor
  · rintro ⟨d, hd, hfield⟩
    rw [hwords, List.cons.injEq] at hd
    obtain rfl := eq_of_words_eq_singleton (trim_restOf l) hd.2
    obtain ⟨hnum, hplain⟩ := isField_iff.mp hfield
    refine ⟨⟨hd.1, hnum⟩, ?_⟩
    rw [hd.2]
    exact fun d hd => List.mem_singleton.mp hd ▸ hplain
  · rintro ⟨⟨hkey, hnum⟩, hplain⟩
    have hone := words_of_isNumber hnum.1
    rw [hone] at hplain
    exact ⟨_, by rw [hwords, hkey, hone], isField_iff.mpr ⟨hnum, hplain _ List.mem_cons_self⟩⟩

/-- **A line in its documented form** is a line that gives the entry, and is strict. -/
theorem written_iff (htrim : trim isWhitespace l = l) (hne : l ≠ []) :
    Written l e ↔ entryOf l = .ok e ∧ StrictLine l := by
  obtain ⟨hsd, hsc, hsl, hdc, hdl, hcl⟩ := keys_ne
  have hwords : words isWhitespace l = keyOf l :: words isWhitespace (restOf l) :=
    words_eq_cons htrim hne
  rw [entryOf_eq, entry_eq_ok_iff, StrictLine]
  -- each conjunct of `StrictLine` is about one key, and the keys are different
  cases e with
  | senderId x =>
    rw [Says, u32FromStrRadix_eq_some_iff, Written, exists_field_iff hwords]
    constructor
    · rintro ⟨⟨hkey, hnum⟩, hplain⟩
      exact ⟨⟨hkey, hnum⟩, fun _ => hplain, fun h => by simp [hkey, hsc, hsl] at h⟩
    · rintro ⟨hmeans, hplain, -⟩
      exact ⟨hmeans, hplain hmeans.1⟩
  | deviceSecret x =>
    rw [Says, secretOf_eq_ok_iff]
    constructor
    · rintro ⟨d, hd, hsecret⟩
      rw [hwords, List.cons.injEq] at hd
      rw [eq_of_words_eq_singleton (trim_restOf l) hd.2]
      exact ⟨⟨hd.1, hsecret⟩, fun h => by simp [hd.1, hsd.symm] at h,
        fun h => by simp [hd.1, hdc, hdl] at h⟩
    · rintro ⟨⟨hkey, hsecret⟩, -⟩
      -- 64 digits are not nothing, so they are a word
      have hnil : restOf l ≠ [] := fun hnil => by
        rw [hnil] at hsecret
        cases hsecret.1
      exact ⟨_, by rw [hwords, hkey, words_of_digits hnil hsecret.2.1], hsecret⟩
  | cipherId x =>
    rw [Says, u8FromStrRadix_eq_some_iff, Written, exists_field_iff hwords]
    constructor
    · rintro ⟨⟨hkey, hnum⟩, hplain⟩
      exact ⟨⟨hkey, hnum⟩, fun h => by simp [hkey, hsc.symm] at h, fun _ => hplain⟩
    · rintro ⟨hmeans, -, hplain⟩
      exact ⟨hmeans, hplain (Or.inl hmeans.1)⟩
  | layout p =>
    rw [Says, layoutOf_eq_ok_iff]
    simp only [u8FromStrRadix_eq_some_iff]
    constructor
    · rintro ⟨d, e, hde, hd, he⟩
      rw [hwords, List.cons.injEq] at hde
      obtain ⟨hnumd, hplaind⟩ := isField_iff.mp hd
      obtain ⟨hnume, hplaine⟩ := isField_iff.mp he
      refine ⟨⟨hde.1, d, e, hde.2, hnumd, hnume⟩, fun h => by simp [hde.1, hsl.symm] at h, ?_⟩
      rw [hde.2]
      simp [hplaind, hplaine]
    · rintro ⟨⟨hkey, d, e, hde, hnumd, hnume⟩, -, hplain⟩
      have hplain := hplain (Or.inr hkey)
      rw [hde] at hplain
      obtain ⟨hplaind, hplaine⟩ := List.forall_mem_cons.mp hplain
      exact ⟨d, e, by rw [hwords, hkey, hde], isField_iff.mpr ⟨hnumd, hplaind⟩,
        isField_iff.mpr ⟨hnume, hplaine e List.mem_cons_self⟩⟩

/-! ### Strict texts -/

theorem forall₂_written_iff {ls : List (List Char)} {es : List Entry}
    (hls : ∀ l ∈ ls, trim isWhitespace l = l ∧ l ≠ []) :
    List.Forall₂ Written ls es ↔
      List.Forall₂ (fun l e => entryOf l = .ok e) ls es ∧ ∀ l ∈ ls, StrictLine l := by
  induction ls generalizing es with
  | nil =>
    rcases es with _ | ⟨e, es⟩ <;> simp
  | cons l ls ih =>
    obtain ⟨⟨htrim, hne⟩, hls⟩ := List.forall_mem_cons.mp hls
    rcases es with _ | ⟨e, es⟩
    · simp
    · rw [List.forall₂_cons, List.forall₂_cons, written_iff htrim hne, ih hls,
        List.forall_mem_cons]
      tauto

/-- As many lines with the key as entries of its kind. -/
private theorem count_keyOf {α : Type} {as : Entry → Option α} {ls : List (List Char)}
    {es : List Entry} (hkey : ∀ {k r e}, Says k r e → (k = key ↔ (as e).isSome = true))
    (h : List.Forall₂ (fun l e => entryOf l = .ok e) ls es) :
    (ls.map keyOf).count key = (es.filterMap as).length := by
  induction h with
  | nil => rfl
  | @cons l e ls es hl _ ih =>
    have hkey := hkey (entry_eq_ok_iff.mp hl)
    rw [List.map_cons, List.count_cons, ih, List.filterMap_cons]
    rcases has : as e with _ | a
    · have hne : keyOf l ≠ key := fun h => by simpa [has] using hkey.mp h
      simp [hne]
    · have heq : keyOf l = key := hkey.mpr (by rw [has]; rfl)
      simp [heq]

theorem eq_singleton_iff {α : Type} {xs : List α} {x : α} :
    xs = [x] ↔ xs.getLast? = some x ∧ xs.length ≤ 1 := by
  constructor
  · rintro rfl
    exact ⟨rfl, le_rfl⟩
  · rintro ⟨hlast, hlen⟩
    rcases xs with _ | ⟨y, _ | ⟨z, xs⟩⟩
    · cases hlast
    · rw [List.getLast?_singleton, Option.some.injEq] at hlast
      rw [hlast]
    · simp at hlen

/-- In an accepted text, each single-valued field is repeated as often as its key. -/
theorem count_le_one_iff {ls : List (List Char)} {es : List Entry}
    (h : List.Forall₂ (fun l e => entryOf l = .ok e) ls es) :
    (∀ key ∈ [senderIdKey, deviceSecretKey, cipherIdKey], (ls.map keyOf).count key ≤ 1) ↔
      (es.filterMap Entry.asSenderId).length ≤ 1 ∧
      (es.filterMap Entry.asDeviceSecret).length ≤ 1 ∧
      (es.filterMap Entry.asCipherId).length ≤ 1 := by
  obtain ⟨hsd, hsc, hsl, hdc, hdl, hcl⟩ := keys_ne
  have hsender : (ls.map keyOf).count senderIdKey = (es.filterMap Entry.asSenderId).length :=
    count_keyOf (fun {k r e} he => by
      cases e <;> simp [he.1, Entry.asSenderId, hsd.symm, hsc.symm, hsl.symm]) h
  have hsecret : (ls.map keyOf).count deviceSecretKey =
      (es.filterMap Entry.asDeviceSecret).length :=
    count_keyOf (fun {k r e} he => by
      cases e <;> simp [he.1, Entry.asDeviceSecret, hsd, hdc.symm, hdl.symm]) h
  have hcipher : (ls.map keyOf).count cipherIdKey = (es.filterMap Entry.asCipherId).length :=
    count_keyOf (fun {k r e} he => by
      cases e <;> simp [he.1, Entry.asCipherId, hsc, hdc, hcl.symm]) h
  rw [← hsender, ← hsecret, ← hcipher]
  simp

/-- **The documented texts** are the accepted ones that are strict. -/
theorem documented_iff {s : List Char} {b : Bundle} :
    Documented s b ↔ Bundle.parse s = .ok b ∧ Strict s := by
  rw [parse_eq_ok_iff]
  constructor
  · rintro ⟨es, hwritten, hsender, hsecret, hcipher, hlayouts⟩
    obtain ⟨hes, hstrict⟩ := (forall₂_written_iff fun _ => mem_significant).mp hwritten
    obtain ⟨hsender, hsender₁⟩ := eq_singleton_iff.mp hsender
    obtain ⟨hsecret, hsecret₁⟩ := eq_singleton_iff.mp hsecret
    obtain ⟨hcipher, hcipher₁⟩ := eq_singleton_iff.mp hcipher
    exact ⟨⟨es, hes, hsender, hsecret, hcipher, hlayouts⟩, hstrict,
      (count_le_one_iff hes).mpr ⟨hsender₁, hsecret₁, hcipher₁⟩⟩
  · rintro ⟨⟨es, hes, hsender, hsecret, hcipher, hlayouts⟩, hstrict, hcount⟩
    obtain ⟨hsender₁, hsecret₁, hcipher₁⟩ := (count_le_one_iff hes).mp hcount
    exact ⟨es, (forall₂_written_iff fun _ => mem_significant).mpr ⟨hes, hstrict⟩,
      eq_singleton_iff.mpr ⟨hsender, hsender₁⟩, eq_singleton_iff.mpr ⟨hsecret, hsecret₁⟩,
      eq_singleton_iff.mpr ⟨hcipher, hcipher₁⟩, hlayouts⟩

/-- **What the parser accepts** is in the documented form exactly when the text is strict: it
repeats no single-valued field, and gives every number its documented width and no sign. -/
theorem documented_iff_strict {s : List Char} {b : Bundle} (h : Bundle.parse s = .ok b) :
    Documented s b ↔ Strict s := by
  rw [documented_iff, and_iff_right h]

/-- A bundle text that the documentation and the parser agree on. -/
def plainText : List Char :=
  "sender_id 00000001\ndevice_secret ".toList ++ List.replicate 64 '4'
    ++ "\ncipher_id 04\nlayout 01 0a\n".toList

theorem documented_iff_strict_plain :
    Strict plainText ∧ Documented plainText ⟨1, .replicate 32 0x44, 4, [(1, 10)]⟩ := by
  have hstrict : Strict plainText := by decide +kernel
  have hparse : Bundle.parse plainText = .ok ⟨1, .replicate 32 0x44, 4, [(1, 10)]⟩ := by
    decide +kernel
  exact ⟨hstrict, (documented_iff_strict hparse).mpr hstrict⟩

/-- A second `sender_id` line, with a sign and one digit, takes the place of the first. -/
def twiceText : List Char :=
  "sender_id 00000001\nsender_id +2\ndevice_secret ".toList ++ List.replicate 64 '4'
    ++ "\ncipher_id 4\n".toList

theorem documented_twice :
    Bundle.parse twiceText = .ok ⟨2, .replicate 32 0x44, 4, []⟩ ∧
      ¬Documented twiceText ⟨2, .replicate 32 0x44, 4, []⟩ := by
  refine ⟨by decide +kernel, ?_⟩
  rw [documented_iff]
  rintro ⟨-, hstrict⟩
  have hnot : ¬Strict twiceText := by decide +kernel
  exact hnot hstrict

end Catp.Provision
