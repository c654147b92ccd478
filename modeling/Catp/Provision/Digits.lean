import Catp.Lib.BigEndian
import Catp.Lib.Hex
import Catp.Lib.Text

/-!
# The digits of a provisioning bundle

A bundle is read with two parsers for hexadecimal digits: the standard library's
`from_str_radix`, which takes a number of any width and a `+` in front, and a table over bytes for
the secret, which takes pairs of digits only. `u32FromStrRadix_eq_some_iff`,
`u8FromStrRadix_eq_some_iff` and `parseHexBytes_eq_some_iff` say what each reads and what it makes
of it.

A text is the list of its characters. The parser of the secret goes over its UTF-8 bytes.

* **Numbers.** `readDigits` is the loop of the standard library with its overflow checks, and
  `readDigits_eq_some_iff` what it computes: the number of the digits, if it is at most the
  largest value. The two word sizes are instances of one statement
  (`map_fromStrRadix_eq_some_iff`).
* **Bytes.** `hexValue` is the table of the source. `asBytes_of_isDigit` bridges bytes and
  characters: a byte of a longer character is never an ASCII digit, so a text all of whose bytes
  are digits has one byte for each character.

So a number has many spellings: with a sign or without, with leading zeros or without, and in
either case of a letter. A byte of the secret always takes two digits, and only the case is free.
-/

namespace Catp.Provision

open Hex

/-- `char::is_whitespace`: the Unicode property White_Space. -/
def isWhitespace (c : Char) : Bool :=
  let n := c.toNat
  (0x09 ≤ n && n ≤ 0x0d) || n == 0x20 || n == 0x85 || n == 0xa0 || n == 0x1680
    || (0x2000 ≤ n && n ≤ 0x200a) || n == 0x2028 || n == 0x2029 || n == 0x202f || n == 0x205f
    || n == 0x3000

theorem isWhitespace_of_isDigit {c : Char} (h : IsDigit c) : isWhitespace c = false := by
  obtain ⟨v, hv⟩ := h.exists_value
  have hlt := lt_of_value hv
  unfold value at hv
  split_ifs at hv with h1 h2 h3 <;> simp [isWhitespace] <;> omega

/-! ### `from_str_radix` -/

/-- The digits behind a `+`, if there is one. -/
def unsigned (s : List Char) : List Char := if s.head? = some '+' then s.tail else s

/-- The digits of `s` behind the number `n`, while the result is at most `max`. -/
def readDigits (max n : ℕ) : List Char → Option ℕ
  | [] => some n
  | c :: s => (value c.toNat).bind fun x =>
      if n * 16 ≤ max then
        if n * 16 + x ≤ max then readDigits max (n * 16 + x) s else none
      else none

/-- `from_str_radix` with radix 16 of an unsigned type whose largest value is `max`. -/
def fromStrRadix (max : ℕ) (s : List Char) : Option ℕ :=
  if s = [] ∨ s = ['+'] ∨ s = ['-'] then none else readDigits max 0 (unsigned s)

/-- `u32::from_str_radix` in base 16. -/
def u32FromStrRadix (s : List Char) : Option UInt32 :=
  (fromStrRadix (2 ^ 32 - 1) s).map UInt32.ofNat

/-- `u8::from_str_radix` in base 16. -/
def u8FromStrRadix (s : List Char) : Option UInt8 := (fromStrRadix (2 ^ 8 - 1) s).map UInt8.ofNat

theorem readDigits_eq_some_iff {max n m : ℕ} (hn : n ≤ max) (s : List Char) :
    readDigits max n s = some m ↔ (∀ c ∈ s, IsDigit c) ∧ s.foldl push n = m ∧ m ≤ max := by
  induction s generalizing n with
  | nil =>
    constructor
    · intro h
      cases h
      exact ⟨fun c hc => absurd hc List.not_mem_nil, rfl, hn⟩
    · rintro ⟨-, rfl, -⟩
      rfl
  | cons c s ih =>
    rw [readDigits, List.foldl_cons, List.forall_mem_cons]
    rcases hv : value c.toNat with _ | x
    · simp [IsDigit, hv]
    · rw [Option.bind_some, push_of_value hv]
      split_ifs with hmul hadd
      · rw [ih hadd]
        simp [isDigit_of_value hv]
      · -- the number only grows from here on
        have hle := le_foldl_push (n * 16 + x) s
        simp only [false_iff, not_and]
        intro _ hm
        omega
      · have hle := le_foldl_push (n * 16 + x) s
        simp only [false_iff, not_and]
        intro _ hm
        omega

/-- A number as `from_str_radix` reads it: at least one digit, and digits only. -/
def IsNumber (s : List Char) : Prop := s ≠ [] ∧ ∀ c ∈ s, IsDigit c

theorem fromStrRadix_eq_some_iff {max m : ℕ} {s : List Char} :
    fromStrRadix max s = some m ↔
      IsNumber (unsigned s) ∧ number (unsigned s) = m ∧ m ≤ max := by
  rw [fromStrRadix]
  split_ifs with h
  · have hnot : ¬IsNumber (unsigned s) := by
      rintro ⟨hne, hdigits⟩
      rcases h with rfl | rfl | rfl
      · exact hne rfl
      · exact hne rfl
      · exact absurd (hdigits '-' List.mem_cons_self) (by decide)
    simp [hnot]
  · have hne : unsigned s ≠ [] := by
      unfold unsigned
      rintro hnil
      rcases s with _ | ⟨c, s⟩
      · exact h (Or.inl rfl)
      · split_ifs at hnil with hc
        rw [List.head?_cons, Option.some.injEq] at hc
        rw [List.tail_cons] at hnil
        exact h (Or.inr (Or.inl (by rw [hc, hnil])))
    rw [readDigits_eq_some_iff (Nat.zero_le _), IsNumber, and_iff_right hne]
    rfl

/-- A number read as a machine word whose largest value is `max`. -/
theorem map_fromStrRadix_eq_some_iff {α : Type} {ofNat : ℕ → α} {toNat : α → ℕ} {max : ℕ}
    (hword : ∀ x, ofNat (toNat x) = x) (hnat : ∀ n ≤ max, toNat (ofNat n) = n)
    (hmax : ∀ x, toNat x ≤ max) {s : List Char} {x : α} :
    (fromStrRadix max s).map ofNat = some x ↔
      IsNumber (unsigned s) ∧ number (unsigned s) = toNat x := by
  rw [Option.map_eq_some_iff]
  constructor
  · rintro ⟨m, hm, rfl⟩
    obtain ⟨hnum, hval, hle⟩ := fromStrRadix_eq_some_iff.mp hm
    exact ⟨hnum, by rw [hval, hnat m hle]⟩
  · rintro ⟨hnum, hval⟩
    exact ⟨toNat x, fromStrRadix_eq_some_iff.mpr ⟨hnum, hval, hmax x⟩, hword x⟩

/-- **A `u32`** is read off any number of digits, and a `+` in front is passed over. -/
theorem u32FromStrRadix_eq_some_iff {s : List Char} {x : UInt32} :
    u32FromStrRadix s = some x ↔ IsNumber (unsigned s) ∧ number (unsigned s) = x.toNat :=
  map_fromStrRadix_eq_some_iff (fun _ => UInt32.ofNat_toNat)
    (fun _ hn => UInt32.toNat_ofNat_of_lt' (Nat.lt_of_le_pred (by decide) hn))
    (fun x => Nat.le_pred_of_lt x.toNat_lt)

theorem u8FromStrRadix_eq_some_iff {s : List Char} {x : UInt8} :
    u8FromStrRadix s = some x ↔ IsNumber (unsigned s) ∧ number (unsigned s) = x.toNat :=
  map_fromStrRadix_eq_some_iff (fun _ => UInt8.ofNat_toNat)
    (fun _ hn => UInt8.toNat_ofNat_of_lt' (Nat.lt_of_le_pred (by decide) hn))
    (fun x => Nat.le_pred_of_lt x.toNat_lt)

/-! ### The table of the secret -/

/-- Hex digit values, `none` for everything that is not a hex digit. -/
def hexValue (c : UInt8) : Option UInt8 :=
  if 0x30 ≤ c ∧ c ≤ 0x39 then some (c - 0x30)
  else if 0x61 ≤ c ∧ c ≤ 0x66 then some (c - 0x61 + 10)
  else if 0x41 ≤ c ∧ c ≤ 0x46 then some (c - 0x41 + 10)
  else none

/-- The byte of two digits. -/
def hexPair (p : UInt8 × UInt8) : Option UInt8 :=
  match hexValue p.1, hexValue p.2 with
  | some hi, some lo => some (hi <<< 4 ||| lo)
  | _, _ => none

/-- The UTF-8 bytes of a text. -/
def asBytes (s : List Char) : List UInt8 := s.flatMap String.utf8EncodeChar

/-- `parse_hex_bytes`: pairs of digits, and nothing else, not even a sign. -/
def parseHexBytes (s : List Char) : Option (List UInt8) :=
  let bytes := asBytes s
  if bytes.length % 2 ≠ 0 then none else (pairs bytes).mapM hexPair

private theorem hexValue_eq (c : UInt8) : hexValue c = (value c.toNat).map UInt8.ofNat := by
  have h : ∀ n : Fin 256, hexValue (UInt8.ofNat n) = (value n).map UInt8.ofNat := by decide +kernel
  simpa using h ⟨c.toNat, c.toNat_lt⟩

theorem hexValue_eq_some_iff {c x : UInt8} :
    hexValue c = some x ↔ value c.toNat = some x.toNat := by
  rw [hexValue_eq, Option.map_eq_some_iff]
  constructor
  · rintro ⟨v, hv, rfl⟩
    have hlt := value_lt hv
    rw [hv, UInt8.toNat_ofNat_of_lt' (hlt.trans (by decide))]
  · intro h
    exact ⟨_, h, UInt8.ofNat_toNat⟩

private theorem shiftLeft_or_toNat {hi lo : UInt8} (hhi : hi.toNat < 16) (hlo : lo.toNat < 16) :
    (hi <<< 4 ||| lo).toNat = hi.toNat * 16 + lo.toNat := by
  have hshift : (hi <<< 4).toNat = hi.toNat * 2 ^ 4 := by
    rw [UInt8.toNat_shiftLeft, Nat.shiftLeft_eq]
    exact Nat.mod_eq_of_lt (Nat.mul_lt_mul_of_pos_right hhi (by decide))
  rw [UInt8.toNat_or, hshift]
  exact BigEndian.mul_two_pow_lor _ 4 hlo

/-- Two bytes are a byte when both are digits. -/
theorem hexPair_eq_some_iff {c d b : UInt8} :
    hexPair (c, d) = some b ↔
      ∃ v w, value c.toNat = some v ∧ value d.toNat = some w ∧ b.toNat = v * 16 + w := by
  constructor
  · intro h
    unfold hexPair at h
    split at h
    · rename_i hi lo hc hd
      rw [hexValue_eq_some_iff] at hc hd
      cases h
      exact ⟨_, _, hc, hd, shiftLeft_or_toNat (value_lt hc) (value_lt hd)⟩
    · cases h
  · rintro ⟨v, w, hv, hw, hb⟩
    obtain ⟨hv16, hw16⟩ := And.intro (value_lt hv) (value_lt hw)
    have hi : (UInt8.ofNat v).toNat = v := UInt8.toNat_ofNat_of_lt' (hv16.trans (by decide))
    have lo : (UInt8.ofNat w).toNat = w := UInt8.toNat_ofNat_of_lt' (hw16.trans (by decide))
    have hc : hexValue c = some (UInt8.ofNat v) := hexValue_eq_some_iff.mpr (by rw [hv, hi])
    have hd : hexValue d = some (UInt8.ofNat w) := hexValue_eq_some_iff.mpr (by rw [hw, lo])
    simp only [hexPair, hc, hd, Option.some.injEq]
    rw [← UInt8.toNat_inj, hb, shiftLeft_or_toNat (by rwa [hi]) (by rwa [lo]), hi, lo]

/-- A character whose bytes are digits is a digit: no byte of a longer one is ASCII. -/
private theorem isDigit_of_utf8 {c : Char}
    (h : ∀ b ∈ String.utf8EncodeChar c, (hexValue b).isSome) :
    IsDigit c := by
  have hbyte : ∀ b ∈ String.utf8EncodeChar c, ∃ v, value b.toNat = some v := fun b hb => by
    obtain ⟨x, hx⟩ := Option.isSome_iff_exists.mp (h b hb)
    exact ⟨_, hexValue_eq_some_iff.mp hx⟩
  unfold String.utf8EncodeChar at hbyte
  simp only at hbyte
  split_ifs at hbyte with h1 h2 h3
  · obtain ⟨v, hv⟩ := hbyte _ List.mem_cons_self
    rw [UInt8.toNat_ofNat_of_lt' (lt_of_le_of_lt h1 (by decide))] at hv
    exact isDigit_of_value hv
  all_goals
    obtain ⟨v, hv⟩ := hbyte _ List.mem_cons_self
    have hlt := lt_of_value hv
    rw [UInt8.toNat_ofNat'] at hlt
    omega

private theorem utf8EncodeChar_of_isDigit {c : Char} (h : IsDigit c) :
    String.utf8EncodeChar c = [UInt8.ofNat c.toNat] := by
  obtain ⟨v, hv⟩ := h.exists_value
  have hlt := lt_of_value hv
  have hle : c.val.toNat ≤ 0x7f := Nat.le_of_lt_succ hlt
  unfold String.utf8EncodeChar
  exact if_pos hle

/-- The text is a list of digits when its bytes are, and then they are one byte each. -/
private theorem asBytes_of_isDigit {s : List Char} (h : ∀ c ∈ s, IsDigit c) :
    asBytes s = s.map fun c => UInt8.ofNat c.toNat := by
  induction s with
  | nil => rfl
  | cons c s ih =>
    obtain ⟨hc, hs⟩ := List.forall_mem_cons.mp h
    have := ih hs
    rw [asBytes] at this ⊢
    rw [List.flatMap_cons, utf8EncodeChar_of_isDigit hc, this]
    rfl

theorem mapM_eq_some_iff {α β : Type*} {f : α → Option β} {l : List α} {bs : List β} :
    l.mapM f = some bs ↔ l.map f = bs.map some := by
  induction l generalizing bs with
  | nil => rcases bs with _ | ⟨b, bs⟩ <;> simp
  | cons a l ih =>
    simp only [List.mapM_cons, Option.bind_eq_bind, Option.bind_eq_some_iff, Option.pure_def,
      Option.some.injEq, ih, List.map_cons]
    constructor
    · rintro ⟨b, hb, bs, hbs, rfl⟩
      rw [hb, hbs, List.map_cons]
    · intro h
      rcases bs with _ | ⟨b, bs⟩
      · cases h
      · obtain ⟨hb, hbs⟩ := List.cons.inj h
        exact ⟨b, hb, bs, hbs, rfl⟩

/-- Over digits, the bytes of the pairs are the numbers of the pairs. -/
theorem map_hexPair_eq_iff {s : List Char} {bs : List UInt8} (h : ∀ c ∈ s, IsDigit c) :
    (pairs (s.map fun c => UInt8.ofNat c.toNat)).map hexPair = bs.map some ↔
      (pairs s).map (fun p => number [p.1, p.2]) = bs.map UInt8.toNat := by
  induction s using pairs.induct generalizing bs with
  | case1 => rcases bs with _ | ⟨b, bs⟩ <;> simp [pairs]
  | case2 c => rcases bs with _ | ⟨b, bs⟩ <;> simp [pairs]
  | case3 c d s ih =>
    obtain ⟨hc, hds⟩ := List.forall_mem_cons.mp h
    obtain ⟨hd, hs⟩ := List.forall_mem_cons.mp hds
    obtain ⟨v, hv⟩ := hc.exists_value
    obtain ⟨w, hw⟩ := hd.exists_value
    rcases bs with _ | ⟨b, bs⟩
    · simp [pairs]
    · have hbyte : ∀ {e : Char} {x : ℕ}, value e.toNat = some x →
          (UInt8.ofNat e.toNat).toNat = e.toNat := fun he =>
        UInt8.toNat_ofNat_of_lt' ((lt_of_value he).trans (by decide))
      have hpair : hexPair (UInt8.ofNat c.toNat, UInt8.ofNat d.toNat) = some b ↔
          number [c, d] = b.toNat := by
        rw [hexPair_eq_some_iff, hbyte hv, hbyte hw, number_pair hv hw]
        simp [hv, hw, eq_comm]
      simp only [List.map_cons, pairs, List.cons.injEq, ih hs, hpair]

/-- **The secret's parser** takes an even number of digits, and makes a byte of each pair. -/
theorem parseHexBytes_eq_some_iff {s : List Char} {bs : List UInt8} :
    parseHexBytes s = some bs ↔ (∀ c ∈ s, IsDigit c) ∧ s.length % 2 = 0 ∧
      (pairs s).map (fun p => number [p.1, p.2]) = bs.map UInt8.toNat := by
  constructor
  · intro h
    rw [parseHexBytes] at h
    split_ifs at h with heven
    rw [not_not] at heven
    rw [mapM_eq_some_iff] at h
    have hs : ∀ c ∈ s, IsDigit c := fun c hc => isDigit_of_utf8 fun b hb => by
      obtain ⟨⟨b₁, b₂⟩, hp, hb⟩ := exists_mem_pairs heven (List.mem_flatMap.mpr ⟨c, hc, hb⟩)
      obtain ⟨x, -, hx⟩ := List.mem_map.mp (h ▸ List.mem_map_of_mem hp)
      obtain ⟨v, w, hv, hw, -⟩ := hexPair_eq_some_iff.mp hx.symm
      rcases hb with rfl | rfl
      · rw [hexValue_eq, hv]
        rfl
      · rw [hexValue_eq, hw]
        rfl
    rw [asBytes_of_isDigit hs] at heven h
    exact ⟨hs, by simpa using heven, (map_hexPair_eq_iff hs).mp h⟩
  · rintro ⟨hs, heven, hbs⟩
    rw [parseHexBytes, asBytes_of_isDigit hs, List.length_map]
    rw [if_neg (not_not.mpr heven), mapM_eq_some_iff]
    exact (map_hexPair_eq_iff hs).mpr hbs

end Catp.Provision
