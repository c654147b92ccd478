import Catp.Core.Crypto
import Catp.Provision.Digits
import Mathlib.Data.Rat.Floor

/-!
# What the demo programs share

The constants that `tools/src/bin/sender.rs` and `tools/src/bin/collector.rs` agree on, and the
`format!` directives of the two, as texts. Floating point and the decoding of
arbitrary octets as UTF-8 are parameters, `Formatting`: a fixed number of decimals of a fixed-point
value is a short text of digits, and octets that are the UTF-8 of a text are decoded to it.

**Floating point.** `format_scaled` multiplies or divides a mantissa by a power of ten as an `f64`
and prints it with a fixed number of decimals. `Double` is the little that it needs of `f64`:
conversion from an integer, product, quotient and the printing. `formatScaled` is the function of
the source over any such type. `exactDouble` is one that computes with rationals, and
`formatScaled_exactDouble` says that it prints the exact decimal; it serves the examples of the
specification and the runs on fixed inputs, and no result relies on it.

**Directives.** The widths and paddings of the format strings are `padRight`, `padLeft` and
`zeroPadded`. `IsPlain` is what survives all of them and the escaping of an opaque record as it
is: printable ASCII without the backslash.
-/

namespace Catp.Demo

open Provision

/-! ### The demo peer -/

/-- `SENDER_ID`, of the sender and of the collector. -/
def senderId : UInt32 := 0x00001234

/-- `SECRET`. -/
def secret : DeviceSecret := ⟨Vector.replicate 32 0x5A⟩

/-- `CIPHER`: the suite with the shortest tag, for which a rate limit is mandatory. -/
abbrev cipher : CipherId := .hmacSha256T32

/-- `SENSOR_SCHEMA`: five readings of two octets each. -/
def sensorSchema : UInt8 := 1

/-- `EVENT_SCHEMA`: a sequence number, then the name of the event. -/
def eventSchema : UInt8 := 2

/-- `ALARM_SCHEMA`: a sequence number, a severity behind its length, then the message. -/
def alarmSchema : UInt8 := 3

/-- No field definition is claimed. -/
def unstructured : UInt8 := 0xFF

/-! ### Directives -/

/-- `{}` of an unsigned value. -/
def decimal (n : ℕ) : List Char := Nat.toDigits 10 n

/-- `{}` of a signed value. -/
def decimalInt (n : ℤ) : List Char :=
  if n < 0 then '-' :: decimal n.natAbs else decimal n.natAbs

/-- `{:<n}`. -/
def padRight (n : ℕ) (s : List Char) : List Char := s ++ List.replicate (n - s.length) ' '

/-- `{:>n}`. -/
def padLeft (n : ℕ) (s : List Char) : List Char := List.leftpad n ' ' s

/-- `{:0n}`. -/
def zeroPadded (n k : ℕ) : List Char := List.leftpad n '0' (decimal k)

/-- A hexadecimal digit in upper case. -/
def upperDigit (n : ℕ) : Char :=
  if n < 10 then Char.ofNat ('0'.toNat + n) else Char.ofNat ('A'.toNat + (n - 10))

/-- `{:02X}`. -/
def upperHex (b : UInt8) : List Char := [upperDigit (b.toNat / 16), upperDigit (b.toNat % 16)]

/-- A character of a number with a fixed number of decimals. -/
def IsNumeral (c : Char) : Prop := c.isDigit ∨ c = '.' ∨ c = '-'

instance (c : Char) : Decidable (IsNumeral c) := inferInstanceAs (Decidable (_ ∨ _))

/-- What `format_scaled` uses of `f64`. -/
structure Double where
  Value : Type
  /-- The value of an integer literal, and of an `i16` cast `as f64`. -/
  ofInt : ℤ → Value
  mul : Value → Value → Value
  div : Value → Value → Value
  /-- `{:.*}`, with this many decimals. -/
  fixed : ℕ → Value → List Char

/-- `format_scaled` of `src/lib.rs`: `mantissa * 10^-scale` in decimal. The divisor is built with a
loop. -/
def formatScaled (D : Double) (scale : UInt8) (mantissa : Int16) : List Char :=
  let divisor := (fun d => D.mul d (D.ofInt 10))^[scale.toNat] (D.ofInt 1)
  D.fixed scale.toNat (D.div (D.ofInt mantissa.toInt) divisor)

/-- What the programs use of the standard library beyond integers. -/
structure Formatting where
  /-- `{:.2}` of `v as f32 / 100.0`. -/
  hundredths : Int16 → List Char
  /-- `{:.1}` of `v as f32 / 10.0`. -/
  tenths : UInt16 → List Char
  double : Double
  /-- `String::from_utf8_lossy`. -/
  fromUtf8Lossy : Bytes → List Char
  hundredths_numeral : ∀ v, ∀ c ∈ hundredths v, IsNumeral c
  tenths_numeral : ∀ v, ∀ c ∈ tenths v, IsNumeral c
  length_hundredths : ∀ v, (hundredths v).length ≤ 8
  length_tenths : ∀ v, (tenths v).length ≤ 8
  fromUtf8Lossy_asBytes : ∀ s, fromUtf8Lossy (asBytes s) = s

/-! ### Printable text -/

/-- Printable ASCII, other than the backslash. -/
def IsPlain (c : Char) : Prop := ' ' ≤ c ∧ c ≤ '~' ∧ c ≠ '\\'

instance (c : Char) : Decidable (IsPlain c) := inferInstanceAs (Decidable (_ ∧ _))

private theorem isPlain_of_isDigit {c : Char} (h : c.isDigit = true) : IsPlain c := by
  rw [Char.isDigit, Bool.and_eq_true, decide_eq_true_eq, decide_eq_true_eq] at h
  obtain ⟨hlo, hhi⟩ := h
  refine ⟨Char.le_def.mpr (UInt32.le_trans (by decide) hlo),
    Char.le_def.mpr (UInt32.le_trans hhi (by decide)), ?_⟩
  rintro rfl
  exact absurd hhi (by decide)

theorem IsNumeral.isPlain {c : Char} (h : IsNumeral c) : IsPlain c := by
  rcases h with h | rfl | rfl
  · exact isPlain_of_isDigit h
  · decide
  · decide

theorem isPlain_decimal {n : ℕ} {c : Char} (h : c ∈ decimal n) : IsPlain c :=
  isPlain_of_isDigit (Nat.isDigit_of_mem_toDigits (by decide) (by decide) h)

theorem isPlain_decimalInt {n : ℤ} {c : Char} (h : c ∈ decimalInt n) : IsPlain c := by
  rw [decimalInt] at h
  split_ifs at h
  · rcases List.mem_cons.mp h with rfl | h
    · decide
    · exact isPlain_decimal h
  · exact isPlain_decimal h

theorem length_decimal_le {n k : ℕ} (hk : 0 < k) (h : n < 10 ^ k) : (decimal n).length ≤ k :=
  (Nat.length_toDigits_le_iff (by decide) hk).mpr h

theorem length_decimalInt_le {n : ℤ} {k : ℕ} (hk : 0 < k) (h : n.natAbs < 10 ^ k) :
    (decimalInt n).length ≤ k + 1 := by
  have hlen := length_decimal_le hk h
  rw [decimalInt]
  split_ifs
  · rw [List.length_cons]
    omega
  · omega

private theorem utf8EncodeChar_of_isPlain {c : Char} (h : IsPlain c) :
    String.utf8EncodeChar c = [UInt8.ofNat c.toNat] := by
  have hle : c.toNat ≤ 126 := by
    have := UInt32.le_iff_toNat_le.mp (Char.le_def.mp h.2.1)
    exact this
  have hsize : c.utf8Size = 1 := by
    rw [Char.utf8Size_eq_one_iff]
    exact UInt32.le_iff_toNat_le.mpr (by simpa using Nat.le_succ_of_le hle)
  rw [String.utf8EncodeChar_eq_singleton hsize]
  rfl

theorem asBytes_of_isPlain {s : List Char} (h : ∀ c ∈ s, IsPlain c) :
    asBytes s = s.map fun c => UInt8.ofNat c.toNat := by
  induction s with
  | nil => rfl
  | cons c s ih =>
    obtain ⟨hc, hs⟩ := List.forall_mem_cons.mp h
    have ih := ih hs
    rw [asBytes] at ih ⊢
    rw [List.flatMap_cons, utf8EncodeChar_of_isPlain hc, ih]
    rfl

@[simp] theorem asBytes_append (s t : List Char) : asBytes (s ++ t) = asBytes s ++ asBytes t := by
  rw [asBytes, asBytes, asBytes, List.flatMap_append]

/-! ### Exact decimals -/

/-- A fixed-point value with this many decimals, exactly. -/
def fixedPoint (decimals : ℕ) (v : ℤ) : List Char :=
  [if v < 0 then ['-'] else [], decimal (v.natAbs / 10 ^ decimals), ['.'],
    zeroPadded decimals (v.natAbs % 10 ^ decimals)].flatten

private theorem isNumeral_fixedPoint {decimals : ℕ} {v : ℤ} :
    ∀ c ∈ fixedPoint decimals v, IsNumeral c := by
  have hdigit {n : ℕ} {c : Char} (h : c ∈ decimal n) : IsNumeral c :=
    .inl (Nat.isDigit_of_mem_toDigits (by decide) (by decide) h)
  have hsign : ∀ c ∈ (if v < 0 then ['-'] else []), IsNumeral c := by
    split_ifs
    · rw [List.forall_mem_singleton]
      exact .inr (.inr rfl)
    · nofun
  have hpart : ∀ c ∈ zeroPadded decimals (v.natAbs % 10 ^ decimals), IsNumeral c := by
    intro c hc
    rw [zeroPadded, List.leftpad, List.mem_append] at hc
    rcases hc with hc | hc
    · rw [List.eq_of_mem_replicate hc]
      exact .inl (by decide)
    · exact hdigit hc
  have hpoint : ∀ c ∈ ['.'], IsNumeral c := List.forall_mem_singleton.mpr (.inr (.inl rfl))
  rw [fixedPoint, List.forall_mem_flatten]
  exact List.forall_mem_cons.mpr ⟨hsign, List.forall_mem_cons.mpr ⟨fun c h => hdigit h,
    List.forall_mem_cons.mpr ⟨hpoint, List.forall_mem_singleton.mpr hpart⟩⟩⟩

private theorem length_fixedPoint_le {decimals k : ℕ} {v : ℤ} (hd : 0 < decimals)
    (h : v.natAbs < 10 ^ (k + decimals)) (hk : 0 < k) :
    (fixedPoint decimals v).length ≤ k + decimals + 2 := by
  have hwhole : (decimal (v.natAbs / 10 ^ decimals)).length ≤ k :=
    length_decimal_le hk (Nat.div_lt_of_lt_mul (by rwa [← pow_add, Nat.add_comm]))
  have hpart : (decimal (v.natAbs % 10 ^ decimals)).length ≤ decimals :=
    length_decimal_le hd (Nat.mod_lt _ (by positivity))
  have hsign : (if v < 0 then ['-'] else []).length ≤ 1 := by split_ifs <;> decide
  simp only [fixedPoint, zeroPadded, List.leftpad, List.length_flatten, List.map_cons,
    List.map_nil, List.sum_cons, List.sum_nil, List.length_append, List.length_replicate,
    List.length_singleton]
  omega

/-- Fractions instead of `f64`, with decimals rounded half up. -/
def exactDouble : Double where
  Value := ℚ
  ofInt := (↑)
  mul := (· * ·)
  div := (· / ·)
  fixed decimals q := fixedPoint decimals ⌊q * 10 ^ decimals + 1 / 2⌋

/-- Without rounding, a scaled value is the mantissa with its point moved. -/
private theorem formatScaled_exactDouble (scale : UInt8) (mantissa : Int16) :
    formatScaled exactDouble scale mantissa = fixedPoint scale.toNat mantissa.toInt := by
  have hdivisor : (fun d : ℚ => d * ((10 : ℤ) : ℚ))^[scale.toNat] ((1 : ℤ) : ℚ) =
      10 ^ scale.toNat := by
    rw [mul_right_iterate]
    simp
  have hvalue : ((mantissa.toInt : ℚ) / 10 ^ scale.toNat) * 10 ^ scale.toNat =
      (mantissa.toInt : ℚ) := div_mul_cancel₀ _ (by positivity)
  have hround : ⌊(mantissa.toInt : ℚ) + 1 / 2⌋ = mantissa.toInt := by
    rw [Int.floor_intCast_add]
    norm_num
  change fixedPoint scale.toNat ⌊((mantissa.toInt : ℤ) : ℚ) /
    (fun d : ℚ => d * ((10 : ℤ) : ℚ))^[scale.toNat] ((1 : ℤ) : ℚ) * 10 ^ scale.toNat + 1 / 2⌋ = _
  rw [hdivisor, hvalue, hround]

/-- The values of `format_scaled_matches_the_spec_examples`. -/
example : [0x01, 0x02, 0x03, 0x04, 0x05, 0x06, 0x07].map (formatScaled exactDouble · 2350) =
    ["235.0", "23.50", "2.350", "0.2350", "0.02350", "0.002350", "0.0002350"].map
      String.toList := by
  simp only [formatScaled_exactDouble]
  decide

/-- Decimals rounded from an exact value, which no value of the two programs is far enough from to
show, and a decoder that shows nothing of octets that are not UTF-8. -/
def exactFormatting : Formatting where
  hundredths v := fixedPoint 2 v.toInt
  tenths v := fixedPoint 1 v.toNat
  double := exactDouble
  fromUtf8Lossy b := (b.toByteArray.utf8Decode?.map Array.toList).getD []
  hundredths_numeral _ := isNumeral_fixedPoint
  tenths_numeral _ := isNumeral_fixedPoint
  length_hundredths v := by
    have hlo := v.le_toInt
    have hhi := v.toInt_lt
    exact (length_fixedPoint_le (k := 3) (by decide) (by omega) (by decide)).trans (by decide)
  length_tenths v := by
    have hlt := v.toNat_lt
    exact (length_fixedPoint_le (k := 4) (by decide) (by omega) (by decide)).trans (by decide)
  fromUtf8Lossy_asBytes s := by
    have h : (asBytes s).toByteArray.utf8Decode? = some s.toArray := List.utf8Decode?_utf8Encode
    rw [h]
    rfl

end Catp.Demo
