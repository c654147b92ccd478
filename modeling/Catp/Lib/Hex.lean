import Mathlib.Algebra.Order.Ring.Nat
import Mathlib.Data.List.Basic
import Mathlib.Tactic.IntervalCases

/-!
# Hexadecimal digits

The value of a digit (`value`), the number that a string of digits is (`number`), and a number
written with at least a given number of digits (`padded`). A number written is read back
(`number_padded`), and one that fits is written with exactly that many digits (`length_padded`).

Bytes are written as pairs of digits; `pairs` takes such a string apart.

Reading goes from left to right: `push` adds a digit behind a number, and `number` is its fold, so
that a parser which accumulates is compared with `number` by induction over the text, and the
bound it checks on the way is one on the result (`le_foldl_push`).

Writing is Mathlib's `Nat.toDigits` at base 16, padded in front with zeros, which are worth
nothing (`foldl_push_zeros`). Digits of either case have a value; only the lower case is written.
-/

namespace Hex

/-- The value of a hexadecimal digit, given as a code point. Letters are read in both cases. -/
def value (c : ℕ) : Option ℕ :=
  if 0x30 ≤ c ∧ c ≤ 0x39 then some (c - 0x30)
  else if 0x61 ≤ c ∧ c ≤ 0x66 then some (c - 0x61 + 10)
  else if 0x41 ≤ c ∧ c ≤ 0x46 then some (c - 0x41 + 10)
  else none

theorem value_lt {c v : ℕ} (h : value c = some v) : v < 16 := by
  unfold value at h
  split_ifs at h <;> cases h <;> omega

theorem lt_of_value {c v : ℕ} (h : value c = some v) : c < 128 := by
  unfold value at h
  split_ifs at h <;> omega

theorem value_digitChar {d : ℕ} (h : d < 16) : value d.digitChar.toNat = some d := by
  interval_cases d <;> rfl

/-- The character is a hexadecimal digit. -/
def IsDigit (c : Char) : Prop := (value c.toNat).isSome = true

instance : DecidablePred IsDigit := fun c =>
  inferInstanceAs (Decidable ((value c.toNat).isSome = true))

theorem IsDigit.exists_value {c : Char} (h : IsDigit c) : ∃ v, value c.toNat = some v :=
  Option.isSome_iff_exists.mp h

theorem isDigit_of_value {c : Char} {v : ℕ} (h : value c.toNat = some v) : IsDigit c :=
  Option.isSome_iff_exists.mpr ⟨v, h⟩

theorem isDigit_digitChar {d : ℕ} (h : d < 16) : IsDigit d.digitChar :=
  isDigit_of_value (value_digitChar h)

/-! ### Numbers -/

/-- The number `n` with one more digit behind it. A character that is no digit counts as 0. -/
def push (n : ℕ) (c : Char) : ℕ := n * 16 + (value c.toNat).getD 0

theorem le_push (n : ℕ) (c : Char) : n ≤ push n c := by
  unfold push
  omega

theorem push_of_value {n v : ℕ} {c : Char} (h : value c.toNat = some v) :
    push n c = n * 16 + v := by
  rw [push, h, Option.getD_some]

/-- The number that a string of digits is, the most significant digit first. -/
def number (cs : List Char) : ℕ := cs.foldl push 0

theorem number_concat (cs : List Char) (c : Char) : number (cs ++ [c]) = push (number cs) c := by
  rw [number, List.foldl_append]
  rfl

theorem number_pair {c d : Char} {v w : ℕ} (hc : value c.toNat = some v)
    (hd : value d.toNat = some w) : number [c, d] = v * 16 + w := by
  simp [number, push_of_value hc, push_of_value hd]

theorem le_foldl_push (n : ℕ) (cs : List Char) : n ≤ cs.foldl push n := by
  induction cs generalizing n with
  | nil => exact le_rfl
  | cons c cs ih => exact (le_push n c).trans (ih _)

theorem number_toDigits (n : ℕ) : number (Nat.toDigits 16 n) = n := by
  induction n using Nat.strong_induction_on with
  | _ n ih =>
    rw [Nat.toDigits_eq_if (by decide)]
    split_ifs with h
    · simp [number, push_of_value (value_digitChar h)]
    · have hmod : n % 16 < 16 := Nat.mod_lt _ (by decide)
      rw [number_concat, ih _ (by omega), push_of_value (value_digitChar hmod)]
      omega

theorem isDigit_of_mem_toDigits {n : ℕ} {c : Char} (h : c ∈ Nat.toDigits 16 n) : IsDigit c := by
  induction n using Nat.strong_induction_on with
  | _ n ih =>
    have hmod : n % 16 < 16 := Nat.mod_lt _ (by decide)
    rw [Nat.toDigits_eq_if (by decide)] at h
    split_ifs at h with hn
    · exact List.mem_singleton.mp h ▸ isDigit_digitChar hn
    · rcases List.mem_append.mp h with h | h
      · exact ih _ (by omega) h
      · exact List.mem_singleton.mp h ▸ isDigit_digitChar hmod

/-- The number `n` in lower-case digits, with zeros in front up to `w` digits. -/
def padded (w n : ℕ) : List Char := (Nat.toDigits 16 n).leftpad w '0'

theorem foldl_push_zeros (k : ℕ) : (List.replicate k '0').foldl push 0 = 0 := by
  induction k with
  | zero => rfl
  | succ k ih => rw [List.replicate_succ, List.foldl_cons]; exact ih

/-- A number written is read back. -/
@[simp] theorem number_padded (w n : ℕ) : number (padded w n) = n := by
  rw [padded, List.leftpad, number, List.foldl_append, foldl_push_zeros]
  exact number_toDigits n

theorem isDigit_of_mem_padded {w n : ℕ} {c : Char} (h : c ∈ padded w n) : IsDigit c := by
  rcases List.mem_append.mp h with h | h
  · rw [List.eq_of_mem_replicate h]
    decide
  · exact isDigit_of_mem_toDigits h

/-- A number that fits is written with exactly `w` digits. -/
theorem length_padded {w n : ℕ} (hw : 0 < w) (h : n < 16 ^ w) : (padded w n).length = w := by
  rw [padded, List.length_leftpad, max_eq_left]
  exact (Nat.length_toDigits_le_iff (by decide) hw).mpr h

/-! ### Bytes -/

/-- The elements of a list two by two; one left over is dropped. -/
def pairs {α : Type*} : List α → List (α × α)
  | [] => []
  | [_] => []
  | a :: b :: l => (a, b) :: pairs l

theorem length_pairs {α : Type*} (l : List α) : (pairs l).length = l.length / 2 := by
  induction l using pairs.induct with
  | case1 => simp [pairs]
  | case2 a => simp [pairs]
  | case3 a b l ih =>
    rw [pairs, List.length_cons, ih, List.length_cons, List.length_cons]
    omega

/-- No element of a list of even length is left over. -/
theorem exists_mem_pairs {α : Type*} {l : List α} {a : α} (heven : l.length % 2 = 0)
    (h : a ∈ l) : ∃ p ∈ pairs l, a = p.1 ∨ a = p.2 := by
  induction l using pairs.induct with
  | case1 => cases h
  | case2 b => cases heven
  | case3 b c l ih =>
    rw [List.length_cons, List.length_cons] at heven
    rw [pairs]
    rcases List.mem_cons.mp h with rfl | h
    · exact ⟨_, List.mem_cons_self, Or.inl rfl⟩
    · rcases List.mem_cons.mp h with rfl | h
      · exact ⟨_, List.mem_cons_self, Or.inr rfl⟩
      · obtain ⟨p, hp, ha⟩ := ih (by omega) h
        exact ⟨p, List.mem_cons_of_mem _ hp, ha⟩

/-- Bytes written one after the other, each with two digits, are the pairs of digits. -/
theorem pairs_bytes {bs : List UInt8} :
    (pairs (bs.flatMap fun b => padded 2 b.toNat)).map (fun p => number [p.1, p.2])
      = bs.map UInt8.toNat := by
  induction bs with
  | nil => rfl
  | cons b bs ih =>
    obtain ⟨c, d, hcd⟩ := List.length_eq_two.mp (length_padded (w := 2) (by decide) b.toNat_lt)
    rw [List.flatMap_cons, hcd, List.cons_append, List.cons_append, List.nil_append, pairs,
      List.map_cons, List.map_cons, ih, ← hcd, number_padded]

end Hex
