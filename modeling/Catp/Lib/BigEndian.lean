import Mathlib.Data.Nat.Bitwise
import Mathlib.Tactic.Ring

/-!
# Big-endian byte strings and packed fields

`toBytes w n` is the number `n` written on `w` bytes, most significant first, and `ofBytes`
reads a byte string back. They are inverse to each other on numbers that fit, which makes
every fixed-width integer of a wire format a special case.

Fields narrower than a byte are packed by shifting and masking; `mul_two_pow_lor` turns such
a packing into a sum, which linear arithmetic can then take apart.

Both directions are recursive on the width and the string, and say what they do for numbers that
do not fit: `ofBytes_toBytes` keeps the number modulo `256 ^ w`. A width is therefore part of
every round trip, as it is of a wire format.

A header packed into bits is a number written in mixed radix. Reading a field back is a quotient
and a remainder by powers of two, so a codec's shifts and masks are first turned into those
(`mul_two_pow_lor`, `land_mask`), and the rest is left to a decision procedure for linear
arithmetic.
-/

namespace BigEndian

/-- The `w` big-endian bytes of `n`; what does not fit is dropped. -/
def toBytes : ℕ → ℕ → List UInt8
  | 0, _ => []
  | w + 1, n => UInt8.ofNat (n / 256 ^ w) :: toBytes w n

/-- The number with the given big-endian bytes. -/
def ofBytes : List UInt8 → ℕ
  | [] => 0
  | b :: bs => b.toNat * 256 ^ bs.length + ofBytes bs

@[simp] theorem toBytes_zero (n : ℕ) : toBytes 0 n = [] := rfl

@[simp] theorem toBytes_succ (w n : ℕ) :
    toBytes (w + 1) n = UInt8.ofNat (n / 256 ^ w) :: toBytes w n := rfl

@[simp] theorem ofBytes_nil : ofBytes [] = 0 := rfl

@[simp] theorem ofBytes_cons (b : UInt8) (bs : List UInt8) :
    ofBytes (b :: bs) = b.toNat * 256 ^ bs.length + ofBytes bs := rfl

@[simp] theorem length_toBytes (w n : ℕ) : (toBytes w n).length = w := by
  induction w with
  | zero => rfl
  | succ w ih => rw [toBytes_succ, List.length_cons, ih]

theorem ofBytes_lt (bs : List UInt8) : ofBytes bs < 256 ^ bs.length := by
  induction bs with
  | nil => simp
  | cons b bs ih =>
    have hb : b.toNat < 256 := b.toNat_lt
    rw [ofBytes_cons, List.length_cons, pow_succ]
    calc b.toNat * 256 ^ bs.length + ofBytes bs
        < b.toNat * 256 ^ bs.length + 256 ^ bs.length := by omega
      _ = (b.toNat + 1) * 256 ^ bs.length := by ring
      _ ≤ 256 ^ bs.length * 256 := by
          rw [Nat.mul_comm]
          exact Nat.mul_le_mul_left _ hb

theorem ofBytes_toBytes (w n : ℕ) : ofBytes (toBytes w n) = n % 256 ^ w := by
  induction w with
  | zero => simp [Nat.mod_one]
  | succ w ih =>
    have hdigit : (UInt8.ofNat (n / 256 ^ w)).toNat = n / 256 ^ w % 256 := by simp
    rw [toBytes_succ, ofBytes_cons, ih, length_toBytes, hdigit, Nat.mod_pow_succ]
    ring

theorem ofBytes_toBytes_of_lt {w n : ℕ} (h : n < 256 ^ w) : ofBytes (toBytes w n) = n := by
  rw [ofBytes_toBytes, Nat.mod_eq_of_lt h]

/-- Only the low `w` bytes of a number are written. -/
theorem toBytes_add_mul (w n k : ℕ) : toBytes w (k * 256 ^ w + n) = toBytes w n := by
  induction w generalizing k with
  | zero => rfl
  | succ w ih =>
    have hpos : 0 < 256 ^ w := Nat.pow_pos (by decide)
    have hsplit : k * 256 ^ (w + 1) + n = k * 256 * 256 ^ w + n := by ring
    rw [toBytes_succ, toBytes_succ, hsplit, ih, Nat.add_comm, Nat.add_mul_div_right _ _ hpos]
    congr 1
    rw [← UInt8.toNat_inj]
    simp

theorem toBytes_ofBytes (bs : List UInt8) : toBytes bs.length (ofBytes bs) = bs := by
  induction bs with
  | nil => rfl
  | cons b bs ih =>
    have hpos : 0 < 256 ^ bs.length := Nat.pow_pos (by decide)
    rw [List.length_cons, toBytes_succ, ofBytes_cons, toBytes_add_mul, ih, Nat.add_comm,
      Nat.add_mul_div_right _ _ hpos, Nat.div_eq_of_lt (ofBytes_lt bs), Nat.zero_add,
      UInt8.ofNat_toNat]

/-! ### Packed fields -/

/-- Setting low bits that are clear is adding them. -/
theorem mul_two_pow_lor (a k : ℕ) {b : ℕ} (h : b < 2 ^ k) : a * 2 ^ k ||| b = a * 2 ^ k + b := by
  rw [← Nat.shiftLeft_eq, Nat.shiftLeft_add_eq_or_of_lt h]

/-- Masking with `2 ^ k - 1` is the remainder. -/
theorem land_mask (a k : ℕ) : a &&& (2 ^ k - 1) = a % 2 ^ k :=
  Nat.and_two_pow_sub_one_eq_mod a k

end BigEndian
