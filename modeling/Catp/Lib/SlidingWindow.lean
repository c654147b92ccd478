import Mathlib.Data.Nat.ModEq
import Mathlib.Data.Set.Insert

/-!
# Sliding windows over a bitmap indexed modulo its size

The specification of a duplicate filter over sequence numbers, and the representation of its
history by a high-water mark and `N` bits.

* `Admissible N H x`: the specification. With history `H`, the number `x` is new, and no
  number of `H` lies `N` or more above it.
* `Represents N high bit H`: `high` is the maximum of `H`, and bit `x % N` says whether
  `x ∈ H` for each `x` of the `N` numbers ending at the maximum. Nothing is asked of the
  indices of numbers not yet reached: they are cleared before they come into the window.
* `Represents.first`, `Represents.advance`, `Represents.fill`: the three ways to admit a
  number, each stated by what it does to the bits, keep the representation.

**Order of use.** A proof about an implementation shows that its state represents the history
(`Represents`), and then has from `Represents.admissible_iff` that its test decides `Admissible`:
above the maximum everything is admissible, and at or below it a number is admissible if it lies
less than `N` below and its bit is not set. An admitted number is then entered by one of the three
lemmas above, of which `Represents.advance` asks that the bits passed over have been cleared.

The history is a set of natural numbers, so it never has to be finite or listed, and the bits are
a function, so nothing is said about words. Two numbers less than `N` apart have different indices
(`mod_ne_mod`), which is all that is used of the modulus.
-/

namespace SlidingWindow

variable {N : ℕ} {H : Set ℕ} {bit bit' : ℕ → Bool}

/-- With history `H`, a window of `N` numbers admits `x`: it is new, and every number of the
history is less than `N` above it. -/
def Admissible (N : ℕ) (H : Set ℕ) (x : ℕ) : Prop :=
  x ∉ H ∧ ∀ y ∈ H, y < x + N

/-- The history `H` as a high-water mark and bits indexed modulo `N`. -/
structure Represents (N : ℕ) (high : Option ℕ) (bit : ℕ → Bool) (H : Set ℕ) : Prop where
  /-- The mark bounds the history; without a mark the history is empty. -/
  le_high : ∀ x ∈ H, ∃ h ∈ high, x ≤ h
  /-- The mark is itself a number of the history. -/
  high_mem : ∀ h ∈ high, h ∈ H
  /-- Before the first number every bit is clear. -/
  clear : high = none → ∀ i < N, bit i = false
  /-- Inside the window, the bits are the history. -/
  bit_iff : ∀ h ∈ high, ∀ x, x ≤ h → h < x + N → (bit (x % N) = true ↔ x ∈ H)

/-- The empty history, over cleared bits. -/
theorem represents_empty (hbit : ∀ i < N, bit i = false) : Represents N none bit ∅ :=
  ⟨by simp, by simp, fun _ => hbit, by simp⟩

/-- Without a mark there is no history. -/
theorem Represents.eq_empty (h : Represents N none bit H) : H = ∅ := by
  refine Set.eq_empty_of_forall_notMem fun x hx => ?_
  obtain ⟨y, hy, -⟩ := h.le_high x hx
  simp at hy

theorem Represents.le {hi : ℕ} (h : Represents N (some hi) bit H) {x : ℕ} (hx : x ∈ H) :
    x ≤ hi := by
  obtain ⟨y, hy, hle⟩ := h.le_high x hx
  rwa [Option.mem_some_iff.mp hy]

/-! ### Admission -/

theorem Represents.admissible_of_none (h : Represents N none bit H) (x : ℕ) :
    Admissible N H x := by
  rw [h.eq_empty]
  exact ⟨Set.notMem_empty x, fun y hy => absurd hy (Set.notMem_empty y)⟩

/-- Every number above the mark is admitted. -/
theorem Represents.admissible_of_high_lt {hi : ℕ} (h : Represents N (some hi) bit H) {x : ℕ}
    (hx : hi < x) : Admissible N H x := by
  constructor
  · intro hmem
    have := h.le hmem
    omega
  · intro y hy
    have := h.le hy
    omega

/-- At or below the mark, admission is the two tests a bitmap window makes. -/
theorem Represents.admissible_iff {hi : ℕ} (h : Represents N (some hi) bit H) {x : ℕ}
    (hx : x ≤ hi) : Admissible N H x ↔ hi < x + N ∧ bit (x % N) = false := by
  constructor
  · rintro ⟨hnew, hin⟩
    have hlt : hi < x + N := hin hi (h.high_mem hi rfl)
    refine ⟨hlt, ?_⟩
    rw [Bool.eq_false_iff]
    exact fun hb => hnew ((h.bit_iff hi rfl x hx hlt).mp hb)
  · rintro ⟨hlt, hb⟩
    refine ⟨?_, fun y hy => lt_of_le_of_lt (h.le hy) hlt⟩
    intro hmem
    rw [(h.bit_iff hi rfl x hx hlt).mpr hmem] at hb
    exact absurd hb (by simp)

/-! ### Keeping the representation -/

/-- Two different numbers less than `N` apart have different indices. -/
theorem mod_ne_mod {x y : ℕ} (hlt : x < y) (hy : y < x + N) : x % N ≠ y % N := by
  intro heq
  have hdvd : N ∣ y - x := (Nat.modEq_iff_dvd' hlt.le).mp heq
  have := Nat.le_of_dvd (by omega) hdvd
  omega

/-- The first number of a history: its bit is set. -/
theorem Represents.first (h : Represents N none bit H) (hN : 0 < N) {x : ℕ}
    (hbit : ∀ i < N, bit' i = true ↔ i = x % N ∨ bit i = true) :
    Represents N (some x) bit' (insert x H) := by
  rw [h.eq_empty]
  refine ⟨by simp, by simp, by simp, ?_⟩
  intro m hm y hle hlt
  obtain rfl := Option.mem_some_iff.mp hm
  rw [hbit _ (Nat.mod_lt y hN), h.clear rfl _ (Nat.mod_lt y hN)]
  rcases hle.eq_or_lt with rfl | hlt'
  · simp
  · simp [mod_ne_mod hlt' hlt, hlt'.ne]

/-- A number above the mark: the bits of the numbers slid past are cleared, all of them when
the slide is longer than the window, and its own bit is set. -/
theorem Represents.advance {hi x : ℕ} (h : Represents N (some hi) bit H) (hN : 0 < N)
    (hx : hi < x) (hbit : ∀ i < N, bit' i = true ↔ i = x % N ∨
      (bit i = true ∧ ∀ j, 1 ≤ j → j ≤ min (x - hi) N → (hi + j) % N ≠ i)) :
    Represents N (some x) bit' (insert x H) := by
  have hbound : ∀ y ∈ insert x H, y ≤ x := by
    rintro y (rfl | hy)
    · exact le_rfl
    · exact (h.le hy).trans hx.le
  refine ⟨fun y hy => ⟨x, rfl, hbound y hy⟩, by simp, by simp, ?_⟩
  intro m hm y hle hlt
  obtain rfl := Option.mem_some_iff.mp hm
  rw [hbit _ (Nat.mod_lt y hN)]
  rcases hle.eq_or_lt with rfl | hlt'
  · simp
  have hne : y % N ≠ x % N := mod_ne_mod hlt' hlt
  rcases Nat.lt_or_ge hi y with hgt | hge
  · -- `y` was slid past: its index was cleared, and it is not in the history
    have hnotmem : y ∉ H := fun hy => absurd (h.le hy) (by omega)
    have hmod : (hi + ((y - hi - 1) % N + 1)) % N = y % N := by
      have hcong := ((Nat.mod_modEq (y - hi - 1) N).add_right 1).add_left hi
      rwa [Nat.ModEq, show hi + (y - hi - 1 + 1) = y by omega] at hcong
    have hcleared : ¬∀ j, 1 ≤ j → j ≤ min (x - hi) N → (hi + j) % N ≠ y % N := by
      intro hall
      have hlow := Nat.mod_le (y - hi - 1) N
      have hsmall := Nat.mod_lt (y - hi - 1) hN
      exact hall _ (by omega) (by omega) hmod
    rw [or_iff_right hne, iff_false_right (by simp [hlt'.ne, hnotmem])]
    exact fun hb => hcleared hb.2
  · -- `y` was already in the window: its index is not among the cleared ones
    have hkeep : ∀ j, 1 ≤ j → j ≤ min (x - hi) N → (hi + j) % N ≠ y % N := by
      intro j hj hjle
      exact (mod_ne_mod (by omega) (by omega)).symm
    rw [or_iff_right hne, and_iff_left hkeep, h.bit_iff hi rfl y hge (by omega),
      Set.mem_insert_iff, or_iff_right hlt'.ne]

/-- A number at or below the mark, inside the window: its bit is set. -/
theorem Represents.fill {hi x : ℕ} (h : Represents N (some hi) bit H) (hN : 0 < N)
    (hx : x ≤ hi) (hin : hi < x + N)
    (hbit : ∀ i < N, bit' i = true ↔ i = x % N ∨ bit i = true) :
    Represents N (some hi) bit' (insert x H) := by
  have hbound : ∀ y ∈ insert x H, y ≤ hi := by
    rintro y (rfl | hy)
    · exact hx
    · exact h.le hy
  refine ⟨fun y hy => ⟨hi, rfl, hbound y hy⟩, ?_, by simp, ?_⟩
  · intro m hm
    exact Set.mem_insert_of_mem x (h.high_mem m hm)
  · intro m hm y hle hlt
    obtain rfl := Option.mem_some_iff.mp hm
    rw [hbit _ (Nat.mod_lt y hN), h.bit_iff hi rfl y hle hlt, Set.mem_insert_iff]
    refine or_congr_left ⟨fun heq => ?_, fun heq => by rw [heq]⟩
    -- two numbers of one window with the same index are equal
    rcases Nat.lt_trichotomy y x with hlt' | heq' | hgt
    · exact absurd heq (mod_ne_mod hlt' (by omega))
    · exact heq'
    · exact absurd heq.symm (mod_ne_mod hgt (by omega))

end SlidingWindow
