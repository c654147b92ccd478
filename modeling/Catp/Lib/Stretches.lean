import Catp.Lib.Transducer
import Mathlib.Algebra.Ring.Nat
import Mathlib.Order.Interval.Finset.Nat

/-!
# Stretches of time

The readings of a clock that may step back. From one reading to the next the clock runs forward
over a stretch of time, or it stands still or steps back, which runs over nothing.

`elapsed` adds up the stretches, as a component does that counts a backward step as zero elapsed
time. A clock that comes back to a stretch adds it again, so the sum may exceed what lies between
the smallest and the largest reading; it does not when no step runs over a stretch a second time
(`elapsed_le_spread`).

* `forward` lists the stretches, each from a reading to the next, larger one, and `elapsed` adds
  up their lengths.
* `covered` is the set of the units of time that some stretch runs over. It lies between the
  smallest and the largest reading (`covered_subset`).
* `Once` is the condition on a reading after others: the step to it runs over nothing that an
  earlier step ran over. Under it the stretches are disjoint, so the sum of their lengths is the
  size of what they cover (`elapsed_eq_card`).

A clock that never steps back meets the condition; so does one that steps back to before
everything it has covered and does not reach it again, and one that stands still after every step
back.
-/

namespace Stretches

open Transducer

/-- The stretches a clock runs over, each as the readings before and after it. -/
def forward (ts : List ℕ) : List (ℕ × ℕ) := (ts.zip ts.tail).filter fun p => p.1 < p.2

/-- The total length of the stretches. -/
def elapsed (ts : List ℕ) : ℕ := ((forward ts).map fun p => p.2 - p.1).sum

/-- The step to `t` runs over no stretch that an earlier step ran over. -/
def Once (pre : List ℕ) (t : ℕ) : Prop :=
  ∀ s ∈ pre.getLast?, s < t → ∀ p ∈ forward pre, t ≤ p.1 ∨ p.2 ≤ s

instance (pre : List ℕ) (t : ℕ) : Decidable (Once pre t) :=
  match h : pre.getLast? with
  | none => isTrue fun s hs => by simp [h] at hs
  | some s => decidable_of_iff (s < t → ∀ p ∈ forward pre, t ≤ p.1 ∨ p.2 ≤ s) (by simp [Once, h])

/-- The largest reading, or 0 if there is none. -/
def largest (ts : List ℕ) : ℕ := ts.max?.getD 0

/-- The smallest reading, or 0 if there is none. -/
def smallest (ts : List ℕ) : ℕ := ts.min?.getD 0

variable {ts : List ℕ} {s t : ℕ}

theorem smallest_le_largest (ts : List ℕ) : smallest ts ≤ largest ts := by
  rcases ts with _ | ⟨t, ts⟩
  · exact Nat.le_refl _
  · exact Nat.le_trans (List.min?_getD_le_of_mem List.mem_cons_self)
      (List.le_max?_getD_of_mem List.mem_cons_self)

@[simp] theorem forward_nil : forward [] = [] := rfl

@[simp] theorem forward_singleton (t : ℕ) : forward [t] = [] := rfl

theorem zip_tail_concat (ts : List ℕ) (s t : ℕ) :
    (ts ++ [s, t]).zip (ts ++ [s, t]).tail =
      (ts ++ [s]).zip (ts ++ [s]).tail ++ [(s, t)] := by
  induction ts with
  | nil => rfl
  | cons r ts ih =>
    cases ts with
    | nil => rfl
    | cons r' ts => simpa using ih

/-- One more reading adds the stretch from the last one, if there is any. -/
theorem forward_concat (ts : List ℕ) (s t : ℕ) :
    forward (ts ++ [s, t]) = forward (ts ++ [s]) ++ if s < t then [(s, t)] else [] := by
  rw [forward, zip_tail_concat, List.filter_append, forward]
  by_cases hst : s < t
  · rw [if_pos hst, List.filter_cons_of_pos (by simpa using hst), List.filter_nil]
  · rw [if_neg hst, List.filter_cons_of_neg (by simpa using hst), List.filter_nil]

theorem elapsed_concat (ts : List ℕ) (s t : ℕ) :
    elapsed (ts ++ [s, t]) = elapsed (ts ++ [s]) + (t - s) := by
  rw [elapsed, forward_concat, List.map_append, List.sum_append, elapsed]
  split_ifs with hst
  · simp
  · rw [List.map_nil, List.sum_nil, Nat.sub_eq_zero_of_le (Nat.not_lt.mp hst)]

theorem mem_of_mem_forward {p : ℕ × ℕ} (h : p ∈ forward ts) : p.1 ∈ ts ∧ p.2 ∈ ts := by
  obtain ⟨hleft, hright⟩ := List.of_mem_zip (List.mem_filter.mp h).1
  exact ⟨hleft, List.mem_of_mem_tail hright⟩

/-- The instants a clock runs over. -/
def covered (ts : List ℕ) : Finset ℕ := (forward ts).toFinset.biUnion fun p => Finset.Ioc p.1 p.2

theorem covered_concat (ts : List ℕ) (s t : ℕ) :
    covered (ts ++ [s, t]) = covered (ts ++ [s]) ∪ Finset.Ioc s t := by
  rw [covered, forward_concat, List.toFinset_append, Finset.union_biUnion, covered]
  split_ifs with hst
  · simp
  · rw [Finset.Ioc_eq_empty hst]
    rfl

/-- A clock runs over nothing outside its readings. -/
theorem covered_subset (ts : List ℕ) : covered ts ⊆ Finset.Ioc (smallest ts) (largest ts) := by
  intro x hx
  obtain ⟨p, hp, hx⟩ := Finset.mem_biUnion.mp hx
  obtain ⟨hleft, hright⟩ := mem_of_mem_forward (List.mem_toFinset.mp hp)
  rw [Finset.mem_Ioc] at hx ⊢
  exact ⟨Nat.lt_of_le_of_lt (List.min?_getD_le_of_mem hleft) hx.1,
    Nat.le_trans hx.2 (List.le_max?_getD_of_mem hright)⟩

theorem Once.disjoint (h : Once (ts ++ [s]) t) :
    Disjoint (covered (ts ++ [s])) (Finset.Ioc s t) := by
  rw [Finset.disjoint_left]
  intro x hx hstep
  obtain ⟨p, hp, hx⟩ := Finset.mem_biUnion.mp hx
  rw [Finset.mem_Ioc] at hx hstep
  have := h s (by simp) (by omega) p (List.mem_toFinset.mp hp)
  omega

/-- Stretches that are run over once have the length of what they cover. -/
theorem elapsed_eq_card (h : Guarded Once ts) : elapsed ts = (covered ts).card := by
  induction ts using List.reverseRecOn with
  | nil => rfl
  | append_singleton ts t ih =>
    obtain ⟨hts, ht⟩ := guarded_concat.mp h
    rcases List.eq_nil_or_concat ts with rfl | ⟨ts, s, rfl⟩
    · rfl
    · rw [List.concat_eq_append] at hts ht ih ⊢
      rw [List.append_assoc, List.singleton_append, elapsed_concat, covered_concat,
        Finset.card_union_of_disjoint ht.disjoint, Nat.card_Ioc, ih hts]

/-- **Stretches that are run over once** fit between the smallest and the largest reading. -/
theorem elapsed_le_spread (h : Guarded Once ts) : elapsed ts ≤ largest ts - smallest ts := by
  rw [elapsed_eq_card h, ← Nat.card_Ioc]
  exact Finset.card_le_card (covered_subset ts)

end Stretches
