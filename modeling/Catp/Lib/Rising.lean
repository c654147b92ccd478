import Catp.Lib.Transducer
import Mathlib.Order.Bounds.Basic

/-!
# A bound that only rises

A component that takes a value exactly if it lies above the last one taken, which it remembers.
The bound after a run is the largest value offered (`final_rise_eq_some_iff`), so neither the order
in which values are offered nor how often each is offered matters to it. A value is taken exactly
if it is larger than every value offered before, taken or not (`rise_iff`), hence the values taken
increase (`pairwise_taken`) and the bound is the last of them (`getLast?_taken`).

This is the pattern of a bound that guards against rollback: an epoch, a version or a time that
may be asserted many times and out of order, and is taken only if it is news. `Bounds` says of a
list of values and a bound that the bound is the greatest of them, if there are any, and
`Bounds.rise` keeps it over one more value; everything else is read off it.

The values are those of any linear order. `taken` lists those that were taken, and the two
theorems about it describe an effect that is visible outside: what was applied is an increasing
sequence that ends with the bound.
-/

namespace Rising

open Transducer

variable {α : Type*} [LinearOrder α]

/-- Whether the value is taken, and the bound after. -/
def rise (bound : Option α) (a : α) : Bool × Option α :=
  match bound with
  | some b => if a ≤ b then (false, some b) else (true, some a)
  | none => (true, some a)

/-- The values taken in a run. -/
def taken (h : List (α × Bool)) : List α := (h.filter Prod.snd).map Prod.fst

/-- The bound is one of the values, and none is larger. -/
structure Bounds (as : List α) (bound : Option α) : Prop where
  mem : ∀ b ∈ bound, b ∈ as
  le : ∀ a ∈ as, ∃ b ∈ bound, a ≤ b

theorem fst_rise {bound : Option α} {a : α} : (rise bound a).1 = true ↔ ∀ b ∈ bound, b < a := by
  cases bound with
  | none => simp [rise]
  | some b =>
    rw [rise]
    split_ifs with h
    · simpa using h
    · simpa using h

theorem snd_rise (bound : Option α) (a : α) :
    (rise bound a).2 = if (rise bound a).1 then some a else bound := by
  cases bound with
  | none => rfl
  | some b =>
    rw [rise]
    split_ifs <;> simp_all

/-- One step. -/
theorem Bounds.rise {as : List α} {bound : Option α} (h : Bounds as bound) (a : α) :
    Bounds (as ++ [a]) (rise bound a).2 := by
  have hnew : (∀ b ∈ as, b ≤ a) → Bounds (as ++ [a]) (some a) := by
    intro hle
    refine ⟨fun b hb => by simp [Option.some.inj hb], fun b hb => ⟨a, rfl, ?_⟩⟩
    rcases List.mem_append.mp hb with hb | hb
    · exact hle b hb
    · exact (List.mem_singleton.mp hb).le
  cases bound with
  | none =>
    refine hnew fun b hb => ?_
    obtain ⟨c, hc, -⟩ := h.le b hb
    cases hc
  | some b =>
    rw [Rising.rise]
    split_ifs with hle
    · refine ⟨fun c hc => List.mem_append_left _ (h.mem c hc), fun c hc => ?_⟩
      rcases List.mem_append.mp hc with hc | hc
      · exact h.le c hc
      · exact ⟨b, rfl, (List.mem_singleton.mp hc).le.trans hle⟩
    · refine hnew fun c hc => ?_
      obtain ⟨d, hd, hcd⟩ := h.le c hc
      obtain rfl := Option.some.inj hd
      exact hcd.trans (not_le.mp hle).le

/-- Every run. -/
theorem bounds_final (as : List α) : Bounds as (final rise none as) := by
  induction as using List.reverseRecOn with
  | nil => exact ⟨by simp, by simp⟩
  | append_singleton as a ih =>
    rw [final_concat]
    exact ih.rise a

/-- The bound is the largest value offered. -/
theorem final_rise_eq_some_iff {as : List α} {m : α} :
    final rise none as = some m ↔ IsGreatest {a | a ∈ as} m := by
  obtain ⟨hmem, hle⟩ := bounds_final as
  constructor
  · intro h
    rw [h] at hmem hle
    refine ⟨hmem m rfl, fun a ha => ?_⟩
    obtain ⟨b, hb, hab⟩ := hle a ha
    exact hab.trans (Option.some.inj hb).ge
  · rintro ⟨hm, hub⟩
    obtain ⟨b, hb, hmb⟩ := hle m hm
    rw [Option.mem_def.mp hb, le_antisymm (hub (hmem b hb)) hmb]

/-- A value is taken if it is larger than every value offered before. -/
theorem rise_iff {as : List α} {a : α} :
    (rise (final rise none as) a).1 = true ↔ ∀ b ∈ as, b < a := by
  obtain ⟨hmem, hle⟩ := bounds_final as
  rw [fst_rise]
  constructor
  · intro h b hb
    obtain ⟨c, hc, hbc⟩ := hle b hb
    exact hbc.trans_lt (h c hc)
  · exact fun h b hb => h b (hmem b hb)

theorem taken_concat (as : List α) (a : α) :
    taken (trace rise none (as ++ [a])) = taken (trace rise none as) ++
      if (rise (final rise none as) a).1 then [a] else [] := by
  rw [trace_concat, taken, List.filter_append, List.map_append, ← taken]
  cases (rise (final rise none as) a).1 <;> simp

/-- The values taken increase, and each was offered. -/
theorem pairwise_taken (as : List α) :
    (taken (trace rise none as)).Pairwise (· < ·) ∧ taken (trace rise none as) ⊆ as := by
  induction as using List.reverseRecOn with
  | nil => exact ⟨List.Pairwise.nil, List.nil_subset _⟩
  | append_singleton as a ih =>
    obtain ⟨hlt, hsub⟩ := ih
    have hsub' : taken (trace rise none as) ⊆ as ++ [a] :=
      List.Subset.trans hsub (List.subset_append_left _ _)
    rw [taken_concat]
    split_ifs with hrise
    · refine ⟨List.pairwise_append.mpr ⟨hlt, List.pairwise_singleton _ _, fun b hb c hc => ?_⟩,
        List.append_subset.mpr ⟨hsub', List.subset_append_right _ _⟩⟩
      rw [List.mem_singleton.mp hc]
      exact rise_iff.mp hrise b (hsub hb)
    · rw [List.append_nil]
      exact ⟨hlt, hsub'⟩

/-- The bound is the last value taken. -/
theorem getLast?_taken (as : List α) :
    (taken (trace rise none as)).getLast? = final rise none as := by
  induction as using List.reverseRecOn with
  | nil => rfl
  | append_singleton as a ih =>
    rw [taken_concat, final_concat, snd_rise]
    split_ifs
    · exact List.getLast?_concat
    · rw [List.append_nil, ih]

end Rising
