import Catp.Lib.Transducer
import Mathlib.Data.Sum.Basic
import Mathlib.Logic.Function.Basic

/-!
# Components side by side

Two step functions that share nothing run side by side as one, `par`: each input goes to one of
them. A family of step functions does so as `many`. Whatever the order in which the inputs
arrive, the answers of a component are those of a run on its own inputs (`lefts_outputs_par`,
`rights_outputs_par`, `only_outputs_many`). What ties the components of a system together is
then a condition on the interleaved run, `Transducer.Guarded`.

**Two components**: `lefts` and `rights` take an interleaved list apart, and the two lists
determine the components' runs whatever the interleaving. The theorems about `par` are stated for
outputs and for final states, so that a result about one component is carried over to the system
by rewriting.

**A family**: `only` is the part of an interleaved list that concerns one index. A family with a
shared last component is `par` of `many` with it.

Nothing is assumed of the order of events. Where a property needs one (a message is received only
after it was sent), it is a condition on each event and the events before it, and
`Guarded.filterMap` moves such a condition to one component's share.
-/

namespace Transducer

variable {α β σ σ' ι ι' ο ο' κ : Type*}

/-- A condition on the steps of a run passes to the part of the run that one component sees. -/
theorem Guarded.filterMap {G : List ι → ι → Prop} {G' : List ι' → ι' → Prop} {f : ι → Option ι'}
    (h : ∀ pre i i', G pre i → f i = some i' → G' (pre.filterMap f) i') {is : List ι}
    (hG : Guarded G is) : Guarded G' (is.filterMap f) := by
  induction is using List.reverseRecOn with
  | nil => exact fun n => n.elim0
  | append_singleton is i ih =>
    obtain ⟨his, hi⟩ := guarded_concat.mp hG
    rw [List.filterMap_append]
    rcases hf : f i with _ | i'
    · rw [List.filterMap_cons_none hf, List.filterMap_nil, List.append_nil]
      exact ih his
    · rw [List.filterMap_cons_some hf, List.filterMap_nil]
      exact guarded_concat.mpr ⟨ih his, h is i i' hi hf⟩

/-! ### Two components -/

/-- The entries of the first component. -/
def lefts (l : List (α ⊕ β)) : List α := l.filterMap Sum.getLeft?

/-- The entries of the second component. -/
def rights (l : List (α ⊕ β)) : List β := l.filterMap Sum.getRight?

@[simp] theorem lefts_nil : lefts ([] : List (α ⊕ β)) = [] := rfl

@[simp] theorem rights_nil : rights ([] : List (α ⊕ β)) = [] := rfl

@[simp] theorem lefts_cons_inl (a : α) (l : List (α ⊕ β)) :
    lefts (.inl a :: l) = a :: lefts l := rfl

@[simp] theorem lefts_cons_inr (b : β) (l : List (α ⊕ β)) : lefts (.inr b :: l) = lefts l := rfl

@[simp] theorem rights_cons_inl (a : α) (l : List (α ⊕ β)) :
    rights (.inl a :: l) = rights l := rfl

@[simp] theorem rights_cons_inr (b : β) (l : List (α ⊕ β)) :
    rights (.inr b :: l) = b :: rights l := rfl

@[simp] theorem lefts_append (l m : List (α ⊕ β)) : lefts (l ++ m) = lefts l ++ lefts m :=
  List.filterMap_append

@[simp] theorem rights_append (l m : List (α ⊕ β)) : rights (l ++ m) = rights l ++ rights m :=
  List.filterMap_append

theorem mem_rights {l : List (α ⊕ β)} {b : β} : b ∈ rights l ↔ .inr b ∈ l := by
  simp [rights, List.mem_filterMap, Sum.getRight?_eq_some_iff]

/-- A division of the second component's entries is one of the list. -/
theorem exists_of_rights_eq_append {l : List (α ⊕ β)} {pre post : List β} {b : β}
    (h : rights l = pre ++ b :: post) :
    ∃ pre' post', l = pre' ++ .inr b :: post' ∧ rights pre' = pre ∧ rights post' = post := by
  induction l generalizing pre with
  | nil => simp at h
  | cons x l ih =>
    cases x with
    | inl a =>
      obtain ⟨pre', post', rfl, rfl, rfl⟩ := ih h
      exact ⟨.inl a :: pre', post', rfl, rfl, rfl⟩
    | inr b' =>
      cases pre with
      | nil =>
        obtain ⟨rfl, rfl⟩ := List.cons.inj h
        exact ⟨[], l, rfl, rfl, rfl⟩
      | cons c pre =>
        obtain ⟨rfl, hl⟩ := List.cons.inj h
        obtain ⟨pre', post', rfl, rfl, rfl⟩ := ih hl
        exact ⟨.inr b' :: pre', post', rfl, rfl, rfl⟩

/-- Two step functions side by side. -/
def par (step : σ → ι → ο × σ) (step' : σ' → ι' → ο' × σ') (s : σ × σ') :
    ι ⊕ ι' → (ο ⊕ ο') × (σ × σ')
  | .inl i => (.inl (step s.1 i).1, ((step s.1 i).2, s.2))
  | .inr i => (.inr (step' s.2 i).1, (s.1, (step' s.2 i).2))

section Par

variable (step : σ → ι → ο × σ) (step' : σ' → ι' → ο' × σ')

/-- The answers of the first component are those it gives alone. -/
theorem lefts_outputs_par (s : σ × σ') (is : List (ι ⊕ ι')) :
    lefts (outputs (par step step') s is) = outputs step s.1 (lefts is) := by
  induction is generalizing s with
  | nil => rfl
  | cons i is ih =>
    cases i with
    | inl i => exact congrArg ((step s.1 i).1 :: ·) (ih _)
    | inr i => exact ih _

/-- The answers of the second component are those it gives alone. -/
theorem rights_outputs_par (s : σ × σ') (is : List (ι ⊕ ι')) :
    rights (outputs (par step step') s is) = outputs step' s.2 (rights is) := by
  induction is generalizing s with
  | nil => rfl
  | cons i is ih =>
    cases i with
    | inl i => exact ih _
    | inr i => exact congrArg ((step' s.2 i).1 :: ·) (ih _)

/-- Each component ends in the state it reaches alone. -/
theorem final_par (s : σ × σ') (is : List (ι ⊕ ι')) :
    final (par step step') s is = (final step s.1 (lefts is), final step' s.2 (rights is)) := by
  induction is generalizing s with
  | nil => rfl
  | cons i is ih =>
    rw [final_cons, ih]
    cases i <;> rfl

end Par

/-! ### A family of components -/

section Many

variable [DecidableEq κ]

/-- The entries under one key. -/
def only (k : κ) (l : List (κ × α)) : List α :=
  l.filterMap fun x => if x.1 = k then some x.2 else none

@[simp] theorem only_nil (k : κ) : only k ([] : List (κ × α)) = [] := rfl

theorem only_cons (k : κ) (x : κ × α) (l : List (κ × α)) :
    only k (x :: l) = if x.1 = k then x.2 :: only k l else only k l := by
  rw [only, List.filterMap_cons]
  split_ifs <;> rfl

/-- A family of step functions side by side: an input names the one it goes to. -/
def many (step : κ → σ → ι → ο × σ) (s : κ → σ) (x : κ × ι) : (κ × ο) × (κ → σ) :=
  ((x.1, (step x.1 (s x.1) x.2).1), Function.update s x.1 (step x.1 (s x.1) x.2).2)

/-- The answers of one of the family are those it gives alone. -/
theorem only_outputs_many (step : κ → σ → ι → ο × σ) (s : κ → σ) (k : κ) (xs : List (κ × ι)) :
    only k (outputs (many step) s xs) = outputs (step k) (s k) (only k xs) := by
  induction xs generalizing s with
  | nil => rfl
  | cons x xs ih =>
    obtain ⟨k', i⟩ := x
    rw [outputs_cons, only_cons, only_cons, ih]
    by_cases hk : k' = k
    · subst hk
      simp [many]
    · simp [many, hk, Function.update_of_ne (Ne.symm hk)]

end Many

end Transducer
