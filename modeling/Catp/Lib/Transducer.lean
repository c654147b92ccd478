import Mathlib.Algebra.BigOperators.Group.List.Basic
import Mathlib.Data.List.Induction

/-!
# Runs of a step function

A component that answers every input and updates its state is a step function
`σ → ι → ο × σ`. This file collects what is used of such components: the `trace` of a run
(every input with its answer), the state it ends in, and its induction rules.

* `trace_invariant`: an invariant relating the *history* of a run to the state it reached,
  for runs every step of which meets a condition (`Guarded`).
* `final_invariant`: the same without the history, `final_sum` for totals and `final_countP` for
  counters.
* `trace_deletion`: two runs, one with some inputs deleted, answer the remaining inputs
  alike whenever a relation between their states survives every deleted step.

A deletion is a list of marked inputs `ι × Bool`, the mark saying that the input is deleted;
this names the positions, which a sublist alone would not.

**Conditions on runs.** `Guarded G is` says that every input of the run meets `G` together with
the inputs before it. It is how an assumption on an environment is written: a clock that does not
step back, a message that was sent before. `guarded_of_pairwise` makes one of a relation between
any two inputs, and `guarded_concat` takes the last input off.

**Dividing a run.** `trace_filter` compares a run with the run of a smaller component on its share
of the inputs; `trace_filter_key_iff` is the case of inputs that carry a key, and
`sum_map_filter_key` divides a sum the same way.
-/

namespace Transducer

variable {σ τ ι ο κ : Type*}

/-- The run of `step` from `s`: every input paired with the answer given to it. -/
def trace (step : σ → ι → ο × σ) : σ → List ι → List (ι × ο)
  | _, [] => []
  | s, i :: is => (i, (step s i).1) :: trace step (step s i).2 is

/-- The state `step` reaches from `s` after the inputs `is`. -/
def final (step : σ → ι → ο × σ) (s : σ) (is : List ι) : σ :=
  is.foldl (fun t i => (step t i).2) s

/-- The answers of a run, one for each input. -/
def outputs (step : σ → ι → ο × σ) (s : σ) (is : List ι) : List ο :=
  (trace step s is).map Prod.snd

section Basic

variable (step : σ → ι → ο × σ) (s : σ)

@[simp] theorem trace_nil : trace step s [] = [] := rfl

@[simp] theorem trace_cons (i : ι) (is : List ι) :
    trace step s (i :: is) = (i, (step s i).1) :: trace step (step s i).2 is := rfl

@[simp] theorem final_nil : final step s [] = s := rfl

@[simp] theorem final_cons (i : ι) (is : List ι) :
    final step s (i :: is) = final step (step s i).2 is := rfl

@[simp] theorem outputs_nil : outputs step s [] = [] := rfl

@[simp] theorem outputs_cons (i : ι) (is : List ι) :
    outputs step s (i :: is) = (step s i).1 :: outputs step (step s i).2 is := rfl

theorem final_append (is js : List ι) :
    final step s (is ++ js) = final step (final step s is) js :=
  List.foldl_append

@[simp] theorem final_concat (is : List ι) (i : ι) :
    final step s (is ++ [i]) = (step (final step s is) i).2 := by
  rw [final_append, final_cons, final_nil]

theorem trace_append (is js : List ι) :
    trace step s (is ++ js) = trace step s is ++ trace step (final step s is) js := by
  induction is generalizing s with
  | nil => rfl
  | cons i is ih => simp only [List.cons_append, trace_cons, final_cons, ih]

@[simp] theorem trace_concat (is : List ι) (i : ι) :
    trace step s (is ++ [i]) = trace step s is ++ [(i, (step (final step s is) i).1)] := by
  rw [trace_append, trace_cons, trace_nil]

@[simp] theorem map_fst_trace (is : List ι) : (trace step s is).map Prod.fst = is := by
  induction is generalizing s with
  | nil => rfl
  | cons i is ih => simp only [trace_cons, List.map_cons, ih]

@[simp] theorem length_trace (is : List ι) : (trace step s is).length = is.length := by
  rw [← List.length_map (f := Prod.fst), map_fst_trace]

@[simp] theorem length_outputs (is : List ι) : (outputs step s is).length = is.length := by
  rw [outputs, List.length_map, length_trace]

theorem outputs_concat (is : List ι) (i : ι) :
    outputs step s (is ++ [i]) = outputs step s is ++ [(step (final step s is) i).1] := by
  rw [outputs, trace_concat, List.map_append]
  rfl

/-- The trace of the first inputs is the first part of the trace. -/
theorem take_trace (is : List ι) (n : ℕ) : (trace step s is).take n = trace step s (is.take n) := by
  induction is generalizing s n with
  | nil => simp
  | cons i is ih =>
    cases n with
    | zero => rfl
    | succ n => rw [trace_cons, List.take_succ_cons, List.take_succ_cons, trace_cons, ih]

/-- The answers to the first inputs are the first answers. -/
theorem take_outputs (is : List ι) (n : ℕ) :
    (outputs step s is).take n = outputs step s (is.take n) := by
  rw [outputs, ← List.map_take, take_trace]
  rfl

/-- The entry of a trace at a position is the answer given after the inputs before it. -/
theorem getElem?_trace {is : List ι} {n : ℕ} {i : ι} (h : is[n]? = some i) :
    (trace step s is)[n]? = some (i, (step (final step s (is.take n)) i).1) := by
  induction is generalizing s n with
  | nil => simp at h
  | cons i' is ih =>
    cases n with
    | zero =>
      obtain rfl : i' = i := by simpa using h
      rfl
    | succ n =>
      rw [trace_cons, List.getElem?_cons_succ, ih _ (by simpa using h), List.take_succ_cons,
        final_cons]

/-- The answer to an input is in the trace. -/
theorem mem_trace (pre post : List ι) (i : ι) :
    (i, (step (final step s pre) i).1) ∈ trace step s (pre ++ i :: post) := by
  rw [trace_append, trace_cons]
  exact List.mem_append_right _ List.mem_cons_self

/-- An entry of a trace is the answer to its input in the state reached just before it. -/
theorem exists_of_mem_trace {is : List ι} {p : ι × ο} (h : p ∈ trace step s is) :
    ∃ pre post, is = pre ++ p.1 :: post ∧ p.2 = (step (final step s pre) p.1).1 := by
  induction is generalizing s with
  | nil => simp at h
  | cons i is ih =>
    rw [trace_cons, List.mem_cons] at h
    rcases h with rfl | h
    · exact ⟨[], is, rfl, rfl⟩
    · obtain ⟨pre, post, rfl, hp⟩ := ih _ h
      exact ⟨i :: pre, post, rfl, hp⟩

end Basic

/-! ### Invariants -/

/-- Every step of the run `is` meets the condition `G`, which may look at the inputs before
it. -/
def Guarded (G : List ι → ι → Prop) (is : List ι) : Prop :=
  ∀ n : Fin is.length, G (is.take n) is[n]

instance (G : List ι → ι → Prop) [∀ is i, Decidable (G is i)] (is : List ι) :
    Decidable (Guarded G is) :=
  inferInstanceAs (Decidable (∀ _ : Fin _, _))

theorem guarded_concat {G : List ι → ι → Prop} {is : List ι} {i : ι} :
    Guarded G (is ++ [i]) ↔ Guarded G is ∧ G is i := by
  constructor
  · intro h
    constructor
    · intro n
      have hn := h ⟨n, by rw [List.length_append]; omega⟩
      simpa [List.take_append_of_le_length (Nat.le_of_lt n.2), List.getElem_append_left n.2]
        using hn
    · simpa using h ⟨is.length, by simp⟩
  · rintro ⟨h, hi⟩ ⟨n, hn⟩
    rcases Nat.lt_or_ge n is.length with hlt | hge
    · simpa [List.take_append_of_le_length (Nat.le_of_lt hlt), List.getElem_append_left hlt]
        using h ⟨n, hlt⟩
    · obtain rfl : n = is.length := by simp at hn; omega
      simpa using hi

theorem Guarded.take {G : List ι → ι → Prop} {is : List ι} (h : Guarded G is) (n : ℕ) :
    Guarded G (is.take n) := by
  intro m
  have hm : (m : ℕ) < n := Nat.lt_of_lt_of_le m.2 (List.length_take_le n is)
  have hstep := h ⟨m, Nat.lt_of_lt_of_le m.2 (List.length_take_le' n is)⟩
  rwa [List.take_take, Nat.min_eq_left (Nat.le_of_lt hm), Fin.getElem_fin, List.getElem_take]

/-- Inputs in order meet the condition of being related to every input before. -/
theorem guarded_of_pairwise {r : ι → ι → Prop} {is : List ι} (h : is.Pairwise r) :
    Guarded (fun pre i => ∀ p ∈ pre, r p i) is := by
  induction is using List.reverseRecOn with
  | nil => exact fun n => n.elim0
  | append_singleton is i ih =>
    obtain ⟨his, -, hr⟩ := List.pairwise_append.mp h
    exact guarded_concat.mpr ⟨ih his, fun p hp => hr p hp i List.mem_cons_self⟩

/-- **History invariant.** A relation between the trace of a run and its current state that
holds at the start and is kept by every step meeting `G` holds after every run all of whose
steps meet `G`. -/
theorem trace_invariant {step : σ → ι → ο × σ} {s : σ} {G : List ι → ι → Prop}
    {I : List (ι × ο) → σ → Prop} (start : I [] s)
    (keep : ∀ h t i, G (h.map Prod.fst) i → I h t →
      I (h ++ [(i, (step t i).1)]) (step t i).2)
    (is : List ι) (hG : Guarded G is) : I (trace step s is) (final step s is) := by
  induction is using List.reverseRecOn with
  | nil => exact start
  | append_singleton is i ih =>
    obtain ⟨his, hi⟩ := guarded_concat.mp hG
    rw [trace_concat, final_concat]
    exact keep _ _ i (by rwa [map_fst_trace]) (ih his)

/-- A property of states kept by every step holds in every reachable state. -/
theorem final_invariant {step : σ → ι → ο × σ} {s : σ} {I : σ → Prop} (start : I s)
    (keep : ∀ t i, I t → I (step t i).2) (is : List ι) : I (final step s is) := by
  induction is generalizing s with
  | nil => exact start
  | cons i is ih => exact ih (keep s i start)

/-- What no step changes, no run changes. -/
theorem final_const {step : σ → ι → ο × σ} {f : σ → κ} (h : ∀ t i, f (step t i).2 = f t) (s : σ)
    (is : List ι) : f (final step s is) = f s := by
  induction is generalizing s with
  | nil => rfl
  | cons i is ih => rw [final_cons, ih, h]

/-- A total kept by every step, which adds the contribution of the input and its answer, is
after a run the sum of the contributions. -/
theorem final_sum [AddCommMonoid κ] {step : σ → ι → ο × σ} {f : σ → κ} {g : ι × ο → κ}
    (h : ∀ t i, f (step t i).2 = f t + g (i, (step t i).1)) (s : σ) (is : List ι) :
    f (final step s is) = f s + ((trace step s is).map g).sum := by
  induction is generalizing s with
  | nil => exact (add_zero _).symm
  | cons i is ih => rw [final_cons, trace_cons, List.map_cons, List.sum_cons, ih, h, add_assoc]

/-- A counter that a step raises by one when its input and answer meet `p` counts the entries of
the trace that do. -/
theorem final_countP {step : σ → ι → ο × σ} {f : σ → ℕ} {p : ι × ο → Bool}
    (h : ∀ t i, f (step t i).2 = f t + if p (i, (step t i).1) then 1 else 0) (s : σ)
    (is : List ι) : f (final step s is) = f s + (trace step s is).countP p := by
  induction is generalizing s with
  | nil => rfl
  | cons i is ih =>
    rw [final_cons, trace_cons, List.countP_cons, ih, h]
    omega

/-! ### Deleting inputs -/

/-- The inputs a deletion keeps. -/
def kept (ms : List (ι × Bool)) : List ι := (ms.filter fun m => !m.2).map Prod.fst

/-- The entries of a full trace at the positions a deletion keeps. -/
def keptTrace (ms : List (ι × Bool)) (t : List (ι × ο)) : List (ι × ο) :=
  ((ms.zip t).filter fun p => !p.1.2).map Prod.snd

/-- The entries of a full trace at the positions a deletion drops. -/
def droppedTrace (ms : List (ι × Bool)) (t : List (ι × ο)) : List (ι × ο) :=
  ((ms.zip t).filter fun p => p.1.2).map Prod.snd

@[simp] theorem kept_nil : kept ([] : List (ι × Bool)) = [] := rfl

@[simp] theorem kept_cons_false (i : ι) (ms : List (ι × Bool)) :
    kept ((i, false) :: ms) = i :: kept ms := rfl

@[simp] theorem kept_cons_true (i : ι) (ms : List (ι × Bool)) :
    kept ((i, true) :: ms) = kept ms := rfl

@[simp] theorem keptTrace_nil (t : List (ι × ο)) : keptTrace ([] : List (ι × Bool)) t = [] := rfl

@[simp] theorem keptTrace_cons_false (i : ι) (ms : List (ι × Bool)) (p : ι × ο)
    (t : List (ι × ο)) : keptTrace ((i, false) :: ms) (p :: t) = p :: keptTrace ms t := rfl

@[simp] theorem keptTrace_cons_true (i : ι) (ms : List (ι × Bool)) (p : ι × ο)
    (t : List (ι × ο)) : keptTrace ((i, true) :: ms) (p :: t) = keptTrace ms t := rfl

@[simp] theorem droppedTrace_nil (t : List (ι × ο)) :
    droppedTrace ([] : List (ι × Bool)) t = [] := rfl

@[simp] theorem droppedTrace_cons_false (i : ι) (ms : List (ι × Bool)) (p : ι × ο)
    (t : List (ι × ο)) : droppedTrace ((i, false) :: ms) (p :: t) = droppedTrace ms t := rfl

@[simp] theorem droppedTrace_cons_true (i : ι) (ms : List (ι × Bool)) (p : ι × ο)
    (t : List (ι × ο)) : droppedTrace ((i, true) :: ms) (p :: t) = p :: droppedTrace ms t := rfl

/-- A sum over a trace splits into the kept and the dropped entries. -/
theorem sum_map_keptTrace_add [AddCommMonoid κ] (f : ι × ο → κ) (ms : List (ι × Bool))
    (t : List (ι × ο)) (h : ms.length = t.length) :
    ((keptTrace ms t).map f).sum + ((droppedTrace ms t).map f).sum = (t.map f).sum := by
  induction ms generalizing t with
  | nil =>
    obtain rfl := List.length_eq_zero_iff.mp h.symm
    exact add_zero _
  | cons m ms ih =>
    obtain ⟨i, b⟩ := m
    obtain ⟨p, t, rfl⟩ := List.exists_cons_of_length_eq_add_one h.symm
    have hms := ih t (by simpa using h)
    cases b with
    | false =>
      simp only [keptTrace_cons_false, droppedTrace_cons_false, List.map_cons, List.sum_cons,
        add_assoc, hms]
    | true =>
      simp only [keptTrace_cons_true, droppedTrace_cons_true, List.map_cons, List.sum_cons,
        add_left_comm, hms]

/-- **Deletion rule.** `R k s t` says that the full run in state `s` and the thinned run in
state `t` cannot be told apart by inputs whose clock reading is at least `k`. If a kept input
is answered alike on both sides and keeps `R`, and an input answered by a droppable answer
keeps `R` when only the full run takes it, then deleting droppable inputs from a run with
nondecreasing clock readings changes no remaining answer, and `R` relates the final states. -/
theorem trace_deletion [LE κ] {step : σ → ι → ο × σ} {step' : τ → ι → ο × τ}
    {clock : ι → κ} {R : κ → σ → τ → Prop} (Droppable : ο → Prop)
    (keep : ∀ k s t i, R k s t → k ≤ clock i →
      (step s i).1 = (step' t i).1 ∧ R (clock i) (step s i).2 (step' t i).2)
    (drop : ∀ k s t i, R k s t → k ≤ clock i → Droppable (step s i).1 →
      R (clock i) (step s i).2 t)
    (ms : List (ι × Bool)) (k : κ) (s : σ) (t : τ) (hR : R k s t)
    (hk : ∀ m ∈ ms, k ≤ clock m.1) (hmono : ms.Pairwise fun a b => clock a.1 ≤ clock b.1)
    (hdrop : ∀ p ∈ droppedTrace ms (trace step s (ms.map Prod.fst)), Droppable p.2) :
    keptTrace ms (trace step s (ms.map Prod.fst)) = trace step' t (kept ms) ∧
      ∃ k', R k' (final step s (ms.map Prod.fst)) (final step' t (kept ms)) := by
  induction ms generalizing k s t with
  | nil => exact ⟨rfl, k, hR⟩
  | cons m ms ih =>
    obtain ⟨i, b⟩ := m
    have hle : k ≤ clock i := hk (i, b) List.mem_cons_self
    obtain ⟨hi, hms⟩ := List.pairwise_cons.mp hmono
    cases b with
    -- kept: both machines take the step
    | false =>
      obtain ⟨heq, hR'⟩ := keep k s t i hR hle
      obtain ⟨htr, k', hk'⟩ := ih (clock i) _ _ hR' hi hms hdrop
      refine ⟨?_, k', hk'⟩
      simp only [List.map_cons, trace_cons, keptTrace_cons_false, kept_cons_false, htr, heq]
    | true =>
      obtain ⟨hd, hrest⟩ := List.forall_mem_cons.mp hdrop
      exact ih (clock i) _ _ (drop k s t i hR hle hd) hi hms hrest

/-! ### Dividing the inputs -/

/-- **Projection rule.** If the inputs meeting `p` are answered by `step` as by `step'` and keep
`R`, and the other inputs keep `R` when only `step` takes them, then `step` answers the inputs
meeting `p`, wherever they stand in a run, as `step'` answers them alone. -/
theorem trace_filter {step : σ → ι → ο × σ} {step' : τ → ι → ο × τ} {R : σ → τ → Prop}
    (p : ι → Bool)
    (hit : ∀ s t i, R s t → p i = true →
      (step s i).1 = (step' t i).1 ∧ R (step s i).2 (step' t i).2)
    (miss : ∀ s t i, R s t → p i = false → R (step s i).2 t) (s : σ) (t : τ) (hR : R s t)
    (is : List ι) :
    (trace step s is).filter (fun x => p x.1) = trace step' t (is.filter p) ∧
      R (final step s is) (final step' t (is.filter p)) := by
  induction is generalizing s t with
  | nil => exact ⟨rfl, hR⟩
  | cons i is ih =>
    cases hp : p i with
    | false =>
      obtain ⟨htr, hfin⟩ := ih _ _ (miss s t i hR hp)
      rw [trace_cons, List.filter_cons_of_neg (by simp [hp]),
        List.filter_cons_of_neg (by simp [hp])]
      exact ⟨htr, hfin⟩
    | true =>
      obtain ⟨heq, hR'⟩ := hit s t i hR hp
      obtain ⟨htr, hfin⟩ := ih _ _ hR'
      rw [@List.filter_cons_of_pos _ p i is hp, trace_cons, trace_cons,
        List.filter_cons_of_pos (by exact hp), htr, heq]
      exact ⟨rfl, hfin⟩

/-- **Separation.** The inputs of each key are answered, wherever they stand in a run, as in the
run of these inputs alone, exactly if every input is answered as after the inputs of its own key
alone. -/
theorem trace_filter_key_iff [DecidableEq κ] {step : σ → ι → ο × σ} {s : σ} (key : ι → κ)
    {is : List ι} :
    (∀ k, (trace step s is).filter (fun p => key p.1 = k) =
        trace step s (is.filter fun i => key i = k)) ↔
      Guarded (fun pre i => (step (final step s pre) i).1 =
        (step (final step s (pre.filter fun j => key j = key i)) i).1) is := by
  induction is using List.reverseRecOn with
  | nil => exact ⟨fun _ n => n.elim0, fun _ _ => rfl⟩
  | append_singleton is i ih =>
    rw [guarded_concat, ← ih]
    -- the last input is seen under its own key only
    have hmiss : ∀ k, key i ≠ k →
        ((trace step s (is ++ [i])).filter (fun p => key p.1 = k) =
            trace step s ((is ++ [i]).filter fun j => key j = k) ↔
          (trace step s is).filter (fun p => key p.1 = k) =
            trace step s (is.filter fun j => key j = k)) := by
      intro k hk
      rw [trace_concat, List.filter_append, List.filter_append, List.filter_cons_of_neg (by simpa),
        List.filter_cons_of_neg (by simpa), List.filter_nil, List.filter_nil, List.append_nil,
        List.append_nil]
    have hhit : (trace step s (is ++ [i])).filter (fun p => key p.1 = key i) =
          trace step s ((is ++ [i]).filter fun j => key j = key i) ↔
        (trace step s is).filter (fun p => key p.1 = key i) =
            trace step s (is.filter fun j => key j = key i) ∧
          (step (final step s is) i).1 =
            (step (final step s (is.filter fun j => key j = key i)) i).1 := by
      rw [trace_concat, List.filter_append, List.filter_append, List.filter_cons_of_pos (by simp),
        List.filter_cons_of_pos (by simp), List.filter_nil, List.filter_nil, trace_concat,
        ← List.concat_eq_append, ← List.concat_eq_append, List.concat_inj, Prod.mk.injEq,
        and_iff_right rfl]
    constructor
    · intro h
      obtain ⟨hsame, hans⟩ := hhit.mp (h (key i))
      refine ⟨fun k => ?_, hans⟩
      by_cases hk : key i = k
      · exact hk ▸ hsame
      · exact (hmiss k hk).mp (h k)
    · rintro ⟨h, hans⟩ k
      by_cases hk : key i = k
      · exact hk ▸ hhit.mpr ⟨h (key i), hans⟩
      · exact (hmiss k hk).mpr (h k)

/-- A sum over a list splits into the entries of each key of a list of keys and those of no such
key. -/
theorem sum_map_filter_key [AddCommMonoid κ] [DecidableEq τ] (key : ι → τ) (f : ι → κ)
    {ks : List τ} (hks : ks.Nodup) (l : List ι) :
    (l.map f).sum = (ks.map fun k => ((l.filter fun i => key i = k).map f).sum).sum +
      ((l.filter fun i => key i ∉ ks).map f).sum := by
  induction ks generalizing l with
  | nil => simp
  | cons k ks ih =>
    obtain ⟨hk, hks⟩ := List.nodup_cons.mp hks
    -- the inputs of the first key, and the others, on which the induction hypothesis is used
    have hsplit : (l.map f).sum = ((l.filter fun i => key i = k).map f).sum +
        ((l.filter fun i => key i ≠ k).map f).sum := by
      rw [← List.sum_append, ← List.map_append]
      refine (List.Perm.sum_eq ((List.Perm.map f ?_))).symm
      simpa using List.filter_append_perm (fun i => decide (key i = k)) l
    have hrest : (ks.map fun k' =>
        (((l.filter fun i => key i ≠ k).filter fun i => key i = k').map f).sum) =
        ks.map fun k' => ((l.filter fun i => key i = k').map f).sum := by
      refine List.map_congr_left fun k' hk' => ?_
      rw [List.filter_filter]
      refine congrArg (fun l => (l.map f).sum) (List.filter_congr fun i _ => ?_)
      have hne : k' ≠ k := fun h => hk (h ▸ hk')
      by_cases h : key i = k' <;> simp [h, hne]
    have hnone : (l.filter fun i => key i ≠ k).filter (fun i => key i ∉ ks) =
        l.filter fun i => key i ∉ k :: ks := by
      rw [List.filter_filter]
      refine List.filter_congr fun i _ => ?_
      by_cases h : key i = k <;> simp [h]
    rw [hsplit, ih hks (l.filter fun i => key i ≠ k), hrest, hnone, List.map_cons, List.sum_cons,
      add_assoc]

end Transducer
