import Catp.Core.Epoch
import Catp.Lib.Transducer
import Mathlib.Data.List.Basic

/-!
# Sender-side offset allocation

`Pacer` of `src/lib.rs` and what a run of `claim` calls hands out. A pacer remembers the
epoch of the last clock reading and the last offset it gave out there; a reading in another
epoch resets it, *whichever way* the clock moved. So the offsets are fresh as long as the clock
does not come back to an epoch it has left at or below a tick it read there (`Fresh.step`), and
a clock that steps back across an epoch boundary makes the pacer repeat itself.

* `claim_eq`: one call, as a function of the pair last handed out. It succeeds if the epoch
  differs from the stored one or the offset lies above the stored one.
* `EntersAbove`: the condition on a reading under which nothing is repeated. A reading that stays
  in the epoch of the reading before it is free, and one that enters another epoch lies above
  every tick read there earlier.
* `Fresh`: the invariant. What is stored is the epoch of the last reading and a bound on every
  tick read in that epoch; what has been handed out are ticks read, rising within each epoch.
  `Fresh.step` keeps it over a call that meets the condition.
* `claimed_increasing`, `claimed_nodup`: within an epoch the offsets rise, so no pair is handed
  out twice.

`claim_repeats` is the run in which the condition fails: out of an epoch and back into it. The
docstring of the source counts that among the cases it covers.
-/

namespace Catp

open Transducer

/-- A reading of the sender's clock, the arguments of `claim`. -/
structure Reading where
  unixSecs : UInt64
  nanos : UInt32
  deriving DecidableEq, Repr

/-- The epoch a reading falls in. -/
def Reading.epoch (r : Reading) : UInt32 := epochIdAt r.unixSecs

/-- The tick within its epoch a reading falls in. -/
def Reading.offset (r : Reading) : UInt32 := epochOffsetAt r.unixSecs r.nanos

/-- Claims ticks for a sender: the last epoch and offset handed out. -/
structure Pacer where
  epoch : Option UInt32
  lastOffset : Option UInt32
  deriving DecidableEq, Repr

namespace Pacer

/-- A pacer that has handed out nothing. -/
def new : Pacer := ⟨none, none⟩

/-- Claim an offset for a datagram sent at this instant. -/
def claim (p : Pacer) (r : Reading) : Except Error (UInt32 × UInt32) × Pacer :=
  let epoch := epochIdAt r.unixSecs
  let offset := epochOffsetAt r.unixSecs r.nanos
  let p := if p.epoch ≠ some epoch then { epoch := some epoch, lastOffset := none } else p
  match p.lastOffset with
  | some prev =>
    if offset ≤ prev then (.error (.offsetReuse offset), p)
    else (.ok (epoch, offset), { p with lastOffset := some offset })
  | none => (.ok (epoch, offset), { p with lastOffset := some offset })

/-- The pairs a run of calls handed out, in order. -/
def handedOut (h : List (Reading × Except Error (UInt32 × UInt32))) : List (UInt32 × UInt32) :=
  h.filterMap fun c => c.2.toOption

/-- The pairs a new pacer hands out for these clock readings, in order. -/
def claimed (rs : List Reading) : List (UInt32 × UInt32) :=
  handedOut (trace claim new rs)

/-! ### One call -/

/-- What a call does: in the epoch of the previous reading it hands out the tick exactly when
it lies above the last one handed out there, in any other epoch always. -/
theorem claim_eq (p : Pacer) (r : Reading) :
    p.claim r =
      if p.epoch = some r.epoch ∧ ∃ prev ∈ p.lastOffset, r.offset ≤ prev then
        (.error (.offsetReuse r.offset), p)
      else (.ok (r.epoch, r.offset), ⟨some r.epoch, some r.offset⟩) := by
  obtain ⟨e, o⟩ := p
  unfold claim
  by_cases he : e = some r.epoch
  · subst he
    cases o with
    | none => simp [Reading.epoch, Reading.offset]
    | some prev =>
      by_cases hle : r.offset ≤ prev <;> simp_all [Reading.epoch, Reading.offset]
  · simp_all [Reading.epoch, Reading.offset]

/-! ### Runs -/

/-- A reading in another epoch than the one before it lies above every tick read earlier in
the epoch it enters: the clock may come back to an epoch it left, but only ahead of where it
left it. -/
def EntersAbove (pre : List Reading) (r : Reading) : Prop :=
  (pre.getLast?.map Reading.epoch ≠ some r.epoch) →
    ∀ r' ∈ pre, r'.epoch = r.epoch → r'.offset < r.offset

instance (pre : List Reading) (r : Reading) : Decidable (EntersAbove pre r) :=
  inferInstanceAs (Decidable (_ → _))

/-- The pacer remembers the epoch of the last reading, and the offset it remembers bounds
every tick read in that epoch. What it has handed out are ticks it has read, increasing within
each epoch. -/
structure Fresh (h : List (Reading × Except Error (UInt32 × UInt32))) (p : Pacer) : Prop where
  epoch_eq : p.epoch = (h.map Prod.fst).getLast?.map Reading.epoch
  le_last : ∀ e ∈ p.epoch, ∃ m ∈ p.lastOffset, ∀ r ∈ h.map Prod.fst, r.epoch = e → r.offset ≤ m
  read : ∀ q ∈ handedOut h, ∃ r ∈ h.map Prod.fst, q = (r.epoch, r.offset)
  increasing : (handedOut h).Pairwise fun a b => a.1 = b.1 → a.2 < b.2

private theorem fresh_start : Fresh [] new :=
  ⟨rfl, by simp [new], by simp [handedOut], List.Pairwise.nil⟩

/-- A refused reading hands out nothing. -/
@[simp] theorem handedOut_concat_error (h : List (Reading × Except Error (UInt32 × UInt32)))
    (r : Reading) (e : Error) : handedOut (h ++ [(r, .error e)]) = handedOut h := by
  simp [handedOut, Except.toOption]

/-- A reading claimed hands out its pair. -/
@[simp] theorem handedOut_concat_ok (h : List (Reading × Except Error (UInt32 × UInt32)))
    (r : Reading) (q : UInt32 × UInt32) : handedOut (h ++ [(r, .ok q)]) = handedOut h ++ [q] := by
  simp [handedOut, Except.toOption]

/-- A call that succeeds lies above every tick read earlier in its epoch. -/
private theorem Fresh.below {h : List (Reading × Except Error (UInt32 × UInt32))} {p : Pacer}
    {r : Reading} (hf : Fresh h p) (hin : EntersAbove (h.map Prod.fst) r)
    (hok : ¬(p.epoch = some r.epoch ∧ ∃ prev ∈ p.lastOffset, r.offset ≤ prev)) :
    ∀ r' ∈ h.map Prod.fst, r'.epoch = r.epoch → r'.offset < r.offset := by
  by_cases he : p.epoch = some r.epoch
  · obtain ⟨m, hm, hbound⟩ := hf.le_last r.epoch he
    have hlt : m < r.offset := UInt32.not_le.mp fun hle => hok ⟨he, m, hm, hle⟩
    exact fun r' hr' hre => UInt32.lt_of_le_of_lt (hbound r' hr' hre) hlt
  · exact hin (hf.epoch_eq ▸ he)

/-- One call keeps the bookkeeping. -/
theorem Fresh.step {h : List (Reading × Except Error (UInt32 × UInt32))} {p : Pacer}
    {r : Reading} (hf : Fresh h p) (hin : EntersAbove (h.map Prod.fst) r) :
    Fresh (h ++ [(r, (p.claim r).1)]) (p.claim r).2 := by
  have hmem : ∀ r' (c : Except Error (UInt32 × UInt32)),
      r' ∈ (h ++ [(r, c)]).map Prod.fst ↔ r' ∈ h.map Prod.fst ∨ r' = r := by simp
  rw [claim_eq]
  split_ifs with hcase
  · -- refused: the tick is not above the last one of this epoch
    obtain ⟨he, prev, hprev, hle⟩ := hcase
    obtain ⟨m, hm, hbound⟩ := hf.le_last r.epoch he
    obtain rfl : m = prev := Option.some_injective _ (hm.symm.trans hprev)
    refine ⟨by simpa using he, fun e hp => ⟨m, hm, fun r' hr' hre => ?_⟩, fun q hq => ?_, ?_⟩
    · obtain rfl : r.epoch = e := Option.some_injective _ (he.symm.trans hp)
      rcases (hmem r' _).mp hr' with hr' | rfl
      · exact hbound r' hr' hre
      · exact hle
    · rw [handedOut_concat_error] at hq
      obtain ⟨r', hr', rfl⟩ := hf.read q hq
      exact ⟨r', (hmem r' _).mpr (.inl hr'), rfl⟩
    · rw [handedOut_concat_error]
      exact hf.increasing
  · -- handed out: the tick lies above every earlier one of this epoch
    have hbelow := hf.below hin hcase
    refine ⟨by simp, fun e he => ⟨r.offset, rfl, fun r' hr' hre => ?_⟩, fun q hq => ?_, ?_⟩
    · obtain rfl : r.epoch = e := Option.some_injective _ he
      rcases (hmem r' _).mp hr' with hr' | rfl
      · exact UInt32.le_of_lt (hbelow r' hr' hre)
      · exact UInt32.le_refl _
    · rw [handedOut_concat_ok, List.mem_append, List.mem_singleton] at hq
      rcases hq with hq | rfl
      · obtain ⟨r', hr', rfl⟩ := hf.read q hq
        exact ⟨r', (hmem r' _).mpr (.inl hr'), rfl⟩
      · exact ⟨r, (hmem r _).mpr (.inr rfl), rfl⟩
    · rw [handedOut_concat_ok, List.pairwise_append]
      refine ⟨hf.increasing, List.pairwise_singleton _ _, ?_⟩
      intro q hq q' hq' heq
      obtain ⟨r', hr', rfl⟩ := hf.read q hq
      obtain rfl := List.mem_singleton.mp hq'
      exact hbelow r' hr' heq

/-- Within each epoch the offsets handed out increase. -/
theorem claimed_increasing {rs : List Reading} (h : Guarded EntersAbove rs) :
    (claimed rs).Pairwise fun a b => a.1 = b.1 → a.2 < b.2 :=
  (trace_invariant fresh_start (fun _ _ _ hin hf => Fresh.step hf hin) rs h).increasing

/-- **No tuple is handed out twice**, in every run whose clock comes back to an epoch it left
only above the ticks it read there. -/
theorem claimed_nodup {rs : List Reading} (h : Guarded EntersAbove rs) : (claimed rs).Nodup :=
  (claimed_increasing h).imp fun hlt heq => by
    obtain rfl := heq
    exact UInt32.lt_irrefl _ (hlt rfl)

/-- The clock steps back into an epoch it has left, ahead of where it left it. -/
theorem claimed_nodup_steps_back :
    (claimed [⟨1000, 0⟩, ⟨1024, 0⟩, ⟨1000, 500000000⟩, ⟨1000, 400000000⟩]).Nodup ∧
      (claimed [⟨1000, 0⟩, ⟨1024, 0⟩, ⟨1000, 500000000⟩, ⟨1000, 400000000⟩]).length = 3 :=
  ⟨claimed_nodup (by decide), by decide⟩

/-- A clock stepping back across an epoch boundary: the third reading repeats the first. -/
theorem claim_repeats :
    (∀ r ∈ [Reading.mk 1000 0, ⟨1024, 0⟩, ⟨1000, 0⟩],
      r.unixSecs.toNat < 2 ^ 39 ∧ r.nanos.toNat < 10 ^ 9) ∧
    ¬(claimed [⟨1000, 0⟩, ⟨1024, 0⟩, ⟨1000, 0⟩]).Nodup := by
  decide

end Pacer

end Catp
