import Catp.Core.RateLimit

/-!
# Rate limiting under a clock that steps back

`tryAcquire` asks for a monotonic clock, and counts a backward step as zero elapsed time. It also
takes the earlier reading for the time of its last call. So when the clock comes forward again it
refills a stretch of time that it has already refilled, and a clock that keeps stepping back and
forth within one second earns a limiter any number of tokens (`count_zigzag`).

The budget of the burst and of the time between the smallest and the largest reading holds in
every run in which no step of the clock runs over a stretch a second time
(`withinBudget_of_once`).

**The two sides.** `withinBudget_of_once` is about every rate limit and every prefix of every run
whose clock meets the condition `Once`, which allows backward steps as long as no stretch is run
over again. `count_zigzag` is about the run that breaks it most simply: a clock that goes back and
forth over one second, `n` times. It shows that there is no bound on the tokens granted within
that second, and `withinBudget_zigzag` is its shortest case.

The bucket itself is `TokenBucket`, to which the limiter is related by `tryAcquire_eq_step`; the
bound used here, `level_add_granted_le`, asks nothing of the clock and is stated in the stretches
that the clock runs over.
-/

namespace Catp

open Transducer Stretches

namespace InboundLimiter

/-- The calls are granted at most the burst and what the rate yields from the smallest to the
largest reading. -/
def WithinBudget (limit : RateLimit) (ts : List UInt64) : Prop :=
  ((outputs tryAcquire (new limit) ts).count true : ℚ) ≤
    (max limit.burst.toNat 1 : ℕ) + limit.perSec.toNat *
      ((largest (ts.map UInt64.toNat) : ℚ) - smallest (ts.map UInt64.toNat)) / 1000

/-- A limiter answers a run as its bucket does. -/
private theorem outputs_eq {limit : RateLimit} {l : InboundLimiter} (hp : l.perSec = limit.perSec)
    (hc : l.capacityMicro = capacityOf limit) (ts : List UInt64) :
    outputs tryAcquire l ts =
      outputs (TokenBucket.step (capacityOf limit) (limit.perSec.toNat * 1000) 1000000) l.bucket
        (ts.map UInt64.toNat) := by
  induction ts generalizing l with
  | nil => rfl
  | cons t ts ih =>
    obtain ⟨granted, tokens, htry, hstep⟩ := tryAcquire_eq_step t hp hc
    rw [outputs_cons, List.map_cons, outputs_cons, htry, hstep]
    exact congrArg (granted :: ·) (ih hp hc)

/-- What a run grants is paid for by the burst and the stretches its clock ran over. -/
private theorem count_granted_le (limit : RateLimit) (ts : List UInt64) :
    1000000 * (outputs tryAcquire (new limit) ts).count true ≤
      capacityOf limit + limit.perSec.toNat * 1000 * elapsed (ts.map UInt64.toNat) := by
  rw [outputs_eq rfl rfl]
  exact Nat.le_trans (Nat.le_add_left _ _) (TokenBucket.level_add_granted_le _ _ _ _ _)

/-- **The budget of a clock that runs over no stretch twice.** -/
theorem withinBudget_of_once (limit : RateLimit) {ts : List UInt64}
    (h : Guarded Once (ts.map UInt64.toNat)) (n : ℕ) : WithinBudget limit (ts.take n) := by
  have hspread : elapsed ((ts.take n).map UInt64.toNat) ≤
      largest ((ts.take n).map UInt64.toNat) - smallest ((ts.take n).map UInt64.toNat) := by
    rw [List.map_take]
    exact elapsed_le_spread (h.take n)
  have hgranted := (count_granted_le limit (ts.take n)).trans
    (Nat.add_le_add_left (Nat.mul_le_mul_left _ hspread) _)
  rw [capacityOf] at hgranted
  rw [WithinBudget, ← Nat.cast_sub (smallest_le_largest _)]
  have hcast := Nat.cast_le (α := ℚ).mpr hgranted
  push_cast at hcast ⊢
  linarith

/-- The clock steps back once and comes forward over the time it stepped over. -/
theorem withinBudget_of_once_steps_back :
    Guarded Once ([1000, 500, 200, 500, 1000].map UInt64.toNat) ∧
      WithinBudget ⟨2, 2⟩ ([1000, 500, 200, 500, 1000].take 5) :=
  ⟨by decide, withinBudget_of_once _ (by decide) _⟩

/-- Every round of a clock that steps forward by a second and back again earns a token. -/
theorem count_zigzag (n : ℕ) :
    (outputs tryAcquire (new ⟨1, 1⟩) (0 :: (List.replicate n [1000, 0]).flatten)).count true =
      n + 1 := by
  have hfirst : (new ⟨1, 1⟩).tryAcquire 0 = (true, ⟨1, 1000000, 0, 0⟩) := by decide +kernel
  have hforward : (mk 1 1000000 0 0).tryAcquire 1000 = (true, ⟨1, 1000000, 0, 1000⟩) := by
    decide +kernel
  have hback : (mk 1 1000000 0 1000).tryAcquire 0 = (false, ⟨1, 1000000, 0, 0⟩) := by
    decide +kernel
  -- a round spends what it refills, and ends where it began
  have hround : ∀ n, (outputs tryAcquire ⟨1, 1000000, 0, 0⟩
      (List.replicate n [1000, 0]).flatten).count true = n := by
    intro n
    induction n with
    | zero => rfl
    | succ n ih =>
      rw [List.replicate_succ, List.flatten_cons, List.cons_append, List.cons_append,
        List.nil_append, outputs_cons, hforward, outputs_cons, hback, List.count_cons_self,
        List.count_cons_of_ne (by decide), ih]
  rw [outputs_cons, hfirst, List.count_cons_self, hround]

/-- A burst of one at one token a second: three tokens within one second. -/
theorem withinBudget_zigzag : ¬∀ limit ts n, WithinBudget limit (List.take n ts) := by
  intro h
  have hbudget := h ⟨1, 1⟩ [0, 1000, 0, 1000, 0] 5
  have hcount : (outputs tryAcquire (new ⟨1, 1⟩) [0, 1000, 0, 1000, 0]).count true = 3 :=
    count_zigzag 2
  have hlargest : largest ([0, 1000, 0, 1000, 0].map UInt64.toNat) = 1000 := by decide
  have hsmallest : smallest ([0, 1000, 0, 1000, 0].map UInt64.toNat) = 0 := by decide
  rw [WithinBudget, List.take_of_length_le (by decide), hcount, hlargest, hsmallest,
    show max (1 : UInt32).toNat 1 = 1 from rfl, show (1 : UInt32).toNat = 1 from rfl] at hbudget
  norm_num at hbudget

end InboundLimiter

end Catp
