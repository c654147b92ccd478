import Catp.Lib.Stretches

/-!
# Token buckets

A bucket holds at most `capacity` units, gains `rate` units for every unit of time, and grants
a request by spending `cost` units if it has them. Clock readings and amounts are natural
numbers.

What a bucket holds is a statement about its past: `n` units can be spent at time `t` exactly
when no stretch of the history, from one of its requests up to `t`, would thereby have been
granted more than the capacity and what the stretch refilled (`Spendable`). `Accounts.step`
keeps this relation over one request, whether or not it is granted. It asks for a clock that never
steps back. Under any clock a bucket grants no more than it holds and what the stretches refill
that its clock runs over, each as often as it runs over it (`level_add_granted_le`).

* `step`: a bucket refills by the elapsed time, up to its capacity, then spends if it can.
* `Spendable`, `Accounts`: the specification, in terms of the history of requests and answers
  alone, and the invariant that ties the level to it.
* `spendable_concat`: how a request changes what can be spent. A stretch that ends with a granted
  request has one more grant to pay for.

**Why stretches.** The level after a refusal or a full refill depends on the whole past through a
minimum over starting points. Quantifying over the stretches that end now is that minimum written
as a conjunction, which is how `Accounts.spendable_iff` reads it off the level.
-/

namespace TokenBucket

/-- The contents of a bucket, and the time of its last request. -/
@[ext]
structure Bucket where
  level : ℕ
  last : ℕ
  deriving DecidableEq, Repr

variable (capacity rate cost : ℕ)

/-- One request. -/
def step (b : Bucket) (t : ℕ) : Bool × Bucket :=
  let level := min (b.level + rate * (t - b.last)) capacity
  if cost ≤ level then (true, ⟨level - cost, t⟩) else (false, ⟨level, t⟩)

/-- One request of a bucket whose contents by then are `level'`. -/
theorem step_eq {capacity rate cost level last t level' : ℕ}
    (h : level' = min (level + rate * (t - last)) capacity) :
    step capacity rate cost ⟨level, last⟩ t =
      if cost ≤ level' then (true, ⟨level' - cost, t⟩) else (false, ⟨level', t⟩) := by
  subst h
  rfl

/-- No stretch of the history that ends at `t` leaves less than `n` units. -/
def Spendable (h : List (ℕ × Bool)) (t n : ℕ) : Prop :=
  n ≤ capacity ∧ ∀ i p, h[i]? = some p →
    n + cost * (h.drop i).countP Prod.snd ≤ capacity + rate * (t - p.1)

/-- The contents of the bucket are what its history leaves. -/
structure Accounts (h : List (ℕ × Bool)) (b : Bucket) : Prop where
  /-- The last request is the latest one. -/
  le_last : ∀ p ∈ h, p.1 ≤ b.last
  le_level_iff : ∀ n, n ≤ b.level ↔ Spendable capacity rate cost h b.last n

variable {capacity rate cost} {h : List (ℕ × Bool)} {b : Bucket} {t n : ℕ}

/-- A full bucket has no history. -/
theorem accounts_full (t : ℕ) : Accounts capacity rate cost [] ⟨capacity, t⟩ :=
  ⟨by simp, fun n => by simp [Spendable]⟩

/-- Time passes: what can be spent grows by the refill, up to the capacity. -/
theorem Accounts.spendable_iff (hb : Accounts capacity rate cost h b) (ht : b.last ≤ t) :
    Spendable capacity rate cost h t n ↔ n ≤ min (b.level + rate * (t - b.last)) capacity := by
  -- nothing can be spent at the last request either way
  have hzero := ((hb.le_level_iff 0).mp (Nat.zero_le _)).2
  have hn := hb.le_level_iff (n - rate * (t - b.last))
  rw [Nat.le_min, ← Nat.sub_le_iff_le_add, hn, Spendable, Spendable, and_comm]
  refine and_congr_left fun hcap => ?_
  have hcap' : n - rate * (t - b.last) ≤ capacity := Nat.le_trans (Nat.sub_le _ _) hcap
  rw [and_iff_right hcap']
  refine forall_congr' fun i => forall_congr' fun p => forall_congr' fun hp => ?_
  have hpast := hb.le_last p (List.mem_of_getElem? hp)
  have hsplit : rate * (t - p.1) = rate * (t - b.last) + rate * (b.last - p.1) := by
    rw [← Nat.mul_add, Nat.sub_add_sub_cancel ht hpast]
  have := hzero i p hp
  omega

/-- A request adds its own cost to every stretch, if it is granted. -/
theorem spendable_concat (granted : Bool) : Spendable capacity rate cost (h ++ [(t, granted)]) t n ↔
    Spendable capacity rate cost h t (n + if granted then cost else 0) := by
  have hone : cost * List.countP Prod.snd [(t, granted)] = if granted then cost else 0 := by
    cases granted <;> simp
  constructor
  · rintro ⟨-, hall⟩
    constructor
    -- over the stretch that begins with this call, no more than the capacity can be spent
    · have hlast := hall h.length (t, granted) (by simp)
      rw [List.drop_left, hone] at hlast
      simpa using hlast
    · intro i p hp
      have hi : i < h.length := (List.getElem?_eq_some_iff.mp hp).1
      have hstretch := hall i p (by rw [List.getElem?_append_left hi, hp])
      rw [List.drop_append_of_le_length (Nat.le_of_lt hi), List.countP_append, Nat.mul_add,
        hone] at hstretch
      omega
  · rintro ⟨hcap, hall⟩
    refine ⟨by omega, fun i p hp => ?_⟩
    rcases Nat.lt_or_ge i h.length with hi | hi
    · rw [List.getElem?_append_left hi] at hp
      have hstretch := hall i p hp
      rw [List.drop_append_of_le_length (Nat.le_of_lt hi), List.countP_append, Nat.mul_add, hone]
      omega
    · obtain ⟨hlt, -⟩ := List.getElem?_eq_some_iff.mp hp
      obtain rfl : i = h.length := by
        rw [List.length_append, List.length_singleton] at hlt
        omega
      rw [List.drop_left, hone]
      omega

/-- **One request** is granted exactly when its cost can be spent, and is accounted for. -/
theorem Accounts.step (hb : Accounts capacity rate cost h b) (ht : b.last ≤ t) :
    ((step capacity rate cost b t).1 = true ↔ Spendable capacity rate cost h t cost) ∧
      Accounts capacity rate cost (h ++ [(t, (TokenBucket.step capacity rate cost b t).1)])
        (TokenBucket.step capacity rate cost b t).2 := by
  have hpast : ∀ granted, ∀ p ∈ h ++ [(t, granted)], p.1 ≤ t := by
    intro granted p hp
    rcases List.mem_append.mp hp with hp | hp
    · exact Nat.le_trans (hb.le_last p hp) ht
    · exact Nat.le_of_eq (congrArg Prod.fst (List.mem_singleton.mp hp))
  rw [hb.spendable_iff ht, TokenBucket.step]
  split_ifs with hcost
  · refine ⟨iff_of_true rfl hcost, hpast true, fun n => ?_⟩
    rw [spendable_concat, hb.spendable_iff ht, if_pos rfl]
    exact Nat.le_sub_iff_add_le hcost
  · refine ⟨iff_of_false nofun hcost, hpast false, fun n => ?_⟩
    rw [spendable_concat, hb.spendable_iff ht]
    exact Iff.rfl

/-! ### Clocks that step back -/

section AnyClock

open Transducer Stretches

variable (capacity rate cost)

@[simp] theorem step_last (b : Bucket) (t : ℕ) : (step capacity rate cost b t).2.last = t := by
  rw [TokenBucket.step]
  split_ifs <;> rfl

/-- What a request leaves and what it spends are what the bucket held by then. -/
theorem step_level_add (b : Bucket) (t : ℕ) :
    (step capacity rate cost b t).2.level + cost * [(step capacity rate cost b t).1].count true =
      min (b.level + rate * (t - b.last)) capacity := by
  rw [TokenBucket.step]
  split_ifs with hcost
  · simpa using Nat.sub_add_cancel hcost
  · simp

/-- **A full bucket under any clock.** What it has granted and what it holds are paid for by its
capacity and the stretches its clock ran over. -/
theorem level_add_granted_le (t₀ : ℕ) (ts : List ℕ) :
    (final (step capacity rate cost) ⟨capacity, t₀⟩ ts).level +
        cost * (outputs (step capacity rate cost) ⟨capacity, t₀⟩ ts).count true ≤
      capacity + rate * elapsed ts := by
  induction ts using List.reverseRecOn with
  | nil => simp
  | append_singleton ts t ih =>
    have hstep := step_level_add capacity rate cost
      (final (step capacity rate cost) ⟨capacity, t₀⟩ ts) t
    rw [final_concat, outputs_concat, List.count_append, Nat.mul_add]
    rcases List.eq_nil_or_concat ts with rfl | ⟨ts, s, rfl⟩
    · -- the first request finds the bucket full
      simp only [outputs_nil, List.count_nil, Nat.mul_zero, Nat.zero_add]
      omega
    · rw [List.concat_eq_append] at hstep ih ⊢
      have hlast : (final (step capacity rate cost) ⟨capacity, t₀⟩ (ts ++ [s])).last = s := by
        rw [final_concat, step_last]
      rw [hlast] at hstep
      rw [List.append_assoc ts, List.singleton_append, elapsed_concat, Nat.mul_add]
      omega

end AnyClock

end TokenBucket
