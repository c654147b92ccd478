import Catp.Core.Registry
import Catp.Lib.TokenBucket
import Mathlib.Data.Rat.Floor
import Mathlib.Tactic.Linarith

/-!
# Inbound rate limiting

`RateLimit` and `InboundLimiter` of `src/lib.rs`: a token bucket counting in micro-tokens.
The `u64` micro-token amounts are natural numbers with the saturation of the code written out
(`saturate`). A limiter refines the general token bucket (`tryAcquire_eq_step`): the saturation
shows in no decision, because the capacity is far below it.

**Refinement.** The state of the limiter is a `TokenBucket.Bucket` in micro-tokens and
milliseconds, with the rate of `per_sec` times 1000 micro-tokens for each millisecond and the cost
of a million. `tryAcquire_eq_step` says that one call is one step of that bucket. It needs that
the rate and the capacity stored are those of the limit, which no call changes.

**What is granted.** Over every run of nondecreasing readings, `Granted` relates the limiter to
the history of its answers, through `TokenBucket.Accounts`. `tryAcquire_granted_iff` reads the
exact condition off it: a call is granted if and only if no stretch of the history that ends with
it would then hold more grants than the burst and the refill of that stretch. `micro_le_iff` turns
the inequality in micro-tokens into one in tokens.
-/

namespace Catp

open Transducer

/-- Receiver-side inbound rate limit of one sender. -/
structure RateLimit where
  perSec : UInt32
  burst : UInt32
  deriving DecidableEq, Repr

/-- `RateLimit::RECOMMENDED_DEFAULT`: 128 a second, in bursts of 128. -/
def RateLimit.recommendedDefault : RateLimit := ⟨128, 128⟩

/-- Token bucket implementing one `RateLimit`. -/
structure InboundLimiter where
  perSec : UInt32
  capacityMicro : ℕ
  tokensMicro : ℕ
  lastMs : UInt64
  deriving DecidableEq, Repr

/-- `saturating_add` and `saturating_mul` on `u64` stop at the largest value. -/
def saturate (n : ℕ) : ℕ := min n (2 ^ 64 - 1)

namespace InboundLimiter

/-- A full bucket. A burst of zero counts as one, so that a limit can be met at all. -/
def new (limit : RateLimit) : InboundLimiter :=
  let capacityMicro := max limit.burst.toNat 1 * 1000000
  { perSec := limit.perSec, capacityMicro, tokensMicro := capacityMicro, lastMs := 0 }

/-- Attempt to spend one token at `nowMs`. A backward step counts as zero elapsed time. -/
def tryAcquire (l : InboundLimiter) (nowMs : UInt64) : Bool × InboundLimiter :=
  let elapsedMs := nowMs.toNat - l.lastMs.toNat
  let refill := saturate (saturate (l.perSec.toNat * 1000) * elapsedMs)
  let tokens := min (saturate (l.tokensMicro + refill)) l.capacityMicro
  if tokens ≥ 1000000 then (true, { l with tokensMicro := tokens - 1000000, lastMs := nowMs })
  else (false, { l with tokensMicro := tokens, lastMs := nowMs })

/-! ### The limiter is a token bucket -/

/-- The bucket of a limiter. -/
def bucket (l : InboundLimiter) : TokenBucket.Bucket := ⟨l.tokensMicro, l.lastMs.toNat⟩

/-- The micro-tokens of a full bucket. -/
def capacityOf (limit : RateLimit) : ℕ := max limit.burst.toNat 1 * 1000000

private theorem capacityOf_lt (limit : RateLimit) : capacityOf limit < 2 ^ 64 - 1 := by
  have := limit.burst.toNat_lt
  rw [capacityOf]
  omega

/-- Saturating at the largest value of the type changes nothing below the capacity. -/
private theorem min_saturate {n c : ℕ} (h : c < 2 ^ 64 - 1) : min (saturate n) c = min n c := by
  rw [saturate, Nat.min_assoc, Nat.min_eq_right h.le]

/-- Neither saturation shows once the bucket is capped. -/
private theorem min_refill {p elapsed tokens c : ℕ} (hp : p < 2 ^ 32) (h : c < 2 ^ 64 - 1) :
    min (saturate (tokens + saturate (saturate (p * 1000) * elapsed))) c =
      min (tokens + p * 1000 * elapsed) c := by
  have hp' : saturate (p * 1000) = p * 1000 := by
    rw [saturate]
    omega
  rw [min_saturate h, hp', saturate]
  omega

/-- One request, without the saturation. -/
theorem tryAcquire_eq {limit : RateLimit} {l : InboundLimiter} (nowMs : UInt64)
    (hp : l.perSec = limit.perSec) (hc : l.capacityMicro = capacityOf limit) {tokens : ℕ}
    (htokens : tokens = min (l.tokensMicro + limit.perSec.toNat * 1000 *
      (nowMs.toNat - l.lastMs.toNat)) (capacityOf limit)) :
    l.tryAcquire nowMs =
      if 1000000 ≤ tokens then (true, { l with tokensMicro := tokens - 1000000, lastMs := nowMs })
      else (false, { l with tokensMicro := tokens, lastMs := nowMs }) := by
  rw [← min_refill limit.perSec.toNat_lt (capacityOf_lt limit), ← hp, ← hc] at htokens
  subst htokens
  rfl

/-- **A limiter takes the steps of its bucket.** -/
theorem tryAcquire_eq_step {limit : RateLimit} {l : InboundLimiter} (nowMs : UInt64)
    (hp : l.perSec = limit.perSec) (hc : l.capacityMicro = capacityOf limit) :
    ∃ granted tokens, l.tryAcquire nowMs = (granted, ⟨l.perSec, l.capacityMicro, tokens, nowMs⟩) ∧
      TokenBucket.step (capacityOf limit) (limit.perSec.toNat * 1000) 1000000 l.bucket
        nowMs.toNat = (granted, ⟨tokens, nowMs.toNat⟩) := by
  obtain ⟨tokens, htokens⟩ : ∃ tokens, tokens = min (l.tokensMicro + limit.perSec.toNat * 1000 *
    (nowMs.toNat - l.lastMs.toNat)) (capacityOf limit) := ⟨_, rfl⟩
  have hb : TokenBucket.step (capacityOf limit) (limit.perSec.toNat * 1000) 1000000 l.bucket
      nowMs.toNat = _ := TokenBucket.step_eq htokens
  rw [tryAcquire_eq nowMs hp hc htokens, hb]
  by_cases htoken : 1000000 ≤ tokens
  · exact ⟨true, tokens - 1000000, if_pos htoken, if_pos htoken⟩
  · exact ⟨false, tokens, if_neg htoken, if_neg htoken⟩

/-! ### What is granted -/

/-- The calls of a trace and whether they were granted, on the clock of the bucket. -/
def history (h : List (UInt64 × Bool)) : List (ℕ × Bool) := h.map fun p => (p.1.toNat, p.2)

private theorem history_concat (h : List (UInt64 × Bool)) (t : UInt64) (granted : Bool) :
    history (h ++ [(t, granted)]) = history h ++ [(t.toNat, granted)] := by
  rw [history, List.map_append]
  rfl

/-- The limiter has granted what the history says. -/
structure Granted (limit : RateLimit) (h : List (UInt64 × Bool)) (l : InboundLimiter) : Prop where
  perSec_eq : l.perSec = limit.perSec
  capacityMicro_eq : l.capacityMicro = capacityOf limit
  accounts : TokenBucket.Accounts (capacityOf limit) (limit.perSec.toNat * 1000) 1000000
    (history h) l.bucket
  last : l.lastMs = 0 ∨ l.lastMs ∈ h.map Prod.fst

private theorem granted_new (limit : RateLimit) : Granted limit [] (new limit) :=
  ⟨rfl, rfl, TokenBucket.accounts_full 0, .inl rfl⟩

/-- **One call at a time not before the others** is granted when its token can be spent. -/
theorem Granted.tryAcquire {limit : RateLimit} {h : List (UInt64 × Bool)} {l : InboundLimiter}
    (hl : Granted limit h l) {nowMs : UInt64} (hmono : ∀ t ∈ h.map Prod.fst, t ≤ nowMs) :
    ((l.tryAcquire nowMs).1 = true ↔
        TokenBucket.Spendable (capacityOf limit) (limit.perSec.toNat * 1000) 1000000 (history h)
          nowMs.toNat 1000000) ∧
      Granted limit (h ++ [(nowMs, (l.tryAcquire nowMs).1)]) (l.tryAcquire nowMs).2 := by
  have hlast : l.bucket.last ≤ nowMs.toNat := by
    rcases hl.last with h0 | hmem
    · rw [bucket, h0]
      exact Nat.zero_le _
    · exact UInt64.le_iff_toNat_le.mp (hmono _ hmem)
  obtain ⟨granted, tokens, htry, hstep⟩ := tryAcquire_eq_step nowMs hl.perSec_eq hl.capacityMicro_eq
  obtain ⟨hiff, hacc⟩ := hl.accounts.step hlast
  rw [hstep] at hiff hacc
  rw [htry]
  refine ⟨hiff, hl.perSec_eq, hl.capacityMicro_eq, ?_, .inr ?_⟩
  · rw [history_concat]
    exact hacc
  · simp

/-- The limiter accounts for every run of nondecreasing readings. -/
private theorem granted_final (limit : RateLimit) {ts : List UInt64} (hmono : ts.Pairwise (· ≤ ·)) :
    Granted limit (trace InboundLimiter.tryAcquire (new limit) ts)
      (final InboundLimiter.tryAcquire (new limit) ts) :=
  trace_invariant (granted_new limit) (fun _ _ _ hmono hl => (hl.tryAcquire hmono).2) ts
    (guarded_of_pairwise hmono)

/-- The tokens granted to the calls from `i` on, counted in the history or in the answers. -/
private theorem countP_history (limit : RateLimit) (ts : List UInt64) (i j : ℕ) :
    ((history (trace tryAcquire (new limit) (ts.take j))).drop i).countP Prod.snd =
      (((outputs tryAcquire (new limit) ts).take j).drop i).count true := by
  have hanswers : (history (trace tryAcquire (new limit) (ts.take j))).map Prod.snd =
      (outputs tryAcquire (new limit) ts).take j := by
    rw [history, take_outputs, outputs, List.map_map]
    rfl
  rw [← hanswers, ← List.map_drop, List.count, List.countP_map]
  exact List.countP_congr fun p _ => by simp

private theorem getElem?_history (limit : RateLimit) (ts : List UInt64) {i j : ℕ} (hij : i < j)
    {t : UInt64} (ht : ts[i]? = some t) :
    ∃ g, (history (trace tryAcquire (new limit) (ts.take j)))[i]? = some (t.toNat, g) := by
  have htake : (ts.take j)[i]? = some t := by rw [List.getElem?_take, if_pos hij, ht]
  rw [history, List.getElem?_map, getElem?_trace _ _ htake]
  exact ⟨_, rfl⟩

/-- The stretches of the calls before call `j`, by the index of their first call. -/
theorem spendable_history_iff (limit : RateLimit) (ts : List UInt64) (j : Fin ts.length) :
    TokenBucket.Spendable (capacityOf limit) (limit.perSec.toNat * 1000) 1000000
        (history (trace tryAcquire (new limit) (ts.take j))) ts[j].toNat 1000000 ↔
      ∀ i : Fin ts.length, i ≤ j → 1000000 + 1000000 *
        (((outputs tryAcquire (new limit) ts).take j).drop i).count true ≤
          capacityOf limit + limit.perSec.toNat * 1000 * (ts[j].toNat - ts[i].toNat) := by
  have hcap : 1000000 ≤ capacityOf limit := by
    rw [capacityOf]
    omega
  constructor
  · rintro ⟨-, hall⟩ i hij
    rcases Nat.lt_or_ge i j with hlt | hge
    · obtain ⟨g, hg⟩ := getElem?_history limit ts hlt (List.getElem?_eq_getElem i.2)
      have hbudget := hall i _ hg
      rwa [countP_history] at hbudget
    · -- the stretch of the call itself
      rw [List.drop_eq_nil_of_le (Nat.le_trans (List.length_take_le _ _) hge), List.count_nil]
      omega
  · intro hall
    refine ⟨hcap, fun i p hp => ?_⟩
    have hij : i < j := by
      have hlen := (List.getElem?_eq_some_iff.mp hp).1
      rw [history, List.length_map, length_trace, List.length_take] at hlen
      omega
    obtain ⟨g, hg⟩ := getElem?_history limit ts hij (List.getElem?_eq_getElem (hij.trans j.2))
    obtain rfl := Option.some.inj (hp.symm.trans hg)
    rw [countP_history]
    exact hall ⟨i, hij.trans j.2⟩ hij.le

/-- The budget of a stretch in micro-tokens and in tokens. -/
theorem micro_le_iff {B p g Δ : ℕ} : 1000000 + 1000000 * g ≤ B * 1000000 + p * 1000 * Δ ↔
    (g : ℚ) + 1 ≤ B + p * Δ / 1000 := by
  rw [← Nat.cast_le (α := ℚ)]
  push_cast
  constructor <;> intro h <;> linarith

/-- **The limiter grants exactly the traffic its budget allows.** In a run with nondecreasing
times, a call is granted exactly when no stretch of calls that ends with it is thereby granted
more than the burst and what the rate yields over the stretch. -/
theorem tryAcquire_granted_iff (limit : RateLimit) (ts : List UInt64)
    (hmono : ts.Pairwise (· ≤ ·)) (j : Fin ts.length) :
    let granted := outputs tryAcquire (new limit) ts
    granted[(j : ℕ)]? = some true ↔ ∀ i : Fin ts.length, i ≤ j →
      (((granted.take j).drop i).count true : ℚ) + 1 ≤
        (max limit.burst.toNat 1 : ℕ) +
          limit.perSec.toNat * ((ts[j].toNat : ℚ) - ts[i].toNat) / 1000 := by
  intro granted
  obtain ⟨hpre, -, hle⟩ := List.pairwise_append.mp ((List.take_append_drop j ts).symm ▸ hmono)
  have hbefore : ∀ t ∈ (trace tryAcquire (new limit) (ts.take j)).map Prod.fst, t ≤ ts[j] := by
    rw [map_fst_trace]
    exact fun t ht => hle t ht _ (List.mem_drop_iff_getElem.mpr ⟨0, by simp, by simp⟩)
  have hanswer : granted[(j : ℕ)]? = some
      (tryAcquire (final tryAcquire (new limit) (ts.take j)) ts[j]).1 := by
    have hentry := getElem?_trace tryAcquire (new limit) (List.getElem?_eq_getElem j.2)
    exact (List.getElem?_map ..).trans (congrArg (Option.map Prod.snd) hentry)
  rw [hanswer, Option.some.injEq, ((granted_final limit hpre).tryAcquire hbefore).1,
    spendable_history_iff]
  refine forall_congr' fun i => forall_congr' fun hij => ?_
  have htime : ts[i].toNat ≤ ts[j].toNat := by
    rcases Nat.lt_or_ge i j with hlt | hge
    · exact UInt64.le_iff_toNat_le.mp (List.pairwise_iff_getElem.mp hmono i j i.2 j.2 hlt)
    · obtain rfl : i = j := Fin.ext (Nat.le_antisymm hij hge)
      exact Nat.le_refl _
  rw [capacityOf, micro_le_iff, Nat.cast_sub htime]

/-- A burst of two at one token a second: the third call comes too early, the fourth in time. -/
theorem tryAcquire_granted_iff_refilled :
    outputs tryAcquire (new ⟨1, 2⟩) [0, 0, 400, 1000] = [true, true, false, true] ∧
      (((outputs tryAcquire (new ⟨1, 2⟩) [0, 0, 400, 1000]).take 3).count true : ℚ) + 1 ≤
        (2 : ℕ) + (1 : ℕ) * (((1000 : ℕ) : ℚ) - (0 : ℕ)) / 1000 := by
  have hgranted : outputs tryAcquire (new ⟨1, 2⟩) [0, 0, 400, 1000] =
      [true, true, false, true] := by decide
  refine ⟨hgranted, (tryAcquire_granted_iff ⟨1, 2⟩ [0, 0, 400, 1000] (by decide) 3).mp ?_ 0 ?_⟩
  · rw [hgranted]
    rfl
  · decide

end InboundLimiter

end Catp
