import Catp.Node.Clock

/-!
# Backoff of the time requests

A node without a clock asks for the time, and waits longer after each request: 2 seconds after the
first, twice as long after the next, up to an hour. `BacksOff` relates what the clock stores to the
requests sent so far and is kept by every event but a boot; `backoff_runs` reads the spacing of the
requests off it, and that a node asks no more once it has accepted a time.

* `backoff i` is the interval after request `i`, of the specification: 2 to the `i`, at most 3600.
* `Event.InRange` bounds the readings of the monotonic clock, so that adding an interval does not
  saturate.
* `BacksOff`: while the node has accepted no time, the next request is due at the time of the last
  one and the interval behind it, and the interval stored is the next one. Once a time has been
  accepted, the clock is valid, and nothing more is sent.

Each kind of event has its lemma (`BacksOff.request`, `BacksOff.announce`, `BacksOff.unchanged`),
which `BacksOff.step` puts together. An announcement that is refused changes nothing, and one that
is accepted only stops the requests.
-/

namespace Catp

open Transducer

namespace NodeClock

/-- The wait after the `i`-th request, in seconds. -/
def backoff (i : ℕ) : ℕ := min (2 ^ i) 3600

private theorem backoff_succ (i : ℕ) : backoff (i + 1) = min (backoff i * 2) 3600 := by
  rw [backoff, backoff, Nat.pow_succ]
  omega

private theorem backoff_le (i : ℕ) : backoff i ≤ 3600 := Nat.min_le_right _ _

/-- Events of one boot, with instants that an hour can be added to. -/
def Event.InRange : Event → Prop
  | .boot => False
  | .request t => t.toInt + 3600 < (2 ^ 63 : ℕ)
  | .announce _ _ | .now _ => True

instance : (e : Event) → Decidable e.InRange
  | .boot => isFalse id
  | .request _ => inferInstanceAs (Decidable (_ < _))
  | .announce _ _ | .now _ => isTrue trivial

/-- The instants of the requests sent. -/
def sent (h : List (Event × Answer)) : List Int64 :=
  h.filterMap fun
    | (.request t, .requested true) => some t
    | _ => none

/-- A time has been accepted. -/
def accepted (h : List (Event × Answer)) : Bool := h.any fun p => (acceptedTime p).isSome

private theorem sent_concat (h : List (Event × Answer)) (p : Event × Answer) :
    sent (h ++ [p]) = sent h ++ sent [p] := List.filterMap_append

private theorem accepted_concat (h : List (Event × Answer)) (p : Event × Answer) :
    accepted (h ++ [p]) = (accepted h || (acceptedTime p).isSome) := by
  rw [accepted, List.any_append, List.any_cons, List.any_nil, Bool.or_false]
  rfl

/-! ### One request -/

private theorem base_range :
    0 ≤ timeRequestBaseSecs.toInt ∧ timeRequestBaseSecs.toInt ≤ 3600 := by decide

/-- Neither the addition saturates nor the doubling overflows. -/
private theorem recordTimeRequest_exact {c : NodeClock} {t : Int64}
    (hpos : 0 ≤ c.requestBackoff.toInt)
    (hle : c.requestBackoff.toInt ≤ 3600) (ht : t.toInt + 3600 < (2 ^ 63 : ℕ)) :
    (c.recordTimeRequest t).nextRequestAt.toInt = t.toInt + c.requestBackoff.toInt ∧
      (c.requestBackoff * 2).toInt = c.requestBackoff.toInt * 2 ∧
      (c.recordTimeRequest t).requestBackoff.toInt = min (c.requestBackoff.toInt * 2) 3600 := by
  have hmin := t.le_toInt
  have hdouble : (c.requestBackoff * 2).toInt = c.requestBackoff.toInt * 2 := by
    rw [Int64.toInt_mul, show (2 : Int64).toInt = 2 from rfl]
    exact Int.bmod_eq_of_le (by omega) (by omega)
  refine ⟨?_, hdouble, ?_⟩
  · refine Int64.toInt_ofIntClamp ?_ ?_
    · rw [show Int64.minValue.toInt = -2 ^ 63 from rfl]
      omega
    · rw [show Int64.maxValue.toInt = 2 ^ 63 - 1 from rfl]
      omega
  · rw [recordTimeRequest]
    change (if c.requestBackoff * 2 ≤ timeRequestMaxSecs then c.requestBackoff * 2
      else timeRequestMaxSecs).toInt = _
    have hcap : timeRequestMaxSecs.toInt = 3600 := rfl
    split_ifs with h <;> rw [Int64.le_iff_toInt_le, hdouble, hcap] at h
    · rw [hdouble, min_eq_left h]
    · rw [hcap, min_eq_right (Int.le_of_lt (Int.not_le.mp h))]

/-! ### Runs -/

/-- The clock of one boot after its history: until a time is accepted, the backoff is the wait of
the request to come, and the next instant is the wait of the last one after it. -/
structure BacksOff (h : List (Event × Answer)) (c : NodeClock) : Prop where
  valid_eq : c.valid = accepted h
  range : 0 ≤ c.requestBackoff.toInt ∧ c.requestBackoff.toInt ≤ 3600
  backoff_eq : accepted h = false → c.requestBackoff.toInt = backoff ((sent h).length + 1)
  next_none : accepted h = false → sent h = [] → c.nextRequestAt = Int64.minValue
  next_some : accepted h = false → ∀ s ∈ (sent h).getLast?,
    c.nextRequestAt.toInt = s.toInt + backoff (sent h).length
  spaced : ∀ (n : ℕ) (s s' : Int64), (sent h)[n]? = some s → (sent h)[n + 1]? = some s' →
    s.toInt + backoff (n + 1) ≤ s'.toInt

private theorem backsOff_clockless (lastEpoch : UInt32) : BacksOff [] (clockless lastEpoch) where
  valid_eq := rfl
  range := base_range
  backoff_eq _ := rfl
  next_none _ _ := rfl
  next_some _ s hs := by simp [sent] at hs
  spaced n s s' hs _ := by simp [sent] at hs

/-- A node may ask from the end of the last wait on. -/
theorem BacksOff.mayRequestTime_iff {h : List (Event × Answer)} {c : NodeClock} (hc : BacksOff h c)
    (hnone : accepted h = false) (t : Int64) : c.mayRequestTime t = true ↔
      ∀ s ∈ (sent h).getLast?, s.toInt + backoff (sent h).length ≤ t.toInt := by
  rw [mayRequestTime, hc.valid_eq, hnone, Bool.not_false, Bool.true_and, decide_eq_true_eq,
    ge_iff_le, Int64.le_iff_toInt_le]
  rcases hlast : (sent h).getLast? with _ | s
  · rw [hc.next_none hnone (List.getLast?_eq_none_iff.mp hlast)]
    exact iff_of_true t.minValue_le_toInt fun s hs => absurd hs (Option.not_mem_none s)
  · rw [hc.next_some hnone s hlast]
    exact ⟨fun hle s' hs' => Option.some.inj hs' ▸ hle, fun hall => hall s rfl⟩

/-- An event that sends nothing and accepts nothing, and leaves the clock alone. -/
private theorem BacksOff.unchanged {h : List (Event × Answer)} {c : NodeClock} (hc : BacksOff h c)
    {p : Event × Answer} (hsent : sent [p] = []) (haccepted : acceptedTime p = none) :
    BacksOff (h ++ [p]) c := by
  have hs : sent (h ++ [p]) = sent h := by rw [sent_concat, hsent, List.append_nil]
  have ha : accepted (h ++ [p]) = accepted h := by
    rw [accepted_concat, haccepted, Option.isSome_none, Bool.or_false]
  exact ⟨ha ▸ hc.valid_eq, hc.range, ha ▸ hs ▸ hc.backoff_eq, ha ▸ hs ▸ hc.next_none,
    ha ▸ hs ▸ hc.next_some, hs ▸ hc.spaced⟩

/-- A request that may be sent is sent: its wait begins. -/
theorem BacksOff.request {h : List (Event × Answer)} {c : NodeClock} (hc : BacksOff h c)
    {t : Int64} (ht : t.toInt + 3600 < (2 ^ 63 : ℕ)) (hmay : c.mayRequestTime t = true) :
    BacksOff (h ++ [(.request t, .requested true)]) (c.recordTimeRequest t) := by
  obtain ⟨hnext, -, hbackoff⟩ := recordTimeRequest_exact hc.range.1 hc.range.2 ht
  have hnone : accepted h = false := by
    rw [mayRequestTime, Bool.and_eq_true, Bool.not_eq_true', hc.valid_eq] at hmay
    exact hmay.1
  have hs : sent (h ++ [(.request t, .requested true)]) = sent h ++ [t] := sent_concat _ _
  have ha : accepted (h ++ [(.request t, .requested true)]) = accepted h := by
    rw [accepted_concat]
    exact Bool.or_false _
  have hwait := hc.backoff_eq hnone
  have hsucc := backoff_succ ((sent h).length + 1)
  have hle := backoff_le ((sent h).length + 1)
  refine ⟨ha ▸ hc.valid_eq, by omega, fun _ => ?_, fun _ hnil => ?_, fun _ s hlast => ?_, ?_⟩
  · rw [hbackoff, hs, List.length_append, List.length_singleton]
    omega
  · rw [hs] at hnil
    exact absurd hnil (List.concat_ne_nil _ _)
  · rw [hs, List.getLast?_concat] at hlast
    obtain rfl := Option.some.inj hlast
    rw [hnext, hwait, hs, List.length_append, List.length_singleton]
  · intro n s s' hn hn'
    rw [hs] at hn hn'
    rcases Nat.lt_or_ge (n + 1) (sent h).length with hlt | hge
    · rw [List.getElem?_append_left (by omega)] at hn hn'
      exact hc.spaced n s s' hn hn'
    · -- the request just sent, after the last one before it
      have hlen := (List.getElem?_eq_some_iff.mp hn').1
      rw [List.length_append, List.length_singleton] at hlen
      have heq : n + 1 = (sent h).length := by omega
      rw [heq, List.getElem?_concat_length] at hn'
      obtain rfl := Option.some.inj hn'
      rw [List.getElem?_append_left (by omega)] at hn
      have hlast : (sent h).getLast? = some s := by
        rw [List.getLast?_eq_getElem?, ← heq, Nat.add_sub_cancel]
        exact hn
      rw [heq]
      exact (hc.mayRequestTime_iff hnone t).mp hmay s hlast

/-- An accepted time ends the requests. -/
theorem BacksOff.announce {h : List (Event × Answer)} {c : NodeClock} (hc : BacksOff h c)
    {t raw : Int64} (hok : (c.acceptTimeAnnounce t raw).1 = .ok ()) :
    BacksOff (h ++ [(.announce t raw, .announced (.ok ()))]) (c.acceptTimeAnnounce t raw).2 := by
  have hs : sent (h ++ [(.announce t raw, .announced (.ok ()))]) = sent h := by
    rw [sent_concat]
    exact List.append_nil _
  have ha : accepted (h ++ [(.announce t raw, .announced (.ok ()))]) = true := by
    rw [accepted_concat]
    exact Bool.or_true _
  rw [acceptTimeAnnounce_snd_of_ok hok]
  refine ⟨ha.symm, base_range, fun hf => ?_, fun hf => ?_, fun hf => ?_, hs ▸ hc.spaced⟩ <;>
    exact absurd (ha.symm.trans hf) (by decide)

/-- Every event but a boot keeps the invariant. -/
theorem BacksOff.step {h : List (Event × Answer)} {c : NodeClock} (hc : BacksOff h c) {e : Event}
    (he : e.InRange) : BacksOff (h ++ [(e, (c.step e).1)]) (c.step e).2 := by
  cases e with
  | boot => exact absurd he id
  | request t =>
    rw [NodeClock.step]
    split_ifs with hmay
    · exact hc.request he hmay
    · exact hc.unchanged rfl rfl
  | announce t raw =>
    rw [NodeClock.step]
    dsimp only
    rcases hans : (c.acceptTimeAnnounce t raw).1 with err | u
    · rw [acceptTimeAnnounce_of_error hans]
      exact hc.unchanged rfl rfl
    · exact hc.announce hans
  | now raw => exact hc.unchanged rfl rfl

private theorem backsOff_final (lastEpoch : UInt32) {is : List Event} (his : ∀ e ∈ is, e.InRange) :
    BacksOff (trace NodeClock.step (clockless lastEpoch) is)
      (final NodeClock.step (clockless lastEpoch) is) :=
  trace_invariant (G := fun _ e => e.InRange) (backsOff_clockless lastEpoch)
    (fun _ _ _ he hc => hc.step he) is fun n => his _ (List.getElem_mem n.2)

/-- **The requests of a node that booted without a clock.** The wait between a request and the
next is at least two seconds after the first, doubling up to an hour; a node may ask again exactly
from the end of the wait on; the arithmetic is exact; and a node that has accepted a time asks no
more. -/
theorem backoff_runs (lastEpoch : UInt32) {is : List Event} (his : ∀ e ∈ is, e.InRange) :
    (∀ (n : ℕ) (s s' : Int64), (sent (trace NodeClock.step (clockless lastEpoch) is))[n]? = some s →
      (sent (trace NodeClock.step (clockless lastEpoch) is))[n + 1]? = some s' →
      s.toInt + (min (2 ^ (n + 1)) 3600 : ℕ) ≤ s'.toInt) ∧
    (accepted (trace NodeClock.step (clockless lastEpoch) is) = false → ∀ t,
      (final NodeClock.step (clockless lastEpoch) is).mayRequestTime t = true ↔
        ∀ s ∈ (sent (trace NodeClock.step (clockless lastEpoch) is)).getLast?,
          s.toInt + (min (2 ^ (sent (trace NodeClock.step (clockless lastEpoch) is)).length)
            3600 : ℕ) ≤ t.toInt) ∧
    (∀ t : Int64, t.toInt + 3600 < (2 ^ 63 : ℕ) →
      ((final NodeClock.step (clockless lastEpoch) is).recordTimeRequest t).nextRequestAt.toInt =
        t.toInt + (final NodeClock.step (clockless lastEpoch) is).requestBackoff.toInt ∧
      ((final NodeClock.step (clockless lastEpoch) is).requestBackoff * 2).toInt =
        (final NodeClock.step (clockless lastEpoch) is).requestBackoff.toInt * 2) ∧
    (accepted (trace NodeClock.step (clockless lastEpoch) is) = true → ∀ t,
      (final NodeClock.step (clockless lastEpoch) is).mayRequestTime t = false) := by
  have hc := backsOff_final lastEpoch his
  refine ⟨hc.spaced, hc.mayRequestTime_iff, fun t ht => ?_, fun hacc t => ?_⟩
  · obtain ⟨hnext, hdouble, -⟩ := recordTimeRequest_exact hc.range.1 hc.range.2 ht
    exact ⟨hnext, hdouble⟩
  · rw [mayRequestTime, hc.valid_eq, hacc]
    rfl

/-- Three requests and a time refused between them: the next may follow after eight seconds. -/
theorem backoff_runs_three :
    (final NodeClock.step (clockless 1000)
      [.request 0, .announce 128000 0, .request 2, .request 6]).mayRequestTime 14 = true :=
  ((backoff_runs 1000 (show ∀ e ∈ [.request 0, .announce 128000 0, .request 2, .request 6],
    Event.InRange e by decide)).2.1 (by decide) 14).mpr fun s hs => by
      cases hs
      decide

end NodeClock

end Catp
