import Catp.Peer.Replay

/-!
# Unauthenticated traffic has no effect

A datagram that fails before or at the MAC check still prunes the slots and allocates a window.
Two states that differ only in what such datagrams leave behind are `Indistinguishable`: they
agree on the live window of every epoch the clock may still accept. Every call keeps the
relation (`Indistinguishable.accept`), and so does an unauthenticated datagram that only one of
the two receives (`Indistinguishable.accept_left`), which is what deleting it needs.

The relation is kept in terms of the live windows, and takes the clock as an index `k`, since what
is forgotten behind the clock can no longer be told:

* For the epochs ahead of `k` nothing was received on either side (`live_ahead`). That is why a
  window may be dropped there: it is as good as a fresh one, which is what will be allocated.
* An epoch that can still be accepted is forgotten only in that case (`live_of_kept`), as long as
  the local epoch does not decrease. With a clock that steps back the statement would be false.

`accept_deletion` deletes by marks: a run carries a flag with each call, and the calls left are
`kept` of it. The limiter is asked last in the source, so a datagram that fails before has not
taken a token, and the limiter of both runs is the same at every step.
-/

namespace Catp

open Transducer

namespace PeerState

variable {P : Primitives} {WORDS : ℕ}

/-- No call at the local epoch `k` or later tells `s` and `t` apart. -/
structure Indistinguishable (k : UInt32) (s t : PeerState WORDS) : Prop where
  config_eq : s.config = t.config
  limiter_eq : s.limiter = t.limiter
  announced_eq : s.highestEpochAnnounced = t.highestEpochAnnounced
  distinct_left : s.windows.Distinct
  distinct_right : t.windows.Distinct
  live_eq : ∀ e : UInt32, k.toNat ≤ e.toNat + 1 → s.windows.live e = t.windows.live e
  /-- Nothing was received yet of the epochs ahead. -/
  live_ahead : ∀ e : UInt32, k < e → s.windows.live e = .new

namespace Indistinguishable

variable {k : UInt32} {s t : PeerState WORDS} {i : Input}

/-- A state that has received nothing from the epochs ahead cannot be told from itself. -/
theorem refl (hd : s.windows.Distinct) (hahead : ∀ e : UInt32, k < e → s.windows.live e = .new) :
    Indistinguishable k s s :=
  ⟨rfl, rfl, rfl, hd, hd, fun _ _ => rfl, hahead⟩

/-- What cannot be told apart cannot be told apart the other way round. -/
theorem symm (h : Indistinguishable k s t) : Indistinguishable k t s where
  config_eq := h.config_eq.symm
  limiter_eq := h.limiter_eq.symm
  announced_eq := h.announced_eq.symm
  distinct_left := h.distinct_right
  distinct_right := h.distinct_left
  live_eq e he := (h.live_eq e he).symm
  live_ahead e he := by
    rw [← h.live_eq e ((UInt32.le_iff_toNat_le.mp (UInt32.le_of_lt he)).trans (Nat.le_succ _)),
      h.live_ahead e he]

/-- An epoch that may still be accepted is forgotten only before anything was received of it. -/
private theorem live_of_kept (h : Indistinguishable k s t) (hk : k ≤ i.localEpoch)
    {ws : Windows WORDS} {e : UInt32} (he : i.localEpoch.toNat ≤ e.toNat + 1)
    (hkept : ws.live e = s.windows.live e ∨ i.Forgets e ∧ ws.live e = .new) :
    ws.live e = s.windows.live e := by
  rcases hkept with hsame | ⟨⟨-, -, hout⟩, hnew⟩
  · exact hsame
  · have hlt : i.localEpoch < e := UInt32.not_le.mp fun hle => hout ⟨hle, he⟩
    rw [hnew, h.live_ahead e (UInt32.lt_of_le_of_lt hk hlt)]

/-- What a datagram leaves behind that fails steps 1 to 7 cannot be told. -/
private theorem forget_left (h : Indistinguishable k s t) (hk : k ≤ i.localEpoch)
    {ws : Windows WORDS} (hd : ws.Distinct)
    (hlive : ∀ e, ws.live e = s.windows.live e ∨ i.Forgets e ∧ ws.live e = .new) (st : Stats) :
    Indistinguishable i.localEpoch { s with windows := ws, stats := st } t := by
  have hle : k.toNat ≤ i.localEpoch.toNat := UInt32.le_iff_toNat_le.mp hk
  refine ⟨h.config_eq, h.limiter_eq, h.announced_eq, hd, h.distinct_right, fun e he => ?_,
    fun e he => ?_⟩
  · rw [h.live_of_kept hk he (hlive e), h.live_eq e (hle.trans he)]
  · have hlt : i.localEpoch.toNat < e.toNat := UInt32.lt_iff_toNat_lt.mp he
    rw [h.live_of_kept hk (by omega) (hlive e), h.live_ahead e (UInt32.lt_of_le_of_lt hk he)]

/-- A verified datagram is answered alike and leaves what cannot be told. -/
private theorem accept_of_verify_ok (h : Indistinguishable k s t) (hk : k ≤ i.localEpoch)
    {c : Claim} (hc : verify P i.buf s.config i.localEpoch i.dir = .ok c) :
    (s.accept P i).1 = (t.accept P i).1 ∧
      Indistinguishable i.localEpoch (s.accept P i).2 (t.accept P i).2 := by
  have hle : k.toNat ≤ i.localEpoch.toNat := UInt32.le_iff_toNat_le.mp hk
  have hin := inWindow_of_verify hc
  have hct := hc
  rw [h.config_eq] at hct
  -- both sides ask the same window, so they give the same answer
  have hasked : s.windows.live c.epochId = t.windows.live c.epochId :=
    h.live_eq c.epochId (hle.trans hin.2)
  obtain ⟨ws, hd, hput, hlive, heq⟩ := acceptInner_of_verify_ok h.distinct_left hc
  obtain ⟨ws', hd', hput', hlive', heq'⟩ := acceptInner_of_verify_ok h.distinct_right hct
  rw [accept_eq, accept_eq, heq, heq', ← hasked, ← h.config_eq, ← h.limiter_eq]
  refine ⟨rfl, rfl, rfl, h.announced_eq, hd, hd', ?_, ?_⟩
  · intro e he
    show ws.live e = ws'.live e
    by_cases hce : e = c.epochId
    · rw [hce, hput, hput', hasked]
    · rw [h.live_of_kept hk he (hlive e hce), h.symm.live_of_kept hk he (hlive' e hce),
        h.live_eq e (hle.trans he)]
  · intro e he
    have hlt : i.localEpoch.toNat < e.toNat := UInt32.lt_iff_toNat_lt.mp he
    -- the epoch of the datagram is not ahead
    have hce : e ≠ c.epochId := fun hce => UInt32.not_lt.mpr hin.1 (hce ▸ he)
    exact (h.live_of_kept hk (by omega) (hlive e hce)).trans
      (h.live_ahead e (UInt32.lt_of_le_of_lt hk he))

/-- **One call on both sides** is answered alike and keeps the relation. -/
theorem accept (h : Indistinguishable k s t) (hk : k ≤ i.localEpoch) :
    (s.accept P i).1 = (t.accept P i).1 ∧
      Indistinguishable i.localEpoch (s.accept P i).2 (t.accept P i).2 := by
  cases hv : verify P i.buf s.config i.localEpoch i.dir with
  | ok c => exact h.accept_of_verify_ok hk hv
  | error err =>
    have hvt := hv
    rw [h.config_eq] at hvt
    obtain ⟨ws, heq, -, hd, hlive⟩ := acceptInner_of_verify_error h.distinct_left hv
    obtain ⟨ws', heq', -, hd', hlive'⟩ := acceptInner_of_verify_error h.distinct_right hvt
    rw [accept_eq, accept_eq, heq, heq']
    -- first one side forgets, then the other
    have hleft := h.forget_left hk hd hlive (s.stats.recordResult (.error (i.failure err)))
    exact ⟨rfl, (hleft.symm.forget_left (UInt32.le_refl _) hd' hlive' _).symm⟩

end Indistinguishable

/-- What a verified datagram is answered is never a failure of steps 1 to 7. -/
theorem isUnverified_settle {config : PeerConfig} {limiter : Option InboundLimiter} {c : Claim}
    {w : ReplayWindow WORDS} {off : UInt32} {nowMs : UInt64} :
    isUnverified (settle config limiter c (w.checkAndSet off).1 nowMs).1 = false := by
  cases hans : (w.checkAndSet off).1 with
  | error e =>
    rw [ReplayWindow.checkAndSet_error hans]
    rfl
  | ok u =>
    cases hr : (settle config limiter c (.ok u) nowMs).1 with
    | ok acc => rfl
    | error e =>
      rcases settle_ok_error hr with hf | rfl
      · cases e <;> first | rfl | cases hf
      · rfl

/-- **A call on one side** that fails steps 1 to 7 keeps the relation. -/
theorem Indistinguishable.accept_left {k : UInt32} {s t : PeerState WORDS} {i : Input}
    (h : Indistinguishable k s t) (hk : k ≤ i.localEpoch)
    (hfail : isUnverified (s.accept P i).1 = true) :
    Indistinguishable i.localEpoch (s.accept P i).2 t := by
  rw [accept_eq] at hfail ⊢
  cases hv : verify P i.buf s.config i.localEpoch i.dir with
  | error err =>
    obtain ⟨ws, heq, -, hd, hlive⟩ := acceptInner_of_verify_error h.distinct_left hv
    rw [heq]
    exact h.forget_left hk hd hlive _
  | ok c =>
    obtain ⟨ws, -, -, -, heq⟩ := acceptInner_of_verify_ok h.distinct_left hv
    rw [heq, isUnverified_settle] at hfail
    cases hfail

/-- Every error of a receiver is an error of the receive path. -/
theorem isReceive_accept {s : PeerState WORDS} {i : Input} {e : Error} (hd : s.windows.Distinct)
    (h : (s.accept P i).1 = .error e) : e.isReceive = true := by
  rw [accept_eq] at h
  cases hv : verify P i.buf s.config i.localEpoch i.dir with
  | error err =>
    obtain ⟨ws, heq, hun, -⟩ := acceptInner_of_verify_error hd hv
    rw [heq] at h
    rw [← Except.error.inj h]
    exact Error.isReceive_of_isUnverified hun
  | ok c =>
    obtain ⟨ws, -, -, -, heq⟩ := acceptInner_of_verify_ok hd hv
    rw [heq] at h
    cases hans : ((s.windows.live c.epochId).checkAndSet c.header.datagramOffset).1 with
    | error e' =>
      rw [hans, ReplayWindow.checkAndSet_error hans] at h
      rw [← Except.error.inj h]
      rfl
    | ok u =>
      rw [hans] at h
      rcases settle_ok_error h with hf | rfl
      · exact Error.isReceive_of_isFraming hf
      · rfl

/-- The counters of a run are the tallies of its results. -/
theorem stats_final (s : PeerState WORDS) (is : List Input) :
    (final (accept P) s is).stats =
      s.stats + ((trace (accept P) s is).map fun p => Stats.tally p.2).sum :=
  final_sum (fun t i => stats_accept P t i) s is

/-- Over a run of fewer than `2 ^ 64` calls that skips fewer than `2 ^ 64` records, the counters
are the `u64`s of the source. -/
theorem recordAll_outputs {config : PeerConfig} {s : PeerState defaultWindowWords}
    (hnew : new config = .ok s) {is : List Input} (hlen : is.length < 2 ^ 64)
    (hskip : ((outputs (accept P) s is).map fun r => (skippedOf r).length).sum < 2 ^ 64) :
    Stats.recordAll (outputs (accept P) s is) = (final (accept P) s is).stats := by
  have hzero : s.stats = 0 := (new_eq_ok hnew).2.2.2
  rw [Stats.recordAll_eq (by rwa [length_outputs]) hskip, stats_final, hzero, zero_add, outputs,
    List.map_map]
  rfl

private theorem indistinguishable_new {config : PeerConfig} {s : PeerState defaultWindowWords}
    (hnew : new config = .ok s) (k : UInt32) : Indistinguishable k s s := by
  obtain ⟨-, hws, -, -⟩ := new_eq_ok hnew
  refine .refl ?_ fun e _ => ?_
  · rw [hws]
    exact Windows.distinct_empty
  · rw [hws, Windows.live_empty]

/-- Deleting failures of steps 1 to 7 changes no counter of the verified datagrams. -/
private theorem verified_dropped {l : List (Input × Except Error Accepted)}
    (h : ∀ p ∈ l, isUnverified p.2 = true) :
    (l.map fun p => Stats.tally p.2).sum.verified = 0 := by
  induction l with
  | nil => rfl
  | cons p l ih =>
    obtain ⟨hp, hl⟩ := List.forall_mem_cons.mp h
    rw [List.map_cons, List.sum_cons, Stats.verified_add, Stats.verified_tally hp, ih hl, add_zero]

/-- **Unauthenticated traffic has no effect.** In a run with nondecreasing local epochs, delete
any calls that returned a failure of steps 1 to 7. Every remaining call is answered as before,
the limiter ends in the same state, and the counters differ by the tallies of the deleted
calls alone, so not at all in the counters of the verified datagrams. The counters are those of
the source within the bounds of `recordAll_outputs`. -/
theorem accept_deletion {config : PeerConfig} {s : PeerState defaultWindowWords}
    (hnew : new config = .ok s) (ms : List (Input × Bool))
    (hmono : ms.Pairwise fun a b => a.1.localEpoch ≤ b.1.localEpoch)
    (hdrop : ∀ p ∈ droppedTrace ms (trace (accept P) s (ms.map Prod.fst)),
      isUnverified p.2 = true) :
    keptTrace ms (trace (accept P) s (ms.map Prod.fst)) = trace (accept P) s (kept ms) ∧
      (final (accept P) s (ms.map Prod.fst)).limiter = (final (accept P) s (kept ms)).limiter ∧
      (final (accept P) s (ms.map Prod.fst)).stats =
        (final (accept P) s (kept ms)).stats +
          ((droppedTrace ms (trace (accept P) s (ms.map Prod.fst))).map
            fun p => Stats.tally p.2).sum ∧
      (final (accept P) s (ms.map Prod.fst)).stats.verified =
        (final (accept P) s (kept ms)).stats.verified := by
  have keep : ∀ (k : UInt32) (s t : PeerState defaultWindowWords) (i : Input),
      Indistinguishable k s t → k ≤ i.localEpoch → (accept P s i).1 = (accept P t i).1 ∧
        Indistinguishable i.localEpoch (accept P s i).2 (accept P t i).2 :=
    fun _ _ _ _ h hk => h.accept hk
  obtain ⟨hkept, k, hind⟩ := trace_deletion (fun r => isUnverified r = true) keep
    (fun _ _ _ _ h hk hd => h.accept_left hk hd) ms 0 s s (indistinguishable_new hnew 0)
    (fun _ _ => UInt32.zero_le) hmono hdrop
  have hstats : (final (accept P) s (ms.map Prod.fst)).stats =
      (final (accept P) s (kept ms)).stats +
        ((droppedTrace ms (trace (accept P) s (ms.map Prod.fst))).map
          fun p => Stats.tally p.2).sum := by
    rw [stats_final, stats_final, ← hkept, add_assoc, sum_map_keptTrace_add]
    rw [length_trace, List.length_map]
  refine ⟨hkept, hind.limiter_eq, hstats, ?_⟩
  rw [hstats, Stats.verified_add, verified_dropped hdrop, add_zero]

/-- The frozen vector, a forgery naming the next epoch, received there, and the vector again;
the forgery is deleted. -/
def forgedBetween : List (Input × Bool) :=
  [(⟨vectorWire, 13281250, .nodeToCollector, 0⟩, false),
    (⟨vectorWire.set 1 0x13, 13281251, .nodeToCollector, 0⟩, true),
    (⟨vectorWire, 13281251, .nodeToCollector, 0⟩, false)]

/-- The forgery deleted, both calls that remain are answered as before. -/
theorem accept_deletion_vector :
    keptTrace forgedBetween
        (trace (accept vectorPrimitives) vectorState (forgedBetween.map Prod.fst)) =
      trace (accept vectorPrimitives) vectorState (kept forgedBetween) := by
  have hnew : new vectorPeer = .ok vectorState := by decide
  exact (accept_deletion (P := vectorPrimitives) hnew forgedBetween (by decide) (by decide)).1

end PeerState

end Catp
