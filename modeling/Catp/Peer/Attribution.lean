import Catp.Peer.Reprovision

/-!
# The step a rejection is attributed to

Steps 2 to 6 of the receive path in their mandated order, `firstFailure`, against the errors of
`PeerState::accept` and `Collector::accept`. Both look ahead: the collector reads the sender
before it asks a receiver, and the receiver reads the epoch to find a window before it decodes.
A datagram with two faults is therefore attributed to the later step when that is the one read
ahead. The counters show each step the datagrams whose first fault it is exactly when no datagram
of the run has such a pair of faults.

`Attributed` says both over a run, of the errors and of the counters, for any step function that
adds the tally of its result to its counters; `PeerState.attributed_run_iff` and
`Collector.attributed_run_iff` are its two cases, which `attributed_iff` states together. A run
is `SingleFault` for a receiver and `RoutedFault` for a collector where it must be.
-/

namespace Catp

open Transducer

/-- Step 3: the type is registered and does not belong to the time-recovery domain. -/
def implemented (msgType : UInt8) : Bool :=
  match MsgType.fromU8 msgType with
  | none => false
  | some mt => mt != .timeAnnounce && mt != .timeRequest

/-- The error of the first of steps 2 to 6 that fails, in the order of the protocol, at a receiver
that serves the senders `suite` has a suite for. -/
def firstFailure (suite : UInt32 → Option CipherId) (i : Input) : Option Error :=
  let out := Datagram.unpack i.buf
  if out.version ≠ version then some (.unsupportedVersion out.version)
  else if !implemented out.msgType then some (.badMsgType out.msgType)
  else
    match suite out.senderId with
    | none => some (.unknownSender out.senderId)
    | some cipher =>
      if out.cipherId ≠ cipher.toU8 then some (.cipherMismatch out.cipherId cipher.toU8)
      else if (reconstructEpoch i.localEpoch out.epochLow).isNone then some .epochOutOfWindow
      else none

/-- The one sender of a receiver, with its suite. -/
def PeerConfig.suite (config : PeerConfig) (id : UInt32) : Option CipherId :=
  if id = config.senderId then some config.cipher else none

/-- The senders of a collector, with their suites. -/
def Collector.suite (c : Collector) (id : UInt32) : Option CipherId :=
  (c.peers.lookup id).map fun peer => peer.config.cipher

/-! ### What passes -/

namespace Input

/-- Steps 2 and 3 pass. -/
def TypePasses (i : Input) : Prop :=
  (Datagram.unpack i.buf).version = version ∧ implemented (Datagram.unpack i.buf).msgType = true

instance (i : Input) : Decidable i.TypePasses := inferInstanceAs (Decidable (_ ∧ _))

/-- Step 6 passes. -/
def EpochPasses (i : Input) : Prop :=
  (reconstructEpoch i.localEpoch (Datagram.unpack i.buf).epochLow).isSome = true

instance (i : Input) : Decidable i.EpochPasses := inferInstanceAs (Decidable (_ = _))

/-- Steps 4 and 5 pass: the sender is known, and the suite named is its own. -/
def SuitePasses (i : Input) (suite : UInt32 → Option CipherId) : Prop :=
  ∃ cipher, suite (Datagram.unpack i.buf).senderId = some cipher ∧
    (Datagram.unpack i.buf).cipherId = cipher.toU8

/-- No fault of steps 2 to 5 comes with a fault of step 6. -/
def SingleFault (i : Input) (suite : UInt32 → Option CipherId) : Prop :=
  i.EpochPasses ∨ i.TypePasses ∧ i.SuitePasses suite

/-- No fault of steps 2 and 3 comes with an unknown sender, and no fault of steps 2 to 5 of a
known one comes with a fault of step 6. -/
def RoutedFault (i : Input) (suite : UInt32 → Option CipherId) : Prop :=
  match suite (Datagram.unpack i.buf).senderId with
  | none => i.TypePasses
  | some _ => i.SingleFault suite

end Input

section FirstFailure

variable {suite : UInt32 → Option CipherId} {i : Input} {e : Error}

/-- A type passes step 3 exactly if it is registered and not of the time-recovery domain. -/
theorem implemented_iff {b : UInt8} : implemented b = true ↔
    ∃ mt, MsgType.fromU8 b = some mt ∧ mt ≠ .timeAnnounce ∧ mt ≠ .timeRequest := by
  rw [implemented]
  cases MsgType.fromU8 b <;> simp

/-- **The mandated order, step by step.** -/
theorem firstFailure_cases (suite : UInt32 → Option CipherId) (i : Input) :
    let out := Datagram.unpack i.buf
    (out.version ≠ version ∧ firstFailure suite i = some (.unsupportedVersion out.version)) ∨
    (out.version = version ∧ ¬implemented out.msgType = true ∧
      firstFailure suite i = some (.badMsgType out.msgType)) ∨
    (i.TypePasses ∧ suite out.senderId = none ∧
      firstFailure suite i = some (.unknownSender out.senderId)) ∨
    ∃ cipher, suite out.senderId = some cipher ∧
      ((i.TypePasses ∧ out.cipherId ≠ cipher.toU8 ∧
        firstFailure suite i = some (.cipherMismatch out.cipherId cipher.toU8)) ∨
      i.TypePasses ∧ out.cipherId = cipher.toU8 ∧
        ((¬i.EpochPasses ∧ firstFailure suite i = some .epochOutOfWindow) ∨
          i.EpochPasses ∧ firstFailure suite i = none)) := by
  rw [firstFailure, Input.TypePasses, Input.EpochPasses]
  by_cases hversion : (Datagram.unpack i.buf).version = version
  case neg => exact .inl ⟨hversion, by rw [if_pos hversion]⟩
  rw [if_neg (not_not.mpr hversion)]
  by_cases htype : implemented (Datagram.unpack i.buf).msgType = true
  case neg => exact .inr (.inl ⟨hversion, htype, by rw [if_pos (by simpa using htype)]⟩)
  rw [if_neg (by simpa using htype)]
  refine .inr (.inr ?_)
  cases suite (Datagram.unpack i.buf).senderId with
  | none => exact .inl ⟨⟨hversion, htype⟩, rfl, rfl⟩
  | some cipher =>
    refine .inr ⟨cipher, rfl, ?_⟩
    dsimp only
    split_ifs with hcipher hepoch
    · exact .inl ⟨⟨hversion, htype⟩, hcipher, rfl⟩
    · exact .inr ⟨⟨hversion, htype⟩, not_not.mp hcipher, .inl ⟨by simpa using hepoch, rfl⟩⟩
    · refine .inr ⟨⟨hversion, htype⟩, not_not.mp hcipher, .inr ⟨?_, rfl⟩⟩
      rwa [← Option.isNone_eq_false_iff, ← Bool.not_eq_true]

/-- Step 6 fails first exactly if the epoch alone is wrong. -/
theorem firstFailure_eq_epoch_iff : firstFailure suite i = some .epochOutOfWindow ↔
    ¬i.EpochPasses ∧ i.TypePasses ∧ i.SuitePasses suite := by
  rcases firstFailure_cases suite i with ⟨hversion, hff⟩ | ⟨-, htype, hff⟩ | ⟨-, hsuite, hff⟩ |
    ⟨cipher, hsuite, ⟨-, hcipher, hff⟩ | ⟨htypes, hcipher, ⟨hepoch, hff⟩ | ⟨hepoch, hff⟩⟩⟩
  all_goals rw [hff]
  · exact ⟨nofun, fun h => absurd h.2.1.1 hversion⟩
  · exact ⟨nofun, fun h => absurd h.2.1.2 htype⟩
  · refine ⟨nofun, ?_⟩
    rintro ⟨-, -, cipher, hsome, -⟩
    rw [hsuite] at hsome
    cases hsome
  · refine ⟨nofun, ?_⟩
    rintro ⟨-, -, cipher', hsome, heq⟩
    obtain rfl := Option.some.inj (hsuite.symm.trans hsome)
    exact absurd heq hcipher
  · exact ⟨fun _ => ⟨hepoch, htypes, cipher, hsuite, hcipher⟩, fun _ => rfl⟩
  · exact ⟨nofun, fun h => absurd hepoch h.1⟩

/-- Reporting the epoch before anything else is reporting the first failure exactly if there is a
single fault. -/
theorem singleFault_iff : (∀ e, firstFailure suite i = some e →
    (if i.EpochPasses then e else .epochOutOfWindow) = e) ↔ i.SingleFault suite := by
  rw [Input.SingleFault]
  by_cases hepoch : i.EpochPasses
  · exact ⟨fun _ => .inl hepoch, fun _ e _ => if_pos hepoch⟩
  rw [or_iff_right hepoch, ← and_iff_right (b := i.TypePasses ∧ _) hepoch,
    ← firstFailure_eq_epoch_iff]
  constructor
  · intro h
    cases hff : firstFailure suite i with
    | some e => rw [← h e hff, if_neg hepoch]
    | none =>
      rcases firstFailure_cases suite i with ⟨-, hff'⟩ | ⟨-, -, hff'⟩ | ⟨-, -, hff'⟩ |
        ⟨cipher, -, ⟨-, -, hff'⟩ | ⟨-, -, ⟨-, hff'⟩ | ⟨hpass, -⟩⟩⟩
      case inr.inr.inr.inr.inr => exact absurd hpass hepoch
      all_goals
        rw [hff] at hff'
        cases hff'
  · intro h e he
    rw [if_neg hepoch]
    exact Option.some.inj (h.symm.trans he)

/-- A receiver has a suite for its own sender alone. -/
theorem PeerConfig.suite_eq_some_iff {config : PeerConfig} {id : UInt32} {cipher : CipherId} :
    config.suite id = some cipher ↔ id = config.senderId ∧ config.cipher = cipher := by
  rw [PeerConfig.suite]
  split_ifs with h <;> simp [h]

/-- It has none for any other. -/
theorem PeerConfig.suite_eq_none_iff {config : PeerConfig} {id : UInt32} :
    config.suite id = none ↔ id ≠ config.senderId := by
  rw [PeerConfig.suite]
  split_ifs with h <;> simp [h]

/-- **The header checks report the first failure**, on a datagram long enough for the header and
the longest tag. -/
theorem checkHeader_of_firstFailure (config : PeerConfig) (hlen : 25 ≤ i.buf.length) :
    match firstFailure config.suite i with
    | some e => checkHeader i.buf config i.localEpoch = .error e
    | none => ∃ c, checkHeader i.buf config i.localEpoch = .ok c := by
  have hhead : ¬i.buf.length < headerLen := by
    rw [headerLen]
    omega
  have htag : headerLen + config.cipher.tagLen ≤ i.buf.length := by
    have : config.cipher.tagLen ≤ 16 := by cases config.cipher <;> decide
    rw [headerLen]
    omega
  rcases firstFailure_cases config.suite i with ⟨hversion, hff⟩ | ⟨hversion, htype, hff⟩ |
    ⟨⟨hversion, htype⟩, hsuite, hff⟩ | ⟨cipher, hsuite, ⟨⟨hversion, htype⟩, hcipher, hff⟩ |
      ⟨⟨hversion, htype⟩, hcipher, ⟨hepoch, hff⟩ | ⟨hepoch, hff⟩⟩⟩
  -- the cases come in the order of the checks, each with the checks before it passed
  all_goals rw [hff]
  · simp only [checkHeader, if_neg hhead, if_pos hversion]
  · simp only [checkHeader, if_neg hhead, hversion]
    cases hmt : MsgType.fromU8 (Datagram.unpack i.buf).msgType with
    | none => rfl
    | some mt =>
      have hmt' : (mt == .timeAnnounce || mt == .timeRequest) = true := by
        rw [implemented_iff, hmt] at htype
        by_contra hne
        exact htype ⟨mt, rfl, by simpa using hne⟩
      simp only [hmt', ne_eq, not_true_eq_false, if_false, if_true]
  · obtain ⟨mt, hmt, hann, hreq⟩ := implemented_iff.mp htype
    have hsender := PeerConfig.suite_eq_none_iff.mp hsuite
    simp [checkHeader, hhead, hversion, hmt, hann, hreq, hsender]
  · obtain ⟨mt, hmt, hann, hreq⟩ := implemented_iff.mp htype
    obtain ⟨hsender, rfl⟩ := PeerConfig.suite_eq_some_iff.mp hsuite
    simp [checkHeader, hhead, hversion, hmt, hann, hreq, hsender, hcipher]
  · obtain ⟨mt, hmt, hann, hreq⟩ := implemented_iff.mp htype
    obtain ⟨hsender, rfl⟩ := PeerConfig.suite_eq_some_iff.mp hsuite
    have hnone : reconstructEpoch i.localEpoch (Datagram.unpack i.buf).epochLow = none := by
      simpa [Input.EpochPasses] using hepoch
    simp [checkHeader, hhead, hversion, hmt, hann, hreq, hsender, hcipher, hnone, htag]
  · obtain ⟨mt, hmt, hann, hreq⟩ := implemented_iff.mp htype
    obtain ⟨hsender, rfl⟩ := PeerConfig.suite_eq_some_iff.mp hsuite
    obtain ⟨e, he⟩ := Option.isSome_iff_exists.mp hepoch
    exact ⟨⟨_, mt, config.cipher, e, _, _⟩, checkHeader_eq_ok_iff.mpr
      ⟨htag, rfl, hversion, hmt, hann, hreq, hsender, hcipher, rfl, he, rfl, rfl⟩⟩

end FirstFailure

/-! ### The counters of steps 2 to 6 -/

/-- Steps 2 to 6. -/
inductive HeaderStep where
  | version | msgType | sender | cipher | epoch
  deriving DecidableEq

/-- The step an error reports. -/
def Error.headerStep : Error → Option HeaderStep
  | .unsupportedVersion _ => some .version
  | .badMsgType _ => some .msgType
  | .unknownSender _ => some .sender
  | .cipherMismatch _ _ => some .cipher
  | .epochOutOfWindow => some .epoch
  | _ => none

/-- The step a result reports. -/
def headerStep : Except Error Accepted → Option HeaderStep
  | .error e => e.headerStep
  | .ok _ => none

/-- The counter of a step. -/
def Stats.counter (f : HeaderStep) (s : Stats) : ℕ :=
  match f with
  | .version => s.unsupportedVersion
  | .msgType => s.badMsgType
  | .sender => s.unknownSender
  | .cipher => s.cipherMismatch
  | .epoch => s.epochOutOfWindow

private theorem Stats.counter_add (f : HeaderStep) (a b : Stats) :
    (a + b).counter f = a.counter f + b.counter f := by
  cases f <;> rfl

/-- A result counts under the step it is an error of. -/
private theorem Stats.counter_tally (f : HeaderStep) (r : Except Error Accepted) :
    (tally r).counter f = if headerStep r = some f then 1 else 0 := by
  rcases r with e | acc
  · cases e <;> cases f <;> rfl
  · cases f <;> rfl

/-- The results `h` name the first failure wherever one of steps 2 to 6 fails, and meanwhile the
counter of each of these steps has grown by the datagrams whose first failure it is. -/
structure Attributed (suite : UInt32 → Option CipherId) (h : List (Input × Except Error Accepted))
    (before after : Stats) : Prop where
  error_eq : ∀ p ∈ h, ∀ e, firstFailure suite p.1 = some e → p.2 = .error e
  counter_eq : ∀ f, after.counter f = before.counter f +
    h.countP fun p => (firstFailure suite p.1).bind Error.headerStep = some f

/-- For a component that counts its results, the counters follow from the results. -/
private theorem attributed_of_error_eq {σ : Type*} {step : σ → Input → Except Error Accepted × σ}
    {stats : σ → Stats} (hstats : ∀ t i, stats (step t i).2 = stats t + Stats.tally (step t i).1)
    {suite : UInt32 → Option CipherId} {s : σ} {is : List Input}
    (herr : ∀ p ∈ trace step s is, ∀ e, firstFailure suite p.1 = some e → p.2 = .error e)
    (hnone : ∀ p ∈ trace step s is, firstFailure suite p.1 = none → headerStep p.2 = none) :
    Attributed suite (trace step s is) (stats s) (stats (final step s is)) := by
  refine ⟨herr, ?_⟩
  intro f
  rw [final_countP (f := fun t => (stats t).counter f) (p := fun p => headerStep p.2 = some f)
    (fun t i => by simp only [hstats, Stats.counter_add, Stats.counter_tally, decide_eq_true_eq])]
  refine congrArg _ (List.countP_congr ?_)
  intro p hp
  rw [decide_eq_true_eq, decide_eq_true_eq]
  cases hff : firstFailure suite p.1 with
  | none => rw [hnone p hp hff, Option.bind_none]
  | some e =>
    rw [herr p hp e hff, Option.bind_some]
    rfl

/-- If every answer is right about the first failure exactly when its input meets `Meets`, a run is
attributed exactly when all its inputs do. -/
private theorem attributed_iff_of_step {σ : Type*} {step : σ → Input → Except Error Accepted × σ}
    {stats : σ → Stats} (hstats : ∀ t i, stats (step t i).2 = stats t + Stats.tally (step t i).1)
    {suite : UInt32 → Option CipherId} {s : σ} {is : List Input} {Meets : Input → Prop}
    (hstep : ∀ pre, ∀ i ∈ is,
      ((∀ e, firstFailure suite i = some e → (step (final step s pre) i).1 = .error e) ↔ Meets i) ∧
        (firstFailure suite i = none → headerStep (step (final step s pre) i).1 = none)) :
    Attributed suite (trace step s is) (stats s) (stats (final step s is)) ↔
      ∀ i ∈ is, Meets i := by
  constructor
  · intro h i hi
    obtain ⟨pre, post, rfl⟩ := List.append_of_mem hi
    have herr := h.error_eq _ (mem_trace step s pre post i)
    exact (hstep pre i hi).1.mp herr
  · intro h
    refine attributed_of_error_eq hstats ?_ ?_
    · intro p hp
      obtain ⟨pre, post, rfl, hres⟩ := exists_of_mem_trace _ _ hp
      have hmem : p.1 ∈ pre ++ p.1 :: post := List.mem_append_right _ List.mem_cons_self
      rw [hres]
      exact (hstep pre p.1 hmem).1.mpr (h p.1 hmem)
    · intro p hp hff
      obtain ⟨pre, post, rfl, hres⟩ := exists_of_mem_trace _ _ hp
      rw [hres]
      exact (hstep pre p.1 (List.mem_append_right _ List.mem_cons_self)).2 hff

/-! ### One receiver -/

/-- A receiver reports the epoch before anything else. -/
private theorem Input.failure_eq {i : Input} (h : ¬i.buf.length < headerLen) (err : Error) :
    i.failure err = if i.EpochPasses then err else .epochOutOfWindow := by
  have hiff : (reconstructEpoch i.localEpoch (i.buf[1]! &&& 0x0F)).isNone = true ↔
      ¬i.EpochPasses := by
    rw [Option.isNone_iff_eq_none, ← Option.not_isSome_iff_eq_none]
    rfl
  rw [failure, if_neg h]
  by_cases hepoch : i.EpochPasses
  · rw [if_pos hepoch, if_neg (mt hiff.mp (not_not.mpr hepoch))]
  · rw [if_neg hepoch, if_pos (hiff.mpr hepoch)]

namespace PeerState

variable {P : Primitives} {WORDS : ℕ} {s : PeerState WORDS} {i : Input}

/-- The result of a datagram that fails the header checks. -/
private theorem accept_of_checkHeader_error {e : Error} (hlen : ¬i.buf.length < headerLen)
    (h : checkHeader i.buf s.config i.localEpoch = .error e) :
    (s.accept P i).1 = .error (i.failure e) := by
  rw [accept_eq, Input.failure, if_neg hlen]
  cases he : reconstructEpoch i.localEpoch (i.buf[1]! &&& 0x0F) with
  | none =>
    rw [acceptInner, if_neg hlen, he]
    rfl
  | some epoch =>
    have hv : verify P i.buf s.config i.localEpoch i.dir = .error e := by rw [verify, h]
    rw [acceptInner_of_reconstruct hlen he, hv]
    rfl

/-- A datagram that passes the header checks is not reported as failing one. -/
private theorem headerStep_accept_of_checkHeader {c : Claim}
    (h : checkHeader i.buf s.config i.localEpoch = .ok c) :
    headerStep (s.accept P i).1 = none := by
  have hlen : ¬i.buf.length < headerLen := by
    have := (checkHeader_eq_ok_iff.mp h).1
    omega
  rw [accept_eq, acceptInner_of_reconstruct hlen (claim_epoch_of_checkHeader h), verify, h]
  dsimp only
  cases hauth : c.authenticate P s.config.secret i.dir with
  | error e =>
    have herr := authenticate_error hauth
    split_ifs at herr <;> rw [herr] <;> rfl
  | ok u =>
    dsimp only
    generalize hanswer : (((s.windows.prune i.localEpoch).windowFor c.epochId).1.checkAndSet
      c.header.datagramOffset).1 = answer
    rcases answer with e | u
    · rw [ReplayWindow.checkAndSet_error hanswer]
      rfl
    · cases hres : (settle s.config s.limiter c (.ok ()) i.nowMs).1 with
      | ok acc => rfl
      | error e =>
        rcases settle_ok_error hres with hf | rfl
        · cases e <;> first | rfl | cases hf
        · rfl

/-- **A receiver names the first failure** of a datagram that fails one of steps 2 to 6 exactly if
no fault of steps 2 to 5 comes with one of step 6. -/
theorem accept_firstFailure_iff (hlen : 25 ≤ i.buf.length) :
    (∀ e, firstFailure s.config.suite i = some e → (s.accept P i).1 = .error e) ↔
      i.SingleFault s.config.suite := by
  have hhead : ¬i.buf.length < headerLen := by
    rw [headerLen]
    omega
  rw [← singleFault_iff]
  refine forall_congr' fun e => forall_congr' fun he => ?_
  have hch := checkHeader_of_firstFailure s.config hlen
  rw [he] at hch
  rw [accept_of_checkHeader_error hhead hch, Input.failure_eq hhead, Except.error.injEq]

/-- A datagram that passes steps 2 to 6 is not reported as failing one of them. -/
private theorem headerStep_accept_of_none (hlen : 25 ≤ i.buf.length)
    (h : firstFailure s.config.suite i = none) : headerStep (s.accept P i).1 = none := by
  have hch := checkHeader_of_firstFailure s.config hlen
  rw [h] at hch
  obtain ⟨c, hc⟩ := hch
  exact headerStep_accept_of_checkHeader hc

/-- **A receiver attributes a run** exactly if no datagram of it has two such faults. -/
theorem attributed_run_iff (P : Primitives) (s : PeerState WORDS) {is : List Input}
    (hlen : ∀ i ∈ is, 25 ≤ i.buf.length) :
    Attributed s.config.suite (trace (accept P) s is) s.stats (final (accept P) s is).stats ↔
      ∀ i ∈ is, i.SingleFault s.config.suite := by
  refine attributed_iff_of_step (stats_accept P) fun pre i hi => ?_
  rw [← config_final (P := P) pre]
  exact ⟨accept_firstFailure_iff (hlen i hi), headerStep_accept_of_none (hlen i hi)⟩

end PeerState

/-! ### The collector -/

namespace Collector

variable {P : Primitives} {c : Collector} {i : Input}

/-- Every receiver is held under the sender of its configuration. -/
def Keyed (c : Collector) : Prop :=
  ∀ id peer, c.peers.lookup id = some peer → peer.config.senderId = id

/-- Storing a receiver under its own identifier keeps the keys. -/
theorem Keyed.insert (h : Keyed c) {peer : PeerState defaultWindowWords} {id : UInt32}
    (hid : peer.config.senderId = id) : Keyed { c with peers := c.peers.insert id peer } :=
  AList.forall_lookup_insert h hid

/-- So does a call of `accept`. -/
theorem Keyed.accept (h : Keyed c) (i : Input) : Keyed (c.accept P i).2 := by
  rw [Keyed]
  rcases peers_accept P c i with heq | ⟨id, peer, -, hpeer, heq⟩
  · rwa [heq]
  · rw [heq]
    exact h.insert (by rw [PeerState.config_accept, h id peer hpeer])

/-- So does a call of either kind. -/
theorem Keyed.call (h : Keyed c) (q : Call) : Keyed (c.call P q).2 := by
  cases q with
  | accept i => exact h.accept i
  | provision config =>
    rw [Collector.call, provision]
    cases hs : PeerState.new config with
    | error e => exact h
    | ok s => exact h.insert (by rw [(PeerState.new_eq_ok hs).1])

private theorem suite_accept (P : Primitives) (c : Collector) (i : Input) :
    (c.accept P i).2.suite = c.suite := by
  funext id'
  rw [suite, suite]
  rcases peers_accept P c i with heq | ⟨id, peer, -, hpeer, heq⟩
  · rw [heq]
  rw [heq]
  by_cases hid : id' = id
  · rw [hid, AList.lookup_insert, hpeer, Option.map_some, Option.map_some, PeerState.config_accept]
  · rw [AList.lookup_insert_ne hid]

/-- What a receiver held knows of its sender, the collector knows. -/
private theorem firstFailure_suite (h : Keyed c) {peer : PeerState defaultWindowWords}
    (hpeer : c.peers.lookup (Datagram.unpack i.buf).senderId = some peer) :
    c.suite (Datagram.unpack i.buf).senderId = peer.config.suite (Datagram.unpack i.buf).senderId ∧
      firstFailure c.suite i = firstFailure peer.config.suite i := by
  have hsuite : c.suite (Datagram.unpack i.buf).senderId =
      peer.config.suite (Datagram.unpack i.buf).senderId := by
    rw [suite, hpeer, PeerConfig.suite, if_pos (h _ peer hpeer).symm]
    rfl
  refine ⟨hsuite, ?_⟩
  rw [firstFailure, firstFailure, hsuite]

/-- **A collector names the first failure** of a datagram exactly if no fault of steps 2 to 5 is
hidden by the sender or the epoch. -/
theorem accept_firstFailure_iff (h : Keyed c) (hlen : 25 ≤ i.buf.length) :
    ((∀ e, firstFailure c.suite i = some e → (c.accept P i).1 = .error e) ↔
      i.RoutedFault c.suite) ∧
    (firstFailure c.suite i = none → headerStep (c.accept P i).1 = none) := by
  rcases accept_cases P c i with ⟨hshort, -⟩ | ⟨id, hid, ⟨hnone, heq⟩ | ⟨peer, hpeer, heq⟩⟩
  · have := Input.sender_eq_none_iff.mp hshort
    rw [headerLen] at this
    omega
  · obtain rfl := (Input.sender_eq_some_iff.mp hid).2
    have hsuite : c.suite (Datagram.unpack i.buf).senderId = none := by rw [suite, hnone]; rfl
    rw [heq, Input.RoutedFault, hsuite]
    dsimp only
    rcases firstFailure_cases c.suite i with ⟨hversion, hff⟩ | ⟨-, htype, hff⟩ |
      ⟨htypes, -, hff⟩ | ⟨cipher, hsome, -⟩
    · rw [hff]
      refine ⟨⟨fun h => ?_, fun h => absurd h.1 hversion⟩, nofun⟩
      cases h _ rfl
    · rw [hff]
      refine ⟨⟨fun h => ?_, fun h => absurd h.2 htype⟩, nofun⟩
      cases h _ rfl
    · rw [hff]
      exact ⟨⟨fun _ => htypes, fun _ e he => congrArg Except.error (Option.some.inj he)⟩, nofun⟩
    · rw [hsuite] at hsome
      cases hsome
  · obtain rfl := (Input.sender_eq_some_iff.mp hid).2
    obtain ⟨hsuite, hff⟩ := firstFailure_suite h hpeer
    have hsome : peer.config.suite (Datagram.unpack i.buf).senderId = some peer.config.cipher :=
      PeerConfig.suite_eq_some_iff.mpr ⟨(h _ peer hpeer).symm, rfl⟩
    have hrouted : i.RoutedFault c.suite ↔ i.SingleFault peer.config.suite := by
      simp only [Input.RoutedFault, Input.SingleFault, Input.SuitePasses, hsuite, hsome]
    rw [heq, hff, hrouted]
    exact ⟨PeerState.accept_firstFailure_iff hlen, PeerState.headerStep_accept_of_none hlen⟩

/-- Every collector reachable holds its receivers under their own identifiers. -/
private theorem keyed_final (P : Primitives) (calls : List Call) :
    Keyed (final (call P) new calls) := by
  have hnew : Keyed new := by
    intro id peer hl
    rw [new, AList.lookup_empty] at hl
    cases hl
  exact final_invariant hnew (fun _ q h => h.call q) calls

/-- **A collector attributes a run** exactly if no datagram of it has a fault hidden so. -/
theorem attributed_run_iff (P : Primitives) (hc : Keyed c) {is : List Input}
    (hlen : ∀ i ∈ is, 25 ≤ i.buf.length) :
    Attributed c.suite (trace (accept P) c is) c.stats (final (accept P) c is).stats ↔
      ∀ i ∈ is, i.RoutedFault c.suite := by
  refine attributed_iff_of_step (stats_accept P) fun pre i hi => ?_
  have hfinal : Keyed (final (accept P) c pre) ∧ (final (accept P) c pre).suite = c.suite :=
    final_invariant (I := fun t : Collector => Keyed t ∧ t.suite = c.suite) ⟨hc, rfl⟩
      (fun t i h => ⟨h.1.accept i, (suite_accept P t i).trans h.2⟩) pre
  rw [← hfinal.2]
  exact accept_firstFailure_iff hfinal.1 (hlen i hi)

end Collector

/-! ### Both layers -/

/-- **Attribution.** Of datagrams long enough for the header and the longest tag, `decode` always
reports the first of steps 2 to 6 that fails. A receiver in any state does the same, and its
counters with it, over exactly the runs in which no fault of steps 2 to 5 comes with one of step
6; a collector, after any calls, over exactly those in which moreover no fault of steps 2 and 3
comes with an unknown sender. The counters are `u64`s in the source within the bounds of
`Stats.recordAll_eq`. -/
theorem attributed_iff (P : Primitives) (is : List Input) (hlen : ∀ i ∈ is, 25 ≤ i.buf.length) :
    (∀ {WORDS : ℕ} (s : PeerState WORDS),
      (∀ i ∈ is, ∀ e, firstFailure s.config.suite i = some e → ∀ w : ReplayWindow WORDS,
        (decode P i.buf s.config i.localEpoch i.dir w).1 = .error e) ∧
      (Attributed s.config.suite (trace (PeerState.accept P) s is) s.stats
          (final (PeerState.accept P) s is).stats ↔ ∀ i ∈ is, i.SingleFault s.config.suite)) ∧
    ∀ calls : List Call,
      let c := final (Collector.call P) Collector.new calls
      Attributed c.suite (trace (Collector.accept P) c is) c.stats
        (final (Collector.accept P) c is).stats ↔ ∀ i ∈ is, i.RoutedFault c.suite := by
  refine ⟨fun s => ⟨fun i hi e he w => ?_, PeerState.attributed_run_iff P s hlen⟩,
    fun calls => Collector.attributed_run_iff P (Collector.keyed_final P calls) hlen⟩
  have hch := checkHeader_of_firstFailure s.config (hlen i hi)
  rw [he] at hch
  rw [decode_of_verify_error (by rw [verify, hch])]

/-- A datagram of the vector's sender that has expired, and one of another sender. -/
def singleFaults : List Input :=
  [⟨vectorWire ++ [0, 0, 0, 0, 0], 13281252, .nodeToCollector, 0⟩,
    ⟨(vectorWire.set 8 0x79) ++ [0, 0, 0, 0, 0], 13281250, .nodeToCollector, 0⟩]

/-- Two rejections, each with one fault, are counted where they belong. -/
theorem attributed_iff_singleFaults :
    let c := final (Collector.call vectorPrimitives) Collector.new [.provision vectorPeer]
    Attributed c.suite (trace (Collector.accept vectorPrimitives) c singleFaults) c.stats
      (final (Collector.accept vectorPrimitives) c singleFaults).stats := by
  refine ((attributed_iff vectorPrimitives singleFaults (by decide)).2
    [.provision vectorPeer]).mpr ?_
  intro i hi
  have htypes : i.TypePasses := by
    revert i
    decide
  rcases List.mem_cons.mp hi with rfl | hi
  · have hsuite : (final (Collector.call vectorPrimitives) Collector.new
        [.provision vectorPeer]).suite 0x12345678 = some .hmacSha256T64 := by decide
    exact .inr ⟨htypes, .hmacSha256T64, hsuite, by decide⟩
  · obtain rfl := List.mem_singleton.mp hi
    exact htypes

/-- An expired datagram of version 0, and a datagram of version 0 from an unknown sender. Both
fail step 2, and neither is reported so. -/
theorem attributed_doubleFaults :
    let expired : Input :=
      ⟨vectorWire.set 0 0x04 ++ [0, 0, 0, 0, 0], 13281252, .nodeToCollector, 0⟩
    let unknown : Input :=
      ⟨(vectorWire.set 0 0x04).set 8 0x79 ++ [0, 0, 0, 0, 0], 13281250, .nodeToCollector, 0⟩
    let c := (Collector.new.provision vectorPeer).2
    firstFailure PeerState.vectorState.config.suite expired = some (.unsupportedVersion 0) ∧
      (PeerState.vectorState.accept vectorPrimitives expired).1 = .error .epochOutOfWindow ∧
      firstFailure c.suite unknown = some (.unsupportedVersion 0) ∧
      (c.accept vectorPrimitives unknown).1 = .error (.unknownSender 0x12345679) := by
  decide

end Catp
