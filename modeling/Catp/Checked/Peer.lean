import Catp.Checked.Wire
import Catp.Peer.Collector

/-!
# The receivers with their faults

`PeerState::accept` and `Collector::accept` of `src/peer.rs` over the receive path with its faults.
The slot `window_for` unwraps is always occupied (`windowFor_eq`), so a receiver faults only as its
window does (`PeerState.accept_returns_iff`), and a collector, whose windows have 4096 entries,
never (`Collector.accept_eq`). `FaultFree` collects the five entry points. The counters, which a
call increments, are natural numbers.

* `windowFor_eq`: whichever branch `window_for` takes, the slot it unwraps has just been found or
  filled.
* `PeerState.accept_returns_iff`: a receiver of any width stops exactly where the window it
  reaches stops, that is, after the datagram has verified. With
  `PeerState.reachesCheckable_of_entries` a window that has entries is enough;
  `entries_ne_zero_iff` says which widths have some.
* `faultFree_iff`: the five entry points of the receive path together, over every buffer, every
  state and every configuration.

A collector builds its receivers itself, with the default width, so nothing has to be assumed of
it.
-/

namespace Catp.Checked

open Faults

variable {WORDS : ℕ}

/-! ### The functions -/

/-- The slots, the index into them and the unwrapping of `window_for`. -/
def windowFor (ws : Windows WORDS) (epoch : UInt32) :
    Faulting (ReplayWindow WORDS × (ReplayWindow WORDS → Windows WORDS)) := do
  let slots := [ws.slot0, ws.slot1]
  let (slots, idx) ←
    match slots.findIdx? fun slot => (Windows.holdsEpoch slot epoch).isSome with
    | some i => pure (slots, i)
    | none =>
      match slots.findIdx? fun slot => slot.isNone with
      | some i => do
        let slots ← store slots i (some ⟨epoch, .new⟩)
        pure (slots, i)
      | none => do
        let slots ← store slots 0 (some ⟨epoch, .new⟩)
        pure (slots, 0)
  let ew ← unwrap (← index slots idx)
  return (ew.window, fun window =>
    let slots := slots.set idx (some { ew with window })
    ⟨slots[0]!, slots[1]!⟩)

/-- `limiter.try_acquire(now_ms)` of a peer that may have no limiter. -/
def acquire (limiter : Option InboundLimiter) (nowMs : UInt64) :
    Faulting (Bool × Option InboundLimiter) :=
  match limiter with
  | none => return (true, none)
  | some l => do
    let (granted, l) ← tryAcquire l nowMs
    return (granted, some l)

section

variable (usizeMax : ℕ) (P : Primitives)

/-- `PeerState::accept_inner`, which reads the header byte of the epoch itself. -/
def PeerState.acceptInner (s : PeerState WORDS) (i : Input) :
    Faulting (Except Error Accepted × PeerState WORDS) :=
  if i.buf.length < headerLen then return (.error .tooShort, s)
  else do
    let b1 ← index i.buf 1
    match ← reconstructEpoch i.localEpoch (b1 &&& 0x0F) with
    | none => return (.error .epochOutOfWindow, s)
    | some epoch =>
      let (window, putBack) ← windowFor (s.windows.prune i.localEpoch) epoch
      let (result, window) ← decode usizeMax P i.buf s.config i.localEpoch i.dir window
      let s := { s with windows := putBack window }
      match result with
      | .error e => return (.error e, s)
      | .ok accepted =>
        let (granted, limiter) ← acquire s.limiter i.nowMs
        let s := { s with limiter := limiter }
        if granted then return (.ok accepted, s) else return (.error .rateLimited, s)

/-- `PeerState::accept`. -/
def PeerState.accept (s : PeerState WORDS) (i : Input) :
    Faulting (Except Error Accepted × PeerState WORDS) := do
  let (result, s) ← PeerState.acceptInner usizeMax P s i
  return (result, { s with stats := s.stats.recordResult result })

/-- `Collector::accept`, which reads the four bytes of the sender itself. -/
def Collector.accept (c : Collector) (i : Input) : Faulting (Except Error Accepted × Collector) :=
  if i.buf.length < headerLen then
    return (.error .tooShort,
      { c with ownStats := { c.ownStats with tooShort := c.ownStats.tooShort + 1 } })
  else do
    let senderId := u32OfBe [← index i.buf 5, ← index i.buf 6, ← index i.buf 7, ← index i.buf 8]
    match c.peers.lookup senderId with
    | none =>
      return (.error (.unknownSender senderId),
        { c with ownStats := { c.ownStats with unknownSender := c.ownStats.unknownSender + 1 } })
    | some peer =>
      let (result, peer) ← PeerState.accept usizeMax P peer i
      return (result, { c with peers := c.peers.insert senderId peer })

end

/-! ### The slots -/

/-- **The slot unwrapped is occupied**, by the window the receiver uses. -/
theorem windowFor_eq (ws : Windows WORDS) (epoch : UInt32) :
    windowFor ws epoch = .ok (ws.windowFor epoch) := by
  obtain ⟨slot0, slot1⟩ := ws
  have hheld {slot : Option (EpochWindow WORDS)} {w : ReplayWindow WORDS}
      (h : Windows.holdsEpoch slot epoch = some w) : slot = some ⟨epoch, w⟩ := by
    rcases slot with _ | ew
    · cases h
    · rw [Windows.holdsEpoch] at h
      split_ifs at h with he
      rw [← he, ← Option.some.inj h]
  rw [windowFor, Windows.windowFor]
  rcases h0 : Windows.holdsEpoch slot0 epoch with _ | w
  · rcases h1 : Windows.holdsEpoch slot1 epoch with _ | w
    · -- the first free slot is claimed, or the first of two that are taken
      rcases slot0 with _ | ew0
      · simp [h0, h1, List.findIdx?_cons, index, store]
      · rcases slot1 with _ | ew1
        · simp [h0, h1, List.findIdx?_cons, index, store]
        · simp [h0, h1, List.findIdx?_cons, index, store]
    · obtain rfl := hheld h1
      simp [h0, h1, List.findIdx?_cons, index]
  · obtain rfl := hheld h0
    simp [h0, List.findIdx?_cons, index]

/-- Asking the limiter stops nowhere. -/
private theorem acquire_eq (limiter : Option InboundLimiter) (nowMs : UInt64) :
    acquire limiter nowMs = .ok (Catp.PeerState.tryAcquire limiter nowMs) := by
  cases limiter with
  | none => rfl
  | some l =>
    rw [acquire, tryAcquire_eq, ok_bind]
    rfl

/-! ### The receivers -/

/-- The window a datagram that passes steps 1 to 7 is checked against. -/
def windowOf (s : PeerState WORDS) (l epoch : UInt32) : ReplayWindow WORDS :=
  ((s.windows.prune l).windowFor epoch).1

/-- `ReachesCheckable` for the windows of a receiver. -/
def PeerState.ReachesCheckable (P : Primitives) (s : PeerState WORDS) (i : Input) : Prop :=
  ∀ c, Catp.verify P i.buf s.config i.localEpoch i.dir = .ok c →
    Checkable (windowOf s i.localEpoch c.epochId) c.header.datagramOffset

/-- A window has entries, unless its width is a multiple of `2 ^ 26` words. -/
theorem entries_ne_zero_iff : ReplayWindow.entries WORDS ≠ 0 ↔ ¬2 ^ 26 ∣ WORDS := by
  rw [not_iff_not, ReplayWindow.entries, ← UInt32.toNat_inj, UInt32.toNat_ofNat']
  simp only [UInt32.toNat_zero]
  omega

/-- A window with entries is checkable at every offset. -/
private theorem PeerState.reachesCheckable_of_entries (h : ReplayWindow.entries WORDS ≠ 0)
    (P : Primitives) (s : PeerState WORDS) (i : Input) : PeerState.ReachesCheckable P s i :=
  fun _ _ => .inl h

section

variable {usizeMax : ℕ} {P : Primitives} (h16 : 2 ^ 16 ≤ usizeMax + 1)
include h16

/-- `accept_inner` stops nowhere if the window it reaches is checkable. -/
private theorem PeerState.acceptInner_eq {s : PeerState WORDS} {i : Input}
    (hbuf : i.buf.length ≤ usizeMax / 2) (h : PeerState.ReachesCheckable P s i) :
    PeerState.acceptInner usizeMax P s i = .ok (s.acceptInner P i) := by
  rw [PeerState.acceptInner, Catp.PeerState.acceptInner]
  refine ite_eq (fun _ => rfl) fun hshort => ?_
  rw [headerLen] at hshort
  rw [index_eq (show 1 < i.buf.length by omega), ok_bind, reconstructEpoch_eq, ok_bind]
  rcases hepoch : Catp.reconstructEpoch i.localEpoch (i.buf[1]! &&& 0x0F) with _ | epoch
  · rfl
  have hreach : Checked.ReachesCheckable P i.buf s.config i.localEpoch i.dir
      (windowOf s i.localEpoch epoch) := by
    intro c hverify
    have he := claim_epoch_of_checkHeader (verify_eq_ok_iff.mp hverify).1
    obtain rfl : epoch = c.epochId := Option.some.inj (hepoch.symm.trans he)
    exact h c hverify
  rw [windowOf] at hreach
  dsimp only
  rw [windowFor_eq, ok_bind, decode_eq h16 hbuf hreach, ok_bind]
  obtain ⟨_ | accepted, window⟩ := Catp.decode P i.buf s.config i.localEpoch i.dir
    ((s.windows.prune i.localEpoch).windowFor epoch).1
  · rfl
  · dsimp only
    rw [acquire_eq, ok_bind]
    exact ite_eq (fun _ => rfl) fun _ => rfl

/-- A verified datagram that reaches an uncheckable window stops the receiver. -/
private theorem PeerState.accept_fault {s : PeerState WORDS} {i : Input}
    (hbuf : i.buf.length ≤ usizeMax / 2) {c : Claim}
    (hverify : Catp.verify P i.buf s.config i.localEpoch i.dir = .ok c)
    (h : ¬Checkable (windowOf s i.localEpoch c.epochId) c.header.datagramOffset) :
    PeerState.accept usizeMax P s i = .error .zeroDivisor := by
  have hhead := (verify_eq_ok_iff.mp hverify).1
  have hlen := (checkHeader_eq_ok_iff.mp hhead).1
  have hshort : ¬i.buf.length < headerLen := by omega
  rw [headerLen] at hlen
  rw [PeerState.accept, PeerState.acceptInner, if_neg hshort,
    index_eq (show 1 < i.buf.length by omega), ok_bind, reconstructEpoch_eq, ok_bind,
    claim_epoch_of_checkHeader hhead]
  rw [windowOf] at h
  dsimp only
  rw [windowFor_eq, ok_bind, decode_fault h16 hbuf hverify h]
  rfl

/-- `PeerState::accept` stops nowhere if the window it reaches is checkable. -/
theorem PeerState.accept_eq {s : PeerState WORDS} {i : Input}
    (hbuf : i.buf.length ≤ usizeMax / 2) (h : PeerState.ReachesCheckable P s i) :
    PeerState.accept usizeMax P s i = .ok (s.accept P i) := by
  rw [PeerState.accept, PeerState.acceptInner_eq h16 hbuf h, ok_bind]
  rfl

/-- **A receiver faults exactly where its window divides by zero.** -/
theorem PeerState.accept_returns_iff {s : PeerState WORDS} {i : Input}
    (hbuf : i.buf.length ≤ usizeMax / 2) :
    Returns (PeerState.accept usizeMax P s i) ↔ PeerState.ReachesCheckable P s i := by
  refine ⟨fun hret c hverify => ?_, fun h => .of_eq (PeerState.accept_eq h16 hbuf h)⟩
  by_contra hcheck
  exact hret.ne_error _ (PeerState.accept_fault h16 hbuf hverify hcheck)

/-- The windows of a collector have entries, so `Collector::accept` stops nowhere. -/
theorem Collector.accept_eq {c : Collector} {i : Input} (hbuf : i.buf.length ≤ usizeMax / 2) :
    Collector.accept usizeMax P c i = .ok (c.accept P i) := by
  rw [Collector.accept, Catp.Collector.accept]
  refine ite_eq (fun _ => rfl) fun hshort => ?_
  rw [headerLen] at hshort
  rw [index_eq (show 5 < i.buf.length by omega), ok_bind,
    index_eq (show 6 < i.buf.length by omega), ok_bind,
    index_eq (show 7 < i.buf.length by omega), ok_bind,
    index_eq (show 8 < i.buf.length by omega), ok_bind]
  dsimp only
  rcases c.peers.lookup (u32OfBe [i.buf[5]!, i.buf[6]!, i.buf[7]!, i.buf[8]!]) with _ | peer
  · rfl
  -- the windows of a collector have the default width
  have hdefault : ReplayWindow.entries defaultWindowWords ≠ 0 := by decide
  dsimp only
  rw [PeerState.accept_eq h16 hbuf (PeerState.reachesCheckable_of_entries hdefault P peer i),
    ok_bind]
  rfl

end

/-! ### The whole receive path -/

/-- The five entry points fault nowhere on these arguments. -/
structure FaultFree {WORDS WORDS' : ℕ} (usizeMax : ℕ) (P : Primitives) (i : Input)
    (peer : PeerConfig) (window : ReplayWindow WORDS) (s : PeerState WORDS') (c : Collector)
    (senderId : UInt32) (secret : DeviceSecret) : Prop where
  decode : Returns (decode usizeMax P i.buf peer i.localEpoch i.dir window)
  decodeTimeRequest : Returns (decodeTimeRequest usizeMax P i.buf senderId secret)
  decodeTimeAnnounce : Returns (decodeTimeAnnounce usizeMax P i.buf senderId secret)
  peerAccept : Returns (PeerState.accept usizeMax P s i)
  collectorAccept : Returns (Collector.accept usizeMax P c i)

/-- **The receive path faults nowhere but in a replay window without entries**: on every buffer,
configuration, clock and state its entry points return, unless a datagram that passes steps 1 to 7
reaches a window whose number of entries is zero and whose mark, if it has one, is below the
datagram's offset. -/
theorem faultFree_iff {WORDS WORDS' usizeMax : ℕ} (h16 : 2 ^ 16 ≤ usizeMax + 1) (P : Primitives)
    {i : Input} (hbuf : i.buf.length ≤ usizeMax / 2) (peer : PeerConfig)
    (window : ReplayWindow WORDS) (s : PeerState WORDS') (c : Collector) (senderId : UInt32)
    (secret : DeviceSecret) :
    FaultFree usizeMax P i peer window s c senderId secret ↔
      ReachesCheckable P i.buf peer i.localEpoch i.dir window ∧
        PeerState.ReachesCheckable P s i := by
  rw [← decode_returns_iff h16 hbuf, ← PeerState.accept_returns_iff h16 hbuf]
  constructor
  · intro h
    exact ⟨h.decode, h.peerAccept⟩
  · rintro ⟨hdecode, hpeer⟩
    exact ⟨hdecode, .of_eq (decodeTimeRequest_eq h16 i.buf senderId secret),
      .of_eq (decodeTimeAnnounce_eq h16 i.buf senderId secret), hpeer,
      .of_eq (Collector.accept_eq h16 hbuf)⟩

/-- The frozen vector, on a 64-bit target, against windows of the default width. -/
theorem faultFree_iff_vector :
    FaultFree (2 ^ 64 - 1) vectorPrimitives ⟨vectorWire, 13281250, .nodeToCollector, 0⟩ vectorPeer
      (ReplayWindow.new : ReplayWindow defaultWindowWords) PeerState.vectorState Collector.new
      0x12345678 vectorSecret := by
  have hentries : ReplayWindow.entries defaultWindowWords ≠ 0 := by decide
  exact (faultFree_iff (by decide) vectorPrimitives (by decide) vectorPeer _ _ _ _ _).mpr
    ⟨fun _ _ => .inl hentries, PeerState.reachesCheckable_of_entries hentries _ _ _⟩

/-- A window of `2 ^ 26` words has no entries: the frozen vector divides by zero in it, though the
width is the positive one the constructor asks for. -/
theorem decode_faults_zeroEntries :
    0 < 67108864 ∧ ReplayWindow.entries 67108864 = 0 ∧
      decode (2 ^ 64 - 1) vectorPrimitives vectorWire vectorPeer 13281250 .nodeToCollector
        (ReplayWindow.new : ReplayWindow 67108864) = .error .zeroDivisor := by
  have hentries : ReplayWindow.entries 67108864 = 0 := by decide
  refine ⟨by decide, hentries, ?_⟩
  have hverify : Catp.verify vectorPrimitives vectorWire vectorPeer 13281250 .nodeToCollector =
      .ok ⟨Catp.Datagram.unpack vectorWire, .number, .hmacSha256T64, 13281250, [0x02, 0x09, 0x2E],
        vectorWire.drop 12⟩ := by
    decide
  refine decode_fault (by decide) (by decide) hverify ?_
  rintro (h | ⟨hi, hhigh, -⟩)
  · exact h hentries
  · cases hhigh

end Catp.Checked
