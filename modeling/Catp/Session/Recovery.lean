import Catp.Node.Clock
import Catp.Wire.TimeRoundTrip

/-!
# Time recovery over the network

A collector announces the time to a node that has no clock, the network delivers announcements
when it likes or not at all, and the node hands every buffer it gets to `decode_time_announce` and
the time it asserts to `accept_time_announce`. A run is a sequence of `Moment`s, each with what
the collector's clock and the node's platform clock show.

The network can hold an announcement back, and nothing else (`Unforged`, for the time key). So a
recovered clock is never ahead of the collector's: it lags by the time the announcement was held
back and by what the platform clock has lost since (`read_eq`). Nor is the persisted epoch ever
ahead, so no run of the network's making locks a node out (`accept_iff_of_fresh`).

* **Moments.** Both clocks are `i64`, and `Steady` says what is asked of them: the collector's
  does not step back and has an epoch of 32 bits; the node's platform clock does not step back
  between boots, and runs no faster than the collector's.
* **The invariant.** `Behind` is about the clock reached. The epoch persisted is the first one or
  that of a time announced, and a clock that is valid was set by an announcement of the run
  (`SetBy`), from which its correction follows. `Behind.step` takes one moment, and `Behind.keep`
  the moments that leave the clock alone.
* **Reading.** `toInt_corrected` is the arithmetic of `now`: none of its operations wraps, for
  times below `2 ^ 39`.

The bound `2 ^ 39` is where the epoch of a time no longer fits 32 bits. What the clock does with a
time beyond it is the matter of `Catp.Node.Clock` and `Catp.Node.Floor`, and no run here asserts
one.
-/

namespace Catp

open Transducer NodeClock

namespace Recovery

/-- What happens at a moment. -/
inductive Act
  /-- The collector announces its time. -/
  | announce
  /-- The node starts without a clock, from the value it persists. -/
  | boot
  /-- The node is handed a buffer. -/
  | deliver (buf : Bytes)
  /-- The node reads its clock. -/
  | now
  deriving DecidableEq, Repr

/-- What happens, and what the clocks show. -/
structure Moment where
  /-- The collector's clock. -/
  time : Int64
  /-- The platform clock of the node. -/
  raw : Int64
  act : Act
  deriving DecidableEq, Repr

/-- What the moment draws. -/
inductive Answer
  | announced (wire : Except Error Bytes)
  | booted
  | delivered (result : Except Error Unit)
  | read (result : Except Error Int64)
  deriving DecidableEq

section

variable (P : Primitives) (senderId : UInt32) (secret : DeviceSecret)

/-- Verify an announcement and apply the time it asserts. -/
def receive (c : NodeClock) (buf : Bytes) (rawNow : Int64) : Except Error Unit × NodeClock :=
  match decodeTimeAnnounce P buf senderId secret with
  | .error e => (.error e, c)
  | .ok asserted => c.acceptTimeAnnounce asserted rawNow

/-- The collector and the clock of the node. -/
def step (c : NodeClock) (m : Moment) : Answer × NodeClock :=
  match m.act with
  | .announce => (.announced (Datagram.timeAnnounce P senderId m.time secret), c)
  | .boot => (.booted, clockless c.lastEpoch)
  | .deliver buf =>
    (.delivered (receive P senderId secret c buf m.raw).1,
      (receive P senderId secret c buf m.raw).2)
  | .now => (.read (c.now m.raw), c)

/-- The clock of a node that starts from this persisted epoch, after the moments `ms`. -/
def clockAfter (lastEpoch : UInt32) (ms : List Moment) : NodeClock :=
  final (step P senderId secret) (clockless lastEpoch) ms

/-- The delivery `a` sets the clock to the time announced in `q` before it, and no boot comes
after. -/
def SetBy (lastEpoch : UInt32) (ms : List Moment) (q a : Moment) : Prop :=
  ∃ ps qs buf, ms = ps ++ a :: qs ∧ q ∈ ps ∧ q.act = .announce ∧ a.act = .deliver buf ∧
    decodeTimeAnnounce P buf senderId secret = .ok q.time ∧
    (step P senderId secret (clockAfter P senderId secret lastEpoch ps) a).1 =
      .delivered (.ok ()) ∧
    ∀ k ∈ qs, k.act ≠ .boot

/-- What the MAC of an announcement is computed of. -/
def signed (reserved : UInt8) (payload : Bytes) : Bytes :=
  (timeDatagram .timeAnnounce senderId reserved payload).authHeader 0 ++ payload

/-- **The time key is the collector's own**: whatever message the node finds the tag of under the
time key, the collector has computed the tag of it before. -/
def Unforged (pre : List Moment) (m : Moment) : Prop :=
  ∀ buf t, m.act = .deliver buf → decodeTimeAnnounce P buf senderId secret = .ok t →
    ∃ q ∈ pre, q.act = .announce ∧
      signed senderId (Datagram.unpack buf).reserved ((buf.take (headerLen + 8)).drop headerLen) =
        signed senderId 0 (i64ToBe q.time)

/-- The collector's clock does not step back and has an epoch of 32 bits, not before the epoch the
node started with; the platform clock runs from boot to boot, and not faster. -/
def Steady (lastEpoch : UInt32) (pre : List Moment) (m : Moment) : Prop :=
  lastEpoch.toNat * 128 ≤ m.time.toInt ∧ m.time.toInt < (2 ^ 39 : ℕ) ∧
    ∀ p ∈ pre.getLast?, p.time.toInt ≤ m.time.toInt ∧
      (m.act ≠ .boot → p.raw.toInt ≤ m.raw.toInt ∧
        m.raw.toInt - p.raw.toInt ≤ m.time.toInt - p.time.toInt)

instance (lastEpoch : UInt32) (pre : List Moment) (m : Moment) :
    Decidable (Steady lastEpoch pre m) :=
  inferInstanceAs (Decidable (_ ∧ _ ∧ ∀ p ∈ pre.getLast?, _))

/-- The clocks are steady, and the network cannot MAC. -/
def Fair (lastEpoch : UInt32) (pre : List Moment) (m : Moment) : Prop :=
  Steady lastEpoch pre m ∧ Unforged P senderId secret pre m

end

variable {P : Primitives} {senderId : UInt32} {secret : DeviceSecret} {lastEpoch : UInt32}
  {pre : List Moment} {m : Moment} {c : NodeClock}

/-! ### What the announcements mean -/

/-- What verifies asserts a time the collector has announced. -/
private theorem Unforged.exists_announced (h : Unforged P senderId secret pre m) {buf : Bytes}
    {t : Int64}
    (hact : m.act = .deliver buf) (ht : decodeTimeAnnounce P buf senderId secret = .ok t) :
    ∃ q ∈ pre, q.act = .announce ∧ q.time = t := by
  obtain ⟨q, hq, hann, hsigned⟩ := h buf t hact ht
  obtain ⟨-, hpayload⟩ := List.append_inj hsigned (by simp)
  refine ⟨q, hq, hann, ?_⟩
  rw [(decodeTimeAnnounce_eq_ok_iff.mp ht).2.2.2, hpayload, i64OfBe_i64ToBe]

/-- An announcement is received, and asserts the time it was made of. -/
private theorem receive_timeAnnounce {t : Int64} {buf : Bytes}
    (h : Datagram.timeAnnounce P senderId t secret = .ok buf) (raw : Int64) :
    receive P senderId secret c buf raw = c.acceptTimeAnnounce t raw := by
  rw [timeAnnounce_eq] at h
  have hdec : decodeTimeAnnounce P buf senderId secret = .ok t :=
    decodeTimeAnnounce_eq_ok_iff_wire.mpr ⟨0, by decide, (Except.ok.inj h).symm⟩
  rw [receive, hdec]

/-! ### The invariant -/

/-- The collector's clock over the moments `ms`. -/
structure Timed (lastEpoch : UInt32) (ms : List Moment) : Prop where
  /-- No moment is later than the last. -/
  ordered : ∀ m ∈ ms, ∀ p ∈ ms.getLast?, m.time.toInt ≤ p.time.toInt
  bounded : ∀ m ∈ ms, lastEpoch.toNat * 128 ≤ m.time.toInt ∧ m.time.toInt < (2 ^ 39 : ℕ)

/-- A run with a moment in it has a last one. -/
private theorem exists_getLast? {ms : List Moment} {q : Moment} (hq : q ∈ ms) :
    ∃ p, ms.getLast? = some p :=
  Option.ne_none_iff_exists'.mp (mt List.getLast?_eq_none_iff.mp (List.ne_nil_of_mem hq))

private theorem Timed.le_of_steady {ms : List Moment} (h : Timed lastEpoch ms)
    (hm : Steady lastEpoch ms m) : ∀ q ∈ ms, q.time.toInt ≤ m.time.toInt := by
  intro q hq
  obtain ⟨p, hp⟩ := exists_getLast? hq
  exact (h.ordered q hq p hp).trans (hm.2.2 p hp).1

private theorem Timed.concat {ms : List Moment} (h : Timed lastEpoch ms)
    (hm : Steady lastEpoch ms m) :
    Timed lastEpoch (ms ++ [m]) := by
  constructor
  · intro q hq p hp
    obtain rfl : m = p := by simpa using hp
    rcases List.mem_append.mp hq with hq | hq
    · exact h.le_of_steady hm q hq
    · rw [List.mem_singleton.mp hq]
  · intro q hq
    rcases List.mem_append.mp hq with hq | hq
    · exact h.bounded q hq
    · obtain rfl := List.mem_singleton.mp hq
      exact ⟨hm.1, hm.2.1⟩

/-- The clock of the node, after the moments `ms`. -/
structure Behind (P : Primitives) (senderId : UInt32) (secret : DeviceSecret) (lastEpoch : UInt32)
    (ms : List Moment) : Prop where
  timed : Timed lastEpoch ms
  /-- The persisted epoch is the first one, or that of a time announced. -/
  persisted : (clockAfter P senderId secret lastEpoch ms).lastEpoch = lastEpoch ∨
    ∃ q ∈ ms, q.act = .announce ∧
      ((clockAfter P senderId secret lastEpoch ms).lastEpoch.toNat : ℤ) = q.time.toInt / 128
  /-- A clock that is valid was set by an announcement made earlier, and the platform clock has run
  since. -/
  recovered : (clockAfter P senderId secret lastEpoch ms).valid = true →
    ∃ q a, SetBy P senderId secret lastEpoch ms q a ∧ q.time.toInt ≤ a.time.toInt ∧
      (clockAfter P senderId secret lastEpoch ms).correction = q.time - a.raw ∧
      ∀ p ∈ ms.getLast?, a.raw.toInt ≤ p.raw.toInt ∧
        p.raw.toInt - a.raw.toInt ≤ p.time.toInt - a.time.toInt

private theorem clockAfter_concat (ms : List Moment) (m : Moment) :
    clockAfter P senderId secret lastEpoch (ms ++ [m]) =
      (step P senderId secret (clockAfter P senderId secret lastEpoch ms) m).2 :=
  final_concat _ _ _ _

private theorem behind_start : Behind P senderId secret lastEpoch [] :=
  ⟨⟨by simp, by simp⟩, .inl rfl, fun h => by cases h⟩

/-- The announcement and the delivery stand in the run. -/
theorem SetBy.mem {ms : List Moment} {q a : Moment} (h : SetBy P senderId secret lastEpoch ms q a) :
    q ∈ ms ∧ a ∈ ms := by
  obtain ⟨ps, qs, buf, rfl, hq, -⟩ := h
  exact ⟨List.mem_append_left _ hq, List.mem_append_right _ List.mem_cons_self⟩

/-- A moment other than a boot leaves the delivery the last one. -/
private theorem SetBy.concat {ms : List Moment} {q a : Moment}
    (h : SetBy P senderId secret lastEpoch ms q a) (hboot : m.act ≠ .boot) :
    SetBy P senderId secret lastEpoch (ms ++ [m]) q a := by
  obtain ⟨ps, qs, buf, rfl, hq, hann, hdel, hdec, hans, hqs⟩ := h
  refine ⟨ps, qs ++ [m], buf, by simp, hq, hann, hdel, hdec, hans, fun k hk => ?_⟩
  rcases List.mem_append.mp hk with hk | hk
  · exact hqs k hk
  · rwa [List.mem_singleton.mp hk]

/-- A moment that leaves the clock as it is, other than a boot, keeps the invariant. -/
theorem Behind.keep {ms : List Moment} (h : Behind P senderId secret lastEpoch ms)
    (hm : Steady lastEpoch ms m)
    (hepoch : (clockAfter P senderId secret lastEpoch (ms ++ [m])).lastEpoch =
      (clockAfter P senderId secret lastEpoch ms).lastEpoch)
    (hvalid : (clockAfter P senderId secret lastEpoch (ms ++ [m])).valid = true → m.act ≠ .boot ∧
      clockAfter P senderId secret lastEpoch (ms ++ [m]) =
        clockAfter P senderId secret lastEpoch ms) :
    Behind P senderId secret lastEpoch (ms ++ [m]) := by
  refine ⟨h.timed.concat hm, ?_, ?_⟩
  · rw [hepoch]
    rcases h.persisted with heq | ⟨q, hq, hann, heq⟩
    · exact .inl heq
    · exact .inr ⟨q, List.mem_append_left _ hq, hann, heq⟩
  · intro hc
    obtain ⟨hboot, hsame⟩ := hvalid hc
    rw [hsame] at hc ⊢
    obtain ⟨q, a, hset, hqa, hcorr, hrun⟩ := h.recovered hc
    refine ⟨q, a, hset.concat hboot, hqa, hcorr, fun p hp => ?_⟩
    obtain rfl : m = p := by simpa using hp
    obtain ⟨p, hp⟩ := exists_getLast? hset.mem.2
    obtain ⟨hraw, hrate⟩ := hrun p hp
    obtain ⟨hraw', hrate'⟩ := (hm.2.2 p hp).2 hboot
    omega

/-- One moment keeps the invariant. -/
theorem Behind.step {ms : List Moment} (h : Behind P senderId secret lastEpoch ms)
    (hm : Fair P senderId secret lastEpoch ms m) :
    Behind P senderId secret lastEpoch (ms ++ [m]) := by
  obtain ⟨hsteady, hmac⟩ := hm
  have hafter : clockAfter P senderId secret lastEpoch (ms ++ [m]) = _ := clockAfter_concat ms m
  rw [Recovery.step] at hafter
  cases hact : m.act with
  | announce | now =>
    rw [hact] at hafter
    exact h.keep hsteady (by rw [hafter]) fun _ => ⟨by rw [hact]; nofun, hafter⟩
  | boot =>
    rw [hact] at hafter
    refine h.keep hsteady (by rw [hafter]; rfl) fun hc => ?_
    rw [hafter] at hc
    cases hc
  | deliver buf =>
    rw [hact] at hafter
    dsimp only at hafter
    have hsame : clockAfter P senderId secret lastEpoch (ms ++ [m]) =
        clockAfter P senderId secret lastEpoch ms →
          Behind P senderId secret lastEpoch (ms ++ [m]) := fun hsame =>
      h.keep hsteady (by rw [hsame]) fun _ => ⟨by rw [hact]; nofun, hsame⟩
    rw [receive] at hafter
    rcases hdec : decodeTimeAnnounce P buf senderId secret with e | t
    · rw [hdec] at hafter
      exact hsame hafter
    · rw [hdec] at hafter
      dsimp only at hafter
      rcases hans : ((clockAfter P senderId secret lastEpoch ms).acceptTimeAnnounce t m.raw).1
        with e | u
      · exact hsame (hafter.trans (acceptTimeAnnounce_of_error hans))
      · -- set by an announcement of an earlier time
        obtain ⟨q, hq, hann, rfl⟩ := hmac.exists_announced hact hdec
        obtain ⟨-, hepoch, hcorr⟩ := acceptTimeAnnounce_of_ok hans
        refine ⟨h.timed.concat hsteady, .inr ⟨q, List.mem_append_left _ hq, hann, ?_⟩,
          fun _ => ⟨q, m, ⟨ms, [], buf, rfl, hq, hann, hact, hdec, ?_, List.forall_mem_nil _⟩,
            h.timed.le_of_steady hsteady q hq, by rw [hafter, hcorr], fun p hp => ?_⟩⟩
        · rw [hafter]
          exact hepoch (h.timed.bounded q hq).2
        · rw [Recovery.step, hact]
          dsimp only
          rw [receive, hdec]
          exact congrArg Answer.delivered hans
        · obtain rfl : m = p := by simpa using hp
          omega

private theorem behind_final (h : Guarded (Fair P senderId secret lastEpoch) pre) :
    Behind P senderId secret lastEpoch pre := by
  induction pre using List.reverseRecOn with
  | nil => exact behind_start
  | append_singleton pre m ih =>
    obtain ⟨hpre, hm⟩ := guarded_concat.mp h
    exact (ih hpre).step hm

/-- The persisted epoch is not ahead of the collector's clock. -/
private theorem Behind.floor_le {ms : List Moment} (h : Behind P senderId secret lastEpoch ms)
    (hm : Steady lastEpoch ms m) :
    ((clockAfter P senderId secret lastEpoch ms).lastEpoch.toNat * 128 : ℤ) ≤ m.time.toInt := by
  rcases h.persisted with heq | ⟨q, hq, -, heq⟩
  · rw [heq]
    exact hm.1
  · have := h.timed.le_of_steady hm q hq
    omega

/-! ### Reading the clock -/

/-- The corrected clock, as long as the platform clock runs forward. -/
private theorem toInt_corrected {t raw raw' : Int64} (hpos : 0 ≤ t.toInt)
    (hsmall : t.toInt < (2 ^ 39 : ℕ))
    (hle : raw.toInt ≤ raw'.toInt) (helapsed : raw'.toInt - raw.toInt < (2 ^ 39 : ℕ)) :
    (raw' + (t - raw)).toInt = t.toInt + (raw'.toInt - raw.toInt) := by
  rw [Int64.toInt_add, Int64.toInt_sub, Int.add_bmod_bmod,
    show raw'.toInt + (t.toInt - raw.toInt) = t.toInt + (raw'.toInt - raw.toInt) by omega]
  exact Int.bmod_eq_of_le (by omega) (by omega)

private theorem toNat_epochIdAt {t : Int64} (hpos : 0 ≤ t.toInt) (hsmall : t.toInt < (2 ^ 39 : ℕ)) :
    ((epochIdAt t.toUInt64).toNat : ℤ) = t.toInt / 128 := by
  have hnat : t.toUInt64.toNat = t.toInt.toNat :=
    Int64.toNat_toUInt64_of_le (Int64.le_iff_toInt_le.mpr hpos)
  rw [epochIdAt, UInt64.toNat_toUInt32, UInt64.toNat_div, hnat,
    show epochSecs.toNat = 128 from rfl]
  omega

/-- **The recovered clock lags, and is never ahead.** Whatever the network does, a clock that can
be read was set by the announcement that was accepted last, since the last boot, and what it shows
lags behind the collector's clock by the time that announcement was held back and what the platform
clock has lost since. If that is no more than an epoch, a datagram dated by it is of an epoch the
collector accepts. -/
theorem read_eq {v : Int64} (h : Guarded (Fair P senderId secret lastEpoch) (pre ++ [m]))
    (hread : (step P senderId secret (clockAfter P senderId secret lastEpoch pre) m).1 =
      .read (.ok v)) :
    ∃ q a, SetBy P senderId secret lastEpoch pre q a ∧ q.time.toInt ≤ a.time.toInt ∧
      m.time.toInt - v.toInt = (a.time.toInt - q.time.toInt) +
        ((m.time.toInt - a.time.toInt) - (m.raw.toInt - a.raw.toInt)) ∧
      v.toInt ≤ m.time.toInt ∧ (m.time.toInt - v.toInt ≤ 128 →
        InWindow (epochIdAt m.time.toUInt64) (epochIdAt v.toUInt64)) := by
  obtain ⟨hpre, hsteady, -⟩ := guarded_concat.mp h
  have hb := behind_final hpre
  -- only a read is answered with a time
  have hnow : m.act = .now ∧ (clockAfter P senderId secret lastEpoch pre).now m.raw = .ok v := by
    rw [step] at hread
    cases hact : m.act with
    | now =>
      rw [hact] at hread
      exact ⟨rfl, Answer.read.inj hread⟩
    | announce | boot | deliver buf =>
      rw [hact] at hread
      cases hread
  obtain ⟨hact, hnow⟩ := hnow
  rw [NodeClock.now] at hnow
  split_ifs at hnow with hvalid
  obtain rfl := Except.ok.inj hnow
  obtain ⟨q, a, hset, hqa, hcorr, hrun⟩ := hb.recovered (by simpa using hvalid)
  obtain ⟨hq, ha⟩ := hset.mem
  obtain ⟨p, hp⟩ := exists_getLast? ha
  -- from the delivery to the moment before, and from there to this one
  obtain ⟨hraw, hrate⟩ := hrun p hp
  obtain ⟨-, hstep⟩ := hsteady.2.2 p hp
  obtain ⟨hraw', hrate'⟩ := hstep (by rw [hact]; decide)
  obtain ⟨hqlow, hqhigh⟩ := hb.timed.bounded q hq
  obtain ⟨halow, -⟩ := hb.timed.bounded a ha
  obtain ⟨hmlow, hmhigh, -⟩ := hsteady
  have hshown : (m.raw + (clockAfter P senderId secret lastEpoch pre).correction).toInt =
      q.time.toInt + (m.raw.toInt - a.raw.toInt) := by
    rw [hcorr]
    exact toInt_corrected (by omega) hqhigh (by omega) (by omega)
  refine ⟨q, a, hset, hqa, by omega, by omega, fun hlag => ?_⟩
  have hepoch := toNat_epochIdAt (t := m.time) (by omega) hmhigh
  have hepoch' := toNat_epochIdAt
    (t := m.raw + (clockAfter P senderId secret lastEpoch pre).correction) (by omega) (by omega)
  exact ⟨UInt32.le_iff_toNat_le.mpr (by omega), by omega⟩

/-- **No lockout.** Whatever the network has done, the epoch a node persists is not ahead of the
collector's clock, with a clock or without. So an announcement that is handed over at once is taken
by a node exactly if it has no clock and the announcement does not come in the first second of the
epoch persisted, and the node then reads the collector's time. -/
theorem accept_iff_of_fresh (h : Guarded (Fair P senderId secret lastEpoch) pre)
    (hsteady : Steady lastEpoch pre m) :
    (clockAfter P senderId secret lastEpoch pre).lastEpoch.toNat * 128 ≤ m.time.toInt ∧
      ∀ buf, m.act = .deliver buf → Datagram.timeAnnounce P senderId m.time secret = .ok buf →
        ((step P senderId secret (clockAfter P senderId secret lastEpoch pre) m).1 =
            .delivered (.ok ()) ↔
          (clockAfter P senderId secret lastEpoch pre).valid = false ∧
            (clockAfter P senderId secret lastEpoch pre).lastEpoch.toNat * 128 ≠ m.time.toInt) ∧
        ((step P senderId secret (clockAfter P senderId secret lastEpoch pre) m).1 =
            .delivered (.ok ()) →
          (clockAfter P senderId secret lastEpoch (pre ++ [m])).now m.raw = .ok m.time) := by
  have hfloor := (behind_final h).floor_le hsteady
  refine ⟨hfloor, fun buf hact hfresh => ?_⟩
  rw [clockAfter_concat]
  generalize clockAfter P senderId secret lastEpoch pre = c at hfloor
  have hstep : step P senderId secret c m =
      (.delivered (c.acceptTimeAnnounce m.time m.raw).1,
        (c.acceptTimeAnnounce m.time m.raw).2) := by
    rw [step, hact]
    dsimp only
    rw [receive_timeAnnounce hfresh]
  rw [hstep]
  refine ⟨?_, ?_⟩
  · rw [Answer.delivered.injEq, acceptTimeAnnounce_eq_ok_iff]
    exact ⟨fun h => ⟨h.1, by omega⟩, fun h => ⟨h.1, by omega⟩⟩
  · intro hok
    rw [acceptTimeAnnounce_snd_of_ok (Answer.delivered.inj hok)]
    change Except.ok (m.raw + (m.time - m.raw)) = .ok m.time
    rw [Int64.add_comm, Int64.sub_add_cancel]

/-! ### The frozen announcement -/

/-- Primitives that know the time key and the HMAC of the announcement of
`docs/test-vectors.txt`. -/
def vectorTimePrimitives : Primitives :=
  .ofTable #v[0x82, 0x78, 0x43, 0x40, 0xFE, 0xCD, 0xB9, 0x09, 0x03, 0x51, 0xC5, 0x7C, 0x1C, 0x98,
    0x70, 0x29, 0x71, 0x30, 0xB5, 0x67, 0x71, 0x03, 0xF2, 0xDD, 0x82, 0xFB, 0x17, 0x59, 0x50, 0x64,
    0x89, 0x5E] [([0x31, 0x10, 0x00, 0x00, 0x00, 0x00, 0x00, 0x00, 0x00, 0x12, 0x34, 0x56, 0x78,
    0x00, 0x00, 0x00, 0x00, 0x65, 0x53, 0xF1, 0x00],
    #v[0xA0, 0x9D, 0x8C, 0x56, 0x39, 0x3A, 0x50, 0x47, 0x1E, 0x3D, 0x33, 0x99, 0x5F, 0xE6, 0xEA,
      0xB6, 0x86, 0xCD, 0x76, 0xA4, 0x3B, 0xF0, 0x99, 0x12, 0xE5, 0xEE, 0x81, 0xFF, 0x13, 0x09,
      0x6B, 0x53])]

/-- The frozen `TIME_ANNOUNCE` of the vector's sender. -/
def vectorAnnounce : Bytes :=
  [0x31, 0x10, 0x00, 0x00, 0x00, 0x12, 0x34, 0x56, 0x78, 0x00, 0x00, 0x00, 0x00, 0x65, 0x53, 0xF1,
    0x00, 0xA0, 0x9D, 0x8C, 0x56, 0x39, 0x3A, 0x50, 0x47]

/-- The announcement is made, and held back for 30 seconds. -/
def vectorMoments : List Moment :=
  [⟨1700000000, 5, .announce⟩, ⟨1700000030, 30, .deliver vectorAnnounce⟩]

private theorem fair_deliver {pre : List Moment} {m : Moment}
    (hact : m.act = .deliver vectorAnnounce)
    (hann : ⟨1700000000, 5, .announce⟩ ∈ pre) (hsteady : Steady 13281249 pre m) :
    Fair vectorTimePrimitives 0x12345678 vectorSecret 13281249 pre m := by
  refine ⟨hsteady, fun buf t hbuf _ => ⟨_, hann, rfl, ?_⟩⟩
  obtain rfl := Act.deliver.inj (hact.symm.trans hbuf)
  decide

private theorem fair_vectorMoments :
    Guarded (Fair vectorTimePrimitives 0x12345678 vectorSecret 13281249) vectorMoments := by
  show Guarded _ ([] ++ [_] ++ [_])
  refine guarded_concat.mpr ⟨guarded_concat.mpr ⟨fun n => n.elim0, by decide, ?_⟩,
    fair_deliver rfl (by decide) (by decide)⟩
  intro buf t hbuf
  cases hbuf

theorem read_eq_vector :
    InWindow (epochIdAt (1700000050 : Int64).toUInt64)
      (epochIdAt (1700000020 : Int64).toUInt64) := by
  have hfair : Guarded (Fair vectorTimePrimitives 0x12345678 vectorSecret 13281249)
      (vectorMoments ++ [⟨1700000050, 50, .now⟩]) := by
    refine guarded_concat.mpr ⟨fair_vectorMoments, by decide, ?_⟩
    intro buf t hbuf
    cases hbuf
  have hread : (step vectorTimePrimitives 0x12345678 vectorSecret
      (clockAfter vectorTimePrimitives 0x12345678 vectorSecret 13281249 vectorMoments)
      ⟨1700000050, 50, .now⟩).1 = .read (.ok 1700000020) := by decide
  obtain ⟨-, -, -, -, -, -, hin⟩ := read_eq hfair hread
  exact hin (by decide)

theorem accept_iff_of_fresh_vector :
    (step vectorTimePrimitives 0x12345678 vectorSecret
      (clockAfter vectorTimePrimitives 0x12345678 vectorSecret 13281249
        [⟨1700000000, 5, .announce⟩]) ⟨1700000000, 5, .deliver vectorAnnounce⟩).1 =
      .delivered (.ok ()) := by
  have hfair : Guarded (Fair vectorTimePrimitives 0x12345678 vectorSecret 13281249)
      [⟨1700000000, 5, .announce⟩] := fair_vectorMoments.take 1
  exact ((accept_iff_of_fresh hfair (by decide)).2 vectorAnnounce rfl (by decide)).1.mpr
    (by decide)

end Recovery

end Catp
