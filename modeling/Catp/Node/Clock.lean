import Catp.Core.Epoch
import Catp.Lib.Transducer

/-!
# The clock of a node

`NodeClock` of `src/peer.rs`: cold start and time recovery. The arithmetic on `i64` wraps, as in
a release build.

A node lives through many boots, each starting from the one value it persists, `lastEpoch`. The
run of a node is a sequence of `Event`s in which a boot may come anywhere. `lastEpoch` never
decreases over a run (`lastEpoch_le_final`), and it is the epoch of the last time accepted. So
an announcement can take a node back only within that epoch.

* `acceptTimeAnnounce_eq_ok_iff`: exactly when an announcement is accepted. The node has no clock,
  and the asserted time lies above the floor, the first second of the persisted epoch.
* `acceptTimeAnnounce_of_ok`, `acceptTimeAnnounce_of_error`: what is stored then, and that a
  refusal stores nothing.
* `accepted_beyond_epoch`: a second time is accepted only after a boot, and only above the first
  second of the epoch of the first one; so it lies above the first second of the epoch of whatever
  the clock showed in between, as long as that was the same epoch. Once the clock has run on into
  a later epoch, the second time may lie before what it showed (`accepted_again`).

**Integers.** `Int64` wraps. Each use is paired with a lemma that it does not wrap on the times at
hand (`toNat_epoch`), and what happens beyond those is the subject of the module on the floor.
-/

namespace Catp

open Transducer

/-- First `TIME_REQUEST` retry interval, seconds. -/
def timeRequestBaseSecs : Int64 := 2

/-- Ceiling for `TIME_REQUEST` backoff, seconds. -/
def timeRequestMaxSecs : Int64 := 3600

/-- Node-side clock, including the cold-start path. -/
structure NodeClock where
  valid : Bool
  /-- The single value a node persists. -/
  lastEpoch : UInt32
  correction : Int64
  nextRequestAt : Int64
  requestBackoff : Int64
  deriving DecidableEq, Repr

namespace NodeClock

/-- A node that booted with no usable clock. -/
def clockless (lastEpoch : UInt32) : NodeClock where
  valid := false
  lastEpoch
  correction := 0
  nextRequestAt := Int64.minValue
  requestBackoff := timeRequestBaseSecs

/-- A node with an authenticated time source. -/
def synced (lastEpoch : UInt32) : NodeClock := { clockless lastEpoch with valid := true }

/-- Whether the backoff allows another time request now. A node with a clock makes none. -/
def mayRequestTime (c : NodeClock) (nowMonotonic : Int64) : Bool :=
  !c.valid && nowMonotonic ≥ c.nextRequestAt

/-- Record that a `TIME_REQUEST` was sent, and double the backoff. -/
def recordTimeRequest (c : NodeClock) (nowMonotonic : Int64) : NodeClock :=
  { c with
    nextRequestAt := Int64.ofIntClamp (nowMonotonic.toInt + c.requestBackoff.toInt)
    requestBackoff := min (c.requestBackoff * 2) timeRequestMaxSecs }

/-- `last_epoch as i64 * EPOCH_SECS as i64`. -/
def floor (c : NodeClock) : Int64 := c.lastEpoch.toUInt64.toInt64 * epochSecs.toInt64

/-- Apply an authenticated `TIME_ANNOUNCE`. -/
def acceptTimeAnnounce (c : NodeClock) (asserted rawNow : Int64) : Except Error Unit × NodeClock :=
  if c.valid then (.error .clockAlreadyValid, c)
  else if asserted ≤ c.floor then (.error (.timeRollback asserted c.floor), c)
  else
    (.ok (), { c with
      correction := asserted - rawNow
      lastEpoch := (asserted / epochSecs.toInt64).toUInt64.toUInt32
      valid := true
      requestBackoff := timeRequestBaseSecs })

/-- Current time, if cold start has completed. -/
def now (c : NodeClock) (rawNow : Int64) : Except Error Int64 :=
  if !c.valid then .error .noClock else .ok (rawNow + c.correction)

/-! ### Conversions that change no value -/

private theorem toInt_toInt64 {x : UInt64} (h : x.toNat < 2 ^ 63) : x.toInt64.toInt = x.toNat := by
  rw [← Int64.toInt_toBitVec, UInt64.toBitVec_toInt64, BitVec.toInt_eq_toNat_of_lt]
  · rfl
  · rw [UInt64.toNat_toBitVec]
    omega

private theorem toNat_toUInt64 {x : Int64} (h : 0 ≤ x.toInt) :
    (x.toUInt64.toNat : ℤ) = x.toInt := by
  have hlt := x.toInt_lt
  have hnat := x.toBitVec.isLt
  have hbmod : x.toInt = (BitVec.toNat x.toBitVec : ℤ).bmod (2 ^ 64) := by
    rw [← Int64.toInt_toBitVec, BitVec.toInt_eq_toNat_bmod]
  change (BitVec.toNat x.toBitVec : ℤ) = x.toInt
  rw [Int.bmod_def] at hbmod
  split_ifs at hbmod <;> omega

private theorem toInt_floor (c : NodeClock) : c.floor.toInt = c.lastEpoch.toNat * 128 := by
  have hlt := c.lastEpoch.toNat_lt
  have hmul : (c.lastEpoch.toUInt64 * epochSecs).toNat = c.lastEpoch.toNat * 128 := by
    rw [UInt64.toNat_mul, UInt32.toNat_toUInt64, show epochSecs.toNat = 128 from rfl]
    exact Nat.mod_eq_of_lt (by omega)
  rw [floor, ← UInt64.toInt64_mul, toInt_toInt64, hmul]
  · rfl
  · omega

/-- The epoch of a time, narrowed to 32 bits. -/
private theorem toNat_epoch_mod {t : Int64} (hpos : 0 ≤ t.toInt) :
    ((t / epochSecs.toInt64).toUInt64.toUInt32.toNat : ℤ) = t.toInt / 128 % (2 ^ 32 : ℕ) := by
  have hne : t ≠ Int64.minValue := by
    rintro rfl
    exact absurd hpos (by decide)
  have hdiv : (t / epochSecs.toInt64).toInt = t.toInt / 128 := by
    rw [Int64.toInt_div_of_ne_left _ _ hne, Int.tdiv_eq_ediv_of_nonneg hpos]
    rfl
  have hnat := toNat_toUInt64 (x := t / epochSecs.toInt64) (by omega)
  rw [UInt64.toNat_toUInt32, Int.natCast_mod, hnat, hdiv]

/-- The epoch of a time that fits 39 bits is not narrowed. -/
theorem toNat_epoch {t : Int64} (hpos : 0 ≤ t.toInt) (hlt : t.toInt < (2 ^ 39 : ℕ)) :
    ((t / epochSecs.toInt64).toUInt64.toUInt32.toNat : ℤ) = t.toInt / 128 := by
  rw [toNat_epoch_mod hpos]
  omega

/-! ### What an announcement does -/

variable {c : NodeClock} {asserted raw : Int64}

/-- **Acceptance.** A node accepts a time when it has no clock and the time is strictly beyond
the start of its last epoch. -/
theorem acceptTimeAnnounce_eq_ok_iff : (c.acceptTimeAnnounce asserted raw).1 = .ok () ↔
    c.valid = false ∧ (c.lastEpoch.toNat * 128 : ℤ) < asserted.toInt := by
  rw [acceptTimeAnnounce]
  split_ifs with hvalid hfloor
  · exact ⟨nofun, fun h => absurd (hvalid.symm.trans h.1) nofun⟩
  · rw [Int64.le_iff_toInt_le, toInt_floor] at hfloor
    exact ⟨nofun, fun h => absurd h.2 (by omega)⟩
  · rw [Int64.le_iff_toInt_le, toInt_floor] at hfloor
    exact ⟨fun _ => ⟨Bool.eq_false_iff.mpr hvalid, by omega⟩, fun _ => rfl⟩

/-- What an accepted time changes. -/
theorem acceptTimeAnnounce_snd_of_ok (h : (c.acceptTimeAnnounce asserted raw).1 = .ok ()) :
    (c.acceptTimeAnnounce asserted raw).2 = { c with
      correction := asserted - raw
      lastEpoch := (asserted / epochSecs.toInt64).toUInt64.toUInt32
      valid := true
      requestBackoff := timeRequestBaseSecs } := by
  rw [acceptTimeAnnounce] at h ⊢
  split_ifs at h ⊢
  rfl

/-- An accepted time makes the clock valid and its epoch the last one. -/
theorem acceptTimeAnnounce_of_ok (h : (c.acceptTimeAnnounce asserted raw).1 = .ok ()) :
    (c.acceptTimeAnnounce asserted raw).2.valid = true ∧
      (asserted.toInt < (2 ^ 39 : ℕ) →
        ((c.acceptTimeAnnounce asserted raw).2.lastEpoch.toNat : ℤ) = asserted.toInt / 128) ∧
      (c.acceptTimeAnnounce asserted raw).2.correction = asserted - raw := by
  have hbeyond := (acceptTimeAnnounce_eq_ok_iff.mp h).2
  rw [acceptTimeAnnounce_snd_of_ok h]
  exact ⟨rfl, fun hlt => toNat_epoch (by omega) hlt, rfl⟩

/-- A refused time changes nothing. -/
theorem acceptTimeAnnounce_of_error {e : Error}
    (h : (c.acceptTimeAnnounce asserted raw).1 = .error e) :
    (c.acceptTimeAnnounce asserted raw).2 = c := by
  rw [acceptTimeAnnounce] at h ⊢
  split_ifs at h ⊢
  · rfl
  · rfl

/-! ### Runs over many boots -/

/-- What happens to a node. -/
inductive Event where
  /-- A cold start from the persisted value. -/
  | boot
  /-- The node asks for the time, if it may. -/
  | request (nowMonotonic : Int64)
  /-- An announcement with a genuine MAC is delivered. -/
  | announce (asserted rawNow : Int64)
  /-- The clock is read. -/
  | now (rawNow : Int64)
  deriving DecidableEq, Repr

/-- What an event draws from the node. -/
inductive Answer where
  | booted
  | requested (sent : Bool)
  | announced (result : Except Error Unit)
  | read (result : Except Error Int64)
  deriving DecidableEq

/-- One event of a node's life. -/
def step (c : NodeClock) : Event → Answer × NodeClock
  | .boot => (.booted, clockless c.lastEpoch)
  | .request t =>
    if c.mayRequestTime t then (.requested true, c.recordTimeRequest t) else (.requested false, c)
  | .announce t raw => (.announced (c.acceptTimeAnnounce t raw).1, (c.acceptTimeAnnounce t raw).2)
  | .now raw => (.read (c.now raw), c)

/-- The time accepted by an event of a run. -/
def acceptedTime : Event × Answer → Option Int64
  | (.announce t _, .announced (.ok ())) => some t
  | _ => none

/-- The times accepted in a run fit 39 bits, so that no epoch is narrowed. -/
def SmallTimes (h : List (Event × Answer)) : Prop :=
  ∀ p ∈ h, ∀ t ∈ acceptedTime p, t.toInt < (2 ^ 39 : ℕ)

-- the test over the option, not over all 64-bit values
instance (h : List (Event × Answer)) : Decidable (SmallTimes h) :=
  decidable_of_iff
    (∀ p ∈ h, (acceptedTime p).all (fun t => decide (t.toInt < ((2 ^ 39 : ℕ) : ℤ))) = true)
    (forall₂_congr fun p _ => by cases acceptedTime p <;> simp)

section Steps

variable {e : Event} {is : List Event}

private theorem lastEpoch_le_step
    (h : ∀ t ∈ acceptedTime (e, (c.step e).1), t.toInt < (2 ^ 39 : ℕ)) :
    c.lastEpoch.toNat ≤ (c.step e).2.lastEpoch.toNat := by
  cases e with
  | boot => exact Nat.le_refl _
  | request t =>
    rw [step]
    split_ifs <;> exact Nat.le_refl _
  | now raw => exact Nat.le_refl _
  | announce t raw =>
    rw [step] at h ⊢
    dsimp only at h ⊢
    cases hans : (c.acceptTimeAnnounce t raw).1 with
    | error err => rw [acceptTimeAnnounce_of_error hans]
    | ok u =>
      rw [hans] at h
      -- accepted beyond the start of the last epoch, so in that epoch or a later one
      have hbeyond := (acceptTimeAnnounce_eq_ok_iff.mp hans).2
      have hepoch := (acceptTimeAnnounce_of_ok hans).2.1 (h t rfl)
      omega

theorem lastEpoch_le_final (h : SmallTimes (trace step c is)) :
    c.lastEpoch.toNat ≤ (final step c is).lastEpoch.toNat := by
  induction is generalizing c with
  | nil => exact Nat.le_refl _
  | cons e is ih =>
    obtain ⟨he, his⟩ := List.forall_mem_cons.mp h
    exact (lastEpoch_le_step he).trans (ih his)

/-- Only a boot takes the clock away or moves it. -/
private theorem kept_step (hc : c.valid = true) (he : e ≠ .boot) :
    (c.step e).2.valid = true ∧ (c.step e).2.correction = c.correction := by
  cases e with
  | boot => exact absurd rfl he
  | request t =>
    rw [step]
    split_ifs <;> exact ⟨hc, rfl⟩
  | now raw => exact ⟨hc, rfl⟩
  | announce t raw =>
    rw [step, acceptTimeAnnounce, if_pos hc]
    exact ⟨hc, rfl⟩

private theorem kept_final (hc : c.valid = true) (his : .boot ∉ is) :
    (final step c is).valid = true ∧ (final step c is).correction = c.correction := by
  induction is generalizing c with
  | nil => exact ⟨hc, rfl⟩
  | cons e is ih =>
    rw [List.mem_cons, not_or] at his
    obtain ⟨hvalid, hcorr⟩ := kept_step hc (Ne.symm his.1)
    obtain ⟨hvalid', hcorr'⟩ := ih hvalid his.2
    exact ⟨hvalid', hcorr'.trans hcorr⟩

end Steps

/-- The clock shows the accepted time and what has elapsed since, as long as that fits. -/
private theorem toInt_now {t raw raw' : Int64} (hpos : 0 ≤ t.toInt)
    (hsmall : t.toInt < (2 ^ 39 : ℕ))
    (hle : raw.toInt ≤ raw'.toInt) (helapsed : raw'.toInt - raw.toInt < 128) :
    (raw' + (t - raw)).toInt = t.toInt + (raw'.toInt - raw.toInt) := by
  rw [Int64.toInt_add, Int64.toInt_sub, Int.add_bmod_bmod,
    show raw'.toInt + (t.toInt - raw.toInt) = t.toInt + (raw'.toInt - raw.toInt) by omega]
  exact Int.bmod_eq_of_le (by omega) (by omega)

/-- Until the next boot a node that accepted a time reads its clock with that correction. -/
private theorem read_of_accept {c : NodeClock} {t raw now v : Int64} {is : List Event}
    (hok : (c.acceptTimeAnnounce t raw).1 = .ok ()) (hnone : .boot ∉ is)
    (hread : ((final step (c.step (.announce t raw)).2 is).step (.now now)).1 = .read (.ok v)) :
    now + (t - raw) = v := by
  obtain ⟨hvalid, -, hcorr⟩ := acceptTimeAnnounce_of_ok hok
  obtain ⟨hvalid', hcorr'⟩ := kept_final hvalid hnone
  have hset : (final step (c.step (.announce t raw)).2 is).valid = true := hvalid'
  have hnow := Answer.read.inj hread
  rw [NodeClock.now, hset] at hnow
  rw [← hcorr, ← hcorr']
  exact Except.ok.inj hnow

/-- **An announcement takes a node back only within the epoch it last accepted.** When a time is
accepted after another, there was a cold start in between, and it lies strictly beyond the start
of the epoch of the earlier one. So it lies strictly beyond the start of the epoch of what the
clock showed after the earlier acceptance, until it left that epoch. -/
theorem accepted_beyond_epoch {lastEpoch : UInt32} {pre mid : List Event} {t raw t' raw' : Int64}
    (h : ((final step (clockless lastEpoch) pre).step (.announce t raw)).1 = .announced (.ok ()))
    (h' : ((final step (clockless lastEpoch) (pre ++ .announce t raw :: mid)).step
      (.announce t' raw')).1 = .announced (.ok ()))
    (hsmall : SmallTimes (trace step (clockless lastEpoch) (pre ++ .announce t raw :: mid))) :
    .boot ∈ mid ∧ 128 * (t.toInt / 128) < t'.toInt ∧
      ∀ is now js v, mid = is ++ .now now :: js → .boot ∉ is → raw.toInt ≤ now.toInt →
        t.toInt % 128 + (now.toInt - raw.toInt) < 128 →
        ((final step (clockless lastEpoch) (pre ++ .announce t raw :: is)).step (.now now)).1 =
          .read (.ok v) →
        v.toInt = t.toInt + (now.toInt - raw.toInt) ∧ 128 * (v.toInt / 128) < t'.toInt := by
  have hsmall' : SmallTimes (trace step (final step (clockless lastEpoch) pre)
      (.announce t raw :: mid)) := fun p hp => hsmall p (by
    rw [trace_append]
    exact List.mem_append_right _ hp)
  rw [final_append, final_cons] at h'
  simp only [final_append, final_cons]
  generalize final step (clockless lastEpoch) pre = c at h h' hsmall' ⊢
  obtain ⟨hhead, hrest⟩ := List.forall_mem_cons.mp hsmall'
  have hok : (c.acceptTimeAnnounce t raw).1 = .ok () := Answer.announced.inj h
  have ht : t.toInt < (2 ^ 39 : ℕ) := hhead t (by rw [step, hok]; rfl)
  have hbeyond := (acceptTimeAnnounce_eq_ok_iff.mp hok).2
  obtain ⟨hinvalid, hbeyond'⟩ := acceptTimeAnnounce_eq_ok_iff.mp (Answer.announced.inj h')
  obtain ⟨hvalid, hepoch, -⟩ := acceptTimeAnnounce_of_ok hok
  -- the floor only rises between the two acceptances
  have hlast : (c.acceptTimeAnnounce t raw).2.lastEpoch.toNat ≤
      (final step (c.step (.announce t raw)).2 mid).lastEpoch.toNat := lastEpoch_le_final hrest
  have hlt : 128 * (t.toInt / 128) < t'.toInt := by
    have := hepoch ht
    omega
  refine ⟨?_, hlt, ?_⟩
  · by_contra hnone
    exact absurd ((kept_final hvalid hnone).1.symm.trans hinvalid) nofun
  · intro is now js v _ hnone hle helapsed hread
    have hshown := toInt_now (by omega) ht hle (by omega)
    rw [read_of_accept hok hnone hread] at hshown
    exact ⟨hshown, by omega⟩

/-- A node that booted in epoch 1000 accepts a time of that epoch, runs for 5000 seconds, boots
again and accepts the same announcement: a time no greater than the one accepted before, and
less than what its clock has shown. -/
theorem accepted_again :
    outputs step (clockless 1000) [.announce 128060 0, .now 5000, .boot, .announce 128060 0] =
      [.announced (.ok ()), .read (.ok 133060), .booted, .announced (.ok ())] := by
  decide

theorem accepted_beyond_epoch_again :
    .boot ∈ [Event.now 30, .boot] ∧ 128 * ((128060 : Int64).toInt / 128) < (128001 : Int64).toInt ∧
      ∀ is now js v, [Event.now 30, .boot] = is ++ .now now :: js → .boot ∉ is →
        (0 : Int64).toInt ≤ now.toInt →
        (128060 : Int64).toInt % 128 + (now.toInt - (0 : Int64).toInt) < 128 →
        ((final step (clockless 1000) ([] ++ .announce 128060 0 :: is)).step (.now now)).1 =
          .read (.ok v) →
        v.toInt = (128060 : Int64).toInt + (now.toInt - (0 : Int64).toInt) ∧
          128 * (v.toInt / 128) < (128001 : Int64).toInt :=
  accepted_beyond_epoch (by decide)
    (show (step _ (.announce 128001 0)).1 = .announced (.ok ()) by decide) (by decide)

end NodeClock

end Catp
