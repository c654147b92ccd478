import Catp.Node.Clock

/-!
# The floor of a node's clock

`accept_time_announce` takes a time to its epoch by a narrowing cast, and subtracts on `i64`. The
announced time itself is any `i64`: `decode_time_announce` checks its MAC and nothing else. So an
announcement from 2^39 on is accepted and stores an epoch that has wrapped, which may lie below
the one before. `exact_iff` says which announcements are applied exactly, and
`exact_iff_and_lastEpoch_le` that the persisted epoch never decreases over a run of these.

`Exact` says what an accepted announcement is meant to do: the stored epoch is that of the
asserted time, without wrapping, and the correction is the true difference between the asserted
time and the platform's clock. `Fits` is the condition under which the code does that, in terms of
the clock before the call, the asserted time and the raw reading: an announcement that would be
accepted lies below `2 ^ 39`, and the difference fits in an `i64`.

Over runs, `AllFit` asks the condition of every announcement. Boots, requests and readings of the
clock are free, and an announcement that is refused fits whatever it asserts. `exact_wraps` is the
announcement at which the persisted epoch falls to 0.
-/

namespace Catp

open Transducer

namespace NodeClock

/-- What an announcement is to do to a clock, in integers. -/
structure Exact (c : NodeClock) (asserted raw : Int64) : Prop where
  accepts_iff : (c.acceptTimeAnnounce asserted raw).1 = .ok () ↔
    c.valid = false ∧ (c.lastEpoch.toNat * 128 : ℤ) < asserted.toInt
  of_error : ∀ e, (c.acceptTimeAnnounce asserted raw).1 = .error e →
    (c.acceptTimeAnnounce asserted raw).2 = c
  of_ok : (c.acceptTimeAnnounce asserted raw).1 = .ok () →
    ((c.acceptTimeAnnounce asserted raw).2.lastEpoch.toNat : ℤ) = asserted.toInt / 128 ∧
      c.lastEpoch ≤ (c.acceptTimeAnnounce asserted raw).2.lastEpoch ∧
      (c.acceptTimeAnnounce asserted raw).2.correction.toInt = asserted.toInt - raw.toInt

/-- A time that the clock takes has an epoch of 32 bits, and its distance from the platform clock
is an `i64`. -/
def Fits (c : NodeClock) (asserted raw : Int64) : Prop :=
  c.valid = false → (c.lastEpoch.toNat * 128 : ℤ) < asserted.toInt →
    asserted.toInt < (2 ^ 39 : ℕ) ∧
      -(2 ^ 63 : ℕ) ≤ asserted.toInt - raw.toInt ∧ asserted.toInt - raw.toInt < (2 ^ 63 : ℕ)

instance (c : NodeClock) (asserted raw : Int64) : Decidable (Fits c asserted raw) :=
  inferInstanceAs (Decidable (_ → _ → _))

/-- Subtraction on `i64` is exact when the difference is one. -/
theorem toInt_sub_eq_iff {a b : Int64} : (a - b).toInt = a.toInt - b.toInt ↔
    -(2 ^ 63 : ℕ) ≤ a.toInt - b.toInt ∧ a.toInt - b.toInt < (2 ^ 63 : ℕ) := by
  constructor
  · intro h
    have hle := (a - b).le_toInt
    have hlt := (a - b).toInt_lt
    omega
  · rintro ⟨hle, hlt⟩
    rw [Int64.toInt_sub]
    exact Int.bmod_eq_of_le (by omega) (by omega)

/-- **One announcement** is applied exactly when its time fits. -/
theorem exact_iff {c : NodeClock} {asserted raw : Int64} :
    Exact c asserted raw ↔ Fits c asserted raw := by
  constructor
  · intro h hvalid hbeyond
    have hok := h.accepts_iff.mpr ⟨hvalid, hbeyond⟩
    obtain ⟨hepoch, -, hcorr⟩ := h.of_ok hok
    have hlt := (c.acceptTimeAnnounce asserted raw).2.lastEpoch.toNat_lt
    rw [(acceptTimeAnnounce_of_ok hok).2.2, toInt_sub_eq_iff] at hcorr
    exact ⟨by omega, hcorr⟩
  · intro h
    refine ⟨acceptTimeAnnounce_eq_ok_iff, fun _ => acceptTimeAnnounce_of_error, fun hok => ?_⟩
    obtain ⟨hvalid, hbeyond⟩ := acceptTimeAnnounce_eq_ok_iff.mp hok
    obtain ⟨hsmall, hfits⟩ := h hvalid hbeyond
    obtain ⟨-, hepoch, hcorr⟩ := acceptTimeAnnounce_of_ok hok
    refine ⟨hepoch hsmall, ?_, ?_⟩
    · have := hepoch hsmall
      rw [UInt32.le_iff_toNat_le]
      omega
    · rw [hcorr, toInt_sub_eq_iff]
      exact hfits

/-- An announcement fits the clock it is delivered to. -/
def Event.Fits (c : NodeClock) : Event → Prop
  | .announce t raw => NodeClock.Fits c t raw
  | _ => True

instance (c : NodeClock) : (e : Event) → Decidable (e.Fits c)
  | .announce t raw => inferInstanceAs (Decidable (NodeClock.Fits c t raw))
  | .boot | .request _ | .now _ => isTrue trivial

/-- Every announcement of a run fits. -/
def AllFit (c : NodeClock) (is : List Event) : Prop :=
  ∀ n : Fin is.length, (is[n]).Fits (final step c (is.take n))

instance (c : NodeClock) (is : List Event) : Decidable (AllFit c is) :=
  inferInstanceAs (Decidable (∀ _ : Fin _, _))

theorem AllFit.event {c : NodeClock} {pre post : List Event} {e : Event}
    (h : AllFit c (pre ++ e :: post)) : e.Fits (final step c pre) := by
  simpa using h ⟨pre.length, by simp⟩

/-- The times accepted from announcements that fit are small. -/
private theorem AllFit.smallTimes {c : NodeClock} {is : List Event} (h : AllFit c is) :
    SmallTimes (trace step c is) := by
  rintro ⟨e, a⟩ hp t ht
  obtain ⟨pre, post, rfl, ha⟩ := exists_of_mem_trace step c hp
  cases e with
  | boot | request _ | now _ => simp [acceptedTime] at ht
  | announce t' raw =>
    rcases hans : ((final step c pre).acceptTimeAnnounce t' raw).1 with err | u
    · rw [show a = .announced (.error err) from ha.trans (congrArg Answer.announced hans)] at ht
      simp [acceptedTime] at ht
    · rw [show a = .announced (.ok u) from ha.trans (congrArg Answer.announced hans)] at ht
      obtain rfl : t' = t := Option.some.inj ht
      obtain ⟨hvalid, hbeyond⟩ := acceptTimeAnnounce_eq_ok_iff.mp hans
      exact (h.event hvalid hbeyond).1

/-- **The floor is exact for the announcements that fit**, and never decreases over a run of
cold starts and of these. -/
theorem exact_iff_and_lastEpoch_le (c : NodeClock) :
    (∀ asserted raw, Exact c asserted raw ↔ Fits c asserted raw) ∧
      ∀ is, AllFit c is → ∀ pre mid post, is = pre ++ mid ++ post →
        (final step c pre).lastEpoch ≤ (final step c (pre ++ mid)).lastEpoch := by
  refine ⟨fun _ _ => exact_iff, fun is hfit pre mid post his => ?_⟩
  have hmid : SmallTimes (trace step (final step c pre) mid) := by
    intro p hp
    refine hfit.smallTimes p ?_
    rw [his, trace_append, trace_append]
    exact List.mem_append_left _ (List.mem_append_right _ hp)
  rw [final_append, UInt32.le_iff_toNat_le]
  exact lastEpoch_le_final hmid

/-- A node accepts the time of a later epoch, boots, and is announced a time it refuses. -/
theorem exact_iff_and_lastEpoch_le_boot :
    (final step (clockless 1000) [.announce 130000 5]).lastEpoch ≤
      (final step (clockless 1000) [.announce 130000 5, .boot, .announce 128050 0]).lastEpoch :=
  (exact_iff_and_lastEpoch_le (clockless 1000)).2 [.announce 130000 5, .boot, .announce 128050 0]
    (by decide) [.announce 130000 5] [.boot, .announce 128050 0] [] rfl

/-- An announcement of 2^39 seconds takes a node in epoch 1000 back to epoch 0. -/
theorem exact_wraps : ¬(∀ c asserted raw, Exact c asserted raw) ∧
    (final step (clockless 1000) [.boot, .announce (2 ^ 39) 0]).lastEpoch < 1000 := by
  refine ⟨fun h => ?_, by decide⟩
  exact absurd ((h (clockless 1000) (2 ^ 39) 0).of_ok (by decide)).1 (by decide)

end NodeClock

end Catp
