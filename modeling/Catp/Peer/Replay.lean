import Catp.Lib.Transducer
import Catp.Peer.State

/-!
# Replay protection over runs

A run is a sequence of `accept` calls with arbitrary buffers. Under any local clock a receiver
`Remembers` what it accepted until a call makes it forget the epoch, so a datagram is accepted a
second time only after such a call. While the local epoch does not decrease it `Refines` the
abstract per-epoch specification: a verified datagram is admitted exactly when it is new and
less than one second behind the newest of its epoch.

* **Any clock.** `Sound` says that every live window tracks some history, and holds after any
  calls (`sound_final`). `Remembers e o` says of one datagram that it is in the history of its
  epoch. A call keeps that unless it `Forgets` the epoch, and while it holds the datagram is not
  accepted (`Remembers.not_accept`). So between two acceptances there is a call that forgets
  (`accepted_twice`): it is received when the acceptance window of the clock is a different one.
* **A clock that does not step back.** Here the histories can be named: they are the offsets
  admitted in the trace (`admittedIn`). `Refines.accept` is one step, `refines_final` the run, and
  `admitted_iff` reads the answer off the specification.

Pruning comes before the tag is checked, so the call that forgets need not carry a valid one.
`accepted_twice_clockSteps` is a run in which it is a forgery: the two deliveries around it are of
the same datagram.
-/

namespace Catp

open Transducer ReplayWindow

namespace PeerState

variable {P : Primitives}

/-- Calls change no configuration. -/
theorem config_final {WORDS : ℕ} {s : PeerState WORDS} (is : List Input) :
    (final (accept P) s is).config = s.config :=
  final_const (f := config) (config_accept P) s is

private theorem words_pos : 0 < defaultWindowWords := by decide

private theorem words_small : defaultWindowWords * 64 < 2 ^ 32 := by decide

/-! ### Any local clock -/

/-- The receiver remembers having accepted the offset `o` in epoch `e`. -/
structure Remembers (e o : UInt32) (s : PeerState defaultWindowWords) : Prop where
  distinct : s.windows.Distinct
  tracked : ∃ H, o ∈ H ∧ (s.windows.live e).Tracks H

/-- Every live window tracks the offsets of some history. -/
structure Sound (s : PeerState defaultWindowWords) : Prop where
  distinct : s.windows.Distinct
  tracked : ∀ e, ∃ H, (s.windows.live e).Tracks H

/-- The windows of a new receiver track nothing. -/
theorem sound_new {config : PeerConfig} {s : PeerState defaultWindowWords}
    (h : new config = .ok s) : Sound s := by
  obtain ⟨-, hws, -, -⟩ := new_eq_ok h
  constructor
  · rw [hws]
    exact Windows.distinct_empty
  · intro e
    rw [hws]
    exact ⟨∅, tracks_new⟩

/-- What a call does to the live windows: at most one of them is asked, and the others stay or
are forgotten. -/
private theorem live_accept {s : PeerState defaultWindowWords} {i : Input} (hd : s.windows.Distinct)
    (e : UInt32) :
    (s.accept P i).2.windows.live e = s.windows.live e ∨
      i.Forgets e ∧ (s.accept P i).2.windows.live e = .new ∨
      ∃ c, verify P i.buf s.config i.localEpoch i.dir = .ok c ∧ c.epochId = e ∧
        (s.accept P i).2.windows.live e
          = ((s.windows.live e).checkAndSet c.header.datagramOffset).2 := by
  cases h : verify P i.buf s.config i.localEpoch i.dir with
  | error err =>
    obtain ⟨ws, heq, -, -, hlive⟩ := acceptInner_of_verify_error hd h
    rw [accept_eq, heq]
    rcases hlive e with hsame | hforgot
    · exact .inl hsame
    · exact .inr (.inl hforgot)
  | ok c =>
    obtain ⟨ws, -, hasked, hlive, heq⟩ := acceptInner_of_verify_ok hd h
    rw [accept_eq, heq]
    by_cases he : e = c.epochId
    · subst he
      exact .inr (.inr ⟨c, rfl, rfl, hasked⟩)
    · rcases hlive e he with hsame | hforgot
      · exact .inl hsame
      · exact .inr (.inl hforgot)

/-- One call on a tracking window leaves a tracking window, of a history that grows. -/
private theorem exists_tracks_checkAndSet {w : ReplayWindow defaultWindowWords} {H : Set UInt32}
    (hw : w.Tracks H) (off : UInt32) : ∃ H', H ⊆ H' ∧ (w.checkAndSet off).2.Tracks H' := by
  rcases checkAndSet_spec words_pos words_small hw off with ⟨-, -, htr⟩ | ⟨heq, -⟩
  · exact ⟨insert off H, Set.subset_insert off H, htr⟩
  · rw [heq]
    exact ⟨H, Set.Subset.refl H, hw⟩

/-- A call leaves windows that track a history. -/
theorem Sound.accept {s : PeerState defaultWindowWords} (h : Sound s) (i : Input) :
    Sound (s.accept P i).2 := by
  refine ⟨(accept_frame h.distinct).2.2, ?_⟩
  intro e
  obtain ⟨H, hH⟩ := h.tracked e
  rcases live_accept h.distinct e with hsame | ⟨-, hnew⟩ | ⟨c, -, -, hasked⟩
  · exact ⟨H, by rwa [hsame]⟩
  · exact ⟨∅, by rw [hnew]; exact tracks_new⟩
  · obtain ⟨H', -, htr⟩ := exists_tracks_checkAndSet hH c.header.datagramOffset
    exact ⟨H', by rwa [hasked]⟩

/-- A call that does not forget the epoch keeps the memory. -/
theorem Remembers.accept {e o : UInt32} {s : PeerState defaultWindowWords} (h : Remembers e o s)
    {i : Input} (hi : ¬i.Forgets e) : Remembers e o (s.accept P i).2 := by
  refine ⟨(accept_frame h.distinct).2.2, ?_⟩
  obtain ⟨H, ho, hH⟩ := h.tracked
  rcases live_accept h.distinct e with hsame | ⟨hforgets, -⟩ | ⟨c, -, -, hasked⟩
  · exact ⟨H, ho, by rwa [hsame]⟩
  · exact absurd hforgets hi
  · obtain ⟨H', hsub, htr⟩ := exists_tracks_checkAndSet hH c.header.datagramOffset
    exact ⟨H', hsub ho, by rwa [hasked]⟩

/-- A run that does not forget the epoch keeps the memory. -/
theorem Remembers.final {e o : UInt32} {s : PeerState defaultWindowWords} (h : Remembers e o s)
    {is : List Input} (his : ∀ i ∈ is, ¬i.Forgets e) :
    Remembers e o (final (PeerState.accept P) s is) := by
  induction is generalizing s with
  | nil => exact h
  | cons i is ih =>
    obtain ⟨hi, hrest⟩ := List.forall_mem_cons.mp his
    exact ih (h.accept hi) hrest

/-- A delivery comes from a verified datagram the window admitted, by framing it. -/
theorem exists_finish_of_accept {s : PeerState defaultWindowWords} {i : Input} {acc : Accepted}
    (hd : s.windows.Distinct) (h : (s.accept P i).1 = .ok acc) :
    ∃ c, verify P i.buf s.config i.localEpoch i.dir = .ok c ∧ c.finish s.config = .ok acc ∧
      ((s.windows.live c.epochId).checkAndSet c.header.datagramOffset).1 = .ok () ∧
      (s.accept P i).2.windows.live c.epochId
        = ((s.windows.live c.epochId).checkAndSet c.header.datagramOffset).2 := by
  rw [accept_eq] at h ⊢
  cases hv : verify P i.buf s.config i.localEpoch i.dir with
  | error err =>
    obtain ⟨ws, heq, -⟩ := acceptInner_of_verify_error hd hv
    rw [heq] at h
    cases h
  | ok c =>
    obtain ⟨ws, -, hasked, -, heq⟩ := acceptInner_of_verify_ok hd hv
    rw [heq] at h ⊢
    obtain ⟨hans, hfinish⟩ := settle_eq_ok h
    exact ⟨c, rfl, hfinish, hans, hasked⟩

/-- What is delivered is the datagram that was verified. -/
theorem exists_verify_of_accept {s : PeerState defaultWindowWords} {i : Input} {acc : Accepted}
    (hd : s.windows.Distinct) (h : (s.accept P i).1 = .ok acc) :
    ∃ c, verify P i.buf s.config i.localEpoch i.dir = .ok c ∧ acc.epochId = c.epochId ∧
      acc.datagramOffset = c.header.datagramOffset ∧
      ((s.windows.live c.epochId).checkAndSet c.header.datagramOffset).1 = .ok () ∧
      (s.accept P i).2.windows.live c.epochId
        = ((s.windows.live c.epochId).checkAndSet c.header.datagramOffset).2 := by
  obtain ⟨c, hc, hfinish, hans, hasked⟩ := exists_finish_of_accept hd h
  obtain ⟨out, -, rfl⟩ := finish_eq_ok_iff.mp hfinish
  exact ⟨c, hc, rfl, rfl, hans, hasked⟩

/-- An accepted datagram is remembered. -/
theorem remembers_of_accept {s : PeerState defaultWindowWords} (hs : Sound s) {i : Input}
    {acc : Accepted} (h : (s.accept P i).1 = .ok acc) :
    Remembers acc.epochId acc.datagramOffset (s.accept P i).2 := by
  obtain ⟨c, -, hepoch, hoff, hans, hasked⟩ := exists_verify_of_accept hs.distinct h
  obtain ⟨H, hH⟩ := hs.tracked c.epochId
  refine ⟨(accept_frame hs.distinct).2.2, insert c.header.datagramOffset H, ?_, ?_⟩
  · rw [hoff]
    exact Set.mem_insert _ _
  · rw [hepoch, hasked]
    -- a refusal contradicts the delivery
    rcases checkAndSet_spec words_pos words_small hH c.header.datagramOffset with
      ⟨-, -, htr⟩ | ⟨heq, -⟩
    · exact htr
    · rw [heq] at hans
      cases hans

/-- A remembered datagram is not accepted. -/
theorem Remembers.not_accept {e o : UInt32} {s : PeerState defaultWindowWords}
    (h : Remembers e o s) {i : Input} {acc : Accepted} (hacc : (s.accept P i).1 = .ok acc) :
    (acc.epochId, acc.datagramOffset) ≠ (e, o) := by
  intro heq
  obtain ⟨rfl, rfl⟩ := Prod.mk.inj heq
  obtain ⟨c, -, hepoch, hoff, hans, -⟩ := exists_verify_of_accept h.distinct hacc
  obtain ⟨H, ho, hH⟩ := h.tracked
  rw [hepoch] at hH
  rw [hoff] at ho
  rcases checkAndSet_spec words_pos words_small hH c.header.datagramOffset with
    ⟨-, hadm, -⟩ | ⟨heq, -⟩
  · exact hadm.1 ho
  · rw [heq] at hans
    cases hans

/-- The windows track a history after any calls. -/
theorem sound_final {config : PeerConfig} {s : PeerState defaultWindowWords}
    (h : new config = .ok s) (is : List Input) : Sound (Transducer.final (accept P) s is) :=
  final_invariant (sound_new h) (fun _ i ht => ht.accept i) is

/-- **A datagram is accepted twice only if its epoch was forgotten in between**: between two
calls that accept the same epoch and offset lies a call whose local epoch is neither that epoch
nor the next. That call need not verify: the windows are pruned before the tag is checked. In
particular the local epochs have decreased. -/
theorem accepted_twice {config : PeerConfig} {s : PeerState defaultWindowWords}
    (hnew : new config = .ok s) (pre mid : List Input) (i j : Input) {acc acc' : Accepted}
    (hi : (accept P (Transducer.final (accept P) s pre) i).1 = .ok acc)
    (hj : (accept P (Transducer.final (accept P) s (pre ++ i :: mid)) j).1 = .ok acc')
    (heq : (acc'.epochId, acc'.datagramOffset) = (acc.epochId, acc.datagramOffset)) :
    (∃ k ∈ mid, k.Forgets acc.epochId) ∧
      ¬(i :: mid ++ [j]).Pairwise fun a b => a.localEpoch ≤ b.localEpoch := by
  have hsound := sound_final (P := P) hnew pre
  have hforgot : ∃ k ∈ mid, k.Forgets acc.epochId := by
    by_contra hnone
    rw [final_append, final_cons] at hj
    exact ((remembers_of_accept hsound hi).final
      fun k hk hf => hnone ⟨k, hk, hf⟩).not_accept hj heq
  refine ⟨hforgot, ?_⟩
  intro hmono
  obtain ⟨k, hk, -, -, hout⟩ := hforgot
  obtain ⟨c, hc, hepoch, -⟩ := exists_verify_of_accept hsound.distinct hi
  obtain ⟨c', hc', hepoch', -⟩ := exists_verify_of_accept (sound_final hnew _).distinct hj
  have hin := inWindow_of_verify hc
  have hin' := inWindow_of_verify hc'
  rw [← hepoch] at hin
  rw [← hepoch', (Prod.mk.inj heq).1] at hin'
  obtain ⟨hik, hkj⟩ := List.pairwise_cons.mp hmono
  -- a clock that does not step back stays between the two calls, inside the acceptance window
  have hle := hik k (List.mem_append_left _ hk)
  have hle' := (List.pairwise_append.mp hkj).2.2 k hk j List.mem_cons_self
  rw [UInt32.le_iff_toNat_le] at hle hle'
  exact hout ⟨UInt32.le_iff_toNat_le.mpr ((UInt32.le_iff_toNat_le.mp hin.1).trans hle),
    hle'.trans hin'.2⟩

/-- The frozen vector, accepted; a forgery naming the epoch two later, received there; the
vector again, after the clock has come back. -/
def clockSteps : List Input :=
  [⟨vectorWire, 13281250, .nodeToCollector, 0⟩,
    ⟨vectorWire.set 1 0x14, 13281252, .nodeToCollector, 0⟩,
    ⟨vectorWire, 13281250, .nodeToCollector, 0⟩]

/-- The receiver of the frozen vector before its first call. -/
def vectorState : PeerState defaultWindowWords :=
  ⟨vectorPeer, ⟨none, none⟩, none, none, .zero⟩

/-- The same datagram is accepted twice when the local clock steps out of its epoch and back: the
forgery in between discards the window of that epoch before its tag is found wrong. -/
theorem accepted_twice_clockSteps :
    new vectorPeer = .ok vectorState ∧
      outputs (accept vectorPrimitives) vectorState clockSteps =
        [.ok ⟨vectorDatagram, 13281250, 4096, []⟩, .error .authFailed,
          .ok ⟨vectorDatagram, 13281250, 4096, []⟩] := by
  decide

/-- The forgery is the call that forgets, and with it the clock has stepped back. -/
theorem accepted_twice_vector :
    (∃ k ∈ [(⟨vectorWire.set 1 0x14, 13281252, .nodeToCollector, 0⟩ : Input)],
      k.Forgets 13281250) ∧
      ¬clockSteps.Pairwise fun a b => a.localEpoch ≤ b.localEpoch := by
  have hnew : new vectorPeer = .ok vectorState := by decide
  exact accepted_twice hnew [] [⟨vectorWire.set 1 0x14, 13281252, .nodeToCollector, 0⟩]
    ⟨vectorWire, 13281250, .nodeToCollector, 0⟩ ⟨vectorWire, 13281250, .nodeToCollector, 0⟩
    (show (accept vectorPrimitives _ _).1 = .ok ⟨vectorDatagram, 13281250, 4096, []⟩ by decide)
    (show (accept vectorPrimitives _ _).1 = .ok ⟨vectorDatagram, 13281250, 4096, []⟩ by decide) rfl

/-! ### A clock that does not step back -/

/-- The offsets admitted in epoch `e` by the calls of a trace: those of the verified datagrams
that were not refused as replays. -/
def admittedIn (P : Primitives) (config : PeerConfig)
    (h : List (Input × Except Error Accepted)) (e : UInt32) : Set UInt32 :=
  {o | ∃ p ∈ h, ∃ c, verify P p.1.buf config p.1.localEpoch p.1.dir = .ok c ∧ c.epochId = e ∧
    c.header.datagramOffset = o ∧ p.2 ≠ .error .replay}

section Admitted

variable {config : PeerConfig} {h : List (Input × Except Error Accepted)} {i : Input}
  {r : Except Error Accepted} {e : UInt32}

/-- A call that admits nothing in an epoch adds nothing to it. -/
private theorem admittedIn_concat_of_ne
    (hne : ∀ c, verify P i.buf config i.localEpoch i.dir = .ok c → r ≠ .error .replay →
      c.epochId ≠ e) : admittedIn P config (h ++ [(i, r)]) e = admittedIn P config h e := by
  ext o
  constructor
  · rintro ⟨p, hp, c, hc, he, ho, hr⟩
    rcases List.mem_append.mp hp with hp | hp
    · exact ⟨p, hp, c, hc, he, ho, hr⟩
    · obtain rfl := List.mem_singleton.mp hp
      exact absurd he (hne c hc hr)
  · rintro ⟨p, hp, hrest⟩
    exact ⟨p, List.mem_append_left _ hp, hrest⟩

/-- A verified datagram that is not refused adds its offset. -/
private theorem admittedIn_concat {c : Claim}
    (hc : verify P i.buf config i.localEpoch i.dir = .ok c)
    (hr : r ≠ .error .replay) : admittedIn P config (h ++ [(i, r)]) c.epochId =
      insert c.header.datagramOffset (admittedIn P config h c.epochId) := by
  ext o
  rw [Set.mem_insert_iff]
  constructor
  · rintro ⟨p, hp, c', hc', he, ho, hr'⟩
    rcases List.mem_append.mp hp with hp | hp
    · exact .inr ⟨p, hp, c', hc', he, ho, hr'⟩
    · obtain rfl := List.mem_singleton.mp hp
      obtain rfl := Except.ok.inj (hc.symm.trans hc')
      exact .inl ho.symm
  · rintro (rfl | ⟨p, hp, hrest⟩)
    · exact ⟨_, List.mem_append_right _ List.mem_cons_self, c, hc, rfl, rfl, hr⟩
    · exact ⟨p, List.mem_append_left _ hp, hrest⟩

end Admitted

/-- The live window of every epoch the receiver may still accept tracks what was admitted in
that epoch. -/
structure Refines (P : Primitives) (config : PeerConfig)
    (h : List (Input × Except Error Accepted)) (s : PeerState defaultWindowWords) : Prop where
  config_eq : s.config = config
  distinct : s.windows.Distinct
  tracked : ∀ e : UInt32, (∀ p ∈ h, p.1.localEpoch.toNat ≤ e.toNat + 1) →
    (s.windows.live e).Tracks (admittedIn P config h e)

/-- A new receiver refines the specification of the empty trace. -/
private theorem refines_new {config : PeerConfig} {s : PeerState defaultWindowWords}
    (hnew : new config = .ok s) : Refines P config [] s := by
  obtain ⟨hcfg, hws, -, -⟩ := new_eq_ok hnew
  have hempty : ∀ e, admittedIn P config [] e = ∅ := fun e => by simp [admittedIn]
  refine ⟨hcfg, by rw [hws]; exact Windows.distinct_empty, ?_⟩
  intro e _
  rw [hempty, hws]
  exact tracks_new

/-- Nothing was admitted yet in an epoch after the clock. -/
private theorem admittedIn_eq_empty {config : PeerConfig} {h : List (Input × Except Error Accepted)}
    {e : UInt32} (hlt : ∀ p ∈ h, p.1.localEpoch < e) : admittedIn P config h e = ∅ := by
  refine Set.eq_empty_iff_forall_notMem.mpr ?_
  rintro o ⟨p, hp, c, hc, rfl, -, -⟩
  have hin : InWindow p.1.localEpoch c.epochId :=
    InWindow.of_reconstructEpoch (claim_epoch_of_checkHeader (verify_eq_ok_iff.mp hc).1)
  exact absurd (hlt p hp) (UInt32.not_lt.mpr hin.1)

/-- A window that stays or is forgotten tracks what was admitted: an epoch is forgotten only
before anything was admitted in it, or once it can never be accepted again. -/
private theorem Refines.tracks_of_kept {config : PeerConfig}
    {h : List (Input × Except Error Accepted)} {s : PeerState defaultWindowWords}
    (hs : Refines P config h s) {i : Input} {ws : Windows defaultWindowWords} {e : UInt32}
    (hmono : ∀ p ∈ h.map Prod.fst, p.localEpoch ≤ i.localEpoch)
    (hle : i.localEpoch.toNat ≤ e.toNat + 1)
    (hkept : ws.live e = s.windows.live e ∨ i.Forgets e ∧ ws.live e = .new) :
    (ws.live e).Tracks (admittedIn P config h e) := by
  have hle' : ∀ p ∈ h, p.1.localEpoch ≤ i.localEpoch := fun p hp =>
    hmono p.1 (List.mem_map_of_mem hp)
  rcases hkept with hsame | ⟨⟨-, -, hout⟩, hnew⟩
  · rw [hsame]
    exact hs.tracked e fun p hp => (UInt32.le_iff_toNat_le.mp (hle' p hp)).trans hle
  · have hlt : i.localEpoch < e := UInt32.not_le.mp fun h => hout ⟨h, hle⟩
    rw [hnew, admittedIn_eq_empty fun p hp => UInt32.lt_of_le_of_lt (hle' p hp) hlt]
    exact tracks_new

/-- **One call refines the abstract specification**, when the clock does not step back: the
window of its epoch answers as the specification does, and the refinement is kept. -/
theorem Refines.accept {config : PeerConfig} {h : List (Input × Except Error Accepted)}
    {s : PeerState defaultWindowWords} (hs : Refines P config h s) {i : Input}
    (hmono : ∀ p ∈ h.map Prod.fst, p.localEpoch ≤ i.localEpoch) :
    Refines P config (h ++ [(i, (s.accept P i).1)]) (s.accept P i).2 := by
  obtain ⟨hcfg, -, hdist⟩ := accept_frame (P := P) (i := i) hs.distinct
  refine ⟨hcfg.trans hs.config_eq, hdist, ?_⟩
  intro e hle
  have hlei : i.localEpoch.toNat ≤ e.toNat + 1 :=
    hle _ (List.mem_append_right _ List.mem_cons_self)
  rw [accept_eq]
  cases hv : verify P i.buf s.config i.localEpoch i.dir with
  | error err =>
    obtain ⟨ws, heq, -, -, hlive⟩ := acceptInner_of_verify_error hs.distinct hv
    rw [hs.config_eq] at hv
    rw [heq, admittedIn_concat_of_ne fun c hc => by rw [hv] at hc; cases hc]
    exact hs.tracks_of_kept hmono hlei (hlive e)
  | ok c =>
    obtain ⟨ws, -, hasked, hlive, heq⟩ := acceptInner_of_verify_ok hs.distinct hv
    rw [hs.config_eq] at hv
    rw [heq]
    -- the window asked answers as the specification does, the others are kept
    by_cases he : e = c.epochId
    · subst he
      have htr := hs.tracked c.epochId fun p hp => hle p (List.mem_append_left _ hp)
      dsimp only
      rw [hasked]
      rcases checkAndSet_spec words_pos words_small htr c.header.datagramOffset with
        ⟨hok, -, htr'⟩ | ⟨hreplay, -⟩
      · rwa [admittedIn_concat hv (by rw [ne_eq, settle_eq_replay_iff, hok]; nofun)]
      · rw [hreplay, admittedIn_concat_of_ne fun _ _ hr =>
          absurd (settle_eq_replay_iff.mpr rfl) hr]
        exact htr
    · rw [admittedIn_concat_of_ne fun c' hc' _ heq' => he (by
        rw [← heq', Except.ok.inj (hv.symm.trans hc')])]
      exact hs.tracks_of_kept hmono hlei (hlive e he)

/-- A receiver refines the specification over every run of a clock that does not step back. -/
theorem refines_final {config : PeerConfig} {s : PeerState defaultWindowWords}
    (hnew : new config = .ok s) {is : List Input}
    (hmono : is.Pairwise fun a b => a.localEpoch ≤ b.localEpoch) :
    Refines P config (trace (PeerState.accept P) s is)
      (Transducer.final (PeerState.accept P) s is) :=
  trace_invariant (refines_new hnew) (fun _ _ _ hi hs => hs.accept hi) is
    (guarded_of_pairwise hmono)

/-- In a state that refines the specification, a verified datagram is admitted exactly when the
specification admits its offset. -/
theorem Refines.admits_iff {config : PeerConfig} {h : List (Input × Except Error Accepted)}
    {s : PeerState defaultWindowWords} (hs : Refines P config h s) {i : Input}
    (hmono : ∀ p ∈ h.map Prod.fst, p.localEpoch ≤ i.localEpoch) {c : Claim}
    (hc : verify P i.buf config i.localEpoch i.dir = .ok c) :
    (s.accept P i).1 ≠ .error .replay ↔
      Admits 4096 (admittedIn P config h c.epochId) c.header.datagramOffset := by
  rw [← hs.config_eq] at hc
  have htr := hs.tracked c.epochId fun p hp =>
    (UInt32.le_iff_toNat_le.mp (hmono p.1 (List.mem_map_of_mem hp))).trans (inWindow_of_verify hc).2
  obtain ⟨ws, -, -, -, heq⟩ := acceptInner_of_verify_ok hs.distinct hc
  rw [accept_eq, heq, ne_eq, settle_eq_replay_iff]
  rcases checkAndSet_spec words_pos words_small htr c.header.datagramOffset with
    ⟨hok, hadm, -⟩ | ⟨hreplay, hadm⟩
  · rw [hok]
    exact ⟨fun _ => hadm, nofun⟩
  · rw [hreplay]
    exact ⟨fun h => absurd rfl h, fun h => absurd h hadm⟩

/-- **Refinement.** In a run with nondecreasing local epochs, a verified datagram is admitted,
that is not refused as a replay, exactly when its offset was not admitted before in its epoch
and lies less than 4096 ticks below every offset, hence below the highest, admitted before in
that epoch. -/
theorem admitted_iff {config : PeerConfig} {s : PeerState defaultWindowWords}
    (hnew : new config = .ok s) (is : List Input) (i : Input)
    (hmono : (is ++ [i]).Pairwise fun a b => a.localEpoch ≤ b.localEpoch) {c : Claim}
    (hc : verify P i.buf config i.localEpoch i.dir = .ok c) :
    (PeerState.accept P (Transducer.final (PeerState.accept P) s is) i).1 ≠ .error .replay ↔
      c.header.datagramOffset ∉ admittedIn P config (trace (PeerState.accept P) s is) c.epochId ∧
      ∀ o ∈ admittedIn P config (trace (PeerState.accept P) s is) c.epochId,
        o.toNat < c.header.datagramOffset.toNat + 4096 := by
  obtain ⟨his, -, hlast⟩ := List.pairwise_append.mp hmono
  refine (refines_final hnew his).admits_iff ?_ hc
  rw [map_fst_trace]
  exact fun p hp => hlast p hp i List.mem_cons_self

/-- The frozen vector, received once before and once more one epoch later. -/
theorem admitted_iff_vector :
    (accept vectorPrimitives (Transducer.final (accept vectorPrimitives) vectorState
      [⟨vectorWire, 13281250, .nodeToCollector, 0⟩])
      ⟨vectorWire, 13281251, .nodeToCollector, 0⟩).1 ≠ .error .replay ↔
      (4096 : UInt32) ∉ admittedIn vectorPrimitives vectorPeer (trace (accept vectorPrimitives)
        vectorState [⟨vectorWire, 13281250, .nodeToCollector, 0⟩]) 13281250 ∧
      ∀ o ∈ admittedIn vectorPrimitives vectorPeer (trace (accept vectorPrimitives)
        vectorState [⟨vectorWire, 13281250, .nodeToCollector, 0⟩]) 13281250,
        o.toNat < (4096 : UInt32).toNat + 4096 := by
  have hnew : new vectorPeer = .ok vectorState := by decide
  have hc : verify vectorPrimitives vectorWire vectorPeer 13281251 .nodeToCollector =
      .ok ⟨.unpack vectorWire, .number, .hmacSha256T64, 13281250, [0x02, 0x09, 0x2E],
        [0x51, 0xC9, 0x8B, 0x04, 0x2E, 0x36, 0x99, 0x46]⟩ := by decide
  have hmono : [(⟨vectorWire, 13281250, .nodeToCollector, 0⟩ : Input),
      ⟨vectorWire, 13281251, .nodeToCollector, 0⟩].Pairwise
        fun a b => a.localEpoch ≤ b.localEpoch := by decide
  exact admitted_iff hnew [⟨vectorWire, 13281250, .nodeToCollector, 0⟩]
    ⟨vectorWire, 13281251, .nodeToCollector, 0⟩ hmono hc

end PeerState

end Catp
