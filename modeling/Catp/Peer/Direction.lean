import Catp.Peer.Replay

/-!
# The two directions of one sender

The key schedule separates the datagrams a node sends from those sent to it, but the replay
windows of a receiver are kept per epoch only, so datagrams of both directions are looked up in
one window. A run that mixes the directions answers each of them as if the other were absent
exactly when no datagram runs into an offset of the other direction (`OffsetsApart`). What was
looked up in a window is described here by the verified datagrams alone, without the answers:
`admits_verifiedIn_iff`.

`Admits N H x` of the sliding window says that `x` is new to `H` and less than `N` behind all of
it. What makes the answers disappear from the specification is `admits_iff_of_refused`: offsets
that the window refused lie so far behind, or were in it already, that adding them to the history
changes nothing. From there on a history is a set of offsets that verify, which splits by
direction like any set (`admits_verifiedIn_split`), and no induction over the run is left to do.

* `OffsetsApart` is a condition on the call and on what verified before it. It does not mention an
  answer of the receiver.
* `Unlimited` receivers answer alike as soon as they admit alike (`Unlimited.accept_eq_iff`). A
  limiter would couple the directions through its tokens, whatever the windows do, so the theorem
  is about receivers without one.
* The local epoch does not decrease, over the calls before and those of the run.
-/

namespace Catp

open Transducer ReplayWindow

namespace ReplayWindow

/-- An offset is admitted by two histories together exactly if each admits it. -/
private theorem admits_union {N : ℕ} {H K : Set UInt32} {x : UInt32} :
    Admits N (H ∪ K) x ↔ Admits N H x ∧ Admits N K x := by
  simp only [Admits, Set.mem_union, not_or, or_imp, forall_and]
  exact and_and_and_comm

/-- Offsets that a window refuses do not matter to what it admits. -/
private theorem admits_iff_of_refused {N : ℕ} {H K : Set UInt32} (hsub : H ⊆ K)
    (hrefused : ∀ y ∈ K, y ∈ H ∨ ∃ z ∈ H, y.toNat + N ≤ z.toNat) {x : UInt32} :
    Admits N H x ↔ Admits N K x := by
  constructor
  · rintro ⟨hnew, hlt⟩
    refine ⟨fun hx => ?_, fun y hy => ?_⟩
    · rcases hrefused x hx with hx | ⟨z, hz, hle⟩
      · exact hnew hx
      · have := hlt z hz
        omega
    · rcases hrefused y hy with hy | ⟨z, hz, hle⟩
      · exact hlt y hy
      · have := hlt z hz
        omega
  · rintro ⟨hnew, hlt⟩
    exact ⟨fun hx => hnew (hsub hx), fun y hy => hlt y (hsub hy)⟩

end ReplayWindow

namespace PeerState

variable {P : Primitives} {config : PeerConfig}

/-- The offsets of the datagrams of epoch `e` that verify among the calls. -/
def verifiedIn (P : Primitives) (config : PeerConfig) (is : List Input) (e : UInt32) :
    Set UInt32 :=
  {o | ∃ i ∈ is, ∃ c, verify P i.buf config i.localEpoch i.dir = .ok c ∧ c.epochId = e ∧
    c.header.datagramOffset = o}

/-- A verified datagram names its offset in its header. -/
private theorem offset_of_verify {i : Input} {c : Claim}
    (h : verify P i.buf config i.localEpoch i.dir = .ok c) :
    c.header.datagramOffset = (Datagram.unpack i.buf).datagramOffset := by
  rw [(checkHeader_eq_ok_iff.mp (verify_eq_ok_iff.mp h).1).2.1]

private theorem verifiedIn_append (is js : List Input) (e : UInt32) :
    verifiedIn P config (is ++ js) e = verifiedIn P config is e ∪ verifiedIn P config js e := by
  ext o
  simp only [verifiedIn, List.mem_append, or_and_right, exists_or, Set.mem_union, Set.mem_ofPred_eq]

private theorem verifiedIn_perm {is js : List Input} (h : is.Perm js) (e : UInt32) :
    verifiedIn P config is e = verifiedIn P config js e := by
  ext o
  simp only [verifiedIn, Set.mem_ofPred_eq, h.mem_iff]

private theorem admittedIn_mono {h h' : List (Input × Except Error Accepted)} (hsub : h ⊆ h')
    (e : UInt32) : admittedIn P config h e ⊆ admittedIn P config h' e := by
  rintro o ⟨p, hp, hrest⟩
  exact ⟨p, hsub hp, hrest⟩

section Run

variable {s : PeerState defaultWindowWords} (hnew : new config = .ok s)
include hnew

/-- A verified datagram of a run was admitted, or refused with good reason. -/
private theorem admitted_or_refused {is : List Input}
    (hmono : is.Pairwise fun a b => a.localEpoch ≤ b.localEpoch) {e o : UInt32}
    (ho : o ∈ verifiedIn P config is e) :
    o ∈ admittedIn P config (trace (accept P) s is) e ∨
      ∃ z ∈ admittedIn P config (trace (accept P) s is) e, o.toNat + 4096 ≤ z.toNat := by
  obtain ⟨i, hi, c, hc, rfl, rfl⟩ := ho
  obtain ⟨pre, post, rfl⟩ := List.append_of_mem hi
  obtain ⟨hpre, -, hlast⟩ := List.pairwise_append.mp hmono
  have hle : ∀ p ∈ (trace (accept P) s pre).map Prod.fst, p.localEpoch ≤ i.localEpoch := by
    rw [map_fst_trace]
    exact fun p hp => hlast p hp i List.mem_cons_self
  have hadm := (refines_final (P := P) hnew hpre).admits_iff hle hc
  have hsub : trace (accept P) s pre ⊆ trace (accept P) s (pre ++ i :: post) := by
    rw [trace_append]
    exact List.subset_append_left _ _
  by_cases hres : (accept P (final (accept P) s pre) i).1 = .error .replay
  · -- refused: what was admitted before is a reason
    have hnot := mt hadm.mpr (not_not.mpr hres)
    rw [Admits, not_and_or, not_not] at hnot
    rcases hnot with hseen | hfar
    · exact .inl (admittedIn_mono hsub _ hseen)
    · push Not at hfar
      obtain ⟨z, hz, hle⟩ := hfar
      exact .inr ⟨z, admittedIn_mono hsub _ hz, hle⟩
  · exact .inl ⟨_, mem_trace (accept P) s pre post i, c, hc, rfl, rfl, hres⟩

/-- **The specification without the answers.** While the local epoch does not decrease, an offset
is admitted exactly if it is none of the offsets verified before in its epoch and less than 4096
ticks below all of them. -/
theorem admits_verifiedIn_iff {is : List Input}
    (hmono : is.Pairwise fun a b => a.localEpoch ≤ b.localEpoch) {e o : UInt32} :
    Admits 4096 (admittedIn P config (trace (accept P) s is) e) o ↔
      Admits 4096 (verifiedIn P config is e) o := by
  refine admits_iff_of_refused ?_ fun y hy => admitted_or_refused hnew hmono hy
  rintro y ⟨p, hp, c, hc, he, ho, -⟩
  refine ⟨p.1, ?_, c, hc, he, ho⟩
  rw [← map_fst_trace (accept P) s is]
  exact List.mem_map_of_mem hp

/-- In a run, a verified datagram is refused as a replay or not by the datagrams that verified
before it in its epoch. -/
theorem ne_replay_iff_verifiedIn {is : List Input} {i : Input}
    (hmono : (is ++ [i]).Pairwise fun a b => a.localEpoch ≤ b.localEpoch) {c : Claim}
    (hc : verify P i.buf config i.localEpoch i.dir = .ok c) :
    (accept P (final (accept P) s is) i).1 ≠ .error .replay ↔
      Admits 4096 (verifiedIn P config is c.epochId) c.header.datagramOffset := by
  obtain ⟨his, -, hlast⟩ := List.pairwise_append.mp hmono
  rw [← admits_verifiedIn_iff hnew his]
  refine (refines_final hnew his).admits_iff ?_ hc
  rw [map_fst_trace]
  exact fun p hp => hlast p hp i List.mem_cons_self

end Run

/-! ### Runs of both directions -/

section Unlimited

variable {s t : PeerState defaultWindowWords} {i : Input}

/-- A receiver of this configuration without a limiter. -/
structure Unlimited (config : PeerConfig) (s : PeerState defaultWindowWords) : Prop where
  config_eq : s.config = config
  distinct : s.windows.Distinct
  limiter_eq : s.limiter = none

/-- A call builds no limiter. -/
theorem Unlimited.accept (h : Unlimited config s) (i : Input) :
    Unlimited config (s.accept P i).2 := by
  refine ⟨(config_accept P s i).trans h.config_eq, (accept_frame h.distinct).2.2, ?_⟩
  rw [accept_eq]
  cases hv : verify P i.buf s.config i.localEpoch i.dir with
  | error err =>
    obtain ⟨ws, heq, -⟩ := acceptInner_of_verify_error h.distinct hv
    rw [heq]
    exact h.limiter_eq
  | ok c =>
    obtain ⟨ws, -, -, -, heq⟩ := acceptInner_of_verify_ok h.distinct hv
    rw [heq, h.limiter_eq]
    dsimp only
    rw [settle.eq_def]
    split
    · rfl
    · split <;> rfl

/-- A receiver built without a limiter has none after any calls. -/
theorem unlimited_final (hlimit : config.inboundRateLimit = none) (hnew : new config = .ok s)
    (is : List Input) : Unlimited config (final (PeerState.accept P) s is) := by
  obtain ⟨hcfg, hws, hlim, -⟩ := new_eq_ok hnew
  refine final_invariant ⟨hcfg, ?_, ?_⟩ (fun _ i h => h.accept i) is
  · rw [hws]
    exact Windows.distinct_empty
  · rw [hlim, hlimit]
    rfl

/-- Receivers without a limiter answer a datagram alike, if it does not verify, or both admit it,
or none. -/
theorem Unlimited.accept_eq_iff (hs : Unlimited config s) (ht : Unlimited config t) :
    (s.accept P i).1 = (t.accept P i).1 ↔
      ∀ c, verify P i.buf config i.localEpoch i.dir = .ok c →
        ((s.accept P i).1 ≠ .error .replay ↔ (t.accept P i).1 ≠ .error .replay) := by
  refine ⟨fun h c _ => by rw [h], ?_⟩
  intro h
  have hcfg := hs.config_eq
  have hcfg' := ht.config_eq
  rw [accept_eq, accept_eq] at h ⊢
  cases hv : verify P i.buf config i.localEpoch i.dir with
  | error err =>
    obtain ⟨ws, heq, -⟩ := acceptInner_of_verify_error hs.distinct (hcfg.symm ▸ hv)
    obtain ⟨ws', heq', -⟩ := acceptInner_of_verify_error ht.distinct (hcfg'.symm ▸ hv)
    rw [heq, heq']
  | ok c =>
    have hiff := h c hv
    obtain ⟨ws, -, -, -, heq⟩ := acceptInner_of_verify_ok hs.distinct (hcfg.symm ▸ hv)
    obtain ⟨ws', -, -, -, heq'⟩ := acceptInner_of_verify_ok ht.distinct (hcfg'.symm ▸ hv)
    rw [heq, heq'] at hiff ⊢
    dsimp only at hiff ⊢
    rw [hcfg, hcfg', hs.limiter_eq, ht.limiter_eq] at hiff ⊢
    simp only [ne_eq, settle_eq_replay_iff, not_iff_not] at hiff
    -- the window answers `Ok` or `Replay`
    rcases hans : ((s.windows.live c.epochId).checkAndSet c.header.datagramOffset).1 with e | u
    · obtain rfl := checkAndSet_error hans
      rw [hiff.mp hans]
    · rcases hans' : ((t.windows.live c.epochId).checkAndSet c.header.datagramOffset).1 with e | u'
      · obtain rfl := checkAndSet_error hans'
        rw [hiff.mpr hans'] at hans
        cases hans
      · rfl

end Unlimited

/-- The call `i` does not run into an offset of the other direction: where its datagram verifies,
and is new and less than one second behind what verified before the run, or in the run in its own
direction, it is so for what verified in the run in the other direction. -/
def OffsetsApart (P : Primitives) (config : PeerConfig) (pre before : List Input) (i : Input) :
    Prop :=
  ∀ c, verify P i.buf config i.localEpoch i.dir = .ok c →
    Admits 4096 (verifiedIn P config (pre ++ before.filter fun j => j.dir = i.dir) c.epochId)
      c.header.datagramOffset →
    Admits 4096 (verifiedIn P config (before.filter fun j => ¬j.dir = i.dir) c.epochId)
      c.header.datagramOffset

/-- What is admitted after a run is admitted by each direction. -/
private theorem admits_verifiedIn_split {pre before : List Input} {d : Direction} {e o : UInt32} :
    Admits 4096 (verifiedIn P config (pre ++ before) e) o ↔
      Admits 4096 (verifiedIn P config (pre ++ before.filter fun j => j.dir = d) e) o ∧
        Admits 4096 (verifiedIn P config (before.filter fun j => ¬j.dir = d) e) o := by
  have hperm : (before.filter (fun j => j.dir = d) ++
      before.filter fun j => ¬j.dir = d).Perm before := by
    simpa using List.filter_append_perm (fun j : Input => decide (j.dir = d)) before
  rw [← admits_union, ← verifiedIn_append, List.append_assoc, verifiedIn_append, verifiedIn_append,
    verifiedIn_perm hperm]

/-- **The directions do not interfere exactly if their offsets stay apart.** Of a receiver without
a rate limit, after any calls `pre`, the results of each direction's calls in a run are those of
the same calls with the other direction's removed, exactly if no call of the run runs into an
offset of the other direction. -/
theorem directions_apart_iff (P : Primitives) (hlimit : config.inboundRateLimit = none)
    {s : PeerState defaultWindowWords} (hnew : new config = .ok s) (pre is : List Input)
    (hmono : (pre ++ is).Pairwise fun a b => a.localEpoch ≤ b.localEpoch) :
    (∀ d, (trace (accept P) (final (accept P) s pre) is).filter (fun p => p.1.dir = d) =
        trace (accept P) (final (accept P) s pre) (is.filter fun i => i.dir = d)) ↔
      Guarded (OffsetsApart P config pre) is := by
  rw [trace_filter_key_iff Input.dir]
  refine forall_congr' fun n => ?_
  have htake : (is.take n ++ [is[n]]).Sublist is := by
    rw [Fin.getElem_fin, List.take_append_getElem]
    exact List.take_sublist _ _
  have hall : (pre ++ is.take n ++ [is[n]]).Pairwise fun a b => a.localEpoch ≤ b.localEpoch := by
    rw [List.append_assoc]
    exact hmono.sublist (htake.append_left pre)
  have hown : (pre ++ (is.take n).filter (fun j => j.dir = is[n].dir) ++ [is[n]]).Pairwise
      fun a b => a.localEpoch ≤ b.localEpoch :=
    hall.sublist ((List.filter_sublist.append_left pre).append_right _)
  -- the two states answering the call, as states after a run from the start
  dsimp only
  rw [← final_append, ← final_append, (unlimited_final hlimit hnew _).accept_eq_iff
    (unlimited_final hlimit hnew _)]
  refine forall_congr' fun c => forall_congr' fun hc => ?_
  rw [ne_replay_iff_verifiedIn hnew hall hc, ne_replay_iff_verifiedIn hnew hown hc,
    admits_verifiedIn_split (d := is[n].dir)]
  exact and_iff_left_iff_imp

/-- The key of the vector's sender in the other direction. -/
def collectorKey : Vector UInt8 32 :=
  #v[0x58, 0xE6, 0x6D, 0x07, 0xA2, 0x5F, 0x38, 0xAE, 0x5E, 0xD2, 0xF8, 0xDE, 0xD8, 0x67, 0xB2, 0x48,
    0x90, 0x76, 0xFE, 0xF4, 0x9D, 0xAB, 0x57, 0x7A, 0x06, 0x53, 0xAF, 0x44, 0xFF, 0xB0, 0xC6, 0x3D]

/-- Primitives that know the keys of both directions, and under the second the HMACs of the
vector's reading at ticks 4096 and 4100. -/
def directionPrimitives : Primitives :=
  { vectorPrimitives with
    hkdfExpand := fun _ info => if info.getLast? = some 0x01 then collectorKey else vectorKey
    hmacSha256 := .ofFun fun key msg =>
      if key = collectorKey then
        (List.lookup msg [([0x24, 0x10, 0x00, 0x10, 0x00, 0x00, 0xCA, 0xA7, 0xE2, 0x12, 0x34, 0x56,
          0x78, 0x02, 0x09, 0x2E], #v[0xED, 0x56, 0xAE, 0xEA, 0x99, 0x91, 0x5A, 0xC8, 0x96, 0x79,
          0xC7, 0x43, 0xAA, 0x36, 0xED, 0x9C, 0x91, 0x01, 0x33, 0x8A, 0xCF, 0x87, 0x00, 0xFF, 0x9A,
          0x56, 0xAF, 0xBC, 0xDC, 0x8D, 0x73, 0x04]),
          ([0x24, 0x10, 0x00, 0x10, 0x04, 0x00, 0xCA, 0xA7, 0xE2, 0x12, 0x34, 0x56, 0x78, 0x02,
          0x09, 0x2E], #v[0x0B, 0xDC, 0xB2, 0xB7, 0x18, 0x5E, 0x55, 0xBC, 0x1F, 0x2E, 0x80, 0x5E,
          0x68, 0x1A, 0xB0, 0xA2, 0xFA, 0xDD, 0x8C, 0x8B, 0x37, 0x59, 0xCC, 0xE2, 0x10, 0xD3, 0x48,
          0x8A, 0xB0, 0x31, 0x60, 0x1C])]).getD (Vector.replicate 32 0)
      else vectorPrimitives.hmacSha256.mac key [msg] }

/-- The vector, and a reading of the other direction at tick 4096 or 4100. -/
def bothDirections (low : UInt8) (tag : Bytes) : List Input :=
  [⟨vectorWire, 13281250, .nodeToCollector, 0⟩,
    ⟨[0x24, 0x12, 0x00, 0x10, low, 0x12, 0x34, 0x56, 0x78, 0x02, 0x09, 0x2E] ++ tag, 13281250,
      .collectorToNode, 0⟩]

/-- At different ticks, each direction is answered as if alone. -/
theorem directions_apart_iff_ticks :
    let is := bothDirections 0x04 [0x0B, 0xDC, 0xB2, 0xB7, 0x18, 0x5E, 0x55, 0xBC]
    ∀ d, (trace (accept directionPrimitives) vectorState is).filter (fun p => p.1.dir = d) =
      trace (accept directionPrimitives) vectorState (is.filter fun i => i.dir = d) := by
  intro is
  have hnew : new vectorPeer = .ok vectorState := by decide
  refine (directions_apart_iff directionPrimitives rfl hnew [] is (by decide)).mpr ?_
  show Guarded _ ([] ++ [_] ++ [_])
  refine guarded_concat.mpr ⟨guarded_concat.mpr ⟨fun n => n.elim0, ?_⟩, ?_⟩
  · rintro c - -
    exact ⟨fun ⟨_, hi, _⟩ => absurd hi List.not_mem_nil,
      fun _ ⟨_, hi, _⟩ => absurd hi List.not_mem_nil⟩
  · rintro c hc -
    -- the one datagram of the other direction has offset 4096, this one 4100
    have hother : ∀ o ∈ verifiedIn directionPrimitives vectorPeer
        [⟨vectorWire, 13281250, .nodeToCollector, 0⟩] c.epochId, o = 4096 := by
      rintro o ⟨i, hi, c', hc', -, rfl⟩
      obtain rfl := List.mem_singleton.mp hi
      exact offset_of_verify hc'
    have hoff : c.header.datagramOffset = 4100 := (offset_of_verify hc).trans (by decide)
    rw [hoff]
    refine ⟨fun hmem => ?_, fun o ho => ?_⟩
    · exact absurd (hother _ hmem) (by decide)
    · rw [hother o ho]
      decide

/-- At one tick, the datagram of the second direction is refused as a replay; alone it is
accepted. -/
theorem directions_collide :
    let is := bothDirections 0x00 [0xED, 0x56, 0xAE, 0xEA, 0x99, 0x91, 0x5A, 0xC8]
    new vectorPeer = .ok vectorState ∧
      (trace (accept directionPrimitives) vectorState is).filter
          (fun p => p.1.dir = .collectorToNode) =
        [(⟨[0x24, 0x12, 0x00, 0x10, 0x00, 0x12, 0x34, 0x56, 0x78, 0x02, 0x09, 0x2E, 0xED, 0x56,
          0xAE, 0xEA, 0x99, 0x91, 0x5A, 0xC8], 13281250, .collectorToNode, 0⟩, .error .replay)] ∧
      outputs (accept directionPrimitives) vectorState
          (is.filter fun i => i.dir = .collectorToNode) =
        [.ok ⟨vectorDatagram, 13281250, 4096, []⟩] := by
  decide

end PeerState

end Catp
