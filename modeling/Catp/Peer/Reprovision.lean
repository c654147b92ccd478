import Catp.Peer.Isolation
import Catp.Wire.Framing
import Mathlib.Tactic.IntervalCases

/-!
# Provisioning a sender again

Runs of a collector that mix calls of `accept` with calls of `provision`. Provisioning a sender
builds its receiver anew, with empty replay windows. As long as no call throws away a window that
an accepted datagram still has to be looked up in (`KeepsHistory`), every datagram accepted is
remembered by the receiver now held for its sender, and none is accepted a second time.

`Recalls` is the invariant, and each part of it is needed to take a step:

* `sound` — every receiver held is of the sender it is held under, and its windows track
  histories;
* `nodup` — no datagram was delivered twice so far, which is what is to be shown;
* `behind` — no delivery is of an epoch ahead of the clock;
* `remembered` — a delivery of an epoch that may still be accepted is remembered by the receiver
  held now, whichever provisioning built it.

`KeepsHistory` is a condition on the state before a call. A call of `accept` always meets it; one
of `provision` does if the receiver replaced has accepted nothing, or has nothing in the windows
of the epochs that can still come. Whether it has accepted something is read off its counter,
which is a `u64` in the source and a natural number here.
-/

namespace Catp

open Transducer ReplayWindow

private theorem senderId_of_frame {mt : MsgType} {p : Bytes} {out out' : Datagram}
    (h : frame mt p out = .ok out') : out'.senderId = out.senderId := by
  cases hmt : mt.isRecordFramed with
  | true =>
    obtain ⟨recs, -, -, -, -, rfl⟩ := (frame_records_iff hmt).mp h
    rfl
  | false =>
    obtain ⟨-, -, rfl⟩ := (frame_raw_iff hmt).mp h
    rfl

namespace PeerState

variable {P : Primitives} {s : PeerState defaultWindowWords} {i : Input}

/-- A receiver delivers datagrams of its own sender. -/
private theorem senderId_of_accept (hd : s.windows.Distinct) {acc : Accepted}
    (h : (s.accept P i).1 = .ok acc) : acc.datagram.senderId = s.config.senderId := by
  obtain ⟨c, hc, hfinish, -⟩ := exists_finish_of_accept hd h
  obtain ⟨-, -, -, -, -, -, hsender, -⟩ := checkHeader_eq_ok_iff.mp (verify_eq_ok_iff.mp hc).1
  obtain ⟨out, hframe, rfl⟩ := finish_eq_ok_iff.mp hfinish
  have hout := senderId_of_frame hframe
  rw [← hsender, deliver_eq]
  exact hout

/-- The counter of accepted datagrams does not decrease, and an accepted datagram counts. -/
private theorem accepted_accept (P : Primitives) (s : PeerState defaultWindowWords) (i : Input) :
    s.stats.accepted ≤ (s.accept P i).2.stats.accepted ∧
      ((∃ acc, (s.accept P i).1 = .ok acc) → 0 < (s.accept P i).2.stats.accepted) := by
  have hadd : (s.accept P i).2.stats.accepted =
      s.stats.accepted + (Stats.tally (s.accept P i).1).accepted := by
    rw [stats_accept]
    rfl
  rw [hadd]
  refine ⟨Nat.le_add_right _ _, ?_⟩
  rintro ⟨acc, hacc⟩
  rw [hacc]
  exact Nat.add_pos_right _ Nat.one_pos

end PeerState

/-! ### Runs that provision -/

/-- One call of a collector. -/
inductive Call where
  | accept (i : Input)
  | provision (config : PeerConfig)
  deriving DecidableEq

/-- The answer to a call. -/
inductive Reply where
  | accept (r : Except Error Accepted)
  | provision (r : Except Error Unit)
  deriving DecidableEq

/-- The local epoch of a call of `accept`. -/
def Call.localEpoch : Call → Option UInt32
  | .accept i => some i.localEpoch
  | .provision _ => none

/-- What identifies a datagram: its sender, its epoch and its offset. -/
abbrev Key := UInt32 × UInt32 × UInt32

/-- The datagram an answer delivers. -/
def Reply.key : Reply → Option Key
  | .accept (.ok acc) => some (acc.datagram.senderId, acc.epochId, acc.datagramOffset)
  | _ => none

namespace Collector

/-- One call. -/
def call (P : Primitives) (c : Collector) : Call → Reply × Collector
  | .accept i => (.accept (c.accept P i).1, (c.accept P i).2)
  | .provision config => (.provision (c.provision config).1, (c.provision config).2)

/-- The datagrams delivered in a run, in order. -/
def delivered (h : List (Call × Reply)) : List Key := h.filterMap fun p => p.2.key

/-- The epoch may still be accepted after the calls. -/
def Reachable (calls : List Call) (e : UInt32) : Prop :=
  ∀ l ∈ calls.filterMap Call.localEpoch, l.toNat ≤ e.toNat + 1

/-- After the calls `pre`, the next call throws away no replay history: if it provisions a sender
anew, the receiver replaced has accepted no datagram, or its windows for the epochs that may
still be accepted are empty. -/
def KeepsHistory (P : Primitives) (pre : List Call) : Call → Prop
  | .accept _ => True
  | .provision config => (∃ s, PeerState.new config = .ok s) →
      ∀ peer, (final (call P) new pre).peers.lookup config.senderId = some peer →
        peer.stats.accepted = 0 ∨ ∀ e, Reachable pre e → (peer.windows.live e).high = none

variable {P : Primitives}

/-- What the collector remembers of the run that led to it. -/
structure Recalls (h : List (Call × Reply)) (c : Collector) : Prop where
  sound : ∀ id peer, c.peers.lookup id = some peer →
    peer.config.senderId = id ∧ PeerState.Sound peer
  nodup : (delivered h).Nodup
  /-- Nothing was delivered yet of the epochs ahead. -/
  behind : ∀ k ∈ delivered h, ∃ l ∈ (h.map Prod.fst).filterMap Call.localEpoch, k.2.1 ≤ l
  remembered : ∀ k ∈ delivered h, Reachable (h.map Prod.fst) k.2.1 →
    ∃ peer, c.peers.lookup k.1 = some peer ∧ PeerState.Remembers k.2.1 k.2.2 peer ∧
      0 < peer.stats.accepted

private theorem recalls_new : Recalls [] new := by
  constructor
  · intro id peer h
    rw [new, AList.lookup_empty] at h
    cases h
  · exact List.nodup_nil
  · exact fun _ h => absurd h List.not_mem_nil
  · exact fun _ h => absurd h List.not_mem_nil

section Step

variable {h : List (Call × Reply)} {c : Collector}

private theorem delivered_concat (q : Call) (r : Reply) :
    delivered (h ++ [(q, r)]) = delivered h ++ r.key.toList := by
  rw [delivered, delivered, List.filterMap_append]
  cases hr : r.key <;> simp [hr]

/-- An epoch that may be accepted after more calls may be accepted after fewer. -/
private theorem Reachable.of_concat {calls : List Call} {q : Call} {e : UInt32}
    (he : Reachable (calls ++ [q]) e) : Reachable calls e := by
  intro l hl
  exact he l (by rw [List.filterMap_append]; exact List.mem_append_left _ hl)

/-- The receivers after the call `q` still remember, of the datagrams delivered before it, those
whose epochs may still be accepted. -/
def Carries (h : List (Call × Reply)) (q : Call) (c c' : Collector) : Prop :=
  ∀ k ∈ delivered h, Reachable (h.map Prod.fst ++ [q]) k.2.1 →
    ∀ peer, c.peers.lookup k.1 = some peer → PeerState.Remembers k.2.1 k.2.2 peer →
      0 < peer.stats.accepted → ∃ peer', c'.peers.lookup k.1 = some peer' ∧
        PeerState.Remembers k.2.1 k.2.2 peer' ∧ 0 < peer'.stats.accepted

/-- A call that changes no receiver carries everything over. -/
private theorem carries_of_peers_eq {q : Call} {c' : Collector} (heq : c'.peers = c.peers) :
    Carries h q c c' := by
  intro k _ _ peer hl hmem hpos
  exact ⟨peer, by rw [heq, hl], hmem, hpos⟩

/-- A call that delivers nothing keeps the memory if it leaves a receiver for each sender whose
memory includes the one before. -/
private theorem Recalls.of_silent (hc : Recalls h c) {q : Call} {r : Reply} {c' : Collector}
    (hr : r.key = none)
    (hsound : ∀ id peer, c'.peers.lookup id = some peer →
      peer.config.senderId = id ∧ PeerState.Sound peer)
    (hkeep : Carries h q c c') : Recalls (h ++ [(q, r)]) c' := by
  have hdel : delivered (h ++ [(q, r)]) = delivered h := by
    rw [delivered_concat, hr, Option.toList_none, List.append_nil]
  constructor
  · exact hsound
  · rw [hdel]
    exact hc.nodup
  · rw [hdel]
    intro k hk
    obtain ⟨l, hl, hle⟩ := hc.behind k hk
    refine ⟨l, ?_, hle⟩
    rw [List.map_append, List.filterMap_append]
    exact List.mem_append_left _ hl
  · rw [hdel, List.map_append]
    intro k hk hreach
    obtain ⟨peer, hl, hmem, hpos⟩ := hc.remembered k hk hreach.of_concat
    exact hkeep k hk hreach peer hl hmem hpos

/-- A call that delivers a datagram keeps the memory if moreover the datagram is new, not of an
epoch ahead of the clock, and remembered afterwards. -/
private theorem Recalls.of_delivery (hc : Recalls h c) {i : Input} {r : Reply} {k : Key}
    {c' : Collector} (hr : r.key = some k)
    (hsound : ∀ id peer, c'.peers.lookup id = some peer →
      peer.config.senderId = id ∧ PeerState.Sound peer)
    (hkeep : Carries h (.accept i) c c') (hnew : k ∉ delivered h) (hle : k.2.1 ≤ i.localEpoch)
    (hmem : ∃ peer, c'.peers.lookup k.1 = some peer ∧ PeerState.Remembers k.2.1 k.2.2 peer ∧
      0 < peer.stats.accepted) : Recalls (h ++ [(.accept i, r)]) c' := by
  have hdel : delivered (h ++ [(.accept i, r)]) = delivered h ++ [k] := by
    rw [delivered_concat, hr, Option.toList_some]
  -- for each part, the deliveries before and then the one of this call
  constructor
  · exact hsound
  · rw [hdel, ← List.concat_eq_append, List.nodup_concat]
    exact ⟨hnew, hc.nodup⟩
  · rw [hdel, List.map_append, List.filterMap_append]
    intro k' hk'
    rcases List.mem_append.mp hk' with hk' | hk'
    · obtain ⟨l, hl, hle'⟩ := hc.behind k' hk'
      exact ⟨l, List.mem_append_left _ hl, hle'⟩
    · obtain rfl := List.mem_singleton.mp hk'
      exact ⟨i.localEpoch, List.mem_append_right _ (by simp [Call.localEpoch]), hle⟩
  · rw [hdel, List.map_append]
    intro k' hk' hreach
    rcases List.mem_append.mp hk' with hk' | hk'
    · obtain ⟨peer, hl, hmem', hpos⟩ := hc.remembered k' hk' hreach.of_concat
      exact hkeep k' hk' hreach peer hl hmem' hpos
    · obtain rfl := List.mem_singleton.mp hk'
      exact hmem

/-- A step of one receiver carries the memory: an epoch that may still be accepted is not one the
step forgets. -/
private theorem Recalls.carries_insert (hc : Recalls h c) {i : Input} {id : UInt32}
    {peer : PeerState defaultWindowWords} (hpeer : c.peers.lookup id = some peer)
    (hmono : ∀ l ∈ (h.map Prod.fst).filterMap Call.localEpoch, l ≤ i.localEpoch) :
    Carries h (.accept i) c { c with peers := c.peers.insert id (peer.accept P i).2 } := by
  intro k hk hreach peer' hl hmem hpos
  by_cases hkid : k.1 = id
  · rw [hkid, hpeer] at hl
    obtain rfl := Option.some.inj hl
    obtain ⟨l, hl', hle'⟩ := hc.behind k hk
    have hin : InWindow i.localEpoch k.2.1 :=
      ⟨UInt32.le_trans hle' (hmono l hl'), hreach _ (by simp [Call.localEpoch])⟩
    have hle := (peer.accepted_accept P i).1
    refine ⟨_, by rw [hkid, AList.lookup_insert], hmem.accept fun hf => hf.2.2 hin, ?_⟩
    omega
  · exact ⟨peer', by rw [AList.lookup_insert_ne hkid, hl], hmem, hpos⟩

/-- **A call of `accept` keeps the memory**, when the clock does not step back. -/
theorem Recalls.accept (hc : Recalls h c) {i : Input}
    (hmono : ∀ l ∈ (h.map Prod.fst).filterMap Call.localEpoch, l ≤ i.localEpoch) :
    Recalls (h ++ [(.accept i, .accept (c.accept P i).1)]) (c.accept P i).2 := by
  rcases accept_cases P c i with ⟨-, heq⟩ | ⟨id, -, ⟨-, heq⟩ | ⟨peer, hpeer, heq⟩⟩
  · rw [heq]
    exact hc.of_silent rfl hc.sound (carries_of_peers_eq rfl)
  · rw [heq]
    exact hc.of_silent rfl hc.sound (carries_of_peers_eq rfl)
  obtain ⟨hid, hsound⟩ := hc.sound id peer hpeer
  rw [heq]
  have hsound' : ∀ id' peer', (c.peers.insert id (peer.accept P i).2).lookup id' = some peer' →
      peer'.config.senderId = id' ∧ PeerState.Sound peer' := by
    refine AList.forall_lookup_insert hc.sound ?_
    rw [PeerState.config_accept]
    exact ⟨hid, hsound.accept i⟩
  have hkeep := hc.carries_insert (P := P) hpeer hmono
  cases hres : (peer.accept P i).1 with
  | error e => exact hc.of_silent rfl hsound' hkeep
  | ok acc =>
    have hsender := (peer.senderId_of_accept hsound.distinct hres).trans hid
    obtain ⟨cl, hcl, hepoch, -⟩ := PeerState.exists_verify_of_accept hsound.distinct hres
    have hin : InWindow i.localEpoch acc.epochId := hepoch ▸ PeerState.inWindow_of_verify hcl
    -- what was delivered before is still remembered, so it is not delivered now
    have hnew : (id, acc.epochId, acc.datagramOffset) ∉ delivered h := by
      intro hk
      have hreach : Reachable (h.map Prod.fst) acc.epochId := fun l hl =>
        (UInt32.le_iff_toNat_le.mp (hmono l hl)).trans hin.2
      obtain ⟨peer', hl, hmem, -⟩ := hc.remembered _ hk hreach
      rw [hpeer] at hl
      obtain rfl := Option.some.inj hl
      exact hmem.not_accept hres rfl
    refine hc.of_delivery (by rw [Reply.key, hsender]) hsound' hkeep hnew hin.1 ?_
    exact ⟨_, AList.lookup_insert _, PeerState.remembers_of_accept hsound hres,
      (peer.accepted_accept P i).2 ⟨acc, hres⟩⟩

/-- A window without a mark remembers nothing. -/
private theorem not_remembers_of_high {e o : UInt32} {peer : PeerState defaultWindowWords}
    (hhigh : (peer.windows.live e).high = none) : ¬PeerState.Remembers e o peer := by
  rintro ⟨-, H, ho, htr⟩
  rw [Tracks, hhigh] at htr
  have hempty := htr.eq_empty
  rw [Set.image_eq_empty] at hempty
  rw [hempty] at ho
  exact Set.notMem_empty o ho

/-- **A call of `provision` keeps the memory**, when it throws away no replay history. -/
theorem Recalls.provision (hc : Recalls h c) {config : PeerConfig}
    (hkeep : (∃ s, PeerState.new config = .ok s) →
      ∀ peer, c.peers.lookup config.senderId = some peer → peer.stats.accepted = 0 ∨
        ∀ e, Reachable (h.map Prod.fst) e → (peer.windows.live e).high = none) :
    Recalls (h ++ [(.provision config, .provision (c.provision config).1)])
      (c.provision config).2 := by
  rw [Collector.provision]
  cases hs : PeerState.new config with
  | error e => exact hc.of_silent rfl hc.sound (carries_of_peers_eq rfl)
  | ok s =>
    refine hc.of_silent rfl ?_ ?_
    · refine AList.forall_lookup_insert hc.sound ?_
      rw [(PeerState.new_eq_ok hs).1]
      exact ⟨rfl, PeerState.sound_new hs⟩
    · intro k _ hreach peer hl hmem hpos
      -- the receiver of a datagram delivered and still reachable is not replaced
      have hne : k.1 ≠ config.senderId := by
        intro hkid
        rcases hkeep ⟨s, hs⟩ peer (hkid ▸ hl) with hzero | hclear
        · omega
        · exact not_remembers_of_high (hclear _ hreach.of_concat) hmem
      exact ⟨peer, by rw [AList.lookup_insert_ne hne, hl], hmem, hpos⟩

end Step

/-! ### Replay safety -/

/-- The local epochs of the calls do not decrease: the condition on each call. -/
def ClockKept (pre : List Call) (q : Call) : Prop :=
  ∀ l ∈ pre.filterMap Call.localEpoch, ∀ l' ∈ q.localEpoch, l ≤ l'

/-- Nondecreasing local epochs keep the clock at every call, those of `provision` passed over. -/
private theorem guarded_clockKept {calls : List Call}
    (h : (calls.filterMap Call.localEpoch).Pairwise (· ≤ ·)) : Guarded ClockKept calls := by
  induction calls using List.reverseRecOn with
  | nil => exact fun n => n.elim0
  | append_singleton calls q ih =>
    rw [List.filterMap_append] at h
    obtain ⟨hcalls, -, hlast⟩ := List.pairwise_append.mp h
    refine guarded_concat.mpr ⟨ih hcalls, ?_⟩
    intro l hl l' hl'
    refine hlast l hl l' ?_
    rw [List.filterMap_cons, hl', List.filterMap_nil]
    exact List.mem_singleton_self l'

/-- A run that keeps its history recalls every delivery. -/
private theorem recalls_final {calls : List Call}
    (hmono : (calls.filterMap Call.localEpoch).Pairwise (· ≤ ·))
    (hkeep : Guarded (KeepsHistory P) calls) :
    Recalls (trace (call P) new calls) (final (call P) new calls) := by
  induction calls using List.reverseRecOn with
  | nil => exact recalls_new
  | append_singleton calls q ih =>
    obtain ⟨-, hclock⟩ := guarded_concat.mp (guarded_clockKept hmono)
    obtain ⟨hkept, hq⟩ := guarded_concat.mp hkeep
    rw [List.filterMap_append] at hmono
    have hc := ih (List.pairwise_append.mp hmono).1 hkept
    have hfst := map_fst_trace (call P) new calls
    rw [trace_concat, final_concat]
    cases q with
    | accept i =>
      exact hc.accept fun l hl => hclock l (hfst ▸ hl) i.localEpoch rfl
    | provision config =>
      refine hc.provision fun hs peer hl => ?_
      rw [hfst]
      exact hq hs peer hl

/-- **No datagram is delivered twice** in a run that provisions and accepts in any order with
nondecreasing local epochs, if no provisioning throws away replay history: it provisions a sender
for the first time, or one whose receiver has accepted nothing, or whose windows are empty for
every epoch that can still be accepted. -/
theorem delivered_nodup_of_keepsHistory (P : Primitives) (calls : List Call)
    (hmono : (calls.filterMap Call.localEpoch).Pairwise (· ≤ ·))
    (hkeep : Guarded (KeepsHistory P) calls) : (delivered (trace (call P) new calls)).Nodup :=
  (recalls_final hmono hkeep).nodup

/-- A sender provisioned a second time, under its secret and suite, after its epoch has passed:
between the two, a forgery naming the epoch two later empties its windows. -/
def provisionedLater : List Call :=
  [.provision vectorPeer,
    .accept ⟨vectorWire, 13281250, .nodeToCollector, 0⟩,
    .accept ⟨vectorWire.set 1 0x14, 13281252, .nodeToCollector, 0⟩,
    .provision { vectorPeer with layouts := [(1, 1)] },
    .accept ⟨vectorWire, 13281252, .nodeToCollector, 0⟩]

/-- Provisioned again once its epoch is past, the sender repeats nothing. -/
theorem delivered_nodup_of_keepsHistory_later :
    (delivered (trace (call vectorPrimitives) new provisionedLater)).Nodup := by
  refine delivered_nodup_of_keepsHistory vectorPrimitives provisionedLater (by decide) ?_
  rintro ⟨n, hn⟩
  change n < 5 at hn
  interval_cases n
  · intro _ peer hl
    cases hl
  · trivial
  · trivial
  · intro _ peer hl
    have hwin : ∃ p, (final (call vectorPrimitives) new (provisionedLater.take 3)).peers.lookup
        vectorPeer.senderId = some p ∧ p.windows = ⟨some ⟨13281252, .new⟩, none⟩ := by
      decide
    obtain ⟨p, hp, hws⟩ := hwin
    obtain rfl : p = peer := Option.some.inj (hp.symm.trans hl)
    refine .inr fun e _ => ?_
    rw [hws, Windows.live, Windows.lookup, Windows.holdsEpoch]
    split_ifs <;> rfl
  · trivial

/-- The frozen vector is delivered twice if its sender is provisioned a second time, with other
layouts, in between. -/
theorem delivered_provisioned_again :
    delivered (trace (call vectorPrimitives) new
      [.provision vectorPeer,
        .accept ⟨vectorWire, 13281250, .nodeToCollector, 0⟩,
        .provision { vectorPeer with layouts := [(1, 1)] },
        .accept ⟨vectorWire, 13281250, .nodeToCollector, 0⟩]) =
      [(0x12345678, 13281250, 4096), (0x12345678, 13281250, 4096)] := by
  decide

end Collector

end Catp
