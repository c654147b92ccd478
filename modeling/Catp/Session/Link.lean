import Catp.Lib.Interleave
import Catp.Session.Channel

/-!
# A sender and its receiver

The sender's loop and the receiver of that sender, side by side: `Link.step` runs a turn of one or
a call of the other, and the calls are fed whatever the network makes of the datagrams sent. The
network may lose, repeat, reorder and delay them, and it may hand over buffers of its own.

What it cannot do is MAC: `Unforged` says that a call whose tag verifies verifies it over the MAC
input of a datagram sent before. Everything else is proved of the code: the two are a `Channel` in
the direction of the collector.

`Event` interleaves the turns of the sender with the calls of the receiver, so a condition on a
prefix of a run can speak of what was sent before a call. `sent` depends on the turns alone, and
the answers on the calls alone; the two meet only in `Unforged`.

* **Safety** (`delivered_subperm_sent`) asks for `Unforged` and that the local epoch of the
  receiver does not decrease, and nothing of the sender's clock: the pairs of the deliveries
  differ because the window saw to it.
* **The answers** (`accept_iff_carries`) are exact, for a receiver without a limiter. A datagram
  is `Timely` if no call before has carried one of its epoch with its offset, or with one 4096
  ticks or more ahead.
* **Exactly once** (`delivered_perm_sent`) moreover asks of the sender's clock what the pacer
  needs to hand out no pair twice. With it, a datagram carried in time cannot be refused for
  another one.
-/

namespace Catp

open Transducer ReplayWindow

namespace Link

open PeerState
open Channel (Carries Timely macInput)

/-- A turn of the sender, reading its clock, or a call of the receiver. -/
abbrev Event := Reading ⊕ Input

section

variable (P : Primitives) (config : PeerConfig) (make : Make)

/-- The sender and the receiver side by side. -/
def step : Sender × PeerState defaultWindowWords → Event →
    (Turn ⊕ Except Error Accepted) × (Sender × PeerState defaultWindowWords) :=
  par (Sender.turn P config.secret make) (PeerState.accept P)

/-- The datagrams sent so far. -/
def sent (es : List Event) : List Sent := Sender.sends P config.secret make (lefts es)

/-- **The sender's key is its own**: whatever MAC input the receiver finds the tag of in this call,
the sender has computed the tag of it before. -/
def Unforged (pre : List Event) (e : Event) : Prop :=
  ∀ i, e = .inr i → ∀ c, verify P i.buf config i.localEpoch i.dir = .ok c →
    ∃ x ∈ sent P config make pre,
      c.macInput i.dir = macInput config.cipher .nodeToCollector x

end

variable {P : Primitives} {config : PeerConfig} {make : Make} {i : Input} {x : Sent}

/-- What the sender hands to the network is sealed in its direction. -/
theorem sealed_of_emitted (hmake : Makes config.cipher config.senderId make)
    (hx : Sender.Emitted P config.secret make x) :
    Channel.Sealed P config .nodeToCollector x := by
  obtain ⟨seq, hmade⟩ := hx.made
  obtain ⟨hbuilt, hoffset⟩ := hmake _ _ _ _ hmade
  exact ⟨hbuilt, hoffset, hx.encoded⟩

/-! ### Runs -/

section Run

variable {s : PeerState defaultWindowWords} {es : List Event}
  (hmake : Makes config.cipher config.senderId make)

theorem sent_subset_append (es fs : List Event) :
    sent P config make es ⊆ sent P config make (es ++ fs) := by
  rw [sent, sent, lefts_append]
  exact Sender.sends_subset_append _ _

/-- The call at a position of the run meets the condition of the run. -/
private theorem unforged_of_append {pre post : List Event} {e : Event}
    (h : Guarded (Unforged P config make) (pre ++ e :: post)) : Unforged P config make pre e := by
  have hn := h ⟨pre.length, by simp⟩
  simpa using hn

/-- Every call of the run verifies over the MAC input of a datagram sent. -/
theorem covers_of_guarded (h : Guarded (Unforged P config make) es) :
    Channel.Covers P config .nodeToCollector (sent P config make es) (rights es) := by
  intro i hi c hc
  obtain ⟨pre, post, rfl⟩ := List.append_of_mem (mem_rights.mp hi)
  obtain ⟨x, hx, hinput⟩ := unforged_of_append h i rfl c hc
  exact ⟨x, sent_subset_append pre _ hx, hinput⟩

include hmake

theorem sealed_sent (es : List Event) :
    ∀ x ∈ sent P config make es, Channel.Sealed P config .nodeToCollector x :=
  fun _ hx => sealed_of_emitted hmake (Sender.emitted_of_mem_sends hx)

/-- A call that verifies carries a datagram sent before. -/
private theorem exists_carried {c : Claim} (hmac : Unforged P config make es (.inr i))
    (hc : verify P i.buf config i.localEpoch i.dir = .ok c) :
    ∃ x ∈ sent P config make es, Carries .nodeToCollector i x ∧ c.epochId = x.epoch ∧
      c.header.datagramOffset = x.offset ∧ c.finish config = .ok (x.received config) := by
  obtain ⟨x, hx, hinput⟩ := hmac i rfl c hc
  exact ⟨x, hx, (sealed_sent hmake es x hx).carries_of_verify hc hinput⟩

/-- No datagram is delivered twice, and none that was not sent. -/
theorem delivered_nodup_subset (hnew : PeerState.new config = .ok s)
    (hmono : (rights es).Pairwise fun a b => a.localEpoch ≤ b.localEpoch)
    (hmac : Guarded (Unforged P config make) es) :
    (delivered (outputs (accept P) s (rights es))).Nodup ∧
      delivered (outputs (accept P) s (rights es)) ⊆
        (sent P config make es).map (Sent.received config) :=
  ⟨delivered_nodup hnew hmono,
    Channel.delivered_subset (sealed_sent hmake es) hnew (covers_of_guarded hmac)⟩

/-- **Safety.** Whatever the network does, what the receiver delivers is among what the sender has
sent, each datagram at most as often as it was sent. -/
theorem delivered_subperm_sent (hnew : PeerState.new config = .ok s)
    (hmono : (rights es).Pairwise fun a b => a.localEpoch ≤ b.localEpoch)
    (hmac : Guarded (Unforged P config make) es) :
    (delivered (rights (outputs (step P config make) (.start, s) es))).Subperm
      ((sentOf (lefts (outputs (step P config make) (.start, s) es))).map
        (Sent.received config)) := by
  rw [step, rights_outputs_par, lefts_outputs_par]
  obtain ⟨hnodup, hsub⟩ := delivered_nodup_subset hmake hnew hmono hmac
  exact List.subperm_of_subset hnodup hsub

section Unlimited

variable (hlimit : config.inboundRateLimit = none) (hnew : PeerState.new config = .ok s)
include hlimit hnew

/-- A call that carries a datagram is answered by the datagrams carried before. -/
theorem accept_of_carries
    (hmono : (rights es ++ [i]).Pairwise fun a b => a.localEpoch ≤ b.localEpoch)
    (hmac : Guarded (Unforged P config make) es) (hx : x ∈ sent P config make es)
    (hcarries : Carries .nodeToCollector i x) :
    ((accept P (final (accept P) s (rights es)) i).1 = .error .replay ↔
        ¬Timely .nodeToCollector (sent P config make es) (rights es) x) ∧
      (Timely .nodeToCollector (sent P config make es) (rights es) x →
        (accept P (final (accept P) s (rights es)) i).1 = .ok (x.received config)) :=
  Channel.accept_of_carries (sealed_sent hmake es) hlimit hnew hmono (covers_of_guarded hmac) hx
    hcarries

/-- **Every answer of the receiver, by the datagrams alone.** A call delivers exactly a datagram
sent before that it carries in time, and is refused as a replay exactly if it carries one too late
or whose offset was carried before; every other call fails for another reason. -/
theorem accept_iff_carries
    (hmono : (rights es ++ [i]).Pairwise fun a b => a.localEpoch ≤ b.localEpoch)
    (hmac : Guarded (Unforged P config make) (es ++ [.inr i])) :
    (∀ acc, (step P config make (final (step P config make) (.start, s) es) (.inr i)).1 =
        .inr (.ok acc) ↔ ∃ x ∈ sent P config make es, Carries .nodeToCollector i x ∧
          Timely .nodeToCollector (sent P config make es) (rights es) x ∧
          acc = x.received config) ∧
      ((step P config make (final (step P config make) (.start, s) es) (.inr i)).1 =
        .inr (.error .replay) ↔ ∃ x ∈ sent P config make es, Carries .nodeToCollector i x ∧
          ¬Timely .nodeToCollector (sent P config make es) (rights es) x) := by
  obtain ⟨hmac, hlast⟩ := guarded_concat.mp hmac
  have hcarried : ∀ x ∈ sent P config make es, Carries .nodeToCollector i x → _ :=
    fun x hx hcarries => accept_of_carries hmake hlimit hnew hmono hmac hx hcarries
  rw [step, final_par]
  simp only [par, Sum.inr.injEq]
  refine ⟨fun acc => ⟨fun h => ?_, ?_⟩, ⟨fun h => ?_, ?_⟩⟩
  · obtain ⟨c, hc, hfinish, -⟩ := exists_verify_of_final hnew h
    obtain ⟨x, hx, hcarries, -, -, hfinish'⟩ := exists_carried hmake hlast hc
    have htimely : Timely .nodeToCollector (sent P config make es) (rights es) x := by
      by_contra hnot
      rw [(hcarried x hx hcarries).1.mpr hnot] at h
      cases h
    exact ⟨x, hx, hcarries, htimely, Except.ok.inj (hfinish.symm.trans hfinish')⟩
  · rintro ⟨x, hx, hcarries, htimely, rfl⟩
    exact (hcarried x hx hcarries).2 htimely
  · -- a refusal comes from the window, so the call verified
    cases hv : verify P i.buf config i.localEpoch i.dir with
    | error err =>
      obtain ⟨ws, heq, hunverified, -⟩ := acceptInner_of_verify_error
        (sound_final hnew (rights es)).distinct ((config_final_eq hnew (rights es)).symm ▸ hv)
      rw [accept_eq, heq] at h
      rw [Except.error.inj h] at hunverified
      cases hunverified
    | ok c =>
      obtain ⟨x, hx, hcarries, -⟩ := exists_carried hmake hlast hv
      exact ⟨x, hx, hcarries, (hcarried x hx hcarries).1.mp h⟩
  · rintro ⟨x, hx, hcarries, hnot⟩
    exact (hcarried x hx hcarries).1.mpr hnot

/-! ### Deliveries in time -/

/-- Some call carries the datagram before any call carries one of its epoch 4096 ticks or more
ahead of it. -/
def InTime (P : Primitives) (config : PeerConfig) (make : Make) (es : List Event) (x : Sent) :
    Prop :=
  ∃ pre i post, es = pre ++ .inr i :: post ∧ Carries .nodeToCollector i x ∧ ∀ j ∈ rights pre,
    ∀ y ∈ sent P config make pre, Carries .nodeToCollector j y → y.epoch = x.epoch →
      y.offset.toNat < x.offset.toNat + 4096

/-- What is carried in time is delivered: at the first call that carries it. -/
private theorem received_mem_delivered (hclock : Guarded Pacer.EntersAbove (lefts es))
    (hmono : (rights es).Pairwise fun a b => a.localEpoch ≤ b.localEpoch)
    (hmac : Guarded (Unforged P config make) es) (hx : x ∈ sent P config make es)
    (htime : InTime P config make es x) :
    x.received config ∈ delivered (outputs (accept P) s (rights es)) := by
  have hpairs : ((sent P config make es).map Sent.pair).Nodup := Sender.nodup_pairs hclock
  have hinj := List.inj_on_of_nodup_map hpairs
  obtain ⟨pre, i, post, heq, hcarries, hahead⟩ := htime
  induction hn : pre.length using Nat.strong_induction_on generalizing pre i post with
  | h n ih =>
    subst hn heq
    have hpre : Guarded (Unforged P config make) pre := by
      simpa using hmac.take pre.length
    have hi : (rights pre ++ [i]).Pairwise fun a b => a.localEpoch ≤ b.localEpoch := by
      refine hmono.sublist ?_
      rw [rights_append, rights_cons_inr]
      exact List.Sublist.append_left (List.singleton_sublist.mpr List.mem_cons_self) _
    -- what the call carries was sent before it
    obtain ⟨hbuf, hdir, hin⟩ := hcarries
    obtain ⟨c, hc, -, hepoch, hoff, hfinish⟩ := (sealed_sent hmake _ x hx).exists_verify_wire hin
    rw [← hbuf, ← hdir] at hc
    obtain ⟨y, hy, hcarries', hepoch', hoff', hfinish'⟩ :=
      exists_carried hmake (unforged_of_append hmac) hc
    have hpair : y.pair = x.pair :=
      Prod.ext (hepoch'.symm.trans hepoch) (hoff'.symm.trans hoff)
    obtain ⟨hreplay, hok⟩ := accept_of_carries hmake hlimit hnew hi hpre hy hcarries'
    by_cases htimely : Timely .nodeToCollector (sent P config make pre) (rights pre) y
    · have hans := hok htimely
      rw [Except.ok.inj (hfinish'.symm.trans hfinish)] at hans
      rw [rights_append, rights_cons_inr]
      exact mem_delivered.mpr
        (List.mem_map.mpr ⟨_, mem_trace (accept P) s (rights pre) (rights post) i, hans⟩)
    · -- refused: an earlier call carried it
      simp only [Timely, not_forall, not_and, Nat.not_lt] at htimely
      obtain ⟨j, hj, z, hz, hjz, hze, hfar⟩ := htimely
      have hze' : z.epoch = x.epoch := hze.trans (congrArg Prod.fst hpair)
      have hzo : z.offset = x.offset := by
        by_contra hne
        have hyx : y.offset = x.offset := congrArg Prod.snd hpair
        have := hfar (hyx ▸ hne)
        have := hahead j hj z hz hjz hze'
        rw [hyx] at *
        omega
      obtain rfl : z = x :=
        hinj (sent_subset_append pre _ hz) hx (Prod.ext hze' hzo)
      obtain ⟨pre', post', rfl⟩ := List.append_of_mem (mem_rights.mp hj)
      refine ih pre'.length (by simp) pre' j (post' ++ .inr i :: post) (by simp) hjz ?_ rfl
      intro k hk w hw
      refine hahead k ?_ w (sent_subset_append pre' _ hw)
      rw [rights_append]
      exact List.mem_append_left _ hk

/-- **Exactly once.** If the network carries every datagram sent in time, the receiver delivers
what was sent, each datagram once. -/
theorem delivered_perm_sent (hclock : Guarded Pacer.EntersAbove (lefts es))
    (hmono : (rights es).Pairwise fun a b => a.localEpoch ≤ b.localEpoch)
    (hmac : Guarded (Unforged P config make) es)
    (htime : ∀ x ∈ sent P config make es, InTime P config make es x) :
    (delivered (rights (outputs (step P config make) (.start, s) es))).Perm
      ((sentOf (lefts (outputs (step P config make) (.start, s) es))).map
        (Sent.received config)) := by
  rw [step, rights_outputs_par, lefts_outputs_par]
  obtain ⟨hnodup, hsub⟩ := delivered_nodup_subset hmake hnew hmono hmac
  refine (List.subperm_of_subset hnodup hsub).antisymm (List.subperm_of_subset ?_ ?_)
  · have hpairs : ((sent P config make es).map Sent.pair).Nodup := Sender.nodup_pairs hclock
    refine List.Nodup.of_map (fun acc => (acc.epochId, acc.datagramOffset)) ?_
    rw [List.map_map]
    exact hpairs
  · intro acc hacc
    obtain ⟨x, hx, rfl⟩ := List.mem_map.mp hacc
    exact received_mem_delivered hmake hlimit hnew hclock hmono hmac hx (htime x hx)

end Unlimited

end Run

/-! ### The frozen vector, sent and received twice -/

/-- A reading of 23.50, whatever the sequence number. -/
def vectorMake : Make := fun _ e off => Datagram.number .hmacSha256T64 0x12345678 e off 2 2350

/-- The frozen vector as a datagram sent. -/
def vectorSent : Sent := ⟨13281250, 4096, vectorDatagram, vectorWire⟩

/-- The vector is sent, received, and received again one epoch later. -/
def vectorLink : List Event :=
  [.inl ⟨1700000001, 0⟩, .inr ⟨vectorWire, 13281250, .nodeToCollector, 0⟩,
    .inr ⟨vectorWire, 13281251, .nodeToCollector, 0⟩]

private theorem makes_vectorMake : Makes .hmacSha256T64 0x12345678 vectorMake := by
  intro seq e off d h
  refine ⟨.number h, ?_⟩
  rw [vectorMake, Datagram.number] at h
  split_ifs at h
  rw [← Except.ok.inj h]
  rfl

private theorem unforged_vectorWire {l : UInt32} (hl : l = 13281250 ∨ l = 13281251)
    {pre : List Event} (hpre : vectorSent ∈ sent vectorPrimitives vectorPeer vectorMake pre) :
    Unforged vectorPrimitives vectorPeer vectorMake pre
      (.inr ⟨vectorWire, l, .nodeToCollector, 0⟩) := by
  intro i hi c hc
  obtain rfl := Sum.inr.inj hi
  have hclaim : verify vectorPrimitives vectorWire vectorPeer l .nodeToCollector =
      .ok ⟨.unpack vectorWire, .number, .hmacSha256T64, 13281250, [0x02, 0x09, 0x2E],
        [0x51, 0xC9, 0x8B, 0x04, 0x2E, 0x36, 0x99, 0x46]⟩ := by
    rcases hl with rfl | rfl <;> decide
  obtain rfl := Except.ok.inj (hclaim.symm.trans hc)
  refine ⟨vectorSent, hpre, ?_⟩
  change Claim.macInput _ .nodeToCollector = _
  decide

private theorem unforged_vectorLink : Guarded (Unforged vectorPrimitives vectorPeer vectorMake)
    vectorLink := by
  show Guarded _ ([] ++ [_] ++ [_] ++ [_])
  refine guarded_concat.mpr ⟨guarded_concat.mpr ⟨guarded_concat.mpr ⟨fun n => n.elim0, ?_⟩, ?_⟩, ?_⟩
  · intro i hi
    cases hi
  · exact unforged_vectorWire (.inl rfl) (by decide)
  · exact unforged_vectorWire (.inr rfl) (by decide)

theorem delivered_subperm_sent_vector :
    (delivered (rights (outputs (step vectorPrimitives vectorPeer vectorMake)
      (.start, vectorState) vectorLink))).Subperm [vectorSent.received vectorPeer] := by
  have hnew : PeerState.new vectorPeer = .ok vectorState := by decide
  exact delivered_subperm_sent makes_vectorMake hnew (by decide) unforged_vectorLink

theorem accept_iff_carries_vector :
    (step vectorPrimitives vectorPeer vectorMake
      (final (step vectorPrimitives vectorPeer vectorMake) (.start, vectorState)
        [.inl ⟨1700000001, 0⟩, .inr ⟨vectorWire, 13281250, .nodeToCollector, 0⟩])
      (.inr ⟨vectorWire, 13281251, .nodeToCollector, 0⟩)).1 = .inr (.error .replay) := by
  have hnew : PeerState.new vectorPeer = .ok vectorState := by decide
  refine (accept_iff_carries makes_vectorMake rfl hnew (by decide) unforged_vectorLink).2.mpr
    ⟨vectorSent, by decide, ⟨rfl, rfl, by decide⟩, fun h => ?_⟩
  exact (h ⟨vectorWire, 13281250, .nodeToCollector, 0⟩ (by decide) vectorSent (by decide)
    ⟨rfl, rfl, by decide⟩ rfl).1 rfl

theorem delivered_perm_sent_vector :
    (delivered (rights (outputs (step vectorPrimitives vectorPeer vectorMake)
      (.start, vectorState) vectorLink))).Perm [vectorSent.received vectorPeer] := by
  have hnew : PeerState.new vectorPeer = .ok vectorState := by decide
  refine delivered_perm_sent makes_vectorMake rfl hnew (by decide) (by decide)
    unforged_vectorLink ?_
  intro x hx
  have hsent : sent vectorPrimitives vectorPeer vectorMake vectorLink = [vectorSent] := by decide
  rw [hsent] at hx
  obtain rfl := List.mem_singleton.mp hx
  refine ⟨[.inl ⟨1700000001, 0⟩], ⟨vectorWire, 13281250, .nodeToCollector, 0⟩, _, rfl,
    ⟨rfl, rfl, by decide⟩, fun j hj => ?_⟩
  cases hj

end Link

end Catp
