import Catp.Peer.Direction
import Catp.Session.Sender

/-!
# What a receiver makes of the datagrams sent to it

One direction of one sender: datagrams built and encoded under the key of the direction
(`Channel.Sealed`), and a receiver that is called with any buffers. An input to the MAC stands for
one buffer, one epoch and one direction (`carries_of_verify`). So where every call that verifies
does so over the MAC input of a datagram sent (`Channel.Covers`), it carries that datagram, and the
answers of the receiver are those of the specification of its replay window, run on the datagrams
carried (`accept_of_carries`).

The direction is a parameter, so the sender's datagrams and the collector's messages are instances
of one development:

* `Sealed` is what the sending side owes: a datagram of the constructors, encoded under the key of
  its direction.
* `Covers` is what the MAC owes: a call that verifies does so over the MAC input of one of the
  datagrams. It is the only assumption about the primitives, and it is on the run and not on `P`.
* `Carries` is the network's part. The buffer is the datagram's, and the call comes in its epoch
  or the next and in its direction.

`Timely` says that no call has carried a datagram of the same epoch with the same offset, be it
this one or another, or with one 4096 ticks or more ahead. By `admits_verifiedIn_iff_timely` that
is what the window decides, for an offset that verified need not have been delivered to count.
Deliveries are pairwise different whatever was covered (`delivered_pairwise`), as long as the local
epoch does not decrease.
-/

namespace Catp

open Transducer ReplayWindow

/-! ### What a receiver delivers -/

namespace PeerState

variable {P : Primitives} {config : PeerConfig} {s : PeerState defaultWindowWords}

/-- What the answers of a receiver deliver, in order. -/
def delivered (answers : List (Except Error Accepted)) : List Accepted :=
  answers.filterMap Except.toOption

theorem delivered_append (as bs : List (Except Error Accepted)) :
    delivered (as ++ bs) = delivered as ++ delivered bs :=
  List.filterMap_append

theorem mem_delivered {answers : List (Except Error Accepted)} {acc : Accepted} :
    acc ∈ delivered answers ↔ .ok acc ∈ answers := by
  rw [delivered, List.mem_filterMap]
  constructor
  · rintro ⟨a, ha, hacc⟩
    cases a with
    | error e => cases hacc
    | ok acc' =>
      obtain rfl := Option.some.inj hacc
      exact ha
  · exact fun h => ⟨_, h, rfl⟩

/-- A delivery stands in the run where it was made. -/
theorem exists_of_mem_delivered {is : List Input} {acc : Accepted}
    (h : acc ∈ delivered (outputs (accept P) s is)) :
    ∃ pre i post, is = pre ++ i :: post ∧ (accept P (final (accept P) s pre) i).1 = .ok acc := by
  obtain ⟨p, hp, hacc⟩ := List.mem_map.mp (mem_delivered.mp h)
  obtain ⟨pre, post, his, hans⟩ := exists_of_mem_trace _ _ hp
  exact ⟨pre, p.1, post, his, hans.symm.trans hacc⟩

/-- A delivery without a limiter needs no more than to verify, to frame and not to be a replay. -/
private theorem Unlimited.accept_eq_ok (hs : Unlimited config s) {i : Input} {c : Claim}
    {acc : Accepted}
    (hc : verify P i.buf config i.localEpoch i.dir = .ok c) (hfinish : c.finish config = .ok acc)
    (hans : (s.accept P i).1 ≠ .error .replay) : (s.accept P i).1 = .ok acc := by
  obtain ⟨ws, -, -, -, heq⟩ := acceptInner_of_verify_ok hs.distinct (hs.config_eq.symm ▸ hc)
  rw [accept_eq, heq, hs.config_eq, hs.limiter_eq] at hans ⊢
  dsimp only at hans ⊢
  rw [ne_eq, settle_eq_replay_iff] at hans
  rcases hwin : ((s.windows.live c.epochId).checkAndSet c.header.datagramOffset).1 with e | u
  · obtain rfl := checkAndSet_error hwin
    exact absurd hwin hans
  · rw [settle.eq_def]
    dsimp only
    rw [hfinish]
    rfl

section Run

variable (hnew : new config = .ok s)
include hnew

theorem config_final_eq (is : List Input) : (final (accept P) s is).config = config :=
  (config_final is).trans (new_eq_ok hnew).1

/-- What is delivered was verified, and framed. -/
theorem exists_verify_of_final {is : List Input} {i : Input} {acc : Accepted}
    (h : (accept P (final (accept P) s is) i).1 = .ok acc) :
    ∃ c, verify P i.buf config i.localEpoch i.dir = .ok c ∧ c.finish config = .ok acc ∧
      acc.epochId = c.epochId ∧ acc.datagramOffset = c.header.datagramOffset := by
  obtain ⟨c, hc, hfinish, -, -⟩ := exists_finish_of_accept (sound_final hnew is).distinct h
  rw [config_final_eq hnew is] at hc hfinish
  obtain ⟨out, -, rfl⟩ := finish_eq_ok_iff.mp hfinish
  exact ⟨c, hc, hfinish, rfl, rfl⟩

/-- **At most once.** While the local epoch does not decrease, no two deliveries bear one epoch
and one offset. -/
theorem delivered_pairwise {is : List Input}
    (hmono : is.Pairwise fun a b => a.localEpoch ≤ b.localEpoch) :
    (delivered (outputs (accept P) s is)).Pairwise fun a b =>
      (a.epochId, a.datagramOffset) ≠ (b.epochId, b.datagramOffset) := by
  induction is using List.reverseRecOn with
  | nil => exact List.Pairwise.nil
  | append_singleton is i ih =>
    obtain ⟨his, -, hlast⟩ := List.pairwise_append.mp hmono
    rw [outputs_concat, delivered_append, List.pairwise_append]
    refine ⟨ih his, ?_, ?_⟩
    · cases (accept P (final (accept P) s is) i).1 with
      | error e => exact List.Pairwise.nil
      | ok acc => exact List.pairwise_singleton _ _
    · intro acc hacc acc' hacc' heq
      have hans := List.mem_singleton.mp (mem_delivered.mp hacc')
      obtain ⟨hepoch, hoff⟩ := Prod.mk.inj heq
      obtain ⟨c, hc, -, hepoch', hoff'⟩ := exists_verify_of_final hnew hans.symm
      have hadm := (refines_final (P := P) hnew his).admits_iff (i := i) (by
        rw [map_fst_trace]
        exact fun p hp => hlast p hp i List.mem_cons_self) hc
      -- the offset of the earlier delivery was admitted then
      refine (hadm.mp (by rw [← hans]; nofun)).1 ?_
      obtain ⟨pre, j, post, rfl, hj⟩ := exists_of_mem_delivered hacc
      obtain ⟨c', hc', -, hepochj, hoffj⟩ := exists_verify_of_final hnew hj
      refine ⟨_, mem_trace (accept P) s pre post j, c', hc', ?_, ?_, by rw [hj]; nofun⟩
      · rw [← hepochj, hepoch, hepoch']
      · rw [← hoffj, hoff, hoff']

/-- Nothing is delivered twice. -/
theorem delivered_nodup {is : List Input}
    (hmono : is.Pairwise fun a b => a.localEpoch ≤ b.localEpoch) :
    (delivered (outputs (accept P) s is)).Nodup :=
  (delivered_pairwise hnew hmono).imp fun hne heq => hne (by rw [heq])

end Run

end PeerState

/-- What the receiver gets of a datagram: its records sorted, in order, into those it has a layout
for and those it skips. -/
def Sent.received (config : PeerConfig) (x : Sent) : Accepted where
  datagram := { x.datagram with records := x.datagram.records.filter config.holds }
  epochId := x.epoch
  datagramOffset := x.offset
  skipped := x.datagram.records.filter fun r => !config.holds r

namespace Channel

/-- The call hands the receiver this datagram, in this direction and in the epoch of the datagram
or the next. -/
def Carries (dir : Direction) (i : Input) (x : Sent) : Prop :=
  i.buf = x.wire ∧ i.dir = dir ∧ InWindow i.localEpoch x.epoch

/-- What the MAC of a datagram sent in a direction was computed of. -/
def macInput (cipher : CipherId) (dir : Direction) (x : Sent) : MacInput where
  info := epochKeyInfo x.datagram.senderId x.epoch dir
  cipher := cipher
  nonce := if cipher = .chaCha20Poly1305 then some (nonceBytes x.datagram.datagramOffset) else none
  signed := x.datagram.authHeader x.epoch ++ x.datagram.payload

section

variable (P : Primitives) (config : PeerConfig) (dir : Direction)

/-- The datagram was built for its epoch and tick, and encoded under the key of the direction. -/
structure Sealed (x : Sent) : Prop where
  built : Built config.cipher config.senderId x.epoch x.datagram
  offset_eq : x.datagram.datagramOffset = x.offset
  encoded : x.datagram.encode P config.secret x.epoch dir maxDatagramIpv4 = .ok x.wire

/-- The calls that verify do so over the MAC inputs of these datagrams. -/
def Covers (xs : List Sent) (is : List Input) : Prop :=
  ∀ i ∈ is, ∀ c, verify P i.buf config i.localEpoch i.dir = .ok c →
    ∃ x ∈ xs, c.macInput i.dir = macInput config.cipher dir x

/-- No call carries a datagram of this one's epoch with its offset, or with one 4096 ticks or more
ahead. -/
def Timely (xs : List Sent) (is : List Input) (x : Sent) : Prop :=
  ∀ j ∈ is, ∀ y ∈ xs, Carries dir j y → y.epoch = x.epoch →
    y.offset ≠ x.offset ∧ y.offset.toNat < x.offset.toNat + 4096

end

variable {P : Primitives} {config : PeerConfig} {dir : Direction} {i : Input} {x : Sent}

/-! ### One datagram -/

section Datagram

variable (hx : Sealed P config dir x)
include hx

/-- A datagram sent verifies where it may be accepted, over the MAC input it was sent with. -/
theorem Sealed.exists_verify_wire {l : UInt32} (hl : InWindow l x.epoch) :
    ∃ c, verify P x.wire config l dir = .ok c ∧ c.macInput dir = macInput config.cipher dir x ∧
      c.epochId = x.epoch ∧ c.header.datagramOffset = x.offset ∧
      c.finish config = .ok (x.received config) := by
  obtain ⟨hbuilt, hoffset, hencoded⟩ := hx
  obtain ⟨c, hverify, hepoch, hoff, hframe⟩ := verify_wire hbuilt hencoded rfl rfl rfl hl
  obtain ⟨-, hheader, -, -, -, -, -, -, hcipher, -⟩ :=
    checkHeader_eq_ok_iff.mp (verify_eq_ok_iff.mp hverify).1
  obtain ⟨hpay, -, hsame⟩ := payload_of_frame (by rw [hheader]; rfl) hframe
  have hsender : x.datagram.senderId = c.header.senderId := (congrArg Datagram.senderId hsame :)
  have hauth : x.datagram.authHeader x.epoch = c.header.authHeader x.epoch :=
    (congrArg (Datagram.authHeader · x.epoch) hsame :)
  refine ⟨c, hverify, ?_, hepoch, hoff.trans hoffset,
    finish_eq_ok_iff.mpr ⟨x.datagram, hframe, ?_⟩⟩
  · rw [Claim.macInput, macInput, Claim.signed, hepoch, hcipher, hoff, hsender, hauth, hpay]
  · rw [Claim.deliver, List.partition_eq_filter_filter, hepoch, hoff, Sent.received, ← hoffset]
    rfl

/-- **A MAC input stands for one buffer.** A call that verifies over the MAC input of a datagram
sent carries that datagram. -/
theorem Sealed.carries_of_verify {c : Claim}
    (hc : verify P i.buf config i.localEpoch i.dir = .ok c)
    (hinput : c.macInput i.dir = macInput config.cipher dir x) :
    Carries dir i x ∧ c.epochId = x.epoch ∧ c.header.datagramOffset = x.offset ∧
      c.finish config = .ok (x.received config) := by
  obtain ⟨c', hc', hinput', hepoch', hoff', -⟩ := hx.exists_verify_wire (inWindow_self x.epoch)
  obtain ⟨hhead, hauth⟩ := verify_eq_ok_iff.mp hc
  obtain ⟨hhead', hauth'⟩ := verify_eq_ok_iff.mp hc'
  obtain ⟨hinfo, hcipher, -, hsigned⟩ := MacInput.mk.inj (hinput.trans hinput'.symm)
  obtain ⟨-, -, hdir⟩ := epochKeyInfo_inj hinfo
  obtain ⟨hepoch, hheader, hpayload⟩ := signed_inj hhead hhead' hsigned
  -- equal inputs have equal tags, and then the buffers are put together of the same parts
  have htag : c.tag = c'.tag := by
    rw [(authenticate_eq_ok_iff.mp hauth).2, (authenticate_eq_ok_iff.mp hauth').2, hcipher, hepoch,
      hheader, hsigned, hdir]
  have hbuf : i.buf = x.wire := by
    rw [(eq_append_of_checkHeader hhead).1, (eq_append_of_checkHeader hhead').1, hheader, hpayload,
      htag]
  have hin : InWindow i.localEpoch x.epoch := by
    rw [← hepoch', ← hepoch]
    exact InWindow.of_reconstructEpoch (claim_epoch_of_checkHeader hhead)
  refine ⟨⟨hbuf, hdir, hin⟩, hepoch.trans hepoch', hheader ▸ hoff', ?_⟩
  obtain ⟨c'', hc'', -, -, -, hfinish⟩ := hx.exists_verify_wire hin
  rw [hbuf, hdir] at hc
  obtain rfl := Except.ok.inj (hc.symm.trans hc'')
  exact hfinish

end Datagram

/-! ### Runs -/

section Run

variable {s : PeerState defaultWindowWords} {xs : List Sent} {is : List Input}
  (hsealed : ∀ x ∈ xs, Sealed P config dir x)

private theorem Covers.mono {ys : List Sent} {js : List Input} (h : Covers P config dir xs is)
    (hxs : xs ⊆ ys) (hjs : js ⊆ is) : Covers P config dir ys js := by
  intro i hi c hc
  obtain ⟨x, hx, hinput⟩ := h i (hjs hi) c hc
  exact ⟨x, hxs hx, hinput⟩

include hsealed

/-- The offsets that verified are those of the datagrams carried. -/
private theorem mem_verifiedIn {e o : UInt32} (hcover : Covers P config dir xs is) :
    o ∈ PeerState.verifiedIn P config is e ↔
      ∃ j ∈ is, ∃ y ∈ xs, Carries dir j y ∧ y.epoch = e ∧ y.offset = o := by
  constructor
  · rintro ⟨j, hj, c, hc, rfl, rfl⟩
    obtain ⟨y, hy, hinput⟩ := hcover j hj c hc
    obtain ⟨hcarries, hepoch, hoff, -⟩ := (hsealed y hy).carries_of_verify hc hinput
    exact ⟨j, hj, y, hy, hcarries, hepoch.symm, hoff.symm⟩
  · rintro ⟨j, hj, y, hy, ⟨hbuf, rfl, hin⟩, rfl, rfl⟩
    obtain ⟨c, hc, -, hepoch, hoff, -⟩ := (hsealed y hy).exists_verify_wire hin
    exact ⟨j, hj, c, by rw [hbuf]; exact hc, hepoch, hoff⟩

private theorem admits_verifiedIn_iff_timely (hcover : Covers P config dir xs is) :
    Admits 4096 (PeerState.verifiedIn P config is x.epoch) x.offset ↔ Timely dir xs is x := by
  constructor
  · rintro ⟨hnot, hlt⟩ j hj y hy hcarries hepoch
    have hmem := (mem_verifiedIn hsealed hcover).mpr ⟨j, hj, y, hy, hcarries, hepoch, rfl⟩
    exact ⟨fun h => hnot (h ▸ hmem), hlt _ hmem⟩
  · intro h
    refine ⟨fun hmem => ?_, fun o hmem => ?_⟩
    · obtain ⟨j, hj, y, hy, hcarries, hepoch, hoff⟩ := (mem_verifiedIn hsealed hcover).mp hmem
      exact (h j hj y hy hcarries hepoch).1 hoff
    · obtain ⟨j, hj, y, hy, hcarries, hepoch, rfl⟩ := (mem_verifiedIn hsealed hcover).mp hmem
      exact (h j hj y hy hcarries hepoch).2

/-- A call that is delivered carries a datagram sent, and delivers it. -/
theorem exists_carried_of_accept (hnew : PeerState.new config = .ok s)
    (hcover : Covers P config dir xs [i]) {acc : Accepted}
    (h : (PeerState.accept P (final (PeerState.accept P) s is) i).1 = .ok acc) :
    ∃ x ∈ xs, Carries dir i x ∧ acc = x.received config := by
  obtain ⟨c, hc, hfinish, -⟩ := PeerState.exists_verify_of_final hnew h
  obtain ⟨x, hx, hinput⟩ := hcover i (List.mem_singleton_self i) c hc
  obtain ⟨hcarries, -, -, hfinish'⟩ := (hsealed x hx).carries_of_verify hc hinput
  exact ⟨x, hx, hcarries, Except.ok.inj (hfinish.symm.trans hfinish')⟩

/-- What is delivered was sent. -/
theorem delivered_subset (hnew : PeerState.new config = .ok s)
    (hcover : Covers P config dir xs is) :
    PeerState.delivered (outputs (PeerState.accept P) s is) ⊆ xs.map (Sent.received config) := by
  intro acc hacc
  obtain ⟨pre, i, post, rfl, hans⟩ := PeerState.exists_of_mem_delivered hacc
  obtain ⟨x, hx, -, rfl⟩ := exists_carried_of_accept hsealed hnew
    (hcover.mono (List.Subset.refl xs) (by simp)) hans
  exact List.mem_map_of_mem hx

variable (hlimit : config.inboundRateLimit = none) (hnew : PeerState.new config = .ok s)
include hlimit hnew

/-- A call that carries a datagram is answered by the datagrams carried before. -/
theorem accept_of_carries (hmono : (is ++ [i]).Pairwise fun a b => a.localEpoch ≤ b.localEpoch)
    (hcover : Covers P config dir xs is) (hx : x ∈ xs) (hcarries : Carries dir i x) :
    ((PeerState.accept P (final (PeerState.accept P) s is) i).1 = .error .replay ↔
        ¬Timely dir xs is x) ∧
      (Timely dir xs is x →
        (PeerState.accept P (final (PeerState.accept P) s is) i).1 = .ok (x.received config)) := by
  obtain ⟨hbuf, hdir, hin⟩ := hcarries
  obtain ⟨c, hc, -, hepoch, hoff, hfinish⟩ := (hsealed x hx).exists_verify_wire hin
  rw [← hbuf, ← hdir] at hc
  have hadm := PeerState.ne_replay_iff_verifiedIn hnew hmono hc
  rw [hepoch, hoff, admits_verifiedIn_iff_timely hsealed hcover] at hadm
  exact ⟨(not_iff_comm.mp hadm).symm, fun h =>
    (PeerState.unlimited_final hlimit hnew _).accept_eq_ok hc hfinish (hadm.mpr h)⟩

end Run

end Channel

end Catp
