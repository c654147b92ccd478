import Catp.Lib.Interleave
import Catp.Lib.Rising
import Catp.Session.Channel
import Catp.Wire.Control

/-!
# Announcing epochs

Section 9.4 of `docs/PROTOCOL.md`: the collector sends a node control messages, among them the
epochs it asserts, each as often as it likes. The node verifies every buffer it gets in the
direction of the collector, parses the payload, and applies an `EPOCH_ANNOUNCE` with
`accept_epoch_announce`.

The replay window does not see the floor of the announcements (`receive_withFloor`): the window
decides which messages are taken, and the floor is a bound that rises with the epochs taken
(`Follows`). So whatever the network does the epochs applied rise (`applied_spec`), and the
floor ends at the largest epoch that got through in time, however often and in whatever order
(`floor_iff`).

* **The node.** `receive` is the window's answer, then the parser, then the rule for
  announcements. It verifies in the direction of the collector whatever the caller says
  (`inbound`).
* **The floor.** `acceptEpochAnnounce_eq` makes the rule a step of `Rising.rise`, and `Follows` is
  the invariant of a run: the messages taken are those the window lets through, the epochs applied
  are those a rising bound takes of their targets, and the state is the window's with that bound
  put in. One step is `Follows.receive`.
* **The network.** The collector's messages are a `Channel` in the other direction, so what that
  module says of deliveries holds of the messages in them (`mem_controls_iff`).

Besides `Unforged`, two things are asked of every run: the local epoch of the node does not
decrease, and no `TIME_ANNOUNCE` is among the messages, since a node verifies those under another
key and by another path. `CarriedInTime` is a condition on the run alone; for the floor to be the
largest epoch of the messages carried in time, the node has no rate limit.
-/

namespace Catp

open Transducer

namespace Announce

/-- A control message of the collector, and when it is sent. -/
structure Message where
  control : Control
  epoch : UInt32
  offset : UInt32
  deriving DecidableEq, Repr

/-- What the node makes of a buffer. -/
inductive Answer
  /-- The buffer is not accepted. -/
  | refused (e : Error)
  /-- The payload of a buffer accepted is no control message. -/
  | unparsed (e : Error)
  /-- The message is taken; an announcement is applied, or its epoch is too low. -/
  | taken (c : Control) (applied : Except Error Unit)
  deriving DecidableEq

section

variable (P : Primitives) (config : PeerConfig)

/-- Encode a message for the node. -/
def Message.send (m : Message) : Except Error Sent :=
  match m.control.encode with
  | .error e => .error e
  | .ok body =>
    match Datagram.control m.control.msgType config.cipher config.senderId m.epoch m.offset
        body with
    | .error e => .error e
    | .ok dg =>
      match dg.encode P config.secret m.epoch .collectorToNode maxDatagramIpv4 with
      | .error e => .error e
      | .ok wire => .ok ⟨m.epoch, m.offset, dg, wire⟩

/-- The call of a node: it verifies in the direction of the collector. -/
def inbound (i : Input) : Input := { i with dir := .collectorToNode }

/-- Apply a message that has been authenticated. -/
def apply (s : PeerState defaultWindowWords) :
    Control → Except Error Unit × PeerState defaultWindowWords
  | .epochAnnounce targetEpoch => s.acceptEpochAnnounce targetEpoch
  | _ => (.ok (), s)

/-- The message in what was accepted. -/
def content : Except Error Accepted → Except Answer Control
  | .error e => .error (.refused e)
  | .ok acc =>
    match MsgType.fromU8 acc.datagram.msgType with
    | none => .error (.unparsed (.badMsgType acc.datagram.msgType))
    | some mt =>
      match Control.parse mt acc.datagram.raw with
      | .error e => .error (.unparsed e)
      | .ok c => .ok c

/-- The node is handed a buffer. -/
def receive (s : PeerState defaultWindowWords) (i : Input) :
    Answer × PeerState defaultWindowWords :=
  match s.accept P (inbound i) with
  | (result, s) =>
    match content result with
    | .error a => (a, s)
    | .ok c => (.taken c (apply s c).1, (apply s c).2)

/-- A message sent, or a buffer handed to the node. -/
abbrev Event := Message ⊕ Input

/-- The collector and the node side by side. -/
def step : Unit × PeerState defaultWindowWords → Event →
    (Except Error Sent ⊕ Answer) × (Unit × PeerState defaultWindowWords) :=
  par (fun _ m => (m.send P config, ())) (receive P)

/-- The messages sent so far, as datagrams. -/
def sent (es : List Event) : List Sent := (lefts es).filterMap fun m => (m.send P config).toOption

/-- **The key of the direction is the collector's own**: whatever MAC input the node finds the tag
of, the collector has computed the tag of it before. -/
def Unforged (pre : List Event) (e : Event) : Prop :=
  ∀ i, e = .inr i → ∀ c, verify P i.buf config i.localEpoch .collectorToNode = .ok c →
    ∃ x ∈ sent P config pre,
      c.macInput .collectorToNode = Channel.macInput config.cipher .collectorToNode x

end

/-- The messages taken. -/
def controls (as : List Answer) : List Control :=
  as.filterMap fun a => match a with
    | .taken c _ => some c
    | _ => none

/-- The epoch a message asserts. -/
def target : Control → Option UInt32
  | .epochAnnounce t => some t
  | _ => none

/-- The epochs asserted by the messages taken. -/
def targets (as : List Answer) : List UInt32 := (controls as).filterMap target

/-- The epochs applied. -/
def applied (as : List Answer) : List UInt32 :=
  as.filterMap fun a => match a with
    | .taken c (.ok _) => target c
    | _ => none

/-! ### The floor and the window -/

scoped instance instLinearOrderEpoch : LinearOrder UInt32 where
  le_refl := UInt32.le_refl
  le_trans _ _ _ := UInt32.le_trans
  le_antisymm _ _ := UInt32.le_antisymm
  le_total := UInt32.le_total
  lt_iff_le_not_ge a b := by
    rw [UInt32.not_le]
    exact ⟨fun h => ⟨UInt32.le_of_lt h, h⟩, fun h => h.2⟩
  toDecidableLE := inferInstance
  toDecidableLT := inferInstance
  toDecidableEq := inferInstance

section Floor

variable {P : Primitives} {s : PeerState defaultWindowWords}

/-- The state with another floor. -/
def withFloor (s : PeerState defaultWindowWords) (floor : Option UInt32) :
    PeerState defaultWindowWords :=
  { s with highestEpochAnnounced := floor }

/-- The replay window does not see the floor. -/
private theorem accept_withFloor (floor : Option UInt32) (i : Input) :
    (withFloor s floor).accept P i = ((s.accept P i).1, withFloor (s.accept P i).2 floor) := by
  have hinner : (withFloor s floor).acceptInner P i =
      ((s.acceptInner P i).1, withFloor (s.acceptInner P i).2 floor) := by
    by_cases hlen : i.buf.length < headerLen
    · simp only [PeerState.acceptInner, if_pos hlen]
    cases he : reconstructEpoch i.localEpoch (i.buf[1]! &&& 0x0F) with
    | none => simp only [PeerState.acceptInner, if_neg hlen, he]
    | some e =>
      rw [PeerState.acceptInner_of_reconstruct hlen he,
        PeerState.acceptInner_of_reconstruct hlen he]
      simp only [withFloor]
      cases verify P i.buf s.config i.localEpoch i.dir with
      | error err => rfl
      | ok c => rfl
  rw [PeerState.accept_eq, hinner]
  rfl

/-- An announcement is applied by the rule of a bound that rises. -/
private theorem acceptEpochAnnounce_eq (t : UInt32) :
    ((s.acceptEpochAnnounce t).1 = .ok () ↔ (Rising.rise s.highestEpochAnnounced t).1 = true) ∧
      (s.acceptEpochAnnounce t).2 = withFloor s (Rising.rise s.highestEpochAnnounced t).2 := by
  rw [PeerState.acceptEpochAnnounce, Rising.rise.eq_def]
  rcases hfloor : s.highestEpochAnnounced with _ | hi
  · exact ⟨iff_of_true rfl rfl, rfl⟩
  · dsimp only
    split_ifs with hle
    · exact ⟨iff_of_false (by simp) (by simp), by rw [withFloor, ← hfloor]⟩
    · exact ⟨iff_of_true rfl rfl, rfl⟩

/-- A message is applied as its target is. -/
private theorem apply_eq (c : Control) :
    ((apply s c).1 = .ok () ↔ ∀ t ∈ target c, (Rising.rise s.highestEpochAnnounced t).1 = true) ∧
      (apply s c).2 =
        withFloor s (final Rising.rise s.highestEpochAnnounced (target c).toList) := by
  cases c with
  | epochAnnounce t =>
    obtain ⟨hok, hstate⟩ := acceptEpochAnnounce_eq (s := s) t
    refine ⟨hok.trans ⟨?_, fun h => h t rfl⟩, hstate⟩
    rintro h t ⟨⟩
    exact h
  | timeAnnounce | heartbeat | capability => exact ⟨iff_of_true rfl (by simp [target]), rfl⟩

/-- **What the node does with a buffer.** The window answers; the floor only sees what is taken. -/
theorem receive_withFloor (floor : Option UInt32) (i : Input) :
    receive P (withFloor s floor) i =
      match content (s.accept P (inbound i)).1 with
      | .error a => (a, withFloor (s.accept P (inbound i)).2 floor)
      | .ok c => (.taken c (apply (withFloor (s.accept P (inbound i)).2 floor) c).1,
          (apply (withFloor (s.accept P (inbound i)).2 floor) c).2) := by
  rw [receive, accept_withFloor]

private theorem controls_append (as bs : List Answer) :
    controls (as ++ bs) = controls as ++ controls bs :=
  List.filterMap_append

private theorem targets_append (as bs : List Answer) :
    targets (as ++ bs) = targets as ++ targets bs := by
  rw [targets, controls_append, List.filterMap_append]
  rfl

private theorem applied_append (as bs : List Answer) :
    applied (as ++ bs) = applied as ++ applied bs :=
  List.filterMap_append

private theorem applied_taken (c : Control) (v : Except Error Unit) :
    applied [.taken c v] = if v = .ok () then (target c).toList else [] := by
  rcases v with e | u
  · rfl
  · rw [if_pos rfl]
    cases c <;> rfl

/-- An answer without a message in it. -/
private theorem eq_nil_of_content {r : Except Error Accepted} {a : Answer}
    (h : content r = .error a) :
    controls [a] = [] ∧ applied [a] = [] := by
  have hne : ∀ c v, a ≠ .taken c v := by
    rintro c v rfl
    rw [content.eq_def] at h
    split at h
    · cases h
    · split at h
      · cases h
      · split at h <;> cases h
  cases a with
  | refused e => exact ⟨rfl, rfl⟩
  | unparsed e => exact ⟨rfl, rfl⟩
  | taken c v => exact absurd rfl (hne c v)

/-- The node after a run, and what it has taken and applied. -/
structure Follows (P : Primitives) (s : PeerState defaultWindowWords) (is : List Input)
    (answers : List Answer) (t : PeerState defaultWindowWords) : Prop where
  controls_eq : controls answers = (outputs (PeerState.accept P) s (is.map inbound)).filterMap
    fun r => (content r).toOption
  applied_eq : applied answers = Rising.taken (trace Rising.rise none (targets answers))
  state_eq : t = withFloor (final (PeerState.accept P) s (is.map inbound))
    (final Rising.rise none (targets answers))

/-- One buffer. -/
theorem Follows.receive {is : List Input} {answers : List Answer}
    {t : PeerState defaultWindowWords} (h : Follows P s is answers t) (i : Input) :
    Follows P s (is ++ [i]) (answers ++ [(receive P t i).1]) (receive P t i).2 := by
  obtain ⟨hcontrols, happlied, rfl⟩ := h
  rw [receive_withFloor]
  -- nothing is taken from the buffer, or the message in it is
  rcases hcontent : content (PeerState.accept P
      (final (PeerState.accept P) s (is.map inbound)) (inbound i)).1 with a | c
  · obtain ⟨hnone, hnone'⟩ := eq_nil_of_content hcontent
    have htargets : targets (answers ++ [a]) = targets answers := by
      rw [targets_append, targets, targets, hnone, List.filterMap_nil, List.append_nil]
    refine ⟨?_, ?_, ?_⟩
    · rw [controls_append, hcontrols, hnone, List.map_append, List.map_singleton, outputs_concat,
        List.filterMap_append, List.filterMap_cons, hcontent]
      rfl
    · rw [applied_append, hnone', List.append_nil, htargets, happlied]
    · rw [htargets, List.map_append, List.map_singleton, final_concat]
  · dsimp only
    obtain ⟨hok, hstate⟩ := apply_eq (s := withFloor (PeerState.accept P
      (final (PeerState.accept P) s (is.map inbound)) (inbound i)).2
      (final Rising.rise none (targets answers))) c
    generalize (apply _ c).1 = v at hok
    have htargets : targets (answers ++ [.taken c v]) = targets answers ++ (target c).toList := by
      rw [targets_append]
      cases c <;> rfl
    refine ⟨?_, ?_, ?_⟩
    · rw [controls_append, hcontrols, List.map_append, List.map_singleton, outputs_concat,
        List.filterMap_append, List.filterMap_cons, hcontent]
      rfl
    · rw [applied_append, applied_taken, htargets, happlied, if_congr hok rfl rfl]
      cases target c with
      | none => simp
      | some t =>
        rw [Option.toList_some, Rising.taken_concat]
        simp [withFloor]
    · rw [hstate, htargets, final_append, List.map_append, List.map_singleton, final_concat]
      rfl

/-- Every run of a node that has not been announced an epoch. -/
private theorem follows_final (hfloor : s.highestEpochAnnounced = none) (is : List Input) :
    Follows P s is (outputs (receive P) s is) (final (receive P) s is) := by
  induction is using List.reverseRecOn with
  | nil => exact ⟨rfl, rfl, by rw [withFloor, ← hfloor]; rfl⟩
  | append_singleton is i ih =>
    rw [outputs_concat, final_concat]
    exact ih.receive i

end Floor

/-! ### One message -/

section Message

variable {P : Primitives} {config : PeerConfig} {m : Message} {x : Sent}

/-- What is sent was encoded, built and sealed. -/
theorem Message.send_spec (h : m.send P config = .ok x) : ∃ body, m.control.encode = .ok body ∧
    Datagram.control m.control.msgType config.cipher config.senderId x.epoch x.offset body =
      .ok x.datagram ∧
    x.datagram.encode P config.secret x.epoch .collectorToNode maxDatagramIpv4 = .ok x.wire := by
  rw [send.eq_def] at h
  rcases hbody : m.control.encode with e | body
  · rw [hbody] at h
    cases h
  rw [hbody] at h
  dsimp only at h
  rcases hdg : Datagram.control m.control.msgType config.cipher config.senderId m.epoch m.offset
    body with e | dg
  · rw [hdg] at h
    cases h
  rw [hdg] at h
  dsimp only at h
  rcases hwire : dg.encode P config.secret m.epoch .collectorToNode maxDatagramIpv4 with e | wire
  · rw [hwire] at h
    cases h
  rw [hwire] at h
  obtain rfl := Except.ok.inj h
  exact ⟨body, rfl, hdg, hwire⟩

private theorem control_eq_ok {mt : MsgType} {cipher : CipherId} {sender e off : UInt32}
    {body : Bytes} {d : Datagram} (h : Datagram.control mt cipher sender e off body = .ok d) :
    d = { Datagram.base mt cipher sender e off with raw := body } := by
  rw [Datagram.control] at h
  split_ifs at h
  exact (Except.ok.inj h).symm

/-- What the collector sends is sealed in its direction. -/
private theorem Message.sealed_of_send (h : m.send P config = .ok x)
    (hkind : m.control.msgType ≠ .timeAnnounce) : Channel.Sealed P config .collectorToNode x := by
  obtain ⟨body, -, hdg, hwire⟩ := send_spec h
  refine ⟨.control hdg hkind ?_, by rw [control_eq_ok hdg]; rfl, hwire⟩
  cases m.control <;> simp [Control.msgType]

/-- The message in what the node gets is the one sent. -/
private theorem Message.content_received (h : m.send P config = .ok x) :
    content (.ok (x.received config)) = .ok m.control := by
  obtain ⟨body, hbody, hdg, -⟩ := send_spec h
  have hparse : Control.parse m.control.msgType body = .ok m.control :=
    Control.parse_eq_ok_iff.mpr ⟨rfl, hbody⟩
  rw [content, Sent.received, control_eq_ok hdg]
  dsimp only
  rw [Datagram.base]
  simp only [MsgType.fromU8_toU8, hparse]

end Message

/-! ### Runs -/

section Run

variable {P : Primitives} {config : PeerConfig} {s : PeerState defaultWindowWords} {es : List Event}

private theorem mem_sent {x : Sent} :
    x ∈ sent P config es ↔ ∃ m ∈ lefts es, m.send P config = .ok x := by
  rw [sent, List.mem_filterMap]
  refine exists_congr fun m => and_congr_right fun _ => ?_
  cases m.send P config <;> simp [Except.toOption]

theorem sent_subset_append (es fs : List Event) : sent P config es ⊆ sent P config (es ++ fs) := by
  rw [sent, sent, lefts_append, List.filterMap_append]
  exact List.subset_append_left _ _

/-- Every call of the run verifies over the MAC input of a message sent before. -/
private theorem covers_of_append {pre post : List Event} {i : Input}
    (h : Guarded (Unforged P config) (pre ++ .inr i :: post)) :
    Channel.Covers P config .collectorToNode (sent P config pre) [inbound i] := by
  intro j hj c hc
  obtain rfl := List.mem_singleton.mp hj
  have hn := h ⟨pre.length, by simp⟩
  simp only [Fin.getElem_fin, List.take_left', List.getElem_append_right, le_refl, Nat.sub_self,
    List.getElem_cons_zero] at hn
  exact hn i rfl c hc

theorem covers_of_guarded (h : Guarded (Unforged P config) es) :
    Channel.Covers P config .collectorToNode (sent P config es) ((rights es).map inbound) := by
  intro j hj c hc
  obtain ⟨i, hi, rfl⟩ := List.mem_map.mp hj
  obtain ⟨pre, post, rfl⟩ := List.append_of_mem (mem_rights.mp hi)
  obtain ⟨x, hx, hinput⟩ := covers_of_append h (inbound i) (List.mem_singleton_self _) c hc
  exact ⟨x, sent_subset_append pre _ hx, hinput⟩

private theorem floor_of_new (hnew : PeerState.new config = .ok s) :
    s.highestEpochAnnounced = none := by
  rw [PeerState.new] at hnew
  split_ifs at hnew
  rw [← Except.ok.inj hnew]

/-- The messages in a list of answers of the window are those in what it delivers. -/
private theorem filterMap_content (rs : List (Except Error Accepted)) :
    rs.filterMap (fun r => (content r).toOption) =
      (PeerState.delivered rs).filterMap fun acc => (content (.ok acc)).toOption := by
  rw [PeerState.delivered, List.filterMap_filterMap]
  refine List.filterMap_congr fun r _ => ?_
  cases r <;> rfl

variable (hkind : ∀ m ∈ lefts es, m.control.msgType ≠ .timeAnnounce)

include hkind in
theorem sealed_sent : ∀ x ∈ sent P config es, Channel.Sealed P config .collectorToNode x := by
  intro x hx
  obtain ⟨m, hm, hsend⟩ := mem_sent.mp hx
  exact Message.sealed_of_send hsend (hkind m hm)

/-- The messages in what the node may get are among those sent. -/
private theorem sublist_control (ms : List Message) :
    (((ms.filterMap fun m => (m.send P config).toOption).map (Sent.received config)).filterMap
      fun acc => (content (.ok acc)).toOption).Sublist (ms.map Message.control) := by
  induction ms with
  | nil => exact List.Sublist.slnil
  | cons m ms ih =>
    rcases hsend : m.send P config with e | x
    · rw [List.filterMap_cons_none (by rw [hsend]; rfl)]
      exact ih.cons _
    · rw [List.filterMap_cons_some (by rw [hsend]; rfl), List.map_cons, List.map_cons,
        List.filterMap_cons_some (by rw [Message.content_received hsend]; rfl)]
      exact ih.cons_cons _

include hkind

/-- **Whatever the network does**, a message is taken at most as often as it was sent, and the
epochs applied are among those taken and rise; the floor is the last of them. -/
theorem applied_spec (hnew : PeerState.new config = .ok s)
    (hmono : (rights es).Pairwise fun a b => a.localEpoch ≤ b.localEpoch)
    (hmac : Guarded (Unforged P config) es) :
    (controls (rights (outputs (step P config) ((), s) es))).Subperm
        ((lefts es).map Message.control) ∧
      applied (rights (outputs (step P config) ((), s) es)) ⊆
        targets (rights (outputs (step P config) ((), s) es)) ∧
      (applied (rights (outputs (step P config) ((), s) es))).Pairwise (· < ·) ∧
      (final (step P config) ((), s) es).2.highestEpochAnnounced =
        (applied (rights (outputs (step P config) ((), s) es))).getLast? := by
  rw [step, rights_outputs_par, final_par]
  obtain ⟨hcontrols, happlied, hstate⟩ :=
    follows_final (P := P) (floor_of_new hnew) (rights es)
  obtain ⟨hrise, hsub⟩ := Rising.pairwise_taken (targets (outputs (receive P) s (rights es)))
  refine ⟨?_, by rwa [happlied], by rwa [happlied], ?_⟩
  · have hmono' : ((rights es).map inbound).Pairwise fun a b => a.localEpoch ≤ b.localEpoch :=
      List.pairwise_map.mpr hmono
    obtain ⟨l, hperm, hsublist⟩ := List.subperm_of_subset (PeerState.delivered_nodup hnew hmono')
      (Channel.delivered_subset (sealed_sent hkind) hnew (covers_of_guarded hmac))
    rw [hcontrols, filterMap_content]
    exact ⟨_, hperm.filterMap _, (hsublist.filterMap _).trans (sublist_control _)⟩
  · rw [happlied, Rising.getLast?_taken]
    exact congrArg PeerState.highestEpochAnnounced hstate

omit hkind in
/-- The run before a call. -/
theorem prefix_spec {pre post : List Event} {i : Input}
    (hkind : ∀ m ∈ lefts (pre ++ .inr i :: post), m.control.msgType ≠ .timeAnnounce)
    (hmono : (rights (pre ++ .inr i :: post)).Pairwise fun a b => a.localEpoch ≤ b.localEpoch)
    (hmac : Guarded (Unforged P config) (pre ++ .inr i :: post)) :
    (∀ x ∈ sent P config pre, Channel.Sealed P config .collectorToNode x) ∧
      Channel.Covers P config .collectorToNode (sent P config pre) ((rights pre).map inbound) ∧
      ((rights pre).map inbound ++ [inbound i]).Pairwise
        fun a b => a.localEpoch ≤ b.localEpoch := by
  refine ⟨sealed_sent fun m hm => hkind m ?_, covers_of_guarded ?_, ?_⟩
  · rw [lefts_append]
    exact List.mem_append_left _ hm
  · simpa using hmac.take pre.length
  · rw [← List.map_singleton, ← List.map_append, List.pairwise_map]
    refine hmono.sublist ?_
    rw [rights_append, rights_cons_inr]
    exact List.Sublist.append_left (List.singleton_sublist.mpr List.mem_cons_self) _

/-- Some call carries a message before any call carries one of its epoch with its offset, or with
one 4096 ticks or more ahead. -/
def CarriedInTime (P : Primitives) (config : PeerConfig) (es : List Event) (m : Message) : Prop :=
  ∃ pre i post x, es = pre ++ .inr i :: post ∧ m ∈ lefts pre ∧ m.send P config = .ok x ∧
    Channel.Carries .collectorToNode (inbound i) x ∧
    Channel.Timely .collectorToNode (sent P config pre) ((rights pre).map inbound) x

/-- Without a limiter, the messages taken are those carried in time. -/
theorem mem_controls_iff (hlimit : config.inboundRateLimit = none)
    (hnew : PeerState.new config = .ok s)
    (hmono : (rights es).Pairwise fun a b => a.localEpoch ≤ b.localEpoch)
    (hmac : Guarded (Unforged P config) es) {c : Control} :
    c ∈ controls (outputs (receive P) s (rights es)) ↔
      ∃ m, CarriedInTime P config es m ∧ m.control = c := by
  rw [(follows_final (floor_of_new hnew) (rights es)).controls_eq, filterMap_content,
    List.mem_filterMap]
  constructor
  · rintro ⟨acc, hacc, hc⟩
    obtain ⟨js, j, ks, hsplit, hans⟩ := PeerState.exists_of_mem_delivered hacc
    obtain ⟨as, bs, hrights, rfl, hbs⟩ := List.map_eq_append_iff.mp hsplit
    obtain ⟨i, cs, rfl, rfl, -⟩ := List.map_eq_cons_iff.mp hbs
    obtain ⟨pre, post, rfl, rfl, -⟩ := exists_of_rights_eq_append hrights
    obtain ⟨hsealed, hcover, hmono'⟩ := prefix_spec hkind hmono hmac
    obtain ⟨x, hx, hcarries, rfl⟩ :=
      Channel.exists_carried_of_accept hsealed hnew (covers_of_append hmac) hans
    obtain ⟨m, hm, hsend⟩ := mem_sent.mp hx
    -- had it come late, the call would have been refused as a replay
    rw [Message.content_received hsend] at hc
    refine ⟨m, ⟨pre, i, post, x, rfl, hm, hsend, hcarries, ?_⟩, Option.some.inj hc⟩
    have hlate := (Channel.accept_of_carries hsealed hlimit hnew hmono' hcover hx hcarries).1
    by_contra hnot
    rw [hlate.mpr hnot] at hans
    cases hans
  · rintro ⟨m, ⟨pre, i, post, x, rfl, hm, hsend, hcarries, htimely⟩, rfl⟩
    obtain ⟨hsealed, hcover, hmono'⟩ := prefix_spec hkind hmono hmac
    have hans := (Channel.accept_of_carries hsealed hlimit hnew hmono' hcover
      (mem_sent.mpr ⟨m, hm, hsend⟩) hcarries).2 htimely
    refine ⟨x.received config, PeerState.mem_delivered.mpr
      (List.mem_map.mpr ⟨(inbound i, _), ?_, hans⟩),
      by rw [Message.content_received hsend]; rfl⟩
    rw [rights_append, rights_cons_inr, List.map_append, List.map_cons]
    exact mem_trace (PeerState.accept P) s _ _ (inbound i)

/-- **The floor is the largest epoch that got through in time**, in whatever order and however often
the network carried the messages. -/
theorem floor_iff (hlimit : config.inboundRateLimit = none)
    (hnew : PeerState.new config = .ok s)
    (hmono : (rights es).Pairwise fun a b => a.localEpoch ≤ b.localEpoch)
    (hmac : Guarded (Unforged P config) es) {t : UInt32} :
    (final (step P config) ((), s) es).2.highestEpochAnnounced = some t ↔
      IsGreatest {t | ∃ m, CarriedInTime P config es m ∧ target m.control = some t} t := by
  have hfloor : (final (step P config) ((), s) es).2.highestEpochAnnounced =
      final Rising.rise none (targets (outputs (receive P) s (rights es))) := by
    rw [step, final_par]
    exact congrArg PeerState.highestEpochAnnounced (follows_final (floor_of_new hnew) _).state_eq
  have hset : {t | t ∈ targets (outputs (receive P) s (rights es))} =
      {t | ∃ m, CarriedInTime P config es m ∧ target m.control = some t} := by
    ext u
    simp only [targets, Set.mem_ofPred_eq, List.mem_filterMap,
      mem_controls_iff hkind hlimit hnew hmono hmac]
    constructor
    · rintro ⟨c, ⟨m, hm, rfl⟩, hu⟩
      exact ⟨m, hm, hu⟩
    · rintro ⟨m, hm, hu⟩
      exact ⟨_, ⟨m, hm, rfl⟩, hu⟩
  rw [hfloor, Rising.final_rise_eq_some_iff, hset]

end Run

/-! ### The frozen vector, sent and received twice -/

/-- Primitives that know the key and the HMAC of the announcement of `docs/test-vectors.txt`. -/
def vectorNodePrimitives : Primitives :=
  .ofTable PeerState.collectorKey [([0x30, 0x10, 0x00, 0x02, 0x58, 0x00, 0xCA, 0xA7, 0xE2, 0x12,
    0x34, 0x56, 0x78, 0x00, 0xCA, 0xA7, 0xE3], #v[0x1A, 0x27, 0xA7, 0x05, 0x09, 0x99, 0xC0, 0x18,
      0xB6, 0xE6, 0x80, 0xC9, 0x85, 0x32, 0xC4, 0xAD, 0xFB, 0x19, 0x21, 0x45, 0x03, 0xE7, 0x46,
      0xCC, 0xDD, 0xD6, 0xA2, 0xAC, 0xE5, 0x75, 0x23, 0xDB])]

/-- An announcement of the next epoch. -/
def vectorMessage : Message := ⟨.epochAnnounce 13281251, 13281250, 600⟩

/-- The buffer of that announcement, as the node receives it. -/
def vectorCall : Input where
  buf := [0x30, 0x12, 0x00, 0x02, 0x58, 0x12, 0x34, 0x56, 0x78, 0x00, 0xCA, 0xA7, 0xE3, 0x1A, 0x27,
    0xA7, 0x05, 0x09, 0x99, 0xC0, 0x18]
  localEpoch := 13281250
  dir := .collectorToNode
  nowMs := 0

/-- The announcement, sent once and carried twice. -/
def vectorEvents : List Event := [.inl vectorMessage, .inr vectorCall, .inr vectorCall]

private theorem unforged_vectorCall {pre : List Event} (hpre : vectorMessage ∈ lefts pre) :
    Unforged vectorNodePrimitives vectorPeer pre (.inr vectorCall) := by
  intro i hi c hc
  obtain rfl := Sum.inr.inj hi
  have hclaim : verify vectorNodePrimitives vectorCall.buf vectorPeer vectorCall.localEpoch
      .collectorToNode = .ok ⟨.unpack vectorCall.buf, .epochAnnounce, .hmacSha256T64, 13281250,
        [0x00, 0xCA, 0xA7, 0xE3], [0x1A, 0x27, 0xA7, 0x05, 0x09, 0x99, 0xC0, 0x18]⟩ := by
    decide
  obtain rfl := Except.ok.inj (hclaim.symm.trans hc)
  have hsend : vectorMessage.send vectorNodePrimitives vectorPeer = .ok ⟨13281250, 600,
      { Datagram.base .epochAnnounce .hmacSha256T64 0x12345678 13281250 600 with
        raw := [0x00, 0xCA, 0xA7, 0xE3] }, vectorCall.buf⟩ := by
    decide
  exact ⟨_, mem_sent.mpr ⟨_, hpre, hsend⟩, by decide⟩

private theorem unforged_vectorEvents :
    Guarded (Unforged vectorNodePrimitives vectorPeer) vectorEvents := by
  show Guarded _ ([] ++ [_] ++ [_] ++ [_])
  refine guarded_concat.mpr ⟨guarded_concat.mpr ⟨guarded_concat.mpr ⟨fun n => n.elim0, ?_⟩, ?_⟩, ?_⟩
  · intro i hi
    cases hi
  · exact unforged_vectorCall (by decide)
  · exact unforged_vectorCall (by decide)

theorem applied_spec_vector :
    (applied (rights (outputs (step vectorNodePrimitives vectorPeer) ((), PeerState.vectorState)
      vectorEvents))).getLast? = some 13281251 := by
  have hnew : PeerState.new vectorPeer = .ok PeerState.vectorState := by decide
  obtain ⟨-, -, -, hfloor⟩ := applied_spec (by decide) hnew (by decide) unforged_vectorEvents
  rw [← hfloor]
  decide

theorem floor_iff_vector :
    IsGreatest {t | ∃ m, CarriedInTime vectorNodePrimitives vectorPeer vectorEvents m ∧
      target m.control = some t} 13281251 := by
  have hnew : PeerState.new vectorPeer = .ok PeerState.vectorState := by decide
  exact (floor_iff (by decide) rfl hnew (by decide) unforged_vectorEvents).mp (by decide)

end Announce

end Catp
