import Catp.Peer.Isolation
import Catp.Session.Link

/-!
# Many nodes and their collector

Every provisioned node runs the sender's loop on a clock of its own, and one collector is handed
whatever the network makes of all they send. The events of a run that concern one node are a run of
the link between that node and its receiver (`toLink`): nodes are told apart by the sender
identifier, which the info string of the epoch key contains, so even nodes that share a secret
cannot speak for each other (`link_unforged`).

* **Collector to receiver.** A collector that has provisioned different senders is isolated
  (`Collector.isolation`), so a delivery is made by the receiver of one node, on the calls that
  name it (`exists_receiver_of_mem_delivered`).
* **Receiver to link.** Those calls and the turns of that node are the events of its link
  (`toLink`), and what the link delivers was sent.
* **Back together.** Deliveries are pairwise different, and each is among what its node has sent;
  the two make it a part of everything sent, each at most once (`delivered_nodup_subset`).

`Unforged` is stated by secrets and not by nodes: nodes that share a secret can compute each
other's tags. `vectorFleet` has two such nodes, and hands the datagram of one to the collector
under the identifier of the other.
-/

namespace Catp

open Transducer PeerState

/-- A datagram sent bears the identifier of its sender. -/
private theorem Sender.senderId_of_emitted {P : Primitives} {secret : DeviceSecret}
    {cipher : CipherId}
    {senderId : UInt32} {make : Make} (hmake : Makes cipher senderId make) {x : Sent}
    (hx : Emitted P secret make x) : x.datagram.senderId = senderId := by
  obtain ⟨seq, hmade⟩ := hx.made
  obtain ⟨mt, off, hbase, -⟩ := (hmake _ _ _ _ hmade).1.framesBack
  exact congrArg Datagram.senderId hbase

/-- A delivery names the sender the call named. -/
private theorem sender_of_verify {P : Primitives} {config : PeerConfig} {i : Input} {c : Claim}
    {acc : Accepted} (hc : verify P i.buf config i.localEpoch i.dir = .ok c)
    (hfinish : c.finish config = .ok acc) : acc.datagram.senderId = config.senderId := by
  obtain ⟨out, hframe, rfl⟩ := finish_eq_ok_iff.mp hfinish
  obtain ⟨-, hheader, -, -, -, -, hsender, -⟩ :=
    checkHeader_eq_ok_iff.mp (verify_eq_ok_iff.mp hc).1
  obtain ⟨-, -, hsame⟩ := payload_of_frame (by rw [hheader]; rfl) hframe
  exact (congrArg Datagram.senderId hsame :).trans hsender

namespace Fleet

/-- A turn of a node, or a call of the collector. -/
abbrev Event := (PeerConfig × Reading) ⊕ Input

section

variable (P : Primitives) (make : PeerConfig → Make)

/-- The nodes and the collector side by side. -/
def step : (PeerConfig → Sender) × Collector → Event →
    ((PeerConfig × Turn) ⊕ Except Error Accepted) × ((PeerConfig → Sender) × Collector) :=
  par (many fun node => Sender.turn P node.secret (make node)) (Collector.accept P)

/-- Every node before its loop, and a collector that has provisioned them. -/
def start (configs : List PeerConfig) : (PeerConfig → Sender) × Collector :=
  (fun _ => .start, .provisioned configs)

/-- The datagrams a node has sent so far. -/
def sent (node : PeerConfig) (es : List Event) : List Sent :=
  Sender.sends P node.secret (make node) (only node (lefts es))

/-- **The secrets are the nodes' own**: whatever MAC input the collector finds the tag of with a
secret, a node that holds this secret has computed the tag of it before. -/
def Unforged (configs : List PeerConfig) (pre : List Event) (e : Event) : Prop :=
  ∀ i, e = .inr i → ∀ config ∈ configs, ∀ c,
    verify P i.buf config i.localEpoch i.dir = .ok c →
      ∃ node ∈ configs, node.secret = config.secret ∧
        ∃ x ∈ sent P make node pre,
          c.macInput i.dir = Channel.macInput node.cipher .nodeToCollector x

end

/-- The event as one of the link of this node, if it concerns it. -/
def toLink (node : PeerConfig) : Event → Option Link.Event
  | .inl (node', r) => if node' = node then some (.inl r) else none
  | .inr i => if i.sender = some node.senderId then some (.inr i) else none

private theorem lefts_toLink (node : PeerConfig) (es : List Event) :
    lefts (es.filterMap (toLink node)) = only node (lefts es) := by
  induction es with
  | nil => rfl
  | cons e es ih =>
    rcases e with ⟨node', r⟩ | i
    · rw [lefts_cons_inl, only_cons]
      by_cases h : node' = node
      · rw [List.filterMap_cons_some (by rw [toLink, if_pos h]), lefts_cons_inl, ih, if_pos h]
      · rw [List.filterMap_cons_none (by rw [toLink, if_neg h]), ih, if_neg h]
    · rw [lefts_cons_inr]
      by_cases h : i.sender = some node.senderId
      · rw [List.filterMap_cons_some (by rw [toLink, if_pos h]), lefts_cons_inr, ih]
      · rw [List.filterMap_cons_none (by rw [toLink, if_neg h]), ih]

private theorem rights_toLink (node : PeerConfig) (es : List Event) :
    rights (es.filterMap (toLink node)) =
      (rights es).filter fun i => i.sender = some node.senderId := by
  induction es with
  | nil => rfl
  | cons e es ih =>
    rcases e with ⟨node', r⟩ | i
    · rw [rights_cons_inl]
      by_cases h : node' = node
      · rw [List.filterMap_cons_some (by rw [toLink, if_pos h]), rights_cons_inl, ih]
      · rw [List.filterMap_cons_none (by rw [toLink, if_neg h]), ih]
    · rw [rights_cons_inr]
      by_cases h : i.sender = some node.senderId
      · rw [List.filterMap_cons_some (by rw [toLink, if_pos h]), rights_cons_inr, ih,
          List.filter_cons_of_pos (by simpa using h)]
      · rw [List.filterMap_cons_none (by rw [toLink, if_neg h]), ih,
          List.filter_cons_of_neg (by simpa using h)]

variable {P : Primitives} {make : PeerConfig → Make} {configs : List PeerConfig}
  {node : PeerConfig} {es : List Event}

private theorem sent_toLink : Link.sent P node (make node) (es.filterMap (toLink node)) =
    sent P make node es := by
  rw [Link.sent, lefts_toLink]
  rfl

section Run

variable (hnodup : (configs.map PeerConfig.senderId).Nodup)
  (hmake : ∀ node ∈ configs, Makes node.cipher node.senderId (make node))
include hnodup hmake

/-- **Nodes cannot speak for each other.** What verifies under the configuration of a node was
MACed by that node, not by another that holds its secret. -/
theorem link_unforged (hnode : node ∈ configs) (hmac : Guarded (Unforged P make configs) es) :
    Guarded (Link.Unforged P node (make node)) (es.filterMap (toLink node)) := by
  refine Guarded.filterMap ?_ hmac
  rintro pre e e' he hlink i rfl c hc
  have hi : e = .inr i := by
    rcases e with ⟨node', r⟩ | j
    · rw [toLink] at hlink
      split_ifs at hlink
      cases hlink
    · rw [toLink] at hlink
      split_ifs at hlink
      exact congrArg _ (Sum.inr.inj (Option.some.inj hlink))
  obtain ⟨node', hnode', -, x, hx, hinput⟩ := he i hi node hnode c hc
  have hsender := Sender.senderId_of_emitted (hmake node' hnode')
    (Sender.emitted_of_mem_sends hx)
  obtain ⟨-, -, -, -, -, -, hclaimed, -⟩ := checkHeader_eq_ok_iff.mp (verify_eq_ok_iff.mp hc).1
  -- the info string of the epoch key names the sender
  obtain ⟨hid, -, -⟩ := epochKeyInfo_inj (congrArg MacInput.info hinput :)
  obtain rfl : node' = node := List.inj_on_of_nodup_map hnodup hnode' hnode
    (hsender.symm.trans (hid.symm.trans hclaimed))
  exact ⟨x, sent_toLink ▸ hx, hinput⟩

omit hmake in
/-- A delivery of the collector is made by the receiver of a node. -/
private theorem exists_receiver_of_accept {is : List Input} {i : Input} {acc : Accepted}
    (h : (Collector.accept P (final (Collector.accept P) (.provisioned configs) is) i).1 =
      .ok acc) :
    ∃ node ∈ configs, ∃ peer, PeerState.new node = .ok peer ∧
      acc.datagram.senderId = node.senderId ∧ i.sender = some node.senderId ∧
      (PeerState.accept P (final (PeerState.accept P) peer
        (is.filter fun i => i.sender = some node.senderId)) i).1 = .ok acc := by
  have hknown : i.sender ∈ (Collector.known configs).map some := by
    by_contra hnot
    have hearly := (Collector.accept_early (P := P) hnodup is hnot).1
    rw [h, Collector.earlyResult] at hearly
    split at hearly <;> cases hearly
  obtain ⟨id, hid, hsender⟩ := List.mem_map.mp hknown
  obtain ⟨peer, hpeer, rfl⟩ := List.mem_map.mp hid
  obtain ⟨node, hnode, hnew⟩ := Collector.mem_receivers.mp hpeer
  have hholds := (Collector.Holds.final (P := P)
    ((Collector.lookup_provisioned_iff hnodup).mpr ⟨hpeer, rfl⟩) is).2
  have hans := (hholds.accept (P := P) hsender.symm).1.symm.trans h
  rw [(PeerState.new_eq_ok hnew).1] at hans hsender
  obtain ⟨c, hc, hfinish, -⟩ := exists_verify_of_final hnew hans
  exact ⟨node, hnode, peer, hnew, sender_of_verify hc hfinish, hsender.symm, hans⟩

omit hmake in
private theorem exists_receiver_of_mem_delivered {is : List Input} {acc : Accepted}
    (h : acc ∈ delivered (outputs (Collector.accept P) (.provisioned configs) is)) :
    ∃ node ∈ configs, ∃ peer, PeerState.new node = .ok peer ∧
      acc.datagram.senderId = node.senderId ∧
      acc ∈ delivered (outputs (PeerState.accept P) peer
        (is.filter fun i => i.sender = some node.senderId)) := by
  obtain ⟨p, hp, hacc⟩ := List.mem_map.mp (mem_delivered.mp h)
  obtain ⟨pre, post, rfl, hans⟩ := exists_of_mem_trace _ _ hp
  obtain ⟨node, hnode, peer, hnew, hid, hsender, hok⟩ :=
    exists_receiver_of_accept hnodup (hans.symm.trans hacc)
  refine ⟨node, hnode, peer, hnew, hid, mem_delivered.mpr (List.mem_map.mpr ⟨(p.1, _), ?_, hok⟩)⟩
  rw [List.filter_append, List.filter_cons_of_pos (by simpa using hsender)]
  exact mem_trace _ _ _ _ _

omit hmake in
/-- The collector delivers nothing twice. -/
private theorem nodup_delivered {is : List Input}
    (hmono : is.Pairwise fun a b => a.localEpoch ≤ b.localEpoch) :
    (delivered (outputs (Collector.accept P) (.provisioned configs) is)).Nodup := by
  induction is using List.reverseRecOn with
  | nil => exact List.nodup_nil
  | append_singleton is i ih =>
    have his := (List.pairwise_append.mp hmono).1
    rw [outputs_concat, delivered_append]
    rcases hans : (Collector.accept P (final (Collector.accept P) (.provisioned configs) is) i).1
      with e | acc
    · exact (List.append_nil _).symm ▸ ih his
    · change List.Nodup (_ ++ [acc])
      rw [← List.concat_eq_append, List.nodup_concat]
      refine ⟨fun hmem => ?_, ih his⟩
      -- both deliveries are of the receiver of one node
      obtain ⟨node, hnode, peer, hnew, hid, hearlier⟩ :=
        exists_receiver_of_mem_delivered hnodup hmem
      obtain ⟨node', hnode', peer', hnew', hid', hsender, hok⟩ :=
        exists_receiver_of_accept hnodup hans
      obtain rfl : node' = node :=
        List.inj_on_of_nodup_map hnodup hnode' hnode (hid'.symm.trans hid)
      obtain rfl := Except.ok.inj (hnew.symm.trans hnew')
      have hpair := delivered_pairwise (P := P) hnew
        (hmono.sublist (List.filter_sublist (p := fun i => i.sender = some node'.senderId)))
      rw [List.filter_append, List.filter_cons_of_pos (by simpa using hsender), List.filter_nil,
        outputs_concat, delivered_append, hok] at hpair
      exact (List.pairwise_append.mp hpair).2.2 acc hearlier acc List.mem_cons_self rfl

/-- What the collector delivers is delivered once, and was sent. -/
theorem delivered_nodup_subset
    (hmono : (rights es).Pairwise fun a b => a.localEpoch ≤ b.localEpoch)
    (hmac : Guarded (Unforged P make configs) es) :
    (delivered (outputs (Collector.accept P) (.provisioned configs) (rights es))).Nodup ∧
      delivered (outputs (Collector.accept P) (.provisioned configs) (rights es)) ⊆
        configs.flatMap fun node => (sent P make node es).map (Sent.received node) := by
  refine ⟨nodup_delivered hnodup hmono, fun acc hacc => ?_⟩
  obtain ⟨node, hnode, peer, hnew, -, hmem⟩ := exists_receiver_of_mem_delivered hnodup hacc
  have hrights : (rights (es.filterMap (toLink node))).Pairwise
      fun a b => a.localEpoch ≤ b.localEpoch := by
    rw [rights_toLink]
    exact hmono.sublist List.filter_sublist
  have hlink := Link.delivered_nodup_subset (hmake node hnode) hnew hrights
    (link_unforged hnodup hmake hnode hmac)
  rw [rights_toLink, sent_toLink] at hlink
  exact List.mem_flatMap.mpr ⟨node, hnode, hlink.2 hmem⟩

/-- **Safety of the fleet.** Whatever the network does, what the collector delivers is among what
the nodes have sent, each datagram at most as often as it was sent. -/
theorem delivered_subperm_fleet
    (hmono : (rights es).Pairwise fun a b => a.localEpoch ≤ b.localEpoch)
    (hmac : Guarded (Unforged P make configs) es) :
    (delivered (rights (outputs (step P make) (start configs) es))).Subperm
      (configs.flatMap fun node =>
        (sentOf (only node (lefts (outputs (step P make) (start configs) es)))).map
          (Sent.received node)) := by
  obtain ⟨hnodup', hsub⟩ := delivered_nodup_subset hnodup hmake hmono hmac
  rw [step, rights_outputs_par, lefts_outputs_par]
  simp only [only_outputs_many]
  exact List.subperm_of_subset hnodup' hsub

end Run

/-! ### Two nodes that share the secret of the frozen vector -/

/-- Every node sends a reading of 23.50. -/
def readingMake (node : PeerConfig) : Make := fun _ e off =>
  Datagram.number node.cipher node.senderId e off 2 2350

private theorem makes_readingMake (node : PeerConfig) :
    Makes node.cipher node.senderId (readingMake node) := by
  intro seq e off d h
  refine ⟨.number h, ?_⟩
  rw [readingMake, Datagram.number] at h
  split_ifs at h
  rw [← Except.ok.inj h]
  rfl

/-- The sender of the frozen vector, and another that holds the same secret. -/
def secondPeer : PeerConfig := { vectorPeer with senderId := 0x13345678 }

/-- The node-to-collector key of the second node in epoch 13281250. -/
def secondKey : Vector UInt8 32 :=
  #v[0x65, 0x06, 0x1B, 0xD9, 0xFD, 0xDB, 0x76, 0x72, 0x41, 0x1A, 0xDE, 0x29, 0x57, 0xF1, 0xDA, 0x29,
    0xC3, 0x3A, 0x54, 0x7A, 0xE6, 0xDE, 0x89, 0x10, 0xEF, 0xE2, 0x2C, 0xC5, 0xC2, 0x44, 0x05, 0xC5]

/-- What the second node's tag is computed of. -/
def secondSigned : Bytes :=
  [0x24, 0x10, 0x00, 0x10, 0x00, 0x00, 0xCA, 0xA7, 0xE2, 0x13, 0x34, 0x56, 0x78, 0x02, 0x09, 0x2E]

/-- Primitives that know both keys, and the HMAC of each node's reading under its key. -/
def fleetPrimitives : Primitives :=
  .ofKeys [(epochKeyInfo 0x12345678 13281250 .nodeToCollector, vectorKey),
    (epochKeyInfo 0x13345678 13281250 .nodeToCollector, secondKey)]
    [((vectorKey, secondSigned.set 9 0x12),
      vectorPrimitives.hmacSha256.mac vectorKey [secondSigned.set 9 0x12]),
    ((secondKey, secondSigned), #v[0xFA, 0x79, 0x27, 0xAD, 0x1C, 0x3D, 0x8C, 0xAE, 0x4A, 0x77, 0x94,
      0xCC, 0xB8, 0xD9, 0x48, 0xFC, 0x43, 0xAF, 0x69, 0x3B, 0x74, 0xCF, 0x4C, 0x73, 0x84, 0x35,
      0xA8, 0x38, 0x39, 0x95, 0x75, 0xA2])]

/-- The reading of the second node. -/
def secondSent : Sent where
  epoch := 13281250
  offset := 4096
  datagram := { vectorDatagram with senderId := 0x13345678 }
  wire := [0x24, 0x12, 0x00, 0x10, 0x00, 0x13, 0x34, 0x56, 0x78, 0x02, 0x09, 0x2E, 0xFA, 0x79, 0x27,
    0xAD, 0x1C, 0x3D, 0x8C, 0xAE]

/-- Both nodes send, and both datagrams are received. The one of the first node is received once
more, under the identifier of the second. -/
def vectorFleet : List Event :=
  [.inl (vectorPeer, ⟨1700000001, 0⟩), .inl (secondPeer, ⟨1700000001, 0⟩),
    .inr ⟨vectorWire, 13281250, .nodeToCollector, 0⟩,
    .inr ⟨secondSent.wire, 13281250, .nodeToCollector, 0⟩,
    .inr ⟨vectorWire.set 5 0x13, 13281250, .nodeToCollector, 0⟩]

/-- A call that fails under both configurations, or verifies under one over what its node sent. -/
private theorem unforged_of_verify {pre : List Event} {i : Input}
    (h : ∀ config ∈ [vectorPeer, secondPeer],
      (∃ e, verify fleetPrimitives i.buf config i.localEpoch i.dir = .error e) ∨
        ∃ c, verify fleetPrimitives i.buf config i.localEpoch i.dir = .ok c ∧
          ∃ x ∈ sent fleetPrimitives readingMake config pre,
            c.macInput i.dir = Channel.macInput config.cipher .nodeToCollector x) :
    Unforged fleetPrimitives readingMake [vectorPeer, secondPeer] pre (.inr i) := by
  intro j hj config hconfig c hc
  obtain rfl := Sum.inr.inj hj
  rcases h config hconfig with ⟨e, he⟩ | ⟨c', hc', x, hx, hinput⟩
  · cases he.symm.trans hc
  · obtain rfl := Except.ok.inj (hc'.symm.trans hc)
    exact ⟨config, hconfig, rfl, x, hx, hinput⟩

/-- The claim of a node's reading. -/
def claimOfReading (x : Sent) : Claim :=
  ⟨.unpack x.wire, .number, .hmacSha256T64, 13281250, [0x02, 0x09, 0x2E], x.wire.drop 12⟩

private theorem unforged_vectorFleet :
    Guarded (Unforged fleetPrimitives readingMake [vectorPeer, secondPeer]) vectorFleet := by
  have hinl : ∀ pre x, Unforged fleetPrimitives readingMake [vectorPeer, secondPeer] pre (.inl x) :=
    fun pre x i hi => by cases hi
  show Guarded _ ([] ++ [_] ++ [_] ++ [_] ++ [_] ++ [_])
  refine guarded_concat.mpr ⟨guarded_concat.mpr ⟨guarded_concat.mpr ⟨guarded_concat.mpr
    ⟨guarded_concat.mpr ⟨fun n => n.elim0, hinl _ _⟩, hinl _ _⟩, ?_⟩, ?_⟩, ?_⟩
  · refine unforged_of_verify (List.forall_mem_cons.mpr ⟨.inr ⟨claimOfReading Link.vectorSent,
      by decide, Link.vectorSent, by decide, by decide⟩,
      List.forall_mem_singleton.mpr (.inl ⟨.unknownSender 0x12345678, by decide⟩)⟩)
  · refine unforged_of_verify (List.forall_mem_cons.mpr
      ⟨.inl ⟨.unknownSender 0x13345678, by decide⟩, List.forall_mem_singleton.mpr (.inr
        ⟨claimOfReading secondSent, by decide, secondSent, by decide, by decide⟩)⟩)
  · refine unforged_of_verify (List.forall_mem_cons.mpr
      ⟨.inl ⟨.unknownSender 0x13345678, by decide⟩,
      List.forall_mem_singleton.mpr (.inl ⟨.authFailed, by decide⟩)⟩)

theorem delivered_subperm_fleet_vector :
    (delivered (rights (outputs (step fleetPrimitives readingMake)
      (start [vectorPeer, secondPeer]) vectorFleet))).Subperm
      [Link.vectorSent.received vectorPeer, secondSent.received secondPeer] := by
  have hsafe : (delivered (rights (outputs (step fleetPrimitives readingMake)
      (start [vectorPeer, secondPeer]) vectorFleet))).Subperm
      ([vectorPeer, secondPeer].flatMap fun node => (sentOf (only node (lefts (outputs
        (step fleetPrimitives readingMake) (start [vectorPeer, secondPeer]) vectorFleet)))).map
          (Sent.received node)) :=
    delivered_subperm_fleet (by decide) (fun node _ => makes_readingMake node) (by decide)
      unforged_vectorFleet
  have hsent : ([vectorPeer, secondPeer].flatMap fun node => (sentOf (only node (lefts (outputs
      (step fleetPrimitives readingMake) (start [vectorPeer, secondPeer]) vectorFleet)))).map
        (Sent.received node)) =
      [Link.vectorSent.received vectorPeer, secondSent.received secondPeer] := by decide
  rwa [hsent] at hsafe

end Fleet

end Catp
