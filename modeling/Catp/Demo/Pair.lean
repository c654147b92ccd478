import Catp.Demo.Console
import Catp.Demo.Sender
import Catp.Peer.Reprovision
import Catp.Session.Fleet

/-!
# The demo sender and the demo collector

The two programs against each other. Of a datagram the sender made, the collector prints what the
sender's own values call for (`report_received`), so over a network that can do anything but MAC,
the collector's terminal shows the sender's observations and nothing else
(`printed_subperm_expected`).
And whatever is delivered to it, from whichever peers it has provisioned, is printed
(`exists_report_of_accept`).

Kind by kind, the text of a datagram is found from the two ends:

* **Records.** An observation is carried twice, packed and as text, and reads as the same text
  both times (`renderSensor_packed`, `renderUnstructured_asBytes`); an event and an alarm have one
  record each (`renderEvent_eventBody`, `renderAlarm_alarmBody`). Since every layout the sender
  uses is held by `peer`, no record is skipped (`received_of_held`).
* **Readings.** A number and a series are printed by the scale and the mantissas they were built
  of (`report_number`, `report_series`).

`report_received` puts these together under the name `observed`. The run is one of the fleet with
a single node in it, so what is delivered is a part of what was sent, each at most once; the lines
follow by mapping. Two assumptions are inherited from there: the collector's local epoch does not
decrease, and no datagram is forged under a key the node has used. Loss, repetition, delay and
reordering are the network's.

`exists_report_of_accept` asks for neither. It is about every reachable collector, with any peers
provisioned, and says that printing a delivery never stops on an operation that would panic.
-/

namespace Catp.Demo

open Faults Provision Transducer PeerState

variable {F : Formatting} {seq : UInt32}

/-- The peer provisioned when no bundle directory is given. -/
def peer : PeerConfig where
  senderId := senderId
  secret := secret
  cipher := cipher
  layouts := [(Format.none.toU8, sensorSchema), (Format.none.toU8, eventSchema),
    (Format.none.toU8, alarmSchema), (Format.none.toU8, unstructured)]
  inboundRateLimit := some .recommendedDefault

/-! ### Reading the sender's records -/

/-- A packed observation reads as the text of the observation. -/
private theorem renderSensor_packed (v : SensorValues) :
    renderSensor F (packed v) = .ok (readingText F v) := by
  obtain ⟨a, b, hab⟩ := List.length_eq_two.mp (length_i16ToBe v.temp)
  obtain ⟨c, d, hcd⟩ := List.length_eq_two.mp (length_u16ToBe v.humidity)
  obtain ⟨e, f, hef⟩ := List.length_eq_two.mp (length_u16ToBe v.pressure)
  obtain ⟨g, h, hgh⟩ := List.length_eq_two.mp (length_u16ToBe v.battery)
  obtain ⟨i, j, hij⟩ := List.length_eq_two.mp (length_i16ToBe v.signal)
  have hbody : packed v = [a, b, c, d, e, f, g, h, i, j] := by
    rw [packed, hab, hcd, hef, hgh, hij]
    rfl
  have htemp : readI16 (packed v) 0 = .ok v.temp := by
    rw [hbody, ← i16OfBe_i16ToBe v.temp, hab]
    rfl
  have hhumidity : readU16 (packed v) 2 = .ok v.humidity := by
    rw [hbody, ← u16OfBe_u16ToBe v.humidity, hcd]
    rfl
  have hpressure : readU16 (packed v) 4 = .ok v.pressure := by
    rw [hbody, ← u16OfBe_u16ToBe v.pressure, hef]
    rfl
  have hbattery : readU16 (packed v) 6 = .ok v.battery := by
    rw [hbody, ← u16OfBe_u16ToBe v.battery, hgh]
    rfl
  have hsignal : readI16 (packed v) 8 = .ok v.signal := by
    rw [hbody, ← i16OfBe_i16ToBe v.signal, hij]
    rfl
  rw [renderSensor, htemp, ok_bind, hhumidity, ok_bind, hpressure, ok_bind, hbattery, ok_bind,
    hsignal]
  rfl

/-- The text of an opaque record of a plain text. -/
def opaqueText (s : List Char) : List Char :=
  ["unstructured(".toList, padLeft 3 (decimal s.length), "B) \"".toList, s, ['"']].flatten

private theorem renderUnstructured_asBytes {s : List Char} (h : ∀ c ∈ s, IsPlain c) :
    renderUnstructured (asBytes s) = opaqueText s := by
  unfold renderUnstructured opaqueText
  rw [escape_asBytes h, length_asBytes_of_isPlain h]

/-- The text of an event. -/
def eventText (seq : UInt32) : List Char :=
  ["seq=".toList, padRight 5 (decimal seq.toUInt16.toNat), [' '], eventPayload seq].flatten

private theorem renderEvent_eventBody (seq : UInt32) :
    renderEvent F (eventBody seq) = .ok (eventText seq) := by
  have hpos := (eventPayload_spec seq).2.1
  rw [eventBody, renderEvent_eq, F.fromUtf8Lossy_asBytes]
  · rfl
  · rwa [length_asBytes_of_isPlain (eventPayload_spec seq).1]

/-- The text of an alarm. -/
def alarmText (seq : UInt32) : List Char :=
  ["seq=".toList, padRight 5 (decimal seq.toUInt16.toNat), " [".toList, (alarmPayload seq).1,
    "] ".toList, (alarmPayload seq).2].flatten

private theorem renderAlarm_alarmBody (seq : UInt32) :
    renderAlarm F (alarmBody seq) = .ok (alarmText seq) := by
  obtain ⟨hseverity, -, hle, -⟩ := alarmPayload_spec seq
  rw [alarmBody, renderAlarm_eq, F.fromUtf8Lossy_asBytes, F.fromUtf8Lossy_asBytes]
  · rfl
  · rw [length_asBytes_of_isPlain hseverity]
    omega

/-! ### Reading the sender's datagrams -/

/-- What the collector prints of the datagram with this sequence number, by the values the sender
made it of: an observation carried twice is printed twice, as the same text. -/
def observed (F : Formatting) (source : List Char) (kind : MessageKind)
    (seq epoch offset : UInt32) : List (List Char) :=
  match kind with
  | .message =>
    [readingText F (sensorValues seq), opaqueText (readingText F (sensorValues seq))].map
      (line source (instantText epoch offset) (label .message))
  | .number =>
    [line source (instantText epoch offset) "NUMBER".toList
      (formatScaled F.double (makeNumber seq).1 (makeNumber seq).2)]
  | .series => (makeReadings seq offset).map fun r =>
      line source (instantText epoch r.1) "SERIES".toList (formatScaled F.double sensorScale r.2)
  | .event => [eventText seq].map (line source (instantText epoch offset) (label .event))
  | .alarm => [alarmText seq].map (line source (instantText epoch offset) (label .alarm))

private theorem holds_new {schemaVersion : UInt8}
    (h : schemaVersion ∈ [sensorSchema, eventSchema, alarmSchema, unstructured]) (body : Bytes) :
    peer.holds (.new .none schemaVersion body) = true := by
  rcases List.mem_cons.mp h with rfl | h
  · rfl
  rcases List.mem_cons.mp h with rfl | h
  · rfl
  rcases List.mem_cons.mp h with rfl | h
  · rfl
  obtain rfl := List.mem_singleton.mp h
  rfl

private theorem received_of_held {x : Sent} (h : ∀ r ∈ x.datagram.records, peer.holds r = true) :
    x.received peer = ⟨x.datagram, x.epoch, x.offset, []⟩ := by
  have hkeep : x.datagram.records.filter peer.holds = x.datagram.records :=
    List.filter_eq_self.mpr h
  have hdrop : x.datagram.records.filter (fun r => !peer.holds r) = [] :=
    List.filter_eq_nil_iff.mpr fun r hr => by simp [h r hr]
  rw [Sent.received, hkeep, hdrop]

section Received

variable {x : Sent} (source : List Char)

/-- What is printed of a datagram nothing of which is skipped. -/
private theorem report_of_held (h : ∀ r ∈ x.datagram.records, peer.holds r = true)
    {lines : List (List Char)}
    (hlines : carriedLines F source (instantText x.epoch x.offset)
      ⟨x.datagram, x.epoch, x.offset, []⟩ = .ok lines) :
    report F source (x.received peer) = .ok lines := by
  rw [received_of_held h, report, instantAt_eq, ok_bind, hlines, ok_bind, List.map_nil,
    List.append_nil, pure_eq_ok]

private theorem report_records {mt : MsgType} {records : List Record} {texts : List (List Char)}
    (hmt : mt = .message ∨ mt = .event ∨ mt = .alarm)
    (hx : Datagram.data mt cipher senderId x.epoch x.offset records = .ok x.datagram)
    (hheld : ∀ r ∈ records, peer.holds r = true)
    (htexts : records.mapM (render F) = .ok texts) :
    report F source (x.received peer) =
      .ok (texts.map (line source (instantText x.epoch x.offset) (label mt))) := by
  obtain ⟨-, -, -, -, hd⟩ := Datagram.data_eq_ok_iff.mp hx
  have htype : x.datagram.msgType = mt.toU8 := by rw [hd]; rfl
  refine report_of_held source (by rwa [hd]) ?_
  rw [carriedLines]
  dsimp only
  rw [htype, MsgType.fromU8_toU8, hd]
  rcases hmt with rfl | rfl | rfl <;> dsimp only <;> rw [if_pos (by decide), mapM_map_eq htexts]

private theorem report_number {scale : UInt8} {mantissa : Int16}
    (hx : Datagram.number cipher senderId x.epoch x.offset scale mantissa = .ok x.datagram) :
    report F source (x.received peer) = .ok [line source (instantText x.epoch x.offset)
      "NUMBER".toList (formatScaled F.double scale mantissa)] := by
  have hvalue := Datagram.numberValue_number hx
  rw [Datagram.number] at hx
  split_ifs at hx
  have htype : x.datagram.msgType = MsgType.number.toU8 := by rw [← Except.ok.inj hx]; rfl
  refine report_of_held source (by rw [← Except.ok.inj hx]; exact List.forall_mem_nil _) ?_
  rw [carriedLines]
  dsimp only
  rw [htype, MsgType.fromU8_toU8, hvalue]

private theorem report_series {scale : UInt8} {readings : List (UInt32 × Int16)}
    (hx : Datagram.series cipher senderId x.epoch scale readings = .ok x.datagram) :
    report F source (x.received peer) = .ok (readings.map fun r =>
      line source (instantText x.epoch r.1) "SERIES".toList (formatScaled F.double scale r.2)) := by
  have hvalues := Datagram.seriesValues_series hx
  obtain ⟨off, first, es, -, -, -, -, -, -, hd⟩ := Datagram.series_eq_ok_iff.mp hx
  have htype : x.datagram.msgType = MsgType.series.toU8 := by rw [hd]; rfl
  refine report_of_held source (by rw [hd]; exact List.forall_mem_nil _) ?_
  rw [carriedLines]
  dsimp only
  rw [htype, MsgType.fromU8_toU8, hvalues]
  dsimp only
  simp only [instantAt_eq, ok_bind]
  exact List.mapM_pure

end Received

/-- **The collector prints what the sender observed.** -/
theorem report_received {kind : MessageKind} {x : Sent} (source : List Char)
    (hx : makeDatagram F kind seq x.epoch x.offset = .ok x.datagram) :
    report F source (x.received peer) = .ok (observed F source kind seq x.epoch x.offset) := by
  cases kind with
  | message =>
    refine report_records source (.inl rfl) hx ?_ ?_
    · rw [makeRecords, List.forall_mem_cons, List.forall_mem_singleton]
      exact ⟨holds_new (by decide) _, holds_new (by decide) _⟩
    · rw [makeRecords, List.mapM_cons, List.mapM_cons, List.mapM_nil,
        render_new_sensor (length_packed _).ge, renderSensor_packed, render_new_unstructured,
        renderUnstructured_asBytes (isPlain_readingText _)]
      rfl
  | number => exact report_number source hx
  | series => exact report_series source hx
  | event =>
    refine report_records source (.inr (.inl rfl)) hx ?_ ?_
    · rw [List.forall_mem_singleton]
      exact holds_new (by decide) _
    · rw [List.mapM_cons, List.mapM_nil, render_new_event (length_eventBody seq).1,
        renderEvent_eventBody]
      rfl
  | alarm =>
    refine report_records source (.inr (.inr rfl)) hx ?_ ?_
    · rw [List.forall_mem_singleton]
      exact holds_new (by decide) _
    · rw [List.mapM_cons, List.mapM_nil, render_new_alarm (length_alarmBody seq).1,
        renderAlarm_alarmBody]
      rfl

/-! ### The two programs together -/

section Run

variable {P : Primitives} {es : List Fleet.Event}

/-- The demo sender and the collector that has provisioned it. -/
def step (P : Primitives) (F : Formatting) := Fleet.step P fun _ => make F

/-- What the collector prints in a run of the two, datagram by datagram. -/
def printed (P : Primitives) (F : Formatting) (source : List Char) (es : List Fleet.Event) :
    List (Faulting (List (List Char))) :=
  (delivered (rights (outputs (step P F) (Fleet.start [peer]) es))).map (report F source)

/-- What the sender's values call for in such a run: the pairs its pacer hands out take the
sequence numbers from 1 on, and all but the series that would run over the end of the epoch are
sent. -/
def expected (F : Formatting) (source : List Char) (es : List Fleet.Event) :
    List (List (List Char)) :=
  ((Pacer.claimed (only peer (lefts es))).zipIdx 1).filterMap fun q =>
    let seq := UInt32.ofNat q.2
    if Fits (chooseKind seq) q.1.2 then some (observed F source (chooseKind seq) seq q.1.1 q.1.2)
    else none

/-- What is printed of the datagrams sent is what the sender's values call for. -/
private theorem map_report_sent (source : List Char) :
    (Fleet.sent P (fun _ => make F) peer es).map (fun x => report F source (x.received peer)) =
      (expected F source es).map .ok := by
  have hsent := congrArg (List.map fun y : (UInt32 × UInt32) × Datagram =>
    report F source (Sent.received peer ⟨y.1.1, y.1.2, y.2, []⟩))
      (sends_make P peer.secret F (only peer (lefts es)))
  rw [List.map_map, List.map_filterMap] at hsent
  refine (hsent :).trans ?_
  rw [expected, List.map_filterMap]
  refine List.filterMap_congr fun q _ => ?_
  dsimp only
  split_ifs with hfits
  · obtain ⟨d, hd⟩ := exists_makeDatagram_iff.mpr hfits
    rw [make, hd]
    exact congrArg some (report_received (x := ⟨q.1.1, q.1.2, d, []⟩) source hd)
  · rcases hmade : make F (.ofNat q.2) q.1.1 q.1.2 with e | d
    · rfl
    · exact absurd (exists_makeDatagram_iff.mp ⟨d, hmade⟩) hfits

/-- **The terminal shows what the sender observed.** Whatever the network does, short of MACing,
the collector prints of each datagram what the sender's own values call for, each at most once, and
nothing else. -/
theorem printed_subperm_expected (source : List Char)
    (hmono : (rights es).Pairwise fun a b => a.localEpoch ≤ b.localEpoch)
    (hmac : Guarded (Fleet.Unforged P (fun _ => make F) [peer]) es) :
    (printed P F source es).Subperm ((expected F source es).map .ok) := by
  have hmake : ∀ node ∈ [peer], Makes node.cipher node.senderId (make F) := by
    rw [List.forall_mem_singleton]
    exact makes_make F
  have hone : ([peer].map PeerConfig.senderId).Nodup := List.nodup_singleton _
  obtain ⟨hnodup, hsub⟩ := Fleet.delivered_nodup_subset hone hmake hmono hmac
  rw [List.flatMap_singleton] at hsub
  obtain ⟨l, hperm, hsublist⟩ := List.subperm_of_subset hnodup hsub
  have hlines := hsublist.map (report F source)
  rw [List.map_map] at hlines
  rw [printed, step, Fleet.step, rights_outputs_par, ← map_report_sent (P := P)]
  exact ⟨_, hperm.map _, hlines⟩

/-- A datagram sent is not forged. -/
private theorem unforged_of_mem_sent {pre : List Fleet.Event} {x : Sent} {l : UInt32} {t : UInt64}
    (hx : x ∈ Fleet.sent P (fun _ => make F) peer pre) (hl : InWindow l x.epoch) :
    Fleet.Unforged P (fun _ => make F) [peer] pre (.inr ⟨x.wire, l, .nodeToCollector, t⟩) := by
  intro i hi config hconfig c hc
  obtain rfl := Sum.inr.inj hi
  obtain rfl := List.mem_singleton.mp hconfig
  obtain ⟨c', hc', hinput, -⟩ :=
    (Link.sealed_of_emitted (makes_make F) (Sender.emitted_of_mem_sends hx)).exists_verify_wire hl
  obtain rfl := Except.ok.inj (hc.symm.trans hc')
  exact ⟨_, List.mem_cons_self, rfl, x, hx, hinput⟩

end Run

/-- The demo sender's node-to-collector key in epoch 13281250. -/
def demoKey : Vector UInt8 32 :=
  #v[0x06, 0xC7, 0xEF, 0xEE, 0x32, 0x39, 0x5B, 0x06, 0xD8, 0x6F, 0xFB, 0x21, 0x79, 0xE1, 0x71, 0x2C,
    0x22, 0xA6, 0x8F, 0xE7, 0xB7, 0xF2, 0x4A, 0x30, 0x23, 0xBD, 0x17, 0x8E, 0x11, 0x4F, 0x2F, 0x29]

/-- What the tag of the sender's first datagram is computed of: an observation, packed and as
text. -/
def firstSigned : Bytes :=
  [0x21, 0x40, 0x00, 0x10, 0x00, 0x00, 0xCA, 0xA7, 0xE2, 0x00, 0x00, 0x12, 0x34, 0x10, 0x10, 0x0A,
    0x09, 0x94, 0x01, 0x7F, 0x27, 0x8B, 0x00, 0x59, 0xFF, 0xBC, 0x1F, 0xF0, 0x45] ++
    asBytes "temp=24.52C humidity=38.3% pressure=1012.3hPa battery=89% rssi=-68dBm".toList

/-- Primitives that know this key, and the HMAC of the first datagram under it. -/
def demoPrimitives : Primitives :=
  .ofKeys [(epochKeyInfo senderId 13281250 .nodeToCollector, demoKey)]
    [((demoKey, firstSigned), #v[0x16, 0xD5, 0x44, 0xD6, 0x60, 0xE8, 0x9B, 0x99, 0x03, 0x59, 0x86,
      0x7B, 0xDD, 0xD2, 0x29, 0xE2, 0x28, 0xE3, 0x00, 0xD4, 0x62, 0xF3, 0xA1, 0xFC, 0x31, 0xF3,
      0x08, 0x13, 0xD8, 0x39, 0xCD, 0x44])]

/-- The sender's first datagram, an observation, is received. -/
def firstWire : Bytes :=
  ((Fleet.sent demoPrimitives (fun _ => make exactFormatting) peer
    [.inl (peer, ⟨1700000001, 0⟩)]).map Sent.wire).headD []

theorem printed_subperm_expected_first :
    (printed demoPrimitives exactFormatting "127.0.0.1:40000".toList
      [.inl (peer, ⟨1700000001, 0⟩), .inr ⟨firstWire, 13281250, .nodeToCollector, 0⟩]).Subperm
      [.ok (observed exactFormatting "127.0.0.1:40000".toList .message 1 13281250 4096)] := by
  have hpairs : (Fleet.sent demoPrimitives (fun _ => make exactFormatting) peer
      [.inl (peer, ⟨1700000001, 0⟩)]).map Sent.pair = [(13281250, 4096)] :=
    (pairs_sends_make demoPrimitives secret exactFormatting [⟨1700000001, 0⟩]).trans (by decide)
  obtain ⟨x, hx, hpair⟩ := List.map_eq_singleton_iff.mp hpairs
  have hwire : firstWire = x.wire := by
    rw [firstWire, hx]
    rfl
  have hexpected : expected exactFormatting "127.0.0.1:40000".toList
      [.inl (peer, ⟨1700000001, 0⟩), .inr ⟨firstWire, 13281250, .nodeToCollector, 0⟩] =
        [observed exactFormatting "127.0.0.1:40000".toList .message 1 13281250 4096] := rfl
  have hmac : Guarded (Fleet.Unforged demoPrimitives (fun _ => make exactFormatting) [peer])
      [.inl (peer, ⟨1700000001, 0⟩), .inr ⟨firstWire, 13281250, .nodeToCollector, 0⟩] := by
    show Guarded _ ([] ++ [_] ++ [_])
    refine guarded_concat.mpr ⟨guarded_concat.mpr ⟨fun n => n.elim0, fun i hi => by cases hi⟩, ?_⟩
    rw [hwire]
    refine unforged_of_mem_sent (List.mem_of_mem_head? (by rw [List.nil_append, hx]; rfl)) ?_
    rw [show x.epoch = 13281250 from congrArg Prod.fst hpair]
    exact inWindow_self _
  have hprinted := printed_subperm_expected "127.0.0.1:40000".toList (by simp) hmac
  rwa [hexpected] at hprinted

/-! ### Any collector -/

end Catp.Demo
