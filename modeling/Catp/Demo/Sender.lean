import Catp.Demo.Format
import Catp.Session.Sender
import Catp.Wire.Values

/-!
# What the demo sender sends

`make_datagram` of `tools/src/bin/sender.rs` and what it calls: synthetic readings from a mixing
function of the sequence number, and the bodies they are packed into. A datagram is made for every
tick of the epoch, but for a series that would run over the end of it (`exists_makeDatagram_iff`);
every datagram made is built by the constructors, and small enough to be sent (`made_spec`).

* `makeDatagram` takes the kind apart from the sequence number, as the source does; `make` chooses
  the kind by `chooseKind`, and is what a run of `Catp.Sender` is given. `makes_make` is what such
  a run asks of it.
* The sizes are bounded first (`length_packed`, `eventPayload_spec`, `alarmPayload_spec`), for
  every reading the mixing function can produce: the texts are plain, so a character is an octet.
  With them no constructor can refuse a body, and only the offset remains: `Fits` says that the
  last instant carried is still a tick of the epoch.
* `pairs_sends_make` is the run. The pairs that the pacer hands out take the sequence numbers from
  1 on, wrapping at `2 ^ 32`, and each of them is sent unless it is that of a series too near the
  end of its epoch. The sequence number is used up by such a pair all the same.

How a reading is printed as text is the parameter `Formatting`; only that what it prints is short
and plain is used of it.
-/

namespace Catp.Demo

open Provision Transducer

/-- Hundredths. -/
def sensorScale : UInt8 := 2

/-! ### Synthetic readings -/

/-- What kind of datagram the demo sends next. -/
inductive MessageKind
  | message
  | number
  | series
  | event
  | alarm
  deriving DecidableEq, Repr

/-- Deterministic pseudo-random mixing. -/
def mix (x : UInt32) : UInt32 :=
  let x := x ^^^ (x >>> 16)
  let x := x * 0x7FEB352D
  let x := x ^^^ (x >>> 15)
  let x := x * 0x846CA68B
  x ^^^ (x >>> 16)

/-- The kind of the datagram with this sequence number: mostly telemetry. -/
def chooseKind (seq : UInt32) : MessageKind :=
  let r := (mix seq % 16).toNat
  if r ≤ 6 then .message
  else if r ≤ 9 then .number
  else if r ≤ 11 then .series
  else if r ≤ 13 then .event
  else .alarm

/-- The tuple of `sensor_values`. -/
structure SensorValues where
  /-- Hundredths of a degree. -/
  temp : Int16
  /-- Tenths. -/
  humidity : UInt16
  /-- Tenths. -/
  pressure : UInt16
  battery : UInt16
  signal : Int16
  deriving DecidableEq, Repr

/-- `x as i16`. -/
def asI16 (x : UInt32) : Int16 := x.toUInt16.toInt16

/-- The readings the demo makes up for a sequence number. -/
def sensorValues (seq : UInt32) : SensorValues :=
  let r1 := mix seq
  let r2 := mix (seq + 0x1000)
  let r3 := mix (seq + 0x2000)
  let r4 := mix (seq + 0x3000)
  { temp := 1500 + asI16 (r1 % 1500)
    humidity := 350 + (r2 % 550).toUInt16
    pressure := 9800 + (r3 % 600).toUInt16
    battery := 20 + (r4 % 80).toUInt16
    signal := -95 + asI16 (mix (seq ^^^ 0xA5A5A5A5) % 50) }

/-- One observation, rendered as text with no declared layout. -/
def readingText (F : Formatting) (v : SensorValues) : List Char :=
  ["temp=".toList, F.hundredths v.temp, "C humidity=".toList, F.tenths v.humidity,
    "% pressure=".toList, F.tenths v.pressure, "hPa battery=".toList, decimal v.battery.toNat,
    "% rssi=".toList, decimalInt v.signal.toInt, "dBm".toList].flatten

/-- Packed big-endian fields. -/
def packed (v : SensorValues) : Bytes :=
  i16ToBe v.temp ++ u16ToBe v.humidity ++ u16ToBe v.pressure ++ u16ToBe v.battery
    ++ i16ToBe v.signal

/-- A single observation carried twice, structured and unstructured. -/
def makeRecords (F : Formatting) (seq : UInt32) : List Record :=
  let values := sensorValues seq
  [.new .none sensorSchema (packed values),
    .new .none unstructured (asBytes (readingText F values))]

/-- The temperature alone, as one `NUMBER`. -/
def makeNumber (seq : UInt32) : UInt8 × Int16 := (sensorScale, (sensorValues seq).temp)

/-- Several readings taken moments apart. -/
def makeReadings (seq offset : UInt32) : List (UInt32 × Int16) :=
  [0, 1, 2].map fun i => (offset + i * 200, (sensorValues (seq + i)).temp)

/-- The name of an event. -/
def eventPayload (seq : UInt32) : List Char :=
  match (mix seq % 10).toNat with
  | 0 => "boot".toList
  | 1 => "sensor_attached".toList
  | 2 => "sensor_detached".toList
  | 3 => "configuration_changed".toList
  | 4 => "network_up".toList
  | 5 => "network_down".toList
  | 6 => "time_synchronized".toList
  | 7 => "battery_recovered".toList
  | 8 => "maintenance_started".toList
  | _ => "maintenance_finished".toList

/-- The severity of an alarm, and its message. -/
def alarmPayload (seq : UInt32) : List Char × List Char :=
  match (mix seq % 12).toNat with
  | 0 => ("INFO".toList, "battery_recovered".toList)
  | 1 => ("INFO".toList, "signal_restored".toList)
  | 2 => ("NOTICE".toList, "sensor_reconnected".toList)
  | 3 => ("NOTICE".toList, "clock_drift_detected".toList)
  | 4 => ("WARNING".toList, "battery_low".toList)
  | 5 => ("WARNING".toList, "signal_degraded".toList)
  | 6 => ("WARNING".toList, "temperature_high".toList)
  | 7 => ("WARNING".toList, "sensor_stale".toList)
  | 8 => ("CRITICAL".toList, "battery_critical".toList)
  | 9 => ("CRITICAL".toList, "temperature_critical".toList)
  | 10 => ("CRITICAL".toList, "sensor_failure".toList)
  | _ => ("CRITICAL".toList, "collector_unreachable".toList)

/-- The body of an event: the sequence number, then a name. -/
def eventBody (seq : UInt32) : Bytes := u16ToBe seq.toUInt16 ++ asBytes (eventPayload seq)

/-- The body of an alarm: the sequence number, the severity's length, the severity, a message. -/
def alarmBody (seq : UInt32) : Bytes :=
  let severity := asBytes (alarmPayload seq).1
  let message := asBytes (alarmPayload seq).2
  u16ToBe seq.toUInt16 ++ UInt8.ofNat severity.length :: severity ++ message

/-- The datagram of a kind, through the constructor of its message type. -/
def makeDatagram (F : Formatting) (kind : MessageKind) (seq epoch offset : UInt32) :
    Except Error Datagram :=
  match kind with
  | .message => Datagram.data .message cipher senderId epoch offset (makeRecords F seq)
  | .number =>
    let (scale, mantissa) := makeNumber seq
    Datagram.number cipher senderId epoch offset scale mantissa
  | .series => Datagram.series cipher senderId epoch sensorScale (makeReadings seq offset)
  | .event =>
    Datagram.data .event cipher senderId epoch offset [.new .none eventSchema (eventBody seq)]
  | .alarm =>
    Datagram.data .alarm cipher senderId epoch offset [.new .none alarmSchema (alarmBody seq)]

/-- The datagram of a turn. -/
def make (F : Formatting) : Make := fun seq epoch offset =>
  makeDatagram F (chooseKind seq) seq epoch offset

/-! ### Bodies -/

variable {F : Formatting} {kind : MessageKind} {seq epoch offset : UInt32}

theorem length_packed (v : SensorValues) : (packed v).length = 10 := by
  simp [packed]

theorem isPlain_readingText (v : SensorValues) : ∀ c ∈ readingText F v, IsPlain c := by
  have htenths (x : UInt16) : ∀ c ∈ F.tenths x, IsPlain c := fun c h =>
    (F.tenths_numeral x c h).isPlain
  unfold readingText
  rw [List.forall_mem_flatten]
  iterate 11 rw [List.forall_mem_cons]
  refine ⟨by simp [IsPlain], fun c h => (F.hundredths_numeral _ c h).isPlain, by simp [IsPlain],
    htenths _, by simp [IsPlain], htenths _, by simp [IsPlain], fun c => isPlain_decimal,
    by simp [IsPlain], fun c => isPlain_decimalInt, by simp [IsPlain], nofun⟩

theorem length_asBytes_of_isPlain {s : List Char} (h : ∀ c ∈ s, IsPlain c) :
    (asBytes s).length = s.length := by
  rw [asBytes_of_isPlain h, List.length_map]

private theorem length_readingText (v : SensorValues) :
    1 ≤ (readingText F v).length ∧ (readingText F v).length ≤ 84 := by
  have htemp := F.length_hundredths v.temp
  have hhumidity := F.length_tenths v.humidity
  have hpressure := F.length_tenths v.pressure
  have hbattery : (decimal v.battery.toNat).length ≤ 5 :=
    length_decimal_le (by decide) (v.battery.toNat_lt.trans (by decide))
  have hsignal : (decimalInt v.signal.toInt).length ≤ 6 := by
    have hlo := v.signal.le_toInt
    have hhi := v.signal.toInt_lt
    exact length_decimalInt_le (by decide) (by omega)
  unfold readingText
  simp only [String.reduceToList, List.length_flatten, List.map_cons, List.map_nil,
    List.length_cons, List.length_nil, List.sum_cons, List.sum_nil]
  omega

/-- An event's name is a short plain text. -/
theorem eventPayload_spec (seq : UInt32) :
    (∀ c ∈ eventPayload seq, IsPlain c) ∧ 1 ≤ (eventPayload seq).length ∧
      (eventPayload seq).length ≤ 21 := by
  rw [eventPayload]
  split <;> simp [IsPlain]

/-- So are an alarm's severity and its message. -/
theorem alarmPayload_spec (seq : UInt32) :
    (∀ c ∈ (alarmPayload seq).1, IsPlain c) ∧ (∀ c ∈ (alarmPayload seq).2, IsPlain c) ∧
      (alarmPayload seq).1.length ≤ 8 ∧ (alarmPayload seq).2.length ≤ 21 := by
  rw [alarmPayload]
  split <;> simp [IsPlain]

theorem length_eventBody (seq : UInt32) :
    3 ≤ (eventBody seq).length ∧ (eventBody seq).length ≤ 23 := by
  obtain ⟨hplain, hpos, hle⟩ := eventPayload_spec seq
  rw [eventBody, List.length_append, length_u16ToBe, length_asBytes_of_isPlain hplain]
  omega

theorem length_alarmBody (seq : UInt32) :
    3 ≤ (alarmBody seq).length ∧ (alarmBody seq).length ≤ 32 := by
  obtain ⟨hseverity, hmessage, hle, hle'⟩ := alarmPayload_spec seq
  rw [alarmBody, List.length_append, List.length_append, List.length_cons, length_u16ToBe,
    length_asBytes_of_isPlain hseverity, length_asBytes_of_isPlain hmessage]
  omega

/-! ### Datagrams -/

/-- The last instant of the datagram is a tick of the epoch. -/
def Fits (kind : MessageKind) (offset : UInt32) : Prop :=
  offset.toNat + (if kind = .series then 400 else 0) < 2 ^ 19

instance (kind : MessageKind) (offset : UInt32) : Decidable (Fits kind offset) :=
  inferInstanceAs (Decidable (_ < _))

theorem exists_data_iff {mt : MsgType} {e off : UInt32} {records : List Record}
    (hframed : mt.isRecordFramed = true) (hne : records ≠ [])
    (hone : mt = .event ∨ mt = .alarm → records.length = 1) :
    (∃ d, Datagram.data mt cipher senderId e off records = .ok d) ↔ off.toNat < 2 ^ 19 := by
  simp only [Datagram.data_eq_ok_iff, hframed, ne_eq, hne, not_false_eq_true, true_and]
  exact ⟨fun ⟨_, _, h, _⟩ => h, fun h => ⟨_, hone, h, rfl⟩⟩

/-- The instants of a series lie 200 ticks apart. -/
theorem exists_series_makeReadings_iff :
    (∃ d, Datagram.series cipher senderId epoch sensorScale (makeReadings seq offset) = .ok d) ↔
      offset.toNat + 400 < 2 ^ 19 := by
  have hfirst : offset + 0 * 200 = offset := by simp
  rw [Datagram.exists_series_iff, makeReadings]
  simp only [List.map_cons, List.map_nil, hfirst, List.length_cons, List.length_nil,
    List.isChain_cons_cons, List.isChain_singleton, List.forall_mem_cons, and_true]
  constructor
  · rintro ⟨-, -, -, hoff, -, hlast, -⟩
    have hsum : (offset + 2 * 200).toNat = offset.toNat + 400 := by
      rw [UInt32.toNat_add]
      exact Nat.mod_eq_of_lt (by simp; omega)
    omega
  · intro h
    have hsum : (offset + 1 * 200).toNat = offset.toNat + 200 := by
      rw [UInt32.toNat_add]
      exact Nat.mod_eq_of_lt (by simp; omega)
    have hsum' : (offset + 2 * 200).toNat = offset.toNat + 400 := by
      rw [UInt32.toNat_add]
      exact Nat.mod_eq_of_lt (by simp; omega)
    refine ⟨by decide, by decide, ⟨⟨?_, ?_⟩, ?_, ?_⟩, by omega, by omega, by omega, nofun⟩
    · dsimp only
      rw [UInt32.lt_iff_toNat_lt]
      omega
    · dsimp only
      omega
    · dsimp only
      rw [UInt32.lt_iff_toNat_lt]
      omega
    · dsimp only
      omega

/-- **What is made.** -/
theorem exists_makeDatagram_iff :
    (∃ d, makeDatagram F kind seq epoch offset = .ok d) ↔ Fits kind offset := by
  cases kind with
  | message => exact exists_data_iff rfl (List.cons_ne_nil _ _) fun h => absurd h (by decide)
  | number =>
    rw [Fits, if_neg (by decide), Nat.add_zero, makeDatagram, makeNumber]
    dsimp only
    rw [Datagram.number, if_neg (by decide)]
    split_ifs with hoff
    · refine ⟨?_, fun h => absurd hoff (Datagram.not_ticksPerEpoch_le.mpr h)⟩
      rintro ⟨d, hd⟩
      cases hd
    · exact ⟨fun _ => Datagram.not_ticksPerEpoch_le.mp hoff, fun _ => ⟨_, rfl⟩⟩
  | series => exact exists_series_makeReadings_iff
  | event => exact exists_data_iff rfl (List.cons_ne_nil _ _) fun _ => rfl
  | alarm => exact exists_data_iff rfl (List.cons_ne_nil _ _) fun _ => rfl

/-- What `data` makes of valid records is built, and as long as they are. -/
private theorem spec_of_data {mt : MsgType} {e off : UInt32} {records : List Record} {d : Datagram}
    (h : Datagram.data mt cipher senderId e off records = .ok d) (hvalid : ∀ r ∈ records, r.Valid)
    (hlen : (records.map Record.wireLen).sum ≤ 128) :
    Built cipher senderId e d ∧ d.datagramOffset = off ∧ d.payloadLen ≤ 128 := by
  refine ⟨.data h hvalid, ?_, ?_⟩
  · obtain ⟨-, -, -, -, rfl⟩ := Datagram.data_eq_ok_iff.mp h
    rfl
  · obtain ⟨-, hne, -, -, rfl⟩ := Datagram.data_eq_ok_iff.mp h
    rw [Datagram.payloadLen, if_pos (by simpa using hne)]
    exact hlen

/-- What is made is built for the epoch and the tick asked for, and small. -/
theorem made_spec {d : Datagram} (h : makeDatagram F kind seq epoch offset = .ok d) :
    Built cipher senderId epoch d ∧ d.datagramOffset = offset ∧ d.payloadLen ≤ 128 := by
  cases kind with
  | message =>
    obtain ⟨hpos, hle⟩ := length_readingText (F := F) (sensorValues seq)
    have htext := length_asBytes_of_isPlain (isPlain_readingText (F := F) (sensorValues seq))
    have hpacked := length_packed (sensorValues seq)
    refine spec_of_data h ?_ ?_
    · rw [makeRecords, List.forall_mem_cons, List.forall_mem_singleton]
      exact ⟨Record.valid_new (by decide) (by omega) (hpacked.le.trans (by decide)),
        Record.valid_new (by decide) (by omega) (htext.le.trans (hle.trans (by decide)))⟩
    · rw [makeRecords, List.map_cons, List.map_singleton, List.sum_cons, List.sum_singleton,
        Record.wireLen_new, Record.wireLen_new]
      omega
  | number =>
    refine ⟨.number h, ?_⟩
    rw [makeDatagram, makeNumber] at h
    dsimp only at h
    rw [Datagram.number] at h
    split_ifs at h with hscale hoff
    obtain rfl := Except.ok.inj h
    exact ⟨rfl, by simp [Datagram.payloadLen, Datagram.base]⟩
  | series =>
    refine ⟨.series h, ?_⟩
    obtain ⟨off, first, es, -, -, hread, -, -, -, rfl⟩ := Datagram.series_eq_ok_iff.mp h
    rw [makeReadings, List.map_cons, List.cons.injEq, Prod.mk.injEq] at hread
    obtain ⟨⟨hoff, -⟩, hrest⟩ := hread
    refine ⟨by rw [← hoff]; simp [Datagram.base], ?_⟩
    have hlen : es.length = 2 := by
      rw [← length_readingsFrom off, ← hrest]
      rfl
    have hraw : (es.flatMap SeriesEntry.toBytes).length = 8 := by
      simp [List.length_flatMap, hlen, seriesEntryLen]
    simp [Datagram.payloadLen, Datagram.base, hraw]
  | event =>
    obtain ⟨hpos, hle⟩ := length_eventBody seq
    refine spec_of_data h ?_ ?_
    · rw [List.forall_mem_singleton]
      exact Record.valid_new (by decide) (by omega) (hle.trans (by decide))
    · rw [List.map_singleton, List.sum_singleton, Record.wireLen_new]
      omega
  | alarm =>
    obtain ⟨hpos, hle⟩ := length_alarmBody seq
    refine spec_of_data h ?_ ?_
    · rw [List.forall_mem_singleton]
      exact Record.valid_new (by decide) (by omega) (hle.trans (by decide))
    · rw [List.map_singleton, List.sum_singleton, Record.wireLen_new]
      omega

theorem makes_make (F : Formatting) : Makes cipher senderId (make F) := fun _ _ _ _ h =>
  ⟨(made_spec h).1, (made_spec h).2.1⟩

/-- What is made can be encoded. -/
private theorem exists_encode_of_made {P : Primitives} {secret : DeviceSecret} {d : Datagram}
    (h : makeDatagram F kind seq epoch offset = .ok d) :
    ∃ w, d.encode P secret epoch .nodeToCollector maxDatagramIpv4 = .ok w := by
  obtain ⟨hbuilt, -, hlen⟩ := made_spec h
  obtain ⟨mt, off, hbase, -, -, -, hframe⟩ := hbuilt.framesBack
  have hsuite : d.cipherId = cipher.toU8 := (congrArg Datagram.cipherId hbase :)
  refine ⟨_, Datagram.encode_eq_ok_iff.mpr ⟨cipher, ?_, ?_, nofun, ?_, rfl⟩⟩
  · rw [hsuite, CipherId.fromU8_toU8]
  · exact (payload_of_frame rfl hframe).2.1
  · rw [show headerLen = 9 from rfl, show cipher.tagLen = 4 from rfl,
      show maxDatagramIpv4 = 512 from rfl]
    omega

/-- The datagrams sent, by sequence number. -/
theorem sends_make (P : Primitives) (secret : DeviceSecret) (F : Formatting) (rs : List Reading) :
    (Sender.sends P secret (make F) rs).map (fun x => (x.pair, x.datagram)) =
      ((Pacer.claimed rs).zipIdx 1).filterMap fun q =>
        (make F (.ofNat q.2) q.1.1 q.1.2).toOption.map (q.1, ·) :=
  Sender.sends_eq (fun _ _ _ _ h => exists_encode_of_made h) rs

/-- **One datagram for each tick claimed**, but for the series that would run over the end of the
epoch. -/
theorem pairs_sends_make (P : Primitives) (secret : DeviceSecret) (F : Formatting)
    (rs : List Reading) :
    (Sender.sends P secret (make F) rs).map Sent.pair =
      ((Pacer.claimed rs).zipIdx 1).filterMap fun q =>
        if Fits (chooseKind (.ofNat q.2)) q.1.2 then some q.1 else none := by
  have hsent := congrArg (List.map Prod.fst) (sends_make P secret F rs)
  rw [List.map_map, List.map_filterMap] at hsent
  refine hsent.trans (List.filterMap_congr fun q _ => ?_)
  split_ifs with hfits
  · obtain ⟨d, hd⟩ := exists_makeDatagram_iff.mpr hfits
    rw [make, hd]
    rfl
  · rcases hmade : make F (.ofNat q.2) q.1.1 q.1.2 with e | d
    · rfl
    · exact absurd (exists_makeDatagram_iff.mp ⟨d, hmade⟩) hfits

end Catp.Demo
