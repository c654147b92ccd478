import Catp.Core.Crypto
import Catp.Wire.Fixed
import Catp.Wire.Record

/-!
# Datagrams and the send path

`Datagram` of `src/wire.rs` with its constructors, the packed 9-byte header, the 13-byte
authenticated header image, and the encoders. `encodeInto_eq_ok_iff` and `encode_eq_ok_iff`
are the specification of the send path: when it succeeds, and that what it writes is header,
payload and tag, one after the other.

Buffers are byte lists, and what the source writes in place is a list of the same length that
comes back with the count. So `out.drop n` in a specification is the part of the buffer that stays
as it was.

* The constructors cut the epoch to four bits and check the rest. They say nothing about the
  bodies of records, whose lengths are looked at only when they are written (`Writable`).
* `payload` is the payload without a buffer, `wire` the whole datagram. The loops and the reads
  back from the buffer are related to them once (`writeRecords_eq_ok_iff`,
  `payloadInto_eq_ok_iff`, `payload_read_back`).
* The MAC is computed over header image and payload in two parts, which the suite may have to
  stage in one buffer; `macParts_message_iff` is the case of `macParts` that the encoders need.
-/

namespace Catp

/-- A parsed datagram. -/
@[ext]
structure Datagram where
  version : UInt8
  msgType : UInt8
  cipherId : UInt8
  epochLow : UInt8
  reserved : UInt8
  datagramOffset : UInt32
  senderId : UInt32
  /-- Payload for record-framed types. -/
  records : List Record
  /-- Raw payload for `NUMBER` and control types. -/
  raw : Bytes
  deriving DecidableEq, Repr

namespace Datagram

/-! ### Constructors -/

/-- What the constructors have in common: no reserved bits, and the epoch cut to four. -/
def base (msgType : MsgType) (cipher : CipherId) (senderId epochId off : UInt32) : Datagram where
  version := Catp.version
  msgType := msgType.toU8
  cipherId := cipher.toU8
  epochLow := (epochId &&& 0x0F).toUInt8
  reserved := 0
  datagramOffset := off
  senderId := senderId
  records := []
  raw := []

/-- Build a record-framed datagram (`MESSAGE`, `EVENT`, `ALARM`). -/
def data (msgType : MsgType) (cipher : CipherId) (senderId epochId datagramOffset : UInt32)
    (records : List Record) : Except Error Datagram :=
  if !msgType.isRecordFramed then .error (.framing "msg_type is not record-framed")
  else if records.isEmpty then
    .error (.framing "record-framed datagram needs at least one record")
  else if (msgType == .event || msgType == .alarm) && records.length > 1 then
    .error (.framing "EVENT and ALARM carry exactly one record")
  else if ticksPerEpoch ≤ datagramOffset then
    .error (.framing "datagram_offset exceeds 19 bits")
  else .ok { base msgType cipher senderId epochId datagramOffset with records := records }

/-- Build a `NUMBER` datagram. -/
def number (cipher : CipherId) (senderId epochId datagramOffset : UInt32) (scale : UInt8)
    (mantissa : Int16) : Except Error Datagram :=
  if !scaleIsValid scale then .error (.badNumber "scale must be 0x01..=0x07")
  else if ticksPerEpoch ≤ datagramOffset then
    .error (.framing "datagram_offset exceeds 19 bits")
  else .ok { base .number cipher senderId epochId datagramOffset with
    raw := scale :: i16ToBe mantissa }

/-- The loop of `series` over the readings after the first: the last instant, and the
payload with the entries appended. -/
def seriesEntries (prev : UInt32) (raw : Bytes) :
    List (UInt32 × Int16) → Except Error (UInt32 × Bytes)
  | [] => .ok (prev, raw)
  | (offset, mantissa) :: readings =>
    if offset ≤ prev then .error (.badSeries "reading instants must strictly increase")
    else if 2 ^ 16 ≤ (offset - prev).toNat then
      .error (.badSeries "gap between readings exceeds 65535 ticks")
    else
      seriesEntries offset (raw ++ u16ToBe (offset - prev).toUInt16 ++ i16ToBe mantissa) readings

/-- Build a `SERIES` datagram from `(instant, mantissa)` pairs. -/
def series (cipher : CipherId) (senderId epochId : UInt32) (scale : UInt8)
    (readings : List (UInt32 × Int16)) : Except Error Datagram :=
  if !scaleIsValid scale then .error (.badSeries "scale must be 0x01..=0x07")
  else if readings.length < 2 then
    .error (.badSeries "SERIES must carry at least two readings")
  else
    let (firstOffset, firstMantissa) := readings[0]!
    if ticksPerEpoch ≤ firstOffset then .error (.framing "datagram_offset exceeds 19 bits")
    else
      match seriesEntries firstOffset (scale :: i16ToBe firstMantissa) (readings.drop 1) with
      | .error e => .error e
      | .ok (prev, raw) =>
        if ticksPerEpoch ≤ prev then
          .error (.badSeries "reading instant crosses the epoch boundary")
        else .ok { base .series cipher senderId epochId firstOffset with raw := raw }

/-- Build a control datagram; `body` is the whole fixed-layout payload. -/
def control (msgType : MsgType) (cipher : CipherId) (senderId epochId datagramOffset : UInt32)
    (body : Bytes) : Except Error Datagram :=
  if !isControl msgType.toU8 then .error (.framing "not a control type")
  else if ticksPerEpoch ≤ datagramOffset then
    .error (.framing "datagram_offset exceeds 19 bits")
  else .ok { base msgType cipher senderId epochId datagramOffset with raw := body }

/-- A tick of the epoch is a 19-bit number. -/
theorem not_ticksPerEpoch_le {off : UInt32} : ¬ticksPerEpoch ≤ off ↔ off.toNat < 2 ^ 19 := by
  rw [UInt32.not_le, UInt32.lt_iff_toNat_lt]
  rfl

/-- What `data` builds, and from what. -/
theorem data_eq_ok_iff {msgType : MsgType} {cipher : CipherId} {s e off : UInt32}
    {records : List Record} {d : Datagram} : data msgType cipher s e off records = .ok d ↔
      msgType.isRecordFramed = true ∧ records ≠ [] ∧
        (msgType = .event ∨ msgType = .alarm → records.length = 1) ∧ off.toNat < 2 ^ 19 ∧
        d = { base msgType cipher s e off with records := records } := by
  rw [data]
  split_ifs with hframed hempty hmany hoff
  · simp [show msgType.isRecordFramed = false by simpa using hframed]
  · simp [show records = [] by simpa using hempty]
  · simp only [Bool.and_eq_true, Bool.or_eq_true, beq_iff_eq, decide_eq_true_eq] at hmany
    refine ⟨nofun, fun h => ?_⟩
    have := h.2.2.1 hmany.1
    omega
  · exact ⟨nofun, fun h => absurd hoff (not_ticksPerEpoch_le.mpr h.2.2.2.1)⟩
  · have hpos : records.length ≠ 0 := by simpa using hempty
    have hone : msgType = .event ∨ msgType = .alarm → records.length = 1 := by
      intro hmt
      simp only [Bool.and_eq_true, Bool.or_eq_true, beq_iff_eq, decide_eq_true_eq,
        not_and] at hmany
      have := hmany hmt
      omega
    have hframed' : msgType.isRecordFramed = true := by simpa using hframed
    have hne : records ≠ [] := by simpa using hempty
    rw [and_iff_right hframed', and_iff_right hne, and_iff_right hone,
      and_iff_right (not_ticksPerEpoch_le.mp hoff), Except.ok.injEq, eq_comm]

/-! ### The header -/

/-- The packed header. -/
def headerBytes (d : Datagram) : Bytes :=
  let b0 := ((d.version &&& 0x07) <<< 5) ||| (d.msgType &&& 0x1F)
  let b1 := ((d.cipherId &&& 0x0F) <<< 4) ||| (d.epochLow &&& 0x0F)
  let o := d.datagramOffset &&& 0x7FFFF
  let b2 := ((d.reserved &&& 0x1F) <<< 3) ||| ((o >>> 16).toUInt8 &&& 0x07)
  [b0, b1, b2, (o >>> 8).toUInt8, o.toUInt8] ++ u32ToBe d.senderId

/-- The 13-byte authenticated header image: the wire header with `epoch_low` zeroed, and the
full `epoch_id` inserted before the sender. -/
def authHeader (d : Datagram) (epochId : UInt32) : Bytes :=
  let h := d.headerBytes
  [h[0]!, h[1]! &&& 0xF0, h[2]!, h[3]!, h[4]!] ++ u32ToBe epochId ++ h.drop 5

/-- The wire header is nine octets, whatever the fields. -/
@[simp] theorem length_headerBytes (d : Datagram) : d.headerBytes.length = headerLen := by
  simp [headerBytes]

/-- The header that is authenticated is longer: it holds the epoch in full. -/
@[simp] theorem length_authHeader (d : Datagram) (e : UInt32) : (d.authHeader e).length = 13 := by
  simp [authHeader, headerLen]

/-! ### The encoders -/

/-- Wire length of the payload this datagram serializes to. -/
def payloadLen (d : Datagram) : ℕ :=
  if !d.records.isEmpty then (d.records.map Record.wireLen).sum else d.raw.length

/-- The record loop of `payload_into`: each record is written behind the `used` bytes already
written. -/
def writeRecords : List Record → Bytes → ℕ → Except Error Bytes
  | [], out, _ => .ok out
  | r :: records, out, used =>
    match r.writeInto (out.drop used) with
    | .error e => .error e
    | .ok (n, rest) => writeRecords records (out.take used ++ rest) (used + n)

/-- Serialize the payload into the caller's buffer: the bytes written and the new contents of
`out`. -/
def payloadInto (d : Datagram) (out : Bytes) : Except Error (ℕ × Bytes) :=
  let need := d.payloadLen
  if out.length < need then .error (.bufferTooSmall out.length need)
  else if !d.records.isEmpty then (writeRecords d.records out 0).map fun out => (need, out)
  else .ok (need, d.raw ++ out.drop need)

section

variable (P : Primitives)

/-- Serialize and authenticate into the caller's buffer: the bytes written and the new
contents of `out`. -/
def encodeInto (d : Datagram) (secret : DeviceSecret) (epochId : UInt32) (dir : Direction)
    (out : Bytes) : Except Error (ℕ × Bytes) :=
  match CipherId.fromU8 d.cipherId with
  | none => .error (.cipherUnimplemented d.cipherId)
  | some cipher =>
    let tagLen := cipher.tagLen
    let need := headerLen + d.payloadLen + tagLen
    if out.length < need then .error (.bufferTooSmall out.length need)
    else do
      let (plen, region) ← d.payloadInto ((out.drop headerLen).take d.payloadLen)
      let key := secret.epochKey P d.senderId epochId dir
      let out := d.headerBytes ++ region ++ out.drop (headerLen + d.payloadLen)
      let payload := (out.drop headerLen).take plen
      let tag := (out.drop (headerLen + plen)).take tagLen
      let tag ← macParts P cipher key [d.authHeader epochId, payload] d.datagramOffset tag
      return (headerLen + plen + tagLen,
        out.take (headerLen + plen) ++ tag ++ out.drop (headerLen + plen + tagLen))

/-- Serialize and authenticate, producing the UDP payload. -/
def encode (d : Datagram) (secret : DeviceSecret) (epochId : UInt32) (dir : Direction)
    (maxDatagramSize : ℕ) : Except Error Bytes :=
  match CipherId.fromU8 d.cipherId with
  | none => .error (.cipherUnimplemented d.cipherId)
  | some cipher => do
    let (n, out) ← d.encodeInto P secret epochId dir
      (List.replicate (headerLen + d.payloadLen + cipher.tagLen) 0)
    let out := out.take n
    if out.length > maxDatagramSize then throw (.oversize out.length)
    return out

end

/-! ### The payload written -/

/-- The payload as a byte string. -/
def payload (d : Datagram) : Bytes :=
  if d.records.isEmpty then d.raw else Record.codec.encAll d.records

/-- The datagrams whose record bodies the record header can express. -/
def Writable (d : Datagram) : Prop :=
  ∀ r ∈ d.records, 1 ≤ r.body.length ∧ r.body.length ≤ maxBody

/-- Records laid end to end are as long as the sum of their lengths. -/
theorem length_encAll_records (rs : List Record) :
    (Record.codec.encAll rs).length = (rs.map Record.wireLen).sum := by
  induction rs with
  | nil => rfl
  | cons r rs ih =>
    rw [Codec.encAll_cons, List.length_append, List.map_cons, List.sum_cons, ih]
    exact congrArg (· + _) r.length_toBytes

/-- The payload has the length computed for it. -/
@[simp] theorem length_payload (d : Datagram) : d.payload.length = d.payloadLen := by
  rw [payload, payloadLen]
  cases h : d.records.isEmpty
  · simp [length_encAll_records]
  · simp

end Datagram

/-- A record is written when its body is of a size the header can express and the buffer has
room for it. -/
theorem Record.writeInto_eq_ok_iff {r : Record} {out : Bytes} {n : ℕ} {out' : Bytes} :
    r.writeInto out = .ok (n, out') ↔
      (1 ≤ r.body.length ∧ r.body.length ≤ maxBody) ∧ r.wireLen ≤ out.length ∧
        n = r.wireLen ∧ out' = r.toBytes ++ out.drop r.wireLen := by
  have hempty : r.body.isEmpty = true ↔ ¬1 ≤ r.body.length := by
    rw [List.isEmpty_iff_length_eq_zero]
    omega
  rw [writeInto, toBytes]
  split_ifs with hbody hout
  · simp only [Bool.or_eq_true, hempty, decide_eq_true_eq] at hbody
    constructor
    · intro h
      cases h
    · intro h
      omega
  · constructor
    · intro h
      cases h
    · intro h
      omega
  · simp only [Bool.or_eq_true, hempty, decide_eq_true_eq, not_or, not_not, Nat.not_lt] at hbody
    have hroom : r.wireLen ≤ out.length := Nat.not_lt.mp hout
    simp only [Except.ok.injEq, Prod.mk.injEq, eq_comm, hbody, hroom, and_self, true_and]

namespace Datagram

/-- The record loop writes the records one after the other. -/
theorem writeRecords_eq_ok_iff (rs : List Record) (out : Bytes) (used : ℕ)
    (hused : used ≤ out.length) {out' : Bytes} :
    writeRecords rs out used = .ok out' ↔
      (∀ r ∈ rs, 1 ≤ r.body.length ∧ r.body.length ≤ maxBody) ∧
        used + (rs.map Record.wireLen).sum ≤ out.length ∧
        out' = out.take used ++ Record.codec.encAll rs ++
          out.drop (used + (rs.map Record.wireLen).sum) := by
  induction rs generalizing out used with
  | nil => simp [writeRecords, hused, eq_comm]
  | cons r rs ih =>
    rw [writeRecords, List.map_cons, List.sum_cons, List.forall_mem_cons, Codec.encAll_cons]
    cases hw : r.writeInto (out.drop used) with
    | error e =>
      refine ⟨nofun, ?_⟩
      rintro ⟨⟨hr, _⟩, hroom, _⟩
      have hfit : r.wireLen ≤ (out.drop used).length := by
        rw [List.length_drop]
        omega
      rw [Record.writeInto_eq_ok_iff.mpr ⟨hr, hfit, rfl, rfl⟩] at hw
      cases hw
    | ok w =>
      obtain ⟨n, rest⟩ := w
      obtain ⟨hr, hfit, rfl, rfl⟩ := Record.writeInto_eq_ok_iff.mp hw
      rw [List.length_drop] at hfit
      have hlen : (out.take used ++ (r.toBytes ++ (out.drop used).drop r.wireLen)).length
          = out.length := by
        simp
        omega
      have htake : (out.take used ++ (r.toBytes ++ (out.drop used).drop r.wireLen)).take
          (used + r.wireLen) = out.take used ++ r.toBytes := by
        rw [← List.append_assoc, List.take_left' (by simp; omega)]
      have hdrop : (out.take used ++ (r.toBytes ++ (out.drop used).drop r.wireLen)).drop
          (used + r.wireLen + (rs.map Record.wireLen).sum)
          = out.drop (used + (r.wireLen + (rs.map Record.wireLen).sum)) := by
        rw [← List.append_assoc, ← List.drop_drop, List.drop_left' (by simp; omega),
          List.drop_drop, List.drop_drop]
      -- the rest of the loop sees the written prefix as part of the buffer
      change writeRecords rs _ _ = _ ↔ _
      rw [ih _ _ (by rw [hlen]; omega), hlen, htake, hdrop, Nat.add_assoc,
        List.append_assoc (out.take used)]
      exact and_congr_left' (by simp only [hr, and_self, true_and])

/-- The payload is written when the buffer has room for it and its records can be
expressed. -/
theorem payloadInto_eq_ok_iff {d : Datagram} {out : Bytes} {n : ℕ} {out' : Bytes} :
    d.payloadInto out = .ok (n, out') ↔
      d.Writable ∧ d.payloadLen ≤ out.length ∧ n = d.payloadLen ∧
        out' = d.payload ++ out.drop d.payloadLen := by
  rw [payloadInto]
  split_ifs with hroom hrecs
  · exact ⟨nofun, fun h => by omega⟩
  · have hlen : d.payloadLen = (d.records.map Record.wireLen).sum := by
      rw [payloadLen, if_pos hrecs]
    have hpay : d.payload = Record.codec.encAll d.records := by
      rw [payload, if_neg (by simpa using hrecs)]
    cases hw : writeRecords d.records out 0 with
    | error e =>
      refine ⟨nofun, ?_⟩
      rintro ⟨hwr, hfit, _⟩
      rw [(writeRecords_eq_ok_iff d.records out 0 (Nat.zero_le _)).mpr
        ⟨hwr, by omega, rfl⟩] at hw
      cases hw
    | ok w =>
      obtain ⟨hwr, hfit, rfl⟩ := (writeRecords_eq_ok_iff d.records out 0 (Nat.zero_le _)).mp hw
      have hwr' : d.Writable := hwr
      rw [Nat.zero_add] at hfit
      rw [hpay, hlen]
      simp only [Except.map, Except.ok.injEq, Prod.mk.injEq, List.take_zero, List.nil_append,
        Nat.zero_add, hwr', hfit, true_and, eq_comm]
  · have hnil : d.records = [] := by simpa using hrecs
    have hpay : d.payload = d.raw := by rw [payload, hnil]; rfl
    have hwr : d.Writable := fun r hr => by rw [hnil] at hr; cases hr
    have hfit : d.payloadLen ≤ out.length := Nat.not_lt.mp hroom
    simp only [Except.ok.injEq, Prod.mk.injEq, hpay, hwr, hfit, true_and, eq_comm]

/-! ### The datagram written -/

section

variable (P : Primitives)

/-- Header, payload and tag, one after the other. -/
def wire (d : Datagram) (secret : DeviceSecret) (epochId : UInt32) (dir : Direction)
    (cipher : CipherId) : Bytes :=
  d.headerBytes ++ d.payload ++
    tag P cipher (secret.epochKey P d.senderId epochId dir) d.datagramOffset
      (d.authHeader epochId ++ d.payload)

/-- A datagram on the wire is header, payload and tag. -/
@[simp] theorem length_wire (d : Datagram) (secret : DeviceSecret) (e : UInt32) (dir : Direction)
    (cipher : CipherId) :
    (d.wire P secret e dir cipher).length = headerLen + d.payloadLen + cipher.tagLen := by
  rw [wire, List.length_append, List.length_append, length_headerBytes, length_payload, length_tag]

/-! The buffer after the payload has been written. -/

private theorem length_front (d : Datagram) :
    (d.headerBytes ++ d.payload).length = headerLen + d.payloadLen := by
  rw [List.length_append, length_headerBytes, length_payload]

private theorem drop_front (d : Datagram) (rest : Bytes) :
    (d.headerBytes ++ d.payload ++ rest).drop (headerLen + d.payloadLen) = rest :=
  List.drop_left' d.length_front

/-- Between header and rest stands the payload. -/
private theorem payload_read_back (d : Datagram) (rest : Bytes) :
    ((d.headerBytes ++ d.payload ++ rest).drop headerLen).take d.payloadLen = d.payload := by
  rw [List.append_assoc, List.drop_left' d.length_headerBytes, List.take_left' d.length_payload]

/-- The MAC of header image and payload, over room for just the tag. -/
theorem macParts_message_iff {d : Datagram} {e off : UInt32} {cipher : CipherId}
    {key : Vector UInt8 32} {room t : Bytes} (hroom : room.length = cipher.tagLen) :
    macParts P cipher key [d.authHeader e, d.payload] off room = .ok t ↔
      Stageable cipher (13 + d.payloadLen) ∧
        t = tag P cipher key off (d.authHeader e ++ d.payload) := by
  rw [macParts_eq_ok_iff, List.drop_eq_nil_of_le hroom.le, List.append_nil, List.flatten_cons,
    List.flatten_singleton, List.length_append, length_authHeader, length_payload]
  exact and_iff_right hroom.ge

variable {P} {d : Datagram} {secret : DeviceSecret} {e : UInt32} {dir : Direction}

/-- **Specification of `encode_into`.** It succeeds when the suite is registered, the record
bodies can be expressed, the suite can stage the message and the buffer has room, and then
writes header, payload and tag over the front of the buffer. -/
theorem encodeInto_eq_ok_iff {out : Bytes} {n : ℕ} {out' : Bytes} :
    d.encodeInto P secret e dir out = .ok (n, out') ↔
      ∃ cipher, CipherId.fromU8 d.cipherId = some cipher ∧
        headerLen + d.payloadLen + cipher.tagLen ≤ out.length ∧ d.Writable ∧
        Stageable cipher (13 + d.payloadLen) ∧
        n = headerLen + d.payloadLen + cipher.tagLen ∧
        out' = d.wire P secret e dir cipher ++ out.drop n := by
  rw [encodeInto]
  cases hcipher : CipherId.fromU8 d.cipherId with
  | none => simp
  | some cipher =>
    simp only [Option.some.injEq, exists_eq_left']
    split_ifs with hroom
    · exact ⟨nofun, fun h => by omega⟩
    -- the payload is written into a region of exactly its length
    have hregion : ((out.drop headerLen).take d.payloadLen).length = d.payloadLen := by
      rw [List.length_take, List.length_drop]
      omega
    cases hpay : d.payloadInto ((out.drop headerLen).take d.payloadLen) with
    | error err =>
      refine ⟨nofun, ?_⟩
      rintro ⟨_, hwr, _⟩
      rw [payloadInto_eq_ok_iff.mpr ⟨hwr, hregion.ge, rfl, rfl⟩] at hpay
      cases hpay
    | ok w =>
      obtain ⟨plen, region⟩ := w
      obtain ⟨hwr, -, rfl, rfl⟩ := payloadInto_eq_ok_iff.mp hpay
      have hnil : ((out.drop headerLen).take d.payloadLen).drop d.payloadLen = [] :=
        List.drop_eq_nil_of_le hregion.le
      have hroom' : headerLen + d.payloadLen + cipher.tagLen ≤ out.length := Nat.not_lt.mp hroom
      have htag : ((out.drop (headerLen + d.payloadLen)).take cipher.tagLen).length
          = cipher.tagLen := by
        rw [List.length_take, List.length_drop]
        omega
      -- the MAC reads the payload back from where it was written
      simp only [bind, Except.bind, hnil, List.append_nil, payload_read_back, drop_front]
      cases hmac : macParts P cipher (secret.epochKey P d.senderId e dir)
          [d.authHeader e, d.payload] d.datagramOffset
          ((out.drop (headerLen + d.payloadLen)).take cipher.tagLen) with
      | error err =>
        refine ⟨nofun, ?_⟩
        rintro ⟨_, _, hstage, _⟩
        rw [(macParts_message_iff P htag).mpr ⟨hstage, rfl⟩] at hmac
        cases hmac
      | ok t =>
        obtain ⟨hstage, rfl⟩ := (macParts_message_iff P htag).mp hmac
        have hrest : (d.headerBytes ++ d.payload ++ out.drop (headerLen + d.payloadLen)).drop
            (headerLen + d.payloadLen + cipher.tagLen)
            = out.drop (headerLen + d.payloadLen + cipher.tagLen) := by
          rw [← List.drop_drop, drop_front, List.drop_drop]
        simp only [List.take_left' d.length_front, hrest, pure, Except.pure, Except.ok.injEq,
          Prod.mk.injEq, wire, hwr, hstage, hroom', true_and]
        constructor
        · rintro ⟨rfl, rfl⟩
          exact ⟨rfl, rfl⟩
        · rintro ⟨rfl, rfl⟩
          exact ⟨rfl, rfl⟩

/-- **Specification of `encode`.** -/
theorem encode_eq_ok_iff {max : ℕ} {w : Bytes} :
    d.encode P secret e dir max = .ok w ↔
      ∃ cipher, CipherId.fromU8 d.cipherId = some cipher ∧ d.Writable ∧
        Stageable cipher (13 + d.payloadLen) ∧
        headerLen + d.payloadLen + cipher.tagLen ≤ max ∧ w = d.wire P secret e dir cipher := by
  rw [encode]
  cases hcipher : CipherId.fromU8 d.cipherId with
  | none => simp
  | some cipher =>
    simp only [Option.some.injEq, exists_eq_left']
    cases henc : d.encodeInto P secret e dir
        (List.replicate (headerLen + d.payloadLen + cipher.tagLen) 0) with
    | error err =>
      refine ⟨nofun, ?_⟩
      rintro ⟨hwr, hstage, _⟩
      rw [encodeInto_eq_ok_iff.mpr ⟨cipher, hcipher, by simp, hwr, hstage, rfl, rfl⟩] at henc
      cases henc
    | ok r =>
      obtain ⟨n, out⟩ := r
      obtain ⟨c, hc, -, hwr, hstage, rfl, rfl⟩ := encodeInto_eq_ok_iff.mp henc
      obtain rfl : cipher = c := Option.some.inj (hcipher.symm.trans hc)
      have hlen := d.length_wire P secret e dir cipher
      simp only [bind, Except.bind, List.take_left' hlen, hlen]
      split_ifs with hmax
      · exact ⟨nofun, fun h => by omega⟩
      · simp only [pure, Except.pure, Except.ok.injEq, hwr, hstage, Nat.not_lt.mp hmax, true_and,
          eq_comm]

end

end Datagram

end Catp
