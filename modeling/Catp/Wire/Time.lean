import Catp.Wire.Header

/-!
# Time recovery

`check_time_header`, `decode_time_request` and `decode_time_announce` of `src/wire.rs`: the two
messages that travel outside any epoch, under a key of their own, with every header field but
the reserved bits pinned to one value. `decodeTimeRequest_eq_ok_iff` and
`decodeTimeAnnounce_eq_ok_iff` say which datagrams are accepted.

The key is derived from the secret, the sender and a direction, with no epoch in it. So neither
message depends on a clock, and nothing here protects against a replay: what a node makes of an
old announcement is the matter of `Catp.Node.Clock`.

* `TimeHeader` names the six header fields that are pinned. The reserved bits are the seventh
  field; they are handed on and authenticated, and may be anything.
* The suite is fixed, and stages nothing (`mac_hmacSha256T64`), so a tag can always be computed.
-/

namespace Catp

/-- Header constraints shared by `TIME_REQUEST` and `TIME_ANNOUNCE`; the reserved bits are
returned. -/
def checkTimeHeader (buf : Bytes) (want : MsgType) (senderId : UInt32) : Except Error UInt8 :=
  let out := Datagram.unpack buf
  if out.version ≠ version then .error (.unsupportedVersion out.version)
  else if out.msgType ≠ want.toU8 then .error (.badMsgType out.msgType)
  else if out.cipherId ≠ CipherId.hmacSha256T64.toU8 then
    .error (.cipherMismatch out.cipherId CipherId.hmacSha256T64.toU8)
  else if out.epochLow ≠ 0 then .error (.framing "time-recovery epoch_low must be zero")
  else if out.datagramOffset ≠ 0 then
    .error (.framing "time-recovery datagram_offset must be zero")
  else if out.senderId ≠ senderId then .error (.unknownSender out.senderId)
  else .ok out.reserved

/-- The datagram whose header image is authenticated. -/
def timeDatagram (msgType : MsgType) (senderId : UInt32) (reserved : UInt8) (raw : Bytes) :
    Datagram where
  version := version
  msgType := msgType.toU8
  cipherId := CipherId.hmacSha256T64.toU8
  epochLow := 0
  reserved := reserved
  datagramOffset := 0
  senderId := senderId
  records := []
  raw := raw

section

variable (P : Primitives)

/-- Verify a `TIME_REQUEST` under the node-to-collector `time_key`. -/
def decodeTimeRequest (buf : Bytes) (senderId : UInt32) (secret : DeviceSecret) :
    Except Error Unit :=
  if buf.length ≠ headerLen + CipherId.hmacSha256T64.tagLen then .error .tooShort
  else
    match checkTimeHeader buf .timeRequest senderId with
    | .error e => .error e
    | .ok reserved =>
      let d := timeDatagram .timeRequest senderId reserved []
      let key := secret.timeKey P senderId .nodeToCollector
      match mac P .hmacSha256T64 key (d.authHeader 0) 0 with
      | .error e => .error e
      | .ok expected =>
        if !ctEq expected (buf.drop headerLen) then .error .authFailed else .ok ()

/-- Verify a `TIME_ANNOUNCE` under the collector-to-node `time_key`: the asserted time. -/
def decodeTimeAnnounce (buf : Bytes) (senderId : UInt32) (secret : DeviceSecret) :
    Except Error Int64 :=
  if buf.length ≠ headerLen + 8 + CipherId.hmacSha256T64.tagLen then .error .tooShort
  else
    match checkTimeHeader buf .timeAnnounce senderId with
    | .error e => .error e
    | .ok reserved =>
      let payload := (buf.take (headerLen + 8)).drop headerLen
      let d := timeDatagram .timeAnnounce senderId reserved payload
      let key := secret.timeKey P senderId .collectorToNode
      match mac P .hmacSha256T64 key (d.authHeader 0 ++ payload) 0 with
      | .error e => .error e
      | .ok expected =>
        if !ctEq expected (buf.drop (headerLen + 8)) then .error .authFailed
        else .ok (i64OfBe payload)

end

/-- The header fields a time-recovery message of this type and sender has. -/
structure TimeHeader (want : MsgType) (senderId : UInt32) (out : Datagram) : Prop where
  version_eq : out.version = version
  msgType_eq : out.msgType = want.toU8
  cipherId_eq : out.cipherId = CipherId.hmacSha256T64.toU8
  epochLow_eq : out.epochLow = 0
  datagramOffset_eq : out.datagramOffset = 0
  senderId_eq : out.senderId = senderId

/-- The header check passes exactly on the pinned header, and hands on the reserved bits. -/
theorem checkTimeHeader_eq_ok_iff {buf : Bytes} {want : MsgType} {senderId : UInt32}
    {reserved : UInt8} : checkTimeHeader buf want senderId = .ok reserved ↔
      TimeHeader want senderId (Datagram.unpack buf) ∧
        reserved = (Datagram.unpack buf).reserved := by
  constructor
  · intro h
    simp only [checkTimeHeader] at h
    split_ifs at h with h1 h2 h3 h4 h5 h6
    exact ⟨⟨not_not.mp h1, not_not.mp h2, not_not.mp h3, not_not.mp h4, not_not.mp h5,
      not_not.mp h6⟩, (Except.ok.inj h).symm⟩
  · rintro ⟨⟨h1, h2, h3, h4, h5, h6⟩, rfl⟩
    simp only [checkTimeHeader, h1, h2, h3, h4, h5, h6, ne_eq, not_true_eq_false, if_false]

/-- A header that fails the check is not the pinned one. -/
private theorem not_timeHeader_of_error {buf : Bytes} {mt : MsgType} {senderId : UInt32} {e : Error}
    (h : checkTimeHeader buf mt senderId = .error e) :
    ¬TimeHeader mt senderId (Datagram.unpack buf) := by
  intro hfields
  rw [checkTimeHeader_eq_ok_iff.mpr ⟨hfields, rfl⟩] at h
  cases h

section

variable {P : Primitives} {buf : Bytes} {senderId : UInt32} {secret : DeviceSecret}

/-- The suite of these messages stages nothing, so its tag is always computed. -/
theorem mac_hmacSha256T64 (key : Vector UInt8 32) (msg : Bytes) (off : UInt32) :
    mac P .hmacSha256T64 key msg off = .ok (tag P .hmacSha256T64 key off msg) := by
  rw [mac_eq, if_pos (by simp [Stageable])]

/-- **The accepted `TIME_REQUEST`s.** -/
theorem decodeTimeRequest_eq_ok_iff : decodeTimeRequest P buf senderId secret = .ok () ↔
    buf.length = headerLen + CipherId.hmacSha256T64.tagLen ∧
      TimeHeader .timeRequest senderId (Datagram.unpack buf) ∧
      buf.drop headerLen = tag P .hmacSha256T64 (secret.timeKey P senderId .nodeToCollector) 0
        ((timeDatagram .timeRequest senderId (Datagram.unpack buf).reserved []).authHeader 0) := by
  rw [decodeTimeRequest]
  by_cases hlen : buf.length = headerLen + CipherId.hmacSha256T64.tagLen
  case neg =>
    rw [if_pos hlen]
    exact ⟨nofun, fun h => absurd h.1 hlen⟩
  rw [if_neg (not_not.mpr hlen)]
  rcases hhead : checkTimeHeader buf .timeRequest senderId with e | reserved
  · exact ⟨nofun, fun h => absurd h.2.1 (not_timeHeader_of_error hhead)⟩
  · obtain ⟨hfields, rfl⟩ := checkTimeHeader_eq_ok_iff.mp hhead
    dsimp only
    rw [mac_hmacSha256T64]
    dsimp only
    rw [ite_ctEq_eq_ok_iff]
    exact ⟨fun h => ⟨hlen, hfields, h.1⟩, fun h => ⟨h.2.2, rfl⟩⟩

/-- **The accepted `TIME_ANNOUNCE`s**, with the time they assert. -/
theorem decodeTimeAnnounce_eq_ok_iff {t : Int64} :
    decodeTimeAnnounce P buf senderId secret = .ok t ↔
      buf.length = headerLen + 8 + CipherId.hmacSha256T64.tagLen ∧
        TimeHeader .timeAnnounce senderId (Datagram.unpack buf) ∧
        buf.drop (headerLen + 8) =
          tag P .hmacSha256T64 (secret.timeKey P senderId .collectorToNode) 0
            ((timeDatagram .timeAnnounce senderId (Datagram.unpack buf).reserved
              ((buf.take (headerLen + 8)).drop headerLen)).authHeader 0 ++
              (buf.take (headerLen + 8)).drop headerLen) ∧
        t = i64OfBe ((buf.take (headerLen + 8)).drop headerLen) := by
  rw [decodeTimeAnnounce]
  by_cases hlen : buf.length = headerLen + 8 + CipherId.hmacSha256T64.tagLen
  case neg =>
    rw [if_pos hlen]
    exact ⟨nofun, fun h => absurd h.1 hlen⟩
  rw [if_neg (not_not.mpr hlen)]
  rcases hhead : checkTimeHeader buf .timeAnnounce senderId with e | reserved
  · exact ⟨nofun, fun h => absurd h.2.1 (not_timeHeader_of_error hhead)⟩
  · obtain ⟨hfields, rfl⟩ := checkTimeHeader_eq_ok_iff.mp hhead
    dsimp only
    rw [mac_hmacSha256T64]
    dsimp only
    rw [ite_ctEq_eq_ok_iff]
    exact ⟨fun h => ⟨hlen, hfields, h⟩, fun h => h.2.2⟩

end

end Catp
