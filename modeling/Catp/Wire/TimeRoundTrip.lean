import Catp.Wire.Decode
import Catp.Wire.Time

/-!
# Round trip of the time-recovery messages

`Datagram::time_announce` and `Datagram::time_request` of `src/wire.rs` build what
`decode_time_announce` and `decode_time_request` accept. The decoders compute the tag over a header
of their own, in which only the reserved bits come from the message; so a message they accept is
`timeWire` of those bits (`decodeTimeAnnounce_eq_ok_iff_wire`), and the one whose reserved bits are
zero is the one the sender builds. The three entry points are disjoint by the message type alone.

* `exists_timeWire_iff` is shared by both messages: a length, a pinned header and a right tag are
  the bytes of `timeWire` for some reserved bits. It goes through the header, which is read back
  from any message of that form (`unpack_timeWire`).
* The senders write zero reserved bits, so theirs is one of 32 messages that are accepted for a
  time (`exists_timeWire_and_reserved_iff`).
* `decode` refuses both types and each time decoder every other type but its own. This needs no
  property of the MAC, only the first octet.
-/

namespace Catp

section

variable (P : Primitives)

namespace Datagram

/-- Build a `TIME_ANNOUNCE`. -/
def timeAnnounce (senderId : UInt32) (assertedTime : Int64) (secret : DeviceSecret) :
    Except Error Bytes := do
  let d := timeDatagram .timeAnnounce senderId 0 (i64ToBe assertedTime)
  let key := secret.timeKey P senderId .collectorToNode
  let signed := d.authHeader 0 ++ d.raw
  let tag ← mac P .hmacSha256T64 key signed 0
  return d.headerBytes ++ d.raw ++ tag

/-- Build a `TIME_REQUEST`. -/
def timeRequest (senderId : UInt32) (secret : DeviceSecret) : Except Error Bytes := do
  let d := timeDatagram .timeRequest senderId 0 []
  let key := secret.timeKey P senderId .nodeToCollector
  let tag ← mac P .hmacSha256T64 key (d.authHeader 0) 0
  return d.headerBytes ++ tag

end Datagram

/-- Header, payload and tag of a time-recovery message with these reserved bits. -/
def timeWire (msgType : MsgType) (senderId : UInt32) (reserved : UInt8) (payload : Bytes)
    (key : Vector UInt8 32) : Bytes :=
  let d := timeDatagram msgType senderId reserved payload
  d.headerBytes ++ payload ++ tag P .hmacSha256T64 key 0 (d.authHeader 0 ++ payload)

end

variable {P : Primitives} {buf : Bytes} {want : MsgType} {senderId : UInt32} {reserved : UInt8}
  {payload : Bytes} {secret : DeviceSecret} {key : Vector UInt8 32} {t : Int64}

/-! ### The senders -/

/-- An announcement is always made, and this is its wire. -/
theorem timeAnnounce_eq : Datagram.timeAnnounce P senderId t secret =
    .ok (timeWire P .timeAnnounce senderId 0 (i64ToBe t)
      (secret.timeKey P senderId .collectorToNode)) := by
  rw [Datagram.timeAnnounce, mac_hmacSha256T64]
  rfl

private theorem timeRequest_eq : Datagram.timeRequest P senderId secret =
    .ok (timeWire P .timeRequest senderId 0 [] (secret.timeKey P senderId .nodeToCollector)) := by
  rw [Datagram.timeRequest, mac_hmacSha256T64, timeWire, List.append_nil, List.append_nil]
  rfl

/-! ### The header of an accepted message -/

/-- The pinned header fits its bits, with any reserved bits. -/
private theorem headerFits_timeDatagram (hreserved : reserved.toNat < 32) :
    (timeDatagram want senderId reserved payload).HeaderFits where
  version := show version.toNat < 8 by decide
  msgType := want.toU8_lt
  cipherId := CipherId.toU8_lt _
  epochLow := show (0 : UInt8).toNat < 16 by decide
  reserved := hreserved
  datagramOffset := show (0 : UInt32).toNat < 2 ^ 19 by decide

/-- The header fields of an accepted message are those of the datagram authenticated. -/
theorem TimeHeader.unpack_eq (h : TimeHeader want senderId (Datagram.unpack buf)) :
    Datagram.unpack buf = timeDatagram want senderId (Datagram.unpack buf).reserved [] :=
  Datagram.ext h.version_eq h.msgType_eq h.cipherId_eq h.epochLow_eq rfl h.datagramOffset_eq
    h.senderId_eq rfl rfl

private theorem timeHeader_timeDatagram : TimeHeader want senderId
    (timeDatagram want senderId reserved payload) :=
  ⟨rfl, rfl, rfl, rfl, rfl, rfl⟩

/-- The header of a time message is read back. -/
private theorem unpack_timeWire (hreserved : reserved.toNat < 32) :
    Datagram.unpack (timeWire P want senderId reserved payload key) =
      timeDatagram want senderId reserved [] := by
  rw [timeWire, List.append_assoc,
    Datagram.unpack_headerBytes_append (headerFits_timeDatagram hreserved)]
  rfl

/-- The message whose reserved bits are zero. -/
theorem exists_timeWire_and_reserved_iff :
    (∃ reserved : UInt8, reserved.toNat < 32 ∧
        buf = timeWire P want senderId reserved payload key) ∧
      (Datagram.unpack buf).reserved = 0 ↔ timeWire P want senderId 0 payload key = buf := by
  constructor
  · rintro ⟨⟨r, hr, rfl⟩, hres⟩
    rw [unpack_timeWire hr] at hres
    obtain rfl : r = 0 := hres
    rfl
  · rintro rfl
    have hzero : (0 : UInt8).toNat < 32 := by decide
    exact ⟨⟨0, hzero, rfl⟩, by rw [unpack_timeWire hzero]; rfl⟩

private theorem length_timeWire : (timeWire P want senderId reserved payload key).length =
    headerLen + payload.length + CipherId.hmacSha256T64.tagLen := by
  rw [timeWire, List.length_append, List.length_append, Datagram.length_headerBytes, length_tag]

/-- **The accepted messages**: length, header and tag are right exactly for the bytes of some
reserved bits. -/
theorem exists_timeWire_iff {n : ℕ} : (buf.length = headerLen + n + CipherId.hmacSha256T64.tagLen ∧
      TimeHeader want senderId (Datagram.unpack buf) ∧
      buf.drop (headerLen + n) = tag P .hmacSha256T64 key 0
        ((timeDatagram want senderId (Datagram.unpack buf).reserved
          ((buf.take (headerLen + n)).drop headerLen)).authHeader 0 ++
            (buf.take (headerLen + n)).drop headerLen) ∧
      payload = (buf.take (headerLen + n)).drop headerLen) ↔
    ∃ reserved : UInt8, reserved.toNat < 32 ∧ payload.length = n ∧
      buf = timeWire P want senderId reserved payload key := by
  constructor
  · rintro ⟨hlen, hheader, htag, rfl⟩
    refine ⟨(Datagram.unpack buf).reserved, (Datagram.headerFits_unpack buf).reserved, ?_, ?_⟩
    · rw [List.length_drop, List.length_take]
      omega
    · have hbytes : (timeDatagram want senderId (Datagram.unpack buf).reserved
          ((buf.take (headerLen + n)).drop headerLen)).headerBytes = buf.take headerLen := by
        rw [← Datagram.headerBytes_unpack (by omega), hheader.unpack_eq]
        rfl
      have hhead : buf.take headerLen = (buf.take (headerLen + n)).take headerLen := by
        rw [List.take_take, Nat.min_eq_left (Nat.le_add_right _ _)]
      rw [timeWire, ← htag, hbytes, hhead, List.take_append_drop, List.take_append_drop]
  · rintro ⟨reserved, hreserved, rfl, rfl⟩
    have hpayload : ((timeWire P want senderId reserved payload key).take
        (headerLen + payload.length)).drop headerLen = payload := by
      rw [timeWire, List.take_left' (by rw [List.length_append, Datagram.length_headerBytes]),
        List.drop_left' (Datagram.length_headerBytes _)]
    rw [unpack_timeWire hreserved, hpayload]
    refine ⟨length_timeWire, timeHeader_timeDatagram, ?_, rfl⟩
    rw [timeWire, List.drop_left' (by rw [List.length_append, Datagram.length_headerBytes])]
    rfl

/-- A request is accepted exactly if it is one the node could have made, up to the reserved bits. -/
private theorem decodeTimeRequest_eq_ok_iff_wire :
    decodeTimeRequest P buf senderId secret = .ok () ↔
    ∃ reserved : UInt8, reserved.toNat < 32 ∧
      buf = timeWire P .timeRequest senderId reserved []
        (secret.timeKey P senderId .nodeToCollector) := by
  have hiff := @exists_timeWire_iff P buf .timeRequest senderId []
    (secret.timeKey P senderId .nodeToCollector) 0
  have hnil : (buf.take (headerLen + 0)).drop headerLen = [] :=
    List.drop_eq_nil_of_le (List.length_take_le _ _)
  simp only [hnil, List.append_nil, and_true, List.length_nil, true_and] at hiff
  rw [decodeTimeRequest_eq_ok_iff]
  exact hiff

/-- An announcement of a time is accepted exactly if it is one the collector could have made of that
time, up to the reserved bits. -/
theorem decodeTimeAnnounce_eq_ok_iff_wire : decodeTimeAnnounce P buf senderId secret = .ok t ↔
    ∃ reserved : UInt8, reserved.toNat < 32 ∧
      buf = timeWire P .timeAnnounce senderId reserved (i64ToBe t)
        (secret.timeKey P senderId .collectorToNode) := by
  have hiff := @exists_timeWire_iff P buf .timeAnnounce senderId (i64ToBe t)
    (secret.timeKey P senderId .collectorToNode) 8
  simp only [length_i64ToBe, true_and] at hiff
  rw [decodeTimeAnnounce_eq_ok_iff, ← hiff]
  refine and_congr_right fun hlen => and_congr_right fun _ => and_congr_right fun _ => ?_
  have hpayload : ((buf.take (headerLen + 8)).drop headerLen).length = 8 := by
    rw [List.length_drop, List.length_take]
    omega
  constructor
  · rintro rfl
    exact i64ToBe_i64OfBe hpayload
  · intro h
    rw [← h, i64OfBe_i64ToBe]

/-! ### The three entry points -/

/-- A datagram that `decode` accepts is of neither type. -/
private theorem msgType_of_decode {WORDS : ℕ} {peer : PeerConfig} {l : UInt32} {dir : Direction}
    {w : ReplayWindow WORDS} {acc : Accepted} (h : (decode P buf peer l dir w).1 = .ok acc) :
    (Datagram.unpack buf).msgType ≠ MsgType.timeAnnounce.toU8 ∧
      (Datagram.unpack buf).msgType ≠ MsgType.timeRequest.toU8 := by
  obtain ⟨c, hverify, -⟩ := decode_eq_ok_iff.mp h
  obtain ⟨-, hheader, -, hmt, hann, hreq, -⟩ :=
    checkHeader_eq_ok_iff.mp (verify_eq_ok_iff.mp hverify).1
  rw [← hheader]
  constructor
  · intro heq
    rw [heq, MsgType.fromU8_toU8] at hmt
    exact hann (Option.some.inj hmt).symm
  · intro heq
    rw [heq, MsgType.fromU8_toU8] at hmt
    exact hreq (Option.some.inj hmt).symm

private theorem msgType_of_decodeTimeRequest
    (h : decodeTimeRequest P buf senderId secret = .ok ()) :
    (Datagram.unpack buf).msgType = MsgType.timeRequest.toU8 :=
  (decodeTimeRequest_eq_ok_iff.mp h).2.1.msgType_eq

private theorem msgType_of_decodeTimeAnnounce
    (h : decodeTimeAnnounce P buf senderId secret = .ok t) :
    (Datagram.unpack buf).msgType = MsgType.timeAnnounce.toU8 :=
  (decodeTimeAnnounce_eq_ok_iff.mp h).2.1.msgType_eq

/-- **The time-recovery messages are canonical.** What a sender builds is accepted, and gives the
time announced. What is accepted is, with the reserved bits zero, what the sender builds; with
other reserved bits it differs in those and in the tag over them. No datagram is accepted by two
of the three entry points. -/
theorem time_messages_canonical (P : Primitives) (senderId : UInt32) (secret : DeviceSecret) :
    (∀ t, ∃ buf, Datagram.timeAnnounce P senderId t secret = .ok buf ∧
      decodeTimeAnnounce P buf senderId secret = .ok t) ∧
    (∃ buf, Datagram.timeRequest P senderId secret = .ok buf ∧
      decodeTimeRequest P buf senderId secret = .ok ()) ∧
    (∀ buf t, decodeTimeAnnounce P buf senderId secret = .ok t ∧
        (Datagram.unpack buf).reserved = 0 ↔
      Datagram.timeAnnounce P senderId t secret = .ok buf) ∧
    (∀ buf, decodeTimeRequest P buf senderId secret = .ok () ∧
        (Datagram.unpack buf).reserved = 0 ↔
      Datagram.timeRequest P senderId secret = .ok buf) ∧
    (∀ buf t, decodeTimeAnnounce P buf senderId secret = .ok t ↔
      ∃ reserved : UInt8, reserved.toNat < 32 ∧
        buf = timeWire P .timeAnnounce senderId reserved (i64ToBe t)
          (secret.timeKey P senderId .collectorToNode)) ∧
    (∀ buf, decodeTimeRequest P buf senderId secret = .ok () ↔
      ∃ reserved : UInt8, reserved.toNat < 32 ∧
        buf = timeWire P .timeRequest senderId reserved []
          (secret.timeKey P senderId .nodeToCollector)) ∧
    ∀ buf {WORDS : ℕ} (peer : PeerConfig) l dir (w : ReplayWindow WORDS) acc senderId' t,
      ¬((decode P buf peer l dir w).1 = .ok acc ∧
          decodeTimeRequest P buf senderId secret = .ok ()) ∧
        ¬((decode P buf peer l dir w).1 = .ok acc ∧
          decodeTimeAnnounce P buf senderId secret = .ok t) ∧
        ¬(decodeTimeRequest P buf senderId secret = .ok () ∧
          decodeTimeAnnounce P buf senderId' secret = .ok t) := by
  have hzero : (0 : UInt8).toNat < 32 := by decide
  refine ⟨fun t => ⟨_, timeAnnounce_eq, decodeTimeAnnounce_eq_ok_iff_wire.mpr ⟨0, hzero, rfl⟩⟩,
    ⟨_, timeRequest_eq, decodeTimeRequest_eq_ok_iff_wire.mpr ⟨0, hzero, rfl⟩⟩, fun buf t => ?_,
    fun buf => ?_, fun _ _ => decodeTimeAnnounce_eq_ok_iff_wire,
    fun _ => decodeTimeRequest_eq_ok_iff_wire,
    fun buf WORDS peer l dir w acc senderId' t => ⟨?_, ?_, ?_⟩⟩
  · rw [timeAnnounce_eq, Except.ok.injEq, decodeTimeAnnounce_eq_ok_iff_wire]
    exact exists_timeWire_and_reserved_iff
  · rw [timeRequest_eq, Except.ok.injEq, decodeTimeRequest_eq_ok_iff_wire]
    exact exists_timeWire_and_reserved_iff
  · rintro ⟨h, hreq⟩
    exact (msgType_of_decode h).2 (msgType_of_decodeTimeRequest hreq)
  · rintro ⟨h, hann⟩
    exact (msgType_of_decode h).1 (msgType_of_decodeTimeAnnounce hann)
  · rintro ⟨hreq, hann⟩
    have heq := (msgType_of_decodeTimeRequest hreq).symm.trans (msgType_of_decodeTimeAnnounce hann)
    exact absurd heq (by decide)

end Catp
