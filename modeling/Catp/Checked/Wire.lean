import Catp.Checked.Core
import Catp.Wire.Decode
import Catp.Wire.Time

/-!
# The receive path with its faults

`decode`, `decode_time_request` and `decode_time_announce` of `src/wire.rs` over the core with its
faults. A buffer is a slice, so it is at most half the address space long; the checks of the code
do the rest. `decodeTimeRequest_eq` and `decodeTimeAnnounce_eq` say that the two messages outside
any epoch never fault, and `decode_returns_iff` that `decode` faults exactly where the window
divides by zero, in step 8. The record loop runs on as much fuel as there are bytes and one more,
and never out of it (`recordLoop_eq`).

The definitions are those of the source a second time, with the same names, in a namespace of
their own. What the total versions read with a default, these read with `index` or `slice`.

* Steps 1 to 6 stop nowhere (`checkHeader_eq`): the length is checked before each group of octets
  is read.
* Step 7 stops nowhere (`verify_eq`): the payload is part of the buffer, so the lengths that are
  added are bounded.
* Step 8 stops exactly at an uncheckable window (`decode_fault`), which only a verified datagram
  reaches.
* Steps 9 and 10 stop nowhere (`finish_eq`): each turn of the record loop consumes at least a
  record header, so the fuel suffices.
-/

namespace Catp.Checked

open Faults

/-! ### The functions -/

section

variable (usizeMax : ℕ)

/-- `Record::decode`: the three header bytes, then the body by its length. -/
def Record.decode (buf : Bytes) : Faulting (Except Error (Record × ℕ)) :=
  if buf.length < recordHeaderLen then return .error (.framing "record header truncated")
  else do
    let w := Record.wordOf (← index buf 0) (← index buf 1) (← index buf 2)
    let format := ((w >>> 20) &&& 0x0F).toUInt8
    let schemaVersion := ((w >>> 12) &&& 0xFF).toUInt8
    let size := (w &&& 0xFFF).toNat
    if format = 0 then return .error (.framing "format 0x00 is invalid")
    else if schemaVersion = 0 then return .error (.framing "schema_version 0x00 is invalid")
    else if size = 0 then return .error (.framing "size 0 is invalid")
    else do
      let behind ← add usizeMax recordHeaderLen size
      if buf.length < behind then return .error (.framing "record body overruns payload")
      else
        let body ← slice buf recordHeaderLen behind
        return .ok (⟨format, schemaVersion, body⟩, behind)

/-- The nine header bytes are indexed one by one. -/
def Datagram.unpack (buf : Bytes) : Faulting Datagram :=
  return Catp.Datagram.unpack [← index buf 0, ← index buf 1, ← index buf 2, ← index buf 3,
    ← index buf 4, ← index buf 5, ← index buf 6, ← index buf 7, ← index buf 8]

/-- Steps 1 to 6. -/
def checkHeader (buf : Bytes) (peer : PeerConfig) (localEpoch : UInt32) :
    Faulting (Except Error Claim) :=
  if buf.length < headerLen then return .error .tooShort
  else do
    let out ← Datagram.unpack buf
    if out.version ≠ version then return .error (.unsupportedVersion out.version)
    else
      match MsgType.fromU8 out.msgType with
      | none => return .error (.badMsgType out.msgType)
      | some mt =>
        if mt == .timeAnnounce || mt == .timeRequest then return .error (.badMsgType out.msgType)
        else if out.senderId ≠ peer.senderId then return .error (.unknownSender out.senderId)
        else if out.cipherId ≠ peer.cipher.toU8 then
          return .error (.cipherMismatch out.cipherId peer.cipher.toU8)
        else
          match CipherId.fromU8 out.cipherId with
          | none => return .error (.cipherUnimplemented out.cipherId)
          | some cipher => do
            let tagLen := cipher.tagLen
            let shortest ← add usizeMax headerLen tagLen
            if buf.length < shortest then return .error .tooShort
            else
              match ← reconstructEpoch localEpoch out.epochLow with
              | none => return .error .epochOutOfWindow
              | some epochId => do
                let behind ← sub buf.length tagLen
                let payload ← slice buf headerLen behind
                let tag ← slice buf behind buf.length
                return .ok {
                  header := out
                  msgType := mt
                  cipher := cipher
                  epochId := epochId
                  payload := payload
                  tag := tag }

/-- The loop over the records, one unit of fuel a round. -/
def recordLoop (payload : Bytes) : ℕ → ℕ → List Record →
    Faulting (Except Error (ℕ × List Record))
  | 0, _, _ => throw .unfinished
  | fuel + 1, pos, recs =>
    if pos < payload.length then do
      let rest ← slice payload pos payload.length
      match ← Record.decode usizeMax rest with
      | .error e => return .error e
      | .ok (r, used) => do
        let pos ← add usizeMax pos used
        recordLoop payload fuel pos (recs ++ [r])
    else return .ok (pos, recs)

/-- Step 9. -/
def frame (mt : MsgType) (payload : Bytes) (out : Datagram) : Faulting (Except Error Datagram) :=
  if mt.isRecordFramed then
    if payload.length < recordHeaderLen then
      return .error (.framing "payload shorter than one record header")
    else do
      match ← recordLoop usizeMax payload (payload.length + 1) 0 [] with
      | .error e => return .error e
      | .ok (pos, recs) =>
        if pos ≠ payload.length then return .error (.framing "trailing bytes after final record")
        else if (mt == .event || mt == .alarm) && recs.length > 1 then
          return .error (.framing "EVENT and ALARM carry exactly one record")
        else return .ok { out with records := recs }
  else if mt == .number then do
    match ← validateNumber payload with
    | .error e => return .error e
    | .ok _ => return .ok { out with raw := payload }
  else if mt == .series then do
    match ← validateSeries usizeMax payload out.datagramOffset with
    | .error e => return .error e
    | .ok _ => return .ok { out with raw := payload }
  else return .ok { out with raw := payload }

/-- Steps 9 and 10. -/
def Claim.finish (c : Claim) (peer : PeerConfig) : Faulting (Except Error Accepted) := do
  match ← frame usizeMax c.msgType c.payload c.header with
  | .error e => return .error e
  | .ok out => return .ok (c.deliver peer out)

variable (P : Primitives)

/-- Step 7. The signed bytes are collected in a buffer of their own. -/
def Claim.authenticate (c : Claim) (secret : DeviceSecret) (dir : Direction) :
    Faulting (Except Error Unit) := do
  let key ← epochKey P secret c.header.senderId c.epochId dir
  let _capacity ← add usizeMax 13 c.payload.length
  match ← mac usizeMax P c.cipher key c.signed c.header.datagramOffset with
  | .error e => return .error e
  | .ok expected => return if !ctEq expected c.tag then .error .authFailed else .ok ()

/-- Steps 1 to 7. -/
def verify (buf : Bytes) (peer : PeerConfig) (localEpoch : UInt32) (dir : Direction) :
    Faulting (Except Error Claim) := do
  match ← checkHeader usizeMax buf peer localEpoch with
  | .error e => return .error e
  | .ok c =>
    match ← Claim.authenticate usizeMax P c peer.secret dir with
    | .error e => return .error e
    | .ok () => return .ok c

/-- `decode`, steps 1 to 10 of the receive path. -/
def decode {WORDS : ℕ} (buf : Bytes) (peer : PeerConfig) (localEpoch : UInt32) (dir : Direction)
    (window : ReplayWindow WORDS) : Faulting (Except Error Accepted × ReplayWindow WORDS) := do
  match ← verify usizeMax P buf peer localEpoch dir with
  | .error e => return (.error e, window)
  | .ok c =>
    match ← checkAndSet window c.header.datagramOffset with
    | (.error e, window) => return (.error e, window)
    | (.ok (), window) =>
      let result ← Claim.finish usizeMax c peer
      return (result, window)

/-- `check_time_header`. -/
def checkTimeHeader (buf : Bytes) (want : MsgType) (senderId : UInt32) :
    Faulting (Except Error UInt8) := do
  let out ← Datagram.unpack buf
  if out.version ≠ version then return .error (.unsupportedVersion out.version)
  else if out.msgType ≠ want.toU8 then return .error (.badMsgType out.msgType)
  else if out.cipherId ≠ CipherId.hmacSha256T64.toU8 then
    return .error (.cipherMismatch out.cipherId CipherId.hmacSha256T64.toU8)
  else if out.epochLow ≠ 0 then return .error (.framing "time-recovery epoch_low must be zero")
  else if out.datagramOffset ≠ 0 then
    return .error (.framing "time-recovery datagram_offset must be zero")
  else if out.senderId ≠ senderId then return .error (.unknownSender out.senderId)
  else return .ok out.reserved

/-- `decode_time_request`: header and tag only. -/
def decodeTimeRequest (buf : Bytes) (senderId : UInt32) (secret : DeviceSecret) :
    Faulting (Except Error Unit) := do
  let tagLen := CipherId.hmacSha256T64.tagLen
  if buf.length ≠ (← add usizeMax headerLen tagLen) then return .error .tooShort
  else
    match ← checkTimeHeader buf .timeRequest senderId with
    | .error e => return .error e
    | .ok reserved =>
      let d := timeDatagram .timeRequest senderId reserved []
      let key ← timeKey P secret senderId .nodeToCollector
      match ← mac usizeMax P .hmacSha256T64 key (d.authHeader 0) 0 with
      | .error e => return .error e
      | .ok expected =>
        let tag ← slice buf headerLen buf.length
        return if !ctEq expected tag then .error .authFailed else .ok ()

/-- `decode_time_announce`: header, eight bytes of time and tag. -/
def decodeTimeAnnounce (buf : Bytes) (senderId : UInt32) (secret : DeviceSecret) :
    Faulting (Except Error Int64) := do
  let tagLen := CipherId.hmacSha256T64.tagLen
  if buf.length ≠ (← add usizeMax (← add usizeMax headerLen 8) tagLen) then
    return .error .tooShort
  else
    match ← checkTimeHeader buf .timeAnnounce senderId with
    | .error e => return .error e
    | .ok reserved =>
      let behind ← add usizeMax headerLen 8
      let payload ← slice buf headerLen behind
      let d := timeDatagram .timeAnnounce senderId reserved payload
      let key ← timeKey P secret senderId .collectorToNode
      match ← mac usizeMax P .hmacSha256T64 key (d.authHeader 0 ++ payload) 0 with
      | .error e => return .error e
      | .ok expected =>
        let tag ← slice buf behind buf.length
        if !ctEq expected tag then return .error .authFailed
        else
          let b ← copyInto (List.replicate 8 0) 0 8 payload
          return .ok (i64OfBe b)

end

/-! ### Reading -/

/-- A header of nine octets can be read. -/
theorem unpack_eq {buf : Bytes} (h : headerLen ≤ buf.length) :
    Datagram.unpack buf = .ok (Catp.Datagram.unpack buf) := by
  rw [headerLen] at h
  simp only [Datagram.unpack, index_eq (show 0 < buf.length by omega),
    index_eq (show 1 < buf.length by omega), index_eq (show 2 < buf.length by omega),
    index_eq (show 3 < buf.length by omega), index_eq (show 4 < buf.length by omega),
    index_eq (show 5 < buf.length by omega), index_eq (show 6 < buf.length by omega),
    index_eq (show 7 < buf.length by omega), index_eq (show 8 < buf.length by omega), ok_bind]
  rfl

/-- The header of a time message can be checked. -/
private theorem checkTimeHeader_eq {buf : Bytes} (h : headerLen ≤ buf.length) (want : MsgType)
    (senderId : UInt32) :
    checkTimeHeader buf want senderId = .ok (Catp.checkTimeHeader buf want senderId) := by
  rw [checkTimeHeader, Catp.checkTimeHeader, unpack_eq h, ok_bind]
  split_ifs <;> rfl

section

variable {usizeMax : ℕ} {P : Primitives} (h16 : 2 ^ 16 ≤ usizeMax + 1)
include h16

/-- `Record::decode` stops nowhere, whatever is left of the payload. -/
private theorem decodeRecord_eq (buf : Bytes) :
    Record.decode usizeMax buf = .ok (Catp.Record.decode buf) := by
  rw [Record.decode, Catp.Record.decode]
  refine ite_eq (fun _ => rfl) fun hshort => ?_
  have h3 : recordHeaderLen = 3 := rfl
  have hsize : (Record.wordOf buf[0]! buf[1]! buf[2]! &&& 0xFFF).toNat < 4096 := by
    have := (Record.toNat_fields (Record.wordOf buf[0]! buf[1]! buf[2]!)).2.2
    omega
  rw [index_eq (show 0 < buf.length by omega), ok_bind, index_eq (show 1 < buf.length by omega),
    ok_bind, index_eq (show 2 < buf.length by omega), ok_bind]
  refine ite_eq (fun _ => rfl) fun _ => ite_eq (fun _ => rfl) fun _ =>
    ite_eq (fun _ => rfl) fun _ => ?_
  rw [add_eq (by omega), ok_bind]
  refine ite_eq (fun _ => rfl) fun hover => ?_
  rw [slice_eq (by omega) (by omega)]
  rfl

/-- Steps 1 to 6 stop nowhere on a buffer that fits in memory twice over. -/
private theorem checkHeader_eq {buf : Bytes} (hbuf : buf.length ≤ usizeMax / 2) (peer : PeerConfig)
    (l : UInt32) : checkHeader usizeMax buf peer l = .ok (Catp.checkHeader buf peer l) := by
  rw [checkHeader, Catp.checkHeader]
  refine ite_eq (fun _ => rfl) fun hshort => ?_
  rw [unpack_eq (Nat.not_lt.mp hshort), ok_bind]
  generalize Catp.Datagram.unpack buf = out
  refine ite_eq (fun _ => rfl) fun _ => ?_
  rcases MsgType.fromU8 out.msgType with _ | mt
  · rfl
  refine ite_eq (fun _ => rfl) fun _ => ite_eq (fun _ => rfl) fun _ =>
    ite_eq (fun _ => rfl) fun _ => ?_
  rcases CipherId.fromU8 out.cipherId with _ | cipher
  · rfl
  have htag : cipher.tagLen ≤ 16 := by cases cipher <;> decide
  dsimp only
  rw [add_eq (by omega), ok_bind]
  refine ite_eq (fun _ => rfl) fun htagged => ?_
  rw [reconstructEpoch_eq, ok_bind]
  rcases Catp.reconstructEpoch l out.epochLow with _ | e
  · rfl
  dsimp only
  rw [sub_eq (by omega), ok_bind, slice_eq (by omega) (by omega), ok_bind,
    slice_to_end (by omega), ok_bind]
  rfl

omit h16 in
private theorem length_signed_le {buf : Bytes} {peer : PeerConfig} {l : UInt32} {c : Claim}
    (h : Catp.checkHeader buf peer l = .ok c) : c.signed.length ≤ buf.length := by
  obtain ⟨hbuf, htag⟩ := eq_append_of_checkHeader h
  have hlen : 4 ≤ c.cipher.tagLen := by cases c.cipher <;> decide
  rw [hbuf, length_signed, List.length_append, List.length_append,
    Datagram.length_headerBytes, htag, headerLen]
  omega

/-- Step 7 stops nowhere: the payload is part of the buffer. -/
private theorem authenticate_eq {buf : Bytes} (hbuf : buf.length ≤ usizeMax / 2) {peer : PeerConfig}
    {l : UInt32} {c : Claim} (h : Catp.checkHeader buf peer l = .ok c) (secret : DeviceSecret)
    (dir : Direction) :
    Claim.authenticate usizeMax P c secret dir = .ok (c.authenticate P secret dir) := by
  have hsigned := length_signed_le h
  rw [Claim.authenticate, Catp.Claim.authenticate, epochKey_eq, ok_bind,
    add_eq (by rw [length_signed] at hsigned; omega), ok_bind, mac_eq h16 (by omega), ok_bind]
  rcases Catp.mac P c.cipher (secret.epochKey P c.header.senderId c.epochId dir) c.signed
    c.header.datagramOffset with _ | expected <;> rfl

private theorem verify_eq {buf : Bytes} (hbuf : buf.length ≤ usizeMax / 2) (peer : PeerConfig)
    (l : UInt32) (dir : Direction) :
    verify usizeMax P buf peer l dir = .ok (Catp.verify P buf peer l dir) := by
  rw [verify, Catp.verify, checkHeader_eq h16 hbuf, ok_bind]
  rcases hhead : Catp.checkHeader buf peer l with _ | c
  · rfl
  dsimp only
  rw [authenticate_eq h16 hbuf hhead, ok_bind]
  rcases c.authenticate P peer.secret dir with _ | _ <;> rfl

/-! ### Framing -/

/-- **The record loop ends**, within one round for each byte left and one more, and is the loop
of the code of records. -/
theorem recordLoop_eq {payload : Bytes} (hp : payload.length ≤ usizeMax / 2) {fuel pos : ℕ}
    (hpos : pos ≤ payload.length) (hfuel : payload.length - pos < fuel) (recs : List Record) :
    recordLoop usizeMax payload fuel pos recs = .ok (Record.codec.loop payload pos recs) := by
  induction fuel generalizing pos recs with
  | zero => omega
  | succ fuel ih =>
    rw [recordLoop]
    by_cases hlt : pos < payload.length
    · rw [if_pos hlt, slice_to_end hpos, ok_bind, decodeRecord_eq h16, ok_bind]
      rcases hdec : Catp.Record.decode (payload.drop pos) with e | ⟨r, used⟩
      · rw [Record.codec.loop_error recs hlt hdec]
        rfl
      · obtain ⟨-, hused, rest, hrest⟩ := Record.codec.enc_dec _ _ _ hdec
        have hle : used ≤ payload.length - pos := by
          rw [← List.length_drop, hrest, List.length_append, hused]
          omega
        have hone := Record.codec.used_pos hdec
        rw [Record.codec.loop_ok recs hlt hdec]
        dsimp only
        rw [add_eq (by omega), ok_bind]
        exact ih (by omega) (by omega) _
    · rw [if_neg hlt, Record.codec.loop_done recs hlt]
      rfl

/-- Step 9 stops nowhere: the loop moves on by at least a record header. -/
private theorem frame_eq {payload : Bytes} (hp : payload.length ≤ usizeMax / 2) (mt : MsgType)
    (out : Datagram) :
    frame usizeMax mt payload out = .ok (Catp.frame mt payload out) := by
  rw [frame, Catp.frame]
  refine ite_eq (fun _ => ?_) fun _ => ite_eq (fun _ => ?_) fun _ =>
    ite_eq (fun _ => ?_) fun _ => rfl
  · refine ite_eq (fun _ => rfl) fun _ => ?_
    rw [recordLoop_eq h16 hp (Nat.zero_le _) (by omega), ok_bind]
    rcases Record.codec.loop payload 0 [] with _ | ⟨pos, recs⟩
    · rfl
    · exact ite_eq (fun _ => rfl) fun _ => ite_eq (fun _ => rfl) fun _ => rfl
  · rw [validateNumber_eq, ok_bind]
    rcases Catp.validateNumber payload with _ | _ <;> rfl
  · rw [validateSeries_eq hp, ok_bind]
    rcases Catp.validateSeries payload out.datagramOffset with _ | _ <;> rfl

/-- Steps 9 and 10 stop nowhere. -/
private theorem finish_eq {c : Claim} (hp : c.payload.length ≤ usizeMax / 2) (peer : PeerConfig) :
    Claim.finish usizeMax c peer = .ok (c.finish peer) := by
  rw [Claim.finish, Catp.Claim.finish, frame_eq h16 hp, ok_bind]
  rcases Catp.frame c.msgType c.payload c.header with _ | _ <;> rfl

/-! ### The entry points -/

omit h16 in
private theorem length_payload_le {buf : Bytes} {peer : PeerConfig} {l : UInt32} {c : Claim}
    (h : Catp.checkHeader buf peer l = .ok c) : c.payload.length ≤ buf.length := by
  have := length_signed_le h
  rw [length_signed] at this
  omega

/-- The remainders of the window are defined whenever the datagram reaches it. -/
def ReachesCheckable {WORDS : ℕ} (P : Primitives) (buf : Bytes) (peer : PeerConfig) (l : UInt32)
    (dir : Direction) (window : ReplayWindow WORDS) : Prop :=
  ∀ c, Catp.verify P buf peer l dir = .ok c → Checkable window c.header.datagramOffset

/-- `decode` stops nowhere if the window it reaches is checkable. -/
theorem decode_eq {WORDS : ℕ} {buf : Bytes} (hbuf : buf.length ≤ usizeMax / 2) {peer : PeerConfig}
    {l : UInt32} {dir : Direction} {window : ReplayWindow WORDS}
    (h : ReachesCheckable P buf peer l dir window) :
    decode usizeMax P buf peer l dir window = .ok (Catp.decode P buf peer l dir window) := by
  rw [decode, Catp.decode, verify_eq h16 hbuf, ok_bind]
  rcases hverify : Catp.verify P buf peer l dir with _ | c
  · rfl
  have hlen := length_payload_le (verify_eq_ok_iff.mp hverify).1
  dsimp only
  rw [checkAndSet_eq (h c hverify), ok_bind]
  obtain ⟨_ | _, window⟩ := window.checkAndSet c.header.datagramOffset
  · rfl
  · dsimp only
    rw [finish_eq h16 (by omega), ok_bind]
    rfl

/-- A verified datagram that reaches an uncheckable window stops `decode`. -/
theorem decode_fault {WORDS : ℕ} {buf : Bytes} (hbuf : buf.length ≤ usizeMax / 2)
    {peer : PeerConfig} {l : UInt32} {dir : Direction} {window : ReplayWindow WORDS} {c : Claim}
    (hverify : Catp.verify P buf peer l dir = .ok c)
    (h : ¬Checkable window c.header.datagramOffset) :
    decode usizeMax P buf peer l dir window = .error .zeroDivisor := by
  rw [decode, verify_eq h16 hbuf, ok_bind, hverify]
  dsimp only
  rw [checkAndSet_fault h, error_bind]

/-- **`decode` faults exactly where the window divides by zero.** -/
theorem decode_returns_iff {WORDS : ℕ} {buf : Bytes} (hbuf : buf.length ≤ usizeMax / 2)
    {peer : PeerConfig} {l : UInt32} {dir : Direction} {window : ReplayWindow WORDS} :
    Returns (decode usizeMax P buf peer l dir window) ↔
      ReachesCheckable P buf peer l dir window := by
  refine ⟨fun hret c hverify => ?_, fun h => .of_eq (decode_eq h16 hbuf h)⟩
  by_contra hcheck
  exact hret.ne_error _ (decode_fault h16 hbuf hverify hcheck)

/-- `decode_time_request` stops nowhere. -/
theorem decodeTimeRequest_eq (buf : Bytes) (senderId : UInt32) (secret : DeviceSecret) :
    decodeTimeRequest usizeMax P buf senderId secret =
      .ok (Catp.decodeTimeRequest P buf senderId secret) := by
  have htag : CipherId.hmacSha256T64.tagLen = 8 := rfl
  rw [decodeTimeRequest, Catp.decodeTimeRequest, htag, headerLen, add_eq (by omega), ok_bind]
  refine ite_eq (fun _ => rfl) fun hlen => ?_
  rw [checkTimeHeader_eq (by rw [headerLen]; omega), ok_bind]
  rcases Catp.checkTimeHeader buf .timeRequest senderId with _ | reserved
  · rfl
  dsimp only
  rw [timeKey_eq, ok_bind, mac_eq h16 (by rw [Datagram.length_authHeader]; omega), ok_bind,
    slice_to_end (by omega)]
  rcases Catp.mac P .hmacSha256T64 (secret.timeKey P senderId .nodeToCollector)
    ((timeDatagram .timeRequest senderId reserved []).authHeader 0) 0 with _ | _ <;> rfl

/-- `decode_time_announce` stops nowhere. -/
theorem decodeTimeAnnounce_eq (buf : Bytes) (senderId : UInt32) (secret : DeviceSecret) :
    decodeTimeAnnounce usizeMax P buf senderId secret =
      .ok (Catp.decodeTimeAnnounce P buf senderId secret) := by
  have htag : CipherId.hmacSha256T64.tagLen = 8 := rfl
  rw [decodeTimeAnnounce, Catp.decodeTimeAnnounce, htag, headerLen, add_eq (by omega), ok_bind,
    add_eq (by omega), ok_bind]
  refine ite_eq (fun _ => rfl) fun hlen => ?_
  rw [checkTimeHeader_eq (by rw [headerLen]; omega), ok_bind]
  rcases Catp.checkTimeHeader buf .timeAnnounce senderId with _ | reserved
  · rfl
  have hpayload : ((buf.take (9 + 8)).drop 9).length = 8 := by
    rw [List.length_drop, List.length_take]
    omega
  have hcopy : copyInto (List.replicate 8 0) 0 8 ((buf.take (9 + 8)).drop 9) =
      .ok ((buf.take (9 + 8)).drop 9) := by
    rw [copyInto_eq (by simp) (by rw [hpayload])]
    simp
  dsimp only
  rw [ok_bind, slice_eq (by omega) (by omega), ok_bind, timeKey_eq, ok_bind,
    mac_eq h16 (by rw [List.length_append, Datagram.length_authHeader]; omega), ok_bind,
    slice_to_end (by omega)]
  rcases Catp.mac P .hmacSha256T64 (secret.timeKey P senderId .collectorToNode)
    ((timeDatagram .timeAnnounce senderId reserved ((buf.take (9 + 8)).drop 9)).authHeader 0 ++
      (buf.take (9 + 8)).drop 9) 0 with _ | expected
  · rfl
  dsimp only
  rw [ok_bind, hcopy, ok_bind]
  exact ite_eq (fun _ => rfl) fun _ => rfl

end

end Catp.Checked
