import Catp.Core.Epoch
import Catp.Core.RateLimit
import Catp.Core.ReplayWindow
import Catp.Wire.Header

/-!
# The receive path

`decode` of `src/wire.rs`, in the order of its steps: the header checks (steps 1 to 6), the
MAC (step 7), the replay window (step 8), framing (step 9) and the skipping of records with
unknown layouts (step 10). Each group of steps is a definition of its own, with one lemma
saying what it lets through (`checkHeader_eq_ok_iff`, `authenticate_eq_ok_iff`,
`frame_records_iff`, `frame_raw_iff`) and one saying how it fails (`verify_error`,
`finish_error`). Everything but step 8 is a function of the datagram and the configuration
alone.

* **Steps 1 to 6** are one function of the buffer, the configuration and the local epoch. The
  order of the checks decides which error is reported, and `checkHeader_eq_ok_iff` forgets it: a
  header passes if each of them does.
* **Step 7** computes the expected tag and compares. A message that the suite cannot stage is an
  error of its own, `Oversize`, which is neither a header error nor a wrong tag.
* **Step 8** keeps its answer, whatever framing says afterwards (`decode_of_verify_ok`): a
  datagram that verifies and does not frame has used up its offset.
* **Steps 9 and 10** take a control payload as it is. `frame_raw_iff` says so, and
  `Catp.Wire.Layout` what follows.

`Error.isUnverified` and `Error.isFraming` sort the errors by the step that can report them.
-/

namespace Catp

/-- What a receiver learns from a successfully verified datagram. -/
structure Accepted where
  datagram : Datagram
  epochId : UInt32
  datagramOffset : UInt32
  /-- Records whose `(format, schema_version)` the receiver holds no layout for. -/
  skipped : List Record
  deriving DecidableEq, Repr

/-- Receiver-side per-peer configuration. -/
structure PeerConfig where
  senderId : UInt32
  secret : DeviceSecret
  cipher : CipherId
  /-- `(format, schema_version)` pairs this receiver can interpret. -/
  layouts : List (UInt8 × UInt8)
  inboundRateLimit : Option RateLimit
  deriving DecidableEq

/-! ### Steps 1 to 6: the header -/

/-- A datagram that passed the header checks: what its MAC has to vouch for. -/
structure Claim where
  header : Datagram
  msgType : MsgType
  cipher : CipherId
  epochId : UInt32
  payload : Bytes
  tag : Bytes
  deriving DecidableEq, Repr

/-- Steps 1 to 6. -/
def checkHeader (buf : Bytes) (peer : PeerConfig) (localEpoch : UInt32) : Except Error Claim :=
  -- step 1: length
  if buf.length < headerLen then .error .tooShort
  else
    let out := Datagram.unpack buf
    -- step 2: version
    if out.version ≠ version then .error (.unsupportedVersion out.version)
    else
      -- step 3: msg_type
      match MsgType.fromU8 out.msgType with
      | none => .error (.badMsgType out.msgType)
      | some mt =>
        if mt == .timeAnnounce || mt == .timeRequest then .error (.badMsgType out.msgType)
        -- step 4: sender_id
        else if out.senderId ≠ peer.senderId then .error (.unknownSender out.senderId)
        -- step 5: cipher_id matches configuration
        else if out.cipherId ≠ peer.cipher.toU8 then
          .error (.cipherMismatch out.cipherId peer.cipher.toU8)
        else
          match CipherId.fromU8 out.cipherId with
          | none => .error (.cipherUnimplemented out.cipherId)
          | some cipher =>
            let tagLen := cipher.tagLen
            if buf.length < headerLen + tagLen then .error .tooShort
            else
              -- step 6: epoch reconstruction
              match reconstructEpoch localEpoch out.epochLow with
              | none => .error .epochOutOfWindow
              | some epochId =>
                .ok {
                  header := out
                  msgType := mt
                  cipher := cipher
                  epochId := epochId
                  payload := (buf.take (buf.length - tagLen)).drop headerLen
                  tag := buf.drop (buf.length - tagLen) }

/-! ### Step 7: the MAC -/

section

variable (P : Primitives)

/-- The signed bytes: the authenticated header image, then the payload. -/
def Claim.signed (c : Claim) : Bytes := c.header.authHeader c.epochId ++ c.payload

/-- Step 7. -/
def Claim.authenticate (c : Claim) (secret : DeviceSecret) (dir : Direction) :
    Except Error Unit :=
  let key := secret.epochKey P c.header.senderId c.epochId dir
  match mac P c.cipher key c.signed c.header.datagramOffset with
  | .error e => .error e
  | .ok expected => if !ctEq expected c.tag then .error .authFailed else .ok ()

end

/-! ### Steps 9 and 10: framing -/

/-- Step 9: the datagram with its payload in place. -/
def frame (mt : MsgType) (payload : Bytes) (out : Datagram) : Except Error Datagram :=
  if mt.isRecordFramed then
    if payload.length < recordHeaderLen then
      .error (.framing "payload shorter than one record header")
    else
      match Record.codec.loop payload 0 [] with
      | .error e => .error e
      | .ok (pos, recs) =>
        if pos ≠ payload.length then .error (.framing "trailing bytes after final record")
        else if (mt == .event || mt == .alarm) && recs.length > 1 then
          .error (.framing "EVENT and ALARM carry exactly one record")
        else .ok { out with records := recs }
  else if mt == .number then
    match validateNumber payload with
    | .error e => .error e
    | .ok _ => .ok { out with raw := payload }
  else if mt == .series then
    match validateSeries payload out.datagramOffset with
    | .error e => .error e
    | .ok _ => .ok { out with raw := payload }
  else .ok { out with raw := payload }

/-- `peer.layouts.contains(&(r.format, r.schema_version))`. -/
def PeerConfig.holds (peer : PeerConfig) (r : Record) : Bool :=
  peer.layouts.contains (r.format, r.schemaVersion)

/-- Step 10: keep the records with known layouts, skip the rest. -/
def Claim.deliver (c : Claim) (peer : PeerConfig) (out : Datagram) : Accepted :=
  let (keep, drop) := out.records.partition peer.holds
  { datagram := { out with records := keep }
    epochId := c.epochId
    datagramOffset := c.header.datagramOffset
    skipped := drop }

/-- Steps 9 and 10. -/
def Claim.finish (c : Claim) (peer : PeerConfig) : Except Error Accepted :=
  match frame c.msgType c.payload c.header with
  | .error e => .error e
  | .ok out => .ok (c.deliver peer out)

/-! ### The whole path -/

section

variable (P : Primitives)

/-- Steps 1 to 7: everything that happens before the window is touched. -/
def verify (buf : Bytes) (peer : PeerConfig) (localEpoch : UInt32) (dir : Direction) :
    Except Error Claim :=
  match checkHeader buf peer localEpoch with
  | .error e => .error e
  | .ok c =>
    match c.authenticate P peer.secret dir with
    | .error e => .error e
    | .ok () => .ok c

/-- Verify a datagram against a peer: the result, and the window afterwards. -/
def decode {WORDS : ℕ} (buf : Bytes) (peer : PeerConfig) (localEpoch : UInt32) (dir : Direction)
    (window : ReplayWindow WORDS) : Except Error Accepted × ReplayWindow WORDS :=
  match verify P buf peer localEpoch dir with
  | .error e => (.error e, window)
  | .ok c =>
    -- step 8: replay
    match window.checkAndSet c.header.datagramOffset with
    | (.error e, window) => (.error e, window)
    | (.ok (), window) => (c.finish peer, window)

end

/-! ### What the header checks let through -/

/-- **Steps 1 to 6 as one condition.** -/
theorem checkHeader_eq_ok_iff {buf : Bytes} {peer : PeerConfig} {l : UInt32} {c : Claim} :
    checkHeader buf peer l = .ok c ↔
      headerLen + peer.cipher.tagLen ≤ buf.length ∧
        c.header = Datagram.unpack buf ∧ c.header.version = version ∧
        MsgType.fromU8 c.header.msgType = some c.msgType ∧ c.msgType ≠ .timeAnnounce ∧
        c.msgType ≠ .timeRequest ∧ c.header.senderId = peer.senderId ∧
        c.header.cipherId = peer.cipher.toU8 ∧ c.cipher = peer.cipher ∧
        reconstructEpoch l c.header.epochLow = some c.epochId ∧
        c.payload = (buf.take (buf.length - peer.cipher.tagLen)).drop headerLen ∧
        c.tag = buf.drop (buf.length - peer.cipher.tagLen) := by
  constructor
  · intro h
    simp only [checkHeader] at h
    cases hmt : MsgType.fromU8 (Datagram.unpack buf).msgType with
    | none =>
      rw [hmt] at h
      split_ifs at h
    | some mt =>
    rw [hmt] at h
    dsimp only at h
    split_ifs at h with h1 h2 htime hsender hcipher
    rw [not_not.mp hcipher, CipherId.fromU8_toU8] at h
    dsimp only at h
    cases hepoch : reconstructEpoch l (Datagram.unpack buf).epochLow with
    | none =>
      rw [hepoch] at h
      split_ifs at h
    | some e =>
    rw [hepoch] at h
    dsimp only at h
    split_ifs at h with hlen
    rw [Bool.or_eq_true, beq_iff_eq, beq_iff_eq, not_or] at htime
    obtain rfl := Except.ok.inj h
    exact ⟨Nat.not_lt.mp hlen, rfl, not_not.mp h2, hmt, htime.1, htime.2, not_not.mp hsender,
      not_not.mp hcipher, rfl, hepoch, rfl, rfl⟩
  · obtain ⟨header, mt, cipher, e, payload, tag⟩ := c
    rintro ⟨hlen, rfl, hversion, hmt, hann, hreq, hsender, hcipher, rfl, hepoch, rfl, rfl⟩
    have htime : ¬(mt == .timeAnnounce || mt == .timeRequest) = true := by
      simpa using ⟨hann, hreq⟩
    dsimp only at hversion hmt hsender hcipher hepoch
    simp only [checkHeader, if_neg (show ¬buf.length < headerLen by omega), hversion, hmt,
      if_neg htime, hsender, hcipher, CipherId.fromU8_toU8, hepoch,
      if_neg (show ¬buf.length < headerLen + peer.cipher.tagLen by omega), ne_eq,
      not_true_eq_false, if_false]

/-- A buffer that passes the header checks is header, payload and tag. -/
theorem eq_append_of_checkHeader {buf : Bytes} {peer : PeerConfig} {l : UInt32} {c : Claim}
    (h : checkHeader buf peer l = .ok c) :
    buf = c.header.headerBytes ++ c.payload ++ c.tag ∧ c.tag.length = c.cipher.tagLen := by
  obtain ⟨hlen, hheader, -, -, -, -, -, -, hcipher, -, hpayload, htag⟩ := checkHeader_eq_ok_iff.mp h
  have hsplit : buf.take headerLen =
      (buf.take (buf.length - peer.cipher.tagLen)).take headerLen := by
    rw [List.take_take, Nat.min_eq_left (by omega)]
  constructor
  · rw [hheader, Datagram.headerBytes_unpack (by omega), hpayload, htag, hsplit,
      List.take_append_drop, List.take_append_drop]
  · rw [htag, hcipher, List.length_drop]
    omega

/-- The epoch of a header that passes is the one its four bits reconstruct to. -/
theorem claim_epoch_of_checkHeader {buf : Bytes} {peer : PeerConfig} {l : UInt32} {c : Claim}
    (h : checkHeader buf peer l = .ok c) :
    reconstructEpoch l (buf[1]! &&& 0x0F) = some c.epochId := by
  obtain ⟨-, hheader, -, -, -, -, -, -, -, hepoch, -⟩ := checkHeader_eq_ok_iff.mp h
  rwa [hheader] at hepoch

/-! ### How the path fails -/

/-- The failures of steps 1 to 7. -/
def Error.isUnverified : Error → Bool
  | .tooShort | .unsupportedVersion _ | .badMsgType _ | .unknownSender _ | .cipherMismatch _ _
  | .epochOutOfWindow | .authFailed | .oversize _ => true
  | _ => false

/-- The failures of step 9. -/
def Error.isFraming : Error → Bool
  | .framing _ | .badNumber _ | .badSeries _ => true
  | _ => false

/-- The header checks fail with an error of steps 1 to 6, never with `Oversize`. -/
private theorem checkHeader_error {buf : Bytes} {peer : PeerConfig} {l : UInt32} {e : Error}
    (h : checkHeader buf peer l = .error e) :
    e.isUnverified = true ∧ ∀ n, e ≠ .oversize n := by
  simp only [checkHeader] at h
  cases hmt : MsgType.fromU8 (Datagram.unpack buf).msgType with
  | none =>
    rw [hmt] at h
    split_ifs at h <;> cases h <;> exact ⟨rfl, nofun⟩
  | some mt =>
    rw [hmt] at h
    dsimp only at h
    split_ifs at h with h1 h2 htime hsender hcipher
    case neg =>
      -- the configured suite is a registered one
      rw [not_not.mp hcipher, CipherId.fromU8_toU8] at h
      dsimp only at h
      split_ifs at h
      · cases h
        exact ⟨rfl, nofun⟩
      · cases hepoch : reconstructEpoch l (Datagram.unpack buf).epochLow with
        | none =>
          rw [hepoch] at h
          cases h
          exact ⟨rfl, nofun⟩
        | some e =>
          rw [hepoch] at h
          cases h
    all_goals
      cases h
      exact ⟨rfl, nofun⟩

section

variable {P : Primitives}

/-- What is authenticated is the header image of 13 bytes and the payload. -/
@[simp] theorem length_signed (c : Claim) : c.signed.length = 13 + c.payload.length := by
  rw [Claim.signed, List.length_append, Datagram.length_authHeader]

/-- Step 7 passes when the suite can stage the signed bytes and the tag is theirs. -/
theorem authenticate_eq_ok_iff {c : Claim} {secret : DeviceSecret} {dir : Direction} :
    c.authenticate P secret dir = .ok () ↔
      Stageable c.cipher (13 + c.payload.length) ∧
        c.tag = tag P c.cipher (secret.epochKey P c.header.senderId c.epochId dir)
          c.header.datagramOffset c.signed := by
  rw [Claim.authenticate, mac_eq, length_signed]
  by_cases hstage : Stageable c.cipher (13 + c.payload.length)
  · rw [if_pos hstage]
    dsimp only
    rw [ite_ctEq_eq_ok_iff]
    exact ⟨fun h => ⟨hstage, h.1⟩, fun h => ⟨h.2, rfl⟩⟩
  · rw [if_neg hstage]
    exact ⟨nofun, fun h => absurd h.1 hstage⟩

/-- Step 7 fails with `Oversize` on a message the suite cannot stage, and on a wrong tag
otherwise. -/
theorem authenticate_error {c : Claim} {secret : DeviceSecret} {dir : Direction} {e : Error}
    (h : c.authenticate P secret dir = .error e) :
    if Stageable c.cipher (13 + c.payload.length) then e = .authFailed
    else e = .oversize (13 + c.payload.length) := by
  rw [Claim.authenticate, mac_eq, length_signed] at h
  split_ifs with hstage
  · rw [if_pos hstage] at h
    dsimp only at h
    split_ifs at h
    exact (Except.error.inj h).symm
  · rw [if_neg hstage] at h
    exact (Except.error.inj h).symm

/-! ### Steps 1 to 7 -/

variable {buf : Bytes} {peer : PeerConfig} {l : UInt32} {dir : Direction} {c : Claim} {e : Error}

/-- A datagram verifies exactly if its header passes and its tag is right. -/
theorem verify_eq_ok_iff : verify P buf peer l dir = .ok c ↔
    checkHeader buf peer l = .ok c ∧ c.authenticate P peer.secret dir = .ok () := by
  rw [verify]
  cases checkHeader buf peer l with
  | error e => exact ⟨nofun, nofun⟩
  | ok c' =>
    dsimp only
    cases hauth : c'.authenticate P peer.secret dir with
    | error e =>
      refine ⟨nofun, ?_⟩
      rintro ⟨hc, hok⟩
      rw [← Except.ok.inj hc, hauth] at hok
      cases hok
    | ok u =>
      refine ⟨?_, fun h => h.1⟩
      intro hc
      rw [← Except.ok.inj hc]
      exact ⟨rfl, hauth⟩

/-- Whatever fails before the window is touched is a failure of steps 1 to 7. -/
theorem verify_error (h : verify P buf peer l dir = .error e) : e.isUnverified = true := by
  rw [verify] at h
  cases hhead : checkHeader buf peer l with
  | error e' =>
    rw [hhead] at h
    rw [← Except.error.inj h]
    exact (checkHeader_error hhead).1
  | ok c =>
    rw [hhead] at h
    dsimp only at h
    cases hauth : c.authenticate P peer.secret dir with
    | error e' =>
      rw [hauth] at h
      have := authenticate_error hauth
      rw [← Except.error.inj h]
      split_ifs at this <;> rw [this] <;> rfl
    | ok u =>
      rw [hauth] at h
      cases h

/-- Steps 1 to 7 fail with `Oversize` exactly on what passes the header checks and cannot be
staged. -/
theorem verify_eq_oversize_iff : (∃ n, verify P buf peer l dir = .error (.oversize n)) ↔
    ∃ c, checkHeader buf peer l = .ok c ∧ ¬Stageable c.cipher (13 + c.payload.length) := by
  rw [verify]
  cases hhead : checkHeader buf peer l with
  | error e' =>
    refine ⟨?_, nofun⟩
    rintro ⟨n, h⟩
    exact absurd (Except.error.inj h) ((checkHeader_error hhead).2 n)
  | ok c =>
    simp only [Except.ok.injEq, exists_eq_left']
    cases hauth : c.authenticate P peer.secret dir with
    | ok u => exact ⟨nofun, fun h => absurd (authenticate_eq_ok_iff.mp hauth).1 h⟩
    | error e' =>
      have herr := authenticate_error hauth
      split_ifs at herr with hstage <;> simp [herr, hstage]

end

/-! ### Steps 9 and 10 -/

section

variable {mt : MsgType} {p : Bytes} {out out' : Datagram} {e : Error}

/-- **Framing of the record-framed types**: the payload is the concatenation of one or more
valid records, exactly one for `EVENT` and `ALARM`. -/
theorem frame_records_iff (h : mt.isRecordFramed = true) :
    frame mt p out = .ok out' ↔ ∃ recs, recs ≠ [] ∧
      (mt = .event ∨ mt = .alarm → recs.length = 1) ∧ (∀ r ∈ recs, r.Valid) ∧
      p = Record.codec.encAll recs ∧ out' = { out with records := recs } := by
  rw [frame, if_pos h]
  constructor
  · intro hok
    split_ifs at hok with hshort
    cases hloop : Record.codec.loop p 0 [] with
    | error e =>
      rw [hloop] at hok
      cases hok
    | ok r =>
      obtain ⟨pos, recs⟩ := r
      obtain ⟨rfl, hp, hvalid⟩ := Record.codec.loop_eq_ok_iff.mp hloop
      rw [hloop] at hok
      dsimp only at hok
      split_ifs at hok with hpos hone
      -- a payload as long as a record header is not the encoding of no records
      have hne : recs ≠ [] := by
        rintro rfl
        exact hshort (by rw [hp]; decide)
      refine ⟨recs, hne, ?_, hvalid, hp, (Except.ok.inj hok).symm⟩
      intro hmt
      have hpos := List.length_pos_iff.mpr hne
      simp only [Bool.and_eq_true, Bool.or_eq_true, beq_iff_eq, decide_eq_true_eq, not_and] at hone
      have := hone hmt
      omega
  · rintro ⟨recs, hne, hone, hvalid, rfl, rfl⟩
    obtain ⟨r, rs, rfl⟩ := List.exists_cons_of_ne_nil hne
    have hshort : ¬(Record.codec.encAll (r :: rs)).length < recordHeaderLen := by
      rw [Datagram.length_encAll_records, List.map_cons, List.sum_cons, Record.wireLen]
      omega
    have hsingle : ¬((mt == .event || mt == .alarm) && decide ((r :: rs).length > 1)) = true := by
      simp only [Bool.and_eq_true, Bool.or_eq_true, beq_iff_eq, decide_eq_true_eq, not_and]
      intro hmt
      rw [hone hmt]
      omega
    rw [if_neg hshort, Record.codec.loop_eq_ok_iff.mpr ⟨rfl, rfl, hvalid⟩]
    simp only [ne_eq, not_true_eq_false, if_false, if_neg hsingle]

/-- **Framing of the other types**: the validator of the type accepts; a control payload is
taken as it is. -/
theorem frame_raw_iff (h : mt.isRecordFramed = false) :
    frame mt p out = .ok out' ↔ (mt = .number → ∃ r, validateNumber p = .ok r) ∧
      (mt = .series → ∃ r, validateSeries p out.datagramOffset = .ok r) ∧
      out' = { out with raw := p } := by
  rw [frame, if_neg (by simp [h])]
  cases mt with
  | message | event | alarm => cases h
  | number =>
    cases validateNumber p with
    | error e => exact ⟨nofun, fun h => nomatch h.1 rfl⟩
    | ok r =>
      exact ⟨fun h => ⟨fun _ => ⟨r, rfl⟩, nofun, (Except.ok.inj h).symm⟩,
        fun h => congrArg Except.ok h.2.2.symm⟩
  | series =>
    cases validateSeries p out.datagramOffset with
    | error e => exact ⟨nofun, fun h => nomatch h.2.1 rfl⟩
    | ok r =>
      exact ⟨fun h => ⟨nofun, fun _ => ⟨r, rfl⟩, (Except.ok.inj h).symm⟩,
        fun h => congrArg Except.ok h.2.2.symm⟩
  | epochAnnounce | timeAnnounce | timeRequest | heartbeat | capabilityAdvertise =>
    exact ⟨fun h => ⟨nofun, nofun, (Except.ok.inj h).symm⟩,
      fun h => congrArg Except.ok h.2.2.symm⟩

private theorem recordDecode_error (h : Record.decode p = .error e) : e.isFraming = true := by
  simp only [Record.decode] at h
  split_ifs at h <;> cases h <;> rfl

private theorem validateNumber_error (h : validateNumber p = .error e) : e.isFraming = true := by
  simp only [validateNumber] at h
  split_ifs at h <;> cases h <;> rfl

private theorem readEntries_error {cum : UInt32} {acc : List (UInt32 × Int16)} {cs : List Chunk}
    (h : readEntries cum acc cs = .error e) : e.isFraming = true := by
  induction cs generalizing cum acc with
  | nil => cases h
  | cons chunk cs ih =>
    obtain ⟨a, b, c, d⟩ := chunk
    simp only [readEntries] at h
    split_ifs at h
    · cases h
      rfl
    · split at h
      · cases h
        rfl
      · exact ih h

private theorem validateSeries_error {anchor : UInt32} (h : validateSeries p anchor = .error e) :
    e.isFraming = true := by
  simp only [validateSeries] at h
  split_ifs at h
  case neg =>
    cases hread : readEntries anchor [(anchor, i16OfBe [p[1]!, p[2]!])]
        (asChunks4 (p.drop numberPayloadLen)).1 with
    | error e' =>
      rw [hread] at h
      rw [← Except.error.inj h]
      exact readEntries_error hread
    | ok rs =>
      rw [hread] at h
      cases h
  all_goals
    cases h
    rfl

private theorem frame_error (h : frame mt p out = .error e) : e.isFraming = true := by
  rw [frame] at h
  split_ifs at h with hrec hshort hnum hser
  · cases h
    rfl
  · cases hloop : Record.codec.loop p 0 [] with
    | error e' =>
      obtain ⟨pos, hdec⟩ := Record.codec.dec_error_of_loop hloop
      rw [hloop] at h
      rw [← Except.error.inj h]
      exact recordDecode_error hdec
    | ok r =>
      rw [hloop] at h
      dsimp only at h
      split_ifs at h <;> cases h <;> rfl
  · cases hval : validateNumber p with
    | error e' =>
      rw [hval] at h
      rw [← Except.error.inj h]
      exact validateNumber_error hval
    | ok r =>
      rw [hval] at h
      cases h
  · cases hval : validateSeries p out.datagramOffset with
    | error e' =>
      rw [hval] at h
      rw [← Except.error.inj h]
      exact validateSeries_error hval
    | ok r =>
      rw [hval] at h
      cases h

/-- Steps 9 and 10 fail as framing. -/
theorem finish_error {c : Claim} {peer : PeerConfig} (h : c.finish peer = .error e) :
    e.isFraming = true := by
  rw [Claim.finish] at h
  cases hframe : frame c.msgType c.payload c.header with
  | error e' =>
    rw [hframe] at h
    rw [← Except.error.inj h]
    exact frame_error hframe
  | ok out =>
    rw [hframe] at h
    cases h

/-- Steps 9 and 10 succeed exactly if the payload frames, and deliver what it frames to. -/
theorem finish_eq_ok_iff {c : Claim} {peer : PeerConfig} {acc : Accepted} :
    c.finish peer = .ok acc ↔
      ∃ out, frame c.msgType c.payload c.header = .ok out ∧ acc = c.deliver peer out := by
  rw [Claim.finish]
  cases frame c.msgType c.payload c.header <;> simp [eq_comm]

end

/-! ### The whole path -/

section

variable {P : Primitives} {WORDS : ℕ} {buf : Bytes} {peer : PeerConfig} {l : UInt32}
  {dir : Direction} {w : ReplayWindow WORDS} {acc : Accepted}

/-- A datagram that fails steps 1 to 7 leaves the window it is given alone. -/
theorem decode_of_verify_error {e : Error} (h : verify P buf peer l dir = .error e) :
    decode P buf peer l dir w = (.error e, w) := by
  rw [decode, h]

/-- The window answers before the payload is framed, and keeps its answer. -/
theorem decode_of_verify_ok {c : Claim} (h : verify P buf peer l dir = .ok c) :
    decode P buf peer l dir w =
      (match (w.checkAndSet c.header.datagramOffset).1 with
        | .error e => .error e
        | .ok () => c.finish peer, (w.checkAndSet c.header.datagramOffset).2) := by
  rw [decode, h]
  dsimp only
  rcases w.checkAndSet c.header.datagramOffset with ⟨_ | _, w'⟩ <;> rfl

/-- **A datagram is accepted** when it verifies, the window admits its offset and its payload
frames. -/
theorem decode_eq_ok_iff : (decode P buf peer l dir w).1 = .ok acc ↔
    ∃ c, verify P buf peer l dir = .ok c ∧ (w.checkAndSet c.header.datagramOffset).1 = .ok () ∧
      c.finish peer = .ok acc := by
  cases hverify : verify P buf peer l dir with
  | error e =>
    rw [decode_of_verify_error hverify]
    exact ⟨nofun, fun ⟨_, h, _⟩ => nomatch h⟩
  | ok c =>
    rw [decode_of_verify_ok hverify]
    simp only [Except.ok.injEq, exists_eq_left']
    rcases (w.checkAndSet c.header.datagramOffset).1 with _ | _
    · exact ⟨nofun, fun h => nomatch h.1⟩
    · exact ⟨fun h => ⟨rfl, h⟩, fun h => h.2⟩

end

/-! ### A frozen vector

The first entry of `docs/test-vectors.txt`: a `NUMBER` of sender `0x12345678` in epoch
13281250 under suite `0x01`. -/

/-- Primitives that know the vector's key and HMAC. -/
def vectorPrimitives : Primitives :=
  .ofTable vectorKey [([0x24, 0x10, 0x00, 0x10, 0x00, 0x00, 0xCA, 0xA7, 0xE2, 0x12, 0x34, 0x56,
    0x78, 0x02, 0x09, 0x2E],
    #v[0x51, 0xC9, 0x8B, 0x04, 0x2E, 0x36, 0x99, 0x46, 0x0B, 0xC6, 0xEF, 0x5E, 0xDD, 0xE5, 0x93,
      0x6B, 0xC0, 0xB2, 0x09, 0x9B, 0xE5, 0x88, 0x0B, 0x56, 0x0A, 0x6E, 0xDF, 0x66, 0x34, 0x0B,
      0xD4, 0xFD])]

/-- The sender of the frozen vector, as its receiver knows it. -/
def vectorPeer : PeerConfig := ⟨0x12345678, vectorSecret, .hmacSha256T64, [], none⟩

/-- The frozen vector: a `NUMBER` of 20 octets. -/
def vectorWire : Bytes :=
  [0x24, 0x12, 0x00, 0x10, 0x00, 0x12, 0x34, 0x56, 0x78, 0x02, 0x09, 0x2E, 0x51, 0xC9, 0x8B, 0x04,
    0x2E, 0x36, 0x99, 0x46]

/-- What the frozen vector decodes to. -/
def vectorDatagram : Datagram :=
  { Datagram.base .number .hmacSha256T64 0x12345678 13281250 4096 with raw := [0x02, 0x09, 0x2E] }

example : (decode vectorPrimitives vectorWire vectorPeer 13281250 .nodeToCollector
    (ReplayWindow.new : ReplayWindow 1)).1 = .ok ⟨vectorDatagram, 13281250, 4096, []⟩ := by decide

end Catp
