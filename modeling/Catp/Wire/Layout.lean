import Catp.Wire.Control
import Catp.Wire.Decode

/-!
# Payload layouts

`Conforms` is the layout of every message type. Framing checks it for the record-framed types
and for `NUMBER` and `SERIES`, but takes a control payload as it is: `Control::parse` is left
to the caller. So accepted payloads conform unless a genuine control datagram carries a payload
without the layout of its type.

`Genuine` restates steps 1 to 8 as conditions on the input, field by field, so that a condition on
what is accepted can be given without running the decoder: by `genuine_iff` it is the same as to
verify and to be admitted. `layout_enforced_iff` is then an equivalence for one call, of any
buffer, configuration, clock and window.

`heartbeat_payload_accepted` is a datagram for which it fails. The tag is right and the type is a
control type, but the payload of a `HEARTBEAT` should be empty.
-/

namespace Catp

/-- The layout of every message type, for a payload sent at the tick `off`. -/
def Conforms (mt : MsgType) (off : UInt32) (p : Bytes) : Prop :=
  match mt with
  | .message => ∃ recs, recs ≠ [] ∧ (∀ r ∈ recs, r.Valid) ∧ p = Record.codec.encAll recs
  | .event | .alarm => ∃ r : Record, r.Valid ∧ p = r.toBytes
  | .number => ∃ scale mantissa, scaleIsValid scale = true ∧ p = scale :: i16ToBe mantissa
  | .series => ∃ scale first es, scaleIsValid scale = true ∧ es ≠ [] ∧
      p = scale :: i16ToBe first ++ es.flatMap SeriesEntry.toBytes ∧ off.toNat < 2 ^ 19 ∧
      (∀ e ∈ es, e.delta ≠ 0) ∧ ∀ t ∈ instantsFrom off.toNat es, t < 2 ^ 19
  | mt => ∃ c, Control.parse mt p = .ok c

/-- The bytes between the header and the tag. -/
def payloadOf (buf : Bytes) (peer : PeerConfig) : Bytes :=
  (buf.take (buf.length - peer.cipher.tagLen)).drop headerLen

/-- Steps 1 to 8 as conditions on the input: the header is acceptable, the tag is that of the
authenticated image, and the window admits the offset. -/
structure Genuine (P : Primitives) {WORDS : ℕ} (buf : Bytes) (peer : PeerConfig) (l : UInt32)
    (dir : Direction) (w : ReplayWindow WORDS) (mt : MsgType) (e : UInt32) : Prop where
  length : headerLen + peer.cipher.tagLen ≤ buf.length
  version : (Datagram.unpack buf).version = Catp.version
  msgType : MsgType.fromU8 (Datagram.unpack buf).msgType = some mt
  not_timeAnnounce : mt ≠ .timeAnnounce
  not_timeRequest : mt ≠ .timeRequest
  senderId : (Datagram.unpack buf).senderId = peer.senderId
  cipherId : (Datagram.unpack buf).cipherId = peer.cipher.toU8
  epoch : reconstructEpoch l (Datagram.unpack buf).epochLow = some e
  stageable : Stageable peer.cipher (13 + (payloadOf buf peer).length)
  tag : buf.drop (buf.length - peer.cipher.tagLen) =
    Catp.tag P peer.cipher (peer.secret.epochKey P peer.senderId e dir)
      (Datagram.unpack buf).datagramOffset
      ((Datagram.unpack buf).authHeader e ++ payloadOf buf peer)
  fresh : (w.checkAndSet (Datagram.unpack buf).datagramOffset).1 = .ok ()

section

variable {P : Primitives} {WORDS : ℕ} {buf : Bytes} {peer : PeerConfig} {l : UInt32}
  {dir : Direction} {w : ReplayWindow WORDS} {mt : MsgType} {e : UInt32}

/-- The claim of a genuine datagram. -/
def claimOf (buf : Bytes) (peer : PeerConfig) (mt : MsgType) (e : UInt32) : Claim where
  header := .unpack buf
  msgType := mt
  cipher := peer.cipher
  epochId := e
  payload := payloadOf buf peer
  tag := buf.drop (buf.length - peer.cipher.tagLen)

/-- A genuine datagram is one that verifies and that the window admits. -/
theorem genuine_iff : Genuine P buf peer l dir w mt e ↔
    verify P buf peer l dir = .ok (claimOf buf peer mt e) ∧
      (w.checkAndSet (Datagram.unpack buf).datagramOffset).1 = .ok () := by
  rw [verify_eq_ok_iff, checkHeader_eq_ok_iff, authenticate_eq_ok_iff]
  constructor
  · intro h
    refine ⟨⟨⟨h.length, rfl, h.version, h.msgType, h.not_timeAnnounce, h.not_timeRequest,
      h.senderId, h.cipherId, rfl, h.epoch, rfl, rfl⟩, h.stageable, ?_⟩, h.fresh⟩
    rw [claimOf]
    dsimp only
    rw [h.senderId]
    exact h.tag
  · rintro ⟨⟨⟨hlen, -, hv, hmt, hann, hreq, hs, hc, -, hepoch, -, -⟩, hstage, htag⟩, hfresh⟩
    refine ⟨hlen, hv, hmt, hann, hreq, hs, hc, hepoch, hstage, ?_, hfresh⟩
    rw [← hs]
    exact htag

/-- Whatever verifies is the claim of its buffer. -/
private theorem eq_claimOf {c : Claim} (h : verify P buf peer l dir = .ok c) :
    c = claimOf buf peer c.msgType c.epochId := by
  obtain ⟨-, hheader, -, -, -, -, -, -, hcipher, -, hpayload, htag⟩ :=
    checkHeader_eq_ok_iff.mp (verify_eq_ok_iff.mp h).1
  obtain ⟨header, mt, cipher, e, payload, tag⟩ := c
  dsimp only at hheader hcipher hpayload htag
  rw [hheader, hcipher, hpayload, htag]
  rfl

/-- A genuine datagram is accepted when its payload frames, and nothing else is accepted. -/
private theorem decode_ok_iff_genuine {acc : Accepted} : (decode P buf peer l dir w).1 = .ok acc ↔
    ∃ mt e, Genuine P buf peer l dir w mt e ∧ (claimOf buf peer mt e).finish peer = .ok acc := by
  rw [decode_eq_ok_iff]
  constructor
  · rintro ⟨c, hverify, hfresh, hfinish⟩
    have hc := eq_claimOf hverify
    refine ⟨c.msgType, c.epochId, genuine_iff.mpr ⟨by rw [hverify, ← hc], ?_⟩, by rwa [← hc]⟩
    rw [hc] at hfresh
    exact hfresh
  · rintro ⟨mt, e, hgen, hfinish⟩
    obtain ⟨hverify, hfresh⟩ := genuine_iff.mp hgen
    exact ⟨_, hverify, hfresh, hfinish⟩

/-! ### What framing enforces -/

/-- Framing checks the layout of every type but the control types. -/
private theorem conforms_of_frame {p : Bytes} {out d : Datagram} (h : frame mt p out = .ok d)
    (hctl : isControl mt.toU8 = false) : Conforms mt out.datagramOffset p := by
  cases mt with
  | message =>
    obtain ⟨recs, hne, -, hvalid, hp, -⟩ := (frame_records_iff rfl).mp h
    exact ⟨recs, hne, hvalid, hp⟩
  | event | alarm =>
    obtain ⟨recs, -, hone, hvalid, hp, -⟩ := (frame_records_iff rfl).mp h
    obtain ⟨r, rfl⟩ := List.length_eq_one_iff.mp (hone (by simp))
    refine ⟨r, hvalid r List.mem_cons_self, hp.trans ?_⟩
    exact List.append_nil r.toBytes
  | number =>
    obtain ⟨hnum, -, -⟩ := (frame_raw_iff rfl).mp h
    obtain ⟨⟨scale, mantissa⟩, hval⟩ := hnum rfl
    exact ⟨scale, mantissa, validateNumber_eq_ok_iff.mp hval⟩
  | series =>
    obtain ⟨-, hser, -⟩ := (frame_raw_iff rfl).mp h
    obtain ⟨⟨scale, readings⟩, hval⟩ := hser rfl
    obtain ⟨first, es, hscale, hne, hp, hoff, hdelta, hinst, -⟩ := validateSeries_eq_ok_iff.mp hval
    exact ⟨scale, first, es, hscale, hne, hp, hoff, hdelta, hinst⟩
  | epochAnnounce | timeAnnounce | timeRequest | heartbeat | capabilityAdvertise => cases hctl

/-- A control payload conforms when it has the layout of its type. -/
theorem conforms_control_iff {p : Bytes} {off : UInt32} (hctl : isControl mt.toU8 = true) :
    Conforms mt off p ↔ Control.Layout mt p := by
  rw [← Control.exists_parse_iff]
  cases mt with
  | message | event | alarm | number | series => cases hctl
  | epochAnnounce | timeAnnounce | timeRequest | heartbeat | capabilityAdvertise => exact Iff.rfl

/-- A control payload is taken as it is. -/
private theorem finish_control {c : Claim} (hctl : isControl c.msgType.toU8 = true) :
    ∃ acc, c.finish peer = .ok acc ∧ acc.datagram.msgType = c.header.msgType := by
  have hframe : frame c.msgType c.payload c.header = .ok { c.header with raw := c.payload } := by
    cases hmt : c.msgType with
    | message | event | alarm | number | series => rw [hmt] at hctl; cases hctl
    | epochAnnounce | timeAnnounce | timeRequest | heartbeat | capabilityAdvertise => rfl
  exact ⟨_, finish_eq_ok_iff.mpr ⟨_, hframe, rfl⟩, rfl⟩

/-- Framing and sorting keep the type and the offset of the header. -/
theorem msgType_of_finish {c : Claim} {acc : Accepted} (h : c.finish peer = .ok acc) :
    acc.datagram.msgType = c.header.msgType ∧ acc.datagramOffset = c.header.datagramOffset := by
  obtain ⟨out, hframe, rfl⟩ := finish_eq_ok_iff.mp h
  refine ⟨?_, rfl⟩
  cases hrec : c.msgType.isRecordFramed with
  | true =>
    obtain ⟨recs, -, -, -, -, rfl⟩ := (frame_records_iff hrec).mp hframe
    rfl
  | false =>
    obtain ⟨-, -, rfl⟩ := (frame_raw_iff hrec).mp hframe
    rfl

/-- **Accepted payloads conform to the layout of their type exactly when** no genuine control
datagram lacks it: framing enforces every layout but those of the control types. -/
theorem layout_enforced_iff :
    (∀ acc mt, (decode P buf peer l dir w).1 = .ok acc →
      MsgType.fromU8 acc.datagram.msgType = some mt →
      Conforms mt acc.datagramOffset (payloadOf buf peer)) ↔
    ∀ mt e, Genuine P buf peer l dir w mt e → isControl mt.toU8 = true →
      Control.Layout mt (payloadOf buf peer) := by
  constructor
  · intro h mt e hgen hctl
    obtain ⟨acc, hfinish, hmt⟩ := @finish_control peer (claimOf buf peer mt e) hctl
    have hacc := decode_ok_iff_genuine.mpr ⟨mt, e, hgen, hfinish⟩
    exact (conforms_control_iff hctl).mp (h acc mt hacc (by rw [hmt]; exact hgen.msgType))
  · intro h acc mt hacc hmt
    obtain ⟨mt', e, hgen, hfinish⟩ := decode_ok_iff_genuine.mp hacc
    obtain ⟨htype, hoff⟩ := msgType_of_finish hfinish
    -- the delivered type is the one the header names
    obtain rfl : mt' = mt := by
      rw [htype] at hmt
      exact Option.some.inj (hgen.msgType.symm.trans hmt)
    cases hctl : isControl mt'.toU8 with
    | true => exact (conforms_control_iff hctl).mpr (h mt' e hgen hctl)
    | false =>
      obtain ⟨out, hframe, -⟩ := finish_eq_ok_iff.mp hfinish
      rw [hoff]
      exact conforms_of_frame hframe hctl

/-- A genuine `HEARTBEAT` with the one-byte payload `"x"` is accepted, though
`Control::parse` refuses that payload. -/
theorem heartbeat_payload_accepted :
    let P := Primitives.ofTable vectorKey
      [([0x33, 0x10, 0x00, 0x01, 0xF4, 0x00, 0xCA, 0xA7, 0xE2, 0x12, 0x34, 0x56, 0x78, 0x78],
        #v[0xE8, 0x28, 0x45, 0x6C, 0x47, 0x7C, 0x6E, 0xF9, 0xFE, 0x67, 0x71, 0x09, 0x4F, 0x4E, 0x9C,
          0xEF, 0x26, 0xBF, 0xCC, 0xE8, 0x85, 0x03, 0xC3, 0x3C, 0x5B, 0x3F, 0xC0, 0xA2, 0x31, 0x78,
          0x60, 0x40])]
    let buf : Bytes := [0x33, 0x12, 0x00, 0x01, 0xF4, 0x12, 0x34, 0x56, 0x78, 0x78, 0xE8, 0x28,
      0x45, 0x6C, 0x47, 0x7C, 0x6E, 0xF9]
    let w : ReplayWindow defaultWindowWords := .new
    (∃ acc, (decode P buf vectorPeer 13281250 .nodeToCollector w).1 = .ok acc ∧
      acc.datagram.msgType = MsgType.toU8 .heartbeat) ∧ payloadOf buf vectorPeer = [0x78] ∧
      Control.parse .heartbeat [0x78] = .error (.framing "HEARTBEAT payload is not empty") ∧
      ¬Conforms .heartbeat 500 (payloadOf buf vectorPeer) := by
  intro P buf w
  have hlayout : ¬Control.Layout .heartbeat (payloadOf buf vectorPeer) := by decide
  have hraw : (decode P buf vectorPeer 13281250 .nodeToCollector w).1 = .ok
      ⟨{ Datagram.unpack buf with raw := [0x78] }, 13281250, 500, []⟩ := by decide
  exact ⟨⟨_, hraw, by decide⟩, by decide, rfl, mt (conforms_control_iff rfl).mp hlayout⟩

end

end Catp
