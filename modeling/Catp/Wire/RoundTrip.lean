import Catp.Wire.Decode
import Catp.Wire.Series

/-!
# Encoding and decoding are inverse

A datagram built by the constructors of `Datagram` and encoded is decoded to itself, with its
records sorted into those the receiver has a layout for and those it skips. Conversely, an
accepted buffer none of whose records was skipped is what its datagram encodes to.

The first rests on `verify_wire`: steps 1 to 7 take an encoded datagram apart into the pieces it
was made of. The second on `encode_of_decode`, which puts the pieces together again.

* `Built` has a case for each constructor. The records of `data` are required to be valid, which
  the constructor does not check; the time-recovery types have a round trip of their own.
* `FramesBack` is what each case comes down to: framing the payload under the header gives the
  datagram back. The MAC does not enter.
* In the other direction `payload_of_frame` puts the payload back. A record that was skipped is
  not in the datagram any more, so the condition on `skipped` cannot be dropped:
  `decode_collides_skipped` is two buffers that deliver one datagram.

The window matters to `decode_encode` by its answer only, and to `encode_decode` not at all.
-/

namespace Catp

open Datagram

/-- The datagrams the constructors build for an epoch, over records that can be transmitted.
The two time-recovery types travel outside any epoch and are left out. -/
inductive Built (cipher : CipherId) (senderId epochId : UInt32) : Datagram → Prop
  | data {mt off records d} (h : Datagram.data mt cipher senderId epochId off records = .ok d)
      (hvalid : ∀ r ∈ records, r.Valid) : Built cipher senderId epochId d
  | number {off scale mantissa d}
      (h : Datagram.number cipher senderId epochId off scale mantissa = .ok d) :
      Built cipher senderId epochId d
  | series {scale readings d}
      (h : Datagram.series cipher senderId epochId scale readings = .ok d) :
      Built cipher senderId epochId d
  | control {mt off body d} (h : Datagram.control mt cipher senderId epochId off body = .ok d)
      (hann : mt ≠ .timeAnnounce) (hreq : mt ≠ .timeRequest) : Built cipher senderId epochId d

/-! ### Built datagrams -/

/-- The datagram is a header from `base` for some type and tick with a payload, and framing that
payload gives the datagram back. -/
def FramesBack (cipher : CipherId) (s e : UInt32) (d : Datagram) : Prop :=
  ∃ mt off, { d with records := [], raw := [] } = base mt cipher s e off ∧ off.toNat < 2 ^ 19 ∧
    mt ≠ .timeAnnounce ∧ mt ≠ .timeRequest ∧ frame mt d.payload (base mt cipher s e off) = .ok d

section FramesBack

variable {cipher : CipherId} {s e off : UInt32} {d : Datagram}

/-- What `data` builds of valid records frames back. -/
private theorem framesBack_of_data {mt : MsgType} {records : List Record}
    (h : Datagram.data mt cipher s e off records = .ok d) (hvalid : ∀ r ∈ records, r.Valid) :
    FramesBack cipher s e d := by
  obtain ⟨hframed, hne, hone, hoff, rfl⟩ := data_eq_ok_iff.mp h
  refine ⟨mt, off, rfl, hoff, ?_, ?_, ?_⟩
  · rintro rfl
    exact absurd hframed (by decide)
  · rintro rfl
    exact absurd hframed (by decide)
  · exact (frame_records_iff hframed).mpr ⟨records, hne, hone, hvalid,
      by rw [payload, if_neg (by simpa using hne)], rfl⟩

/-- What `number` builds frames back: it has checked the scale. -/
private theorem framesBack_of_number {scale : UInt8} {mantissa : Int16}
    (h : Datagram.number cipher s e off scale mantissa = .ok d) : FramesBack cipher s e d := by
  rw [Datagram.number] at h
  split_ifs at h with hscale hoff
  obtain rfl := Except.ok.inj h
  have hnumber : ∃ r, validateNumber (scale :: i16ToBe mantissa) = .ok r :=
    ⟨_, validateNumber_eq_ok_iff.mpr ⟨by simpa using hscale, rfl⟩⟩
  exact ⟨.number, off, rfl, not_ticksPerEpoch_le.mp hoff, by decide, by decide,
    (frame_raw_iff rfl).mpr ⟨fun _ => hnumber, fun h => absurd h (by decide), rfl⟩⟩

/-- What `series` builds frames back: it has checked what the receiver checks. -/
private theorem framesBack_of_series {scale : UInt8} {readings : List (UInt32 × Int16)}
    (h : Datagram.series cipher s e scale readings = .ok d) : FramesBack cipher s e d := by
  obtain ⟨off, first, es, hscale, hne, hread, hoff, hdelta, hinst, rfl⟩ := series_eq_ok_iff.mp h
  have hseries : ∃ r, validateSeries (scale :: i16ToBe first ++ es.flatMap SeriesEntry.toBytes)
      off = .ok r :=
    ⟨_, validateSeries_eq_ok_iff.mpr ⟨first, es, hscale, hne, rfl, hoff, hdelta, hinst, rfl⟩⟩
  exact ⟨.series, off, rfl, hoff, by decide, by decide,
    (frame_raw_iff rfl).mpr ⟨fun h => absurd h (by decide), fun _ => hseries, rfl⟩⟩

/-- A control payload frames back unread, in the types of the session keys. -/
private theorem framesBack_of_control {mt : MsgType} {body : Bytes}
    (h : Datagram.control mt cipher s e off body = .ok d) (hann : mt ≠ .timeAnnounce)
    (hreq : mt ≠ .timeRequest) : FramesBack cipher s e d := by
  rw [Datagram.control] at h
  split_ifs at h with hctl hoff
  obtain rfl := Except.ok.inj h
  refine ⟨mt, off, rfl, not_ticksPerEpoch_le.mp hoff, hann, hreq, ?_⟩
  cases mt with
  | message | event | alarm | number | series => exact absurd rfl hctl
  | epochAnnounce | timeAnnounce | timeRequest | heartbeat | capabilityAdvertise =>
    exact (frame_raw_iff rfl).mpr
      ⟨fun h => absurd h (by decide), fun h => absurd h (by decide), rfl⟩

/-- Framing gives back every datagram the constructors build. -/
theorem Built.framesBack (h : Built cipher s e d) : FramesBack cipher s e d := by
  cases h with
  | data h hvalid => exact framesBack_of_data h hvalid
  | number h => exact framesBack_of_number h
  | series h => exact framesBack_of_series h
  | control h hann hreq => exact framesBack_of_control h hann hreq

end FramesBack

private theorem headerFits_base {mt : MsgType} {cipher : CipherId} {s e off : UInt32}
    (hoff : off.toNat < 2 ^ 19) : (base mt cipher s e off).HeaderFits where
  version := (by decide : version.toNat < 8)
  msgType := mt.toU8_lt
  cipherId := cipher.toU8_lt
  epochLow := by
    rw [base, toNat_low_nibble]
    exact Nat.mod_lt _ (by decide)
  reserved := (by decide : (0 : UInt8).toNat < 32)
  datagramOffset := hoff

/-! ### Decoding what was encoded -/

section

variable {P : Primitives} {secret : DeviceSecret} {cipher : CipherId} {s e l : UInt32}
  {dir : Direction} {max : ℕ} {d : Datagram} {wire : Bytes} {peer : PeerConfig}

/-- The epochs a receiver may stand in when a datagram of epoch `e` arrives. -/
private theorem inWindow_of_eq_or (hl : l = e ∨ e.toNat < 2 ^ 32 - 1 ∧ l = e + 1) :
    InWindow l e := by
  rcases hl with rfl | ⟨hlt, rfl⟩
  · exact inWindow_self l
  · have hnat : (e + 1).toNat = e.toNat + 1 := by
      rw [UInt32.toNat_add]
      exact Nat.mod_eq_of_lt (by simp; omega)
    exact ⟨UInt32.le_iff_toNat_le.mpr (by omega), hnat.le⟩

/-- An encoded datagram verifies, and verifying it takes it apart into the pieces it was made
of. -/
theorem verify_wire (hbuilt : Built cipher s e d) (hwire : d.encode P secret e dir max = .ok wire)
    (hs : peer.senderId = s) (hsecret : peer.secret = secret) (hcipher : peer.cipher = cipher)
    (hl : InWindow l e) :
    ∃ c, verify P wire peer l dir = .ok c ∧ c.epochId = e ∧
      c.header.datagramOffset = d.datagramOffset ∧
      frame c.msgType c.payload c.header = .ok d := by
  obtain ⟨mt, off, hbase, hoff, hann, hreq, hframe⟩ := hbuilt.framesBack
  subst hs hsecret hcipher
  have hsuite : d.cipherId = peer.cipher.toU8 := congrArg Datagram.cipherId hbase
  have hsender : d.senderId = peer.senderId := congrArg Datagram.senderId hbase
  have hoffset : d.datagramOffset = off := congrArg Datagram.datagramOffset hbase
  have hheader : d.headerBytes = (base mt peer.cipher peer.senderId e off).headerBytes :=
    (congrArg Datagram.headerBytes hbase :)
  have hauth : d.authHeader e = (base mt peer.cipher peer.senderId e off).authHeader e :=
    (congrArg (Datagram.authHeader · e) hbase :)
  obtain ⟨cipher, hfrom, -, hstage, -, rfl⟩ := encode_eq_ok_iff.mp hwire
  rw [hsuite, CipherId.fromU8_toU8] at hfrom
  obtain rfl := Option.some.inj hfrom
  have hlen := d.length_wire P peer.secret e dir peer.cipher
  have hunpack : unpack (d.wire P peer.secret e dir peer.cipher)
      = base mt peer.cipher peer.senderId e off := by
    rw [wire, hheader, List.append_assoc, unpack_headerBytes_append (headerFits_base hoff)]
    rfl
  have hpayload : ((d.wire P peer.secret e dir peer.cipher).take
      (headerLen + d.payloadLen)).drop headerLen = d.payload := by
    rw [wire, List.take_left' (by simp), List.drop_left' d.length_headerBytes]
  have htag : (d.wire P peer.secret e dir peer.cipher).drop (headerLen + d.payloadLen)
      = tag P peer.cipher (peer.secret.epochKey P peer.senderId e dir) off
        (d.authHeader e ++ d.payload) := by
    rw [wire, List.drop_left' (by simp), hsender, hoffset]
  -- the receiver cuts the tag off by its own suite's length
  have hcut : headerLen + d.payloadLen + peer.cipher.tagLen - peer.cipher.tagLen
      = headerLen + d.payloadLen := Nat.add_sub_cancel _ _
  -- from either side of the boundary the four bits select `e`
  have hepoch : reconstructEpoch l (epochLow (base mt peer.cipher peer.senderId e off)) = some e :=
    reconstructEpoch_eq_some_iff.mpr ⟨hl, by rw [base, toNat_low_nibble, Nat.mod_mod]⟩
  refine ⟨⟨base mt peer.cipher peer.senderId e off, mt, peer.cipher, e, d.payload,
    tag P peer.cipher (peer.secret.epochKey P peer.senderId e dir) off
      (d.authHeader e ++ d.payload)⟩, verify_eq_ok_iff.mpr ⟨checkHeader_eq_ok_iff.mpr ?_,
    authenticate_eq_ok_iff.mpr ?_⟩, rfl, hoffset.symm, hframe⟩
  · refine ⟨by omega, hunpack.symm, rfl, mt.fromU8_toU8, hann, hreq, rfl, rfl, rfl, hepoch, ?_, ?_⟩
    · rw [hlen, hcut, hpayload]
    · rw [hlen, hcut, htag]
  · refine ⟨by rwa [length_payload], ?_⟩
    rw [Claim.signed, hauth]
    rfl

/-- **`decode` undoes `encode`.** A datagram built for epoch `e` and encoded is accepted by a
receiver provisioned for its sender whose clock stands in `e` or the epoch after it, if its
replay window admits the offset. The receiver gets the datagram back, its records sorted in
order into those it has a layout for and those it skips. -/
theorem decode_encode {WORDS : ℕ} {w : ReplayWindow WORDS} (hbuilt : Built cipher s e d)
    (hwire : d.encode P secret e dir max = .ok wire) (hs : peer.senderId = s)
    (hsecret : peer.secret = secret) (hcipher : peer.cipher = cipher)
    (hl : l = e ∨ e.toNat < 2 ^ 32 - 1 ∧ l = e + 1)
    (hunseen : (w.checkAndSet d.datagramOffset).1 = .ok ()) :
    (decode P wire peer l dir w).1 = .ok {
      datagram := { d with records := d.records.filter peer.holds }
      epochId := e
      datagramOffset := d.datagramOffset
      skipped := d.records.filter (fun r => !peer.holds r) } := by
  obtain ⟨c, hverify, rfl, hoff, hframe⟩ :=
    verify_wire hbuilt hwire hs hsecret hcipher (inWindow_of_eq_or hl)
  refine decode_eq_ok_iff.mpr ⟨c, hverify, by rwa [hoff], finish_eq_ok_iff.mpr ⟨d, hframe, ?_⟩⟩
  rw [Claim.deliver, List.partition_eq_filter_filter, hoff]
  rfl

/-- The frozen vector, received one epoch later. -/
theorem decode_encode_vector :
    (decode vectorPrimitives vectorWire vectorPeer 13281251 .nodeToCollector
      (ReplayWindow.new : ReplayWindow defaultWindowWords)).1 =
        .ok ⟨vectorDatagram, 13281250, 4096, []⟩ := by
  have hbuilt : Built .hmacSha256T64 0x12345678 13281250 vectorDatagram :=
    .number (show Datagram.number .hmacSha256T64 0x12345678 13281250 4096 2 2350 = _ by decide)
  have hwire : vectorDatagram.encode vectorPrimitives vectorSecret 13281250 .nodeToCollector 512
      = .ok vectorWire := by decide
  exact decode_encode hbuilt hwire rfl rfl rfl (.inr (by decide)) (by decide)

/-! ### Encoding what was decoded -/

/-- Framing puts the payload it was given into the datagram, under the same header. -/
theorem payload_of_frame {mt : MsgType} {p : Bytes} {out d : Datagram} (hrecords : out.records = [])
    (h : frame mt p out = .ok d) :
    d.payload = p ∧ d.Writable ∧ { d with records := [], raw := [] } = { out with raw := [] } := by
  cases hrec : mt.isRecordFramed with
  | true =>
    obtain ⟨recs, hne, -, hvalid, rfl, rfl⟩ := (frame_records_iff hrec).mp h
    refine ⟨by rw [payload, if_neg (by simpa using hne)], fun r hr => (hvalid r hr).2.2, ?_⟩
    rw [← hrecords]
  | false =>
    obtain ⟨-, -, rfl⟩ := (frame_raw_iff hrec).mp h
    refine ⟨by rw [payload, hrecords]; rfl, ?_, by rw [← hrecords]⟩
    intro r hr
    rw [hrecords] at hr
    cases hr

private theorem deliver_of_skipped_eq_nil {c : Claim} {out : Datagram}
    (h : (c.deliver peer out).skipped = []) : (c.deliver peer out).datagram = out := by
  have hskip : out.records.filter (fun r => !peer.holds r) = [] := by
    rw [Claim.deliver, List.partition_eq_filter_filter] at h
    exact h
  have hkeep : out.records.filter peer.holds = out.records := by
    rw [List.filter_eq_self]
    intro r hr
    have := List.filter_eq_nil_iff.mp hskip r hr
    simpa using this
  rw [Claim.deliver, List.partition_eq_filter_filter, hkeep]

/-- **An accepted buffer is what its datagram encodes to**, if no record was skipped. -/
theorem encode_of_decode {WORDS : ℕ} {w : ReplayWindow WORDS} {buf : Bytes} {acc : Accepted}
    (h : (decode P buf peer l dir w).1 = .ok acc) (hskip : acc.skipped = []) :
    acc.datagram.encode P peer.secret acc.epochId dir buf.length = .ok buf := by
  obtain ⟨c, hverify, -, hfinish⟩ := decode_eq_ok_iff.mp h
  obtain ⟨hhead, hauth⟩ := verify_eq_ok_iff.mp hverify
  obtain ⟨out, hframe, rfl⟩ := finish_eq_ok_iff.mp hfinish
  obtain ⟨hlen, hheader, -, -, -, -, hsender, hsuite, hcipher, -⟩ := checkHeader_eq_ok_iff.mp hhead
  obtain ⟨hbuf, htaglen⟩ := eq_append_of_checkHeader hhead
  obtain ⟨hstage, htag⟩ := authenticate_eq_ok_iff.mp hauth
  obtain ⟨hpay, hwr, hsame⟩ := payload_of_frame (by rw [hheader]; rfl) hframe
  have hheaderOut : out.headerBytes = c.header.headerBytes :=
    (congrArg Datagram.headerBytes hsame :)
  have hsuiteOut : out.cipherId = c.header.cipherId := (congrArg Datagram.cipherId hsame :)
  have hsenderOut : out.senderId = c.header.senderId := (congrArg Datagram.senderId hsame :)
  have hoffOut : out.datagramOffset = c.header.datagramOffset :=
    (congrArg Datagram.datagramOffset hsame :)
  have hplen : out.payloadLen = c.payload.length := by rw [← length_payload, hpay]
  rw [deliver_of_skipped_eq_nil hskip]
  refine encode_eq_ok_iff.mpr ⟨c.cipher, ?_, hwr, by rwa [hplen], ?_, ?_⟩
  · rw [hsuiteOut, hsuite, hcipher, CipherId.fromU8_toU8]
  · rw [hbuf, List.length_append, List.length_append, length_headerBytes, htaglen, hplen]
  · have hauthOut : out.authHeader c.epochId = c.header.authHeader c.epochId := by
      rw [authHeader, authHeader, hheaderOut]
    rw [wire, hheaderOut, hpay, hsenderOut, hoffOut, Claim.deliver, hauthOut]
    rw [Claim.signed] at htag
    rw [← htag]
    exact hbuf

/-- The epoch is the one the header's low bits select. -/
private theorem reconstructEpoch_of_decode {WORDS : ℕ} {w : ReplayWindow WORDS} {buf : Bytes}
    {acc : Accepted} (h : (decode P buf peer l dir w).1 = .ok acc) :
    reconstructEpoch l acc.datagram.epochLow = some acc.epochId := by
  obtain ⟨c, hverify, -, hfinish⟩ := decode_eq_ok_iff.mp h
  obtain ⟨out, hframe, rfl⟩ := finish_eq_ok_iff.mp hfinish
  obtain ⟨-, hheader, -, -, -, -, -, -, -, hepoch, -⟩ :=
    checkHeader_eq_ok_iff.mp (verify_eq_ok_iff.mp hverify).1
  obtain ⟨-, -, hsame⟩ := payload_of_frame (by rw [hheader]; rfl) hframe
  have hlow : out.epochLow = c.header.epochLow := (congrArg Datagram.epochLow hsame :)
  change reconstructEpoch l out.epochLow = some c.epochId
  rw [hlow, hepoch]

/-- **`encode` undoes `decode`** on what was accepted without skipping a record, byte for byte.
Hence two such buffers that decode to the same datagram under the same configuration, clock,
direction and window are the same. -/
theorem encode_decode {WORDS : ℕ} {w : ReplayWindow WORDS} {buf : Bytes} {acc : Accepted}
    (h : (decode P buf peer l dir w).1 = .ok acc) (hskip : acc.skipped = []) :
    acc.datagram.encode P peer.secret acc.epochId dir buf.length = .ok buf ∧
      ∀ buf' acc', (decode P buf' peer l dir w).1 = .ok acc' → acc'.skipped = [] →
        acc'.datagram = acc.datagram → buf' = buf := by
  have henc := encode_of_decode h hskip
  refine ⟨henc, ?_⟩
  intro buf' acc' h' hskip' hsame
  have henc' := encode_of_decode h' hskip'
  have hepoch : acc'.epochId = acc.epochId := by
    have := (reconstructEpoch_of_decode h').symm.trans
      ((congrArg (fun d => reconstructEpoch l d.epochLow) hsame).trans
        (reconstructEpoch_of_decode h))
    exact Option.some.inj this
  rw [hsame, hepoch] at henc'
  obtain ⟨c, hc, -, -, -, hw⟩ := encode_eq_ok_iff.mp henc
  obtain ⟨c', hc', -, -, -, hw'⟩ := encode_eq_ok_iff.mp henc'
  obtain rfl : c' = c := Option.some.inj (hc'.symm.trans hc)
  rw [hw, hw']

/-- The frozen vector, encoded back. -/
theorem encode_decode_vector :
    vectorDatagram.encode vectorPrimitives vectorSecret 13281250 .nodeToCollector
      vectorWire.length = .ok vectorWire := by
  have h : (decode vectorPrimitives vectorWire vectorPeer 13281250 .nodeToCollector
      (ReplayWindow.new : ReplayWindow 1)).1 = .ok ⟨vectorDatagram, 13281250, 4096, []⟩ := by decide
  exact (encode_decode h rfl).1

/-- Two messages with one record each, of a layout the receiver does not hold: both are
accepted, and deliver the same datagram. -/
theorem decode_collides_skipped :
    let P := Primitives.ofTable vectorKey
      [([0x21, 0x40, 0x00, 0x00, 0x64, 0x00, 0xCA, 0xA7, 0xE2, 0x12, 0x34, 0x56, 0x78, 0x10,
      0x10, 0x01, 0xAA], #v[0xE3, 0x0B, 0x85, 0xCF, 0xC6, 0xF1, 0x10, 0xFA, 0xB4, 0x35, 0xAA,
      0x2E, 0xA4, 0x55, 0xBC, 0x08, 0x7A, 0x7B, 0x0F, 0xE4, 0x1B, 0xE0, 0x5A, 0x9B, 0x17, 0x56,
      0x94, 0x79, 0xCA, 0x9C, 0xB1, 0xCE]),
      ([0x21, 0x40, 0x00, 0x00, 0x64, 0x00, 0xCA, 0xA7, 0xE2, 0x12, 0x34, 0x56, 0x78, 0x10, 0x10,
      0x01, 0xBB], #v[0xC5, 0x6C, 0x41, 0xD0, 0x9C, 0xDE, 0xD0, 0x6D, 0x1C, 0x89, 0xE4, 0xE5,
      0x31, 0x90, 0xBD, 0x7F, 0x5A, 0x88, 0xBC, 0xD4, 0x77, 0x6C, 0xD5, 0x80, 0xAB, 0xEC, 0x84,
      0x74, 0xA9, 0xF6, 0x5D, 0xDD])]
    let peer : PeerConfig := { vectorPeer with cipher := .hmacSha256T32 }
    let w : ReplayWindow defaultWindowWords := .new
    let buf : Bytes :=
      [0x21, 0x42, 0x00, 0x00, 0x64, 0x12, 0x34, 0x56, 0x78, 0x10, 0x10, 0x01, 0xAA, 0xE3, 0x0B,
      0x85, 0xCF]
    let buf' : Bytes :=
      [0x21, 0x42, 0x00, 0x00, 0x64, 0x12, 0x34, 0x56, 0x78, 0x10, 0x10, 0x01, 0xBB, 0xC5, 0x6C,
      0x41, 0xD0]
    ∃ acc acc', (decode P buf peer 13281250 .nodeToCollector w).1 = .ok acc ∧
      (decode P buf' peer 13281250 .nodeToCollector w).1 = .ok acc' ∧
      acc.datagram = acc'.datagram ∧ buf ≠ buf' := by
  intro P peer w buf buf'
  let claim (body tag : Bytes) : Claim := ⟨base .message .hmacSha256T32 0x12345678 13281250 100,
    .message, .hmacSha256T32, 13281250, [0x10, 0x10, 0x01] ++ body, tag⟩
  have hfinish : ∀ b tag, (claim [b] tag).finish peer = .ok ⟨base .message .hmacSha256T32
      0x12345678 13281250 100, 13281250, 100, [⟨1, 1, [b]⟩]⟩ := fun b tag => by
    have hheader : Record.headerBytes ⟨1, 1, [b]⟩ = [0x10, 0x10, 0x01] :=
      (rfl : _ = Record.headerBytes ⟨1, 1, [0]⟩).trans (by decide)
    have hpayload : (claim [b] tag).payload = Record.codec.encAll [⟨1, 1, [b]⟩] := by
      change _ = Record.headerBytes ⟨1, 1, [b]⟩ ++ [b] ++ []
      rw [hheader]
      rfl
    exact finish_eq_ok_iff.mpr ⟨_, (frame_records_iff rfl).mpr ⟨[⟨1, 1, [b]⟩],
      List.cons_ne_nil _ _, fun _ => rfl, by simp [Record.Valid], hpayload, rfl⟩, rfl⟩
  exact ⟨_, _, decode_eq_ok_iff.mpr ⟨claim [0xAA] [0xE3, 0x0B, 0x85, 0xCF], by decide, by decide,
    hfinish _ _⟩, decode_eq_ok_iff.mpr ⟨claim [0xBB] [0xC5, 0x6C, 0x41, 0xD0], by decide, by decide,
    hfinish _ _⟩, rfl, by decide⟩

end

end Catp
