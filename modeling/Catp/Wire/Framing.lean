import Catp.Wire.RoundTrip

/-!
# Record framing

The grammar of a record-framed payload, `FramedAs`, and the two ends of the wire against it.
The receiver accepts exactly the payloads of the grammar, each with its one list of records,
which it sorts into those it holds a layout for and those it skips. The sender checks less: it
refuses bodies the record header cannot express, but writes any `format` and any
`schema_version`.

* `FramedAs.unique` holds because records are self-delimiting: it is the uniqueness of
  `Record.codec`, not an induction here.
* `framing_accepts_iff` is about a datagram that has passed steps 1 to 7 and whose offset the
  window admits. Skipping a record is no error; a payload that does not divide is, and then no
  record of it is delivered, not even those before the fault.
* `Sendable` is everything the send path looks at. Comparing it with `Record.Valid` leaves the
  three conditions of `encode_refuses_iff`: a `format` that is zero or wider than four bits, and a
  `schema_version` of zero.
-/

namespace Catp

/-- The payload `p` of a datagram of type `mt` is divided into the records `recs`. -/
structure FramedAs (mt : MsgType) (p : Bytes) (recs : List Record) : Prop where
  nonempty : recs ≠ []
  single : mt = .event ∨ mt = .alarm → recs.length = 1
  valid : ∀ r ∈ recs, r.Valid
  bytes : p = (recs.map Record.toBytes).flatten

/-- A payload is divided in one way only. -/
theorem FramedAs.unique {mt : MsgType} {p : Bytes} {recs recs' : List Record}
    (h : FramedAs mt p recs) (h' : FramedAs mt p recs') : recs = recs' :=
  Record.codec.encAll_injective h.valid h'.valid (h.bytes.symm.trans h'.bytes)

/-- Step 9 accepts the payloads of the grammar. -/
private theorem frame_eq_ok_iff_framedAs {mt : MsgType} (h : mt.isRecordFramed = true) {p : Bytes}
    {out out' : Datagram} :
    frame mt p out = .ok out' ↔
      ∃ recs, FramedAs mt p recs ∧ out' = { out with records := recs } := by
  rw [frame_records_iff h]
  constructor
  · rintro ⟨recs, hne, hone, hvalid, hp, hout⟩
    exact ⟨recs, ⟨hne, hone, hvalid, hp⟩, hout⟩
  · rintro ⟨recs, hf, hout⟩
    exact ⟨recs, hf.nonempty, hf.single, hf.valid, hf.bytes, hout⟩

/-- Step 10 keeps the records the receiver holds and skips the others, in their order. -/
theorem deliver_eq (c : Claim) (peer : PeerConfig) (out : Datagram) :
    c.deliver peer out =
      { datagram := { out with records := out.records.filter peer.holds }
        epochId := c.epochId
        datagramOffset := c.header.datagramOffset
        skipped := out.records.filter fun r => !peer.holds r } := by
  rw [Claim.deliver, List.partition_eq_filter_filter]
  rfl

/-! ### The receiver -/

section Receiver

variable {P : Primitives} {WORDS : ℕ} {w : ReplayWindow WORDS} {buf : Bytes} {peer : PeerConfig}
  {l : UInt32} {dir : Direction} {c : Claim}

/-- What becomes of an authenticated record-framed datagram whose offset the window admits. -/
private theorem decode_eq_ok_iff_framedAs (hc : verify P buf peer l dir = .ok c)
    (hmt : c.msgType.isRecordFramed = true)
    (hunseen : (w.checkAndSet c.header.datagramOffset).1 = .ok ()) {acc : Accepted} :
    (decode P buf peer l dir w).1 = .ok acc ↔ ∃ recs, FramedAs c.msgType c.payload recs ∧
      acc = c.deliver peer { c.header with records := recs } := by
  rw [decode_of_verify_ok hc, hunseen]
  dsimp only
  rw [finish_eq_ok_iff]
  constructor
  · rintro ⟨out, hframe, rfl⟩
    obtain ⟨recs, hf, rfl⟩ := (frame_eq_ok_iff_framedAs hmt).mp hframe
    exact ⟨recs, hf, rfl⟩
  · rintro ⟨recs, hf, rfl⟩
    exact ⟨_, (frame_eq_ok_iff_framedAs hmt).mpr ⟨recs, hf, rfl⟩, rfl⟩

/-- **Record framing accepts exactly its grammar.** Of an authenticated `MESSAGE`, `EVENT` or
`ALARM` with an unseen offset, the payload is accepted exactly when it can be divided into
records, which is possible in one way only; the records held and the records skipped are the
division sorted in two, each in wire order; and a payload that cannot be divided is a framing
error, without any record. -/
theorem framing_accepts_iff (hc : verify P buf peer l dir = .ok c)
    (hmt : c.msgType = .message ∨ c.msgType = .event ∨ c.msgType = .alarm)
    (hunseen : (w.checkAndSet c.header.datagramOffset).1 = .ok ()) :
    ((∃ acc, (decode P buf peer l dir w).1 = .ok acc) ↔
        ∃ recs, FramedAs c.msgType c.payload recs) ∧
      (∀ recs recs', FramedAs c.msgType c.payload recs → FramedAs c.msgType c.payload recs' →
        recs = recs') ∧
      (∀ acc recs, (decode P buf peer l dir w).1 = .ok acc → FramedAs c.msgType c.payload recs →
        acc.datagram.records = recs.filter peer.holds ∧
          acc.skipped = recs.filter (fun r => !peer.holds r) ∧
          (acc.datagram.records ++ acc.skipped).Perm recs) ∧
      ((∀ recs, ¬FramedAs c.msgType c.payload recs) →
        ∃ e, (decode P buf peer l dir w).1 = .error e ∧ e.isFraming = true) := by
  have hframed : c.msgType.isRecordFramed = true := by
    rcases hmt with hmt | hmt | hmt <;> rw [hmt] <;> rfl
  have hok := fun acc =>
    @decode_eq_ok_iff_framedAs P WORDS w buf peer l dir c hc hframed hunseen acc
  refine ⟨?_, fun _ _ h h' => h.unique h', ?_, ?_⟩
  · constructor
    · rintro ⟨acc, hacc⟩
      obtain ⟨recs, hf, -⟩ := (hok acc).mp hacc
      exact ⟨recs, hf⟩
    · rintro ⟨recs, hf⟩
      exact ⟨_, (hok _).mpr ⟨recs, hf, rfl⟩⟩
  · intro acc recs hacc hf
    obtain ⟨recs', hf', rfl⟩ := (hok acc).mp hacc
    obtain rfl := hf.unique hf'
    rw [deliver_eq]
    exact ⟨rfl, rfl, List.filter_append_perm peer.holds recs⟩
  · intro hnone
    cases hres : (decode P buf peer l dir w).1 with
    | ok acc =>
      obtain ⟨recs, hf, -⟩ := (hok acc).mp hres
      exact absurd hf (hnone recs)
    | error e =>
      rw [decode_of_verify_ok hc, hunseen] at hres
      exact ⟨e, rfl, finish_error hres⟩

/-- A `MESSAGE` of two records at tick 100, of which the receiver holds the layout of the
second. -/
theorem framing_accepts_iff_message :
    let P := Primitives.ofTable vectorKey
      [([0x21, 0x10, 0x00, 0x00, 0x64, 0x00, 0xCA, 0xA7, 0xE2, 0x12, 0x34, 0x56, 0x78, 0x10,
      0x10, 0x01, 0xAA, 0x20, 0x30, 0x02, 0xBB, 0xCC], #v[0x7D, 0x1F, 0x36, 0x47, 0x4B, 0x6E,
      0xEF, 0x97, 0xB1, 0x88, 0x97, 0x0F, 0x75, 0xCF, 0x7C, 0x70, 0x40, 0xCB, 0x1C, 0x09, 0xB2,
      0x06, 0x4E, 0xB6, 0x3B, 0x26, 0xDD, 0x38, 0xAA, 0x1B, 0x87, 0x11])]
    let peer : PeerConfig := { vectorPeer with layouts := [(2, 3)] }
    let buf : Bytes := [0x21, 0x12, 0x00, 0x00, 0x64, 0x12, 0x34, 0x56, 0x78, 0x10, 0x10, 0x01,
      0xAA, 0x20, 0x30, 0x02, 0xBB, 0xCC, 0x7D, 0x1F, 0x36, 0x47, 0x4B, 0x6E, 0xEF, 0x97]
    ∃ acc, (decode P buf peer 13281250 .nodeToCollector (ReplayWindow.new : ReplayWindow 1)).1 =
        .ok acc ∧
      acc.datagram.records = [⟨2, 3, [0xBB, 0xCC]⟩] ∧ acc.skipped = [⟨1, 1, [0xAA]⟩] := by
  intro P peer buf
  have hc : verify P buf peer 13281250 .nodeToCollector =
      .ok ⟨Datagram.base .message .hmacSha256T64 0x12345678 13281250 100, .message, .hmacSha256T64,
        13281250, [0x10, 0x10, 0x01, 0xAA, 0x20, 0x30, 0x02, 0xBB, 0xCC],
        [0x7D, 0x1F, 0x36, 0x47, 0x4B, 0x6E, 0xEF, 0x97]⟩ := by decide
  have hframed : FramedAs .message [0x10, 0x10, 0x01, 0xAA, 0x20, 0x30, 0x02, 0xBB, 0xCC]
      [⟨1, 1, [0xAA]⟩, ⟨2, 3, [0xBB, 0xCC]⟩] :=
    ⟨List.cons_ne_nil _ _, fun h => absurd h (by decide), by decide, by decide⟩
  obtain ⟨hiff, -, hsort, -⟩ :=
    framing_accepts_iff (w := (ReplayWindow.new : ReplayWindow 1)) hc (.inl rfl) (by decide)
  obtain ⟨acc, hacc⟩ := hiff.mpr ⟨_, hframed⟩
  obtain ⟨hkeep, hskip, -⟩ := hsort acc _ hacc hframed
  exact ⟨acc, hacc, hkeep.trans (by decide), hskip.trans (by decide)⟩

end Receiver

/-! ### The sender -/

section Sender

variable {mt : MsgType} {cipher : CipherId} {s e off : UInt32} {records : List Record}
  {d : Datagram} {max : ℕ}

/-- Everything `data` and `encode` look at: the type and the number of records, the tick, the
length of every body and of the whole. -/
structure Sendable (mt : MsgType) (cipher : CipherId) (off : UInt32) (records : List Record)
    (max : ℕ) : Prop where
  framed : mt.isRecordFramed = true
  nonempty : records ≠ []
  single : mt = .event ∨ mt = .alarm → records.length = 1
  offset : off.toNat < 2 ^ 19
  bodies : ∀ r ∈ records, 1 ≤ r.body.length ∧ r.body.length ≤ maxBody
  staged : Stageable cipher (13 + (records.map Record.wireLen).sum)
  fits : headerLen + (records.map Record.wireLen).sum + cipher.tagLen ≤ max

private theorem payloadLen_records (h : records ≠ []) (d : Datagram) :
    Datagram.payloadLen { d with records := records } = (records.map Record.wireLen).sum := by
  rw [Datagram.payloadLen, if_pos (by simpa using h)]

/-- What `data` and `encode` send between them, whatever the keys. -/
theorem exists_encode_iff {P : Primitives} {secret : DeviceSecret} {e' : UInt32}
    {dir : Direction} :
    (∃ d w, Datagram.data mt cipher s e off records = .ok d ∧
      d.encode P secret e' dir max = .ok w) ↔ Sendable mt cipher off records max := by
  constructor
  · rintro ⟨d, w, hdata, henc⟩
    obtain ⟨hframed, hne, hone, hoff, rfl⟩ := Datagram.data_eq_ok_iff.mp hdata
    obtain ⟨c, hc, hwr, hstage, hmax, -⟩ := Datagram.encode_eq_ok_iff.mp henc
    obtain rfl : cipher = c := Option.some.inj ((CipherId.fromU8_toU8 cipher).symm.trans hc)
    rw [payloadLen_records hne] at hstage hmax
    exact ⟨hframed, hne, hone, hoff, hwr, hstage, hmax⟩
  · intro h
    refine ⟨_, _, Datagram.data_eq_ok_iff.mpr ⟨h.framed, h.nonempty, h.single, h.offset, rfl⟩,
      Datagram.encode_eq_ok_iff.mpr ⟨cipher, CipherId.fromU8_toU8 cipher, h.bodies, ?_, ?_, rfl⟩⟩
    · rw [payloadLen_records h.nonempty]
      exact h.staged
    · rw [payloadLen_records h.nonempty]
      exact h.fits

/-- **What the sender refuses.** Everything `data` and `encode` let out can be transmitted, and
frames back to what was sent, exactly when the records whose bodies and number they accept carry
no reserved or oversized `format` and no reserved `schema_version`. -/
theorem encode_refuses_iff {P : Primitives} {secret : DeviceSecret} {e' : UInt32}
    {dir : Direction} :
    (∀ d w, Datagram.data mt cipher s e off records = .ok d →
      d.encode P secret e' dir max = .ok w →
      (∀ r ∈ records, r.Valid) ∧ frame mt d.payload { d with records := [] } = .ok d) ↔
    (Sendable mt cipher off records max →
      ∀ r ∈ records, (1 ≤ r.format.toNat ∧ r.format.toNat ≤ 15) ∧ 1 ≤ r.schemaVersion.toNat) := by
  constructor
  · intro h hsend r hr
    obtain ⟨d, w, hdata, henc⟩ := (@exists_encode_iff mt cipher s e off records max P secret e'
      dir).mpr hsend
    obtain ⟨hformat, hschema, -⟩ := (h d w hdata henc).1 r hr
    exact ⟨hformat, hschema⟩
  · intro h d w hdata henc
    have hsend := exists_encode_iff.mp ⟨d, w, hdata, henc⟩
    have hvalid : ∀ r ∈ records, r.Valid := fun r hr =>
      ⟨(h hsend r hr).1, (h hsend r hr).2, hsend.bodies r hr⟩
    obtain ⟨-, -, -, -, rfl⟩ := Datagram.data_eq_ok_iff.mp hdata
    refine ⟨hvalid, (frame_records_iff hsend.framed).mpr ⟨records, hsend.nonempty, hsend.single,
      hvalid, ?_, rfl⟩⟩
    rw [Datagram.payload, if_neg (by simpa using hsend.nonempty)]

/-- A record of a reserved layout is sent, and rejected; a record of a `format` that does not
fit is sent, and read as another one. -/
theorem encode_sends_reserved :
    (∃ d w, Datagram.data .message .hmacSha256T64 0x12345678 13281250 100 [⟨1, 0, [0x42]⟩] = .ok d ∧
        d.encode vectorPrimitives vectorSecret 13281250 .nodeToCollector 508 = .ok w ∧
        frame .message d.payload { d with records := [] } =
          .error (.framing "schema_version 0x00 is invalid")) ∧
      ∃ d w, Datagram.data .message .hmacSha256T64 0x12345678 13281250 100 [⟨0x11, 1, [0x42]⟩] =
          .ok d ∧
        d.encode vectorPrimitives vectorSecret 13281250 .nodeToCollector 508 = .ok w ∧
        frame .message d.payload { d with records := [] } =
          .ok { d with records := [⟨1, 1, [0x42]⟩] } := by
  have hsend : ∀ r : Record, r.body = [0x42] →
      Sendable .message .hmacSha256T64 100 [r] 508 := fun r hr =>
    ⟨rfl, List.cons_ne_nil _ _, fun _ => rfl, by decide, by simp [hr, maxBody],
      by simp [Record.wireLen, hr, Stageable],
      by simp [Record.wireLen, hr, headerLen, recordHeaderLen, CipherId.tagLen]⟩
  constructor
  · obtain ⟨d, w, hdata, henc⟩ := exists_encode_iff.mpr (hsend ⟨1, 0, [0x42]⟩ rfl)
    refine ⟨d, w, hdata, henc, ?_⟩
    obtain ⟨-, -, -, -, rfl⟩ := Datagram.data_eq_ok_iff.mp hdata
    have hbytes : Datagram.payload { Datagram.base .message .hmacSha256T64 0x12345678 13281250 100
        with records := [⟨1, 0, [0x42]⟩] } = [0x10, 0x00, 0x01, 0x42] := by decide
    have hloop : Record.codec.loop [0x10, 0x00, 0x01, 0x42] 0 [] =
        .error (.framing "schema_version 0x00 is invalid") :=
      Record.codec.loop_error [] (by decide) (by decide)
    rw [hbytes, frame, if_pos (show MsgType.message.isRecordFramed = true from rfl),
      if_neg (by decide), hloop]
  · obtain ⟨d, w, hdata, henc⟩ := exists_encode_iff.mpr (hsend ⟨0x11, 1, [0x42]⟩ rfl)
    refine ⟨d, w, hdata, henc, ?_⟩
    obtain ⟨-, -, -, -, rfl⟩ := Datagram.data_eq_ok_iff.mp hdata
    exact (frame_records_iff rfl).mpr ⟨[⟨1, 1, [0x42]⟩], List.cons_ne_nil _ _, fun _ => rfl,
      by decide, by decide, rfl⟩

end Sender

end Catp
