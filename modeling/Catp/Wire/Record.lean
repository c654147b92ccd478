import Catp.Core.Registry
import Catp.Lib.SelfDelimiting

/-!
# Records

`Record` of `src/wire.rs`: a 24-bit packed header (4-bit format, 8-bit schema version, 12-bit
size) and a body. The packing and unpacking are restated as arithmetic (`toNat_headerWord`,
`toNat_wordOf`); `Record.codec` is the resulting self-delimiting code, whose `loop` is the
record loop of `decode`.

* A header is read as a 24-bit word. `toNat_fields` takes it apart and `toNat_headerWord` puts it
  together, both as arithmetic, and `headerWord_of_fields` is what makes the fields and the word
  determine each other.
* `Valid` is what a receiver accepts: no field is zero, and each fits its bits. `writeInto` checks
  the length of the body and the room in the buffer, and nothing else, so what it writes of a
  record that is not valid is read back as another record or not at all.
* The two laws of `codec` are reading after writing (`decode_toBytes_append`) and writing after
  reading (`toBytes_of_decode`). What follows of lists of records is in the library.
-/

namespace Catp

/-- One record: a 24-bit packed header plus a body. -/
structure Record where
  format : UInt8
  schemaVersion : UInt8
  body : Bytes
  deriving DecidableEq, Repr

namespace Record

/-- The length of a record on the wire. -/
def wireLen (r : Record) : ℕ := recordHeaderLen + r.body.length

/-- `(format << 20) | (schema_version << 12) | size`. -/
def headerWord (r : Record) : UInt32 :=
  ((r.format.toUInt32 &&& 0x0F) <<< 20) ||| ((r.schemaVersion.toUInt32 &&& 0xFF) <<< 12) |||
    (UInt32.ofNat r.body.length &&& 0xFFF)

/-- The three header bytes, `header_word().to_be_bytes()[1..4]`. -/
def headerBytes (r : Record) : Bytes := (u32ToBe r.headerWord).drop 1

/-- The serialization of a record. -/
def toBytes (r : Record) : Bytes := r.headerBytes ++ r.body

/-- Serialize into the caller's buffer: the bytes written and the new contents of `out`. -/
def writeInto (r : Record) (out : Bytes) : Except Error (ℕ × Bytes) :=
  if r.body.isEmpty || r.body.length > maxBody then .error (.bodyTooLarge r.body.length)
  else if out.length < r.wireLen then .error (.bufferTooSmall out.length r.wireLen)
  else .ok (r.wireLen, r.headerBytes ++ r.body ++ out.drop r.wireLen)

/-- `((buf[0] as u32) << 16) | ((buf[1] as u32) << 8) | buf[2] as u32`. -/
def wordOf (b0 b1 b2 : UInt8) : UInt32 :=
  (b0.toUInt32 <<< 16) ||| (b1.toUInt32 <<< 8) ||| b2.toUInt32

/-- Read one record off the front of `buf`, with the number of bytes it took. -/
def decode (buf : Bytes) : Except Error (Record × ℕ) :=
  if buf.length < recordHeaderLen then .error (.framing "record header truncated")
  else
    let w := wordOf buf[0]! buf[1]! buf[2]!
    let format := ((w >>> 20) &&& 0x0F).toUInt8
    let schemaVersion := ((w >>> 12) &&& 0xFF).toUInt8
    let size := (w &&& 0xFFF).toNat
    if format = 0 then .error (.framing "format 0x00 is invalid")
    else if schemaVersion = 0 then .error (.framing "schema_version 0x00 is invalid")
    else if size = 0 then .error (.framing "size 0 is invalid")
    else if buf.length < recordHeaderLen + size then
      .error (.framing "record body overruns payload")
    else
      let body := (buf.take (recordHeaderLen + size)).drop recordHeaderLen
      .ok (⟨format, schemaVersion, body⟩, recordHeaderLen + size)

/-! ### The packed header as arithmetic -/

/-- The header word: four bits of format, eight of schema version, twelve of length. -/
theorem toNat_headerWord (r : Record) : r.headerWord.toNat =
    r.format.toNat % 16 * 2 ^ 20 + r.schemaVersion.toNat * 2 ^ 12 + r.body.length % 4096 := by
  have hv : r.schemaVersion.toNat < 256 := r.schemaVersion.toNat_lt
  have hf : (r.format.toUInt32 &&& 0x0F).toNat = r.format.toNat % 16 := by
    simpa using Nat.and_two_pow_sub_one_eq_mod r.format.toNat 4
  have hs : (r.schemaVersion.toUInt32 &&& 0xFF).toNat = r.schemaVersion.toNat := by
    have := Nat.and_two_pow_sub_one_eq_mod r.schemaVersion.toNat 8
    simp at this ⊢
    omega
  have hl : (UInt32.ofNat r.body.length &&& 0xFFF).toNat = r.body.length % 4096 := by
    have := Nat.and_two_pow_sub_one_eq_mod (r.body.length % 2 ^ 32) 12
    simp at this ⊢
    omega
  have hf20 : ((r.format.toUInt32 &&& 0x0F) <<< 20).toNat = r.format.toNat % 16 * 2 ^ 20 := by
    rw [UInt32.toNat_shiftLeft, hf, Nat.shiftLeft_eq]
    exact Nat.mod_eq_of_lt (by simp; omega)
  have hs12 : ((r.schemaVersion.toUInt32 &&& 0xFF) <<< 12).toNat
      = r.schemaVersion.toNat * 2 ^ 12 := by
    rw [UInt32.toNat_shiftLeft, hs, Nat.shiftLeft_eq]
    exact Nat.mod_eq_of_lt (by simp; omega)
  have hlow : r.body.length % 4096 < 2 ^ 12 := Nat.mod_lt _ (by decide)
  have hsplit : r.format.toNat % 16 * 2 ^ 20 + r.schemaVersion.toNat * 2 ^ 12
      = (r.format.toNat % 16 * 2 ^ 8 + r.schemaVersion.toNat) * 2 ^ 12 := by omega
  calc r.headerWord.toNat
      = r.format.toNat % 16 * 2 ^ 20 ||| r.schemaVersion.toNat * 2 ^ 12
          ||| r.body.length % 4096 := by
        rw [headerWord, UInt32.toNat_or, UInt32.toNat_or, hf20, hs12, hl]
    _ = (r.format.toNat % 16 * 2 ^ 8 + r.schemaVersion.toNat) * 2 ^ 12
          ||| r.body.length % 4096 := by
        rw [BigEndian.mul_two_pow_lor (r.format.toNat % 16) 20 (by omega), hsplit]
    _ = (r.format.toNat % 16 * 2 ^ 8 + r.schemaVersion.toNat) * 2 ^ 12
          + r.body.length % 4096 := BigEndian.mul_two_pow_lor _ 12 hlow
    _ = r.format.toNat % 16 * 2 ^ 20 + r.schemaVersion.toNat * 2 ^ 12
          + r.body.length % 4096 := by rw [hsplit]

/-- The word of three octets, most significant first. -/
theorem toNat_wordOf (b0 b1 b2 : UInt8) :
    (wordOf b0 b1 b2).toNat = b0.toNat * 2 ^ 16 + b1.toNat * 2 ^ 8 + b2.toNat := by
  have h0 : b0.toNat < 256 := b0.toNat_lt
  have h1 : b1.toNat < 256 := b1.toNat_lt
  have h2 : b2.toNat < 256 := b2.toNat_lt
  have hb0 : (b0.toUInt32 <<< 16).toNat = b0.toNat * 2 ^ 16 := by
    rw [UInt32.toNat_shiftLeft, Nat.shiftLeft_eq]
    exact Nat.mod_eq_of_lt (by simp; omega)
  have hb1 : (b1.toUInt32 <<< 8).toNat = b1.toNat * 2 ^ 8 := by
    rw [UInt32.toNat_shiftLeft, Nat.shiftLeft_eq]
    exact Nat.mod_eq_of_lt (by simp; omega)
  have hsplit : b0.toNat * 2 ^ 16 + b1.toNat * 2 ^ 8 = (b0.toNat * 2 ^ 8 + b1.toNat) * 2 ^ 8 := by
    omega
  calc (wordOf b0 b1 b2).toNat
      = b0.toNat * 2 ^ 16 ||| b1.toNat * 2 ^ 8 ||| b2.toNat := by
        rw [wordOf, UInt32.toNat_or, UInt32.toNat_or, hb0, hb1, UInt8.toNat_toUInt32]
    _ = (b0.toNat * 2 ^ 8 + b1.toNat) * 2 ^ 8 ||| b2.toNat := by
        rw [BigEndian.mul_two_pow_lor b0.toNat 16 (by omega), hsplit]
    _ = (b0.toNat * 2 ^ 8 + b1.toNat) * 2 ^ 8 + b2.toNat :=
        BigEndian.mul_two_pow_lor _ 8 (by omega)
    _ = b0.toNat * 2 ^ 16 + b1.toNat * 2 ^ 8 + b2.toNat := by rw [hsplit]

/-- The fields unpacked from a header word, as remainders. -/
theorem toNat_fields (w : UInt32) :
    ((w >>> 20) &&& 0x0F).toUInt8.toNat = w.toNat / 2 ^ 20 % 16 ∧
      ((w >>> 12) &&& 0xFF).toUInt8.toNat = w.toNat / 2 ^ 12 % 256 ∧
      (w &&& 0xFFF).toNat = w.toNat % 4096 := by
  have hf := Nat.and_two_pow_sub_one_eq_mod (w.toNat / 2 ^ 20) 4
  have hs := Nat.and_two_pow_sub_one_eq_mod (w.toNat / 2 ^ 12) 8
  have hl := Nat.and_two_pow_sub_one_eq_mod w.toNat 12
  have h20 : (w >>> 20).toNat = w.toNat / 2 ^ 20 := by simp [Nat.shiftRight_eq_div_pow]
  have h12 : (w >>> 12).toNat = w.toNat / 2 ^ 12 := by simp [Nat.shiftRight_eq_div_pow]
  simp only [UInt32.toNat_toUInt8, UInt32.toNat_and, h20, h12, UInt32.reduceToNat,
    Nat.reducePow, Nat.reduceSub] at hf hs hl ⊢
  omega

/-- The three low bytes of a word. -/
private theorem drop_u32ToBe (w : UInt32) : (u32ToBe w).drop 1 =
    [UInt8.ofNat (w.toNat / 2 ^ 16), UInt8.ofNat (w.toNat / 2 ^ 8), UInt8.ofNat w.toNat] := by
  simp [u32ToBe]

/-! ### Records as a self-delimiting code -/

/-- The records that can be transmitted: no field carries its reserved zero, and every field
fits. -/
def Valid (r : Record) : Prop :=
  (1 ≤ r.format.toNat ∧ r.format.toNat ≤ 15) ∧ 1 ≤ r.schemaVersion.toNat ∧
    1 ≤ r.body.length ∧ r.body.length ≤ maxBody

instance (r : Record) : Decidable r.Valid := inferInstanceAs (Decidable (_ ∧ _))

/-- A record header is three octets. -/
@[simp] theorem length_headerBytes (r : Record) : r.headerBytes.length = recordHeaderLen := by
  simp [headerBytes]

/-- A record on the wire is as long as `wire_len` says. -/
@[simp] theorem length_toBytes (r : Record) : r.toBytes.length = r.wireLen := by
  simp [toBytes, wireLen]

/-- `decode` on an input that holds at least a header. -/
private theorem decode_cons (b0 b1 b2 : UInt8) (rest : Bytes) :
    decode (b0 :: b1 :: b2 :: rest) =
      if ((wordOf b0 b1 b2 >>> 20) &&& 0x0F).toUInt8 = 0 then
        .error (.framing "format 0x00 is invalid")
      else if ((wordOf b0 b1 b2 >>> 12) &&& 0xFF).toUInt8 = 0 then
        .error (.framing "schema_version 0x00 is invalid")
      else if (wordOf b0 b1 b2 &&& 0xFFF).toNat = 0 then .error (.framing "size 0 is invalid")
      else if rest.length < (wordOf b0 b1 b2 &&& 0xFFF).toNat then
        .error (.framing "record body overruns payload")
      else .ok (⟨((wordOf b0 b1 b2 >>> 20) &&& 0x0F).toUInt8,
        ((wordOf b0 b1 b2 >>> 12) &&& 0xFF).toUInt8,
        rest.take (wordOf b0 b1 b2 &&& 0xFFF).toNat⟩,
        recordHeaderLen + (wordOf b0 b1 b2 &&& 0xFFF).toNat) := by
  have hlen : ¬(b0 :: b1 :: b2 :: rest).length < recordHeaderLen := by simp [recordHeaderLen]
  have hover : ∀ n, (b0 :: b1 :: b2 :: rest).length < recordHeaderLen + n ↔ rest.length < n := by
    intro n
    simp only [List.length_cons, recordHeaderLen]
    omega
  have hbody : ∀ n, ((b0 :: b1 :: b2 :: rest).take (recordHeaderLen + n)).drop recordHeaderLen
      = rest.take n := by
    intro n
    simp [Nat.add_comm 3 n]
  rw [decode, if_neg hlen]
  simp only [List.getElem!_cons_zero, List.getElem!_cons_succ, hover, hbody]

/-- The word read back from a written header is the one that was written. -/
private theorem toBytes_eq_cons (r : Record) : ∃ b0 b1 b2,
    r.toBytes = b0 :: b1 :: b2 :: r.body ∧ wordOf b0 b1 b2 = r.headerWord := by
  refine ⟨_, _, _, by rw [toBytes, headerBytes, drop_u32ToBe]; rfl, ?_⟩
  have hf : r.format.toNat % 16 < 16 := Nat.mod_lt _ (by decide)
  have hs : r.schemaVersion.toNat < 256 := r.schemaVersion.toNat_lt
  have hb : r.body.length % 4096 < 4096 := Nat.mod_lt _ (by decide)
  have hw := r.toNat_headerWord
  rw [← UInt32.toNat_inj, toNat_wordOf]
  simp only [UInt8.toNat_ofNat']
  omega

/-- Reading undoes writing, whatever follows. -/
private theorem decode_toBytes_append {r : Record} (h : r.Valid) (rest : Bytes) :
    decode (r.toBytes ++ rest) = .ok (r, r.wireLen) := by
  obtain ⟨⟨hf1, hf⟩, hs1, hb1, hb⟩ := h
  obtain ⟨b0, b1, b2, hbytes, hword⟩ := r.toBytes_eq_cons
  have hs : r.schemaVersion.toNat < 256 := r.schemaVersion.toNat_lt
  have hw := r.toNat_headerWord
  obtain ⟨h20, h12, hlow⟩ := toNat_fields r.headerWord
  rw [maxBody] at hb
  have hformat : ((r.headerWord >>> 20) &&& 0x0F).toUInt8 = r.format := by
    rw [← UInt8.toNat_inj, h20]
    omega
  have hschema : ((r.headerWord >>> 12) &&& 0xFF).toUInt8 = r.schemaVersion := by
    rw [← UInt8.toNat_inj, h12]
    omega
  have hsize : (r.headerWord &&& 0xFFF).toNat = r.body.length := by omega
  have hf0 : r.format ≠ 0 := by rintro h0; simp [h0] at hf1
  have hs0 : r.schemaVersion ≠ 0 := by rintro h0; simp [h0] at hs1
  have hlen : ¬(r.body ++ rest).length < r.body.length := by simp
  rw [hbytes, List.cons_append, List.cons_append, List.cons_append, decode_cons, hword, hformat,
    hschema, hsize, if_neg hf0, if_neg hs0, if_neg (by omega), if_neg hlen, List.take_left]
  rfl

/-- A header word determines its three bytes. -/
private theorem wordOf_inj {b0 b1 b2 c0 c1 c2 : UInt8} (h : wordOf b0 b1 b2 = wordOf c0 c1 c2) :
    b0 = c0 ∧ b1 = c1 ∧ b2 = c2 := by
  have hb0 : b0.toNat < 256 := b0.toNat_lt
  have hb1 : b1.toNat < 256 := b1.toNat_lt
  have hb2 : b2.toNat < 256 := b2.toNat_lt
  have hc0 : c0.toNat < 256 := c0.toNat_lt
  have hc1 : c1.toNat < 256 := c1.toNat_lt
  have hc2 : c2.toNat < 256 := c2.toNat_lt
  rw [← UInt32.toNat_inj, toNat_wordOf, toNat_wordOf] at h
  refine ⟨?_, ?_, ?_⟩ <;> rw [← UInt8.toNat_inj] <;> omega

/-- The header written from the fields read is the header that was read. -/
private theorem headerWord_of_fields {b0 b1 b2 : UInt8} {body : Bytes}
    (hbody : body.length = (wordOf b0 b1 b2 &&& 0xFFF).toNat) :
    headerWord ⟨((wordOf b0 b1 b2 >>> 20) &&& 0x0F).toUInt8,
      ((wordOf b0 b1 b2 >>> 12) &&& 0xFF).toUInt8, body⟩ = wordOf b0 b1 b2 := by
  have hb0 : b0.toNat < 256 := b0.toNat_lt
  have hb1 : b1.toNat < 256 := b1.toNat_lt
  have hb2 : b2.toNat < 256 := b2.toNat_lt
  have hword := toNat_wordOf b0 b1 b2
  obtain ⟨h20, h12, hlow⟩ := toNat_fields (wordOf b0 b1 b2)
  rw [← UInt32.toNat_inj, toNat_headerWord]
  dsimp only
  omega

/-- What is read is a valid record written at the front of the input. -/
private theorem toBytes_of_decode {buf : Bytes} {r : Record} {n : ℕ} (h : decode buf = .ok (r, n)) :
    r.Valid ∧ n = r.wireLen ∧ ∃ rest, buf = r.toBytes ++ rest := by
  obtain _ | ⟨b0, _ | ⟨b1, _ | ⟨b2, rest⟩⟩⟩ := buf
  · simp [decode] at h
  · simp [decode] at h
  · simp [decode] at h
  rw [decode_cons] at h
  -- every check passed
  split_ifs at h with hf hs hz hlen
  obtain ⟨rfl, rfl⟩ := Prod.mk.inj (Except.ok.inj h)
  have hbody : (rest.take (wordOf b0 b1 b2 &&& 0xFFF).toNat).length =
      (wordOf b0 b1 b2 &&& 0xFFF).toNat := by
    rw [List.length_take]
    omega
  have hvalid : Valid ⟨((wordOf b0 b1 b2 >>> 20) &&& 0x0F).toUInt8,
      ((wordOf b0 b1 b2 >>> 12) &&& 0xFF).toUInt8,
      rest.take (wordOf b0 b1 b2 &&& 0xFFF).toNat⟩ := by
    obtain ⟨h20, -, hlow⟩ := toNat_fields (wordOf b0 b1 b2)
    have hf1 := mt UInt8.toNat_inj.mp hf
    have hs1 := mt UInt8.toNat_inj.mp hs
    rw [UInt8.toNat_zero] at hf1 hs1
    simp only [Valid, hbody, maxBody]
    omega
  refine ⟨hvalid, by rw [wireLen, hbody], rest.drop (wordOf b0 b1 b2 &&& 0xFFF).toNat, ?_⟩
  obtain ⟨c0, c1, c2, hbytes, hwritten⟩ := toBytes_eq_cons
    ⟨((wordOf b0 b1 b2 >>> 20) &&& 0x0F).toUInt8, ((wordOf b0 b1 b2 >>> 12) &&& 0xFF).toUInt8,
      rest.take (wordOf b0 b1 b2 &&& 0xFFF).toNat⟩
  rw [headerWord_of_fields hbody] at hwritten
  obtain ⟨rfl, rfl, rfl⟩ := wordOf_inj hwritten
  rw [hbytes, List.cons_append, List.cons_append, List.cons_append, List.take_append_drop]

/-- Records as a self-delimiting code. -/
def codec : Codec Record UInt8 Error where
  Valid := Valid
  enc := toBytes
  dec := decode
  enc_pos r := by simp [wireLen]
  dec_enc r h rest := by rw [decode_toBytes_append h, length_toBytes]
  enc_dec buf r n h := by
    obtain ⟨hv, rfl, hbuf⟩ := toBytes_of_decode h
    exact ⟨hv, (length_toBytes r).symm, hbuf⟩

end Record

end Catp
