import Catp.Wire.Decode

/-!
# The two encoders

`encode_into` writes a datagram into the caller's buffer, `encode` into one of its own, of exactly
the size it needs. `encodeInto_agrees` compares them: they refuse the same datagrams, apart from
the room in the buffer and the ceiling on the size, and write the same bytes.

The buffer is compared by its length only: what is in it before does not matter, and behind the
bytes written it stays as it was. A call of `encode_into` that fails may have written part of the
payload; the model hands back no buffer then, and nothing is said of it. `usizeMax` is the largest
size of the platform; a buffer of the source cannot be longer, so `encode` under that ceiling
refuses nothing a buffer would take.
-/

namespace Catp

namespace Datagram

variable {P : Primitives} {d : Datagram} {secret : DeviceSecret} {e : UInt32} {dir : Direction}

/-- The datagrams that some buffer takes: the suite is registered, the record header can express
the bodies, and the suite can stage the message. -/
def Encodable (d : Datagram) (cipher : CipherId) : Prop :=
  CipherId.fromU8 d.cipherId = some cipher ∧ d.Writable ∧ Stageable cipher (13 + d.payloadLen)

/-- Bytes written. -/
def wireLen (d : Datagram) (cipher : CipherId) : ℕ := headerLen + d.payloadLen + cipher.tagLen

theorem encodeInto_ok_iff {out out' : Bytes} {n : ℕ} :
    d.encodeInto P secret e dir out = .ok (n, out') ↔ ∃ cipher, d.Encodable cipher ∧
      d.wireLen cipher ≤ out.length ∧ n = d.wireLen cipher ∧
      out' = d.wire P secret e dir cipher ++ out.drop n := by
  rw [encodeInto_eq_ok_iff]
  refine exists_congr fun cipher => ?_
  constructor
  · rintro ⟨hcipher, hroom, hwr, hstage, hn, hout⟩
    exact ⟨⟨hcipher, hwr, hstage⟩, hroom, hn, hout⟩
  · rintro ⟨⟨hcipher, hwr, hstage⟩, hroom, hn, hout⟩
    exact ⟨hcipher, hroom, hwr, hstage, hn, hout⟩

private theorem length_wire_eq (cipher : CipherId) :
    (d.wire P secret e dir cipher).length = d.wireLen cipher :=
  d.length_wire P secret e dir cipher

/-- `encode` under a ceiling, for a datagram that some buffer takes. -/
private theorem encode_of_encodable {cipher : CipherId} (h : d.Encodable cipher) (max : ℕ) :
    d.encode P secret e dir max =
      if d.wireLen cipher ≤ max then .ok (d.wire P secret e dir cipher)
      else .error (.oversize (d.wireLen cipher)) := by
  obtain ⟨hcipher, hwr, hstage⟩ := h
  have hlen : (d.wire P secret e dir cipher).length = d.wireLen cipher := length_wire_eq cipher
  have hinto : d.encodeInto P secret e dir
      (List.replicate (headerLen + d.payloadLen + cipher.tagLen) 0) =
      .ok (d.wireLen cipher, d.wire P secret e dir cipher) := by
    refine encodeInto_ok_iff.mpr ⟨cipher, ⟨hcipher, hwr, hstage⟩, ?_, rfl, ?_⟩
    · rw [List.length_replicate]
      rfl
    · rw [List.drop_eq_nil_of_le (by rw [List.length_replicate]; rfl), List.append_nil]
  rw [encode, hcipher]
  simp only [hinto, bind, Except.bind, List.take_of_length_le hlen.le, hlen]
  by_cases hmax : d.wireLen cipher ≤ max
  · rw [if_pos hmax, if_neg (Nat.not_lt.mpr hmax)]
    rfl
  · rw [if_neg hmax, if_pos (Nat.lt_of_not_le hmax)]
    rfl

/-- **The buffer-writing encoder agrees with the allocating one.** A buffer is no longer than the
largest `usize`. -/
theorem encodeInto_agrees (P : Primitives) (d : Datagram) (secret : DeviceSecret) (e : UInt32)
    (dir : Direction) {usizeMax : ℕ} {out : Bytes} (hout : out.length ≤ usizeMax) :
    (∀ n, (∃ out', d.encodeInto P secret e dir out = .ok (n, out')) ↔
      ∃ cipher, CipherId.fromU8 d.cipherId = some cipher ∧
        headerLen + d.payloadLen + cipher.tagLen ≤ out.length ∧
        (∀ r ∈ d.records, 1 ≤ r.body.length ∧ r.body.length ≤ 4095) ∧
        (cipher = .chaCha20Poly1305 → 13 + d.payloadLen ≤ 512) ∧
        n = headerLen + d.payloadLen + cipher.tagLen) ∧
    (∀ n out', d.encodeInto P secret e dir out = .ok (n, out') →
      d.encode P secret e dir usizeMax = .ok (out'.take n) ∧ out'.drop n = out.drop n ∧
        out'.length = out.length ∧
        ∀ max, d.encode P secret e dir max =
          if n ≤ max then .ok (out'.take n) else .error (.oversize n)) ∧
    ((∀ buf : Bytes, buf.length ≤ usizeMax → ∀ r, d.encodeInto P secret e dir buf ≠ .ok r) →
      ∃ err, d.encode P secret e dir usizeMax = .error err) := by
  refine ⟨fun n => ?_, fun n out' h => ?_, fun h => ?_⟩
  · constructor
    · rintro ⟨out', h⟩
      obtain ⟨cipher, hcipher, hroom, hwr, hstage, hn, -⟩ := encodeInto_eq_ok_iff.mp h
      exact ⟨cipher, hcipher, hroom, hwr, hstage, hn⟩
    · rintro ⟨cipher, hcipher, hroom, hwr, hstage, hn⟩
      exact ⟨_, encodeInto_eq_ok_iff.mpr ⟨cipher, hcipher, hroom, hwr, hstage, hn, rfl⟩⟩
  · obtain ⟨cipher, henc, hroom, rfl, rfl⟩ := encodeInto_ok_iff.mp h
    have hlen : (d.wire P secret e dir cipher).length = d.wireLen cipher := length_wire_eq cipher
    rw [List.take_left' hlen, List.drop_left' hlen, encode_of_encodable henc,
      if_pos (hroom.trans hout)]
    refine ⟨rfl, rfl, ?_, fun max => encode_of_encodable henc max⟩
    rw [List.length_append, List.length_drop, hlen]
    exact Nat.add_sub_cancel' hroom
  · rcases henc : d.encode P secret e dir usizeMax with err | w
    · exact ⟨err, rfl⟩
    · obtain ⟨cipher, hcipher, hwr, hstage, hmax, -⟩ := encode_eq_ok_iff.mp henc
      refine absurd (encodeInto_ok_iff.mpr ⟨cipher, ⟨hcipher, hwr, hstage⟩, ?_, rfl, rfl⟩)
        (h (List.replicate (d.wireLen cipher) 0) ?_ _)
      · rw [List.length_replicate]
      · rw [List.length_replicate]
        exact hmax

/-- The vector's datagram in a buffer of two bytes more, and under a ceiling of a byte less. -/
theorem encodeInto_agrees_vector :
    vectorDatagram.encodeInto vectorPrimitives vectorSecret 13281250 .nodeToCollector
        (List.replicate 22 7) = .ok (20, vectorWire ++ [7, 7]) ∧
      vectorDatagram.encode vectorPrimitives vectorSecret 13281250 .nodeToCollector 19 =
        .error (.oversize 20) := by
  have hinto : vectorDatagram.encodeInto vectorPrimitives vectorSecret 13281250 .nodeToCollector
      (List.replicate 22 7) = .ok (20, vectorWire ++ [7, 7]) := by decide
  refine ⟨hinto, ?_⟩
  have hagrees := encodeInto_agrees vectorPrimitives vectorDatagram vectorSecret 13281250
    .nodeToCollector (show (List.replicate 22 7 : Bytes).length ≤ 2 ^ 64 - 1 by decide)
  exact ((hagrees.2.1 20 _ hinto).2.2.2 19).trans (if_neg (by decide))

end Datagram

end Catp
