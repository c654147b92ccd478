import Catp.Lib.Faults
import Catp.Wire.Control

/-!
# Control payloads with their faults

`parse` of `src/control.rs` with the reads, the sums and the assertion of the code. A count is a
byte, so no sum comes near the largest `usize`, and every read lies behind a check of the length
(`parse_eq`). `control_codec` puts this together with what the total functions compute.

`usizeMax` stands for the largest `usize` of the target, as in the modules on the core and on the
wire. The functions keep the order of the source: the length is checked, then the octets are read,
so that a read in the wrong place would show as a fault here.

* `parseCapability_eq`, `parse_eq`: for every payload, of any length, the two parsers return what
  `Capability.parse` and `Control.parse` return, and stop nowhere. The one assertion of the
  source, that no octet is left over behind the pairs, follows from the length it has just
  checked.
* `control_codec`: parsing inverts encoding on every control message, and every payload accepted
  is one that `encode` writes.
-/

namespace Catp.Checked

open Faults

section

variable (usizeMax : ℕ)

/-- `Capability::parse`: each list is cut off behind its count, once the length allows it. -/
def Capability.parse (p : Bytes) : Faulting (Except Error Capability) :=
  if p.length < 3 then return .error (.framing "CAPABILITY_ADVERTISE shorter than 3 bytes")
  else do
    let maxVersion ← index p 0
    let nc := (← index p 1).toNat
    if p.length < (← add usizeMax (← add usizeMax 2 nc) 1) then
      return .error (.framing "cipher list overruns payload")
    else do
      let behind ← add usizeMax 2 nc
      let ciphers ← slice p 2 behind
      let nl := (← index p behind).toNat
      if p.length ≠ (← add usizeMax (← add usizeMax 3 nc) (← mul usizeMax nl 2)) then
        return .error (.framing "CAPABILITY_ADVERTISE length mismatch")
      else do
        let rest ← slice p (← add usizeMax 3 nc) p.length
        let (layoutPairs, remainder) := asChunks2 rest
        assert remainder.isEmpty
        return .ok ⟨maxVersion, ciphers, layoutPairs⟩

/-- `Control::parse`: each layout checks its length before an octet is read. -/
def Control.parse (mt : MsgType) (p : Bytes) : Faulting (Except Error Control) :=
  match mt with
  | .epochAnnounce =>
    if p.length ≠ 4 then return .error (.framing "EPOCH_ANNOUNCE payload is not 4 bytes")
    else do
      let b := [← index p 0, ← index p 1, ← index p 2, ← index p 3]
      return .ok (.epochAnnounce (u32OfBe b))
  | .timeAnnounce =>
    if p.length ≠ 8 then return .error (.framing "TIME_ANNOUNCE payload is not 8 bytes")
    else do
      let b ← copyInto (List.replicate 8 0) 0 8 p
      return .ok (.timeAnnounce (i64OfBe b))
  | .heartbeat =>
    if !p.isEmpty then return .error (.framing "HEARTBEAT payload is not empty")
    else return .ok .heartbeat
  | .capabilityAdvertise => do
    return (← Capability.parse usizeMax p).map .capability
  | _ => return .error (.framing "not a control message type")

end

section

variable {usizeMax : ℕ} (h16 : 2 ^ 16 ≤ usizeMax + 1)
include h16

/-- `Capability::parse` stops nowhere, whatever the payload. -/
private theorem parseCapability_eq (p : Bytes) :
    Capability.parse usizeMax p = .ok (Catp.Capability.parse p) := by
  rw [Capability.parse, Catp.Capability.parse]
  refine ite_eq (fun _ => rfl) fun h3 => ?_
  have hnc := p[1]!.toNat_lt
  rw [index_eq (show 0 < p.length by omega), ok_bind, index_eq (show 1 < p.length by omega),
    ok_bind]
  dsimp only
  rw [add_eq (by omega), ok_bind, add_eq (by omega), ok_bind]
  refine ite_eq (fun _ => rfl) fun hlong => ?_
  have hnl := p[2 + p[1]!.toNat]!.toNat_lt
  rw [ok_bind, slice_eq (by omega) (by omega), ok_bind, index_eq (by omega), ok_bind]
  rw [add_eq (by omega), ok_bind, mul_eq (by omega), ok_bind, add_eq (by omega), ok_bind]
  refine ite_eq (fun _ => rfl) fun hlen => ?_
  obtain ⟨layouts, hlayouts, -⟩ := exists_pairBytes
    (show (p.drop (3 + p[1]!.toNat)).length = p[2 + p[1]!.toNat]!.toNat * 2 by
      rw [List.length_drop]
      omega)
  rw [ok_bind, slice_to_end (by omega), ok_bind, hlayouts, asChunks2_pairBytes]
  rfl

/-- **`parse` reads only inside its payload.** -/
theorem parse_eq (mt : MsgType) (p : Bytes) :
    Control.parse usizeMax mt p = .ok (Catp.Control.parse mt p) := by
  cases mt with
  | epochAnnounce =>
    refine ite_eq (fun _ => rfl) fun hlen => ?_
    obtain ⟨a, b, c, d, rfl⟩ : ∃ a b c d, p = [a, b, c, d] := by
      match p, not_not.mp hlen with
      | [a, b, c, d], _ => exact ⟨a, b, c, d, rfl⟩
    rfl
  | timeAnnounce =>
    refine ite_eq (fun _ => rfl) fun hlen => ?_
    have hcopy : copyInto (List.replicate 8 0) 0 8 p = .ok p := by
      rw [copyInto_eq (by simp) (by omega)]
      simp
    rw [hcopy]
    rfl
  | heartbeat => exact ite_eq (fun _ => rfl) fun _ => rfl
  | capabilityAdvertise =>
    rw [Control.parse, parseCapability_eq h16]
    rfl
  | message | event | alarm | number | series | timeRequest => rfl

/-- **The control codec.** Parsing inverts encoding, each way; capabilities encode unless a list
is too long for its count; and the accepted payloads are those whose counts, read within the
payload, account for its length. -/
theorem control_codec :
    (∀ (c : Catp.Control) p, c.encode = .ok p →
      Control.parse usizeMax c.msgType p = .ok (.ok c)) ∧
    (∀ mt p c, Control.parse usizeMax mt p = .ok (.ok c) → c.msgType = mt ∧ c.encode = .ok p) ∧
    (∀ c : Catp.Capability, (∃ e, c.encode = .error e) ↔
      255 < c.ciphers.length ∨ 255 < c.layouts.length) ∧
    (∀ p, (∃ c, Capability.parse usizeMax p = .ok (.ok c)) ↔
      ∃ nc nl : UInt8, p[1]? = some nc ∧ p[2 + nc.toNat]? = some nl ∧
        p.length = 3 + nc.toNat + 2 * nl.toNat) ∧
    ∀ mt p, Returns (Control.parse usizeMax mt p) := by
  refine ⟨fun c p h => ?_, fun mt p c h => ?_, fun c => ?_, fun p => ?_, fun mt p => ?_⟩
  · rw [parse_eq h16, Catp.Control.parse_eq_ok_iff.mpr ⟨rfl, h⟩]
  · rw [parse_eq h16] at h
    exact Catp.Control.parse_eq_ok_iff.mp (Except.ok.inj h)
  · exact Catp.Capability.exists_encode_error_iff
  · simp only [parseCapability_eq h16, Except.ok.injEq]
    exact Catp.Capability.exists_parse_iff_length
  · exact .of_eq (parse_eq h16 mt p)

end

/-- A capability of two suites and one layout. -/
theorem control_codec_capability :
    Control.parse (2 ^ 64 - 1) .capabilityAdvertise [1, 2, 1, 4, 1, 2, 3] =
      .ok (.ok (.capability ⟨1, [1, 4], [(2, 3)]⟩)) :=
  (control_codec (by decide)).1 (.capability ⟨1, [1, 4], [(2, 3)]⟩) _ rfl

end Catp.Checked
