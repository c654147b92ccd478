import Catp.Checked.Core

/-!
# A message given in parts

The sender authenticates its header image and the payload as two slices, the receiver one
buffer. `macParts` is the routine of both, with its faults explicit and its staging loop for suite
`0x03` as the code has it. What it writes depends on the concatenation of the parts alone, the
message that `mac` is given, and so does whether it writes at all.

Parts of any length are looked at, not only those that fit an address space: the reported length
saturates (`saturateOversize`).

The staging loop and its saturating sum are compared with the concatenation in the module on the
core (`macParts_saturated`); the suites that hash their input need no buffer, and their law is
that of `StreamingMac`. What is left here is to read the three results off that equation:

* `macParts_eq_ok_iff`: with room for the tag and a message that can be staged, the tag of the
  concatenation is written in front, and the rest of the buffer stays.
* `macParts_eq_oversize_iff`: only suite `0x03` refuses a message for its length, and only above
  `maxDatagramIpv4` octets in all.
* `macParts_split`: so any two ways to split a message are treated alike, and like `mac`.
-/

namespace Catp.Checked

open Faults

variable {usizeMax : ℕ} {P : Primitives} {cipher : CipherId} {key : Vector UInt8 32}
  {parts : List Bytes} {off : UInt32} {out : Bytes}

/-- Renaming the errors changes no success. -/
theorem mapError_eq_ok_iff {ε ε' α : Type} {f : ε → ε'} {x : Except ε α} {a : α} :
    x.mapError f = .ok a ↔ x = .ok a := by
  cases x with
  | error e => exact ⟨nofun, nofun⟩
  | ok b => simp [Except.mapError]

/-- Saturating makes no other error one of length. -/
theorem saturateOversize_eq_oversize_iff {α : Type} {x : Except Error α} :
    (∃ n, x.mapError (saturateOversize usizeMax) = .error (.oversize n)) ↔
      ∃ n, x = .error (.oversize n) := by
  cases x with
  | error e => cases e <;> simp [Except.mapError, saturateOversize]
  | ok b => simp [Except.mapError]

section

variable (h16 : 2 ^ 16 ≤ usizeMax + 1)

include h16

/-- What the routine writes, and when: the tag of the concatenated parts, over the first bytes of
a buffer with room for it. -/
theorem macParts_eq_ok_iff {out' : Bytes} :
    macParts usizeMax P cipher key parts off out = .ok (.ok out') ↔
      cipher.tagLen ≤ out.length ∧ Stageable cipher parts.flatten.length ∧
        out' = tag P cipher key off parts.flatten ++ out.drop cipher.tagLen := by
  rw [macParts_saturated h16, Except.ok.injEq, mapError_eq_ok_iff,
    Catp.macParts_eq_ok_iff]

/-- However the message is split, it is refused by its length in all. -/
theorem macParts_eq_oversize_iff :
    (∃ n, macParts usizeMax P cipher key parts off out = .ok (.error (.oversize n))) ↔
      cipher.tagLen ≤ out.length ∧ ¬Stageable cipher parts.flatten.length := by
  simp only [macParts_saturated h16, Except.ok.injEq]
  rw [saturateOversize_eq_oversize_iff, Catp.macParts_eq_oversize_iff]

/-- A contiguous message has a tag exactly if it can be staged. -/
theorem mac_eq_ok_iff {msg t : Bytes} :
    mac usizeMax P cipher key msg off = .ok (.ok t) ↔
      Stageable cipher msg.length ∧ t = tag P cipher key off msg := by
  rw [mac, macParts_eq_ok_iff h16, List.length_replicate, List.drop_replicate, Nat.sub_self,
    List.replicate_zero, List.append_nil, List.flatten_singleton]
  exact and_iff_right (Nat.le_refl _)

/-- **The tag does not depend on how the message is split.** The routine returns, whatever the
parts. It succeeds when `mac` over the concatenation does and the buffer has room for the tag, and
then writes the tag of `mac` over the first bytes of the buffer, leaving the others as they were.
Suite `0x03` refuses exactly the messages longer than its staging buffer. -/
theorem macParts_split (P : Primitives) (cipher : CipherId) (key : Vector UInt8 32)
    (parts : List Bytes) (off : UInt32) (out : Bytes) :
    Returns (macParts usizeMax P cipher key parts off out) ∧
      (∀ out', macParts usizeMax P cipher key parts off out = .ok (.ok out') ↔
        cipher.tagLen ≤ out.length ∧
          ∃ t, mac usizeMax P cipher key parts.flatten off = .ok (.ok t) ∧
            t.length = cipher.tagLen ∧ out' = t ++ out.drop cipher.tagLen) ∧
      ((∃ n, macParts usizeMax P cipher key parts off out = .ok (.error (.oversize n))) ↔
        cipher.tagLen ≤ out.length ∧ cipher = .chaCha20Poly1305 ∧
          512 < parts.flatten.length) := by
  refine ⟨.of_eq (macParts_saturated h16 cipher key parts off out), fun out' => ?_, ?_⟩
  · rw [macParts_eq_ok_iff h16]
    constructor
    · rintro ⟨hout, hfit, heq⟩
      exact ⟨hout, _, (mac_eq_ok_iff h16).mpr ⟨hfit, rfl⟩, length_tag P cipher key off _, heq⟩
    · rintro ⟨hout, t, hmac, -, heq⟩
      obtain ⟨hfit, rfl⟩ := (mac_eq_ok_iff h16).mp hmac
      exact ⟨hout, hfit, heq⟩
  · rw [macParts_eq_oversize_iff h16]
    refine and_congr_right fun _ => ?_
    rw [Stageable, Classical.not_imp, Nat.not_le]

end

/-- Suite `0x03` on three parts, the middle one empty: the total is what counts. -/
theorem macParts_split_threeParts :
    macParts (2 ^ 64 - 1) (.ofTable vectorKey []) .chaCha20Poly1305 vectorKey
        [List.replicate 400 1, [], List.replicate 112 2] 4096 (List.replicate 17 0xFF) =
      .ok (.ok (List.replicate 16 0 ++ [0xFF])) ∧
    ∃ n, macParts (2 ^ 64 - 1) (.ofTable vectorKey []) .chaCha20Poly1305 vectorKey
        [List.replicate 400 1, [], List.replicate 113 2] 4096 (List.replicate 17 0xFF) =
      .ok (.error (.oversize n)) := by
  have h16 : 2 ^ 16 ≤ 2 ^ 64 - 1 + 1 := by norm_num
  obtain ⟨-, hok, -⟩ := macParts_split h16 (.ofTable vectorKey []) .chaCha20Poly1305 vectorKey
    [List.replicate 400 1, [], List.replicate 112 2] 4096 (List.replicate 17 0xFF)
  obtain ⟨-, -, hover⟩ := macParts_split h16 (.ofTable vectorKey []) .chaCha20Poly1305 vectorKey
    [List.replicate 400 1, [], List.replicate 113 2] 4096 (List.replicate 17 0xFF)
  constructor
  · refine (hok _).mpr ⟨by decide, _, (mac_eq_ok_iff h16).mpr ⟨?_, rfl⟩, length_tag _ _ _ _ _, rfl⟩
    intro _
    simp only [List.flatten_cons, List.flatten_nil, List.length_append, List.length_replicate,
      List.length_nil, maxDatagramIpv4]
    decide
  · refine hover.mpr ⟨by decide, rfl, ?_⟩
    simp only [List.flatten_cons, List.flatten_nil, List.length_append, List.length_replicate,
      List.length_nil]
    decide

end Catp.Checked
