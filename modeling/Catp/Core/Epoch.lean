import Catp.Core.Registry

/-!
# Epoch arithmetic

The epoch part of `src/lib.rs`: the epoch and tick of a clock reading, and the reconstruction
of a full epoch from the four bits a header transmits. `reconstructEpoch_eq_some_iff` gives
the reconstruction as arithmetic: the acceptance window is the local epoch and the one before
it, and the four bits select between them.

An epoch lasts 128 seconds and a tick is 1/4096 of a second, so an epoch has `2 ^ 19` ticks and
its number takes 32 bits until far beyond any clock's life. The conversions are the code's own,
with the casts that drop the upper bits.

`InWindow l e` is the acceptance window of section 9.3 of `docs/PROTOCOL.md`: the epoch `e` is the
local epoch `l` or the one before it. It is stated without subtraction, as the code's
`saturating_add` has it, so that epoch 0 has no predecessor and nothing wraps. `reconstructEpoch`
picks the member of the window with the given four low bits; two neighbouring epochs never share
them, which is why there is at most one.
-/

namespace Catp

/-- `epoch_id = floor(unix_time / 128)`. -/
def epochIdAt (unixSecs : UInt64) : UInt32 := (unixSecs / epochSecs).toUInt32

/-- Tick within the epoch for a given instant. -/
def epochOffsetAt (unixSecs : UInt64) (nanos : UInt32) : UInt32 :=
  let intoEpoch := unixSecs % epochSecs
  let ticks := intoEpoch * ticksPerSec + nanos.toUInt64 * ticksPerSec / 1000000000
  (ticks % ticksPerEpoch.toUInt64).toUInt32

/-- Reconstruct the full epoch from 4 transmitted bits. The candidates are the local epoch
and the one before it. -/
def reconstructEpoch (localEpoch : UInt32) (epochLow : UInt8) : Option UInt32 :=
  let low := epochLow &&& 0x0F
  if (localEpoch &&& 0x0F).toUInt8 = low then some localEpoch
  else if localEpoch > 0 ∧ ((localEpoch - 1) &&& 0x0F).toUInt8 = low then some (localEpoch - 1)
  else none

/-- The epochs a receiver at `localEpoch` accepts: its own and the preceding one. -/
def InWindow (localEpoch epoch : UInt32) : Prop :=
  epoch ≤ localEpoch ∧ localEpoch.toNat ≤ epoch.toNat + 1

instance (l e : UInt32) : Decidable (InWindow l e) := inferInstanceAs (Decidable (_ ∧ _))

/-- The local epoch itself is accepted. -/
theorem inWindow_self (e : UInt32) : InWindow e e := ⟨UInt32.le_refl e, Nat.le_succ _⟩

/-- The four transmitted bits as a remainder. -/
theorem toNat_low_nibble (x : UInt32) : (x &&& 0x0F).toUInt8.toNat = x.toNat % 16 := by
  have hmask : x.toNat &&& 15 = x.toNat % 16 := Nat.and_two_pow_sub_one_eq_mod x.toNat 4
  rw [UInt32.toNat_toUInt8, UInt32.toNat_and]
  have hlit : (0x0F : UInt32).toNat = 15 := rfl
  rw [hlit, hmask]
  omega

private theorem toNat_and_0x0F (x : UInt8) : (x &&& 0x0F).toNat = x.toNat % 16 := by
  simpa using Nat.and_two_pow_sub_one_eq_mod x.toNat 4

/-- The comparison of reconstruction, as arithmetic. -/
private theorem low_eq_iff (x : UInt32) (low : UInt8) :
    (x &&& 0x0F).toUInt8 = low &&& 0x0F ↔ x.toNat % 16 = low.toNat % 16 := by
  rw [← UInt8.toNat_inj, toNat_low_nibble, toNat_and_0x0F]

/-- An epoch is reconstructed exactly if it is accepted and has the four bits of the header. -/
theorem reconstructEpoch_eq_some_iff {l e : UInt32} {low : UInt8} :
    reconstructEpoch l low = some e ↔ InWindow l e ∧ e.toNat % 16 = low.toNat % 16 := by
  have hsub : l > 0 → (l - 1).toNat = l.toNat - 1 := fun h =>
    UInt32.toNat_sub_of_le l 1 (by
      rw [UInt32.le_iff_toNat_le]; exact (UInt32.lt_iff_toNat_lt).mp h)
  unfold reconstructEpoch InWindow
  simp only [low_eq_iff, UInt32.le_iff_toNat_le, gt_iff_lt]
  split_ifs with h1 h2
  · simp only [Option.some.injEq, ← UInt32.toNat_inj]
    omega
  · have := hsub h2.1
    simp only [Option.some.injEq, ← UInt32.toNat_inj]
    omega
  · simp only [false_iff]
    intro ⟨⟨hle, hge⟩, hlow⟩
    rcases Nat.lt_or_ge e.toNat l.toNat with hlt | hge'
    · have hpos : (0 : UInt32) < l := UInt32.lt_iff_toNat_lt.mpr (by simp; omega)
      have := hsub hpos
      exact h2 ⟨hpos, by omega⟩
    · exact h1 (by omega)

/-- What is reconstructed lies in the acceptance window. -/
theorem InWindow.of_reconstructEpoch {l e : UInt32} {low : UInt8}
    (h : reconstructEpoch l low = some e) : InWindow l e :=
  (reconstructEpoch_eq_some_iff.mp h).1

end Catp
