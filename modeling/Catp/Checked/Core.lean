import Catp.Core.Crypto
import Catp.Core.Epoch
import Catp.Core.RateLimit
import Catp.Core.ReplayWindow
import Catp.Lib.Faults
import Catp.Wire.Fixed

/-!
# The core with its faults

The functions of `src/lib.rs` on the receive path, with every index, slice, copy, subtraction,
addition, remainder, shift and unwrap an operation that faults where Rust's panics, or overflows.
Each comes with an equation: it returns what its counterpart returns, and faults nowhere. The one
exception is the replay window, whose remainder by the number of entries is one by zero when that
number, `WORDS * 64` cut to 32 bits, is zero (`checkAndSet_eq`).

`usizeMax` is the largest `usize`, which is at least `2 ^ 16 - 1`. Constant indices into arrays
of a fixed length are checked by the compiler and stay as they are, and the saturating, wrapping
and checked operations of the source do not fault.

The equations come in the order of the source: the key schedule, the MAC routine with its staging
loop, the fixed layouts, the reconstruction of an epoch, the limiter and the window.

**How they are proved**: along the definitions. `ite_eq` goes under a branch that both sides
share, and the condition of the branch is what the next operation needs (an index below a length
just checked, a subtraction behind a comparison). Where lengths are added, a slice is at most half
of the address space long, and the sums stay below `usizeMax`; the theorems carry that bound as a
hypothesis on the buffer.

**The window**: `Checkable` says on which windows and offsets `checkAndSet` returns. It returns on
every window with entries, and on a window without entries only where the code looks at no index.
`checkAndSet_eq` and `checkAndSet_fault` are the two sides.
-/

namespace Catp.Checked

open Faults

/-! ### Key schedule -/

section

variable (P : Primitives)

/-- The HKDF info of an epoch key, copied piece by piece into an array of 14 bytes. -/
def epochKeyInfo (senderId epochId : UInt32) (dir : Direction) : Faulting Bytes := do
  let info := List.replicate 14 0
  let info ← copyInto info 0 5 [0x43, 0x41, 0x54, 0x50, 0x31]
  let info ← copyInto info 5 9 (u32ToBe senderId)
  let info ← copyInto info 9 13 (u32ToBe epochId)
  store info 13 dir.toU8

/-- The HKDF info of a time key, copied into an array of 15 bytes. -/
def timeKeyInfo (senderId : UInt32) (dir : Direction) : Faulting Bytes := do
  let info := List.replicate 15 0
  let info ← copyInto info 0 10 [0x43, 0x41, 0x54, 0x50, 0x31, 0x2D, 0x74, 0x69, 0x6D, 0x65]
  let info ← copyInto info 10 14 (u32ToBe senderId)
  store info 14 dir.toU8

/-- HKDF-Expand to 32 bytes is taken not to fail. -/
def epochKey (secret : DeviceSecret) (senderId epochId : UInt32) (dir : Direction) :
    Faulting (Vector UInt8 32) := do
  let info ← epochKeyInfo senderId epochId dir
  return P.hkdfExpand secret.bytes info

/-- The same for the time key. -/
def timeKey (secret : DeviceSecret) (senderId : UInt32) (dir : Direction) :
    Faulting (Vector UInt8 32) := do
  let info ← timeKeyInfo senderId dir
  return P.hkdfExpand secret.bytes info

/-- The key derivation writes inside its array. -/
@[simp] theorem epochKey_eq (secret : DeviceSecret) (s e : UInt32) (dir : Direction) :
    epochKey P secret s e dir = .ok (secret.epochKey P s e dir) := rfl

@[simp] theorem timeKey_eq (secret : DeviceSecret) (s : UInt32) (dir : Direction) :
    timeKey P secret s dir = .ok (secret.timeKey P s dir) := rfl

end

/-! ### Message authentication -/

section

variable (usizeMax : ℕ) (P : Primitives)

/-- The staging loop of suite `0x03`. The length in its error saturates. -/
def stageParts : List Bytes → Bytes → ℕ → Faulting (Except Error (Bytes × ℕ))
  | [], stage, used => return .ok (stage, used)
  | part :: parts, stage, used => do
    let space ← sub maxDatagramIpv4 used
    if part.length > space then return .error (.oversize (min (used + part.length) usizeMax))
    else
      let behind ← add usizeMax used part.length
      let stage ← copyInto stage used behind part
      stageParts parts stage behind

/-- Keying HMAC and sealing an empty plaintext are taken not to fail. -/
def macParts (cipher : CipherId) (key : Vector UInt8 32) (parts : List Bytes)
    (datagramOffset : UInt32) (out : Bytes) : Faulting (Except Error Bytes) :=
  if !cipher.implemented then return .error (.cipherUnimplemented cipher.toU8)
  else if out.length < cipher.tagLen then
    return .error (.bufferTooSmall out.length cipher.tagLen)
  else
    match cipher with
    | .hmacSha256T64 | .hmacSha256T32 => do
      let full ← slice (P.hmacSha256.mac key parts).toList 0 cipher.tagLen
      return .ok (← copyInto out 0 cipher.tagLen full)
    | .sipHash24 => do
      let sipKey ← unwrap (tryIntoArray (← slice key.toList 0 16) 16)
      return .ok (← copyInto out 0 cipher.tagLen (u64ToBe (P.sipHasher24.mac sipKey parts)))
    | .chaCha20Poly1305 => do
      let nonce ← copyInto (List.replicate 12 0) 8 12 (u32ToBe datagramOffset)
      match ← stageParts usizeMax parts (List.replicate maxDatagramIpv4 0) 0 with
      | .error e => return .error e
      | .ok (stage, used) =>
        let aad ← slice stage 0 used
        let tag ← slice (P.chaCha20Poly1305 key nonce aad).toList 0 cipher.tagLen
        return .ok (← copyInto out 0 cipher.tagLen tag)

/-- `mac`: the one part is the message, and the buffer is as long as the tag. -/
def mac (cipher : CipherId) (key : Vector UInt8 32) (msg : Bytes) (datagramOffset : UInt32) :
    Faulting (Except Error Bytes) :=
  macParts usizeMax P cipher key [msg] datagramOffset (List.replicate cipher.tagLen 0)

end

section

variable {usizeMax : ℕ} {P : Primitives} (h16 : 2 ^ 16 ≤ usizeMax + 1)

/-- A part that fits is staged inside the buffer, which keeps its length. -/
private theorem length_staged {part stage : Bytes} (hstage : stage.length = maxDatagramIpv4)
    {used : ℕ} (hused : used ≤ maxDatagramIpv4) (hfit : ¬part.length > maxDatagramIpv4 - used) :
    used + part.length ≤ maxDatagramIpv4 ∧
      (stage.take used ++ part ++ stage.drop (used + part.length)).length = maxDatagramIpv4 := by
  have hbehind : used + part.length ≤ maxDatagramIpv4 := by omega
  refine ⟨hbehind, ?_⟩
  rw [List.length_append, List.length_append, List.length_take, List.length_drop]
  omega

/-- The length reported of a message that does not fit, in `usize`. -/
def saturateOversize (usizeMax : ℕ) : Error → Error
  | .oversize n => .oversize (min n usizeMax)
  | e => e

include h16 in
/-- The loop never copies beyond the staging buffer, nor subtracts below zero. -/
private theorem stageParts_saturated (parts : List Bytes) {stage : Bytes}
    (hstage : stage.length = maxDatagramIpv4) {used : ℕ} (hused : used ≤ maxDatagramIpv4) :
    stageParts usizeMax parts stage used =
      .ok ((Catp.stageParts parts stage used).mapError (saturateOversize usizeMax)) := by
  induction parts generalizing stage used with
  | nil => rfl
  | cons part parts ih =>
    rw [stageParts, Catp.stageParts, sub_eq hused, ok_bind]
    split_ifs with hbig
    · rfl
    · obtain ⟨hbehind, hstage'⟩ := length_staged hstage hused hbig
      have h512 : maxDatagramIpv4 = 512 := rfl
      rw [add_eq (by omega), ok_bind, copyInto_eq (hstage ▸ hbehind) rfl, ok_bind]
      exact ih hstage' hbehind

include h16 in
/-- The length the loop reports is one of `usize` if each part is a slice. -/
private theorem saturate_stageParts {parts : List Bytes}
    (hparts : ∀ part ∈ parts, part.length ≤ usizeMax / 2) (stage : Bytes) {used : ℕ}
    (hused : used ≤ maxDatagramIpv4) :
    (Catp.stageParts parts stage used).mapError (saturateOversize usizeMax) =
      Catp.stageParts parts stage used := by
  induction parts generalizing stage used with
  | nil => rfl
  | cons part parts ih =>
    obtain ⟨hpart, hrest⟩ := List.forall_mem_cons.mp hparts
    rw [Catp.stageParts]
    split_ifs with hbig
    · have hfit : min (used + part.length) usizeMax = used + part.length := by
        simp only [maxDatagramIpv4] at hused
        omega
      rw [Except.mapError, saturateOversize, hfit]
    · exact ih hrest _ (by omega)

/-- What the loop has staged fits its buffer. -/
private theorem stageParts_bounds {parts : List Bytes} {stage stage' : Bytes} {used used' : ℕ}
    (hstage : stage.length = maxDatagramIpv4) (hused : used ≤ maxDatagramIpv4)
    (h : Catp.stageParts parts stage used = .ok (stage', used')) :
    stage'.length = maxDatagramIpv4 ∧ used' ≤ maxDatagramIpv4 := by
  induction parts generalizing stage used with
  | nil =>
    obtain ⟨rfl, rfl⟩ : stage = stage' ∧ used = used' := by simpa [Catp.stageParts] using h
    exact ⟨hstage, hused⟩
  | cons part parts ih =>
    rw [Catp.stageParts] at h
    split_ifs at h with hbig
    obtain ⟨hbehind, hstage'⟩ := length_staged hstage hused hbig
    exact ih hstage' hbehind h

private theorem sipKey_eq (key : Vector UInt8 32) :
    tryIntoArray ((key.toList.take 16).drop 0) 16 = some (key.take 16) := by
  have hlen : ((key.toList.take 16).drop 0).length = 16 := by simp
  rw [tryIntoArray, dif_pos hlen, Option.some.injEq, ← Vector.toList_inj, Vector.toList_take]
  exact List.drop_zero

include h16 in
/-- Whatever the parts, the MAC routine faults nowhere. -/
theorem macParts_saturated (cipher : CipherId) (key : Vector UInt8 32) (parts : List Bytes)
    (off : UInt32) (out : Bytes) : macParts usizeMax P cipher key parts off out =
      .ok ((Catp.macParts P cipher key parts off out).mapError (saturateOversize usizeMax)) := by
  rw [macParts.eq_def, Catp.macParts.eq_def]
  split_ifs with himpl hout
  · rfl
  · rfl
  have hlen : cipher.tagLen ≤ out.length := Nat.not_lt.mp hout
  cases cipher with
  | hmacSha256T64 | hmacSha256T32 =>
    dsimp only
    rw [slice_eq (by decide) (by simp [CipherId.tagLen]), ok_bind,
      copyInto_eq hlen (by simp [CipherId.tagLen]), ok_bind]
    simp [Except.mapError]
  | sipHash24 =>
    dsimp only
    rw [slice_eq (by decide) (by simp), ok_bind, sipKey_eq, unwrap_some, ok_bind,
      copyInto_eq hlen (by simp [CipherId.tagLen]), ok_bind]
    simp [Except.mapError]
  | chaCha20Poly1305 =>
    dsimp only
    have hnonce : copyInto (List.replicate 12 0) 8 12 (u32ToBe off) = .ok (nonceBytes off) := by
      rw [copyInto_eq (by simp) (by simp)]
      rfl
    rw [hnonce, ok_bind, stageParts_saturated h16 parts (by simp) (Nat.zero_le _), ok_bind]
    cases hstage : Catp.stageParts parts (List.replicate maxDatagramIpv4 0) 0 with
    | error e => rfl
    | ok r =>
      obtain ⟨stage, used⟩ := r
      obtain ⟨hstagelen, hused⟩ := stageParts_bounds (by simp) (Nat.zero_le _) hstage
      dsimp only [Except.mapError]
      rw [slice_eq (Nat.zero_le _) (by omega), ok_bind,
        slice_eq (by decide) (by simp [CipherId.tagLen]), ok_bind,
        copyInto_eq hlen (by simp [CipherId.tagLen]), ok_bind]
      simp

include h16 in
/-- Parts that fit in memory twice over have a total no addition stops at. -/
private theorem saturate_macParts {cipher : CipherId} {key : Vector UInt8 32} {parts : List Bytes}
    (hparts : ∀ part ∈ parts, part.length ≤ usizeMax / 2) {off : UInt32} {out : Bytes} :
    (Catp.macParts P cipher key parts off out).mapError (saturateOversize usizeMax) =
      Catp.macParts P cipher key parts off out := by
  rw [Catp.macParts.eq_def]
  split_ifs with himpl hout
  · rfl
  · rfl
  cases cipher with
  | hmacSha256T64 | hmacSha256T32 | sipHash24 => rfl
  | chaCha20Poly1305 =>
    dsimp only
    have hsat := saturate_stageParts h16 hparts (List.replicate maxDatagramIpv4 0) (Nat.zero_le _)
    cases hstage : Catp.stageParts parts (List.replicate maxDatagramIpv4 0) 0 with
    | error e =>
      rw [hstage] at hsat
      exact congrArg Except.error (Except.error.inj hsat)
    | ok r => rfl

include h16 in
/-- On parts that short, `mac_parts` stops nowhere and computes the tag of the model. -/
private theorem macParts_eq {cipher : CipherId} {key : Vector UInt8 32} {parts : List Bytes}
    (hparts : ∀ part ∈ parts, part.length ≤ usizeMax / 2) {off : UInt32} {out : Bytes} :
    macParts usizeMax P cipher key parts off out =
      .ok (Catp.macParts P cipher key parts off out) := by
  rw [macParts_saturated h16, saturate_macParts h16 hparts]

include h16 in
/-- The same for one contiguous message. -/
theorem mac_eq {cipher : CipherId} {key : Vector UInt8 32} {msg : Bytes}
    (hmsg : msg.length ≤ usizeMax / 2) {off : UInt32} :
    mac usizeMax P cipher key msg off = .ok (Catp.mac P cipher key msg off) := by
  refine macParts_eq h16 ?_
  intro part hpart
  rw [List.mem_singleton.mp hpart]
  exact hmsg

end

/-! ### Fixed-layout readings -/

/-- `validate_number`: the indices are read behind the check of the length. -/
def validateNumber (p : Bytes) : Faulting (Except Error (UInt8 × Int16)) :=
  if p.length ≠ numberPayloadLen then
    return .error (.badNumber "payload must be exactly 3 bytes")
  else do
    let scale ← index p 0
    if !scaleIsValid scale then return .error (.badNumber "scale must be 0x01..=0x07")
    else return .ok (scale, i16OfBe [← index p 1, ← index p 2])

/-- `validate_number` stops nowhere, whatever the payload. -/
theorem validateNumber_eq (p : Bytes) :
    validateNumber p = .ok (Catp.validateNumber p) := by
  rw [validateNumber, Catp.validateNumber]
  refine ite_eq (fun _ => rfl) fun hlen => ?_
  have hlen3 : p.length = 3 := not_not.mp hlen
  rw [index_eq (show 0 < p.length by omega), index_eq (show 1 < p.length by omega),
    index_eq (show 2 < p.length by omega), ok_bind]
  exact ite_eq (fun _ => rfl) fun _ => rfl

/-- The loop over the entries adds with `checked_add` alone. -/
def validateSeries (usizeMax : ℕ) (p : Bytes) (anchorOffset : UInt32) :
    Faulting (Except Error (UInt8 × List (UInt32 × Int16))) :=
  if p.length < numberPayloadLen then
    return .error (.badSeries "shorter than scale + first reading")
  else do
    let scale ← index p 0
    if !scaleIsValid scale then return .error (.badSeries "scale must be 0x01..=0x07")
    else do
      let rest ← slice p numberPayloadLen p.length
      if rest.isEmpty then return .error (.badSeries "SERIES must carry at least two readings")
      else
        let (entries, remainder) := asChunks4 rest
        if !remainder.isEmpty then
          return .error (.badSeries "trailing entries must be 4 bytes each")
        else if ticksPerEpoch ≤ anchorOffset then
          return .error (.badSeries "datagram_offset exceeds 19 bits")
        else do
          let first := i16OfBe [← index p 1, ← index p 2]
          let _capacity ← add usizeMax 1 entries.length
          return do
            let readings ← readEntries anchorOffset [(anchorOffset, first)] entries
            return (scale, readings)

private theorem length_asChunks4 (p : Bytes) : (asChunks4 p).1.length ≤ p.length := by
  induction p using asChunks4.induct with
  | case1 a b c d rest ih =>
    rw [asChunks4]
    simp only [List.length_cons]
    omega
  | case2 rest h =>
    rw [asChunks4]
    · exact Nat.zero_le _
    · exact h

/-- `validate_series` stops nowhere on a payload that fits in memory twice over. -/
theorem validateSeries_eq {usizeMax : ℕ} {p : Bytes} (hp : p.length ≤ usizeMax / 2)
    (anchor : UInt32) :
    validateSeries usizeMax p anchor = .ok (Catp.validateSeries p anchor) := by
  rw [validateSeries, Catp.validateSeries]
  refine ite_eq (fun _ => rfl) fun hshort => ?_
  have hlen : numberPayloadLen ≤ p.length := Nat.not_lt.mp hshort
  have h3 : numberPayloadLen = 3 := rfl
  have hentries := length_asChunks4 (p.drop numberPayloadLen)
  rw [List.length_drop] at hentries
  rw [index_eq (show 0 < p.length by omega), index_eq (show 1 < p.length by omega),
    index_eq (show 2 < p.length by omega), ok_bind]
  refine ite_eq (fun _ => rfl) fun _ => ?_
  rw [slice_to_end hlen, ok_bind]
  refine ite_eq (fun _ => rfl) fun _ => ite_eq (fun _ => rfl) fun _ =>
    ite_eq (fun _ => rfl) fun _ => ?_
  rw [ok_bind, ok_bind, add_eq (by omega), ok_bind]
  rfl

/-! ### Epoch reconstruction -/

/-- `reconstruct_epoch`: the difference modulo 16 is taken in `u32`. -/
def reconstructEpoch (localEpoch : UInt32) (epochLow : UInt8) : Faulting (Option UInt32) :=
  let low := epochLow &&& 0x0F
  if (localEpoch &&& 0x0F).toUInt8 = low then return some localEpoch
  else if localEpoch > 0 then do
    let previous ← subU32 localEpoch 1
    if (previous &&& 0x0F).toUInt8 = low then return some (← subU32 localEpoch 1)
    else return none
  else return none

/-- No subtraction of `reconstruct_epoch` runs below zero. -/
theorem reconstructEpoch_eq (l : UInt32) (low : UInt8) :
    reconstructEpoch l low = .ok (Catp.reconstructEpoch l low) := by
  rw [reconstructEpoch, Catp.reconstructEpoch]
  by_cases hpos : l > 0
  · have hone : 1 ≤ l := by
      rw [gt_iff_lt, UInt32.lt_iff_toNat_lt] at hpos
      rw [UInt32.le_iff_toNat_le]
      exact hpos
    simp only [subU32_eq hone, ok_bind, pure_eq_ok, hpos, true_and]
    split_ifs <;> rfl
  · simp only [hpos, false_and, if_false, pure_eq_ok]
    split_ifs <;> rfl

/-! ### Inbound rate limiting -/

/-- The refill saturates. -/
def tryAcquire (l : InboundLimiter) (nowMs : UInt64) : Faulting (Bool × InboundLimiter) :=
  let elapsedMs := nowMs.toNat - l.lastMs.toNat
  let refill := saturate (saturate (l.perSec.toNat * 1000) * elapsedMs)
  let tokens := min (saturate (l.tokensMicro + refill)) l.capacityMicro
  if tokens ≥ 1000000 then do
    let left ← sub tokens 1000000
    return (true, { l with tokensMicro := left, lastMs := nowMs })
  else return (false, { l with tokensMicro := tokens, lastMs := nowMs })

/-- The limiter's arithmetic saturates, so no call stops. -/
theorem tryAcquire_eq (l : InboundLimiter) (nowMs : UInt64) :
    tryAcquire l nowMs = .ok (l.tryAcquire nowMs) := by
  rw [tryAcquire, InboundLimiter.tryAcquire]
  refine ite_eq (fun h => ?_) fun _ => rfl
  rw [sub_eq h]
  rfl

/-! ### Replay window -/

section

open ReplayWindow

variable {WORDS : ℕ}

/-- `bits[idx / 64] = f(bits[idx / 64], 1u64 << (idx % 64))` for `idx = off % ENTRIES`. -/
def updateBit (f : UInt64 → UInt64 → UInt64) (bits : Vector UInt64 WORDS) (off : UInt32) :
    Faulting (Vector UInt64 WORDS) := do
  let idx ← remU32 off (entries WORDS)
  let word ← arrayIndex bits (idx.toNat / 64)
  let bit ← shiftOne (idx.toNat % 64)
  arrayStore bits (idx.toNat / 64) (f word bit)

/-- `ReplayWindow::mark`: the word and the shift are computed modulo the number of entries. -/
def mark (w : ReplayWindow WORDS) (off : UInt32) : Faulting (ReplayWindow WORDS) := do
  let bits ← updateBit (fun word bit => word ||| bit) w.bits off
  return { w with bits }

/-- `ReplayWindow::seen`, with the index and the shift of `mark`. -/
def seen (w : ReplayWindow WORDS) (off : UInt32) : Faulting Bool := do
  let idx ← remU32 off (entries WORDS)
  let word ← arrayIndex w.bits (idx.toNat / 64)
  let bit ← shiftOne (idx.toNat % 64)
  return word &&& bit ≠ 0

/-- The position to clear is reached with `wrapping_add`. -/
def clearSpan (bits : Vector UInt64 WORDS) (hi advance : UInt32) :
    Faulting (Vector UInt64 WORDS) :=
  (List.range advance.toNat).foldlM
    (fun bits i => updateBit (fun word bit => word &&& ~~~bit) bits (hi + UInt32.ofNat (i + 1)))
    bits

/-- `ReplayWindow::check_and_set`, whose subtractions are guarded by the comparison with the highest
offset. -/
def checkAndSet (w : ReplayWindow WORDS) (off : UInt32) :
    Faulting (Except Error Unit × ReplayWindow WORDS) :=
  match w.high with
  | none => do
    let w ← mark { w with high := some off } off
    return (.ok (), w)
  | some hi =>
    if off > hi then do
      let slid ← subU32 off hi
      let bits ← clearSpan w.bits hi (min slid (entries WORDS))
      let w ← mark { w with high := some off, bits } off
      return (.ok (), w)
    else do
      let behind ← subU32 hi off
      if behind ≥ entries WORDS then return (.error .replay, w)
      else if ← seen w off then return (.error .replay, w)
      else
        let w ← mark w off
        return (.ok (), w)

/-- The remainder of this call is defined: the number of entries is not zero, or the offset is
not above the mark, so that the call refuses it before any remainder. -/
def Checkable (w : ReplayWindow WORDS) (off : UInt32) : Prop :=
  entries WORDS ≠ 0 ∨ ∃ hi, w.high = some hi ∧ off ≤ hi

instance (w : ReplayWindow WORDS) (off : UInt32) : Decidable (Checkable w off) :=
  inferInstanceAs (Decidable (_ ∨ _))

section

variable (h0 : entries WORDS ≠ 0)
include h0

/-- The word of a bit lies inside the bitmap, also where the number of entries has wrapped. -/
private theorem word_lt (off : UInt32) : (off % entries WORDS).toNat / 64 < WORDS := by
  have hpos : 0 < (entries WORDS).toNat :=
    Nat.pos_of_ne_zero fun h => h0 (UInt32.toNat_inj.mp h)
  have hle : (entries WORDS).toNat ≤ WORDS * 64 := by
    rw [entries, UInt32.toNat_ofNat']
    exact Nat.mod_le _ _
  have hlt : (off % entries WORDS).toNat < (entries WORDS).toNat := by
    rw [UInt32.toNat_mod]
    exact Nat.mod_lt _ hpos
  omega

/-- A bit of an index modulo the number of entries lies in the array. -/
private theorem updateBit_eq (f : UInt64 → UInt64 → UInt64) (bits : Vector UInt64 WORDS)
    (off : UInt32) :
    updateBit f bits off = .ok (bits.setIfInBounds ((off % entries WORDS).toNat / 64)
      (f (word bits (off % entries WORDS).toNat)
        (1 <<< UInt64.ofNat ((off % entries WORDS).toNat % 64)))) := by
  rw [updateBit, remU32_eq h0, ok_bind, arrayIndex_eq (word_lt h0 off) 0, ok_bind,
    shiftOne_eq (Nat.mod_lt _ (by decide)), ok_bind, arrayStore_eq (word_lt h0 off)]
  rfl

private theorem mark_eq (w : ReplayWindow WORDS) (off : UInt32) :
    mark w off = .ok (w.mark off) := by
  rw [mark, updateBit_eq h0]
  rfl

private theorem seen_eq (w : ReplayWindow WORDS) (off : UInt32) :
    seen w off = .ok (w.seen off) := by
  rw [seen, remU32_eq h0, ok_bind, arrayIndex_eq (word_lt h0 off) 0, ok_bind,
    shiftOne_eq (Nat.mod_lt _ (by decide))]
  rfl

/-- The loop that clears the bits passed over stays in the array. -/
private theorem clearSpan_eq (bits : Vector UInt64 WORDS) (hi advance : UInt32) :
    clearSpan bits hi advance = .ok (ReplayWindow.clearSpan bits hi advance) :=
  foldlM_eq (fun bits _ => updateBit_eq h0 _ bits _) bits _

end

/-- **The window faults in no call but one that divides by zero.** -/
theorem checkAndSet_eq {w : ReplayWindow WORDS} {off : UInt32} (h : Checkable w off) :
    checkAndSet w off = .ok (w.checkAndSet off) := by
  rw [checkAndSet.eq_def, ReplayWindow.checkAndSet.eq_def]
  cases hhigh : w.high with
  | none =>
    have h0 : entries WORDS ≠ 0 := by simpa [Checkable, hhigh] using h
    dsimp only
    rw [mark_eq h0]
    rfl
  | some hi =>
    dsimp only
    refine ite_eq (fun habove => ?_) fun habove => ?_
    · have h0 : entries WORDS ≠ 0 := by
        rcases h with h0 | ⟨hi', hhi', hle⟩
        · exact h0
        · rw [hhigh] at hhi'
          cases hhi'
          exact absurd habove (UInt32.not_lt.mpr hle)
      rw [subU32_eq (UInt32.le_of_lt habove), ok_bind, clearSpan_eq h0, ok_bind, mark_eq h0]
      rfl
    · rw [subU32_eq (UInt32.not_lt.mp habove), ok_bind]
      refine ite_eq (fun _ => rfl) fun hbelow => ?_
      -- no offset is below a window of zero entries
      have h0 : entries WORDS ≠ 0 := fun h0 => hbelow (by rw [h0]; exact UInt32.zero_le)
      rw [seen_eq h0, ok_bind, mark_eq h0]
      exact ite_eq (fun _ => rfl) fun _ => rfl

private theorem min_zero (x : UInt32) : min x 0 = 0 := by
  have hmin : min x 0 = if x ≤ 0 then x else 0 := rfl
  rw [hmin]
  split_ifs with hle
  · exact UInt32.le_antisymm hle UInt32.zero_le
  · rfl

/-- Where the number of entries is zero modulo `2 ^ 32`, the first index is a remainder by zero. -/
theorem checkAndSet_fault {w : ReplayWindow WORDS} {off : UInt32} (h : ¬Checkable w off) :
    checkAndSet w off = .error .zeroDivisor := by
  obtain ⟨h0, hhigh⟩ := not_or.mp h
  have hmark (w : ReplayWindow WORDS) : mark w off = .error .zeroDivisor := by
    rw [mark, updateBit, not_not.mp h0, remU32_zero]
    rfl
  rw [checkAndSet.eq_def]
  cases hw : w.high with
  | none =>
    dsimp only
    rw [hmark, error_bind]
  | some hi =>
    have habove : off > hi := UInt32.not_le.mp fun hle => hhigh ⟨hi, hw, hle⟩
    dsimp only
    rw [if_pos habove, subU32_eq (UInt32.le_of_lt habove), ok_bind, not_not.mp h0, min_zero]
    show mark _ off >>= _ = _
    rw [hmark, error_bind]

end

end Catp.Checked
