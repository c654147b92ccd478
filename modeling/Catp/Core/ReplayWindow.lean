import Catp.Core.Registry
import Catp.Lib.SlidingWindow
import Catp.Lib.Transducer
import Mathlib.Data.Set.Image

/-!
# Replay window

`ReplayWindow` of `src/lib.rs`: a high-water mark and a bitmap of `WORDS` 64-bit words,
indexed by the offset modulo its size.

`Tracks w H` ties a window to the set `H` of the offsets it has accepted, through the general
representation of `SlidingWindow`. `checkAndSet_spec` is the one lemma the receiver needs: in
a window tracking `H`, an offset is accepted exactly when it is admissible for `H`, the window
then tracks `insert off H`, and a refusal leaves it unchanged. Over a sequence of calls `H` is
the list of the offsets answered `Ok`.

The bitmap is a vector of 64-bit words, as in the source, and its operations are the source's
shifts and masks. `testBit`, `setBit` and `clearBit` are read through one bit at a time, so that
the proofs above them are about a function from indices to Booleans.

**Widths.** `WORDS` is a parameter. The specification holds for every positive width whose number
of entries fits in 32 bits; the code asks for the first at compile time and for the second not at
all, and what a wider window does is said with the faults of the code.

**Order of the argument.** `clearSpan` clears the bits that the window passes over when it
advances, the loop of the source with its bound `min(slid, ENTRIES)`; `checkAndSet_spec` matches
the three ways in which an offset is admitted with the three lemmas of `SlidingWindow` and
`checkAndSet_sequence` carries that over a run.
-/

namespace Catp

open SlidingWindow Transducer

/-- Sliding bitmap over tick space. -/
structure ReplayWindow (WORDS : ℕ) where
  high : Option UInt32
  bits : Vector UInt64 WORDS
  deriving DecidableEq

/-- Word count of `ReplayWindow::one_second`. -/
abbrev defaultWindowWords : ℕ := 64

example : defaultWindowWords * 64 = ticksPerSec.toNat := rfl

namespace ReplayWindow

variable {WORDS : ℕ}

/-! ### The bitmap -/

/-- The word holding bit `idx`. -/
def word (bits : Vector UInt64 WORDS) (idx : ℕ) : UInt64 := bits[idx / 64]?.getD 0

/-- `bits[idx / 64] |= 1u64 << (idx % 64)`. -/
def setBit (bits : Vector UInt64 WORDS) (idx : ℕ) : Vector UInt64 WORDS :=
  bits.setIfInBounds (idx / 64) (word bits idx ||| 1 <<< UInt64.ofNat (idx % 64))

/-- `bits[idx / 64] &= !(1u64 << (idx % 64))`. -/
def clearBit (bits : Vector UInt64 WORDS) (idx : ℕ) : Vector UInt64 WORDS :=
  bits.setIfInBounds (idx / 64) (word bits idx &&& ~~~(1 <<< UInt64.ofNat (idx % 64)))

/-- `bits[idx / 64] & (1u64 << (idx % 64)) != 0`. -/
def testBit (bits : Vector UInt64 WORDS) (idx : ℕ) : Bool :=
  word bits idx &&& 1 <<< UInt64.ofNat (idx % 64) ≠ 0

private theorem toNat_one_shiftLeft {k : ℕ} (hk : k < 64) :
    ((1 : UInt64) <<< UInt64.ofNat k).toNat = 2 ^ k := by
  have hsize : k < UInt64.size := hk.trans (by decide)
  rw [UInt64.toNat_shiftLeft, UInt64.toNat_ofNat_of_lt' hsize, Nat.mod_eq_of_lt hk,
    Nat.shiftLeft_eq]
  simpa using Nat.mod_eq_of_lt (Nat.pow_lt_pow_right (by decide) hk : 2 ^ k < 2 ^ 64)

private theorem testBit_eq (bits : Vector UInt64 WORDS) (idx : ℕ) :
    testBit bits idx = (word bits idx).toNat.testBit (idx % 64) := by
  have hmask := toNat_one_shiftLeft (Nat.mod_lt idx (by decide : 0 < 64))
  have hiff : word bits idx &&& 1 <<< UInt64.ofNat (idx % 64) ≠ 0 ↔
      (word bits idx).toNat.testBit (idx % 64) = true := by
    rw [ne_eq, ← UInt64.toNat_inj, UInt64.toNat_and, hmask, Nat.and_two_pow]
    cases (word bits idx).toNat.testBit (idx % 64) <;> simp
  rw [testBit, Bool.eq_iff_iff, decide_eq_true_eq, hiff]

private theorem word_setIfInBounds (bits : Vector UInt64 WORDS) (x : UInt64) {i j : ℕ}
    (hi : i < WORDS * 64) : word (bits.setIfInBounds (i / 64) x) j =
      if i / 64 = j / 64 then x else word bits j := by
  have hlt : i / 64 < WORDS := by omega
  rw [word, Vector.getElem?_setIfInBounds, if_pos hlt]
  split_ifs with h <;> rfl

/-- Setting a bit sets that bit and no other. -/
private theorem testBit_setBit (bits : Vector UInt64 WORDS) {i j : ℕ} (hi : i < WORDS * 64) :
    testBit (setBit bits i) j = true ↔ j = i ∨ testBit bits j = true := by
  have hmask := toNat_one_shiftLeft (Nat.mod_lt i (by decide : 0 < 64))
  rw [testBit_eq, testBit_eq, setBit, word_setIfInBounds bits _ hi]
  split_ifs with h
  · have hword : word bits i = word bits j := by rw [word, word, h]
    rw [UInt64.toNat_or, Nat.testBit_or, hmask, Nat.testBit_two_pow, hword, Bool.or_eq_true,
      decide_eq_true_eq, or_comm]
    exact or_congr_left ⟨fun hm => by omega, fun hj => by rw [hj]⟩
  · have hne : j ≠ i := fun hj => h (by rw [hj])
    rw [or_iff_right hne]

/-- Clearing a bit clears that bit and no other. -/
private theorem testBit_clearBit (bits : Vector UInt64 WORDS) {i j : ℕ} (hi : i < WORDS * 64) :
    testBit (clearBit bits i) j = true ↔ j ≠ i ∧ testBit bits j = true := by
  have hmask := toNat_one_shiftLeft (Nat.mod_lt i (by decide : 0 < 64))
  rw [testBit_eq, testBit_eq, clearBit, word_setIfInBounds bits _ hi]
  split_ifs with h
  · have hword : word bits i = word bits j := by rw [word, word, h]
    have hpow : 2 ^ (i % 64) < 2 ^ 64 :=
      Nat.pow_lt_pow_right (by decide) (Nat.mod_lt i (by decide))
    have hnot : UInt64.size - 1 - 2 ^ (i % 64) = 2 ^ 64 - (2 ^ (i % 64) + 1) := by
      rw [show UInt64.size = 2 ^ 64 from rfl]
      omega
    have hlt : j % 64 < 64 := Nat.mod_lt j (by decide)
    rw [UInt64.toNat_and, Nat.testBit_and, UInt64.toNat_not, hmask, hnot,
      Nat.testBit_two_pow_sub_succ hpow, Nat.testBit_two_pow, hword, Bool.and_eq_true, and_comm]
    simp only [hlt, decide_true, Bool.true_and, Bool.not_eq_true', decide_eq_false_iff_not]
    exact and_congr_left fun _ => ⟨fun hm hj => hm (by rw [hj]), fun hj hm => hj (by omega)⟩
  · have hne : j ≠ i := fun hj => h (by rw [hj])
    rw [and_iff_right hne]

/-! ### The window -/

/-- Number of tick entries the window covers: `(WORDS * 64) as u32`. -/
def entries (WORDS : ℕ) : UInt32 := UInt32.ofNat (WORDS * 64)

/-- A window that has seen nothing. -/
def new : ReplayWindow WORDS := ⟨none, Vector.replicate WORDS 0⟩

/-- Remember an offset, at its index modulo the number of entries. -/
def mark (w : ReplayWindow WORDS) (off : UInt32) : ReplayWindow WORDS :=
  { w with bits := setBit w.bits (off % entries WORDS).toNat }

/-- Whether the bit at an offset's index is set. -/
def seen (w : ReplayWindow WORDS) (off : UInt32) : Bool :=
  testBit w.bits (off % entries WORDS).toNat

/-- Clear the span slid past, `for i in 1..=advance`. -/
def clearSpan (bits : Vector UInt64 WORDS) (hi advance : UInt32) : Vector UInt64 WORDS :=
  (List.range advance.toNat).foldl
    (fun bits i => clearBit bits ((hi + UInt32.ofNat (i + 1)) % entries WORDS).toNat) bits

/-- Accept `off`, or reject it as a replay. Mutates only on acceptance. -/
def checkAndSet (w : ReplayWindow WORDS) (off : UInt32) :
    Except Error Unit × ReplayWindow WORDS :=
  match w.high with
  | none => (.ok (), { w with high := some off }.mark off)
  | some hi =>
    if off > hi then
      let advance := min (off - hi) (entries WORDS)
      (.ok (), { w with high := some off, bits := clearSpan w.bits hi advance }.mark off)
    else if hi - off ≥ entries WORDS then (.error .replay, w)  -- below the window
    else if w.seen off then (.error .replay, w)
    else (.ok (), w.mark off)

/-- The window refuses only as a replay. -/
theorem checkAndSet_error {w : ReplayWindow WORDS} {off : UInt32} {e : Error}
    (h : (w.checkAndSet off).1 = .error e) : e = .replay := by
  rw [checkAndSet.eq_def] at h
  split at h
  · cases h
  · split_ifs at h <;> cases h <;> rfl

/-! ### The window tracks the offsets it accepted -/

/-- The offsets a window of `N` entries admits after accepting those of `H`: new ones, less
than `N` below the highest. -/
def Admits (N : ℕ) (H : Set UInt32) (off : UInt32) : Prop :=
  off ∉ H ∧ ∀ x ∈ H, x.toNat < off.toNat + N

/-- Admissibility of an offset is that of the number it stands for. -/
private theorem admissible_image {N : ℕ} {H : Set UInt32} {off : UInt32} :
    Admissible N (UInt32.toNat '' H) off.toNat ↔ Admits N H off := by
  simp [Admissible, Admits, UInt32.toNat_inj]

/-- The window stands for the history `H`. -/
def Tracks (w : ReplayWindow WORDS) (H : Set UInt32) : Prop :=
  Represents (WORDS * 64) (w.high.map UInt32.toNat) (testBit w.bits) (UInt32.toNat '' H)

/-- A new window tracks the empty history. -/
theorem tracks_new : (new : ReplayWindow WORDS).Tracks ∅ := by
  rw [Tracks, Set.image_empty]
  refine represents_empty fun i hi => ?_
  have hlt : i / 64 < WORDS := by omega
  simp [testBit_eq, word, new, hlt]

section Spec

variable (h0 : 0 < WORDS) (h32 : WORDS * 64 < 2 ^ 32)

include h32 in
private theorem toNat_entries : (entries WORDS).toNat = WORDS * 64 :=
  UInt32.toNat_ofNat_of_lt' h32

include h32 in
/-- With a number of entries below `2 ^ 32`, the index does not wrap. -/
private theorem toNat_mod_entries (off : UInt32) :
    (off % entries WORDS).toNat = off.toNat % (WORDS * 64) := by
  rw [UInt32.toNat_mod, toNat_entries h32]

include h0 h32 in
/-- Marking an offset sets its bit. -/
private theorem testBit_mark (w : ReplayWindow WORDS) (off : UInt32) (i : ℕ) :
    testBit (w.mark off).bits i = true ↔ i = off.toNat % (WORDS * 64) ∨
      testBit w.bits i = true := by
  rw [mark, toNat_mod_entries h32]
  exact testBit_setBit _ (Nat.mod_lt _ (by omega))

include h0 h32 in
/-- Clearing a span clears the bits of the offsets slid past. -/
private theorem testBit_clearSpan (bits : Vector UInt64 WORDS) (hi : UInt32) (n : ℕ)
    (hn : hi.toNat + n < 2 ^ 32) (i : ℕ) :
    testBit (clearSpan bits hi (UInt32.ofNat n)) i = true ↔ testBit bits i = true ∧
      ∀ j, 1 ≤ j → j ≤ n → (hi.toNat + j) % (WORDS * 64) ≠ i := by
  rw [clearSpan, UInt32.toNat_ofNat_of_lt' (by rw [show UInt32.size = 2 ^ 32 from rfl]; omega)]
  -- the loop clears the bits in order, so the last one is on top of those before it
  induction n with
  | zero => simp; omega
  | succ n ih =>
    have hidx : ((hi + UInt32.ofNat (n + 1)) % entries WORDS).toNat
        = (hi.toNat + (n + 1)) % (WORDS * 64) := by
      rw [toNat_mod_entries h32, UInt32.toNat_add, UInt32.toNat_ofNat_of_lt'
        (by rw [show UInt32.size = 2 ^ 32 from rfl]; omega), Nat.mod_eq_of_lt hn]
    rw [List.range_succ, List.foldl_append, List.foldl_cons, List.foldl_nil, hidx,
      testBit_clearBit _ (Nat.mod_lt _ (by omega)), ih (by omega)]
    constructor
    · rintro ⟨hne, hb, hall⟩
      refine ⟨hb, ?_⟩
      intro j hj hjn
      rcases Nat.lt_or_ge j (n + 1) with hlt | hge
      · exact hall j hj (by omega)
      · obtain rfl : j = n + 1 := by omega
        exact hne.symm
    · rintro ⟨hb, hall⟩
      exact ⟨(hall (n + 1) (by omega) le_rfl).symm, hb, fun j hj hjn => hall j hj (by omega)⟩

include h32 in
/-- The number of offsets to clear, as a natural number. -/
private theorem advance_eq {off hi : UInt32} (hlt : hi < off) :
    min (off - hi) (entries WORDS) = UInt32.ofNat (min (off.toNat - hi.toNat) (WORDS * 64)) := by
  have hsub : (off - hi).toNat = off.toNat - hi.toNat :=
    UInt32.toNat_sub_of_le off hi (UInt32.le_of_lt hlt)
  have hoff := off.toNat_lt
  rw [← UInt32.toNat_inj, UInt32.toNat_ofNat_of_lt' (by
    rw [show UInt32.size = 2 ^ 32 from rfl]; omega), ← hsub, ← toNat_entries h32]
  change (if off - hi ≤ entries WORDS then off - hi else entries WORDS).toNat = _
  split_ifs with hle
  · rw [min_eq_left (UInt32.le_iff_toNat_le.mp hle)]
  · rw [min_eq_right (UInt32.le_iff_toNat_le.mp (UInt32.le_of_lt (UInt32.not_le.mp hle)))]

include h0 h32 in
/-- **A window accepts exactly the admissible offsets**, and tracks them; a refusal leaves it
unchanged. -/
theorem checkAndSet_spec {w : ReplayWindow WORDS} {H : Set UInt32} (hw : w.Tracks H)
    (off : UInt32) :
    (w.checkAndSet off).1 = .ok () ∧ Admits (WORDS * 64) H off ∧
        (w.checkAndSet off).2.Tracks (insert off H) ∨
      w.checkAndSet off = (.error .replay, w) ∧ ¬Admits (WORDS * 64) H off := by
  have hN : 0 < WORDS * 64 := by omega
  rw [← admissible_image]
  obtain ⟨high, bits⟩ := w
  cases high with
  | none =>
    refine .inl ⟨rfl, Represents.admissible_of_none hw _, ?_⟩
    rw [Tracks, Set.image_insert_eq]
    exact Represents.first hw hN fun i _ => testBit_mark h0 h32 ⟨some off, bits⟩ off i
  | some hi =>
    by_cases hgt : off > hi
    · -- above the mark: slide, clearing what is slid past
      have hlt : hi.toNat < off.toNat := UInt32.lt_iff_toNat_lt.mp hgt
      have hoff := off.toNat_lt
      have heq : checkAndSet ⟨some hi, bits⟩ off =
          (.ok (), mark ⟨some off, clearSpan bits hi (min (off - hi) (entries WORDS))⟩ off) := by
        simp only [checkAndSet, if_pos hgt]
      rw [heq]
      refine .inl ⟨rfl, Represents.admissible_of_high_lt hw hlt, ?_⟩
      rw [Tracks, Set.image_insert_eq]
      refine Represents.advance hw hN hlt fun i _ => ?_
      rw [testBit_mark h0 h32, advance_eq h32 hgt, testBit_clearSpan h0 h32 _ _ _ (by omega)]
    · have hle : off.toNat ≤ hi.toNat := UInt32.le_iff_toNat_le.mp (UInt32.not_lt.mp hgt)
      have hsub : (hi - off).toNat = hi.toNat - off.toNat :=
        UInt32.toNat_sub_of_le hi off (UInt32.not_lt.mp hgt)
      have hage : hi - off ≥ entries WORDS ↔ ¬hi.toNat < off.toNat + WORDS * 64 := by
        rw [ge_iff_le, UInt32.le_iff_toNat_le, toNat_entries h32, hsub]
        omega
      have hseen : seen ⟨some hi, bits⟩ off = testBit bits (off.toNat % (WORDS * 64)) := by
        rw [seen, toNat_mod_entries h32]
      have heq : checkAndSet ⟨some hi, bits⟩ off =
          if hi.toNat < off.toNat + WORDS * 64 ∧ testBit bits (off.toNat % (WORDS * 64)) = false
          then (.ok (), mark ⟨some hi, bits⟩ off) else (.error .replay, ⟨some hi, bits⟩) := by
        simp only [checkAndSet, if_neg hgt, hage, hseen]
        split_ifs <;> simp_all
      rw [heq, Represents.admissible_iff hw hle]
      split_ifs with hadm
      · refine .inl ⟨rfl, hadm, ?_⟩
        rw [Tracks, Set.image_insert_eq]
        exact Represents.fill hw hN hle hadm.1 fun i _ => testBit_mark h0 h32 _ off i
      · exact .inr ⟨rfl, hadm⟩

end Spec

/-! ### Sequences of calls -/

/-- The offsets answered `Ok` in a trace. -/
def acceptedOffsets (h : List (UInt32 × Except Error Unit)) : List UInt32 :=
  (h.filter fun p => p.2.isOk).map Prod.fst

/-- An accepted offset joins the history. -/
@[simp] theorem acceptedOffsets_concat_ok (h : List (UInt32 × Except Error Unit)) (off : UInt32) :
    acceptedOffsets (h ++ [(off, .ok ())]) = acceptedOffsets h ++ [off] := by
  simp [acceptedOffsets, Except.isOk, Except.toBool]

/-- A refused offset does not. -/
@[simp] theorem acceptedOffsets_concat_error (h : List (UInt32 × Except Error Unit))
    (off : UInt32) (e : Error) :
    acceptedOffsets (h ++ [(off, .error e)]) = acceptedOffsets h := by
  simp [acceptedOffsets, Except.isOk, Except.toBool]

private theorem exists_highest {l : List UInt32} (h : l ≠ []) : ∃ hi ∈ l, ∀ x ∈ l, x ≤ hi := by
  obtain ⟨hi, hmem⟩ := Option.isSome_iff_exists.mp (List.isSome_max?_of_ne_nil
    (l := l.map UInt32.toNat) (mt List.map_eq_nil_iff.mp h))
  obtain ⟨hin, hle⟩ := List.max?_eq_some_iff.mp hmem
  obtain ⟨o, ho, rfl⟩ := List.mem_map.mp hin
  exact ⟨o, ho, fun x hx => UInt32.le_iff_toNat_le.mpr (hle _ (List.mem_map_of_mem hx))⟩

/-- To lie less than `N` below every offset of a history is to lie less than `N` below its
highest. -/
private theorem forall_lt_iff_highest {N : ℕ} {l : List UInt32} {off : UInt32} :
    (∀ x ∈ l, x.toNat < off.toNat + N) ↔
      l = [] ∨ ∃ hi ∈ l, (∀ x ∈ l, x ≤ hi) ∧ hi.toNat < off.toNat + N := by
  constructor
  · intro h
    by_cases hl : l = []
    · exact .inl hl
    · obtain ⟨hi, hmem, hle⟩ := exists_highest hl
      exact .inr ⟨hi, hmem, hle, h hi hmem⟩
  · rintro (rfl | ⟨hi, -, hle, hlt⟩) x hx
    · cases hx
    · exact (UInt32.le_iff_toNat_le.mp (hle x hx)).trans_lt hlt

section Sequence

variable (h0 : 0 < WORDS) (h32 : WORDS * 64 < 2 ^ 32)
include h0 h32

/-- After a sequence of calls the window tracks what it answered `Ok`. -/
private theorem tracks_final (offs : List UInt32) :
    (final (@checkAndSet WORDS) new offs).Tracks
      {x | x ∈ acceptedOffsets (trace (@checkAndSet WORDS) new offs)} := by
  refine trace_invariant (G := fun _ _ => True)
    (I := fun h (w : ReplayWindow WORDS) => w.Tracks {x | x ∈ acceptedOffsets h}) ?_ ?_ offs
    (fun _ => trivial)
  · simpa [acceptedOffsets] using @tracks_new WORDS
  · intro h w off _ hw
    rcases checkAndSet_spec h0 h32 hw off with ⟨hok, -, htr⟩ | ⟨heq, -⟩
    · rw [hok, acceptedOffsets_concat_ok]
      simpa [Set.insert_def, or_comm] using htr
    · rw [heq, acceptedOffsets_concat_error]
      exact hw

/-- **The window is the sliding-window specification.** -/
theorem checkAndSet_sequence (offs : List UInt32) (off : UInt32) {w : ReplayWindow WORDS}
    (hw : final checkAndSet new offs = w) :
    let accepted := acceptedOffsets (trace (@checkAndSet WORDS) new offs)
    ((w.checkAndSet off).1 = .ok () ↔ off ∉ accepted ∧
      (accepted = [] ∨ ∃ hi ∈ accepted, (∀ x ∈ accepted, x ≤ hi) ∧
        hi.toNat < off.toNat + 64 * WORDS)) ∧
      ((w.checkAndSet off).1 ≠ .ok () → w.checkAndSet off = (.error .replay, w)) := by
  intro accepted
  subst hw
  rw [← forall_lt_iff_highest, Nat.mul_comm 64]
  rcases checkAndSet_spec h0 h32 (tracks_final h0 h32 offs) off with ⟨hok, hadm, -⟩ | ⟨heq, hadm⟩
  · exact ⟨⟨fun _ => hadm, fun _ => hok⟩, fun hne => absurd hok hne⟩
  · refine ⟨⟨fun hok => ?_, fun h => absurd h hadm⟩, fun _ => heq⟩
    rw [heq] at hok
    cases hok

end Sequence

/-- A jump of exactly the window size leaves the offset jumped from below the window. -/
theorem checkAndSet_sequence_jump :
    (final (@checkAndSet 1) new [10, 74]).checkAndSet 10 =
      (.error .replay, final (@checkAndSet 1) new [10, 74]) := by
  refine (@checkAndSet_sequence 1 (by decide) (by decide) [10, 74] 10 _ rfl).2 ?_
  decide

end ReplayWindow

end Catp
