import Catp.Core.Registry
import Mathlib.Data.List.Basic

/-!
# Fixed-layout readings

`NUMBER` and `SERIES` payloads: `scale_is_valid`, `validate_number` and `validate_series` of
`src/lib.rs`. `validateNumber_eq_ok_iff` and `validateSeries_eq_ok_iff` say which payloads the
validators accept, and that they return what the payload says.

* `SeriesEntry` is an entry read from four octets, `instantsFrom` adds the ticks up in `ℕ` and
  `readingsFrom` in `u32`, as the code does. Inside the epoch the two agree, so no sum wraps.
* The loop returns the readings in order, behind those it was given (`readEntries_eq_ok_iff`). It
  stops at the first entry that is wrong, and the specification asks all of them to be right.
* What is left over of a payload that is no whole number of entries is an error of its own;
  `asChunks4_eq_iff` says when nothing is.

The anchor is the offset of the header. The payload holds the differences only, so the same
payload is another list of readings at another tick.
-/

namespace Catp

/-- Is `scale` one of the seven divisors the protocol defines? -/
def scaleIsValid (scale : UInt8) : Bool := scaleMin ≤ scale && scale ≤ scaleMax

/-- Validate and decode a `NUMBER` payload: three bytes, a valid `scale`, a big-endian
mantissa. -/
def validateNumber (p : Bytes) : Except Error (UInt8 × Int16) :=
  if p.length ≠ numberPayloadLen then .error (.badNumber "payload must be exactly 3 bytes")
  else if !scaleIsValid p[0]! then .error (.badNumber "scale must be 0x01..=0x07")
  else .ok (p[0]!, i16OfBe [p[1]!, p[2]!])

/-- A four-byte chunk, `[u8; SERIES_ENTRY_LEN]`. -/
abbrev Chunk := UInt8 × UInt8 × UInt8 × UInt8

/-- `as_chunks::<SERIES_ENTRY_LEN>()`: the whole chunks, and the bytes left over. -/
def asChunks4 : Bytes → List Chunk × Bytes
  | a :: b :: c :: d :: rest => ((a, b, c, d) :: (asChunks4 rest).1, (asChunks4 rest).2)
  | rest => ([], rest)

/-- `cum.checked_add(delta as u32).filter(|&c| c < TICKS_PER_EPOCH)`. -/
def stepInstant (cum : UInt32) (delta : UInt16) : Option UInt32 :=
  if cum.toNat + delta.toNat < 2 ^ 32 then
    if cum + delta.toUInt32 < ticksPerEpoch then some (cum + delta.toUInt32) else none
  else none

/-- The loop over the trailing entries. -/
def readEntries (cum : UInt32) (readings : List (UInt32 × Int16)) :
    List Chunk → Except Error (List (UInt32 × Int16))
  | [] => .ok readings
  | (a, b, c, d) :: entries =>
    let delta := u16OfBe [a, b]
    if delta = 0 then .error (.badSeries "delta must be at least 1 tick")
    else
      match stepInstant cum delta with
      | none => .error (.badSeries "reading's instant crosses the epoch boundary")
      | some cum => readEntries cum (readings ++ [(cum, i16OfBe [c, d])]) entries

/-- Validate and decode a `SERIES` payload, whose first reading is taken at `anchorOffset`. -/
def validateSeries (p : Bytes) (anchorOffset : UInt32) :
    Except Error (UInt8 × List (UInt32 × Int16)) :=
  if p.length < numberPayloadLen then .error (.badSeries "shorter than scale + first reading")
  else
    let scale := p[0]!
    if !scaleIsValid scale then .error (.badSeries "scale must be 0x01..=0x07")
    else
      let rest := p.drop numberPayloadLen
      if rest.isEmpty then .error (.badSeries "SERIES must carry at least two readings")
      else
        let (entries, remainder) := asChunks4 rest
        if !remainder.isEmpty then .error (.badSeries "trailing entries must be 4 bytes each")
        else if ticksPerEpoch ≤ anchorOffset then
          .error (.badSeries "datagram_offset exceeds 19 bits")
        else do
          let readings ← readEntries anchorOffset [(anchorOffset, i16OfBe [p[1]!, p[2]!])] entries
          return (scale, readings)

/-! ### The accepted `NUMBER` payloads -/

/-- On three octets, only the scale is checked. -/
private theorem validateNumber_cons (scale b c : UInt8) : validateNumber [scale, b, c] =
    if !scaleIsValid scale then .error (.badNumber "scale must be 0x01..=0x07")
    else .ok (scale, i16OfBe [b, c]) := rfl

private theorem length_of_validateNumber {p : Bytes} {r : UInt8 × Int16}
    (h : validateNumber p = .ok r) :
    p.length = 3 := by
  rw [validateNumber] at h
  split_ifs at h with hlen
  exact not_not.mp hlen

/-- A `NUMBER` is a scale in range and any mantissa. -/
theorem validateNumber_eq_ok_iff {p : Bytes} {scale : UInt8} {mantissa : Int16} :
    validateNumber p = .ok (scale, mantissa) ↔
      scaleIsValid scale = true ∧ p = scale :: i16ToBe mantissa := by
  constructor
  · intro h
    obtain ⟨a, b, c, rfl⟩ := List.length_eq_three.mp (length_of_validateNumber h)
    rw [validateNumber_cons] at h
    split_ifs at h with hscale
    obtain ⟨rfl, rfl⟩ : a = scale ∧ i16OfBe [b, c] = mantissa := by simpa using h
    exact ⟨by simpa using hscale, by rw [i16ToBe_i16OfBe rfl]⟩
  · rintro ⟨hscale, rfl⟩
    obtain ⟨b, c, hbc⟩ := List.length_eq_two.mp (length_i16ToBe mantissa)
    rw [hbc, validateNumber_cons, hscale, ← hbc, i16OfBe_i16ToBe]
    rfl

/-! ### The accepted `SERIES` payloads -/

/-- One entry after the first reading: ticks since the previous instant, and a mantissa. -/
structure SeriesEntry where
  delta : UInt16
  mantissa : Int16
  deriving DecidableEq, Repr

namespace SeriesEntry

/-- The entry on the wire: the distance from the instant before, and the mantissa. -/
def toBytes (e : SeriesEntry) : Bytes := u16ToBe e.delta ++ i16ToBe e.mantissa

/-- The entry a chunk stands for. -/
def ofChunk : Chunk → SeriesEntry
  | (a, b, c, d) => ⟨u16OfBe [a, b], i16OfBe [c, d]⟩

/-- An entry is four octets. -/
@[simp] theorem length_toBytes (e : SeriesEntry) : e.toBytes.length = seriesEntryLen := by
  simp [toBytes]

/-- A chunk of four octets is the entry it is read as. -/
private theorem toBytes_ofChunk (a b c d : UInt8) :
    (ofChunk (a, b, c, d)).toBytes = [a, b, c, d] := by
  rw [ofChunk, toBytes, u16ToBe_u16OfBe rfl, i16ToBe_i16OfBe rfl]
  rfl

private theorem exists_ofChunk_eq (e : SeriesEntry) : ∃ a b c d, ofChunk (a, b, c, d) = e ∧
    e.toBytes = [a, b, c, d] := by
  obtain ⟨a, b, hab⟩ := List.length_eq_two.mp (length_u16ToBe e.delta)
  obtain ⟨c, d, hcd⟩ := List.length_eq_two.mp (length_i16ToBe e.mantissa)
  refine ⟨a, b, c, d, ?_, by rw [toBytes, hab, hcd]; rfl⟩
  rw [ofChunk, ← hab, ← hcd, u16OfBe_u16ToBe, i16OfBe_i16ToBe]

end SeriesEntry

/-- The instants of the readings after one at `t`. -/
def instantsFrom (t : ℕ) : List SeriesEntry → List ℕ
  | [] => []
  | e :: es => (t + e.delta.toNat) :: instantsFrom (t + e.delta.toNat) es

/-- The readings after one at `cum`. -/
def readingsFrom (cum : UInt32) : List SeriesEntry → List (UInt32 × Int16)
  | [] => []
  | e :: es => (cum + e.delta.toUInt32, e.mantissa) :: readingsFrom (cum + e.delta.toUInt32) es

/-- A payload is its chunks and what is left over. -/
private theorem asChunks4_eq (p : Bytes) :
    p = ((asChunks4 p).1.map SeriesEntry.ofChunk).flatMap SeriesEntry.toBytes ++
      (asChunks4 p).2 := by
  induction p using asChunks4.induct with
  | case1 a b c d rest ih =>
    rw [asChunks4, List.map_cons, List.flatMap_cons, SeriesEntry.toBytes_ofChunk,
      List.append_assoc, ← ih]
    rfl
  | case2 rest h =>
    rw [asChunks4]
    · rfl
    · exact h

/-- Entries laid end to end are cut into those entries, with nothing left over. -/
private theorem asChunks4_flatMap (es : List SeriesEntry) :
    ∃ cs, asChunks4 (es.flatMap SeriesEntry.toBytes) = (cs, []) ∧
      cs.map SeriesEntry.ofChunk = es := by
  induction es with
  | nil => exact ⟨[], rfl, rfl⟩
  | cons e es ih =>
    obtain ⟨cs, hcs, hmap⟩ := ih
    obtain ⟨a, b, c, d, hchunk, hbytes⟩ := e.exists_ofChunk_eq
    refine ⟨(a, b, c, d) :: cs, ?_, by rw [List.map_cons, hchunk, hmap]⟩
    rw [List.flatMap_cons, hbytes]
    simp only [List.cons_append, List.nil_append, asChunks4, hcs]

/-- A payload splits into whole chunks exactly when it is written by entries. -/
theorem asChunks4_eq_iff {p : Bytes} {es : List SeriesEntry} :
    (asChunks4 p).1.map SeriesEntry.ofChunk = es ∧ (asChunks4 p).2 = [] ↔
      p = es.flatMap SeriesEntry.toBytes := by
  constructor
  · rintro ⟨rfl, hnone⟩
    have hbytes := asChunks4_eq p
    rwa [hnone, List.append_nil] at hbytes
  · rintro rfl
    obtain ⟨cs, hcs, hmap⟩ := asChunks4_flatMap es
    rw [hcs]
    exact ⟨hmap, rfl⟩

/-- No entry is empty, so only no entries are. -/
theorem SeriesEntry.flatMap_toBytes_eq_nil_iff {es : List SeriesEntry} :
    es.flatMap SeriesEntry.toBytes = [] ↔ es = [] := by
  cases es with
  | nil => simp
  | cons e es =>
    obtain ⟨a, b, c, d, -, hbytes⟩ := e.exists_ofChunk_eq
    simp [hbytes]

/-- One more instant, as long as it stays inside the epoch. -/
theorem stepInstant_eq_some_iff {cum c : UInt32} {delta : UInt16} :
    stepInstant cum delta = some c ↔
      cum.toNat + delta.toNat < 2 ^ 19 ∧ c = cum + delta.toUInt32 := by
  have hd : delta.toNat < 2 ^ 16 := delta.toNat_lt
  have hlt : cum + delta.toUInt32 < ticksPerEpoch ↔
      (cum.toNat + delta.toNat) % 2 ^ 32 < 2 ^ 19 := by
    rw [UInt32.lt_iff_toNat_lt, UInt32.toNat_add, UInt16.toNat_toUInt32]
    rfl
  rw [stepInstant]
  split_ifs with h1 h2
  · rw [hlt, Nat.mod_eq_of_lt h1] at h2
    simp only [Option.some.injEq, h2, true_and, eq_comm]
  · rw [hlt, Nat.mod_eq_of_lt h1] at h2
    exact ⟨nofun, fun h => absurd h.1 h2⟩
  · exact ⟨nofun, fun h => absurd h.1 (by omega)⟩

/-- The loop succeeds when every delta is positive and every instant stays inside the epoch. -/
theorem readEntries_eq_ok_iff {cum : UInt32} {acc : List (UInt32 × Int16)} {cs : List Chunk}
    {readings : List (UInt32 × Int16)} :
    readEntries cum acc cs = .ok readings ↔
      (∀ e ∈ cs.map SeriesEntry.ofChunk, e.delta ≠ 0) ∧
        (∀ t ∈ instantsFrom cum.toNat (cs.map SeriesEntry.ofChunk), t < 2 ^ 19) ∧
        readings = acc ++ readingsFrom cum (cs.map SeriesEntry.ofChunk) := by
  induction cs generalizing cum acc with
  | nil => simp [readEntries, instantsFrom, readingsFrom, eq_comm]
  | cons chunk cs ih =>
    obtain ⟨a, b, c, d⟩ := chunk
    simp only [readEntries, List.map_cons, List.forall_mem_cons, instantsFrom, readingsFrom,
      SeriesEntry.ofChunk]
    -- only the two numbers of the chunk matter from here
    generalize u16OfBe [a, b] = delta
    generalize i16OfBe [c, d] = mantissa
    by_cases h0 : delta = 0
    · simp [h0]
    rw [if_neg h0]
    cases hstep : stepInstant cum delta with
    | none =>
      have hcross : ¬cum.toNat + delta.toNat < 2 ^ 19 := fun hlt => by
        rw [stepInstant_eq_some_iff.mpr ⟨hlt, rfl⟩] at hstep
        cases hstep
      have hcross' : ¬∀ t ∈ (cum.toNat + delta.toNat) :: instantsFrom (cum.toNat + delta.toNat)
          (cs.map SeriesEntry.ofChunk), t < 2 ^ 19 := fun h => hcross (h _ List.mem_cons_self)
      simp only [List.forall_mem_cons] at hcross'
      simp only [reduceCtorEq, false_iff]
      tauto
    | some next =>
      obtain ⟨hlt, rfl⟩ := stepInstant_eq_some_iff.mp hstep
      have hnat : (cum + delta.toUInt32).toNat = cum.toNat + delta.toNat := by
        rw [UInt32.toNat_add, UInt16.toNat_toUInt32]
        exact Nat.mod_eq_of_lt (by omega)
      simp only [ih, hnat, List.append_assoc, List.singleton_append]
      tauto

/-- Behind scale and first mantissa, the checks in the order the code makes them. -/
private theorem validateSeries_cons (scale b c : UInt8) (rest : Bytes) (anchor : UInt32) :
    validateSeries (scale :: b :: c :: rest) anchor =
      if !scaleIsValid scale then .error (.badSeries "scale must be 0x01..=0x07")
      else if rest.isEmpty then .error (.badSeries "SERIES must carry at least two readings")
      else if !(asChunks4 rest).2.isEmpty then
        .error (.badSeries "trailing entries must be 4 bytes each")
      else if ticksPerEpoch ≤ anchor then .error (.badSeries "datagram_offset exceeds 19 bits")
      else do
        let readings ← readEntries anchor [(anchor, i16OfBe [b, c])] (asChunks4 rest).1
        return (scale, readings) := by
  have hlen : ¬(scale :: b :: c :: rest).length < numberPayloadLen := by simp [numberPayloadLen]
  rw [validateSeries, if_neg hlen]
  rfl

/-- The checks of `validateSeries` behind its first, on the length. -/
theorem validateSeries_cons_eq_ok_iff {a b c : UInt8} {rest : Bytes} {anchor : UInt32}
    {scale : UInt8} {readings : List (UInt32 × Int16)} :
    validateSeries (a :: b :: c :: rest) anchor = .ok (scale, readings) ↔
      scaleIsValid a = true ∧ a = scale ∧ rest ≠ [] ∧ (asChunks4 rest).2 = [] ∧
        anchor.toNat < 2 ^ 19 ∧
        readEntries anchor [(anchor, i16OfBe [b, c])] (asChunks4 rest).1 = .ok readings := by
  rw [validateSeries_cons]
  split_ifs with hscale hrest hrem hanchor
  · exact ⟨nofun, fun h => by simp [h.1] at hscale⟩
  · exact ⟨nofun, fun h => absurd (List.isEmpty_iff.mp hrest) h.2.2.1⟩
  · exact ⟨nofun, fun h => by simp [h.2.2.2.1] at hrem⟩
  · refine ⟨nofun, fun h => ?_⟩
    rw [UInt32.le_iff_toNat_le] at hanchor
    exact absurd h.2.2.2.2.1 (Nat.not_lt.mpr hanchor)
  · rw [UInt32.le_iff_toNat_le] at hanchor
    have hin : anchor.toNat < 2 ^ 19 := Nat.not_le.mp hanchor
    have hvalid : scaleIsValid a = true := by simpa using hscale
    have hne : rest ≠ [] := mt List.isEmpty_iff.mpr hrest
    have hnone : (asChunks4 rest).2 = [] := by simpa using hrem
    rw [and_iff_right hvalid, and_iff_right hne, and_iff_right hnone, and_iff_right hin]
    cases readEntries anchor [(anchor, i16OfBe [b, c])] (asChunks4 rest).1 with
    | error e => exact ⟨nofun, fun h => by cases h.2⟩
    | ok rs => simp [bind, Except.bind, pure, Except.pure]

/-- **`validateSeries` accepts exactly the well-formed payloads**: a valid scale, a first
reading inside the epoch, one or more further entries with positive deltas, and all their
instants inside the epoch. -/
theorem validateSeries_eq_ok_iff {p : Bytes} {anchor : UInt32} {scale : UInt8}
    {readings : List (UInt32 × Int16)} :
    validateSeries p anchor = .ok (scale, readings) ↔
      ∃ first es, scaleIsValid scale = true ∧ es ≠ [] ∧
        p = scale :: i16ToBe first ++ es.flatMap SeriesEntry.toBytes ∧
        anchor.toNat < 2 ^ 19 ∧ (∀ e ∈ es, e.delta ≠ 0) ∧
        (∀ t ∈ instantsFrom anchor.toNat es, t < 2 ^ 19) ∧
        readings = (anchor, first) :: readingsFrom anchor es := by
  constructor
  · intro h
    obtain _ | ⟨a, _ | ⟨b, _ | ⟨c, rest⟩⟩⟩ := p
    · simp [validateSeries] at h
    · simp [validateSeries] at h
    · simp [validateSeries] at h
    obtain ⟨hscale, rfl, hne, hnone, hanchor, hread⟩ := validateSeries_cons_eq_ok_iff.mp h
    obtain ⟨hdelta, hinst, hrs⟩ := readEntries_eq_ok_iff.mp hread
    have hrest := asChunks4_eq_iff.mp ⟨rfl, hnone⟩
    have hes : (asChunks4 rest).1.map SeriesEntry.ofChunk ≠ [] := by
      rwa [ne_eq, ← SeriesEntry.flatMap_toBytes_eq_nil_iff, ← hrest]
    refine ⟨i16OfBe [b, c], _, hscale, hes, ?_, hanchor, hdelta, hinst, hrs⟩
    rw [← hrest, i16ToBe_i16OfBe rfl]
    rfl
  · rintro ⟨first, es, hscale, hne, rfl, hanchor, hdelta, hinst, rfl⟩
    obtain ⟨b, c, hbc⟩ := List.length_eq_two.mp (length_i16ToBe first)
    obtain ⟨hmap, hnone⟩ := (@asChunks4_eq_iff _ es).mpr rfl
    have hread : readEntries anchor [(anchor, i16OfBe (i16ToBe first))]
        (asChunks4 (es.flatMap SeriesEntry.toBytes)).1 = .ok _ :=
      readEntries_eq_ok_iff.mpr ⟨by rwa [hmap], by rwa [hmap], rfl⟩
    rw [hmap, i16OfBe_i16ToBe] at hread
    rw [hbc, List.cons_append, List.cons_append, List.cons_append, List.nil_append]
    refine validateSeries_cons_eq_ok_iff.mpr
      ⟨hscale, rfl, mt SeriesEntry.flatMap_toBytes_eq_nil_iff.mp hne, hnone, hanchor, ?_⟩
    rw [← hbc, i16OfBe_i16ToBe]
    exact hread

end Catp
