import Catp.Wire.Datagram
import Mathlib.Algebra.BigOperators.Group.List.Basic

/-!
# Series

`Datagram::series` writes a list of readings as a first reading and entries of tick differences,
and `validate_series` reads it back. Both sides have one specification in terms of the entries:
`validateSeries_eq_ok_iff` of the validator and `series_eq_ok_iff` of the builder. The lists of
readings that entries stand for are those whose instants increase by steps of at most 65535
(`exists_entries`, `isChain_readingsFrom`).

* `Follows` is the condition on neighbours that the builder checks: the later instant is larger,
  by no more than a `u16` can say. `exists_entries` and `isChain_readingsFrom` pass between chains
  of readings and lists of entries.
* Of the instants, the builder checks the first and the last against the end of the epoch. As they
  increase, that is enough for all of them (`forall_instantsFrom_lt_iff`).
* `series_validateSeries` collects both directions: what is accepted of readings, that what is
  built of them has these values, and that a payload which validates is the one built of its
  readings.
-/

namespace Catp

/-! ### Entries and readings -/

/-- The instant increases from one reading to the next, by no more than a 16-bit delta can
say. -/
def Follows (a b : UInt32 × Int16) : Prop := a.1 < b.1 ∧ b.1.toNat ≤ a.1.toNat + 65535

instance (a b : UInt32 × Int16) : Decidable (Follows a b) := inferInstanceAs (Decidable (_ ∧ _))

/-- The instant of the last entry after one at `t`. -/
def lastInstant (t : ℕ) (es : List SeriesEntry) : ℕ := t + (es.map fun e => e.delta.toNat).sum

@[simp] theorem lastInstant_nil (t : ℕ) : lastInstant t [] = t := rfl

@[simp] theorem lastInstant_cons (t : ℕ) (e : SeriesEntry) (es : List SeriesEntry) :
    lastInstant t (e :: es) = lastInstant (t + e.delta.toNat) es := by
  rw [lastInstant, lastInstant, List.map_cons, List.sum_cons, Nat.add_assoc]

private theorem le_lastInstant (t : ℕ) (es : List SeriesEntry) : t ≤ lastInstant t es :=
  Nat.le_add_right _ _

/-- All instants lie below a bound when the last does. -/
theorem forall_instantsFrom_lt_iff {t N : ℕ} (ht : t < N) (es : List SeriesEntry) :
    (∀ x ∈ instantsFrom t es, x < N) ↔ lastInstant t es < N := by
  induction es generalizing t with
  | nil => simp [instantsFrom, ht]
  | cons e es ih =>
    rw [instantsFrom, List.forall_mem_cons, lastInstant_cons]
    constructor
    · rintro ⟨hx, hrest⟩
      exact (ih hx).mp hrest
    · intro hlast
      have hx := (le_lastInstant (t + e.delta.toNat) es).trans_lt hlast
      exact ⟨hx, (ih hx).mpr hlast⟩

private theorem toNat_add_delta {t : UInt32} {delta : UInt16} (h : t.toNat + delta.toNat < 2 ^ 32) :
    (t + delta.toUInt32).toNat = t.toNat + delta.toNat := by
  rw [UInt32.toNat_add, UInt16.toNat_toUInt32, Nat.mod_eq_of_lt h]

/-- The delta between two readings, one of which follows the other. -/
theorem Follows.delta {a b : UInt32 × Int16} (h : Follows a b) :
    (b.1 - a.1).toUInt16.toNat = b.1.toNat - a.1.toNat ∧
      a.1 + (b.1 - a.1).toUInt16.toUInt32 = b.1 := by
  have hlt : a.1.toNat < b.1.toNat := UInt32.lt_iff_toNat_lt.mp h.1
  have hgap := h.2
  have hb := b.1.toNat_lt
  have hdelta : (b.1 - a.1).toUInt16.toNat = b.1.toNat - a.1.toNat := by
    rw [UInt32.toNat_toUInt16, UInt32.toNat_sub_of_le _ _ (UInt32.le_of_lt h.1)]
    exact Nat.mod_eq_of_lt (by omega)
  refine ⟨hdelta, ?_⟩
  rw [← UInt32.toNat_inj, toNat_add_delta (by omega), hdelta]
  omega

/-- An entry that stays in 32 bits stands for a reading that follows. -/
private theorem follows_of_delta {t : UInt32} {e : SeriesEntry} (hdelta : e.delta ≠ 0)
    (hnext : t.toNat + e.delta.toNat < 2 ^ 32) (m m' : Int16) :
    Follows (t, m) (t + e.delta.toUInt32, m') := by
  have hpos : 0 < e.delta.toNat := Nat.pos_of_ne_zero fun h0 => hdelta (UInt16.toNat_inj.mp h0)
  have hsmall : e.delta.toNat < 2 ^ 16 := e.delta.toNat_lt
  have hadd := toNat_add_delta hnext
  refine ⟨UInt32.lt_iff_toNat_lt.mpr ?_, ?_⟩
  · dsimp only
    omega
  · dsimp only
    omega

/-- Readings whose instants increase by 16-bit steps are those of some entries. -/
theorem exists_entries {prev : UInt32 × Int16} {readings : List (UInt32 × Int16)}
    (h : (prev :: readings).IsChain Follows) :
    ∃ es, readings = readingsFrom prev.1 es ∧ (∀ e ∈ es, e.delta ≠ 0) ∧
      instantsFrom prev.1.toNat es = readings.map fun r => r.1.toNat := by
  induction readings generalizing prev with
  | nil => exact ⟨[], rfl, by simp, rfl⟩
  | cons r readings ih =>
    obtain ⟨hr, hrest⟩ := List.isChain_cons_cons.mp h
    obtain ⟨es, hes, hne, hinst⟩ := ih hrest
    obtain ⟨hdelta, hadd⟩ := hr.delta
    have hlt : prev.1.toNat < r.1.toNat := UInt32.lt_iff_toNat_lt.mp hr.1
    refine ⟨⟨(r.1 - prev.1).toUInt16, r.2⟩ :: es, by rw [readingsFrom, hadd, ← hes], ?_, ?_⟩
    · refine List.forall_mem_cons.mpr ⟨fun h0 => ?_, hne⟩
      rw [← UInt16.toNat_inj, hdelta, UInt16.toNat_zero] at h0
      omega
    · rw [instantsFrom, hdelta, Nat.add_sub_cancel' hlt.le, hinst, List.map_cons]

/-- The readings of entries increase by 16-bit steps, at the instants of the entries. -/
theorem isChain_readingsFrom {prev : UInt32 × Int16} {es : List SeriesEntry}
    (hdelta : ∀ e ∈ es, e.delta ≠ 0) (hlast : lastInstant prev.1.toNat es < 2 ^ 32) :
    (prev :: readingsFrom prev.1 es).IsChain Follows ∧
      (readingsFrom prev.1 es).map (fun r => r.1.toNat) = instantsFrom prev.1.toNat es := by
  induction es generalizing prev with
  | nil => exact ⟨.singleton _, rfl⟩
  | cons e es ih =>
    obtain ⟨he, hes⟩ := List.forall_mem_cons.mp hdelta
    rw [lastInstant_cons] at hlast
    have hnext := toNat_add_delta ((le_lastInstant _ es).trans_lt hlast)
    obtain ⟨hchain, hmap⟩ := @ih (prev.1 + e.delta.toUInt32, e.mantissa) hes (by rwa [hnext])
    rw [readingsFrom, List.map_cons, hmap, instantsFrom, hnext]
    exact ⟨List.isChain_cons_cons.mpr ⟨follows_of_delta he
      ((le_lastInstant _ es).trans_lt hlast) prev.2 e.mantissa, hchain⟩, rfl⟩

/-! ### The builder -/

namespace Datagram

/-- What the loop of the builder writes are the entries of the readings. -/
private theorem seriesEntries_ok {prev last : UInt32} {raw raw' : Bytes}
    {readings : List (UInt32 × Int16)} (h : seriesEntries prev raw readings = .ok (last, raw')) :
    ∃ es, readings = readingsFrom prev es ∧ raw' = raw ++ es.flatMap SeriesEntry.toBytes ∧
      (∀ e ∈ es, e.delta ≠ 0) ∧ last.toNat = lastInstant prev.toNat es := by
  induction readings generalizing prev raw with
  | nil =>
    obtain ⟨rfl, rfl⟩ : prev = last ∧ raw = raw' := by simpa [seriesEntries] using h
    exact ⟨[], rfl, by simp, by simp, rfl⟩
  | cons reading readings ih =>
    obtain ⟨offset, mantissa⟩ := reading
    rw [seriesEntries] at h
    split_ifs at h with hle hgap
    obtain ⟨es, hread, rfl, hdelta, hlast⟩ := ih h
    have hlt := UInt32.not_le.mp hle
    -- the instant increases, so the difference does not wrap, and it fits a `u16`
    have hsub : (offset - prev).toNat = offset.toNat - prev.toNat :=
      UInt32.toNat_sub_of_le offset prev (UInt32.le_of_lt hlt)
    have hfollows : Follows (prev, 0) (offset, mantissa) := by
      refine ⟨hlt, ?_⟩
      dsimp only
      omega
    obtain ⟨hnat, hadd⟩ := hfollows.delta
    have hpos : prev.toNat < offset.toNat := UInt32.lt_iff_toNat_lt.mp hlt
    dsimp only at hnat hadd
    refine ⟨⟨(offset - prev).toUInt16, mantissa⟩ :: es, ?_, ?_, ?_, ?_⟩
    · rw [readingsFrom, hadd, hread]
    · simp [SeriesEntry.toBytes]
    · refine List.forall_mem_cons.mpr ⟨fun h0 => ?_, hdelta⟩
      rw [← UInt16.toNat_inj, hnat, UInt16.toNat_zero] at h0
      omega
    · rw [lastInstant_cons, hlast, hnat, Nat.add_sub_cancel' hpos.le]

/-- The loop of the builder takes the readings of any entries inside 32 bits. -/
private theorem seriesEntries_readingsFrom (prev : UInt32) {es : List SeriesEntry} (raw : Bytes)
    (hdelta : ∀ e ∈ es, e.delta ≠ 0) (hlast : lastInstant prev.toNat es < 2 ^ 32) :
    ∃ last, seriesEntries prev raw (readingsFrom prev es) =
        .ok (last, raw ++ es.flatMap SeriesEntry.toBytes) ∧
      last.toNat = lastInstant prev.toNat es := by
  induction es generalizing prev raw with
  | nil => exact ⟨prev, by simp [seriesEntries, readingsFrom], rfl⟩
  | cons e es ih =>
    obtain ⟨he, hes⟩ := List.forall_mem_cons.mp hdelta
    rw [lastInstant_cons] at hlast
    have hnext := (le_lastInstant _ es).trans_lt hlast
    have hadd := toNat_add_delta hnext
    have hfollows := follows_of_delta he hnext 0 e.mantissa
    have hdiff : prev + e.delta.toUInt32 - prev = e.delta.toUInt32 := by
      rw [UInt32.add_comm, UInt32.add_sub_cancel]
    have hgap : ¬2 ^ 16 ≤ e.delta.toUInt32.toNat := Nat.not_le.mpr e.delta.toNat_lt
    obtain ⟨last, hok, heq⟩ :=
      @ih (prev + e.delta.toUInt32) (raw ++ e.toBytes) hes (by rwa [hadd])
    refine ⟨last, ?_, by rw [heq, lastInstant_cons, hadd]⟩
    rw [readingsFrom, seriesEntries, if_neg (UInt32.not_le.mpr hfollows.1), hdiff, if_neg hgap,
      UInt16.toUInt16_toUInt32, List.append_assoc, ← SeriesEntry.toBytes, hok, List.flatMap_cons,
      List.append_assoc]

/-- The checks of `series` on two or more readings. -/
private theorem series_cons {cipher : CipherId} {s e off : UInt32} {scale : UInt8} {first : Int16}
    {reading : UInt32 × Int16} {readings : List (UInt32 × Int16)} :
    series cipher s e scale ((off, first) :: reading :: readings) =
      if !scaleIsValid scale then .error (.badSeries "scale must be 0x01..=0x07")
      else if ticksPerEpoch ≤ off then .error (.framing "datagram_offset exceeds 19 bits")
      else
        match seriesEntries off (scale :: i16ToBe first) (reading :: readings) with
        | .error e => .error e
        | .ok (prev, raw) =>
          if ticksPerEpoch ≤ prev then
            .error (.badSeries "reading instant crosses the epoch boundary")
          else .ok { base .series cipher s e off with raw := raw } := by
  have hlen : ¬((off, first) :: reading :: readings).length < 2 := by simp
  rw [series, if_neg hlen]
  rfl

/-- **What the builder accepts, and what it builds.** -/
theorem series_eq_ok_iff {cipher : CipherId} {s e : UInt32} {scale : UInt8}
    {readings : List (UInt32 × Int16)} {d : Datagram} :
    series cipher s e scale readings = .ok d ↔
      ∃ off first es, scaleIsValid scale = true ∧ es ≠ [] ∧
        readings = (off, first) :: readingsFrom off es ∧ off.toNat < 2 ^ 19 ∧
        (∀ e ∈ es, e.delta ≠ 0) ∧ (∀ t ∈ instantsFrom off.toNat es, t < 2 ^ 19) ∧
        d = { base .series cipher s e off with
          raw := scale :: i16ToBe first ++ es.flatMap SeriesEntry.toBytes } := by
  constructor
  · intro h
    -- the builder refuses fewer than two readings
    obtain _ | ⟨⟨off, first⟩, _ | ⟨reading, readings⟩⟩ := readings
    · rw [series] at h
      split_ifs at h with _ hlen
      exact absurd (by simp) hlen
    · rw [series] at h
      split_ifs at h with _ hlen
      exact absurd (by simp) hlen
    rw [series_cons] at h
    split_ifs at h with hscale hoff
    rcases hentries : seriesEntries off (scale :: i16ToBe first) (reading :: readings) with
      err | ⟨last, raw⟩
    · rw [hentries] at h
      cases h
    · rw [hentries] at h
      dsimp only at h
      split_ifs at h with hlast
      obtain ⟨es, hread, rfl, hdelta, heq⟩ := seriesEntries_ok hentries
      rw [not_ticksPerEpoch_le] at hoff hlast
      refine ⟨off, first, es, by simpa using hscale, ?_, by rw [hread], hoff, hdelta,
        (forall_instantsFrom_lt_iff hoff es).mpr (heq ▸ hlast), (Except.ok.inj h).symm⟩
      rintro rfl
      cases hread
  · rintro ⟨off, first, es, hscale, hne, rfl, hoff, hdelta, hinst, rfl⟩
    have hlast := (forall_instantsFrom_lt_iff hoff es).mp hinst
    obtain ⟨last, hok, heq⟩ := seriesEntries_readingsFrom off (scale :: i16ToBe first)
      hdelta (hlast.trans (by decide))
    obtain ⟨e0, es, rfl⟩ := List.exists_cons_of_ne_nil hne
    rw [readingsFrom] at hok ⊢
    rw [series_cons, hscale, if_neg (not_ticksPerEpoch_le.mpr hoff), hok]
    dsimp only
    rw [if_neg (not_ticksPerEpoch_le.mpr (heq ▸ hlast))]
    rfl

/-- The `SERIES` readings, if this is one. -/
def seriesValues (d : Datagram) : Option (UInt8 × List (UInt32 × Int16)) :=
  if d.msgType = MsgType.series.toU8 then (validateSeries d.raw d.datagramOffset).toOption
  else none

/-- The builder accepts the lists of two or more readings that increase by 16-bit steps and
stay inside the epoch. -/
theorem exists_series_iff {cipher : CipherId} {s e : UInt32} {scale : UInt8}
    {readings : List (UInt32 × Int16)} :
    (∃ d, series cipher s e scale readings = .ok d) ↔
      (1 ≤ scale.toNat ∧ scale.toNat ≤ 7) ∧ 2 ≤ readings.length ∧ readings.IsChain Follows ∧
        ∀ r ∈ readings, r.1.toNat < 2 ^ 19 := by
  have hscale : scaleIsValid scale = true ↔ 1 ≤ scale.toNat ∧ scale.toNat ≤ 7 := by
    rw [scaleIsValid, Bool.and_eq_true, decide_eq_true_eq, decide_eq_true_eq,
      UInt8.le_iff_toNat_le, UInt8.le_iff_toNat_le]
    rfl
  simp only [series_eq_ok_iff, ← hscale]
  constructor
  · rintro ⟨d, off, first, es, hvalid, hne, rfl, hoff, hdelta, hinst, -⟩
    have hlast := (forall_instantsFrom_lt_iff hoff es).mp hinst
    obtain ⟨hchain, hmap⟩ := @isChain_readingsFrom (off, first) es hdelta (hlast.trans (by decide))
    obtain ⟨e0, es, rfl⟩ := List.exists_cons_of_ne_nil hne
    refine ⟨hvalid, by simp [readingsFrom], hchain, List.forall_mem_cons.mpr ⟨hoff, ?_⟩⟩
    intro r hr
    exact hinst _ (hmap ▸ List.mem_map_of_mem hr)
  · rintro ⟨hvalid, hlen, hchain, hall⟩
    obtain ⟨⟨off, first⟩, readings, rfl⟩ :=
      List.exists_cons_of_ne_nil (List.ne_nil_of_length_pos (by omega : 0 < readings.length))
    obtain ⟨hoff, hrest⟩ := List.forall_mem_cons.mp hall
    obtain ⟨es, rfl, hdelta, hinst⟩ := exists_entries hchain
    refine ⟨_, off, first, es, hvalid, ?_, rfl, hoff, hdelta, ?_, rfl⟩
    · rintro rfl
      simp [readingsFrom] at hlen
    · rw [hinst]
      exact List.forall_mem_map.mpr hrest

/-- **Builder and validator are inverse to each other.** -/
theorem series_validateSeries (cipher : CipherId) (s e : UInt32) (scale : UInt8)
    (readings : List (UInt32 × Int16)) :
    ((∃ d, series cipher s e scale readings = .ok d) ↔
        (1 ≤ scale.toNat ∧ scale.toNat ≤ 7) ∧ 2 ≤ readings.length ∧ readings.IsChain Follows ∧
          ∀ r ∈ readings, r.1.toNat < 2 ^ 19) ∧
      (∀ d, series cipher s e scale readings = .ok d →
        d.seriesValues = some (scale, readings)) ∧
      ∀ p anchor, validateSeries p anchor = .ok (scale, readings) →
        ∃ d, series cipher s e scale readings = .ok d ∧ d.datagramOffset = anchor ∧ d.raw = p := by
  refine ⟨exists_series_iff, ?_, ?_⟩
  · intro d h
    obtain ⟨off, first, es, hscale, hne, hread, hoff, hdelta, hinst, rfl⟩ := series_eq_ok_iff.mp h
    have hval := validateSeries_eq_ok_iff.mpr
      ⟨first, es, hscale, hne, rfl, hoff, hdelta, hinst, hread⟩
    exact (if_pos rfl).trans (congrArg Except.toOption hval)
  · intro p anchor h
    obtain ⟨first, es, hscale, hne, rfl, hoff, hdelta, hinst, hread⟩ :=
      validateSeries_eq_ok_iff.mp h
    exact ⟨_,
      series_eq_ok_iff.mpr ⟨anchor, first, es, hscale, hne, hread, hoff, hdelta, hinst, rfl⟩,
      rfl, rfl⟩

end Datagram

end Catp
