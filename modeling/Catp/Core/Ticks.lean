import Catp.Core.Pacer
import Mathlib.Algebra.Order.Floor.Semifield
import Mathlib.Data.Prod.Lex
import Mathlib.Data.Rat.Floor
import Mathlib.Tactic.Ring

/-!
# Offset allocation under a clock that never rewinds

The tick of a clock reading is its time in 1/4096 seconds, rounded down. An epoch holds 2^19
ticks, and the pair that `claim` hands out is the tick, split into epoch and offset
(`tick_eq_epoch_offset`).

Under a clock that never rewinds a pacer only ever compares a reading with the one before it, so
it refuses exactly the calls in the tick of the last pair it handed out (`claim_exact`). A pacer
that has lost its state compares with nothing; as long as it is not used again in the same tick,
that makes no difference, so a run may replace it.

**Absolute ticks.** `Reading.tick` is defined on the rational time of the reading, and
`Reading.toNat_epoch` and `Reading.toNat_offset` connect it with the integer arithmetic of the
code; both need a reading whose epoch is one (`Reading.Valid`), that is, whose seconds lie below
`2 ^ 39`.

**Runs.** A `Call` says with which reading `claim` is called, and whether the pacer is a new one.
`Forward` is the condition on a call after others: its reading does not lie before that of the
previous call, and a new pacer is not used in the tick of that call. `Paced` is the invariant: the
pacer stores the last reading, whose tick is the last one handed out, and the ticks handed out
increase. `Paced.call_eq` says what the next call does, and `claim_exact` what every call of a run
does.
-/

namespace Catp

open Transducer

/-- The absolute tick of an instant. -/
def Reading.tick (r : Reading) : ℕ :=
  ⌊((r.unixSecs.toNat : ℚ) + r.nanos.toNat / 10 ^ 9) * 4096⌋₊

/-- An instant of the clock: the nanoseconds are less than a second, the epoch is one. -/
def Reading.Valid (r : Reading) : Prop := r.unixSecs.toNat < 2 ^ 39 ∧ r.nanos.toNat < 10 ^ 9

instance (r : Reading) : Decidable r.Valid := inferInstanceAs (Decidable (_ ∧ _))

/-- The clock has not rewound from one reading to the other. -/
def Reading.NotAfter (r r' : Reading) : Prop :=
  r.unixSecs < r'.unixSecs ∨ r.unixSecs = r'.unixSecs ∧ r.nanos ≤ r'.nanos

instance (r r' : Reading) : Decidable (r.NotAfter r') := inferInstanceAs (Decidable (_ ∨ _))

namespace Reading

variable {r r' : Reading}

/-- A tick is counted from the seconds and the nanoseconds, rounded down. -/
private theorem tick_eq (r : Reading) :
    r.tick = r.unixSecs.toNat * 4096 + r.nanos.toNat * 4096 / 1000000000 := by
  have hcast : ((r.unixSecs.toNat : ℚ) + r.nanos.toNat / 10 ^ 9) * 4096 =
      ((r.unixSecs.toNat * 4096 * 1000000000 + r.nanos.toNat * 4096 : ℕ) : ℚ) /
        (1000000000 : ℕ) := by
    push_cast
    ring
  rw [tick, hcast, Nat.floor_div_eq_div]
  omega

/-- Below `2 ^ 39` seconds the epoch does not wrap. -/
theorem toNat_epoch (h : r.Valid) : r.epoch.toNat = r.unixSecs.toNat / 128 := by
  have hsecs := h.1
  rw [epoch, epochIdAt, UInt64.toNat_toUInt32, UInt64.toNat_div]
  exact Nat.mod_eq_of_lt (by rw [show epochSecs.toNat = 128 from rfl]; omega)

/-- Below `2 ^ 39` seconds the offset is the tick within the epoch. -/
theorem toNat_offset (h : r.Valid) : r.offset.toNat =
    r.unixSecs.toNat % 128 * 4096 + r.nanos.toNat * 4096 / 1000000000 := by
  have hnanos := h.2
  have hticks : (r.nanos.toUInt64 * ticksPerSec / 1000000000).toNat =
      r.nanos.toNat * 4096 / 1000000000 := by
    rw [UInt64.toNat_div, UInt64.toNat_mul, UInt32.toNat_toUInt64,
      show ticksPerSec.toNat = 4096 from rfl, Nat.mod_eq_of_lt (by omega)]
    rfl
  have hsecs : (r.unixSecs % epochSecs * ticksPerSec).toNat = r.unixSecs.toNat % 128 * 4096 := by
    rw [UInt64.toNat_mul, UInt64.toNat_mod, show ticksPerSec.toNat = 4096 from rfl,
      show epochSecs.toNat = 128 from rfl, Nat.mod_eq_of_lt (by omega)]
  rw [offset, epochOffsetAt, UInt64.toNat_toUInt32, UInt64.toNat_mod, UInt64.toNat_add, hticks,
    hsecs, UInt32.toNat_toUInt64, show ticksPerEpoch.toNat = 524288 from rfl]
  have hfrac : r.nanos.toNat * 4096 / 1000000000 < 4096 := by omega
  generalize r.nanos.toNat * 4096 / 1000000000 = frac at hfrac ⊢
  omega

/-- **The tick of a reading, split into epoch and offset.** -/
theorem tick_eq_epoch_offset (h : r.Valid) :
    r.epoch.toNat * 2 ^ 19 + r.offset.toNat = r.tick ∧ r.offset.toNat < 2 ^ 19 := by
  have hnanos := h.2
  rw [tick_eq, toNat_epoch h, toNat_offset h]
  omega

/-- The epoch and the offset of a reading determine its tick, and conversely. -/
theorem tick_eq_iff (h : r.Valid) (h' : r'.Valid) :
    r.tick = r'.tick ↔ r.epoch = r'.epoch ∧ r.offset = r'.offset := by
  obtain ⟨htick, hlt⟩ := tick_eq_epoch_offset h
  obtain ⟨htick', hlt'⟩ := tick_eq_epoch_offset h'
  rw [← UInt32.toNat_inj, ← UInt32.toNat_inj]
  omega

private theorem NotAfter.tick_le (h : r.NotAfter r') (hr : r.Valid) : r.tick ≤ r'.tick := by
  have hnanos := hr.2
  rw [tick_eq, tick_eq]
  rcases h with hsecs | ⟨hsecs, hle⟩
  · rw [UInt64.lt_iff_toNat_lt] at hsecs
    omega
  · rw [UInt32.le_iff_toNat_le] at hle
    rw [hsecs]
    omega

end Reading

namespace Pacer

/-- A call of `claim`, by the pacer of the calls before or by a fresh one. -/
structure Call where
  fresh : Bool
  reading : Reading
  deriving DecidableEq, Repr

/-- One call. -/
def call (p : Pacer) (c : Call) : Except Error (UInt32 × UInt32) × Pacer :=
  (if c.fresh then new else p).claim c.reading

/-- A call after others: the clock has not rewound, and a fresh pacer is not used in the tick of
the call before it. -/
def Forward (pre : List Call) (c : Call) : Prop :=
  c.reading.Valid ∧ ∀ c' ∈ pre.getLast?, c'.reading.NotAfter c.reading ∧
    (c.fresh = true → c'.reading.tick ≠ c.reading.tick)

instance (pre : List Call) (c : Call) : Decidable (Forward pre c) :=
  inferInstanceAs (Decidable (_ ∧ ∀ c' ∈ pre.getLast?, _))

/-- The pairs handed out, each with the tick of its call. -/
def ticked (h : List (Call × Except Error (UInt32 × UInt32))) : List (ℕ × UInt32 × UInt32) :=
  h.filterMap fun x => x.2.toOption.map fun q => (x.1.reading.tick, q)

/-- The tick of the last successful call. -/
def lastTick (h : List (Call × Except Error (UInt32 × UInt32))) : Option ℕ :=
  (ticked h).getLast?.map Prod.fst

/-- A refused call hands out no tick. -/
@[simp] theorem ticked_concat_error (h : List (Call × Except Error (UInt32 × UInt32))) (c : Call)
    (e : Error) : ticked (h ++ [(c, .error e)]) = ticked h := by
  simp [ticked, Except.toOption]

/-- A call that succeeds hands out the tick it read. -/
@[simp] theorem ticked_concat_ok (h : List (Call × Except Error (UInt32 × UInt32))) (c : Call)
    (q : UInt32 × UInt32) :
    ticked (h ++ [(c, .ok q)]) = ticked h ++ [(c.reading.tick, q)] := by
  simp [ticked, Except.toOption]

/-- The pacer remembers the last reading, whose tick is the last one handed out. The pairs handed
out are the ticks of their calls, increasing. -/
structure Paced (h : List (Call × Except Error (UInt32 × UInt32))) (p : Pacer) : Prop where
  start : h = [] → p = new
  remembers : ∀ x ∈ h.getLast?, x.1.reading.Valid ∧
    p = ⟨some x.1.reading.epoch, some x.1.reading.offset⟩ ∧
    lastTick h = some x.1.reading.tick
  exact : ∀ g ∈ ticked h, g.2.1.toNat * 2 ^ 19 + g.2.2.toNat = g.1 ∧ g.2.2.toNat < 2 ^ 19
  increasing : (ticked h).Pairwise fun a b => a.1 < b.1

private theorem paced_new :
    Paced [] new := ⟨fun _ => rfl, by simp, by simp [ticked], List.Pairwise.nil⟩

private theorem le_lastTick {l : List (ℕ × UInt32 × UInt32)} (h : l.Pairwise fun a b => a.1 < b.1)
    {m : ℕ} (hm : l.getLast?.map Prod.fst = some m) : ∀ g ∈ l, g.1 ≤ m := by
  rcases List.eq_nil_or_concat l with rfl | ⟨l, b, rfl⟩
  · simp
  · rw [List.concat_eq_append] at h hm ⊢
    obtain rfl : b.1 = m := by simpa using hm
    intro g hg
    rcases List.mem_append.mp hg with hg | hg
    · exact ((List.pairwise_append.mp h).2.2 g hg b (List.mem_singleton_self b)).le
    · obtain rfl := List.mem_singleton.mp hg
      exact Nat.le_refl _

/-- **One call** hands out its tick exactly when that is not the last one handed out. -/
theorem Paced.call_eq {h : List (Call × Except Error (UInt32 × UInt32))} {p : Pacer} {c : Call}
    (hp : Paced h p) (hc : Forward (h.map Prod.fst) c) : p.call c =
      if lastTick h = some c.reading.tick then (.error (.offsetReuse c.reading.offset), p)
      else (.ok (c.reading.epoch, c.reading.offset),
        ⟨some c.reading.epoch, some c.reading.offset⟩) := by
  have hnew : new.claim c.reading = (.ok (c.reading.epoch, c.reading.offset),
      ⟨some c.reading.epoch, some c.reading.offset⟩) := by
    rw [claim_eq, if_neg (fun h => by simp [new] at h)]
  rcases List.eq_nil_or_concat h with rfl | ⟨h, x, rfl⟩
  · rw [call, hp.start rfl, ite_self, hnew, if_neg (by simp [lastTick, ticked])]
  · rw [List.concat_eq_append] at hp hc ⊢
    obtain ⟨hvalid, hmem, hlast⟩ := hp.remembers x (by simp)
    obtain ⟨hcvalid, hbefore⟩ := hc
    obtain ⟨hle, hfresh⟩ := hbefore x.1 (by simp)
    have hle := hle.tick_le hvalid
    simp only [hlast, Option.some.injEq]
    rw [call]
    split_ifs with hf htick htick
    · exact absurd htick (hfresh hf)
    · exact hnew
    · obtain ⟨hepoch, hoffset⟩ := (Reading.tick_eq_iff hvalid hcvalid).mp htick
      rw [claim_eq, if_pos]
      exact hmem ▸ ⟨congrArg some hepoch, _, rfl, UInt32.le_of_eq hoffset.symm⟩
    · rw [claim_eq, if_neg]
      rintro ⟨hepoch, prev, hprev, hoffset⟩
      rw [hmem] at hepoch hprev
      obtain rfl : x.1.reading.offset = prev := Option.some.inj hprev
      -- in the epoch of the reading before, at or below its offset: in its tick
      obtain ⟨hsplit, -⟩ := Reading.tick_eq_epoch_offset hvalid
      obtain ⟨hsplit', -⟩ := Reading.tick_eq_epoch_offset hcvalid
      rw [Option.some.inj hepoch] at hsplit
      rw [UInt32.le_iff_toNat_le] at hoffset
      omega

/-- One call keeps the bookkeeping. -/
theorem Paced.step {h : List (Call × Except Error (UInt32 × UInt32))} {p : Pacer} {c : Call}
    (hp : Paced h p) (hc : Forward (h.map Prod.fst) c) :
    Paced (h ++ [(c, (p.call c).1)]) (p.call c).2 := by
  rw [hp.call_eq hc]
  split_ifs with htick
  -- refused: nothing is handed out, and the pair remembered is still that of the last tick
  · rcases List.eq_nil_or_concat h with rfl | ⟨h, x, rfl⟩
    · simp [lastTick, ticked] at htick
    · rw [List.concat_eq_append] at hp hc htick ⊢
      obtain ⟨hvalid, hmem, hlast⟩ := hp.remembers x (by simp)
      have hsame : x.1.reading.tick = c.reading.tick := Option.some.inj (hlast.symm.trans htick)
      obtain ⟨hepoch, hoffset⟩ := (Reading.tick_eq_iff hvalid hc.1).mp hsame
      refine ⟨by simp, fun y hy => ?_, ?_, ?_⟩
      · obtain rfl : (c, Except.error (.offsetReuse c.reading.offset)) = y := by simpa using hy
        refine ⟨hc.1, hepoch ▸ hoffset ▸ hmem, ?_⟩
        rw [lastTick, ticked_concat_error]
        exact htick
      · rw [ticked_concat_error]
        exact hp.exact
      · rw [ticked_concat_error]
        exact hp.increasing
  -- handed out: the readings are in order, so what is not the last tick lies above it
  · refine ⟨by simp, fun y hy => ?_, ?_, ?_⟩
    · obtain rfl : (c, Except.ok (c.reading.epoch, c.reading.offset)) = y := by simpa using hy
      exact ⟨hc.1, rfl, by simp [lastTick]⟩
    · rw [ticked_concat_ok]
      intro g hg
      rcases List.mem_append.mp hg with hg | hg
      · exact hp.exact g hg
      · obtain rfl := List.mem_singleton.mp hg
        exact Reading.tick_eq_epoch_offset hc.1
    · rw [ticked_concat_ok, List.pairwise_append]
      refine ⟨hp.increasing, List.pairwise_singleton _ _, fun g hg g' hg' => ?_⟩
      obtain rfl := List.mem_singleton.mp hg'
      rcases List.eq_nil_or_concat h with rfl | ⟨h, x, rfl⟩
      · simp [ticked] at hg
      · rw [List.concat_eq_append] at hp hc htick hg
        obtain ⟨hvalid, -, hlast⟩ := hp.remembers x (by simp)
        have hle := ((hc.2 x.1 (by simp)).1).tick_le hvalid
        have hg := le_lastTick hp.increasing hlast g hg
        have hne : x.1.reading.tick ≠ c.reading.tick := fun heq => htick (heq ▸ hlast)
        exact Nat.lt_of_le_of_lt hg (Nat.lt_of_le_of_ne hle hne)

/-- The pacer keeps pace with every clock that only goes forward. -/
private theorem paced_final {cs : List Call} (h : Guarded Forward cs) :
    Paced (trace call new cs) (final call new cs) :=
  trace_invariant paced_new (fun _ _ _ hc hp => hp.step hc) cs h

private theorem map_snd_ticked (p : Pacer) (cs : List Call) :
    (ticked (trace call p cs)).map Prod.snd = (outputs call p cs).filterMap Except.toOption := by
  rw [ticked, List.map_filterMap, outputs, List.filterMap_map]
  refine List.filterMap_congr fun x _ => ?_
  rcases x with ⟨c, e | q⟩ <;> rfl

/-- Ticks in order are pairs in order. -/
private theorem lex_of_tick_lt {a b : ℕ × UInt32 × UInt32}
    (ha : a.2.1.toNat * 2 ^ 19 + a.2.2.toNat = a.1 ∧ a.2.2.toNat < 2 ^ 19)
    (hb : b.2.1.toNat * 2 ^ 19 + b.2.2.toNat = b.1 ∧ b.2.2.toNat < 2 ^ 19) (h : a.1 < b.1) :
    Prod.Lex (· < ·) (· < ·) a.2 b.2 := by
  rw [Prod.lex_def, UInt32.lt_iff_toNat_lt, UInt32.lt_iff_toNat_lt, ← UInt32.toNat_inj]
  omega

/-- **The pacer is exact under a clock that never rewinds.** A call succeeds exactly if its tick
is not that of the last successful call, and hands out that tick; so the pairs handed out increase
strictly. A fresh pacer may take over between two calls in different ticks. -/
theorem claim_exact {cs : List Call} (h : Guarded Forward cs) :
    (∀ n : Fin cs.length,
      ((∃ q, (outputs call new cs)[(n : ℕ)]? = some (.ok q)) ↔
        lastTick (trace call new (cs.take n)) ≠ some cs[n].reading.tick) ∧
      ∀ q, (outputs call new cs)[(n : ℕ)]? = some (.ok q) →
        q.1.toNat * 2 ^ 19 + q.2.toNat = cs[n].reading.tick ∧ q.2.toNat < 2 ^ 19) ∧
    ((outputs call new cs).filterMap Except.toOption).Pairwise (Prod.Lex (· < ·) (· < ·)) := by
  constructor
  · intro n
    have hforward : Forward ((trace call new (cs.take n)).map Prod.fst) cs[n] := by
      rw [map_fst_trace]
      exact h n
    have hanswer : (outputs call new cs)[(n : ℕ)]? =
        some (call (final call new (cs.take n)) cs[n]).1 := by
      have hentry := getElem?_trace call new (List.getElem?_eq_getElem n.2)
      exact (List.getElem?_map ..).trans (congrArg (Option.map Prod.snd) hentry)
    rw [hanswer, (paced_final (h.take n)).call_eq hforward]
    split_ifs with htick
    · refine ⟨iff_of_false ?_ (not_not.mpr htick), fun q hq => ?_⟩
      · rintro ⟨q, hq⟩
        cases hq
      · cases hq
    · refine ⟨iff_of_true ⟨_, rfl⟩ htick, fun q hq => ?_⟩
      obtain rfl := Except.ok.inj (Option.some.inj hq)
      exact Reading.tick_eq_epoch_offset hforward.1
  · have hpaced := paced_final h
    rw [← map_snd_ticked, List.pairwise_map]
    exact hpaced.increasing.imp_of_mem fun ha hb hlt =>
      lex_of_tick_lt (hpaced.exact _ ha) (hpaced.exact _ hb) hlt

/-- The last tick of an epoch, claimed twice, then a fresh pacer in the first tick of the next. -/
theorem claim_exact_epoch_end :
    let cs : List Call := [⟨false, 1023, 999999999⟩, ⟨false, 1023, 999999999⟩, ⟨true, 1024, 0⟩]
    outputs call new cs = [.ok (7, 524287), .error (.offsetReuse 524287), .ok (8, 0)] ∧
      ((outputs call new cs).filterMap Except.toOption).Pairwise (Prod.Lex (· < ·) (· < ·)) :=
  ⟨by decide +kernel, (claim_exact (by decide +kernel)).2⟩

end Pacer

end Catp
