import Catp.Wire.Decode
import Mathlib.Algebra.Group.Defs
import Mathlib.Algebra.BigOperators.Group.List.Basic

/-!
# Discard counters

`Stats` of `src/peer.rs`. Recording a result adds its `tally`, a snapshot with at most one
counter set, so that counting a run is a sum in a commutative monoid whose addition is `merge`.

`Stats.outcomes` is the number of datagrams a snapshot accounts for. Every result of the receive
path but `Oversize` sets exactly one outcome counter (`Stats.outcomes_tally`), so over a list of
results the outcome counters and the `Oversize` results make up all (`Stats.outcomes_sum_tally`).

The counters of the source are `u64`s and those here are natural numbers. `Stats.wrap` takes each
counter modulo `2 ^ 64` and `Stats.recordAll` counts as the source does; the two agree over every
list of fewer than `2 ^ 64` results that skip fewer than `2 ^ 64` records (`Stats.recordAll_eq`).
That is the range in which the statements of the later modules about counters are statements
about the `u64`s.
-/

namespace Catp

/-- Discard counters, categorized by the step that would have rejected the datagram. -/
@[ext]
structure Stats where
  accepted : ℕ
  tooShort : ℕ
  unsupportedVersion : ℕ
  badMsgType : ℕ
  unknownSender : ℕ
  cipherMismatch : ℕ
  epochOutOfWindow : ℕ
  authFailed : ℕ
  replay : ℕ
  framing : ℕ
  rateLimited : ℕ
  skippedRecords : ℕ
  deriving DecidableEq, Repr

namespace Stats

/-- `Stats::default()`. -/
protected def zero : Stats := ⟨0, 0, 0, 0, 0, 0, 0, 0, 0, 0, 0, 0⟩

/-- Count an error under the step it belongs to. -/
def recordError (s : Stats) : Error → Stats
  | .tooShort => { s with tooShort := s.tooShort + 1 }
  | .unsupportedVersion _ => { s with unsupportedVersion := s.unsupportedVersion + 1 }
  | .badMsgType _ => { s with badMsgType := s.badMsgType + 1 }
  | .unknownSender _ => { s with unknownSender := s.unknownSender + 1 }
  | .cipherMismatch _ _ => { s with cipherMismatch := s.cipherMismatch + 1 }
  | .epochOutOfWindow => { s with epochOutOfWindow := s.epochOutOfWindow + 1 }
  | .authFailed => { s with authFailed := s.authFailed + 1 }
  | .replay => { s with replay := s.replay + 1 }
  | .framing _ | .badNumber _ | .badSeries _ | .bodyTooLarge _ =>
    { s with framing := s.framing + 1 }
  | .rateLimited => { s with rateLimited := s.rateLimited + 1 }
  -- everything else, `Oversize` included, reaches no counter
  | _ => s

/-- Count a result: an acceptance and its skipped records, or an error. -/
def recordResult (s : Stats) : Except Error Accepted → Stats
  | .ok acc =>
    { s with
      accepted := s.accepted + 1
      skippedRecords := s.skippedRecords + acc.skipped.length }
  | .error e => s.recordError e

/-- Fold another snapshot into this one. -/
def merge (s other : Stats) : Stats where
  accepted := s.accepted + other.accepted
  tooShort := s.tooShort + other.tooShort
  unsupportedVersion := s.unsupportedVersion + other.unsupportedVersion
  badMsgType := s.badMsgType + other.badMsgType
  unknownSender := s.unknownSender + other.unknownSender
  cipherMismatch := s.cipherMismatch + other.cipherMismatch
  epochOutOfWindow := s.epochOutOfWindow + other.epochOutOfWindow
  authFailed := s.authFailed + other.authFailed
  replay := s.replay + other.replay
  framing := s.framing + other.framing
  rateLimited := s.rateLimited + other.rateLimited
  skippedRecords := s.skippedRecords + other.skippedRecords

/-! ### Snapshots add up -/

instance : Zero Stats := ⟨.zero⟩

instance : Add Stats := ⟨merge⟩

instance : AddCommMonoid Stats where
  add_assoc a b c := by ext <;> exact Nat.add_assoc _ _ _
  zero_add a := by ext <;> exact Nat.zero_add _
  add_zero a := by ext <;> exact Nat.add_zero _
  add_comm a b := by ext <;> exact Nat.add_comm _ _
  nsmul := nsmulRec

/-- Folding a snapshot in is adding it. -/
theorem merge_eq_add (a b : Stats) : a.merge b = a + b := rfl

/-- The counter of one result. -/
def tally (r : Except Error Accepted) : Stats := (0 : Stats).recordResult r

/-- Recording a result is adding its tally. -/
theorem recordResult_eq_add (s : Stats) (r : Except Error Accepted) :
    s.recordResult r = s + tally r := by
  cases r with
  | ok acc =>
    refine Stats.ext rfl rfl rfl rfl rfl rfl rfl rfl rfl rfl rfl ?_
    exact congrArg (s.skippedRecords + ·) (Nat.zero_add acc.skipped.length).symm
  | error e => cases e <;> rfl

/-- The datagrams a snapshot accounts for: the sum of its outcome counters. -/
def outcomes (s : Stats) : ℕ :=
  s.accepted + s.tooShort + s.unsupportedVersion + s.badMsgType + s.unknownSender +
    s.cipherMismatch + s.epochOutOfWindow + s.authFailed + s.replay + s.framing + s.rateLimited

/-- The datagrams two snapshots account for. -/
@[simp] theorem outcomes_add (a b : Stats) : (a + b).outcomes = a.outcomes + b.outcomes := by
  simp only [outcomes, ← merge_eq_add, merge]
  omega

/-- The records two snapshots account for. -/
@[simp] theorem skippedRecords_add (a b : Stats) :
    (a + b).skippedRecords = a.skippedRecords + b.skippedRecords := rfl

/-- The counters of the datagrams that pass steps 1 to 7, the others zero. -/
def verified (s : Stats) : Stats :=
  { (0 : Stats) with
    accepted := s.accepted
    replay := s.replay
    framing := s.framing
    rateLimited := s.rateLimited
    skippedRecords := s.skippedRecords }

/-- The counters of verified datagrams add up. -/
@[simp] theorem verified_add (a b : Stats) : (a + b).verified = a.verified + b.verified := rfl

end Stats

/-! ### What the receive path can return -/

/-- The result is a failure of steps 1 to 7. -/
def isUnverified : Except Error Accepted → Bool
  | .error e => e.isUnverified
  | .ok _ => false

/-- A failure of steps 1 to 7 touches no counter of the verified datagrams. -/
theorem Stats.verified_tally {r : Except Error Accepted} (h : isUnverified r = true) :
    (tally r).verified = 0 := by
  cases r with
  | ok acc => cases h
  | error e => cases e <;> first | rfl | cases h

/-- The errors of the receive path: those of steps 1 to 7, `Replay`, those of step 9, and the
rate limit. -/
def Error.isReceive : Error → Bool
  | .replay | .rateLimited => true
  | e => e.isUnverified || e.isFraming

/-- The errors of steps 1 to 7 belong to the receive path. -/
theorem Error.isReceive_of_isUnverified {e : Error} (h : e.isUnverified = true) :
    e.isReceive = true := by
  cases e <;> first | rfl | cases h

/-- So do those of step 9. -/
theorem Error.isReceive_of_isFraming {e : Error} (h : e.isFraming = true) :
    e.isReceive = true := by
  cases e <;> first | rfl | cases h

/-- The one error of the receive path that reaches no counter. -/
def isOversize : Except Error Accepted → Bool
  | .error (.oversize _) => true
  | _ => false

/-- `Oversize` comes before the tag is verified. -/
theorem isUnverified_of_isOversize {r : Except Error Accepted} (h : isOversize r = true) :
    isUnverified r = true := by
  rcases r with e | acc
  · cases e <;> first | rfl | cases h
  · cases h

/-- Every result of the receive path but `Oversize` sets exactly one outcome counter. -/
theorem Stats.outcomes_tally {r : Except Error Accepted}
    (h : ∀ e, r = .error e → e.isReceive = true) :
    (tally r).outcomes + (if isOversize r then 1 else 0) = 1 := by
  cases r with
  | ok acc => rfl
  | error e =>
    have he := h e rfl
    cases e <;> first | rfl | cases he

/-- The records skipped by an accepted datagram. -/
def skippedOf : Except Error Accepted → List Record
  | .ok acc => acc.skipped
  | .error _ => []

private theorem Stats.skippedRecords_tally (r : Except Error Accepted) :
    (tally r).skippedRecords = (skippedOf r).length := by
  cases r with
  | ok acc => exact Nat.zero_add _
  | error e => cases e <;> rfl

/-- Over a list of results, the outcome counters and the uncounted results make up all. -/
theorem Stats.outcomes_sum_tally {rs : List (Except Error Accepted)}
    (h : ∀ r ∈ rs, ∀ e, r = .error e → e.isReceive = true) :
    (rs.map tally).sum.outcomes + rs.countP isOversize = rs.length := by
  induction rs with
  | nil => rfl
  | cons r rs ih =>
    obtain ⟨hr, hrs⟩ := List.forall_mem_cons.mp h
    have hone := outcomes_tally hr
    have hrest := ih hrs
    rw [List.map_cons, List.sum_cons, outcomes_add, List.countP_cons, List.length_cons]
    omega

/-- Over a list of results, every skipped record is counted. -/
theorem Stats.skippedRecords_sum_tally (rs : List (Except Error Accepted)) :
    (rs.map tally).sum.skippedRecords = (rs.map fun r => (skippedOf r).length).sum := by
  induction rs with
  | nil => rfl
  | cons r rs ih =>
    rw [List.map_cons, List.sum_cons, skippedRecords_add, ih, skippedRecords_tally, List.map_cons,
      List.sum_cons]

/-! ### The `u64` counters -/

namespace Stats

/-- The snapshot as a release build keeps it: every counter a `u64`, which wraps. -/
def wrap (s : Stats) : Stats where
  accepted := s.accepted % 2 ^ 64
  tooShort := s.tooShort % 2 ^ 64
  unsupportedVersion := s.unsupportedVersion % 2 ^ 64
  badMsgType := s.badMsgType % 2 ^ 64
  unknownSender := s.unknownSender % 2 ^ 64
  cipherMismatch := s.cipherMismatch % 2 ^ 64
  epochOutOfWindow := s.epochOutOfWindow % 2 ^ 64
  authFailed := s.authFailed % 2 ^ 64
  replay := s.replay % 2 ^ 64
  framing := s.framing % 2 ^ 64
  rateLimited := s.rateLimited % 2 ^ 64
  skippedRecords := s.skippedRecords % 2 ^ 64

/-- A snapshot whose counters are below `2 ^ 64` wraps to itself. -/
private theorem wrap_eq_self {s : Stats} (hout : s.outcomes < 2 ^ 64)
    (hskip : s.skippedRecords < 2 ^ 64) : s.wrap = s := by
  rw [outcomes] at hout
  ext <;> exact Nat.mod_eq_of_lt (by omega)

/-- Wrapping before an addition makes no difference after it. -/
private theorem wrap_wrap_add (a b : Stats) : (a.wrap + b).wrap = (a + b).wrap := by
  ext <;> exact Nat.mod_add_mod _ _ _

/-- The `u64` counters after the results `rs`. -/
def recordAll (rs : List (Except Error Accepted)) : Stats :=
  rs.foldl (fun s r => (s.recordResult r).wrap) 0

/-- The `u64` counters are the natural ones, wrapped. -/
private theorem recordAll_eq_wrap (rs : List (Except Error Accepted)) :
    recordAll rs = (rs.map tally).sum.wrap := by
  induction rs using List.reverseRecOn with
  | nil => rfl
  | append_singleton rs r ih =>
    rw [recordAll, List.foldl_append, ← recordAll, ih, List.foldl_cons, List.foldl_nil,
      recordResult_eq_add, wrap_wrap_add, List.map_append, List.sum_append, List.map_singleton,
      List.sum_singleton]

/-- No result sets two outcome counters. -/
private theorem outcomes_tally_le (r : Except Error Accepted) : (tally r).outcomes ≤ 1 := by
  cases r with
  | ok acc => exact le_rfl
  | error e => cases e <;> first | exact Nat.le_refl 1 | exact Nat.zero_le 1

/-- Fewer than `2 ^ 64` results that skip fewer than `2 ^ 64` records wrap no counter. -/
theorem recordAll_eq {rs : List (Except Error Accepted)} (hlen : rs.length < 2 ^ 64)
    (hskip : (rs.map fun r => (skippedOf r).length).sum < 2 ^ 64) :
    recordAll rs = (rs.map tally).sum := by
  have hout : (rs.map tally).sum.outcomes ≤ rs.length := by
    clear hlen hskip
    induction rs with
    | nil => exact le_rfl
    | cons r rs ih =>
      have hone := outcomes_tally_le r
      rw [List.map_cons, List.sum_cons, outcomes_add, List.length_cons]
      omega
  rw [recordAll_eq_wrap]
  exact wrap_eq_self (hout.trans_lt hlen) (by rwa [skippedRecords_sum_tally])

end Stats

end Catp
