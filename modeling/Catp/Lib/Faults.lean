import Mathlib.Data.List.Basic
import Mathlib.Data.Nat.Notation

/-!
# Operations that fault

A language whose indexing, arithmetic and unwrapping stop the program on the arguments they are
not defined for. Each operation is a computation in `Faulting`, with one equation saying what it
returns where it is defined. A program written with them that equals `.ok` of a total function
is thereby shown to stop on no operation, and to compute that function.

Allocation is outside this reading: a buffer that is asked for is there.

* `index`, `slice`, `store`, `copyInto`, `arrayIndex`, `arrayStore`: sequences, with bounds.
* `add`, `mul`, `sub`, `subU32`, `remU32`, `shiftOne`: arithmetic that a debug build checks. The
  bound of the first two is a parameter, so that they stand for any width.
* `assert`, `unwrap` and fuel for loops.

**How to use it.** State for each function of the program an equation `f x = .ok (g x)` with the
total function `g`, under the conditions that the program's callers meet. The equations compose by
rewriting: `ok_bind` runs a step whose equation is known, and `ite_eq` goes under a branch with
its condition. A fault is an ordinary value, so where the program does stop, that is an equation
too.
-/

namespace Faults

/-- What stops a program. -/
inductive Fault where
  /-- An index or a slice that is not inside its sequence, or a copy between different lengths. -/
  | outOfBounds
  | underflow
  | overflow
  /-- A remainder by zero. -/
  | zeroDivisor
  /-- Unwrapping a value that is absent. -/
  | absent
  /-- An assertion that does not hold. -/
  | assertion
  /-- A loop that has not ended within its fuel. -/
  | unfinished
  deriving DecidableEq, Repr

/-- A computation that may fault. -/
abbrev Faulting (α : Type) := Except Fault α

variable {α β : Type}

@[simp] theorem ok_bind (a : α) (f : α → Faulting β) :
    ((.ok a : Faulting α) >>= f) = f a := rfl

@[simp] theorem error_bind (e : Fault) (f : α → Faulting β) :
    ((.error e : Faulting α) >>= f) = .error e := rfl

@[simp] theorem pure_eq_ok (a : α) : (pure a : Faulting α) = .ok a := rfl

/-- The computation does not fault. -/
def Returns (m : Faulting α) : Prop := ∃ a, m = .ok a

theorem Returns.of_eq {m : Faulting α} {a : α} (h : m = .ok a) : Returns m := ⟨a, h⟩

theorem Returns.ne_error {m : Faulting α} (h : Returns m) (e : Fault) : m ≠ .error e := by
  obtain ⟨a, rfl⟩ := h
  exact fun h => by cases h

/-- A branch faults nowhere when neither side does where it is taken. -/
theorem ite_eq {c : Prop} [Decidable c] {m m' : Faulting α} {a a' : α} (h : c → m = .ok a)
    (h' : ¬c → m' = .ok a') : (if c then m else m') = .ok (if c then a else a') := by
  split_ifs with hc
  · exact h hc
  · exact h' hc

/-! ### Sequences -/

/-- `l[i]`. -/
def index (l : List α) (i : ℕ) : Faulting α :=
  match l[i]? with
  | some a => .ok a
  | none => .error .outOfBounds

theorem index_eq [Inhabited α] {l : List α} {i : ℕ} (h : i < l.length) :
    index l i = .ok l[i]! := by
  rw [index, List.getElem?_eq_getElem h, getElem!_pos l i h]

/-- `&l[lo..hi]`. -/
def slice (l : List α) (lo hi : ℕ) : Faulting (List α) :=
  if lo ≤ hi ∧ hi ≤ l.length then .ok ((l.take hi).drop lo) else .error .outOfBounds

theorem slice_eq {l : List α} {lo hi : ℕ} (hlo : lo ≤ hi) (hhi : hi ≤ l.length) :
    slice l lo hi = .ok ((l.take hi).drop lo) :=
  if_pos ⟨hlo, hhi⟩

theorem slice_to_end {l : List α} {lo : ℕ} (h : lo ≤ l.length) :
    slice l lo l.length = .ok (l.drop lo) := by
  rw [slice_eq h (Nat.le_refl _), List.take_length]

/-- `l[i] = a`. -/
def store (l : List α) (i : ℕ) (a : α) : Faulting (List α) :=
  if i < l.length then .ok (l.set i a) else .error .outOfBounds

/-- `l[lo..hi].copy_from_slice(src)`. -/
def copyInto (l : List α) (lo hi : ℕ) (src : List α) : Faulting (List α) :=
  if lo ≤ hi ∧ hi ≤ l.length ∧ src.length = hi - lo then .ok (l.take lo ++ src ++ l.drop hi)
  else .error .outOfBounds

theorem copyInto_eq {l src : List α} {lo hi : ℕ} (hhi : hi ≤ l.length)
    (hsrc : lo + src.length = hi) :
    copyInto l lo hi src = .ok (l.take lo ++ src ++ l.drop hi) :=
  if_pos ⟨by omega, hhi, by omega⟩

/-- `v[i]` of an array. -/
def arrayIndex {n : ℕ} (v : Vector α n) (i : ℕ) : Faulting α :=
  if h : i < n then .ok v[i] else .error .outOfBounds

theorem arrayIndex_eq {n : ℕ} {v : Vector α n} {i : ℕ} (h : i < n) (d : α) :
    arrayIndex v i = .ok (v[i]?.getD d) := by
  rw [arrayIndex, dif_pos h, Vector.getElem?_eq_getElem h, Option.getD_some]

/-- `v[i] = a` of an array. -/
def arrayStore {n : ℕ} (v : Vector α n) (i : ℕ) (a : α) : Faulting (Vector α n) :=
  if h : i < n then .ok (v.set i a) else .error .outOfBounds

theorem arrayStore_eq {n : ℕ} {v : Vector α n} {i : ℕ} (h : i < n) (a : α) :
    arrayStore v i a = .ok (v.setIfInBounds i a) := by
  rw [arrayStore, dif_pos h, Except.ok.injEq, ← Vector.toList_inj, Vector.toList_set,
    Vector.toList_setIfInBounds]

/-- `l.try_into::<[T; n]>()`. -/
def tryIntoArray (l : List α) (n : ℕ) : Option (Vector α n) :=
  if h : l.length = n then some ⟨l.toArray, by simpa using h⟩ else none

/-! ### Arithmetic -/

/-- `a + b` in an unsigned type with the largest value `bound`. -/
def add (bound a b : ℕ) : Faulting ℕ := if a + b ≤ bound then .ok (a + b) else .error .overflow

theorem add_eq {bound a b : ℕ} (h : a + b ≤ bound) : add bound a b = .ok (a + b) := if_pos h

/-- `a * b` in an unsigned type with the largest value `bound`. -/
def mul (bound a b : ℕ) : Faulting ℕ := if a * b ≤ bound then .ok (a * b) else .error .overflow

theorem mul_eq {bound a b : ℕ} (h : a * b ≤ bound) : mul bound a b = .ok (a * b) := if_pos h

/-- `a - b` in an unsigned type. -/
def sub (a b : ℕ) : Faulting ℕ := if b ≤ a then .ok (a - b) else .error .underflow

theorem sub_eq {a b : ℕ} (h : b ≤ a) : sub a b = .ok (a - b) := if_pos h

/-- `a - b` in `u32`. -/
def subU32 (a b : UInt32) : Faulting UInt32 := if b ≤ a then .ok (a - b) else .error .underflow

theorem subU32_eq {a b : UInt32} (h : b ≤ a) : subU32 a b = .ok (a - b) := if_pos h

/-- `a % b` in `u32`. -/
def remU32 (a b : UInt32) : Faulting UInt32 :=
  if b = 0 then .error .zeroDivisor else .ok (a % b)

theorem remU32_eq {a b : UInt32} (h : b ≠ 0) : remU32 a b = .ok (a % b) := if_neg h

@[simp] theorem remU32_zero (a : UInt32) : remU32 a 0 = .error .zeroDivisor := rfl

/-- `1u64 << n`. -/
def shiftOne (n : ℕ) : Faulting UInt64 :=
  if n < 64 then .ok (1 <<< UInt64.ofNat n) else .error .overflow

theorem shiftOne_eq {n : ℕ} (h : n < 64) : shiftOne n = .ok (1 <<< UInt64.ofNat n) := if_pos h

/-! ### Assertions, unwrapping and loops -/

/-- `debug_assert!(c)`. -/
def assert (c : Bool) : Faulting Unit := if c then .ok () else .error .assertion

@[simp] theorem assert_true : assert true = .ok () := rfl

/-- `o.unwrap()`. -/
def unwrap : Option α → Faulting α
  | some a => .ok a
  | none => .error .absent

@[simp] theorem unwrap_some (a : α) : unwrap (some a) = .ok a := rfl

/-- A loop over a list whose steps do not fault is a fold. -/
theorem foldlM_eq {f : β → α → Faulting β} {g : β → α → β} (h : ∀ b a, f b a = .ok (g b a))
    (b : β) (l : List α) : l.foldlM f b = .ok (l.foldl g b) := by
  induction l generalizing b with
  | nil => rfl
  | cons a l ih => rw [List.foldlM_cons, h, ok_bind, ih, List.foldl_cons]

/-- What is done to each result. -/
theorem mapM_map_eq {γ : Type} {f : α → Faulting β} {g : β → γ} {l : List α} {bs : List β}
    (h : l.mapM f = .ok bs) : (l.mapM fun a => do return g (← f a)) = .ok (bs.map g) := by
  induction l generalizing bs with
  | nil =>
    obtain rfl := Except.ok.inj h
    rfl
  | cons a l ih =>
    rw [List.mapM_cons] at h
    rcases hb : f a with e | b
    · rw [hb] at h
      cases h
    · rcases hbs : l.mapM f with e | bs'
      · rw [hb, ok_bind, hbs] at h
        cases h
      · rw [hb, ok_bind, hbs, ok_bind] at h
        obtain rfl := Except.ok.inj h
        rw [List.mapM_cons, hb, ok_bind, pure_eq_ok, ok_bind, ih hbs, ok_bind, pure_eq_ok,
          List.map_cons]

end Faults
