import Mathlib.Data.List.Basic

/-!
# Concatenations of self-delimiting items

A `Codec` writes items so that a reader can tell from the front of its input where the first
item ends. `Codec.loop` reads items off an input until none is left, keeping a position into
the input as such loops do. `loop_eq_ok_iff` says what it accepts: exactly the
concatenations of encoded valid items, each with the one list of items it is made of.

A codec consists of a writer, a reader that returns the item and the number of symbols it has
used, a validity predicate, and three laws: an item takes at least one symbol, what is written of
a valid item is read back whatever follows it, and what is read is valid and was written so.
Nothing else is asked, so the symbols and the errors are of any type.

* `loop_encAll`: on a concatenation of valid items the loop returns them.
* `encAll_of_loop`: whatever the loop accepts is such a concatenation. Every turn uses at least
  one symbol, by which it terminates.
* `encAll_injective`: so the items of a concatenation are unique, and a payload of a
  self-delimiting code means one thing.

The error of a failing loop is that of the first item which cannot be read (`dec_error_of_loop`).
-/

/-- An encoding whose items can be read off the front of any longer input. The laws are
part of the codec: reading undoes writing whatever follows, and what is read is a valid item
written at the front of the input. -/
structure Codec (α β ε : Type*) where
  /-- The items that can be read back. -/
  Valid : α → Prop
  /-- Write one item. -/
  enc : α → List β
  /-- Read one item off the front of the input, with the number of symbols it took. -/
  dec : List β → Except ε (α × ℕ)
  enc_pos : ∀ a, 0 < (enc a).length
  dec_enc : ∀ a, Valid a → ∀ rest, dec (enc a ++ rest) = .ok (a, (enc a).length)
  enc_dec : ∀ l a n, dec l = .ok (a, n) → Valid a ∧ n = (enc a).length ∧ ∃ rest, l = enc a ++ rest

namespace Codec

variable {α β ε : Type*} (c : Codec α β ε)

theorem used_pos {l : List β} {a : α} {n : ℕ} (h : c.dec l = .ok (a, n)) : 0 < n := by
  obtain ⟨-, rfl, -⟩ := c.enc_dec l a n h
  exact c.enc_pos a

/-- Read items from position `pos` of `l` until none is left, collecting them behind
`acc`; the position reached is returned with them. -/
def loop (l : List β) (pos : ℕ) (acc : List α) : Except ε (ℕ × List α) :=
  if pos < l.length then
    match h : c.dec (l.drop pos) with
    | .error e => .error e
    | .ok (a, used) =>
      have := c.used_pos h
      loop l (pos + used) (acc ++ [a])
  else .ok (pos, acc)
termination_by l.length - pos

theorem loop_ok {l : List β} {pos : ℕ} (acc : List α) (hpos : pos < l.length) {a : α} {n : ℕ}
    (h : c.dec (l.drop pos) = .ok (a, n)) :
    c.loop l pos acc = c.loop l (pos + n) (acc ++ [a]) := by
  rw [loop, if_pos hpos]
  split
  · rename_i e he
    exact absurd (he.symm.trans h) (by simp)
  · rename_i a' used h'
    obtain ⟨rfl, rfl⟩ : a' = a ∧ used = n := by simpa using h'.symm.trans h
    rfl

theorem loop_error {l : List β} {pos : ℕ} (acc : List α) (hpos : pos < l.length) {e : ε}
    (h : c.dec (l.drop pos) = .error e) : c.loop l pos acc = .error e := by
  rw [loop, if_pos hpos]
  split
  · rename_i e' he
    simpa using he.symm.trans h
  · rename_i a used h'
    exact absurd (h'.symm.trans h) (by simp)

theorem loop_done {l : List β} {pos : ℕ} (acc : List α) (hpos : ¬pos < l.length) :
    c.loop l pos acc = .ok (pos, acc) := by
  rw [loop, if_neg hpos]

/-- The loop fails only as reading one item fails. -/
theorem dec_error_of_loop {l : List β} {pos : ℕ} {acc : List α} {e : ε}
    (h : c.loop l pos acc = .error e) : ∃ p, c.dec (l.drop p) = .error e := by
  induction pos, acc using loop.induct c l with
  | case1 pos acc hlt e' he =>
    rw [c.loop_error acc hlt he] at h
    exact ⟨pos, he.trans (congrArg _ (Except.error.inj h))⟩
  | case2 pos acc hlt a used hdec hused ih =>
    rw [c.loop_ok acc hlt hdec] at h
    exact ih h
  | case3 pos acc hge =>
    rw [c.loop_done acc hge] at h
    cases h

/-- The concatenation of the encodings of a list of items. -/
def encAll (as : List α) : List β := (as.map c.enc).flatten

@[simp] theorem encAll_nil : c.encAll [] = [] := rfl

@[simp] theorem encAll_cons (a : α) (as : List α) :
    c.encAll (a :: as) = c.enc a ++ c.encAll as := rfl

/-- The loop reads a concatenation of valid items to its end. -/
theorem loop_encAll (l : List β) (as : List α) (hv : ∀ a ∈ as, c.Valid a) (pos : ℕ)
    (acc : List α) (hpos : pos ≤ l.length) (hl : l.drop pos = c.encAll as) :
    c.loop l pos acc = .ok (l.length, acc ++ as) := by
  induction as generalizing pos acc with
  | nil =>
    -- nothing left to read: the position is the end
    have hend : l.length = pos := by
      have := List.drop_eq_nil_iff.mp hl
      omega
    rw [c.loop_done acc (by omega), hend, List.append_nil]
  | cons a as ih =>
    have hdec : c.dec (l.drop pos) = .ok (a, (c.enc a).length) := by
      rw [hl, encAll_cons]
      exact c.dec_enc a (hv a List.mem_cons_self) _
    have hlen : (c.enc a).length ≤ l.length - pos := by
      rw [← List.length_drop, hl, encAll_cons, List.length_append]
      omega
    have hpos' := c.enc_pos a
    have hrest : l.drop (pos + (c.enc a).length) = c.encAll as := by
      rw [← List.drop_drop, hl, encAll_cons, List.drop_left]
    rw [c.loop_ok acc (by omega) hdec,
      ih (fun b hb => hv b (List.mem_cons_of_mem a hb)) _ _ (by omega) hrest,
      List.append_assoc, List.singleton_append]

/-- Whatever the loop accepts is a concatenation of valid items. -/
theorem encAll_of_loop (l : List β) (pos : ℕ) (acc : List α) (hpos : pos ≤ l.length) {p : ℕ}
    {res : List α} (h : c.loop l pos acc = .ok (p, res)) :
    ∃ as, res = acc ++ as ∧ l.drop pos = c.encAll as ∧ (∀ a ∈ as, c.Valid a) ∧ p = l.length := by
  induction pos, acc using loop.induct c l with
  | case1 pos acc hlt e he =>
    rw [c.loop_error acc hlt he] at h
    exact absurd h (by simp)
  | case2 pos acc hlt a used hdec hused ih =>
    obtain ⟨hva, rfl, rest, hrest⟩ := c.enc_dec _ _ _ hdec
    have hlen : (c.enc a).length ≤ l.length - pos := by
      rw [← List.length_drop, hrest, List.length_append]
      omega
    rw [c.loop_ok acc hlt hdec] at h
    obtain ⟨as, rfl, hdrop, hv, rfl⟩ := ih (by omega) h
    refine ⟨a :: as, by simp, ?_, List.forall_mem_cons.mpr ⟨hva, hv⟩, rfl⟩
    rw [encAll_cons, ← hdrop, ← List.drop_drop, hrest, List.drop_left]
  | case3 pos acc hge =>
    rw [c.loop_done acc hge] at h
    obtain ⟨rfl, rfl⟩ : pos = p ∧ acc = res := by simpa using h
    exact ⟨[], by simp, by rw [encAll_nil, List.drop_eq_nil_iff]; omega, by simp, by omega⟩

/-- **The loop accepts exactly the concatenations of valid items**, and returns the items. -/
theorem loop_eq_ok_iff {l : List β} {p : ℕ} {as : List α} :
    c.loop l 0 [] = .ok (p, as) ↔ p = l.length ∧ l = c.encAll as ∧ ∀ a ∈ as, c.Valid a := by
  constructor
  · intro h
    obtain ⟨bs, rfl, hl, hv, hp⟩ := c.encAll_of_loop l 0 [] (Nat.zero_le _) h
    exact ⟨hp, hl, hv⟩
  · rintro ⟨rfl, hl, hv⟩
    exact c.loop_encAll l as hv 0 [] (Nat.zero_le _) hl

/-- A list of valid items can be recovered from the concatenation of their encodings. -/
theorem encAll_injective {as bs : List α} (ha : ∀ a ∈ as, c.Valid a) (hb : ∀ b ∈ bs, c.Valid b)
    (h : c.encAll as = c.encAll bs) : as = bs := by
  have hla := c.loop_eq_ok_iff.mpr ⟨rfl, rfl, ha⟩
  have hlb := c.loop_eq_ok_iff.mpr ⟨rfl, h, hb⟩
  simpa using hla.symm.trans hlb

end Codec
