import Mathlib.Data.List.Basic

/-!
# Streaming message authentication codes

A keyed hash that absorbs its message piece by piece. The two laws say that the pieces do not
matter: absorbing nothing changes nothing, and absorbing a concatenation is absorbing its
parts in order. `mac_eq_mac_flatten` is what callers use: the tag of a message given in parts
is the tag of the message.

The state type is part of the structure, so a hash with an internal buffer is an instance as well
as one that keeps its whole input. `ofFun` makes one of any function of key and message; it serves
primitives that are given by a table of messages and tags.

Nothing cryptographic is said here. That a tag is hard to forge is a property of a network without
the key, and is stated where a network is.
-/

/-- A keyed hash with keys `K` and tags `T` that absorbs its message piece by piece. -/
structure StreamingMac (K T : Type) where
  State : Type
  init : K → State
  update : State → List UInt8 → State
  finish : State → T
  update_nil : ∀ s, update s [] = s
  update_append : ∀ s a b, update s (a ++ b) = update (update s a) b

namespace StreamingMac

variable {K T : Type} (M : StreamingMac K T)

/-- The tag of the message given by `parts`, absorbed in order. -/
def mac (k : K) (parts : List (List UInt8)) : T :=
  M.finish (parts.foldl M.update (M.init k))

theorem foldl_update (s : M.State) (parts : List (List UInt8)) :
    parts.foldl M.update s = M.update s parts.flatten := by
  induction parts generalizing s with
  | nil => exact (M.update_nil s).symm
  | cons p parts ih => rw [List.foldl_cons, ih, List.flatten_cons, M.update_append]

/-- **How the message is split does not matter.** -/
theorem mac_eq_mac_flatten (k : K) (parts : List (List UInt8)) :
    M.mac k parts = M.mac k [parts.flatten] := by
  rw [mac, mac, foldl_update, foldl_update, List.flatten_cons, List.flatten_nil, List.append_nil]

/-- Any function of key and message is a streaming MAC that remembers the message. -/
def ofFun (f : K → List UInt8 → T) : StreamingMac K T where
  State := K × List UInt8
  init k := (k, [])
  update s p := (s.1, s.2 ++ p)
  finish s := f s.1 s.2
  update_nil s := by simp
  update_append s a b := by simp

end StreamingMac
