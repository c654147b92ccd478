import Catp.Peer.Replay

/-!
# The two window slots over a run

`window_for` has a last branch that overwrites a slot of another epoch, kept only to make the
function total. `Windows.FallsBack` is the state in which it is taken, and
`Windows.fallsBack_iff_evicts` says what it would cost: the window of another epoch.

A call that reconstructs an epoch first prunes the slots, and the pruned slots always have room
for that epoch (`Windows.not_fallsBack`). So the slots follow the local clock, wherever it jumps:
what they hold after such a call is within one epoch of it, and the only windows lost are those
the clock has left behind.

The statement is about every `WORDS` and every run from empty slots, with a local epoch that may
go anywhere between two calls. `slots_accept` is the step: it is `windowFor_spec` for the epoch
that the call has reconstructed, together with the fact that what is in the slots beforehand is
pruned to the acceptance window of that call and not of an earlier one. That window has two
epochs, and at the local epoch 0 only one (`inWindow_iff`), so two slots are enough at both ends
of the range of a `u32`.
-/

namespace Catp

open Transducer

/-- The epoch whose window a call asks for: `accept_inner` up to the reconstruction. -/
def Input.reconstructed (i : Input) : Option UInt32 :=
  if i.buf.length < headerLen then none
  else reconstructEpoch i.localEpoch (i.buf[1]! &&& 0x0F)

/-- An epoch is reconstructed from a header that is complete. -/
private theorem Input.reconstructed_eq_some {i : Input} {epoch : UInt32} :
    i.reconstructed = some epoch ↔ ¬i.buf.length < headerLen ∧
      reconstructEpoch i.localEpoch (i.buf[1]! &&& 0x0F) = some epoch := by
  rw [Input.reconstructed]
  split_ifs with hlen
  · exact ⟨nofun, fun h => absurd hlen h.1⟩
  · exact (and_iff_right hlen).symm

/-- It lies in the acceptance window. -/
private theorem Input.inWindow_of_reconstructed {i : Input} {epoch : UInt32}
    (h : i.reconstructed = some epoch) : InWindow i.localEpoch epoch :=
  InWindow.of_reconstructEpoch (Input.reconstructed_eq_some.mp h).2

/-- The acceptance window in numbers: the local epoch and the one before, if there is one. -/
theorem inWindow_iff {l e : UInt32} :
    InWindow l e ↔ e.toNat = l.toNat ∨ e.toNat + 1 = l.toNat := by
  rw [InWindow, UInt32.le_iff_toNat_le]
  omega

namespace Windows

variable {WORDS : ℕ}

/-- The occupied slots. -/
def occupied (ws : Windows WORDS) : List (EpochWindow WORDS) :=
  ws.slot0.toList ++ ws.slot1.toList

/-- Slots are pruned exactly if every epoch held is in the acceptance window. -/
theorem pruned_iff {ws : Windows WORDS} {l : UInt32} :
    ws.Pruned l ↔ ∀ ew ∈ ws.occupied, InWindow l ew.epoch := by
  simp only [Pruned, occupied, List.mem_append, Option.mem_toList, Option.mem_def, or_imp,
    forall_and]

end Windows

namespace PeerState

variable {P : Primitives} {WORDS : ℕ} {s : PeerState WORDS} {i : Input} {epoch : UInt32}

/-- A call that reconstructs an epoch prunes the slots and puts a window back for that epoch. -/
private theorem windows_accept (he : i.reconstructed = some epoch) :
    ∃ w, (s.accept P i).2.windows = ((s.windows.prune i.localEpoch).windowFor epoch).2 w := by
  obtain ⟨hlen, hrec⟩ := Input.reconstructed_eq_some.mp he
  rw [accept_eq, acceptInner_of_reconstruct hlen hrec]
  cases verify P i.buf s.config i.localEpoch i.dir with
  | error err => exact ⟨_, rfl⟩
  | ok c => exact ⟨_, rfl⟩

private theorem distinct_final (hd : s.windows.Distinct) (is : List Input) :
    (final (accept P) s is).windows.Distinct :=
  @final_invariant _ _ _ (accept P) s (fun t => t.windows.Distinct) hd
    (fun _ _ ht => (accept_frame ht).2.2) is

/-- What a call that reconstructs an epoch does to the slots: it works on the window that epoch
has, and leaves windows of the acceptance window, which but for that one are those held before. -/
private theorem slots_accept (hd : s.windows.Distinct) (he : i.reconstructed = some epoch) :
    ¬(s.windows.prune i.localEpoch).FallsBack epoch ∧
      ((s.windows.prune i.localEpoch).windowFor epoch).1 = s.windows.live epoch ∧
      (s.accept P i).2.windows.Pruned i.localEpoch ∧
      ∀ e ≠ epoch, (s.accept P i).2.windows.lookup e =
        if InWindow i.localEpoch e then s.windows.lookup e else none := by
  have hin := Input.inWindow_of_reconstructed he
  have hdist := hd.prune i.localEpoch
  have hpruned := s.windows.pruned_prune i.localEpoch
  have hback := Windows.not_fallsBack hdist hpruned hin
  have hlive : ((s.windows.prune i.localEpoch).windowFor epoch).1 = s.windows.live epoch := by
    rw [(Windows.windowFor_cases hdist epoch).1, Windows.live_prune, if_pos hin]
  obtain ⟨w, hw⟩ := @windows_accept P _ s _ _ he
  rw [hw]
  refine ⟨hback, hlive, hpruned.windowFor hdist hin w, fun e hne => ?_⟩
  rw [Windows.lookup_windowFor hdist hback, if_neg hne, Windows.lookup_prune]

/-- **The slots are consistent and the fallback is dead.** After any calls no two slots hold one
epoch, and a further call that reconstructs an epoch does not take the last branch of
`window_for`: it works on the window that epoch has, leaves only windows of the local epoch and
the one before in the slots, and loses none of these. -/
theorem slots_consistent (P : Primitives) {WORDS : ℕ} {s : PeerState WORDS}
    (hs : s.windows = ⟨none, none⟩) (is : List Input) :
    (final (accept P) s is).windows.Distinct ∧
      ∀ i epoch, i.reconstructed = some epoch →
        ¬((final (accept P) s is).windows.prune i.localEpoch).FallsBack epoch ∧
        (((final (accept P) s is).windows.prune i.localEpoch).windowFor epoch).1 =
          (final (accept P) s is).windows.live epoch ∧
        (∀ ew ∈ (accept P (final (accept P) s is) i).2.windows.occupied,
          ew.epoch.toNat = i.localEpoch.toNat ∨ ew.epoch.toNat + 1 = i.localEpoch.toNat) ∧
        ∀ e ≠ epoch, (accept P (final (accept P) s is) i).2.windows.lookup e =
          if InWindow i.localEpoch e then (final (accept P) s is).windows.lookup e else none := by
  have hd : (final (accept P) s is).windows.Distinct :=
    distinct_final (hs ▸ Windows.distinct_empty) is
  refine ⟨hd, fun i epoch he => ?_⟩
  obtain ⟨hback, hlive, hpruned, hlookup⟩ := @slots_accept P _ _ i epoch hd he
  exact ⟨hback, hlive, fun ew hew => inWindow_iff.mp (Windows.pruned_iff.mp hpruned ew hew),
    hlookup⟩

/-- The clock has been two epochs ahead and is back one epoch ahead. -/
theorem slots_consistent_clockSteps :
    (final (accept vectorPrimitives) vectorState clockSteps).windows.Distinct ∧
      ¬((final (accept vectorPrimitives) vectorState clockSteps).windows.prune
        13281251).FallsBack 13281250 := by
  have hs : vectorState.windows = ⟨none, none⟩ := rfl
  have he : (⟨vectorWire, 13281251, .nodeToCollector, 0⟩ : Input).reconstructed =
      some 13281250 := by decide
  obtain ⟨hd, hcall⟩ := slots_consistent vectorPrimitives hs clockSteps
  exact ⟨hd, (hcall _ _ he).1⟩

end PeerState

end Catp
