import Catp.Peer.Stats

/-!
# The receiver of one sender

`PeerState` of `src/peer.rs`: two replay window slots, the rate limiter and the counters of one
provisioned sender.

The slots stand for a total function from epochs to windows, `Windows.live`: the window an
epoch has, or a fresh one. Through `live` the pruning and allocating of slots is what it is
for, forgetting the epochs outside the acceptance window (`live_prune`, `windowFor_spec`). The
two step lemmas `acceptInner_of_verify_error` and `acceptInner_of_verify_ok` say everything a
call does to the state.

The order of the checks follows the source. `acceptInner` looks at the length and at the epoch
nibble before it prunes, and hands the borrowed window to the decoder; the limiter comes last,
when the datagram has verified and is not a replay. `acceptInner_of_reconstruct` writes a call as
one `match` on `verify`, which asks neither the window nor the limiter, and the two step lemmas
are its branches. `settle` is what follows the window's answer.

* A slot is put back as a function of the window (`windowFor`), in place of the mutable borrow.
* `Spare` and `FallsBack` tell the branches of `window_for` apart. `windowFor_cases` names them,
  and `not_fallsBack` shows that the last is dead in pruned slots.
* `WORDS` is a parameter up to `new`, which takes the default of 64.
-/

namespace Catp

/-- A window for one epoch, plus the epoch it belongs to. -/
structure EpochWindow (WORDS : ℕ) where
  epoch : UInt32
  window : ReplayWindow WORDS
  deriving DecidableEq

/-- The two slots, `[Option<EpochWindow>; 2]`. -/
@[ext]
structure Windows (WORDS : ℕ) where
  slot0 : Option (EpochWindow WORDS)
  slot1 : Option (EpochWindow WORDS)
  deriving DecidableEq

/-- Per-sender receiver state. -/
structure PeerState (WORDS : ℕ) where
  config : PeerConfig
  windows : Windows WORDS
  highestEpochAnnounced : Option UInt32
  limiter : Option InboundLimiter
  stats : Stats
  deriving DecidableEq

/-- One call of `accept`. -/
structure Input where
  buf : Bytes
  localEpoch : UInt32
  dir : Direction
  nowMs : UInt64
  deriving DecidableEq, Repr

/-- The call discards the window of `e`: its datagram names an epoch of the acceptance window,
and `e` lies outside it. -/
def Input.Forgets (i : Input) (e : UInt32) : Prop :=
  headerLen ≤ i.buf.length ∧
    (reconstructEpoch i.localEpoch (i.buf[1]! &&& 0x0F)).isSome = true ∧ ¬InWindow i.localEpoch e

instance (i : Input) (e : UInt32) : Decidable (i.Forgets e) :=
  inferInstanceAs (Decidable (_ ∧ _ ∧ _))

/-- `saturating_add(1)`. -/
def saturatingSucc (e : UInt32) : UInt32 := if e = 0xFFFFFFFF then e else e + 1

namespace Windows

variable {WORDS : ℕ}

/-- A slot after pruning: emptied unless its epoch is the local one or the one before. -/
def pruneSlot (localEpoch : UInt32) : Option (EpochWindow WORDS) → Option (EpochWindow WORDS)
  | none => none
  | some ew =>
    if !(localEpoch ≤ saturatingSucc ew.epoch && ew.epoch ≤ localEpoch) then none else some ew

/-- Windows for epochs outside the acceptance window are discarded. -/
def prune (ws : Windows WORDS) (localEpoch : UInt32) : Windows WORDS :=
  ⟨pruneSlot localEpoch ws.slot0, pruneSlot localEpoch ws.slot1⟩

/-- `matches!(s, Some(ew) if ew.epoch == epoch)`. -/
def holdsEpoch (slot : Option (EpochWindow WORDS)) (epoch : UInt32) : Option (ReplayWindow WORDS) :=
  match slot with
  | some ew => if ew.epoch = epoch then some ew.window else none
  | none => none

/-- The window for `epoch`, allocating a fresh one if none exists yet: the window borrowed, and
the slots with a window put back in its place. The last branch evicts a slot. -/
def windowFor (ws : Windows WORDS) (epoch : UInt32) :
    ReplayWindow WORDS × (ReplayWindow WORDS → Windows WORDS) :=
  match holdsEpoch ws.slot0 epoch, holdsEpoch ws.slot1 epoch with
  | some w, _ => (w, fun w => { ws with slot0 := some ⟨epoch, w⟩ })
  | none, some w => (w, fun w => { ws with slot1 := some ⟨epoch, w⟩ })
  | none, none =>
    if ws.slot0.isNone then (.new, fun w => { ws with slot0 := some ⟨epoch, w⟩ })
    else if ws.slot1.isNone then (.new, fun w => { ws with slot1 := some ⟨epoch, w⟩ })
    else (.new, fun w => { ws with slot0 := some ⟨epoch, w⟩ })

/-- Both searches of `window_for` fail, for the slot of the epoch and for a free one: it takes
its last branch. -/
def FallsBack (ws : Windows WORDS) (epoch : UInt32) : Prop :=
  (holdsEpoch ws.slot0 epoch = none ∧ holdsEpoch ws.slot1 epoch = none) ∧
    ws.slot0.isNone = false ∧ ws.slot1.isNone = false

instance (ws : Windows WORDS) (epoch : UInt32) : Decidable (ws.FallsBack epoch) :=
  inferInstanceAs (Decidable (_ ∧ _))

end Windows

namespace PeerState

/-- Builds the state for one provisioned peer. -/
def new (config : PeerConfig) : Except Error (PeerState defaultWindowWords) :=
  if config.cipher.requiresInboundRateLimit && config.inboundRateLimit.isNone then
    .error (.cipherRequiresRateLimit config.cipher.toU8)
  else
    .ok {
      config
      windows := ⟨none, none⟩
      highestEpochAnnounced := none
      limiter := config.inboundRateLimit.map .new
      stats := .zero }

section

variable (P : Primitives) {WORDS : ℕ}

/-- `limiter.try_acquire(now_ms)` of a peer that may have no limiter. -/
def tryAcquire (limiter : Option InboundLimiter) (nowMs : UInt64) : Bool × Option InboundLimiter :=
  match limiter with
  | none => (true, none)
  | some l => ((l.tryAcquire nowMs).1, some (l.tryAcquire nowMs).2)

/-- Pick the window of the datagram's epoch, decode against it, and ask the limiter last. -/
def acceptInner (s : PeerState WORDS) (i : Input) : Except Error Accepted × PeerState WORDS :=
  if i.buf.length < headerLen then (.error .tooShort, s)
  else
    match reconstructEpoch i.localEpoch (i.buf[1]! &&& 0x0F) with
    | none => (.error .epochOutOfWindow, s)
    | some epoch =>
      let (window, putBack) := (s.windows.prune i.localEpoch).windowFor epoch
      let (result, window) := decode P i.buf s.config i.localEpoch i.dir window
      let s := { s with windows := putBack window }
      match result with
      | .error e => (.error e, s)
      | .ok accepted =>
        let (granted, limiter) := tryAcquire s.limiter i.nowMs
        let s := { s with limiter := limiter }
        if granted then (.ok accepted, s) else (.error .rateLimited, s)

/-- Verify one datagram from this peer. -/
def accept (s : PeerState WORDS) (i : Input) : Except Error Accepted × PeerState WORDS :=
  let (result, s) := s.acceptInner P i
  (result, { s with stats := s.stats.recordResult result })

/-- Apply an `EPOCH_ANNOUNCE` that has already been authenticated. -/
def acceptEpochAnnounce (s : PeerState WORDS) (targetEpoch : UInt32) :
    Except Error Unit × PeerState WORDS :=
  match s.highestEpochAnnounced with
  | some hi =>
    if targetEpoch ≤ hi then (.error (.epochRollback targetEpoch hi), s)
    else (.ok (), { s with highestEpochAnnounced := some targetEpoch })
  | none => (.ok (), { s with highestEpochAnnounced := some targetEpoch })

/-- Number of live replay windows. -/
def liveWindows (s : PeerState WORDS) : ℕ :=
  s.windows.slot0.toList.length + s.windows.slot1.toList.length

end

end PeerState

/-! ### Slots as a function of the epoch -/

/-- The condition under which pruning keeps a window is the acceptance window. -/
private theorem inWindow_iff_prune {l e : UInt32} :
    (l ≤ saturatingSucc e && e ≤ l) = true ↔ InWindow l e := by
  have hl := l.toNat_lt
  have hsucc : l ≤ saturatingSucc e ↔ l.toNat ≤ e.toNat + 1 := by
    rw [saturatingSucc, UInt32.le_iff_toNat_le]
    split_ifs with h
    · rw [h, show (0xFFFFFFFF : UInt32).toNat = 2 ^ 32 - 1 from rfl]
      omega
    · have he := e.toNat_lt
      have hne : e.toNat ≠ 2 ^ 32 - 1 := fun heq => h (UInt32.toNat_inj.mp heq)
      rw [UInt32.toNat_add, show (1 : UInt32).toNat = 1 from rfl, Nat.mod_eq_of_lt (by omega)]
  rw [Bool.and_eq_true, decide_eq_true_eq, decide_eq_true_eq, hsucc, InWindow, and_comm]

namespace Windows

variable {WORDS : ℕ}

/-- The window held for an epoch. -/
def lookup (ws : Windows WORDS) (e : UInt32) : Option (ReplayWindow WORDS) :=
  (holdsEpoch ws.slot0 e).or (holdsEpoch ws.slot1 e)

/-- The window of an epoch: the one held for it, or a fresh one. -/
def live (ws : Windows WORDS) (e : UInt32) : ReplayWindow WORDS := (ws.lookup e).getD .new

/-- No two slots belong to the same epoch. -/
def Distinct (ws : Windows WORDS) : Prop :=
  ∀ a ∈ ws.slot0, ∀ b ∈ ws.slot1, a.epoch ≠ b.epoch

/-- Empty slots belong to no epoch. -/
theorem distinct_empty : (⟨none, none⟩ : Windows WORDS).Distinct := nofun

/-- In empty slots every epoch has a fresh window. -/
@[simp] theorem live_empty (e : UInt32) : (⟨none, none⟩ : Windows WORDS).live e = .new := rfl

/-- A slot keeps its window exactly if the epoch is in the acceptance window. -/
private theorem pruneSlot_some (l : UInt32) (ew : EpochWindow WORDS) :
    pruneSlot l (some ew) = if InWindow l ew.epoch then some ew else none := by
  rw [pruneSlot]
  by_cases h : InWindow l ew.epoch
  · rw [inWindow_iff_prune.mpr h, if_pos h]
    rfl
  · rw [Bool.eq_false_iff.mpr (mt inWindow_iff_prune.mp h), if_neg h]
    rfl

private theorem mem_pruneSlot {l : UInt32} {slot : Option (EpochWindow WORDS)}
    {ew : EpochWindow WORDS} :
    ew ∈ pruneSlot l slot ↔ ew ∈ slot ∧ InWindow l ew.epoch := by
  cases slot with
  | none => simp [pruneSlot]
  | some x =>
    rw [pruneSlot_some]
    split_ifs with h
    · exact ⟨fun hx => ⟨hx, Option.some.inj hx ▸ h⟩, fun hx => hx.1⟩
    · exact ⟨nofun, fun hx => absurd (Option.some.inj hx.1 ▸ hx.2) h⟩

/-- What a slot holds for an epoch after pruning. -/
private theorem holdsEpoch_pruneSlot (l e : UInt32) (slot : Option (EpochWindow WORDS)) :
    holdsEpoch (pruneSlot l slot) e = if InWindow l e then holdsEpoch slot e else none := by
  cases slot with
  | none => simp [pruneSlot, holdsEpoch]
  | some x =>
    rw [pruneSlot_some]
    by_cases he : x.epoch = e
    · rw [he]
      split_ifs <;> rfl
    · have hx : holdsEpoch (some x) e = none := if_neg he
      rw [hx]
      split_ifs <;> first | exact hx | rfl

/-- Pruning forgets the windows outside the acceptance window, and nothing else. -/
theorem lookup_prune (ws : Windows WORDS) (l e : UInt32) :
    (ws.prune l).lookup e = if InWindow l e then ws.lookup e else none := by
  rw [lookup, prune, holdsEpoch_pruneSlot, holdsEpoch_pruneSlot]
  split_ifs <;> rfl

/-- Pruning keeps the windows of the acceptance window, and forgets the others. -/
theorem live_prune (ws : Windows WORDS) (l e : UInt32) :
    (ws.prune l).live e = if InWindow l e then ws.live e else .new := by
  rw [live, lookup_prune]
  split_ifs <;> rfl

/-- Pruning keeps the slots distinct. -/
theorem Distinct.prune {ws : Windows WORDS} (h : ws.Distinct) (l : UInt32) :
    (ws.prune l).Distinct := fun a ha b hb =>
  h a (mem_pruneSlot.mp ha).1 b (mem_pruneSlot.mp hb).1

/-- Two different epochs of the acceptance window leave no room for a third. -/
private theorem eq_or_eq_of_inWindow {l a b e : UInt32} (ha : InWindow l a) (hb : InWindow l b)
    (he : InWindow l e) (hab : a ≠ b) : a = e ∨ b = e := by
  obtain ⟨ha1, ha2⟩ := ha
  obtain ⟨hb1, hb2⟩ := hb
  obtain ⟨he1, he2⟩ := he
  rw [UInt32.le_iff_toNat_le] at ha1 hb1 he1
  rw [ne_eq, ← UInt32.toNat_inj] at hab
  rw [← UInt32.toNat_inj, ← UInt32.toNat_inj]
  omega

/-- Every occupied slot belongs to the acceptance window. -/
def Pruned (ws : Windows WORDS) (l : UInt32) : Prop :=
  (∀ a ∈ ws.slot0, InWindow l a.epoch) ∧ ∀ b ∈ ws.slot1, InWindow l b.epoch

/-- Pruning leaves pruned slots. -/
theorem pruned_prune (ws : Windows WORDS) (l : UInt32) : (ws.prune l).Pruned l :=
  ⟨fun _ ha => (mem_pruneSlot.mp ha).2, fun _ hb => (mem_pruneSlot.mp hb).2⟩

private theorem holdsEpoch_eq_none {slot : Option (EpochWindow WORDS)} {e : UInt32} :
    holdsEpoch slot e = none ↔ ∀ ew ∈ slot, ew.epoch ≠ e := by
  cases slot with
  | none => simp [holdsEpoch]
  | some ew => simp [holdsEpoch]

private theorem holdsEpoch_eq_some {slot : Option (EpochWindow WORDS)} {e : UInt32}
    {w : ReplayWindow WORDS} : holdsEpoch slot e = some w ↔ slot = some ⟨e, w⟩ := by
  cases slot with
  | none => simp [holdsEpoch]
  | some ew =>
    obtain ⟨e', w'⟩ := ew
    simp only [holdsEpoch, Option.some.injEq, EpochWindow.mk.injEq]
    split_ifs with h <;> simp [h]

/-- The slots a window may be put into without losing another epoch's window. -/
def Spare (slot : Option (EpochWindow WORDS)) (e : UInt32) : Prop := ∀ ew ∈ slot, ew.epoch = e

private theorem spare_none (e : UInt32) : Spare (none : Option (EpochWindow WORDS)) e := by
  intro ew hew
  cases hew

private theorem spare_of_holdsEpoch {slot : Option (EpochWindow WORDS)} {e : UInt32}
    {w : ReplayWindow WORDS} (h : holdsEpoch slot e = some w) : Spare slot e := by
  intro ew hew
  rw [holdsEpoch_eq_some.mp h] at hew
  rw [← Option.some.inj hew]

/-- Putting a window into the first slot. -/
private theorem lookup_put_slot0 {ws : Windows WORDS} {e : UInt32} (hspare : Spare ws.slot0 e)
    (w : ReplayWindow WORDS) (e' : UInt32) :
    ({ ws with slot0 := some ⟨e, w⟩ } : Windows WORDS).lookup e' =
      if e' = e then some w else ws.lookup e' := by
  rw [lookup, lookup]
  split_ifs with h
  · rw [h, holdsEpoch_eq_some.mpr rfl]
    rfl
  · have hput : holdsEpoch (some ⟨e, w⟩) e' = none := if_neg (Ne.symm h)
    have hold : holdsEpoch ws.slot0 e' = none :=
      holdsEpoch_eq_none.mpr fun ew hew heq => h (heq.symm.trans (hspare ew hew))
    rw [hput, hold]

/-- A window put into the first slot, with none for its epoch in the second. -/
private theorem Distinct.put_slot0 {ws : Windows WORDS} {e : UInt32}
    (hother : holdsEpoch ws.slot1 e = none)
    (w : ReplayWindow WORDS) : ({ ws with slot0 := some ⟨e, w⟩ } : Windows WORDS).Distinct := by
  intro a ha b hb
  obtain rfl := Option.some.inj ha
  exact (holdsEpoch_eq_none.mp hother b hb).symm

/-- The slots, exchanged. -/
def swap (ws : Windows WORDS) : Windows WORDS := ⟨ws.slot1, ws.slot0⟩

private theorem Distinct.swap {ws : Windows WORDS} (h : ws.Distinct) : ws.swap.Distinct :=
  fun a ha b hb => (h b hb a ha).symm

/-- The epoch of one slot is not held by the other. -/
private theorem Distinct.holdsEpoch_slot1 {ws : Windows WORDS} (h : ws.Distinct) {e : UInt32}
    {w : ReplayWindow WORDS} (h0 : holdsEpoch ws.slot0 e = some w) :
    holdsEpoch ws.slot1 e = none :=
  holdsEpoch_eq_none.mpr fun b hb => (h _ (holdsEpoch_eq_some.mp h0) b hb).symm

private theorem Distinct.lookup_swap {ws : Windows WORDS} (h : ws.Distinct) (e : UInt32) :
    ws.swap.lookup e = ws.lookup e := by
  rw [lookup, lookup, Windows.swap]
  rcases h0 : holdsEpoch ws.slot0 e with _ | w0
  · rw [Option.or_none, Option.none_or]
  · rw [h.holdsEpoch_slot1 h0, Option.or_none, Option.none_or]

/-- Putting a window into the second slot. -/
private theorem lookup_put_slot1 {ws : Windows WORDS} (hd : ws.Distinct) {e : UInt32}
    (hspare : Spare ws.slot1 e) (hother : holdsEpoch ws.slot0 e = none) (w : ReplayWindow WORDS)
    (e' : UInt32) :
    ({ ws with slot1 := some ⟨e, w⟩ } : Windows WORDS).lookup e' =
      if e' = e then some w else ws.lookup e' := by
  have hswap := Distinct.put_slot0 (show holdsEpoch ws.swap.slot1 e = none from hother) w
  rw [← hd.lookup_swap e', ← lookup_put_slot0 (show Spare ws.swap.slot0 e from hspare) w e']
  exact hswap.lookup_swap e'

/-- **The branches of `window_for`.** The window borrowed is the one the epoch has. It is put
back into the epoch's own slot or a free one, but in the last branch. -/
theorem windowFor_cases {ws : Windows WORDS} (hd : ws.Distinct) (e : UInt32) :
    (ws.windowFor e).1 = ws.live e ∧
      ((Spare ws.slot0 e ∧ holdsEpoch ws.slot1 e = none ∧
          (ws.windowFor e).2 = fun w => { ws with slot0 := some ⟨e, w⟩ }) ∨
        (Spare ws.slot1 e ∧ holdsEpoch ws.slot0 e = none ∧
          (ws.windowFor e).2 = fun w => { ws with slot1 := some ⟨e, w⟩ }) ∨
        (ws.FallsBack e ∧ (ws.windowFor e).2 = fun w => { ws with slot0 := some ⟨e, w⟩ })) := by
  rw [windowFor, live, lookup]
  rcases h0 : holdsEpoch ws.slot0 e with _ | w0
  · rcases h1 : holdsEpoch ws.slot1 e with _ | w1
    · dsimp only
      split_ifs with hfree0 hfree1
      · have hspare : Spare ws.slot0 e := by
          rw [Option.isNone_iff_eq_none.mp hfree0]
          exact spare_none e
        exact ⟨rfl, .inl ⟨hspare, rfl, rfl⟩⟩
      · have hspare : Spare ws.slot1 e := by
          rw [Option.isNone_iff_eq_none.mp hfree1]
          exact spare_none e
        exact ⟨rfl, .inr (.inl ⟨hspare, rfl, rfl⟩)⟩
      · exact ⟨rfl, .inr (.inr ⟨⟨⟨h0, h1⟩, Bool.eq_false_iff.mpr hfree0,
          Bool.eq_false_iff.mpr hfree1⟩, rfl⟩)⟩
    · exact ⟨rfl, .inr (.inl ⟨spare_of_holdsEpoch h1, rfl, rfl⟩)⟩
  · exact ⟨rfl, .inl ⟨spare_of_holdsEpoch h0, hd.holdsEpoch_slot1 h0, rfl⟩⟩

/-- What is put back into a slot of the epoch's own or a free one takes the place of no other
epoch's window. -/
theorem lookup_windowFor {ws : Windows WORDS} (hd : ws.Distinct) {e : UInt32}
    (hback : ¬ws.FallsBack e) (w : ReplayWindow WORDS) (e' : UInt32) :
    ((ws.windowFor e).2 w).lookup e' = if e' = e then some w else ws.lookup e' := by
  rcases (windowFor_cases hd e).2 with ⟨hspare, -, hput⟩ | ⟨hspare, hother, hput⟩ | ⟨h, -⟩
  · rw [hput]
    exact lookup_put_slot0 hspare w e'
  · rw [hput]
    exact lookup_put_slot1 hd hspare hother w e'
  · exact absurd h hback

/-- Putting back the window asked for keeps the slots distinct. -/
theorem Distinct.windowFor {ws : Windows WORDS} (hd : ws.Distinct) {e : UInt32}
    (w : ReplayWindow WORDS) : ((ws.windowFor e).2 w).Distinct := by
  rcases (windowFor_cases hd e).2 with ⟨-, hother, hput⟩ | ⟨-, hother, hput⟩ | ⟨h, hput⟩
  · rw [hput]
    exact Distinct.put_slot0 hother w
  · rw [hput]
    exact (Distinct.put_slot0 (show holdsEpoch ws.swap.slot1 e = none from hother) w).swap
  · rw [hput]
    exact Distinct.put_slot0 h.1.2 w

/-- It keeps them pruned, if the epoch is in the acceptance window. -/
theorem Pruned.windowFor {ws : Windows WORDS} {l e : UInt32} (hd : ws.Distinct)
    (hp : ws.Pruned l) (he : InWindow l e) (w : ReplayWindow WORDS) :
    ((ws.windowFor e).2 w).Pruned l := by
  have hnew : ∀ a ∈ some (⟨e, w⟩ : EpochWindow WORDS), InWindow l a.epoch := by
    intro a ha
    rw [← Option.some.inj ha]
    exact he
  rcases (windowFor_cases hd e).2 with ⟨-, -, hput⟩ | ⟨-, -, hput⟩ | ⟨-, hput⟩
  · rw [hput]
    exact ⟨hnew, hp.2⟩
  · rw [hput]
    exact ⟨hp.1, hnew⟩
  · rw [hput]
    exact ⟨hnew, hp.2⟩

/-- **The fallback is dead.** Pruned slots have room for an epoch of the acceptance window. -/
theorem not_fallsBack {ws : Windows WORDS} {l e : UInt32} (hd : ws.Distinct) (hp : ws.Pruned l)
    (he : InWindow l e) : ¬ws.FallsBack e := by
  rintro ⟨⟨h0, h1⟩, hfull0, hfull1⟩
  rw [Bool.eq_false_iff, ne_eq, Option.isNone_iff_eq_none] at hfull0 hfull1
  obtain ⟨a, ha⟩ := Option.ne_none_iff_exists'.mp hfull0
  obtain ⟨b, hb⟩ := Option.ne_none_iff_exists'.mp hfull1
  rcases eq_or_eq_of_inWindow (hp.1 a ha) (hp.2 b hb) he (hd a ha b hb) with hae | hbe
  · exact holdsEpoch_eq_none.mp h0 a ha hae
  · exact holdsEpoch_eq_none.mp h1 b hb hbe

/-- The last case of `window_for`: the first slot is overwritten. -/
private theorem windowFor_of_fallsBack {ws : Windows WORDS} {e : UInt32} (h : ws.FallsBack e) :
    ws.windowFor e = (.new, fun w => { ws with slot0 := some ⟨e, w⟩ }) := by
  obtain ⟨⟨h0, h1⟩, hfull0, hfull1⟩ := h
  rw [windowFor, h0, h1]
  dsimp only
  rw [hfull0, hfull1]
  rfl

/-- The fallback is exactly the branch that loses the window of an epoch other than the one asked
for. -/
theorem fallsBack_iff_evicts {ws : Windows WORDS} (hd : ws.Distinct) (e : UInt32) :
    ws.FallsBack e ↔ ∃ e' ≠ e, ∃ w, (ws.lookup e').isSome = true ∧
      ((ws.windowFor e).2 w).lookup e' = none := by
  constructor
  · intro hback
    have hput := windowFor_of_fallsBack hback
    obtain ⟨⟨h0, -⟩, hfull0, -⟩ := hback
    rw [Bool.eq_false_iff, ne_eq, Option.isNone_iff_eq_none] at hfull0
    obtain ⟨a, ha⟩ := Option.ne_none_iff_exists'.mp hfull0
    have hheld : holdsEpoch ws.slot0 a.epoch = some a.window := holdsEpoch_eq_some.mpr ha
    have hne : a.epoch ≠ e := holdsEpoch_eq_none.mp h0 a ha
    refine ⟨a.epoch, hne, .new, by rw [lookup, hheld]; rfl, ?_⟩
    rw [hput, lookup, hd.holdsEpoch_slot1 hheld, Option.or_none]
    exact if_neg hne.symm
  · rintro ⟨e', hne, w, hsome, hnone⟩
    by_contra hback
    rw [lookup_windowFor hd hback, if_neg hne] at hnone
    rw [hnone] at hsome
    cases hsome

/-- **Borrowing a window.** Among pruned slots, the window borrowed for an accepted epoch is
the one that epoch has, and putting a window back changes no other epoch's: the eviction
branch is never taken. -/
theorem windowFor_spec {ws : Windows WORDS} {l e : UInt32} (hd : ws.Distinct) (hp : ws.Pruned l)
    (he : InWindow l e) :
    (ws.windowFor e).1 = ws.live e ∧ ∀ w, ((ws.windowFor e).2 w).Distinct ∧
      ((ws.windowFor e).2 w).Pruned l ∧
      ∀ e', ((ws.windowFor e).2 w).live e' = if e' = e then w else ws.live e' := by
  refine ⟨(windowFor_cases hd e).1, fun w => ⟨hd.windowFor w, hp.windowFor hd he w, ?_⟩⟩
  intro e'
  rw [live, live, lookup_windowFor hd (not_fallsBack hd hp he)]
  split_ifs <;> rfl

end Windows

/-! ### What a call does -/

/-- The error of a call whose datagram fails steps 1 to 7 with `err`: the length and the epoch
are looked at first, to find the window. -/
def Input.failure (i : Input) (err : Error) : Error :=
  if i.buf.length < headerLen then .tooShort
  else if (reconstructEpoch i.localEpoch (i.buf[1]! &&& 0x0F)).isNone then .epochOutOfWindow
  else err

namespace PeerState

variable {P : Primitives} {WORDS : ℕ} {s : PeerState WORDS} {i : Input}

/-- What becomes of a verified datagram once the window has answered: the result, and the
limiter afterwards. -/
def settle (config : PeerConfig) (limiter : Option InboundLimiter) (c : Claim)
    (answer : Except Error Unit) (nowMs : UInt64) :
    Except Error Accepted × Option InboundLimiter :=
  match answer with
  | .error e => (.error e, limiter)
  | .ok () =>
    match c.finish config with
    | .error e => (.error e, limiter)
    | .ok accepted =>
      (if (tryAcquire limiter nowMs).1 then .ok accepted else .error .rateLimited,
        (tryAcquire limiter nowMs).2)

/-- The early checks of `accept_inner` pass on whatever passes the header checks, and select
the epoch of the claim. -/
theorem acceptInner_of_reconstruct {e : UInt32} (hlen : ¬i.buf.length < headerLen)
    (he : reconstructEpoch i.localEpoch (i.buf[1]! &&& 0x0F) = some e) :
    s.acceptInner P i =
      let window := ((s.windows.prune i.localEpoch).windowFor e).1
      let putBack := ((s.windows.prune i.localEpoch).windowFor e).2
      match verify P i.buf s.config i.localEpoch i.dir with
      | .error err => (.error err, { s with windows := putBack window })
      | .ok c =>
        let r := settle s.config s.limiter c (window.checkAndSet c.header.datagramOffset).1 i.nowMs
        (r.1, { s with
          windows := putBack (window.checkAndSet c.header.datagramOffset).2
          limiter := r.2 }) := by
  simp only [acceptInner, if_neg hlen, he]
  cases hverify : verify P i.buf s.config i.localEpoch i.dir with
  | error err => rw [decode_of_verify_error hverify]
  | ok c =>
    rw [decode_of_verify_ok hverify]
    simp only [settle]
    -- a refusal of the window, a framing error, or a datagram for the limiter
    rcases (((s.windows.prune i.localEpoch).windowFor e).1.checkAndSet c.header.datagramOffset).1
      with _ | _
    · rfl
    · dsimp only
      cases c.finish s.config with
      | error err => rfl
      | ok acc =>
        dsimp only
        split_ifs <;> rfl

/-- **A call that fails before the window is touched** reports a failure of steps 1 to 7, and
changes no live window but by forgetting it. -/
theorem acceptInner_of_verify_error {err : Error} (hd : s.windows.Distinct)
    (h : verify P i.buf s.config i.localEpoch i.dir = .error err) :
    ∃ ws, s.acceptInner P i = (.error (i.failure err), { s with windows := ws }) ∧
      (i.failure err).isUnverified = true ∧ ws.Distinct ∧
      ∀ e, ws.live e = s.windows.live e ∨ i.Forgets e ∧ ws.live e = .new := by
  by_cases hlen : i.buf.length < headerLen
  · rw [Input.failure, if_pos hlen]
    exact ⟨s.windows, by rw [acceptInner, if_pos hlen], rfl, hd, fun e => .inl rfl⟩
  rw [Input.failure, if_neg hlen]
  cases he : reconstructEpoch i.localEpoch (i.buf[1]! &&& 0x0F) with
  | none =>
    exact ⟨s.windows, by simp only [acceptInner, if_neg hlen, he]; rfl, rfl, hd,
      fun e => .inl rfl⟩
  | some e =>
    obtain ⟨hwin, hput⟩ := Windows.windowFor_spec (hd.prune i.localEpoch)
      (s.windows.pruned_prune i.localEpoch) (InWindow.of_reconstructEpoch he)
    obtain ⟨hdist, -, hlive⟩ := hput ((s.windows.prune i.localEpoch).windowFor e).1
    refine ⟨_, by rw [acceptInner_of_reconstruct hlen he, h]; rfl, verify_error h, hdist,
      fun e' => ?_⟩
    -- the window borrowed is put back as it was
    have hlive' : (((s.windows.prune i.localEpoch).windowFor e).2
        ((s.windows.prune i.localEpoch).windowFor e).1).live e'
        = (s.windows.prune i.localEpoch).live e' := by
      rw [hlive]
      split_ifs with heq
      · rw [heq, hwin]
      · rfl
    rw [hlive', Windows.live_prune]
    split_ifs with hin
    · exact .inl rfl
    · exact .inr ⟨⟨Nat.not_lt.mp hlen, by rw [he]; rfl, hin⟩, rfl⟩

/-- A datagram that verifies is of an epoch of the acceptance window. -/
theorem inWindow_of_verify {c : Claim} (h : verify P i.buf s.config i.localEpoch i.dir = .ok c) :
    InWindow i.localEpoch c.epochId :=
  InWindow.of_reconstructEpoch (claim_epoch_of_checkHeader (verify_eq_ok_iff.mp h).1)

/-- **A call whose datagram verifies** asks the live window of its epoch and puts it back; no
other live window changes but by being forgotten. -/
theorem acceptInner_of_verify_ok {c : Claim} (hd : s.windows.Distinct)
    (h : verify P i.buf s.config i.localEpoch i.dir = .ok c) :
    ∃ ws, ws.Distinct ∧
      ws.live c.epochId = ((s.windows.live c.epochId).checkAndSet c.header.datagramOffset).2 ∧
      (∀ e, e ≠ c.epochId → ws.live e = s.windows.live e ∨ i.Forgets e ∧ ws.live e = .new) ∧
      s.acceptInner P i =
        let r := settle s.config s.limiter c
          ((s.windows.live c.epochId).checkAndSet c.header.datagramOffset).1 i.nowMs
        (r.1, { s with windows := ws, limiter := r.2 }) := by
  have hhead := (verify_eq_ok_iff.mp h).1
  have he := claim_epoch_of_checkHeader hhead
  have hin := inWindow_of_verify h
  have hlen : ¬i.buf.length < headerLen := by
    have := (checkHeader_eq_ok_iff.mp hhead).1
    omega
  obtain ⟨hwin, hput⟩ := Windows.windowFor_spec (hd.prune i.localEpoch)
    (s.windows.pruned_prune i.localEpoch) hin
  rw [Windows.live_prune, if_pos hin] at hwin
  obtain ⟨hdist, -, hlive⟩ :=
    hput ((s.windows.live c.epochId).checkAndSet c.header.datagramOffset).2
  refine ⟨_, hdist, by rw [hlive, if_pos rfl], fun e hne => ?_,
    by rw [acceptInner_of_reconstruct hlen he, h, hwin]⟩
  -- the other epochs lose their window to pruning, or not at all
  rw [hlive, if_neg hne, Windows.live_prune]
  split_ifs with hine
  · exact .inl rfl
  · exact .inr ⟨⟨Nat.not_lt.mp hlen, by rw [he]; rfl, hine⟩, rfl⟩

/-! ### Results -/

/-- `accept` counts the result of `accept_inner`, and no more. -/
theorem accept_eq : s.accept P i =
    ((s.acceptInner P i).1,
      { (s.acceptInner P i).2 with
        stats := (s.acceptInner P i).2.stats.recordResult (s.acceptInner P i).1 }) := rfl

/-- A call changes the slots and the limiter, and nothing else; only `accept` itself counts. -/
private theorem acceptInner_frame : ∃ ws limiter,
    (s.acceptInner P i).2 = { s with windows := ws, limiter := limiter } := by
  by_cases hlen : i.buf.length < headerLen
  · exact ⟨s.windows, s.limiter, by rw [acceptInner, if_pos hlen]⟩
  cases he : reconstructEpoch i.localEpoch (i.buf[1]! &&& 0x0F) with
  | none => exact ⟨s.windows, s.limiter, by simp only [acceptInner, if_neg hlen, he]⟩
  | some e =>
    rw [acceptInner_of_reconstruct hlen he]
    cases verify P i.buf s.config i.localEpoch i.dir with
    | error err => exact ⟨_, s.limiter, rfl⟩
    | ok c => exact ⟨_, _, rfl⟩

/-- A call changes no configuration. -/
@[simp] theorem config_accept (P : Primitives) (s : PeerState WORDS) (i : Input) :
    (s.accept P i).2.config = s.config := by
  obtain ⟨ws, limiter, h⟩ := @acceptInner_frame P _ s i
  rw [accept_eq, h]

/-- A call adds the tally of its result. -/
theorem stats_accept (P : Primitives) (s : PeerState WORDS) (i : Input) :
    (s.accept P i).2.stats = s.stats + Stats.tally (s.accept P i).1 := by
  obtain ⟨ws, limiter, h⟩ := @acceptInner_frame P _ s i
  rw [accept_eq, Stats.recordResult_eq_add, h]

section Settle

variable {config : PeerConfig} {limiter : Option InboundLimiter} {c : Claim}
  {answer : Except Error Unit} {nowMs : UInt64}

/-- What is delivered was admitted by the window, and framed. -/
theorem settle_eq_ok {acc : Accepted} (h : (settle config limiter c answer nowMs).1 = .ok acc) :
    answer = .ok () ∧ c.finish config = .ok acc := by
  rw [settle.eq_def] at h
  cases answer with
  | error e => cases h
  | ok u =>
    dsimp only at h
    cases hfinish : c.finish config with
    | error e =>
      rw [hfinish] at h
      cases h
    | ok acc' =>
      rw [hfinish] at h
      dsimp only at h
      split_ifs at h
      exact ⟨rfl, h⟩

/-- What fails after the window has answered `Ok` is framing or the rate limit. -/
theorem settle_ok_error {e : Error} (h : (settle config limiter c (.ok ()) nowMs).1 = .error e) :
    e.isFraming = true ∨ e = .rateLimited := by
  rw [settle.eq_def] at h
  dsimp only at h
  cases hfinish : c.finish config with
  | error e' =>
    rw [hfinish] at h
    rw [← Except.error.inj h]
    exact .inl (finish_error hfinish)
  | ok acc =>
    rw [hfinish] at h
    dsimp only at h
    split_ifs at h
    exact .inr (Except.error.inj h).symm

/-- A verified datagram is refused as a replay exactly when the window refuses it. -/
theorem settle_eq_replay_iff :
    (settle config limiter c answer nowMs).1 = .error .replay ↔ answer = .error .replay := by
  cases answer with
  | error e => simp [settle]
  | ok u =>
    refine ⟨?_, nofun⟩
    intro h
    rcases settle_ok_error h with hf | hr
    · cases hf
    · cases hr

end Settle

/-- A call changes neither the configuration nor the announced epoch, and keeps the slots
distinct. -/
theorem accept_frame (hd : s.windows.Distinct) :
    (s.accept P i).2.config = s.config ∧
      (s.accept P i).2.highestEpochAnnounced = s.highestEpochAnnounced ∧
      (s.accept P i).2.windows.Distinct := by
  cases h : verify P i.buf s.config i.localEpoch i.dir with
  | error err =>
    obtain ⟨ws, heq, -, hdist, -⟩ := acceptInner_of_verify_error hd h
    rw [accept_eq, heq]
    exact ⟨rfl, rfl, hdist⟩
  | ok c =>
    obtain ⟨ws, hdist, -, -, heq⟩ := acceptInner_of_verify_ok hd h
    rw [accept_eq, heq]
    exact ⟨rfl, rfl, hdist⟩

/-- The states a run reaches from a fresh one. -/
theorem new_eq_ok {config : PeerConfig} {s : PeerState defaultWindowWords}
    (h : new config = .ok s) :
    s.config = config ∧ s.windows = ⟨none, none⟩ ∧
      s.limiter = config.inboundRateLimit.map .new ∧ s.stats = 0 := by
  rw [new] at h
  split_ifs at h
  rw [← Except.ok.inj h]
  exact ⟨rfl, rfl, rfl, rfl⟩

end PeerState

end Catp
