import Catp.Core.Pacer
import Catp.Wire.AuthBinding
import Catp.Wire.RoundTrip

/-!
# The sender's loop

`main` of `tools/src/bin/sender.rs`: each turn reads the clock, claims the tick of the reading,
has a datagram made for it, encodes it and hands the bytes to the network. What the datagrams
carry is the application's; a turn is parametrized by the function that makes them, of which only
`Makes` is used: what it returns was built by the constructors of `Datagram` for the epoch and
the tick it was asked for.

A turn that is refused its tick sheds the datagram, so the pairs under which datagrams are sent
are among those the pacer handed out (`pairs_sublist`).

A turn counts before it sends: the sequence number moves on when a tick is claimed, and the shed
counter when it is not. A datagram that cannot be made or encoded is reported and dropped, and its
tick is not given back. `turn_spec` is one turn, `pairs_sublist` the induction over them, and
`emitted_of_mem_sends` says where a datagram sent comes from.

When everything made can be encoded, the run is known exactly (`sends_eq`): the pairs handed out
are numbered from 1 on, and what is made of each is what is sent. `nodup_pairs` brings in the
pacer, under the condition on the clock that it needs.
-/

namespace Catp

open Transducer

/-- What makes a datagram of a sequence number, an epoch and a tick. -/
abbrev Make := UInt32 → UInt32 → UInt32 → Except Error Datagram

/-- The datagrams made are built for the sender, the epoch and the tick asked for. -/
def Makes (cipher : CipherId) (senderId : UInt32) (make : Make) : Prop :=
  ∀ seq e off d, make seq e off = .ok d → Built cipher senderId e d ∧ d.datagramOffset = off

/-- The variables of `main` that survive a turn. -/
structure Sender where
  pacer : Pacer
  seq : UInt32
  shed : UInt64
  deriving DecidableEq, Repr

/-- A datagram handed to the network. -/
structure Sent where
  epoch : UInt32
  offset : UInt32
  datagram : Datagram
  wire : Bytes
  deriving DecidableEq, Repr

/-- How a turn ends: two datagrams in one tick, a datagram that cannot be made, one that cannot be
encoded, or one sent. -/
inductive Turn
  | shed (e : Error)
  | constructionFailed (e : Error)
  | encodeFailed (e : Error)
  | sent (x : Sent)
  deriving DecidableEq, Repr

/-- The epoch and the tick a datagram was sent under. -/
def Sent.pair (x : Sent) : UInt32 × UInt32 := (x.epoch, x.offset)

/-- The datagrams sent in a run of turns. -/
def sentOf (ts : List Turn) : List Sent :=
  ts.filterMap fun t => match t with
    | .sent x => some x
    | _ => none

@[simp] theorem sentOf_cons_sent (x : Sent) (ts : List Turn) :
    sentOf (.sent x :: ts) = x :: sentOf ts := rfl

private theorem sentOf_append (ts us : List Turn) : sentOf (ts ++ us) = sentOf ts ++ sentOf us :=
  List.filterMap_append

private theorem mem_sentOf {ts : List Turn} {x : Sent} : x ∈ sentOf ts ↔ .sent x ∈ ts := by
  rw [sentOf, List.mem_filterMap]
  constructor
  · rintro ⟨t, ht, hx⟩
    cases t with
    | sent y =>
      obtain rfl := Option.some.inj hx
      exact ht
    | shed e => cases hx
    | constructionFailed e => cases hx
    | encodeFailed e => cases hx
  · exact fun h => ⟨_, h, rfl⟩

namespace Sender

/-- Before the loop. -/
def start : Sender := ⟨.new, 0, 0⟩

section

variable (P : Primitives) (secret : DeviceSecret) (make : Make)

/-- One turn of the loop, on this clock reading. -/
def turn (s : Sender) (r : Reading) : Turn × Sender :=
  match s.pacer.claim r with
  | (.error e, pacer) => (.shed e, { s with pacer := pacer, shed := s.shed + 1 })
  | (.ok (epoch, offset), pacer) =>
    let s := { s with pacer := pacer, seq := s.seq + 1 }
    match make s.seq epoch offset with
    | .error e => (.constructionFailed e, s)
    | .ok dg =>
      match dg.encode P secret epoch .nodeToCollector maxDatagramIpv4 with
      | .error e => (.encodeFailed e, s)
      | .ok wire => (.sent ⟨epoch, offset, dg, wire⟩, s)

/-- The datagrams sent on these clock readings. -/
def sends (rs : List Reading) : List Sent := sentOf (outputs (turn P secret make) start rs)

end

/-- A datagram sent was made for its epoch and tick, and encoded for its epoch. -/
structure Emitted (P : Primitives) (secret : DeviceSecret) (make : Make) (x : Sent) : Prop where
  made : ∃ seq, make seq x.epoch x.offset = .ok x.datagram
  encoded : x.datagram.encode P secret x.epoch .nodeToCollector maxDatagramIpv4 = .ok x.wire

variable {P : Primitives} {secret : DeviceSecret} {make : Make}

/-- **What a turn does.** The pacer has its turn, whatever becomes of the datagram; one that is
sent bears the pair claimed. -/
theorem turn_spec (P : Primitives) (secret : DeviceSecret) (make : Make) (s : Sender)
    (r : Reading) :
    (turn P secret make s r).2.pacer = (s.pacer.claim r).2 ∧
      ∀ x, (turn P secret make s r).1 = .sent x →
        (s.pacer.claim r).1 = .ok x.pair ∧ Emitted P secret make x := by
  rw [turn]
  rcases s.pacer.claim r with ⟨e | ⟨epoch, offset⟩, pacer⟩
  · exact ⟨rfl, fun x hx => by cases hx⟩
  · dsimp only
    rcases hmake : make (s.seq + 1) epoch offset with e | dg
    · exact ⟨rfl, fun x hx => by cases hx⟩
    · dsimp only
      rcases henc : dg.encode P secret epoch .nodeToCollector maxDatagramIpv4 with e | wire
      · exact ⟨rfl, fun x hx => by cases hx⟩
      · refine ⟨rfl, fun x hx => ?_⟩
        obtain rfl := Turn.sent.inj hx
        exact ⟨rfl, ⟨_, hmake⟩, henc⟩

/-- Every datagram of a run was made and encoded. -/
theorem emitted_of_mem_sends {rs : List Reading} {x : Sent} (h : x ∈ sends P secret make rs) :
    Emitted P secret make x := by
  obtain ⟨p, hp, hx⟩ := List.mem_map.mp (mem_sentOf.mp h)
  obtain ⟨pre, post, -, hans⟩ := exists_of_mem_trace _ _ hp
  exact ((turn_spec _ _ _ _ _).2 x (hans.symm.trans hx)).2

/-- The datagrams sent by the first readings are among those sent by all. -/
theorem sends_subset_append (rs qs : List Reading) :
    sends P secret make rs ⊆ sends P secret make (rs ++ qs) := by
  rw [sends, sends, outputs, outputs, trace_append, List.map_append, sentOf_append]
  exact List.subset_append_left _ _

/-- From any state, the pairs sent are among those the pacer hands out, in order. -/
theorem pairs_sublist (s : Sender) (rs : List Reading) :
    ((sentOf (outputs (turn P secret make) s rs)).map Sent.pair).Sublist
      (Pacer.handedOut (trace Pacer.claim s.pacer rs)) := by
  induction rs generalizing s with
  | nil => exact List.Sublist.slnil
  | cons r rs ih =>
    obtain ⟨hpacer, hsent⟩ := turn_spec P secret make s r
    have ih := ih (turn P secret make s r).2
    rw [hpacer] at ih
    rw [outputs_cons, trace_cons]
    cases hturn : (turn P secret make s r).1 with
    | sent x =>
      obtain ⟨hok, -⟩ := hsent x hturn
      rw [hok]
      exact ih.cons_cons x.pair
    | shed e | constructionFailed e | encodeFailed e =>
      -- the pacer may have handed out a pair that was not used
      cases hclaim : (s.pacer.claim r).1 with
      | error e' => exact ih
      | ok q => exact ih.cons q

/-- **One datagram for each pair.** If whatever is made can be encoded, the pairs the pacer hands
out take the sequence numbers from 1 on, and what is made of each is sent. -/
theorem sends_eq (hencode : ∀ seq e off d, make seq e off = .ok d →
      ∃ w, d.encode P secret e .nodeToCollector maxDatagramIpv4 = .ok w) (rs : List Reading) :
    (sends P secret make rs).map (fun x => (x.pair, x.datagram)) =
      ((Pacer.claimed rs).zipIdx 1).filterMap fun q =>
        (make (UInt32.ofNat q.2) q.1.1 q.1.2).toOption.map (q.1, ·) := by
  suffices h : ∀ (s : Sender) (n : ℕ), s.seq = UInt32.ofNat n →
      (sentOf (outputs (turn P secret make) s rs)).map (fun x => (x.pair, x.datagram)) =
        ((Pacer.handedOut (trace Pacer.claim s.pacer rs)).zipIdx (n + 1)).filterMap fun q =>
          (make (UInt32.ofNat q.2) q.1.1 q.1.2).toOption.map (q.1, ·) from h start 0 rfl
  -- `n` counts the ticks claimed, and wraps into the sequence number
  induction rs with
  | nil => exact fun s n _ => rfl
  | cons r rs ih =>
    intro s n hseq
    have hnext : s.seq + 1 = UInt32.ofNat (n + 1) := by rw [hseq, UInt32.ofNat_add]; rfl
    rw [outputs_cons, trace_cons, turn]
    rcases hclaim : s.pacer.claim r with ⟨e | ⟨epoch, offset⟩, pacer⟩
    · exact ih _ n hseq
    · have hcons : (Pacer.handedOut ((r, .ok (epoch, offset)) :: trace Pacer.claim pacer rs)).zipIdx
          (n + 1) = ((epoch, offset), n + 1) ::
            (Pacer.handedOut (trace Pacer.claim pacer rs)).zipIdx (n + 1 + 1) := rfl
      dsimp only
      rw [hcons, hnext]
      rcases hmake : make (UInt32.ofNat (n + 1)) epoch offset with e | dg
      · rw [List.filterMap_cons_none (by rw [hmake]; rfl)]
        exact ih ⟨pacer, .ofNat (n + 1), s.shed⟩ (n + 1) rfl
      · obtain ⟨w, hw⟩ := hencode _ _ _ _ hmake
        rw [List.filterMap_cons_some (by rw [hmake]; rfl)]
        dsimp only
        rw [hw]
        dsimp only
        rw [sentOf_cons_sent, List.map_cons, ih ⟨pacer, .ofNat (n + 1), s.shed⟩ (n + 1) rfl]
        rfl

/-- No pair is used twice, if the clock comes back to an epoch it left only above the ticks it
read there. -/
theorem nodup_pairs {rs : List Reading} (h : Guarded Pacer.EntersAbove rs) :
    ((sends P secret make rs).map Sent.pair).Nodup := by
  refine List.Sublist.nodup (pairs_sublist start rs) ?_
  refine List.Pairwise.imp ?_ (Pacer.claimed_increasing h)
  intro a b hlt heq
  obtain rfl := heq
  exact UInt32.lt_irrefl _ (hlt rfl)

end Sender

end Catp
