import Catp.Peer.Collector

/-!
# Senders are isolated from each other

A collector of several senders is, for each of them, a receiver of its own that is fed the calls
naming that sender and no others. `Holds` relates the collector to the receiver it holds under
an identifier; a call naming the identifier is a step of that receiver, any other call keeps
the relation. The counters split the same way, a call that reaches no receiver counting in the
collector itself.

* `Holds.accept` and `Holds.accept_other` are the two cases of a call, and `Holds.final` is the
  induction: the calls that name a sender, taken out of the run in order, are a run of its
  receiver. The clock may jump, and the buffers are arbitrary.
* A configuration that cannot be provisioned has no receiver. `receivers` and `known` are those
  that can, and `lookup_final_eq_none_iff` says that no call adds or removes one.
* `earlyStats` counts the calls that reach no receiver: the datagrams too short for a header, and
  those that name a sender not provisioned.

`isolation` states the three together. The senders are required to be different, which is what
makes a receiver a function of its sender; provisioning one twice is the matter of
`Catp.Peer.Reprovision`.
-/

namespace Catp

open Transducer

namespace Collector

variable {P : Primitives} {c : Collector} {i : Input} {id : UInt32}

/-! ### One receiver -/

/-- The collector holds the receiver `peer` under `id`. -/
def Holds (id : UInt32) (c : Collector) (peer : PeerState defaultWindowWords) : Prop :=
  c.peers.lookup id = some peer

/-- A call naming the sender is a step of its receiver. -/
theorem Holds.accept {peer : PeerState defaultWindowWords} (h : Holds id c peer)
    (hi : i.sender = some id) :
    (c.accept P i).1 = (peer.accept P i).1 ∧ Holds id (c.accept P i).2 (peer.accept P i).2 := by
  rw [Holds] at h
  rcases accept_cases P c i with ⟨hnone, -⟩ | ⟨id', hid, ⟨hnone, -⟩ | ⟨peer', hpeer, heq⟩⟩
  · rw [hi] at hnone
    cases hnone
  · obtain rfl := Option.some.inj (hi.symm.trans hid)
    rw [h] at hnone
    cases hnone
  · obtain rfl := Option.some.inj (hi.symm.trans hid)
    obtain rfl := Option.some.inj (h.symm.trans hpeer)
    rw [heq]
    exact ⟨rfl, AList.lookup_insert c.peers⟩

/-- A call naming another sender, or none, keeps the receiver. -/
private theorem Holds.accept_other {peer : PeerState defaultWindowWords} (h : Holds id c peer)
    (hi : i.sender ≠ some id) : Holds id (c.accept P i).2 peer := by
  rw [Holds]
  rcases peers_accept P c i with heq | ⟨id', peer', hid, -, heq⟩
  · rwa [heq]
  · have hne : id ≠ id' := fun hid' => hi (hid' ▸ hid)
    rw [heq]
    exact (AList.lookup_insert_ne hne).trans h

/-- Over a run, the calls naming a sender held are a run of its receiver. -/
theorem Holds.final {peer : PeerState defaultWindowWords} (h : Holds id c peer)
    (is : List Input) :
    (trace (Collector.accept P) c is).filter (fun p => p.1.sender = some id) =
        trace (PeerState.accept P) peer (is.filter fun i => i.sender = some id) ∧
      Holds id (Transducer.final (Collector.accept P) c is)
        (Transducer.final (PeerState.accept P) peer (is.filter fun i => i.sender = some id)) :=
  trace_filter (fun i : Input => decide (i.sender = some id))
    (fun _ _ _ h hi => h.accept (of_decide_eq_true hi))
    (fun _ _ _ h hi => h.accept_other (of_decide_eq_false hi)) c peer h is

/-! ### The receivers provisioned -/

/-- The receivers of the configurations that can be provisioned, fresh. -/
def receivers (configs : List PeerConfig) : List (PeerState defaultWindowWords) :=
  configs.filterMap fun config => (PeerState.new config).toOption

/-- The identifiers of the senders provisioned. -/
def known (configs : List PeerConfig) : List UInt32 :=
  (receivers configs).map fun peer => peer.config.senderId

/-- The receivers are those of the configurations that can be provisioned. -/
theorem mem_receivers {configs : List PeerConfig} {peer : PeerState defaultWindowWords} :
    peer ∈ receivers configs ↔ ∃ config ∈ configs, PeerState.new config = .ok peer := by
  rw [receivers, List.mem_filterMap]
  refine exists_congr fun config => and_congr_right fun _ => ?_
  cases PeerState.new config <;> simp [Except.toOption]

/-- The identifier of a fresh receiver is that of its configuration. -/
private theorem known_concat (configs : List PeerConfig) (config : PeerConfig) :
    known (configs ++ [config]) =
      known configs ++ if (PeerState.new config).isOk then [config.senderId] else [] := by
  rw [known, receivers, List.filterMap_append, List.map_append]
  refine congrArg _ ?_
  cases hnew : PeerState.new config with
  | error e => simp [hnew, Except.toOption, Except.isOk, Except.toBool]
  | ok peer =>
    simp [hnew, Except.toOption, Except.isOk, Except.toBool, (PeerState.new_eq_ok hnew).1]

private theorem known_sublist (configs : List PeerConfig) :
    (known configs).Sublist (configs.map PeerConfig.senderId) := by
  induction configs using List.reverseRecOn with
  | nil => exact List.Sublist.refl _
  | append_singleton configs config ih =>
    rw [known_concat, List.map_append]
    refine List.Sublist.append ih ?_
    split_ifs
    · exact List.Sublist.refl _
    · exact List.nil_sublist _

section Provisioned

variable {configs : List PeerConfig} (hnodup : (configs.map PeerConfig.senderId).Nodup)
include hnodup

/-- The collector that provisioned `configs` holds the receivers, and no other. -/
theorem lookup_provisioned_iff {peer : PeerState defaultWindowWords} :
    (provisioned configs).peers.lookup id = some peer ↔
      peer ∈ receivers configs ∧ peer.config.senderId = id := by
  induction configs using List.reverseRecOn generalizing peer with
  | nil => simp [provisioned, new, receivers]
  | append_singleton configs config ih =>
    rw [List.map_append, List.map_singleton, ← List.concat_eq_append, List.nodup_concat] at hnodup
    have ih := @ih hnodup.2 peer
    have hrec : peer ∈ receivers (configs ++ [config]) ↔
        peer ∈ receivers configs ∨ PeerState.new config = .ok peer := by
      simp [mem_receivers, or_and_right, exists_or]
    rw [hrec, provisioned, List.foldl_append, List.foldl_cons, List.foldl_nil, ← provisioned,
      provision]
    cases hnew : PeerState.new config with
    | error e => simpa using ih
    | ok s =>
      obtain ⟨hcfg, -, -, -⟩ := PeerState.new_eq_ok hnew
      by_cases hid : id = config.senderId
      · -- the receiver just provisioned is the only one of its identifier
        have hold : ¬(peer ∈ receivers configs ∧ peer.config.senderId = id) := by
          rintro ⟨hmem, heq⟩
          obtain ⟨config', hmem', hnew'⟩ := mem_receivers.mp hmem
          rw [(PeerState.new_eq_ok hnew').1] at heq
          exact hnodup.1 (hid ▸ heq ▸ List.mem_map_of_mem hmem')
        dsimp only
        rw [hid, AList.lookup_insert, Option.some.injEq, Except.ok.injEq, or_and_right, ← hid,
          or_iff_right hold, and_iff_left_of_imp]
        rintro rfl
        rw [hcfg, hid]
      · dsimp only
        rw [AList.lookup_insert_ne hid, ih, Except.ok.injEq, or_and_right, or_iff_left]
        rintro ⟨rfl, heq⟩
        exact hid (heq.symm.trans (congrArg _ hcfg))

/-- The senders held are those provisioned, at the start and after any calls. -/
theorem lookup_final_eq_none_iff (is : List Input) :
    (final (accept P) (provisioned configs) is).peers.lookup id = none ↔ id ∉ known configs := by
  refine final_invariant
    (I := fun c : Collector => ∀ id, c.peers.lookup id = none ↔ id ∉ known configs)
    (fun id => ?_) (fun c i h id => ?_) is id
  · rw [Option.eq_none_iff_forall_ne_some, known, List.mem_map, not_exists]
    exact forall_congr' fun peer => not_congr (lookup_provisioned_iff hnodup)
  · rcases peers_accept P c i with heq | ⟨id', peer, -, hpeer, heq⟩
    · rw [heq]
      exact h id
    · rw [heq]
      by_cases hid : id = id'
      · rw [← h id, hid, AList.lookup_insert, hpeer]
        simp
      · exact (iff_of_eq (congrArg (· = none) (AList.lookup_insert_ne hid))).trans (h id)

end Provisioned

/-! ### The calls that reach no receiver -/

/-- How a call is answered that reaches no receiver. -/
def earlyResult (i : Input) : Except Error Accepted :=
  match i.sender with
  | none => .error .tooShort
  | some id => .error (.unknownSender id)

/-- The early rejections of a run: datagrams shorter than a header, and senders not
provisioned. -/
def earlyStats (configs : List PeerConfig) (is : List Input) : Stats :=
  { (0 : Stats) with
    tooShort := is.countP fun i => i.sender = none
    unknownSender := is.countP fun i => i.sender.any (· ∉ known configs) }

/-- The early rejections count under `TooShort` and `UnknownSender`. -/
private theorem sum_tally_earlyResult (configs : List PeerConfig) (is : List Input) :
    ((is.filter fun i => i.sender ∉ (known configs).map some).map
      fun i => Stats.tally (earlyResult i)).sum = earlyStats configs is := by
  induction is with
  | nil => rfl
  | cons i is ih =>
    -- one more early rejection, of one kind or the other, or none
    rcases hi : i.sender with _ | id
    · rw [List.filter_cons_of_pos (by simp [hi]), List.map_cons, List.sum_cons, ih, earlyResult, hi]
      simp only [earlyStats, List.countP_cons, hi]
      exact Stats.ext rfl (Nat.add_comm _ _) rfl rfl (Nat.zero_add _) rfl rfl rfl rfl rfl rfl rfl
    · by_cases hid : id ∈ known configs
      · rw [List.filter_cons_of_neg (by simp [hi, hid]), ih]
        simp [earlyStats, hi, hid]
      · rw [List.filter_cons_of_pos (by simp [hi, hid]), List.map_cons, List.sum_cons, ih,
          earlyResult, hi]
        simp only [earlyStats, List.countP_cons, hi, Option.any_some, hid, not_false_eq_true,
          decide_true]
        exact Stats.ext rfl (Nat.zero_add _) rfl rfl (Nat.add_comm _ _) rfl rfl rfl rfl rfl rfl rfl

/-! ### Isolation -/

section Run

variable {configs : List PeerConfig} (hnodup : (configs.map PeerConfig.senderId).Nodup)
include hnodup

/-- A call naming no sender provisioned reaches no receiver and changes none. -/
theorem accept_early (is : List Input) {i : Input}
    (hi : i.sender ∉ (known configs).map some) :
    (accept P (final (accept P) (provisioned configs) is) i).1 = earlyResult i ∧
      (accept P (final (accept P) (provisioned configs) is) i).2.peers =
        (final (accept P) (provisioned configs) is).peers := by
  rw [earlyResult]
  rcases accept_cases P (final (accept P) (provisioned configs) is) i with
    ⟨hnone, heq⟩ | ⟨id, hid, ⟨-, heq⟩ | ⟨peer, hpeer, -⟩⟩
  · rw [heq, hnone]
    exact ⟨rfl, rfl⟩
  · rw [heq, hid]
    exact ⟨rfl, rfl⟩
  · have hunknown : id ∉ known configs := fun h => hi (hid ▸ List.mem_map_of_mem h)
    rw [(lookup_final_eq_none_iff hnodup is).mpr hunknown] at hpeer
    cases hpeer

/-- The receivers of a run each get their own calls. -/
private theorem filter_trace {peer : PeerState defaultWindowWords}
    (hpeer : peer ∈ receivers configs) (is : List Input) :
    (trace (accept P) (provisioned configs) is).filter
        (fun p => p.1.sender = some peer.config.senderId) =
      trace (PeerState.accept P) peer
        (is.filter fun i => i.sender = some peer.config.senderId) :=
  (Holds.final ((lookup_provisioned_iff hnodup).mpr ⟨hpeer, rfl⟩) is).1

/-- The early rejections of a run are answered as they are alone. -/
private theorem filter_trace_early (is : List Input) :
    (trace (accept P) (provisioned configs) is).filter
        (fun p => p.1.sender ∉ (known configs).map some) =
      (is.filter fun i => i.sender ∉ (known configs).map some).map fun i => (i, earlyResult i) := by
  induction is using List.reverseRecOn with
  | nil => rfl
  | append_singleton is i ih =>
    rw [trace_concat, List.filter_append, List.filter_append, ih, List.map_append]
    refine congrArg _ ?_
    by_cases hi : i.sender ∈ (known configs).map some
    · rw [List.filter_cons_of_neg (by simpa using hi), List.filter_cons_of_neg (by simpa using hi)]
      rfl
    · rw [List.filter_cons_of_pos (by simpa using hi), List.filter_cons_of_pos (by simpa using hi),
        (accept_early hnodup is hi).1]
      rfl

/-- The counters of a run are those of the receivers alone, and the early rejections. -/
private theorem stats_eq_sum (is : List Input) :
    (final (accept P) (provisioned configs) is).stats =
      ((receivers configs).map fun peer => (final (PeerState.accept P) peer
        (is.filter fun i => i.sender = some peer.config.senderId)).stats).sum +
        earlyStats configs is := by
  have hks : ((known configs).map some).Nodup :=
    ((known_sublist configs).nodup hnodup).map (Option.some_injective _)
  rw [stats_final hnodup, outputs, List.map_map,
    sum_map_filter_key (fun p : Input × Except Error Accepted => p.1.sender) _ hks, known,
    List.map_map, List.map_map]
  refine congrArg₂ (· + ·) (congrArg List.sum (List.map_congr_left fun peer hpeer => ?_)) ?_
  · obtain ⟨config, -, hnew⟩ := mem_receivers.mp hpeer
    rw [PeerState.stats_final, (PeerState.new_eq_ok hnew).2.2.2, zero_add]
    exact congrArg (fun l => (l.map fun p => Stats.tally p.2).sum) (filter_trace hnodup hpeer is)
  · have hearly := congrArg (fun l => (l.map fun p => Stats.tally p.2).sum)
      (filter_trace_early (P := P) hnodup is)
    rw [List.map_map] at hearly
    refine Eq.trans ?_ (hearly.trans (sum_tally_earlyResult configs is))
    exact congrArg (fun l : List (Input × Except Error Accepted) => (l.map _).sum)
      (List.filter_congr fun _ _ => decide_eq_decide.mpr Iff.rfl)

/-- **Senders are isolated.** Over every run of a collector, the calls naming a sender are
answered as its receiver alone would answer them; a call that names no sender provisioned
changes no receiver; and the counters are those of the receivers alone, with the early
rejections. They are `u64`s in the source within the bounds of `recordAll_outputs`. -/
theorem isolation (P : Primitives) (is : List Input) :
    (∀ config ∈ configs, ∀ peer, PeerState.new config = .ok peer →
      ((trace (accept P) (provisioned configs) is).filter
          fun p => p.1.sender = some config.senderId).map Prod.snd =
        outputs (PeerState.accept P) peer
          (is.filter fun i => i.sender = some config.senderId)) ∧
      (∀ i : Input, i.sender ∉ (known configs).map some →
        ((final (accept P) (provisioned configs) is).accept P i).2.peers =
          (final (accept P) (provisioned configs) is).peers) ∧
      (final (accept P) (provisioned configs) is).stats =
        ((receivers configs).map fun peer => (final (PeerState.accept P) peer
          (is.filter fun i => i.sender = some peer.config.senderId)).stats).sum +
          earlyStats configs is := by
  refine ⟨?_, fun i hi => (accept_early hnodup is hi).2, stats_eq_sum hnodup is⟩
  intro config hconfig peer hnew
  have hpeer : peer ∈ receivers configs := mem_receivers.mpr ⟨config, hconfig, hnew⟩
  rw [← (PeerState.new_eq_ok hnew).1, filter_trace hnodup hpeer]
  rfl

end Run

/-- The frozen vector twice, between them a datagram naming another sender, one naming an unknown
sender, and a fragment. -/
def mixedSenders : List Input :=
  [⟨vectorWire, 13281250, .nodeToCollector, 0⟩,
    ⟨vectorWire.set 5 0x13, 13281250, .nodeToCollector, 0⟩,
    ⟨vectorWire.set 5 0x14, 13281250, .nodeToCollector, 0⟩,
    ⟨vectorWire.take 8, 13281250, .nodeToCollector, 0⟩,
    ⟨vectorWire, 13281250, .nodeToCollector, 0⟩]

/-- The vector's sender is answered as if it were alone. -/
theorem isolation_mixedSenders :
    ((trace (accept vectorPrimitives)
        (provisioned [vectorPeer, { vectorPeer with senderId := 0x13345678 }]) mixedSenders).filter
          fun p => p.1.sender = some vectorPeer.senderId).map Prod.snd =
      outputs (PeerState.accept vectorPrimitives) PeerState.vectorState
        (mixedSenders.filter fun i => i.sender = some vectorPeer.senderId) := by
  have hnodup : ([vectorPeer, { vectorPeer with senderId := 0x13345678 }].map
      PeerConfig.senderId).Nodup := by decide
  exact (isolation hnodup vectorPrimitives mixedSenders).1 vectorPeer List.mem_cons_self
    PeerState.vectorState (by decide)

end Collector

end Catp
