import Catp.Peer.Deletion
import Mathlib.Data.List.AList

/-!
# The collector

`Collector` of `src/peer.rs`: the registry of many senders and its aggregated counters. The
`HashMap` is a list of entries with distinct keys; the order of the entries, which the code
leaves open, does not matter to a sum.

A call adds the tally of its result to the aggregate (`stats_accept`), so the counters of a run
are the tallies of its results. All of them but `Oversize` set exactly one outcome counter;
`Serves.isOversize_accept_iff` says which datagrams draw that result.

* **Sums.** A map with distinct keys is summed by erasing the key looked at (`sum_entries_eq`,
  `sum_entries_insert`), so a call that replaces one receiver changes the sum by what that
  receiver counts.
* **Configurations.** `Serves configs` is the invariant of a run: every configuration of suite
  `0x03` has its receiver, every receiver is of one of the configurations, and its slots are
  distinct. Calls and provisionings of new senders keep it (`Serves.accept`, `Serves.provision`).
* **Counting.** `counted_once_iff` is over runs. The calls are the outcome counters and the
  `Oversize` results together, so the counters make up the calls exactly if no datagram is
  `Unstageable` for a configuration served.

The counters are natural numbers here and `u64`s in the source. `recordAll_outputs` is the bridge:
it takes a bound on the number of calls and of skipped records, and says that within it the
wrapping counters of the source have the same values.
-/

namespace AList

variable {α β κ : Type*} [DecidableEq α] [AddCommMonoid κ]

/-- The contribution of one key to a sum over the entries. -/
private theorem sum_entries_eq {m : AList fun _ : α => β} {a : α} {b : β} (h : m.lookup a = some b)
    (f : β → κ) : (m.entries.map fun p => f p.2).sum =
      f b + ((m.erase a).entries.map fun p => f p.2).sum := by
  have hmem : a ∈ m.keys := lookup_isSome.mp (by rw [h]; rfl)
  obtain ⟨b', l₁, l₂, hnot, hentries, herase⟩ := List.exists_of_kerase hmem
  obtain rfl : b' = b := by
    have hlook : m.lookup a = some b' := by
      rw [lookup, hentries]
      exact (List.mem_dlookup_iff (hentries ▸ m.nodupKeys)).mpr
        (List.mem_append_right _ List.mem_cons_self)
    exact Option.some.inj (hlook.symm.trans h)
  rw [show (m.erase a).entries = l₁ ++ l₂ from herase, hentries]
  simp only [List.map_append, List.map_cons, List.sum_append, List.sum_cons]
  rw [add_left_comm]

/-- The sum over the entries after an insertion. -/
private theorem sum_entries_insert (m : AList fun _ : α => β) (a : α) (b : β) (f : β → κ) :
    ((m.insert a b).entries.map fun p => f p.2).sum =
      f b + ((m.erase a).entries.map fun p => f p.2).sum := by
  rw [entries_insert, List.map_cons, List.sum_cons]
  rfl

omit [AddCommMonoid κ] in
/-- What holds of every entry holds of every entry after an insertion of which it holds. -/
theorem forall_lookup_insert {m : AList fun _ : α => β} {Q : α → β → Prop}
    (h : ∀ a b, m.lookup a = some b → Q a b) {a : α} {b : β} (hb : Q a b) :
    ∀ a' b', (m.insert a b).lookup a' = some b' → Q a' b' := by
  intro a' b' hl
  by_cases ha : a' = a
  · rw [ha, lookup_insert] at hl
    rwa [ha, ← Option.some.inj hl]
  · rw [lookup_insert_ne ha] at hl
    exact h a' b' hl

end AList

namespace Catp

open Transducer

/-- The sender a datagram names, if it is long enough to name one. -/
def Input.sender (i : Input) : Option UInt32 :=
  if i.buf.length < headerLen then none else some (Datagram.unpack i.buf).senderId

/-- A datagram too short for the header names no sender. -/
theorem Input.sender_eq_none_iff {i : Input} : i.sender = none ↔ i.buf.length < headerLen := by
  rw [sender]
  split_ifs with h <;> simp [h]

/-- The sender a datagram names is that of its header. -/
theorem Input.sender_eq_some_iff {i : Input} {id : UInt32} :
    i.sender = some id ↔ ¬i.buf.length < headerLen ∧ (Datagram.unpack i.buf).senderId = id := by
  rw [sender]
  split_ifs with h <;> simp [h]

/-- A collector serving many senders. -/
structure Collector where
  peers : AList fun _ : UInt32 => PeerState defaultWindowWords
  /-- The discards that never reach a peer. -/
  ownStats : Stats

namespace Collector

/-- `Collector::new`: no peers, and nothing counted. -/
def new : Collector := ⟨∅, .zero⟩

/-- Provision a peer. -/
def provision (c : Collector) (config : PeerConfig) : Except Error Unit × Collector :=
  match PeerState.new config with
  | .error e => (.error e, c)
  | .ok s => (.ok (), { c with peers := c.peers.insert config.senderId s })

/-- Route a datagram to its peer and verify it. -/
def accept (P : Primitives) (c : Collector) (i : Input) : Except Error Accepted × Collector :=
  if i.buf.length < headerLen then
    (.error .tooShort,
      { c with ownStats := { c.ownStats with tooShort := c.ownStats.tooShort + 1 } })
  else
    let senderId := u32OfBe [i.buf[5]!, i.buf[6]!, i.buf[7]!, i.buf[8]!]
    match c.peers.lookup senderId with
    | none =>
      (.error (.unknownSender senderId),
        { c with ownStats := { c.ownStats with unknownSender := c.ownStats.unknownSender + 1 } })
    | some peer =>
      ((peer.accept P i).1, { c with peers := c.peers.insert senderId (peer.accept P i).2 })

/-- Discard counters aggregated across every provisioned peer, plus the discards that never
reach a peer at all. -/
def stats (c : Collector) : Stats :=
  c.peers.entries.foldl (fun total p => total.merge p.2.stats) c.ownStats

/-- The collector that has provisioned `configs`, in order. -/
def provisioned (configs : List PeerConfig) : Collector :=
  configs.foldl (fun c config => (c.provision config).2) new

variable {P : Primitives} {c : Collector} {i : Input}

/-- What a call does: it counts a discard of its own, or asks the sender's peer. -/
theorem accept_cases (P : Primitives) (c : Collector) (i : Input) :
    (i.sender = none ∧ c.accept P i =
      (.error .tooShort, { c with ownStats := c.ownStats.recordResult (.error .tooShort) })) ∨
    ∃ id, i.sender = some id ∧
      ((c.peers.lookup id = none ∧ c.accept P i =
        (.error (.unknownSender id),
          { c with ownStats := c.ownStats.recordResult (.error (.unknownSender id)) })) ∨
      ∃ peer, c.peers.lookup id = some peer ∧ c.accept P i =
        ((peer.accept P i).1, { c with peers := c.peers.insert id (peer.accept P i).2 })) := by
  rw [accept, Input.sender]
  split_ifs with hlen
  · exact .inl ⟨rfl, rfl⟩
  · refine .inr ⟨_, rfl, ?_⟩
    cases hpeer : c.peers.lookup (Datagram.unpack i.buf).senderId with
    | none => exact .inl ⟨rfl, by rw [Datagram.unpack] at hpeer; simp only [hpeer]; rfl⟩
    | some peer =>
      exact .inr ⟨peer, rfl, by rw [Datagram.unpack] at hpeer; simp only [hpeer]; rfl⟩

/-- What a call does to the receivers: nothing, or a step of the one named. -/
theorem peers_accept (P : Primitives) (c : Collector) (i : Input) :
    (c.accept P i).2.peers = c.peers ∨
      ∃ id peer, i.sender = some id ∧ c.peers.lookup id = some peer ∧
        (c.accept P i).2.peers = c.peers.insert id (peer.accept P i).2 := by
  rcases accept_cases P c i with ⟨-, heq⟩ | ⟨id, hid, ⟨-, heq⟩ | ⟨peer, hpeer, heq⟩⟩
  · exact .inl (by rw [heq])
  · exact .inl (by rw [heq])
  · exact .inr ⟨id, peer, hid, hpeer, by rw [heq]⟩

/-! ### The counters of a run -/

/-- The aggregate is a sum, so the order of the peers does not matter. -/
private theorem stats_eq (c : Collector) :
    c.stats = c.ownStats + (c.peers.entries.map fun p => p.2.stats).sum := by
  rw [stats]
  generalize c.peers.entries = l
  generalize c.ownStats = t
  induction l generalizing t with
  | nil => exact (add_zero t).symm
  | cons p l ih =>
    rw [List.foldl_cons, ih, Stats.merge_eq_add, List.map_cons, List.sum_cons, add_assoc]

/-- **One call adds the tally of its result**, whichever part of the collector counts it. -/
theorem stats_accept (P : Primitives) (c : Collector) (i : Input) :
    (c.accept P i).2.stats = c.stats + Stats.tally (c.accept P i).1 := by
  rw [stats_eq, stats_eq]
  rcases accept_cases P c i with ⟨-, heq⟩ | ⟨id, -, ⟨-, heq⟩ | ⟨peer, hpeer, heq⟩⟩
  · rw [heq]
    dsimp only
    rw [Stats.recordResult_eq_add, add_right_comm]
  · rw [heq]
    dsimp only
    rw [Stats.recordResult_eq_add, add_right_comm]
  · rw [heq]
    dsimp only
    rw [AList.sum_entries_insert _ _ _ PeerState.stats, AList.sum_entries_eq hpeer PeerState.stats,
      PeerState.stats_accept, add_right_comm peer.stats, ← add_assoc]

/-- Provisioning a new sender counts nothing. -/
private theorem stats_provision {config : PeerConfig} (h : c.peers.lookup config.senderId = none) :
    (c.provision config).2.stats = c.stats := by
  rw [stats_eq, stats_eq, provision]
  cases hnew : PeerState.new config with
  | error e => rfl
  | ok s =>
    obtain ⟨-, -, -, hzero⟩ := PeerState.new_eq_ok hnew
    have hnot : config.senderId ∉ c.peers := AList.lookup_eq_none.mp h
    dsimp only
    rw [AList.entries_insert_of_notMem hnot, List.map_cons, List.sum_cons, hzero, zero_add]

/-! ### Which peer answers -/

/-- The collector holds a receiver for every sender provisioned, under its identifier, and no
other; a configuration that cannot be provisioned has none. -/
structure Serves (configs : List PeerConfig) (c : Collector) : Prop where
  peer_of_lookup : ∀ id peer, c.peers.lookup id = some peer →
    peer.config.senderId = id ∧ peer.config ∈ configs ∧ peer.windows.Distinct
  lookup_of_mem : ∀ config ∈ configs, config.cipher = .chaCha20Poly1305 →
    ∃ peer, c.peers.lookup config.senderId = some peer ∧ peer.config = config

private theorem serves_new : Serves [] new := by
  refine ⟨?_, fun _ h => absurd h List.not_mem_nil⟩
  intro id peer h
  rw [new, AList.lookup_empty] at h
  cases h

/-- Suite `0x03` needs no rate limit, so its configurations are always provisioned. -/
private theorem new_chaCha20Poly1305 {config : PeerConfig} (h : config.cipher = .chaCha20Poly1305) :
    ∃ s, PeerState.new config = .ok s := by
  rw [PeerState.new, h]
  exact ⟨_, rfl⟩

/-- Provisioning a new sender adds it to those served. -/
theorem Serves.provision {configs : List PeerConfig} (h : Serves configs c) {config : PeerConfig}
    (hnew : config.senderId ∉ configs.map PeerConfig.senderId) :
    Serves (configs ++ [config]) (c.provision config).2 := by
  have hne : ∀ config' ∈ configs, config'.senderId ≠ config.senderId := fun config' hmem heq =>
    hnew (heq ▸ List.mem_map_of_mem hmem)
  rw [Collector.provision]
  cases hs : PeerState.new config with
  -- no receiver is added, which is right only if the suite is not `0x03`
  | error e =>
    constructor
    · intro id peer hl
      obtain ⟨hid, hin, hd⟩ := h.peer_of_lookup id peer hl
      exact ⟨hid, List.mem_append_left _ hin, hd⟩
    · intro config' hmem hcipher
      rcases List.mem_append.mp hmem with hmem | hmem
      · exact h.lookup_of_mem config' hmem hcipher
      · obtain rfl := List.mem_singleton.mp hmem
        obtain ⟨s, hok⟩ := new_chaCha20Poly1305 hcipher
        rw [hs] at hok
        cases hok
  | ok s =>
    obtain ⟨hcfg, hws, -, -⟩ := PeerState.new_eq_ok hs
    constructor
    · refine AList.forall_lookup_insert ?_ ?_
      · intro id peer hl
        obtain ⟨hid, hin, hd⟩ := h.peer_of_lookup id peer hl
        exact ⟨hid, List.mem_append_left _ hin, hd⟩
      · rw [hcfg, hws]
        exact ⟨rfl, List.mem_append_right _ List.mem_cons_self, Windows.distinct_empty⟩
    · intro config' hmem hcipher
      rcases List.mem_append.mp hmem with hmem | hmem
      · rw [AList.lookup_insert_ne (hne config' hmem)]
        exact h.lookup_of_mem config' hmem hcipher
      · obtain rfl := List.mem_singleton.mp hmem
        exact ⟨s, AList.lookup_insert _, hcfg⟩

/-- A call changes no configuration. -/
theorem Serves.accept {configs : List PeerConfig} (h : Serves configs c) (i : Input) :
    Serves configs (c.accept P i).2 := by
  rcases peers_accept P c i with heq | ⟨id, peer, -, hpeer, heq⟩
  · exact ⟨by rw [heq]; exact h.peer_of_lookup, by rw [heq]; exact h.lookup_of_mem⟩
  obtain ⟨hid, hin, hd⟩ := h.peer_of_lookup _ _ hpeer
  obtain ⟨hcfg, -, hd'⟩ := PeerState.accept_frame (P := P) (i := i) hd
  constructor
  · rw [heq]
    refine AList.forall_lookup_insert h.peer_of_lookup ?_
    rw [hcfg]
    exact ⟨hid, hin, hd'⟩
  · rw [heq]
    intro config hmem hcipher
    obtain ⟨peer', hl, hpc⟩ := h.lookup_of_mem config hmem hcipher
    by_cases hsender : config.senderId = id
    · rw [hsender, hpeer] at hl
      obtain rfl := Option.some.inj hl
      exact ⟨_, by rw [hsender, AList.lookup_insert], hcfg.trans hpc⟩
    · exact ⟨peer', by rw [AList.lookup_insert_ne hsender, hl], hpc⟩

/-- The collector that has provisioned different senders serves them. -/
private theorem serves_provisioned {configs : List PeerConfig}
    (hnodup : (configs.map PeerConfig.senderId).Nodup) : Serves configs (provisioned configs) := by
  induction configs using List.reverseRecOn with
  | nil => exact serves_new
  | append_singleton configs config ih =>
    rw [List.map_append, List.map_singleton, ← List.concat_eq_append, List.nodup_concat] at hnodup
    rw [provisioned, List.foldl_append]
    exact (ih hnodup.2).provision hnodup.1

private theorem stats_provisioned {configs : List PeerConfig}
    (hnodup : (configs.map PeerConfig.senderId).Nodup) : (provisioned configs).stats = 0 := by
  induction configs using List.reverseRecOn with
  | nil => rfl
  | append_singleton configs config ih =>
    rw [List.map_append, List.map_singleton, ← List.concat_eq_append, List.nodup_concat] at hnodup
    have hfresh : (provisioned configs).peers.lookup config.senderId = none := by
      cases hl : (provisioned configs).peers.lookup config.senderId with
      | none => rfl
      | some peer =>
        obtain ⟨hid, hin, -⟩ := (serves_provisioned hnodup.2).peer_of_lookup _ _ hl
        exact absurd (hid ▸ List.mem_map_of_mem hin) hnodup.1
    rw [provisioned, List.foldl_append]
    exact (stats_provision hfresh).trans (ih hnodup.2)

/-! ### Oversize -/

/-- A datagram of suite `0x03` that passes steps 1 to 6 but whose authenticated bytes, a header
image of 13 bytes and the payload, do not fit the staging buffer. -/
structure Unstageable (config : PeerConfig) (i : Input) : Prop where
  cipher_eq : config.cipher = .chaCha20Poly1305
  long : headerLen + (maxDatagramIpv4 - 13) + config.cipher.tagLen < i.buf.length
  version_eq : (Datagram.unpack i.buf).version = version
  msgType : ∃ mt, MsgType.fromU8 (Datagram.unpack i.buf).msgType = some mt ∧
    mt ≠ .timeAnnounce ∧ mt ≠ .timeRequest
  senderId_eq : (Datagram.unpack i.buf).senderId = config.senderId
  cipherId_eq : (Datagram.unpack i.buf).cipherId = config.cipher.toU8
  epoch : ∃ e, reconstructEpoch i.localEpoch (Datagram.unpack i.buf).epochLow = some e

/-- The unstageable datagrams are those that pass the header checks and cannot be staged. -/
theorem unstageable_iff {config : PeerConfig} : Unstageable config i ↔
    ∃ c, checkHeader i.buf config i.localEpoch = .ok c ∧
      ¬Stageable c.cipher (13 + c.payload.length) := by
  constructor
  · intro h
    obtain ⟨mt, hmt, hann, hreq⟩ := h.msgType
    obtain ⟨e, he⟩ := h.epoch
    have hlong := h.long
    refine ⟨⟨Datagram.unpack i.buf, mt, config.cipher, e,
      (i.buf.take (i.buf.length - config.cipher.tagLen)).drop headerLen,
      i.buf.drop (i.buf.length - config.cipher.tagLen)⟩, checkHeader_eq_ok_iff.mpr
        ⟨by omega, rfl, h.version_eq, hmt, hann, hreq, h.senderId_eq, h.cipherId_eq, rfl, he, rfl,
          rfl⟩, fun hstage => ?_⟩
    have hfit := hstage h.cipher_eq
    simp only [List.length_drop, List.length_take, maxDatagramIpv4] at hfit hlong
    omega
  · rintro ⟨c, hc, hstage⟩
    obtain ⟨hlen, hheader, hversion, hmt, hann, hreq, hsender, hcipherId, hcipher, he, hpayload,
      -⟩ := checkHeader_eq_ok_iff.mp hc
    rw [hheader] at hversion hmt hsender hcipherId he
    obtain ⟨hchacha, hbig⟩ : c.cipher = .chaCha20Poly1305 ∧
        maxDatagramIpv4 < 13 + c.payload.length := by
      simpa [Stageable] using hstage
    refine ⟨hcipher ▸ hchacha, ?_, hversion, ⟨c.msgType, hmt, hann, hreq⟩, hsender, hcipherId,
      ⟨c.epochId, he⟩⟩
    rw [hpayload, List.length_drop, List.length_take] at hbig
    simp only [maxDatagramIpv4] at hbig ⊢
    omega

/-- A receiver answers `Oversize` to the unstageable datagrams of its sender, and to no other. -/
theorem isOversize_accept_iff {peer : PeerState defaultWindowWords} (hd : peer.windows.Distinct) :
    isOversize (peer.accept P i).1 = true ↔ Unstageable peer.config i := by
  rw [unstageable_iff, PeerState.accept_eq]
  cases hv : verify P i.buf peer.config i.localEpoch i.dir with
  | ok cl =>
    obtain ⟨hhead, hauth⟩ := verify_eq_ok_iff.mp hv
    obtain ⟨ws, -, -, -, heq⟩ := PeerState.acceptInner_of_verify_ok hd hv
    rw [heq]
    refine ⟨fun h => absurd (isUnverified_of_isOversize h) ?_, ?_⟩
    · rw [PeerState.isUnverified_settle]
      exact Bool.false_ne_true
    · rintro ⟨c', hc', hstage⟩
      obtain rfl := Except.ok.inj (hhead.symm.trans hc')
      exact absurd (authenticate_eq_ok_iff.mp hauth).1 hstage
  | error err =>
    obtain ⟨ws, heq, -⟩ := PeerState.acceptInner_of_verify_error hd hv
    rw [heq, ← @verify_eq_oversize_iff P i.buf peer.config i.localEpoch i.dir, hv]
    constructor
    · intro h
      -- the errors reported before the header checks are not `Oversize`
      rw [Input.failure] at h
      split_ifs at h
      · cases h
      · cases h
      · cases err <;> first | exact ⟨_, rfl⟩ | cases h
    · rintro ⟨n, hn⟩
      obtain ⟨c', hc', -⟩ := verify_eq_oversize_iff.mp ⟨n, hv.trans hn⟩
      have hlen : ¬i.buf.length < headerLen := by
        have := (checkHeader_eq_ok_iff.mp hc').1
        omega
      rw [Input.failure, if_neg hlen, claim_epoch_of_checkHeader hc', Except.error.inj hn]
      rfl

/-- **What the collector answers `Oversize` to.** -/
theorem Serves.isOversize_accept_iff {configs : List PeerConfig} (h : Serves configs c) :
    isOversize (c.accept P i).1 = true ↔ ∃ config ∈ configs, Unstageable config i := by
  rcases accept_cases P c i with ⟨hshort, heq⟩ | ⟨id, hid, ⟨hnone, heq⟩ | ⟨peer, hpeer, heq⟩⟩
  · have hlen := Input.sender_eq_none_iff.mp hshort
    rw [heq]
    refine ⟨nofun, ?_⟩
    rintro ⟨config, _, hu⟩
    have := hu.long
    omega
  · have hsender := (Input.sender_eq_some_iff.mp hid).2
    rw [heq]
    refine ⟨nofun, ?_⟩
    rintro ⟨config, hmem, hu⟩
    obtain ⟨peer, hl, -⟩ := h.lookup_of_mem config hmem hu.cipher_eq
    rw [← hu.senderId_eq, hsender, hnone] at hl
    cases hl
  · have hsender := (Input.sender_eq_some_iff.mp hid).2
    obtain ⟨-, hin, hd⟩ := h.peer_of_lookup _ _ hpeer
    rw [heq]
    refine (Collector.isOversize_accept_iff hd).trans
      ⟨fun hu => ⟨peer.config, hin, hu⟩, fun ⟨config, hmem, hu⟩ => ?_⟩
    obtain ⟨peer', hl, hpc⟩ := h.lookup_of_mem config hmem hu.cipher_eq
    rw [← hu.senderId_eq, hsender, hpeer] at hl
    rwa [Option.some.inj hl, hpc]

/-- Every error of the collector is an error of the receive path. -/
theorem Serves.isReceive_accept {configs : List PeerConfig} (h : Serves configs c) {e : Error}
    (herr : (c.accept P i).1 = .error e) : e.isReceive = true := by
  rcases accept_cases P c i with ⟨-, heq⟩ | ⟨id, -, ⟨-, heq⟩ | ⟨peer, hpeer, heq⟩⟩
  · rw [heq] at herr
    cases herr
    rfl
  · rw [heq] at herr
    cases herr
    rfl
  · rw [heq] at herr
    exact PeerState.isReceive_accept (h.peer_of_lookup _ _ hpeer).2.2 herr

/-! ### Every datagram counted once -/

section Run

variable {configs : List PeerConfig} (hnodup : (configs.map PeerConfig.senderId).Nodup)
include hnodup

private theorem serves_final (P : Primitives) (is : List Input) :
    Serves configs (final (accept P) (provisioned configs) is) :=
  final_invariant (serves_provisioned hnodup) (fun _ i h => h.accept i) is

/-- The counters of a run are the tallies of its results. -/
theorem stats_final (P : Primitives) (is : List Input) :
    (final (accept P) (provisioned configs) is).stats =
      ((outputs (accept P) (provisioned configs) is).map Stats.tally).sum := by
  rw [final_sum (f := stats) (g := fun p => Stats.tally p.2) (fun c i => stats_accept P c i),
    stats_provisioned hnodup, zero_add, outputs, List.map_map]
  rfl

/-- Over a run of fewer than `2 ^ 64` calls that skips fewer than `2 ^ 64` records, the aggregate
is the `u64`s of the source, whichever of them a call counts in: they add up modulo `2 ^ 64`. -/
theorem recordAll_outputs {is : List Input} (hlen : is.length < 2 ^ 64)
    (hskip : ((outputs (accept P) (provisioned configs) is).map
      fun r => (skippedOf r).length).sum < 2 ^ 64) :
    Stats.recordAll (outputs (accept P) (provisioned configs) is) =
      (final (accept P) (provisioned configs) is).stats := by
  rw [Stats.recordAll_eq (by rwa [length_outputs]) hskip, stats_final hnodup]

/-- The outcome counters and the `Oversize` results make up the calls. -/
private theorem outcomes_final (P : Primitives) (is : List Input) :
    (final (accept P) (provisioned configs) is).stats.outcomes +
      (outputs (accept P) (provisioned configs) is).countP isOversize = is.length := by
  rw [stats_final hnodup, Stats.outcomes_sum_tally, length_outputs]
  intro r hr e he
  obtain ⟨p, hp, rfl⟩ := List.mem_map.mp hr
  obtain ⟨pre, post, -, heq⟩ := exists_of_mem_trace _ _ hp
  exact (serves_final hnodup P pre).isReceive_accept (heq.symm.trans he)

/-- **Every datagram is counted exactly once** in the outcome counters, and the skipped records
are all counted, exactly when no datagram of the run is an unstageable one of suite `0x03`. The
counters are those of the source within the bounds of `recordAll_outputs`. -/
theorem counted_once_iff (P : Primitives) (is : List Input) :
    ((final (accept P) (provisioned configs) is).stats.outcomes = is.length ∧
      (final (accept P) (provisioned configs) is).stats.skippedRecords =
        ((outputs (accept P) (provisioned configs) is).map fun r => (skippedOf r).length).sum) ↔
      ∀ i ∈ is, ∀ config ∈ configs, ¬Unstageable config i := by
  have hcount := outcomes_final hnodup P is
  have hskipped : (final (accept P) (provisioned configs) is).stats.skippedRecords =
      ((outputs (accept P) (provisioned configs) is).map fun r => (skippedOf r).length).sum := by
    rw [stats_final hnodup, Stats.skippedRecords_sum_tally]
  have hnone : (final (accept P) (provisioned configs) is).stats.outcomes = is.length ↔
      (outputs (accept P) (provisioned configs) is).countP isOversize = 0 := by omega
  rw [and_iff_left hskipped, hnone, List.countP_eq_zero]
  constructor
  · intro h i hi config hconfig hu
    obtain ⟨pre, post, rfl⟩ := List.append_of_mem hi
    -- an unstageable datagram of the run draws `Oversize` wherever it arrives
    refine h (accept P (final (accept P) (provisioned configs) pre) i).1 ?_
      ((serves_final hnodup P pre).isOversize_accept_iff.mpr ⟨config, hconfig, hu⟩)
    exact List.mem_map_of_mem (mem_trace _ _ pre post i)
  · intro h r hr hover
    obtain ⟨p, hp, rfl⟩ := List.mem_map.mp hr
    obtain ⟨pre, post, rfl, heq⟩ := exists_of_mem_trace _ _ hp
    rw [heq, (serves_final hnodup P pre).isOversize_accept_iff] at hover
    obtain ⟨config, hconfig, hu⟩ := hover
    exact h p.1 (List.mem_append_right _ List.mem_cons_self) config hconfig hu

end Run

/-- A sender of suite `0x03`. -/
def chaChaPeer : PeerConfig := { vectorPeer with cipher := .chaCha20Poly1305 }

/-- A `MESSAGE` of that sender, long enough not to fit the staging buffer. -/
def longDatagram : Input :=
  ⟨[0x21, 0x32, 0, 0, 0, 0x12, 0x34, 0x56, 0x78] ++ List.replicate 516 0, 13281250,
    .nodeToCollector, 0⟩

/-- A run of one datagram that no outcome counter shows. -/
theorem oversize_uncounted :
    outputs (accept vectorPrimitives) (provisioned [chaChaPeer]) [longDatagram] =
        [.error (.oversize 513)] ∧
      (final (accept vectorPrimitives) (provisioned [chaChaPeer]) [longDatagram]).stats.outcomes =
        0 := by
  decide +kernel

/-- The frozen vector, received twice by a collector that knows its sender. -/
theorem counted_once_iff_vector :
    let is : List Input := [⟨vectorWire, 13281250, .nodeToCollector, 0⟩,
      ⟨vectorWire, 13281250, .nodeToCollector, 0⟩]
    (final (accept vectorPrimitives) (provisioned [vectorPeer]) is).stats.outcomes = 2 ∧
      (final (accept vectorPrimitives) (provisioned [vectorPeer]) is).stats.skippedRecords =
        ((outputs (accept vectorPrimitives) (provisioned [vectorPeer]) is).map
          fun r => (skippedOf r).length).sum := by
  have hnodup : ([vectorPeer].map PeerConfig.senderId).Nodup := by decide
  refine (counted_once_iff hnodup vectorPrimitives _).mpr ?_
  intro i _ config hconfig hu
  obtain rfl := List.mem_singleton.mp hconfig
  exact absurd hu.cipher_eq (by decide)

end Collector

end Catp
