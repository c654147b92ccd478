import Catp.Peer.Collector
import Catp.Provision.RoundTrip

/-!
# Bulk provisioning

A collector starts from the bundle files of a directory: `loadBundles` parses their texts, in the
order of their paths, and `startup` provisions a peer for each bundle in order. Either stops at the
first error.

The peers are kept by `sender_id`, and provisioning a sender a second time replaces its peer. So a
start that succeeds gives every bundle a peer of its own (`OwnPeers`) exactly when no two bundles
have the same `sender_id` (`ownPeers_iff`).

* `provisionBundle_eq` is one step of the loop. A rate limit is always given at start-up, so the
  check that refuses a truncated tag without one cannot fail, and an unregistered suite is the
  only error left.
* `exists_startup_iff` says when the loop ends without one, and `holds_of_nodup` what it then
  holds, if the senders are different.
* The other direction counts: peers are kept under their senders (`Keyed`), so as many peers as
  bundles need as many senders (`ids_eq_of_keyed`).

`ownPeers_iff` is about the bundles alone. `ownPeers_sameSender` runs the whole path, from the
texts of two files to a collector with one peer.
-/

namespace Catp.Provision

/-- Build the `PeerConfig` a collector loads this bundle into. -/
def Bundle.intoPeerConfig (b : Bundle) (inboundRateLimit : Option RateLimit) :
    Except Error PeerConfig :=
  match CipherId.fromU8 b.cipherId with
  | none => .error (.cipherUnimplemented b.cipherId)
  | some cipher =>
    if cipher.requiresInboundRateLimit && inboundRateLimit.isNone then
      .error (.cipherRequiresRateLimit b.cipherId)
    else
      .ok {
        senderId := b.senderId
        secret := ⟨b.deviceSecret⟩
        cipher
        layouts := b.layouts
        inboundRateLimit }

/-- The bundles of the files with these texts. -/
def loadBundles (texts : List (List Char)) : Except ProvisionError (List Bundle) :=
  texts.mapM Bundle.parse

/-- Provision the peer of a bundle. -/
def provisionBundle (inboundRateLimit : Option RateLimit) (c : Collector) (b : Bundle) :
    Except Error Collector := do
  let config ← b.intoPeerConfig inboundRateLimit
  match c.provision config with
  | (.ok (), c) => .ok c
  | (.error e, _) => .error e

/-- The collector after the startup loop. -/
def startup (inboundRateLimit : Option RateLimit) (bundles : List Bundle) :
    Except Error Collector :=
  bundles.foldlM (provisionBundle inboundRateLimit) .new

/-- Any list of bundles can come from files. -/
private theorem loadBundles_toText (bundles : List Bundle) :
    loadBundles (bundles.map Bundle.toText) = .ok bundles := by
  induction bundles with
  | nil => rfl
  | cons b bundles ih =>
    rw [loadBundles] at ih
    rw [loadBundles, List.map_cons, List.mapM_cons, (documented_iff.mp (documented_toText b)).1, ih]
    rfl

/-! ### A peer of its own -/

/-- The peer holds what the bundle says. -/
structure Holds (peer : PeerState defaultWindowWords) (b : Bundle) : Prop where
  senderId : peer.config.senderId = b.senderId
  secret : peer.config.secret = ⟨b.deviceSecret⟩
  cipher : peer.config.cipher.toU8 = b.cipherId
  layouts : peer.config.layouts = b.layouts

/-- Each bundle of the list has a peer that holds it, and no two have the same. -/
def OwnPeers (bundles : List Bundle) (c : Collector) : Prop :=
  ∃ ids : List UInt32, ids.Nodup ∧
    List.Forall₂ (fun b id => ∃ peer, c.peers.lookup id = some peer ∧ Holds peer b) bundles ids

/-- The peers are kept under their `sender_id`s. -/
def Keyed (c : Collector) : Prop :=
  ∀ id peer, c.peers.lookup id = some peer → peer.config.senderId = id

variable {limit : RateLimit} {b : Bundle} {bundles : List Bundle} {c c' : Collector}

/-- The fresh peer of a bundle. -/
def peerOf (limit : RateLimit) (b : Bundle) (cipher : CipherId) : PeerState defaultWindowWords where
  config := ⟨b.senderId, ⟨b.deviceSecret⟩, cipher, b.layouts, some limit⟩
  windows := ⟨none, none⟩
  highestEpochAnnounced := none
  limiter := some (.new limit)
  stats := .zero

private theorem holds_peerOf {cipher : CipherId} (h : CipherId.fromU8 b.cipherId = some cipher) :
    Holds (peerOf limit b cipher) b :=
  ⟨rfl, rfl, CipherId.toU8_of_fromU8 h, rfl⟩

/-- **One step of the loop.** With a rate limit, only an unregistered suite is refused, and the
peer of any other bundle is inserted under its `sender_id`. -/
theorem provisionBundle_eq (limit : RateLimit) (c : Collector) (b : Bundle) :
    provisionBundle (some limit) c b = match CipherId.fromU8 b.cipherId with
      | none => .error (.cipherUnimplemented b.cipherId)
      | some cipher =>
        .ok { c with peers := c.peers.insert b.senderId (peerOf limit b cipher) } := by
  rw [provisionBundle, Bundle.intoPeerConfig]
  rcases CipherId.fromU8 b.cipherId with _ | cipher
  · rfl
  · simp only [Option.isNone_some, Bool.and_false, Bool.false_eq_true, if_false]
    cases cipher <;> rfl

theorem provisionBundle_eq_ok_iff :
    provisionBundle (some limit) c b = .ok c' ↔ ∃ cipher, CipherId.fromU8 b.cipherId = some cipher ∧
      { c with peers := c.peers.insert b.senderId (peerOf limit b cipher) } = c' := by
  rw [provisionBundle_eq]
  rcases CipherId.fromU8 b.cipherId with _ | cipher <;> simp

/-! ### The whole loop -/

/-- The loop fails exactly on an unregistered suite. -/
theorem exists_startup_iff (limit : RateLimit) (bundles : List Bundle) (c : Collector) :
    (∃ c', bundles.foldlM (provisionBundle (some limit)) c = .ok c') ↔
      ∀ b ∈ bundles, CipherId.fromU8 b.cipherId ≠ none := by
  induction bundles generalizing c with
  | nil => exact iff_of_true ⟨c, rfl⟩ fun b hb => absurd hb List.not_mem_nil
  | cons b bundles ih =>
    rw [List.forall_mem_cons, List.foldlM_cons]
    simp only [bind_eq_ok_iff, provisionBundle_eq_ok_iff]
    constructor
    · rintro ⟨c', c₁, ⟨cipher, hcipher, -⟩, hrest⟩
      exact ⟨by simp [hcipher], (ih c₁).mp ⟨c', hrest⟩⟩
    · rintro ⟨hb, hbundles⟩
      obtain ⟨cipher, hcipher⟩ := Option.ne_none_iff_exists'.mp hb
      obtain ⟨c', hrest⟩ := (ih _).mpr hbundles
      exact ⟨c', _, ⟨cipher, hcipher, rfl⟩, hrest⟩

private theorem keyed_of_foldlM (h : bundles.foldlM (provisionBundle (some limit)) c = .ok c')
    (hc : Keyed c) : Keyed c' := by
  induction bundles generalizing c with
  | nil =>
    cases h
    exact hc
  | cons b bundles ih =>
    simp only [List.foldlM_cons, bind_eq_ok_iff, provisionBundle_eq_ok_iff] at h
    obtain ⟨_, ⟨cipher, -, rfl⟩, hrest⟩ := h
    exact ih hrest (AList.forall_lookup_insert hc rfl)

/-- What the loop does not provision stays as it is. -/
private theorem lookup_foldlM (h : bundles.foldlM (provisionBundle (some limit)) c = .ok c')
    {id : UInt32}
    (hid : id ∉ bundles.map Bundle.senderId) : c'.peers.lookup id = c.peers.lookup id := by
  induction bundles generalizing c with
  | nil =>
    cases h
    rfl
  | cons b bundles ih =>
    simp only [List.foldlM_cons, bind_eq_ok_iff, provisionBundle_eq_ok_iff] at h
    obtain ⟨_, ⟨cipher, -, rfl⟩, hrest⟩ := h
    rw [List.map_cons, List.mem_cons, not_or] at hid
    rw [ih hrest hid.2]
    exact AList.lookup_insert_ne hid.1

/-- When the senders are different, no peer is replaced. -/
private theorem holds_of_nodup (h : bundles.foldlM (provisionBundle (some limit)) c = .ok c')
    (hids : (bundles.map Bundle.senderId).Nodup) :
    List.Forall₂ (fun b id => ∃ peer, c'.peers.lookup id = some peer ∧ Holds peer b) bundles
      (bundles.map Bundle.senderId) := by
  induction bundles generalizing c with
  | nil => exact .nil
  | cons b bundles ih =>
    simp only [List.foldlM_cons, bind_eq_ok_iff, provisionBundle_eq_ok_iff] at h
    obtain ⟨_, ⟨cipher, hcipher, rfl⟩, hrest⟩ := h
    rw [List.map_cons, List.nodup_cons] at hids
    refine .cons ⟨peerOf limit b cipher, ?_, holds_peerOf hcipher⟩ (ih hrest hids.2)
    rw [lookup_foldlM hrest hids.1]
    exact AList.lookup_insert _

/-- The keys of peers of their own are the senders. -/
private theorem ids_eq_of_keyed (hc : Keyed c) {ids : List UInt32}
    (h : List.Forall₂ (fun b id => ∃ peer, c.peers.lookup id = some peer ∧ Holds peer b) bundles
      ids) : ids = bundles.map Bundle.senderId := by
  induction h with
  | nil => rfl
  | cons hb _ ih =>
    obtain ⟨peer, hlookup, hholds⟩ := hb
    rw [List.map_cons, ih, ← hc _ _ hlookup, hholds.senderId]

theorem ownPeers_of_startup_iff (h : startup (some limit) bundles = .ok c) :
    OwnPeers bundles c ↔ (bundles.map Bundle.senderId).Nodup := by
  constructor
  · rintro ⟨ids, hids, hown⟩
    have hkeyed : Keyed c := keyed_of_foldlM h fun id peer hl => by cases hl
    rwa [← ids_eq_of_keyed hkeyed hown]
  · exact fun hids => ⟨_, hids, holds_of_nodup h hids⟩

/-- **A start loses no peer**, unless it stops with an error, exactly when it has an unregistered
suite to stop at, or no two bundles have the same `sender_id`. -/
theorem ownPeers_iff (limit : RateLimit) (bundles : List Bundle) :
    (∀ c, startup (some limit) bundles = .ok c → OwnPeers bundles c) ↔
      (∃ b ∈ bundles, CipherId.fromU8 b.cipherId = none) ∨
        (bundles.map Bundle.senderId).Nodup := by
  by_cases hsuite : ∃ b ∈ bundles, CipherId.fromU8 b.cipherId = none
  · refine iff_of_true (fun c hc => ?_) (Or.inl hsuite)
    obtain ⟨b, hb, hnone⟩ := hsuite
    exact absurd hnone ((exists_startup_iff limit bundles .new).mp ⟨c, hc⟩ b hb)
  · rw [or_iff_right hsuite]
    obtain ⟨c, hc⟩ := (exists_startup_iff limit bundles .new).mpr fun b hb hnone =>
      hsuite ⟨b, hb, hnone⟩
    constructor
    · exact fun h => (ownPeers_of_startup_iff hc).mp (h c hc)
    · exact fun hids c' hc' => (ownPeers_of_startup_iff hc').mpr hids

/-- The files of two nodes with one `sender_id`, and different secrets. -/
def sameSender : List Bundle :=
  [⟨1, .replicate 32 0x11, 0x04, []⟩, ⟨1, .replicate 32 0x22, 0x04, []⟩]

theorem ownPeers_sameSender :
    loadBundles (sameSender.map Bundle.toText) = .ok sameSender ∧
      ∃ c, startup (some .recommendedDefault) sameSender = .ok c ∧ ¬OwnPeers sameSender c := by
  refine ⟨loadBundles_toText sameSender, ?_⟩
  obtain ⟨c, hc⟩ := (exists_startup_iff .recommendedDefault sameSender .new).mpr (by decide)
  refine ⟨c, hc, fun hown => ?_⟩
  exact absurd ((ownPeers_of_startup_iff hc).mp hown) (by decide)

end Catp.Provision
