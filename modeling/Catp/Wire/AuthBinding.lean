import Catp.Wire.Decode

/-!
# What the MAC vouches for

The bytes a receiver authenticates are not the bytes on the wire: the low epoch bits are
zeroed, and the epoch reconstructed from the receiver's own clock takes their place. Nothing is
lost: receivers whose MAC inputs coincide hold the same direction, epoch, header and payload.

* `Claim.macInput` gathers what the primitives see of a datagram: the info string of its key, the
  nonce and the signed bytes. `tag_eq_macInput_tag` says that nothing else of the datagram goes
  into the tag.
* `epochKeyInfo_inj` reads the sender, the epoch and the direction off the info string, and
  `signed_inj` the epoch, the header and the payload off the signed bytes.
* The low epoch bits are missing from the signed bytes. They are those of the epoch, which is
  there in full (`toNat_epochLow`), since the header checks reconstruct the one from the other.

No property of the primitives is used: the statement is about the inputs handed to them, and a
collision of the MAC itself is outside of it.
-/

namespace Catp

/-- Everything step 7 feeds to the primitives, besides the device secret. -/
structure MacInput where
  /-- The HKDF info string of the epoch key. -/
  info : Bytes
  cipher : CipherId
  /-- The nonce, for the one suite that has one. -/
  nonce : Option Bytes
  signed : Bytes
  deriving DecidableEq

/-- The MAC input of a datagram that passed the header checks. -/
def Claim.macInput (c : Claim) (dir : Direction) : MacInput where
  info := epochKeyInfo c.header.senderId c.epochId dir
  cipher := c.cipher
  nonce := if c.cipher = .chaCha20Poly1305 then some (nonceBytes c.header.datagramOffset) else none
  signed := c.signed

/-- The tag of a MAC input. -/
def MacInput.tag (P : Primitives) (secret : DeviceSecret) (i : MacInput) : Bytes :=
  let key := P.hkdfExpand secret.bytes i.info
  match i.cipher with
  | .hmacSha256T64 | .hmacSha256T32 => (P.hmacSha256.mac key [i.signed]).toList.take i.cipher.tagLen
  | .sipHash24 => u64ToBe (P.sipHasher24.mac (key.take 16) [i.signed])
  | .chaCha20Poly1305 =>
    (P.chaCha20Poly1305 key (i.nonce.getD []) i.signed).toList.take i.cipher.tagLen

/-- The tag step 7 compares with depends on nothing but the MAC input and the secret. -/
theorem tag_eq_macInput_tag (P : Primitives) (c : Claim) (secret : DeviceSecret)
    (dir : Direction) :
    tag P c.cipher (secret.epochKey P c.header.senderId c.epochId dir) c.header.datagramOffset
      c.signed = (c.macInput dir).tag P secret := by
  obtain ⟨header, mt, cipher, e, payload, t⟩ := c
  cases cipher <;> rfl

/-! ### Info strings -/

/-- The info of an epoch key names the sender, the epoch and the direction. -/
theorem epochKeyInfo_inj {s s' e e' : UInt32} {d d' : Direction}
    (h : epochKeyInfo s e d = epochKeyInfo s' e' d') : s = s' ∧ e = e' ∧ d = d' := by
  obtain ⟨h, hdir⟩ := List.append_inj' h rfl
  obtain ⟨h, hepoch⟩ := List.append_inj' h (by simp)
  obtain ⟨-, hsender⟩ := List.append_inj' h (by simp)
  exact ⟨u32ToBe_injective hsender, u32ToBe_injective hepoch,
    Direction.toU8_injective (List.singleton_inj.mp hdir)⟩

/-- Epoch keys and time keys are derived from different info strings. -/
private theorem epochKeyInfo_ne_timeKeyInfo (s e : UInt32) (d : Direction) (s' : UInt32)
    (d' : Direction) : epochKeyInfo s e d ≠ timeKeyInfo s' d' := fun h => by
  simpa using congrArg List.length h

/-! ### The signed bytes -/

variable {buf buf' : Bytes} {peer peer' : PeerConfig} {l l' : UInt32} {dir dir' : Direction}
  {c c' : Claim}

/-- The four epoch bits on the wire are those of the reconstructed epoch. -/
private theorem toNat_epochLow (h : checkHeader buf peer l = .ok c) :
    c.header.epochLow.toNat = c.epochId.toNat % 16 := by
  obtain ⟨-, hheader, -, -, -, -, -, -, -, hepoch, -⟩ := checkHeader_eq_ok_iff.mp h
  have hlow := (Datagram.headerFits_unpack buf).epochLow
  rw [← hheader] at hlow
  have := (reconstructEpoch_eq_some_iff.mp hepoch).2
  omega

/-- The signed bytes determine the epoch, the header and the payload. -/
theorem signed_inj (h : checkHeader buf peer l = .ok c) (h' : checkHeader buf' peer' l' = .ok c')
    (hsigned : c.signed = c'.signed) :
    c.epochId = c'.epochId ∧ c.header = c'.header ∧ c.payload = c'.payload := by
  have hheader := (checkHeader_eq_ok_iff.mp h).2.1
  have hheader' := (checkHeader_eq_ok_iff.mp h').2.1
  obtain ⟨himage, hpayload⟩ := List.append_inj hsigned (by simp)
  have hfits := Datagram.headerFits_unpack buf
  have hfits' := Datagram.headerFits_unpack buf'
  rw [← hheader] at hfits
  rw [← hheader'] at hfits'
  obtain ⟨hepoch, hv, hm, hc, hr, ho, hs⟩ := Datagram.authHeader_inj hfits hfits' himage
  -- the image has these four bits zeroed: they come back from the epoch
  have hlow : c.header.epochLow = c'.header.epochLow := by
    rw [← UInt8.toNat_inj, toNat_epochLow h, toNat_epochLow h', hepoch]
  refine ⟨hepoch, Datagram.ext hv hm hc hlow hr ho hs ?_ ?_, hpayload⟩
  · rw [hheader, hheader']
    rfl
  · rw [hheader, hheader']
    rfl

/-- **Main result.** Two receivers that reach step 7 and feed the same input to the primitives
agree on the direction, the epoch, and every byte but the tag; and no epoch key shares its
info string with a time key. -/
theorem macInput_inj (h : checkHeader buf peer l = .ok c)
    (h' : checkHeader buf' peer' l' = .ok c') (hinput : c.macInput dir = c'.macInput dir') :
    dir = dir' ∧ c.epochId = c'.epochId ∧ c.payload = c'.payload ∧
      buf.take headerLen = buf'.take headerLen ∧
      (∃ image, buf = image ++ c.tag ∧ buf' = image ++ c'.tag ∧
        c.tag.length = c.cipher.tagLen ∧ c'.tag.length = c.cipher.tagLen) ∧
      ∀ s e d s' d', epochKeyInfo s e d ≠ timeKeyInfo s' d' := by
  obtain ⟨hinfo, hcipher, -, hsigned⟩ := MacInput.mk.inj hinput
  obtain ⟨-, -, hdir⟩ := epochKeyInfo_inj hinfo
  obtain ⟨hepoch, hheader, hpayload⟩ := signed_inj h h' hsigned
  obtain ⟨hbuf, htag⟩ := eq_append_of_checkHeader h
  obtain ⟨hbuf', htag'⟩ := eq_append_of_checkHeader h'
  have hhead : buf.take headerLen = c.header.headerBytes := by
    rw [hbuf, List.append_assoc, List.take_left' (Datagram.length_headerBytes _)]
  have hhead' : buf'.take headerLen = c'.header.headerBytes := by
    rw [hbuf', List.append_assoc, List.take_left' (Datagram.length_headerBytes _)]
  refine ⟨hdir, hepoch, hpayload, by rw [hhead, hhead', hheader],
    ⟨c.header.headerBytes ++ c.payload, hbuf, ?_, htag, ?_⟩, epochKeyInfo_ne_timeKeyInfo⟩
  · rw [hheader, hpayload]
    exact hbuf'
  · rw [hcipher]
    exact htag'

/-- A heartbeat in epoch 5 and the same with another tag, at receivers whose clocks stand on
either side of the epoch boundary. -/
theorem macInput_inj_heartbeat :
    let peer : PeerConfig := ⟨7, ⟨Vector.replicate 32 1⟩, .hmacSha256T32, [], none⟩
    let peer' : PeerConfig := ⟨7, ⟨Vector.replicate 32 2⟩, .hmacSha256T32, [], none⟩
    let buf : Bytes := [0x33, 0x45, 0xF8, 0, 3, 0, 0, 0, 7, 1, 2, 3, 4]
    let buf' : Bytes := [0x33, 0x45, 0xF8, 0, 3, 0, 0, 0, 7, 9, 9, 9, 9]
    ∃ c c', checkHeader buf peer 5 = .ok c ∧ checkHeader buf' peer' 6 = .ok c' ∧
      c.epochId = c'.epochId ∧ c.payload = c'.payload ∧
      buf.take headerLen = buf'.take headerLen := by
  intro peer peer' buf buf'
  have h : checkHeader buf peer 5 =
      .ok ⟨.unpack buf, .heartbeat, .hmacSha256T32, 5, [], [1, 2, 3, 4]⟩ := by decide
  have h' : checkHeader buf' peer' 6 =
      .ok ⟨.unpack buf', .heartbeat, .hmacSha256T32, 5, [], [9, 9, 9, 9]⟩ := by decide
  have hinput : Claim.macInput ⟨.unpack buf, .heartbeat, .hmacSha256T32, 5, [], [1, 2, 3, 4]⟩
      .nodeToCollector = Claim.macInput
      ⟨.unpack buf', .heartbeat, .hmacSha256T32, 5, [], [9, 9, 9, 9]⟩ .nodeToCollector := by decide
  obtain ⟨-, hepoch, hpayload, hheader, -⟩ := macInput_inj h h' hinput
  exact ⟨_, _, h, h', hepoch, hpayload, hheader⟩

end Catp
