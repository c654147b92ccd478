import Catp.Wire.Datagram

/-!
# The packed header

The header fields straddle bytes: version and message type share the first, suite and the low
epoch bits the second, the reserved bits and the top of the offset the third. This module
restates the packing as arithmetic (`toNat_headerBytes`) and shows that unpacking is its
inverse in both directions (`headerBytes_unpack`, `unpack_headerBytes_append`). The last
section takes the authenticated header image apart (`authHeader_inj`).

* `toNat_unpack` and `headerBytes_eq` are the two directions as arithmetic: masks and shifts
  become remainders and quotients by powers of two. From there every field is a fact about one
  byte (`unpack_byte`, `pack_inj`) or about the three of the offset (`split_offset`,
  `join_offset`).
* `HeaderFits` bounds the fields by their widths. What is unpacked fits (`headerFits_unpack`), and
  what fits is read back (`unpack_headerBytes_append`); a field that does not fit is cut by
  packing.
* The image is not the header: `epoch_low` is cleared in it, and the epoch stands in full before
  the sender. So two images that agree say nothing about `epoch_low`.
-/

namespace Catp

namespace Datagram

/-- The header fields at the front of a buffer, with no payload. -/
def unpack (buf : Bytes) : Datagram where
  version := (buf[0]! >>> 5) &&& 0x07
  msgType := buf[0]! &&& 0x1F
  cipherId := (buf[1]! >>> 4) &&& 0x0F
  epochLow := buf[1]! &&& 0x0F
  reserved := (buf[2]! >>> 3) &&& 0x1F
  datagramOffset :=
    ((buf[2]! &&& 0x07).toUInt32 <<< 16) ||| (buf[3]!.toUInt32 <<< 8) ||| buf[4]!.toUInt32
  senderId := u32OfBe [buf[5]!, buf[6]!, buf[7]!, buf[8]!]
  records := []
  raw := []

/-! ### Shifts and masks as arithmetic -/

private theorem toNat_mask3 (b : UInt8) : (b &&& 0x07).toNat = b.toNat % 8 := by
  simpa using BigEndian.land_mask b.toNat 3

private theorem toNat_mask4 (b : UInt8) : (b &&& 0x0F).toNat = b.toNat % 16 := by
  simpa using BigEndian.land_mask b.toNat 4

private theorem toNat_mask5 (b : UInt8) : (b &&& 0x1F).toNat = b.toNat % 32 := by
  simpa using BigEndian.land_mask b.toNat 5

/-- Two fields that share a byte. -/
private theorem toNat_pack (hi lo k : UInt8) (hk : k.toNat < 8)
    (hhi : hi.toNat * 2 ^ k.toNat < 256) (hlo : lo.toNat < 2 ^ k.toNat) :
    ((hi <<< k) ||| lo).toNat = hi.toNat * 2 ^ k.toNat + lo.toNat := by
  have hshift : (hi <<< k).toNat = hi.toNat * 2 ^ k.toNat := by
    rw [UInt8.toNat_shiftLeft, Nat.mod_eq_of_lt hk, Nat.shiftLeft_eq]
    exact Nat.mod_eq_of_lt hhi
  rw [UInt8.toNat_or, hshift, BigEndian.mul_two_pow_lor hi.toNat k.toNat hlo]

private theorem toNat_shiftRight (b k : UInt8) (hk : k.toNat < 8) :
    (b >>> k).toNat = b.toNat / 2 ^ k.toNat := by
  rw [UInt8.toNat_shiftRight, Nat.mod_eq_of_lt hk, Nat.shiftRight_eq_div_pow]

/-- The 19-bit offset read from its three bytes. -/
private theorem toNat_offset (b2 b3 b4 : UInt8) :
    (((b2 &&& 0x07).toUInt32 <<< 16) ||| (b3.toUInt32 <<< 8) ||| b4.toUInt32).toNat =
      b2.toNat % 8 * 2 ^ 16 + b3.toNat * 2 ^ 8 + b4.toNat := by
  rw [← toNat_mask3]
  exact Record.toNat_wordOf (b2 &&& 0x07) b3 b4

/-- The fields of `unpack` as numbers. -/
private theorem toNat_unpack (buf : Bytes) :
    (unpack buf).version.toNat = buf[0]!.toNat / 32 ∧
      (unpack buf).msgType.toNat = buf[0]!.toNat % 32 ∧
      (unpack buf).cipherId.toNat = buf[1]!.toNat / 16 ∧
      (unpack buf).epochLow.toNat = buf[1]!.toNat % 16 ∧
      (unpack buf).reserved.toNat = buf[2]!.toNat / 8 ∧
      (unpack buf).datagramOffset.toNat =
        buf[2]!.toNat % 8 * 2 ^ 16 + buf[3]!.toNat * 2 ^ 8 + buf[4]!.toNat := by
  have h0 : buf[0]!.toNat < 256 := buf[0]!.toNat_lt
  have h1 : buf[1]!.toNat < 256 := buf[1]!.toNat_lt
  have h2 : buf[2]!.toNat < 256 := buf[2]!.toNat_lt
  have hversion := toNat_shiftRight buf[0]! 5 (by decide)
  have hcipher := toNat_shiftRight buf[1]! 4 (by decide)
  have hreserved := toNat_shiftRight buf[2]! 3 (by decide)
  simp only [UInt8.reduceToNat] at hversion hcipher hreserved
  simp only [unpack, toNat_mask3, toNat_mask4, toNat_mask5, toNat_offset, hversion, hcipher,
    hreserved, Nat.reducePow, true_and, and_true]
  omega

/-- The bytes of the packed header as numbers. -/
private theorem headerBytes_eq (d : Datagram) : ∃ b0 b1 b2 b3 b4 : UInt8,
    d.headerBytes = [b0, b1, b2, b3, b4] ++ u32ToBe d.senderId ∧
      b0.toNat = d.version.toNat % 8 * 32 + d.msgType.toNat % 32 ∧
      b1.toNat = d.cipherId.toNat % 16 * 16 + d.epochLow.toNat % 16 ∧
      b2.toNat = d.reserved.toNat % 32 * 8 + d.datagramOffset.toNat / 2 ^ 16 % 8 ∧
      b3.toNat = d.datagramOffset.toNat / 2 ^ 8 % 256 ∧
      b4.toNat = d.datagramOffset.toNat % 256 := by
  have ho : (d.datagramOffset &&& 0x7FFFF).toNat = d.datagramOffset.toNat % 2 ^ 19 := by
    simpa using BigEndian.land_mask d.datagramOffset.toNat 19
  have ho16 : ((d.datagramOffset &&& 0x7FFFF) >>> 16).toUInt8.toNat
      = d.datagramOffset.toNat % 2 ^ 19 / 2 ^ 16 := by
    rw [UInt32.toNat_toUInt8, UInt32.toNat_shiftRight, ho]
    simp only [UInt32.reduceToNat, Nat.reduceMod, Nat.shiftRight_eq_div_pow]
    omega
  have ho8 : ((d.datagramOffset &&& 0x7FFFF) >>> 8).toUInt8.toNat
      = d.datagramOffset.toNat % 2 ^ 19 / 2 ^ 8 % 256 := by
    rw [UInt32.toNat_toUInt8, UInt32.toNat_shiftRight, ho]
    simp only [UInt32.reduceToNat, Nat.reduceMod, Nat.shiftRight_eq_div_pow]
  have hb0 := toNat_pack (d.version &&& 0x07) (d.msgType &&& 0x1F) 5 (by decide)
    (by rw [toNat_mask3]; simp only [UInt8.reduceToNat]; omega)
    (by rw [toNat_mask5]; simp only [UInt8.reduceToNat]; omega)
  have hb1 := toNat_pack (d.cipherId &&& 0x0F) (d.epochLow &&& 0x0F) 4 (by decide)
    (by rw [toNat_mask4]; simp only [UInt8.reduceToNat]; omega)
    (by rw [toNat_mask4]; simp only [UInt8.reduceToNat]; omega)
  have hb2 := toNat_pack (d.reserved &&& 0x1F)
    (((d.datagramOffset &&& 0x7FFFF) >>> 16).toUInt8 &&& 0x07) 3 (by decide)
    (by rw [toNat_mask5]; simp only [UInt8.reduceToNat]; omega)
    (by rw [toNat_mask3]; simp only [UInt8.reduceToNat]; omega)
  rw [toNat_mask3, toNat_mask5] at hb0
  rw [toNat_mask4, toNat_mask4] at hb1
  rw [toNat_mask3, toNat_mask5, ho16] at hb2
  simp only [UInt8.reduceToNat] at hb0 hb1 hb2
  refine ⟨_, _, _, _, _, rfl, hb0, hb1, ?_, ?_, ?_⟩
  · rw [hb2]
    omega
  · rw [ho8]
    omega
  · rw [UInt32.toNat_toUInt8, ho]
    omega

/-! ### Packing and unpacking are inverse -/

/-- A byte split at bit 5, 4 or 3 and put together again. -/
private theorem split_byte {n : ℕ} (h : n < 256) : n / 32 % 8 * 32 + n % 32 % 32 = n ∧
    n / 16 % 16 * 16 + n % 16 % 16 = n ∧ n / 8 % 32 * 8 + n % 8 = n := by
  omega

/-- The three parts of an offset put together and split again. -/
private theorem split_offset {a b c : ℕ} (ha : a < 8) (hb : b < 256) (hc : c < 256) :
    (a * 2 ^ 16 + b * 2 ^ 8 + c) / 2 ^ 16 % 8 = a ∧
      (a * 2 ^ 16 + b * 2 ^ 8 + c) / 2 ^ 8 % 256 = b ∧ (a * 2 ^ 16 + b * 2 ^ 8 + c) % 256 = c := by
  omega

/-- An offset split into its three parts and put together again. -/
private theorem join_offset {o : ℕ} (h : o < 2 ^ 19) :
    o / 2 ^ 16 % 8 * 2 ^ 16 + o / 2 ^ 8 % 256 * 2 ^ 8 + o % 256 = o := by
  omega

/-- Two fields that share a byte, read back. -/
private theorem unpack_byte {k hi lo : ℕ} (hlo : lo < k) :
    (hi * k + lo) / k = hi ∧ (hi * k + lo) % k = lo := by
  rw [Nat.mul_comm, Nat.mul_add_div (Nat.zero_lt_of_lt hlo), Nat.div_eq_of_lt hlo,
    Nat.mul_add_mod, Nat.mod_eq_of_lt hlo]
  exact ⟨rfl, rfl⟩

/-- Two fields that share a byte can be told apart. -/
private theorem pack_inj {k hi lo hi' lo' : ℕ} (hlo : lo < k) (hlo' : lo' < k)
    (h : hi * k + lo = hi' * k + lo') : hi = hi' ∧ lo = lo' := by
  obtain ⟨hdiv, hmod⟩ := @unpack_byte k hi lo hlo
  obtain ⟨hdiv', hmod'⟩ := @unpack_byte k hi' lo' hlo'
  rw [h] at hdiv hmod
  exact ⟨hdiv.symm.trans hdiv', hmod.symm.trans hmod'⟩

/-- Packing the fields unpacked from a buffer gives the first nine bytes back. -/
theorem headerBytes_unpack {buf : Bytes} (h : headerLen ≤ buf.length) :
    (unpack buf).headerBytes = buf.take headerLen := by
  obtain ⟨c0, c1, c2, c3, c4, c5, c6, c7, c8, rest, rfl⟩ :
      ∃ c0 c1 c2 c3 c4 c5 c6 c7 c8 rest,
        buf = c0 :: c1 :: c2 :: c3 :: c4 :: c5 :: c6 :: c7 :: c8 :: rest := by
    match buf, h with
    | c0 :: c1 :: c2 :: c3 :: c4 :: c5 :: c6 :: c7 :: c8 :: rest, _ =>
      exact ⟨c0, c1, c2, c3, c4, c5, c6, c7, c8, rest, rfl⟩
  obtain ⟨b0, b1, b2, b3, b4, hbytes, h0, h1, h2, h3, h4⟩ := headerBytes_eq
    (unpack (c0 :: c1 :: c2 :: c3 :: c4 :: c5 :: c6 :: c7 :: c8 :: rest))
  obtain ⟨hv, hm, hc, he, hr, ho⟩ :=
    toNat_unpack (c0 :: c1 :: c2 :: c3 :: c4 :: c5 :: c6 :: c7 :: c8 :: rest)
  simp only [List.getElem!_cons_zero, List.getElem!_cons_succ] at hv hm hc he hr ho
  have g0 : c0.toNat < 256 := c0.toNat_lt
  have g1 : c1.toNat < 256 := c1.toNat_lt
  have g2 : c2.toNat < 256 := c2.toNat_lt
  have g3 : c3.toNat < 256 := c3.toNat_lt
  have g4 : c4.toNat < 256 := c4.toNat_lt
  obtain ⟨ho2, ho3, ho4⟩ := split_offset (Nat.mod_lt c2.toNat (by decide : 0 < 8)) g3 g4
  have e0 : b0 = c0 := by rw [← UInt8.toNat_inj, h0, hv, hm, (split_byte g0).1]
  have e1 : b1 = c1 := by rw [← UInt8.toNat_inj, h1, hc, he, (split_byte g1).2.1]
  have e2 : b2 = c2 := by rw [← UInt8.toNat_inj, h2, hr, ho, ho2, (split_byte g2).2.2]
  have e3 : b3 = c3 := by rw [← UInt8.toNat_inj, h3, ho, ho3]
  have e4 : b4 = c4 := by rw [← UInt8.toNat_inj, h4, ho, ho4]
  have hsender :
      u32ToBe (unpack (c0 :: c1 :: c2 :: c3 :: c4 :: c5 :: c6 :: c7 :: c8 :: rest)).senderId
        = [c5, c6, c7, c8] := u32ToBe_u32OfBe rfl
  rw [hbytes, hsender, e0, e1, e2, e3, e4]
  rfl

/-- The header fields fit the widths the header gives them. -/
structure HeaderFits (d : Datagram) : Prop where
  version : d.version.toNat < 8
  msgType : d.msgType.toNat < 32
  cipherId : d.cipherId.toNat < 16
  epochLow : d.epochLow.toNat < 16
  reserved : d.reserved.toNat < 32
  datagramOffset : d.datagramOffset.toNat < 2 ^ 19

/-- Unpacking reads back header fields that fit. -/
theorem unpack_headerBytes_append {d : Datagram} (h : d.HeaderFits) (rest : Bytes) :
    unpack (d.headerBytes ++ rest) = { d with records := [], raw := [] } := by
  obtain ⟨b0, b1, b2, b3, b4, hbytes, h0, h1, h2, h3, h4⟩ := headerBytes_eq d
  obtain ⟨s0, s1, s2, s3, hs⟩ : ∃ s0 s1 s2 s3, u32ToBe d.senderId = [s0, s1, s2, s3] := by
    match hs : u32ToBe d.senderId, length_u32ToBe d.senderId with
    | [s0, s1, s2, s3], _ => exact ⟨s0, s1, s2, s3, rfl⟩
  have hsender : u32OfBe [s0, s1, s2, s3] = d.senderId := by rw [← hs, u32OfBe_u32ToBe]
  obtain ⟨hv, hm, hc, he, hr, ho⟩ := toNat_unpack (d.headerBytes ++ rest)
  rw [hbytes, hs] at hv hm hc he hr ho ⊢
  simp only [List.cons_append, List.nil_append, List.getElem!_cons_zero,
    List.getElem!_cons_succ] at hv hm hc he hr ho ⊢
  rw [h0, Nat.mod_eq_of_lt h.version, Nat.mod_eq_of_lt h.msgType] at hv hm
  rw [h1, Nat.mod_eq_of_lt h.cipherId, Nat.mod_eq_of_lt h.epochLow] at hc he
  rw [h2, Nat.mod_eq_of_lt h.reserved] at hr ho
  have hhigh : d.datagramOffset.toNat / 2 ^ 16 % 8 < 8 := Nat.mod_lt _ (by decide)
  rw [(unpack_byte hhigh).2, h3, h4, join_offset h.datagramOffset] at ho
  exact Datagram.ext (UInt8.toNat_inj.mp (hv.trans (unpack_byte h.msgType).1))
    (UInt8.toNat_inj.mp (hm.trans (unpack_byte h.msgType).2))
    (UInt8.toNat_inj.mp (hc.trans (unpack_byte h.epochLow).1))
    (UInt8.toNat_inj.mp (he.trans (unpack_byte h.epochLow).2))
    (UInt8.toNat_inj.mp (hr.trans (unpack_byte hhigh).1)) (UInt32.toNat_inj.mp ho) hsender rfl rfl

/-- What is unpacked fits. -/
theorem headerFits_unpack (buf : Bytes) : (unpack buf).HeaderFits := by
  obtain ⟨hv, hm, hc, he, hr, ho⟩ := toNat_unpack buf
  have h0 : buf[0]!.toNat < 256 := buf[0]!.toNat_lt
  have h1 : buf[1]!.toNat < 256 := buf[1]!.toNat_lt
  have h2 : buf[2]!.toNat < 256 := buf[2]!.toNat_lt
  have h3 : buf[3]!.toNat < 256 := buf[3]!.toNat_lt
  have h4 : buf[4]!.toNat < 256 := buf[4]!.toNat_lt
  constructor <;> omega

/-! ### The authenticated header image -/

/-- The mask of the high nibble clears the low one. -/
private theorem toNat_high_nibble (b : UInt8) : (b &&& 0xF0).toNat = b.toNat / 16 * 16 := by
  have hall : ∀ n : Fin 256, n.val &&& 240 = n.val / 16 * 16 := by decide +kernel
  simpa using hall ⟨b.toNat, b.toNat_lt⟩

/-- The authenticated image determines the epoch and every header field but `epoch_low`. -/
theorem authHeader_inj {d d' : Datagram} (h : d.HeaderFits) (h' : d'.HeaderFits) {e e' : UInt32}
    (heq : d.authHeader e = d'.authHeader e') :
    e = e' ∧ d.version = d'.version ∧ d.msgType = d'.msgType ∧ d.cipherId = d'.cipherId ∧
      d.reserved = d'.reserved ∧ d.datagramOffset = d'.datagramOffset ∧
      d.senderId = d'.senderId := by
  obtain ⟨b0, b1, b2, b3, b4, hbytes, h0, h1, h2, h3, h4⟩ := headerBytes_eq d
  obtain ⟨c0, c1, c2, c3, c4, hbytes', h0', h1', h2', h3', h4'⟩ := headerBytes_eq d'
  have hb1 := toNat_high_nibble b1
  have hc1 := toNat_high_nibble c1
  have himage : [b0, b1 &&& 0xF0, b2, b3, b4] ++ u32ToBe e ++ u32ToBe d.senderId
      = [c0, c1 &&& 0xF0, c2, c3, c4] ++ u32ToBe e' ++ u32ToBe d'.senderId := by
    simpa [authHeader, hbytes, hbytes'] using heq
  obtain ⟨hleft, hsender⟩ := List.append_inj' himage (by simp)
  obtain ⟨hhead, hepoch⟩ := List.append_inj' hleft (by simp)
  simp only [List.cons.injEq, and_true, ← UInt8.toNat_inj] at hhead
  obtain ⟨i0, i1, i2, i3, i4⟩ := hhead
  -- each byte of the image determines the fields packed into it
  rw [h0, h0', Nat.mod_eq_of_lt h.version, Nat.mod_eq_of_lt h'.version,
    Nat.mod_eq_of_lt h.msgType, Nat.mod_eq_of_lt h'.msgType] at i0
  rw [hb1, hc1, h1, h1', Nat.mod_eq_of_lt h.cipherId, Nat.mod_eq_of_lt h'.cipherId,
    Nat.mod_eq_of_lt h.epochLow, Nat.mod_eq_of_lt h'.epochLow, (unpack_byte h.epochLow).1,
    (unpack_byte h'.epochLow).1] at i1
  rw [h2, h2', Nat.mod_eq_of_lt h.reserved, Nat.mod_eq_of_lt h'.reserved] at i2
  rw [h3, h3'] at i3
  rw [h4, h4'] at i4
  obtain ⟨hversion, hmsgType⟩ := pack_inj h.msgType h'.msgType i0
  obtain ⟨hreserved, hhigh⟩ :=
    pack_inj (Nat.mod_lt _ (by decide : 0 < 8)) (Nat.mod_lt _ (by decide : 0 < 8)) i2
  have hoffset : d.datagramOffset.toNat = d'.datagramOffset.toNat := by
    rw [← join_offset h.datagramOffset, hhigh, i3, i4, join_offset h'.datagramOffset]
  exact ⟨u32ToBe_injective hepoch, UInt8.toNat_inj.mp hversion, UInt8.toNat_inj.mp hmsgType,
    UInt8.toNat_inj.mp (Nat.eq_of_mul_eq_mul_right (by decide) i1), UInt8.toNat_inj.mp hreserved,
    UInt32.toNat_inj.mp hoffset, u32ToBe_injective hsender⟩

end Datagram

end Catp
