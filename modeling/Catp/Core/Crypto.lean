import Catp.Lib.StreamingMac
import Catp.Core.Registry

/-!
# Key schedule and message authentication

The key schedule and MAC part of `src/lib.rs`. The cryptographic crates are a parameter of
the development: `Primitives` gathers what the code calls of them, and every result holds for
any choice. What is relied on is only that they are functions of their arguments and that
hashing a message in pieces is hashing the message (the laws of `StreamingMac`).

`macParts` is the code's one MAC routine. `macParts_ok` and `macParts_oversize` say what it
returns: the `tag` of the concatenated parts, except that suite `0x03` refuses a message that
does not fit its staging buffer.

**Parameters and witnesses.** No result depends on which functions `Primitives` holds. Where a
result needs a network that cannot MAC, that is a hypothesis on the run in question, not on the
primitives. For runs on fixed inputs, `Primitives.ofTable` and `Primitives.ofKeys` are primitives
that know the keys and the HMACs of a few messages and are constant elsewhere; `vectorSecret` and
`vectorKey` are those of `docs/test-vectors.txt`.

**Domain separation.** An epoch key is derived from an info string of 14 bytes and a time key from
one of 15 (`length_epochKeyInfo`, `length_timeKeyInfo`). Both name the sender and the direction.

**Tags.** `tag` is what a suite computes of a contiguous message, cut to the suite's length.
`Stageable` is the one condition under which there is one: the message fits the staging buffer, or
the suite needs none.
-/

namespace Catp

/-- What the code uses of the crates `hkdf`, `hmac`, `siphasher` and `chacha20poly1305`. -/
structure Primitives where
  /-- HKDF-SHA256 without salt, expanded to 32 bytes: secret and info string to key. -/
  hkdfExpand : Vector UInt8 32 → Bytes → Vector UInt8 32
  hmacSha256 : StreamingMac (Vector UInt8 32) (Vector UInt8 32)
  sipHasher24 : StreamingMac (Vector UInt8 16) UInt64
  /-- The tag of an empty plaintext: key, nonce and associated data. -/
  chaCha20Poly1305 : Vector UInt8 32 → Bytes → Bytes → Vector UInt8 16

/-! ### Key schedule -/

/-- Per-node 32-byte secret, provisioned out of band. -/
structure DeviceSecret where
  bytes : Vector UInt8 32
  deriving DecidableEq

/-- `"CATP1" || sender_id || epoch_id || direction`, the HKDF info string of an epoch key. -/
def epochKeyInfo (senderId epochId : UInt32) (dir : Direction) : Bytes :=
  [0x43, 0x41, 0x54, 0x50, 0x31] ++ u32ToBe senderId ++ u32ToBe epochId ++ [dir.toU8]

/-- `"CATP1-time" || sender_id || direction`, the HKDF info string of a time key. -/
def timeKeyInfo (senderId : UInt32) (dir : Direction) : Bytes :=
  [0x43, 0x41, 0x54, 0x50, 0x31, 0x2D, 0x74, 0x69, 0x6D, 0x65] ++ u32ToBe senderId ++ [dir.toU8]

/-- No info of an epoch key is one of a time key: the lengths differ. -/
@[simp] theorem length_epochKeyInfo (s e : UInt32) (d : Direction) :
    (epochKeyInfo s e d).length = 14 := by
  simp [epochKeyInfo]

@[simp] theorem length_timeKeyInfo (s : UInt32) (d : Direction) :
    (timeKeyInfo s d).length = 15 := by
  simp [timeKeyInfo]

section

variable (P : Primitives)

/-- The key of a sender, an epoch and a direction. -/
def DeviceSecret.epochKey (secret : DeviceSecret) (senderId epochId : UInt32)
    (dir : Direction) : Vector UInt8 32 :=
  P.hkdfExpand secret.bytes (epochKeyInfo senderId epochId dir)

/-- The key of the time-recovery domain, for a sender and a direction: no epoch enters it. -/
def DeviceSecret.timeKey (secret : DeviceSecret) (senderId : UInt32) (dir : Direction) :
    Vector UInt8 32 :=
  P.hkdfExpand secret.bytes (timeKeyInfo senderId dir)

/-! ### Tags -/

/-- The nonce of suite `0x03`: eight zero bytes, then the offset as a big-endian `u32`. -/
def nonceBytes (datagramOffset : UInt32) : Bytes :=
  List.replicate 8 0 ++ u32ToBe datagramOffset

/-- The staging loop of suite `0x03`: copy each part behind the `used` bytes already in
`stage`, and refuse the first that does not fit. -/
def stageParts : List Bytes → Bytes → ℕ → Except Error (Bytes × ℕ)
  | [], stage, used => .ok (stage, used)
  | part :: parts, stage, used =>
    if part.length > maxDatagramIpv4 - used then .error (.oversize (used + part.length))
    else
      stageParts parts (stage.take used ++ part ++ stage.drop (used + part.length))
        (used + part.length)

/-- `mac_parts`: the tag over `parts` in order, written over the first `tagLen` bytes of
`out`; the new contents of `out` are returned. -/
def macParts (cipher : CipherId) (key : Vector UInt8 32) (parts : List Bytes)
    (datagramOffset : UInt32) (out : Bytes) : Except Error Bytes :=
  if !cipher.implemented then .error (.cipherUnimplemented cipher.toU8)
  else if out.length < cipher.tagLen then .error (.bufferTooSmall out.length cipher.tagLen)
  else
    match cipher with
    | .hmacSha256T64 | .hmacSha256T32 =>
      .ok ((P.hmacSha256.mac key parts).toList.take cipher.tagLen ++ out.drop cipher.tagLen)
    | .sipHash24 =>
      .ok (u64ToBe (P.sipHasher24.mac (key.take 16) parts) ++ out.drop cipher.tagLen)
    | .chaCha20Poly1305 =>
      match stageParts parts (List.replicate maxDatagramIpv4 0) 0 with
      | .error e => .error e
      | .ok (stage, used) =>
        .ok ((P.chaCha20Poly1305 key (nonceBytes datagramOffset) (stage.take used)).toList.take
          cipher.tagLen ++ out.drop cipher.tagLen)

/-- Compute the tag of one contiguous message into the front of `out`. -/
def macInto (cipher : CipherId) (key : Vector UInt8 32) (msg : Bytes) (datagramOffset : UInt32)
    (out : Bytes) : Except Error Bytes :=
  macParts P cipher key [msg] datagramOffset out

/-- The truncated tag of a message, as a vector of its own. -/
def mac (cipher : CipherId) (key : Vector UInt8 32) (msg : Bytes) (datagramOffset : UInt32) :
    Except Error Bytes :=
  macInto P cipher key msg datagramOffset (List.replicate cipher.tagLen 0)

/-- The tag of a message, as a function of the concatenated message alone. -/
def tag (cipher : CipherId) (key : Vector UInt8 32) (datagramOffset : UInt32) (msg : Bytes) :
    Bytes :=
  match cipher with
  | .hmacSha256T64 | .hmacSha256T32 => (P.hmacSha256.mac key [msg]).toList.take cipher.tagLen
  | .sipHash24 => u64ToBe (P.sipHasher24.mac (key.take 16) [msg])
  | .chaCha20Poly1305 =>
    (P.chaCha20Poly1305 key (nonceBytes datagramOffset) msg).toList.take cipher.tagLen

/-- Every suite's tag has the length the registry gives it. -/
@[simp] theorem length_tag (cipher : CipherId) (key : Vector UInt8 32) (off : UInt32)
    (msg : Bytes) : (tag P cipher key off msg).length = cipher.tagLen := by
  cases cipher <;> simp [tag, CipherId.tagLen]

/-! ### The staging loop -/

/-- A message that fits is staged unchanged: the used prefix grows by each part. -/
private theorem stageParts_ok (parts : List Bytes) (stage : Bytes) (used : ℕ)
    (hstage : stage.length = maxDatagramIpv4)
    (hfit : used + parts.flatten.length ≤ maxDatagramIpv4) :
    ∃ stage', stageParts parts stage used = .ok (stage', used + parts.flatten.length) ∧
      stage'.take (used + parts.flatten.length) = stage.take used ++ parts.flatten := by
  induction parts generalizing stage used with
  | nil => exact ⟨stage, by simp [stageParts], by simp⟩
  | cons part parts ih =>
    have hlen : used + (part.length + parts.flatten.length) ≤ maxDatagramIpv4 := by
      simpa using hfit
    rw [stageParts, if_neg (by omega)]
    obtain ⟨stage', heq, htake⟩ := ih (stage.take used ++ part ++ stage.drop (used + part.length))
      (used + part.length) (by simp; omega) (by omega)
    -- the part is copied behind the used prefix, which stays
    have hpre : (stage.take used ++ part ++ stage.drop (used + part.length)).take
        (used + part.length) = stage.take used ++ part := by
      rw [List.take_left' (by simp; omega)]
    refine ⟨stage', ?_, ?_⟩
    · rw [heq, List.flatten_cons, List.length_append, Nat.add_assoc]
    · rw [List.flatten_cons, List.length_append, ← Nat.add_assoc, htake, hpre, List.append_assoc]

/-- A message that does not fit is refused, whatever the parts. -/
private theorem stageParts_oversize (parts : List Bytes) (stage : Bytes) (used : ℕ)
    (hused : used ≤ maxDatagramIpv4) (hbig : maxDatagramIpv4 < used + parts.flatten.length) :
    ∃ n, maxDatagramIpv4 < n ∧ stageParts parts stage used = .error (.oversize n) := by
  induction parts generalizing stage used with
  | nil => simp at hbig; omega
  | cons part parts ih =>
    rw [stageParts]
    split_ifs with h
    · exact ⟨used + part.length, by omega, rfl⟩
    · refine ih _ _ (by omega) ?_
      rw [List.flatten_cons, List.length_append] at hbig
      omega

/-! ### What the MAC routine returns -/

variable {cipher : CipherId} {key : Vector UInt8 32} {parts : List Bytes} {off : UInt32}
  {out : Bytes}

/-- The messages suite `0x03` can stage; the other suites take any. -/
def Stageable (cipher : CipherId) (len : ℕ) : Prop :=
  cipher = .chaCha20Poly1305 → len ≤ maxDatagramIpv4

instance (cipher : CipherId) (len : ℕ) : Decidable (Stageable cipher len) :=
  inferInstanceAs (Decidable (_ → _))

/-- With room for the tag and a message that can be staged, the tag is written in front. -/
theorem macParts_ok (hout : cipher.tagLen ≤ out.length)
    (hfit : Stageable cipher parts.flatten.length) :
    macParts P cipher key parts off out =
      .ok (tag P cipher key off parts.flatten ++ out.drop cipher.tagLen) := by
  have hlen : ¬out.length < cipher.tagLen := by omega
  rw [macParts.eq_def, if_neg (by simp), if_neg hlen]
  cases cipher with
  | hmacSha256T64 => rw [tag, P.hmacSha256.mac_eq_mac_flatten]
  | hmacSha256T32 => rw [tag, P.hmacSha256.mac_eq_mac_flatten]
  | sipHash24 => rw [tag, P.sipHasher24.mac_eq_mac_flatten]
  | chaCha20Poly1305 =>
    obtain ⟨stage, heq, htake⟩ := stageParts_ok parts (List.replicate maxDatagramIpv4 0) 0
      (by simp) (by simpa using hfit rfl)
    simp only [heq, htake, tag, List.take_zero, List.nil_append]

/-- A message that cannot be staged is refused with a length above the staging limit. -/
theorem macParts_oversize (hout : cipher.tagLen ≤ out.length)
    (hbig : ¬Stageable cipher parts.flatten.length) :
    ∃ n, maxDatagramIpv4 < n ∧ macParts P cipher key parts off out = .error (.oversize n) := by
  obtain ⟨rfl, hlen⟩ : cipher = .chaCha20Poly1305 ∧ maxDatagramIpv4 < parts.flatten.length := by
    simpa [Stageable] using hbig
  obtain ⟨n, hn, heq⟩ := stageParts_oversize parts (List.replicate maxDatagramIpv4 0) 0
    (Nat.zero_le _) (by simpa using hlen)
  have hlen' : ¬out.length < CipherId.tagLen .chaCha20Poly1305 := by omega
  refine ⟨n, hn, ?_⟩
  rw [macParts.eq_def, if_neg (by simp), if_neg hlen']
  simp only [heq]

/-- Room for the tag is asked for before anything else. -/
private theorem macParts_short (hout : out.length < cipher.tagLen) :
    macParts P cipher key parts off out = .error (.bufferTooSmall out.length cipher.tagLen) := by
  rw [macParts.eq_def, if_neg (by simp), if_pos hout]

/-- Exactly when a tag is computed, and what is then in the buffer. -/
theorem macParts_eq_ok_iff {out' : Bytes} : macParts P cipher key parts off out = .ok out' ↔
    cipher.tagLen ≤ out.length ∧ Stageable cipher parts.flatten.length ∧
      out' = tag P cipher key off parts.flatten ++ out.drop cipher.tagLen := by
  by_cases hout : cipher.tagLen ≤ out.length
  · by_cases hfit : Stageable cipher parts.flatten.length
    · rw [macParts_ok P hout hfit, Except.ok.injEq, and_iff_right hout, and_iff_right hfit, eq_comm]
    · obtain ⟨n, -, hover⟩ := macParts_oversize P hout hfit
      rw [hover]
      exact ⟨nofun, fun h => absurd h.2.1 hfit⟩
  · rw [macParts_short P (Nat.not_le.mp hout)]
    exact ⟨nofun, fun h => absurd h.1 hout⟩

/-- Exactly when the message is refused as too long. -/
theorem macParts_eq_oversize_iff :
    (∃ n, macParts P cipher key parts off out = .error (.oversize n)) ↔
      cipher.tagLen ≤ out.length ∧ ¬Stageable cipher parts.flatten.length := by
  by_cases hout : cipher.tagLen ≤ out.length
  · by_cases hfit : Stageable cipher parts.flatten.length
    · rw [macParts_ok P hout hfit]
      exact ⟨nofun, fun h => absurd hfit h.2⟩
    · obtain ⟨n, -, hover⟩ := macParts_oversize P hout hfit
      exact ⟨fun _ => ⟨hout, hfit⟩, fun _ => ⟨n, hover⟩⟩
  · rw [macParts_short P (Nat.not_le.mp hout)]
    exact ⟨nofun, fun h => absurd h.1 hout⟩

/-- `mac` over one message. -/
theorem mac_eq (msg : Bytes) : mac P cipher key msg off =
    if Stageable cipher msg.length then .ok (tag P cipher key off msg)
    else .error (.oversize msg.length) := by
  split_ifs with h
  · rw [mac, macInto, macParts_ok P (by simp) (by simpa using h)]
    simp
  · obtain ⟨rfl, hlen⟩ : cipher = .chaCha20Poly1305 ∧ maxDatagramIpv4 < msg.length := by
      simpa [Stageable] using h
    have hbig : msg.length > maxDatagramIpv4 - 0 := by omega
    rw [mac, macInto, macParts, if_neg (by simp), if_neg (by simp)]
    simp only [stageParts, if_pos hbig, Nat.zero_add]

/-! ### Tag comparison -/

/-- `ct_eq`: unequal lengths are unequal, then a comparison of all bytes. -/
def ctEq (a b : Bytes) : Bool :=
  if a.length ≠ b.length then false else a == b

/-- The comparison of two tags decides whether they are equal. -/
@[simp] theorem ctEq_iff {a b : Bytes} : ctEq a b = true ↔ a = b := by
  unfold ctEq
  split_ifs with h
  · simp [show a ≠ b from fun hab => h (congrArg List.length hab)]
  · simp

/-- A comparison passes when the tags are equal. -/
theorem ite_ctEq_eq_ok_iff {α : Type*} {expected received : Bytes} {a b : α} :
    (if !ctEq expected received then .error .authFailed else .ok a : Except Error α) = .ok b ↔
      received = expected ∧ b = a := by
  by_cases h : expected = received
  · rw [ctEq_iff.mpr h]
    simp [h, eq_comm]
  · rw [Bool.eq_false_iff.mpr (mt ctEq_iff.mp h)]
    simp [Ne.symm h]

/-! ### Tables

Primitives that know the values of a few calls, for running the code on fixed inputs. -/

/-- Primitives that know one derived key and the HMACs of some messages under it. -/
def Primitives.ofTable (key : Vector UInt8 32) (hmacs : List (Bytes × Vector UInt8 32)) :
    Primitives where
  hkdfExpand _ _ := key
  hmacSha256 := .ofFun fun _ msg => (hmacs.lookup msg).getD (Vector.replicate 32 0)
  sipHasher24 := .ofFun fun _ _ => 0
  chaCha20Poly1305 _ _ _ := Vector.replicate 16 0

/-- Primitives that know the keys derived with some info strings, and the HMACs of some messages
under some keys. -/
def Primitives.ofKeys (keys : List (Bytes × Vector UInt8 32))
    (hmacs : List ((Vector UInt8 32 × Bytes) × Vector UInt8 32)) : Primitives where
  hkdfExpand _ info := (keys.lookup info).getD (Vector.replicate 32 0)
  hmacSha256 := .ofFun fun key msg => (hmacs.lookup (key, msg)).getD (Vector.replicate 32 0)
  sipHasher24 := .ofFun fun _ _ => 0
  chaCha20Poly1305 _ _ _ := Vector.replicate 16 0

/-- The device secret of `docs/test-vectors.txt`. -/
def vectorSecret : DeviceSecret := ⟨Vector.ofFn fun i => UInt8.ofNat i⟩

/-- Its node-to-collector key for sender `0x12345678` and epoch 13281250. -/
def vectorKey : Vector UInt8 32 :=
  #v[0xCF, 0x28, 0x19, 0x88, 0x3A, 0xE2, 0xE2, 0x6D, 0xDF, 0x4D, 0x7E, 0x07, 0x66, 0xFD, 0x91, 0xC3,
    0xB1, 0x11, 0x84, 0xA0, 0x07, 0x75, 0xA3, 0xE0, 0x1C, 0x92, 0x3C, 0xF3, 0x76, 0x8E, 0x85, 0x81]

end

end Catp
