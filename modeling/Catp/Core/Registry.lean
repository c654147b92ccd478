import Catp.Lib.BigEndian
import Mathlib.Tactic.SplitIfs
import Mathlib.Data.Nat.Notation
import Mathlib.Logic.Function.Basic

/-!
# Registries, constants and errors

The registry part of `src/lib.rs`: protocol constants, the direction, cipher suite and message
type enumerations with their wire values, and the error type every fallible operation
returns.

Bytes and fixed-width fields are Lean's own `UInt8`, `UInt32`, ...; lengths (`usize` in the
source) are natural numbers.

* The constants are abbreviations, so that arithmetic sees their values.
* `Direction`, `CipherId` and `MsgType` are enumerations, and `toU8` and `fromU8` are the casts
  and the matches of the source. An identifier read off the wire is an octet until `fromU8` has
  recognized it.
* `Error` has every variant of the source, with the data and the texts the code puts into it, so
  that a statement about a result is one about the exact error.

Integers are written on the wire with the most significant octet first. The functions `u32ToBe`
and the like are `BigEndian.toBytes` at the width of the type, and are used with the two round
trips stated here for each width. The lengths of the encodings are simplification lemmas, as every
parser splits its input by them.
-/

namespace Catp

/-- A byte string: `&[u8]` and `Vec<u8>` in the source. -/
abbrev Bytes := List UInt8

/-! ### Big-endian integers

`to_be_bytes` and `from_be_bytes` of the standard library. -/

/-- `u16::to_be_bytes`, and the like for the other widths. -/
def u16ToBe (x : UInt16) : Bytes := BigEndian.toBytes 2 x.toNat

/-- `u16::from_be_bytes`, on two bytes. -/
def u16OfBe (bs : Bytes) : UInt16 := UInt16.ofNat (BigEndian.ofBytes bs)

/-- `u32::to_be_bytes`. -/
def u32ToBe (x : UInt32) : Bytes := BigEndian.toBytes 4 x.toNat

/-- `u32::from_be_bytes`, on four bytes. -/
def u32OfBe (bs : Bytes) : UInt32 := UInt32.ofNat (BigEndian.ofBytes bs)

/-- `u64::to_be_bytes`. -/
def u64ToBe (x : UInt64) : Bytes := BigEndian.toBytes 8 x.toNat

/-- `u64::from_be_bytes`, on eight bytes. -/
def u64OfBe (bs : Bytes) : UInt64 := UInt64.ofNat (BigEndian.ofBytes bs)

/-- `i16::to_be_bytes`: the two's complement of the mantissa of a reading. -/
def i16ToBe (x : Int16) : Bytes := u16ToBe x.toUInt16

/-- `i16::from_be_bytes`, on two bytes. -/
def i16OfBe (bs : Bytes) : Int16 := (u16OfBe bs).toInt16

/-- `i64::to_be_bytes`: the two's complement of an asserted time. -/
def i64ToBe (x : Int64) : Bytes := u64ToBe x.toUInt64

/-- `i64::from_be_bytes`, on eight bytes. -/
def i64OfBe (bs : Bytes) : Int64 := (u64OfBe bs).toInt64

/-- Each encoding has the width of its type. -/
@[simp] theorem length_u16ToBe (x : UInt16) : (u16ToBe x).length = 2 :=
  BigEndian.length_toBytes 2 _

@[simp] theorem length_u32ToBe (x : UInt32) : (u32ToBe x).length = 4 :=
  BigEndian.length_toBytes 4 _

@[simp] theorem length_u64ToBe (x : UInt64) : (u64ToBe x).length = 8 :=
  BigEndian.length_toBytes 8 _

@[simp] theorem length_i16ToBe (x : Int16) : (i16ToBe x).length = 2 := length_u16ToBe _

@[simp] theorem length_i64ToBe (x : Int64) : (i64ToBe x).length = 8 := length_u64ToBe _

/-- Decoding reverses encoding, here and for the other widths. -/
@[simp] theorem u16OfBe_u16ToBe (x : UInt16) : u16OfBe (u16ToBe x) = x := by
  rw [u16OfBe, u16ToBe, BigEndian.ofBytes_toBytes_of_lt x.toNat_lt, UInt16.ofNat_toNat]

/-- Encoding reverses decoding on as many bytes as the type is wide. -/
theorem u16ToBe_u16OfBe {bs : Bytes} (h : bs.length = 2) : u16ToBe (u16OfBe bs) = bs := by
  have hlt : BigEndian.ofBytes bs < 2 ^ 16 := by
    simpa [h] using BigEndian.ofBytes_lt bs
  rw [u16ToBe, u16OfBe, UInt16.toNat_ofNat_of_lt' hlt, ← h, BigEndian.toBytes_ofBytes]

/-- The two's complement of a mantissa is read back. -/
@[simp] theorem i16OfBe_i16ToBe (x : Int16) : i16OfBe (i16ToBe x) = x := by
  rw [i16OfBe, i16ToBe, u16OfBe_u16ToBe, Int16.toInt16_toUInt16]

/-- Any two bytes are the two's complement of a mantissa. -/
theorem i16ToBe_i16OfBe {bs : Bytes} (h : bs.length = 2) : i16ToBe (i16OfBe bs) = bs := by
  rw [i16ToBe, i16OfBe, UInt16.toUInt16_toInt16, u16ToBe_u16OfBe h]

/-- A `sender_id` or an epoch is read back. -/
@[simp] theorem u32OfBe_u32ToBe (x : UInt32) : u32OfBe (u32ToBe x) = x := by
  rw [u32OfBe, u32ToBe, BigEndian.ofBytes_toBytes_of_lt x.toNat_lt, UInt32.ofNat_toNat]

/-- Any four bytes encode a `u32`. -/
theorem u32ToBe_u32OfBe {bs : Bytes} (h : bs.length = 4) : u32ToBe (u32OfBe bs) = bs := by
  have hlt : BigEndian.ofBytes bs < 2 ^ 32 := by
    simpa [h] using BigEndian.ofBytes_lt bs
  rw [u32ToBe, u32OfBe, UInt32.toNat_ofNat_of_lt' hlt, ← h, BigEndian.toBytes_ofBytes]

/-- A `u64` is read back. -/
@[simp] theorem u64OfBe_u64ToBe (x : UInt64) : u64OfBe (u64ToBe x) = x := by
  rw [u64OfBe, u64ToBe, BigEndian.ofBytes_toBytes_of_lt x.toNat_lt, UInt64.ofNat_toNat]

private theorem u64ToBe_u64OfBe {bs : Bytes} (h : bs.length = 8) : u64ToBe (u64OfBe bs) = bs := by
  have hlt : BigEndian.ofBytes bs < 2 ^ 64 := by
    simpa [h] using BigEndian.ofBytes_lt bs
  rw [u64ToBe, u64OfBe, UInt64.toNat_ofNat_of_lt' hlt, ← h, BigEndian.toBytes_ofBytes]

/-- An asserted time is read back. -/
@[simp] theorem i64OfBe_i64ToBe (x : Int64) : i64OfBe (i64ToBe x) = x := by
  rw [i64OfBe, i64ToBe, u64OfBe_u64ToBe, Int64.toInt64_toUInt64]

/-- Any eight bytes assert a time. -/
theorem i64ToBe_i64OfBe {bs : Bytes} (h : bs.length = 8) : i64ToBe (i64OfBe bs) = bs := by
  rw [i64ToBe, i64OfBe, UInt64.toUInt64_toInt64, u64ToBe_u64OfBe h]

/-- Two identifiers have two encodings. -/
theorem u32ToBe_injective : Function.Injective u32ToBe := fun x y h => by
  rw [← u32OfBe_u32ToBe x, h, u32OfBe_u32ToBe]

/-! ### Constants -/

/-- Protocol version carried in the high 3 bits of header byte 0. -/
abbrev version : UInt8 := 1

/-- Epoch duration in seconds. -/
abbrev epochSecs : UInt64 := 128

/-- `epoch_offset` ticks per second. -/
abbrev ticksPerSec : UInt64 := 4096

/-- Ticks in one epoch: `1 << 19`, so the 19-bit field spans an epoch. -/
abbrev ticksPerEpoch : UInt32 := 524288

/-- Largest `size` a record header can express (12 bits). -/
abbrev maxBody : ℕ := 4095

/-- Datagram header length in bytes. -/
abbrev headerLen : ℕ := 9

/-- Record header length in bytes. -/
abbrev recordHeaderLen : ℕ := 3

/-- Fixed length of a `NUMBER` payload. -/
abbrev numberPayloadLen : ℕ := 3

/-- Bytes per `(delta, mantissa)` entry of a `SERIES` payload. -/
abbrev seriesEntryLen : ℕ := 4

/-- Lowest valid `scale`. -/
abbrev scaleMin : UInt8 := 0x01

/-- Highest valid `scale`. -/
abbrev scaleMax : UInt8 := 0x07

/-- Conservative IPv4 `max_datagram_size`, and the size of the staging buffer of suite
`0x03`. -/
abbrev maxDatagramIpv4 : ℕ := 512

example : epochSecs * ticksPerSec = ticksPerEpoch.toUInt64 := by decide

/-! ### Enumerations -/

/-- Direction byte mixed into key derivation. -/
inductive Direction
  | nodeToCollector
  | collectorToNode
  deriving DecidableEq, Repr

/-- `dir as u8`. -/
def Direction.toU8 : Direction → UInt8
  | .nodeToCollector => 0x00
  | .collectorToNode => 0x01

/-- The direction byte of the key derivation tells the directions apart. -/
theorem Direction.toU8_injective : Function.Injective Direction.toU8 := by
  intro a b h
  cases a <;> cases b <;> first | rfl | exact absurd h (by decide)

/-- Cipher suite registry. -/
inductive CipherId
  | hmacSha256T64
  | sipHash24
  | chaCha20Poly1305
  | hmacSha256T32
  deriving DecidableEq, Repr

namespace CipherId

/-- `cipher as u8`. -/
def toU8 : CipherId → UInt8
  | hmacSha256T64 => 0x01
  | sipHash24 => 0x02
  | chaCha20Poly1305 => 0x03
  | hmacSha256T32 => 0x04

/-- The registered suite of an identifier. -/
def fromU8 (v : UInt8) : Option CipherId :=
  if v = 0x01 then some hmacSha256T64
  else if v = 0x02 then some sipHash24
  else if v = 0x03 then some chaCha20Poly1305
  else if v = 0x04 then some hmacSha256T32
  else none

/-- The length of the tag on the wire, after truncation. -/
def tagLen : CipherId → ℕ
  | hmacSha256T64 | sipHash24 => 8
  | chaCha20Poly1305 => 16
  | hmacSha256T32 => 4

/-- Suites the reference implementation can compute: all four. -/
def implemented : CipherId → Bool
  | hmacSha256T64 | hmacSha256T32 | sipHash24 | chaCha20Poly1305 => true

/-- Suites whose receiver must enforce a per-sender inbound rate limit. -/
def requiresInboundRateLimit : CipherId → Bool
  | hmacSha256T32 => true
  | _ => false

/-- A registered suite is found under its own identifier. -/
@[simp] theorem fromU8_toU8 (c : CipherId) : fromU8 c.toU8 = some c := by
  cases c <;> rfl

/-- A suite is found under no identifier but its own. -/
theorem toU8_of_fromU8 {v : UInt8} {c : CipherId} (h : fromU8 v = some c) : c.toU8 = v := by
  unfold fromU8 at h
  split_ifs at h with h1 h2 h3 h4 <;> cases h
  exacts [h1.symm, h2.symm, h3.symm, h4.symm]

/-- Every registered suite is implemented, so no tag fails for want of one. -/
@[simp] theorem implemented_eq (c : CipherId) : c.implemented = true := by
  cases c <;> rfl

/-- The identifier of a suite fits in four bits of the header. -/
theorem toU8_lt (c : CipherId) : c.toU8.toNat < 16 := by
  cases c <;> decide

end CipherId

/-- Message types, 5 bits on the wire. -/
inductive MsgType
  | message
  | event
  | alarm
  | number
  | series
  | epochAnnounce
  | timeAnnounce
  | timeRequest
  | heartbeat
  | capabilityAdvertise
  deriving DecidableEq, Repr

namespace MsgType

/-- `msg_type as u8`. -/
def toU8 : MsgType → UInt8
  | message => 0x01
  | event => 0x02
  | alarm => 0x03
  | number => 0x04
  | series => 0x05
  | epochAnnounce => 0x10
  | timeAnnounce => 0x11
  | timeRequest => 0x12
  | heartbeat => 0x13
  | capabilityAdvertise => 0x14

/-- The registered type of a header byte; `0x00` and the vendor range are none. -/
def fromU8 (v : UInt8) : Option MsgType :=
  if v = 0x01 then some message
  else if v = 0x02 then some event
  else if v = 0x03 then some alarm
  else if v = 0x04 then some number
  else if v = 0x05 then some series
  else if v = 0x10 then some epochAnnounce
  else if v = 0x11 then some timeAnnounce
  else if v = 0x12 then some timeRequest
  else if v = 0x13 then some heartbeat
  else if v = 0x14 then some capabilityAdvertise
  else none

/-- Framing is a property of the type, not of the range. -/
def isRecordFramed : MsgType → Bool
  | message | event | alarm => true
  | _ => false

/-- A registered type is found under its own identifier. -/
@[simp] theorem fromU8_toU8 (m : MsgType) : fromU8 m.toU8 = some m := by
  cases m <;> rfl

/-- The identifier of a type fits in five bits of the header. -/
theorem toU8_lt (m : MsgType) : m.toU8.toNat < 32 := by
  cases m <;> decide

end MsgType

/-- `msg_type & 0x10` selects control vs record-framed. -/
def isControl (msgType : UInt8) : Bool := msgType &&& 0x10 ≠ 0

/-! ### Errors -/

/-- Everything that can go wrong in the codec, the receive path and the clocks. -/
inductive Error
  /-- Datagram shorter than header + tag. -/
  | tooShort
  | unsupportedVersion (got : UInt8)
  /-- `msg_type` is `0x00` or not implemented. -/
  | badMsgType (got : UInt8)
  | unknownSender (got : UInt32)
  /-- `cipher_id` differs from the suite configured for this peer. -/
  | cipherMismatch (got want : UInt8)
  | cipherUnimplemented (got : UInt8)
  /-- `epoch_low` did not reconstruct within the acceptance window. -/
  | epochOutOfWindow
  | authFailed
  | replay
  /-- Payload does not frame cleanly into records, or control layout is wrong. -/
  | framing (what : String)
  /-- Body exceeds what `size` can express. -/
  | bodyTooLarge (len : ℕ)
  /-- Datagram would exceed `max_datagram_size`. -/
  | oversize (len : ℕ)
  /-- Sender may not reuse a `datagram_offset` within an epoch. -/
  | offsetReuse (offset : UInt32)
  | badNumber (what : String)
  | badSeries (what : String)
  /-- `EPOCH_ANNOUNCE` at or below the highest accepted. -/
  | epochRollback (got hi : UInt32)
  /-- `TIME_ANNOUNCE` at or below the persisted floor. -/
  | timeRollback (asserted floor : Int64)
  /-- `TIME_ANNOUNCE` arrived at a node whose clock is already set. -/
  | clockAlreadyValid
  | noClock
  /-- The inbound rate limit of this sender has no tokens left. -/
  | rateLimited
  /-- A suite whose rate limit is mandatory was configured without one. -/
  | cipherRequiresRateLimit (cipher : UInt8)
  /-- A caller-supplied output buffer was too short. -/
  | bufferTooSmall (have_ need : ℕ)
  deriving DecidableEq, Repr

end Catp
