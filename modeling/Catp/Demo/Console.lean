import Catp.Demo.Format
import Catp.Lib.Faults
import Catp.Lib.Hex
import Catp.Peer.Collector
import Catp.Wire.Values

/-!
# What the demo collector prints

`at`, `escape`, `render` and the lines that `main` of `tools/src/bin/collector.rs` prints of a
datagram it accepted, with the operations that could stop the program as computations in
`Faulting`. They stop on none, whatever an authenticated peer has sent (`exists_report_eq`): every
layout checks the length of a body before it reads it. And `escape` shows any octets as printable
text from which they can be read back (`unescape_escape`).

**Operations that could stop the program.** Indices and slices of a body are operations of
`Faults`, as is the arithmetic of `at`. `exists_report_eq` is the whole of what is printed of a
datagram: it returns, and its number of lines is that of what was delivered and skipped. It asks
of the datagram only what step 9 has checked of a `NUMBER` or a `SERIES`.

**What a line is read back from.** `readBack` takes the quoted text out of the line of an opaque
record, which begins with a length of varying width, and `render_opaque_spec` says that the octets
of the body are found in it, whatever the format. The characters that could end the quotation or
start a sequence of the terminal are escaped; that everything printed is printable is part of the
statement.

Rows such as `renderEvent_eq` say what is shown of a body that was packed by the layout, and are
what the sender's side is compared with.
-/

namespace Catp.Demo

open Faults Provision

/-! ### Instants -/

/-- `at`, of an epoch and a tick within it. -/
def instantAt (epochId offset : UInt32) : Faulting (List Char) := do
  let epochBase ← mul (2 ^ 64 - 1) epochId.toNat epochSecs.toNat
  let secs ← add (2 ^ 64 - 1) epochBase (offset.toNat / ticksPerSec.toNat)
  let ms := (← mul (2 ^ 64 - 1) (offset.toNat % ticksPerSec.toNat) 1000) / ticksPerSec.toNat
  return ["t=".toList, decimal secs, ['.'], zeroPadded 3 ms].flatten

/-- What `at` shows: seconds and milliseconds, rounded down. -/
def instantText (epochId offset : UInt32) : List Char :=
  ["t=".toList, decimal (epochId.toNat * 128 + offset.toNat / 4096), ['.'],
    zeroPadded 3 (offset.toNat % 4096 * 1000 / 4096)].flatten

theorem instantAt_eq (epochId offset : UInt32) :
    instantAt epochId offset = .ok (instantText epochId offset) := by
  have hepoch := epochId.toNat_lt
  have hoff := offset.toNat_lt
  have hmod : offset.toNat % 4096 < 4096 := Nat.mod_lt _ (by decide)
  rw [instantAt, show epochSecs.toNat = 128 from rfl, show ticksPerSec.toNat = 4096 from rfl,
    mul_eq (by omega), ok_bind, add_eq (by omega), ok_bind, mul_eq (by omega), ok_bind, pure_eq_ok]
  rfl

/-! ### Octets -/

/-- One octet of an escaped body. -/
def escapeByte (b : UInt8) : List Char :=
  if b = 0x5C then ['\\', '\\']
  else if 0x20 ≤ b ∧ b ≤ 0x7E then [Char.ofNat b.toNat]
  else '\\' :: 'x' :: upperHex b

/-- Render arbitrary octets as one printable string. -/
def escape (body : Bytes) : List Char := body.flatMap escapeByte

/-- Printable ASCII. -/
def IsPrintable (c : Char) : Prop := ' ' ≤ c ∧ c ≤ '~'

instance (c : Char) : Decidable (IsPrintable c) := inferInstanceAs (Decidable (_ ∧ _))

private theorem IsPlain.isPrintable {c : Char} (h : IsPlain c) : IsPrintable c := ⟨h.1, h.2.1⟩

/-- The octets an escaped body stands for. -/
def unescape : List Char → Bytes
  | '\\' :: '\\' :: rest => 0x5C :: unescape rest
  | '\\' :: 'x' :: a :: b :: rest => UInt8.ofNat (Hex.number [a, b]) :: unescape rest
  | c :: rest => UInt8.ofNat c.toNat :: unescape rest
  | [] => []

private theorem unescape_cons {c : Char} (h : c ≠ '\\') (rest : List Char) :
    unescape (c :: rest) = UInt8.ofNat c.toNat :: unescape rest := by
  rw [unescape]
  · rintro rest' rfl
    exact absurd rfl h
  · rintro a b rest' rfl
    exact absurd rfl h

theorem upperDigit_spec {n : ℕ} (h : n < 16) :
    Hex.value (upperDigit n).toNat = some n ∧ IsPlain (upperDigit n) := by
  interval_cases n <;> decide

theorem upperHex_spec (b : UInt8) :
    Hex.number (upperHex b) = b.toNat ∧ ∀ c ∈ upperHex b, IsPlain c := by
  have hb := b.toNat_lt
  obtain ⟨hhi, hhi'⟩ := @upperDigit_spec (b.toNat / 16) (by omega)
  obtain ⟨hlo, hlo'⟩ := @upperDigit_spec (b.toNat % 16) (by omega)
  refine ⟨?_, List.forall_mem_cons.mpr ⟨hhi', List.forall_mem_singleton.mpr hlo'⟩⟩
  rw [upperHex, Hex.number_pair hhi hlo]
  omega

private theorem toNat_ofNat_of_printable {b : UInt8} (h : 0x20 ≤ b ∧ b ≤ 0x7E) :
    (Char.ofNat b.toNat).toNat = b.toNat ∧ IsPrintable (Char.ofNat b.toNat) := by
  have hlo : 32 ≤ b.toNat := UInt8.le_iff_toNat_le.mp h.1
  have hhi : b.toNat ≤ 126 := UInt8.le_iff_toNat_le.mp h.2
  have hnat : (Char.ofNat b.toNat).toNat = b.toNat := by
    rw [Char.ofNat, dif_pos (.inl (by omega))]
    rfl
  refine ⟨hnat, Char.le_def.mpr (UInt32.le_iff_toNat_le.mpr ?_),
    Char.le_def.mpr (UInt32.le_iff_toNat_le.mpr ?_)⟩
  · exact hlo.trans_eq hnat.symm
  · exact hnat.le.trans hhi

/-- An octet escaped is printable, and read back. -/
theorem escapeByte_spec (b : UInt8) : (∀ c ∈ escapeByte b, IsPrintable c) ∧
    (escapeByte b).length ≤ 4 ∧ ∀ rest, unescape (escapeByte b ++ rest) = b :: unescape rest := by
  rw [escapeByte]
  split_ifs with hslash hprint
  · subst hslash
    exact ⟨List.forall_mem_cons.mpr ⟨by decide, List.forall_mem_singleton.mpr (by decide)⟩,
      by decide, fun rest => rfl⟩
  · have hnat := (toNat_ofNat_of_printable hprint).1
    have hchar := (toNat_ofNat_of_printable hprint).2
    refine ⟨List.forall_mem_singleton.mpr hchar, by rw [List.length_singleton]; decide,
      fun rest => ?_⟩
    have hne : Char.ofNat b.toNat ≠ '\\' := by
      intro h
      rw [h] at hnat
      exact hslash (UInt8.toNat_inj.mp hnat.symm)
    rw [List.singleton_append, unescape_cons hne, hnat, UInt8.ofNat_toNat]
  · obtain ⟨hnum, hplain⟩ := upperHex_spec b
    refine ⟨?_, le_rfl, fun rest => ?_⟩
    · rw [List.forall_mem_cons, List.forall_mem_cons]
      exact ⟨by decide, by decide, fun c hc => (hplain c hc).isPrintable⟩
    · have hread : unescape ('\\' :: 'x' :: upperHex b ++ rest) =
          UInt8.ofNat (Hex.number (upperHex b)) :: unescape rest := rfl
      rw [hread, hnum, UInt8.ofNat_toNat]

/-- **Escaping is lossless.** -/
theorem unescape_escape (body : Bytes) : unescape (escape body) = body := by
  induction body with
  | nil => rfl
  | cons b body ih => rw [escape, List.flatMap_cons, (escapeByte_spec b).2.2, ← escape, ih]

private theorem isPrintable_escape {body : Bytes} {c : Char} (h : c ∈ escape body) :
    IsPrintable c := by
  obtain ⟨b, -, hc⟩ := List.mem_flatMap.mp h
  exact (escapeByte_spec b).1 c hc

private theorem escapeByte_of_isPlain {c : Char} (h : IsPlain c) :
    escapeByte (UInt8.ofNat c.toNat) = [c] := by
  have hlo : 32 ≤ c.toNat := UInt32.le_iff_toNat_le.mp (Char.le_def.mp h.1)
  have hhi : c.toNat ≤ 126 := UInt32.le_iff_toNat_le.mp (Char.le_def.mp h.2.1)
  have hnat : (UInt8.ofNat c.toNat).toNat = c.toNat :=
    UInt8.toNat_ofNat_of_lt' (hhi.trans_lt (by decide))
  have hslash : UInt8.ofNat c.toNat ≠ 0x5C := by
    intro heq
    have heq' : c.toNat = '\\'.toNat := hnat.symm.trans (congrArg UInt8.toNat heq)
    exact h.2.2 (Char.toNat_inj.mp heq')
  rw [escapeByte, if_neg hslash, hnat, Char.ofNat_toNat, if_pos]
  exact ⟨UInt8.le_iff_toNat_le.mpr (hlo.trans_eq hnat.symm),
    UInt8.le_iff_toNat_le.mpr (hnat.le.trans hhi)⟩

/-- A plain text is its own escape. -/
theorem escape_asBytes {s : List Char} (h : ∀ c ∈ s, IsPlain c) : escape (asBytes s) = s := by
  rw [asBytes_of_isPlain h, escape, List.flatMap_map]
  refine (List.flatMap_congr fun c hc => escapeByte_of_isPlain (h c hc)).trans ?_
  exact List.flatMap_singleton' s

/-! ### Records -/

section Layouts

variable (F : Formatting) (body : Bytes)

/-- `i16::from_be_bytes([body[i], body[i + 1]])`. -/
def readI16 (i : ℕ) : Faulting Int16 := do return i16OfBe [← index body i, ← index body (i + 1)]

/-- `u16::from_be_bytes([body[i], body[i + 1]])`. -/
def readU16 (i : ℕ) : Faulting UInt16 := do return u16OfBe [← index body i, ← index body (i + 1)]

/-- No layout is claimed: show the octets and nothing else. -/
def renderUnstructured : List Char :=
  ["unstructured(".toList, padLeft 3 (decimal body.length), "B) \"".toList, escape body,
    ['"']].flatten

/-- Sensor tuple: temp, humidity, pressure, battery, rssi. -/
def renderSensor : Faulting (List Char) := do
  return ["temp=".toList, F.hundredths (← readI16 body 0), "C humidity=".toList,
    F.tenths (← readU16 body 2), "% pressure=".toList, F.tenths (← readU16 body 4),
    "hPa battery=".toList, decimal (← readU16 body 6).toNat, "% rssi=".toList,
    decimalInt (← readI16 body 8).toInt, "dBm".toList].flatten

/-- Event: seq, then a UTF-8 name. -/
def renderEvent : Faulting (List Char) := do
  return ["seq=".toList, padRight 5 (decimal (← readU16 body 0).toNat), [' '],
    F.fromUtf8Lossy (← slice body 2 body.length)].flatten

/-- Alarm: seq, severity length, severity, message. -/
def renderAlarm : Faulting (List Char) := do
  let n := (← index body 2).toNat
  if body.length < 3 + n then
    return ["MALFORMED alarm: severity length ".toList, decimal n, " overruns ".toList,
      decimal body.length, " bytes".toList].flatten
  else
    return ["seq=".toList, padRight 5 (decimal (← readU16 body 0).toNat), " [".toList,
      F.fromUtf8Lossy (← slice body 3 (3 + n)), "] ".toList,
      F.fromUtf8Lossy (← slice body (3 + n) body.length)].flatten

end Layouts

/-- Render a record body according to the layout its `(format, schema_version)` names. -/
def render (F : Formatting) (r : Record) : Faulting (List Char) :=
  let v := r.schemaVersion
  let isNone := r.format = Format.none.toU8
  if v = unstructured then return renderUnstructured r.body
  else if isNone ∧ v = sensorSchema ∧ 10 ≤ r.body.length then renderSensor F r.body
  else if isNone ∧ v = eventSchema ∧ 3 ≤ r.body.length then renderEvent F r.body
  else if isNone ∧ v = alarmSchema ∧ 3 ≤ r.body.length then renderAlarm F r.body
  else if isNone ∧ v ∈ [sensorSchema, eventSchema, alarmSchema] then
    return ["MALFORMED record for schema_version=".toList, decimal v.toNat, ": only ".toList,
      decimal r.body.length, " bytes".toList].flatten
  else
    return ["unhandled layout (format=0x".toList, upperHex r.format, ", schema_version=".toList,
      decimal v.toNat, "), ".toList, decimal r.body.length, " bytes".toList].flatten

variable {F : Formatting} {body : Bytes}

theorem render_new_unstructured (format : Format) (body : Bytes) :
    render F (.new format unstructured body) = .ok (renderUnstructured body) := by
  rw [render, Record.new, if_pos rfl]
  rfl

theorem render_new_sensor (h : 10 ≤ body.length) :
    render F (.new .none sensorSchema body) = renderSensor F body := by
  have hopaque : ¬sensorSchema = unstructured := by decide
  simp only [render, Record.new, hopaque, h, if_true, if_false, true_and]

theorem render_new_event (h : 3 ≤ body.length) :
    render F (.new .none eventSchema body) = renderEvent F body := by
  have hopaque : ¬eventSchema = unstructured := by decide
  have hsensor : ¬eventSchema = sensorSchema := by decide
  simp only [render, Record.new, hopaque, hsensor, h, if_true, if_false, false_and, and_false,
    true_and]

theorem render_new_alarm (h : 3 ≤ body.length) :
    render F (.new .none alarmSchema body) = renderAlarm F body := by
  have hopaque : ¬alarmSchema = unstructured := by decide
  have hsensor : ¬alarmSchema = sensorSchema := by decide
  have hevent : ¬alarmSchema = eventSchema := by decide
  simp only [render, Record.new, hopaque, hsensor, hevent, h, if_true, if_false, false_and,
    and_false, true_and]

private theorem readU16_append (x : UInt16) (rest : Bytes) :
    readU16 (u16ToBe x ++ rest) 0 = .ok x := by
  obtain ⟨a, b, hab⟩ := List.length_eq_two.mp (length_u16ToBe x)
  have hread : readU16 (u16ToBe x ++ rest) 0 = .ok (u16OfBe (u16ToBe x)) := by
    rw [hab]
    rfl
  rw [hread, u16OfBe_u16ToBe]

/-- An event as it is packed. -/
theorem renderEvent_eq (x : UInt16) {name : Bytes} (h : 1 ≤ name.length) :
    renderEvent F (u16ToBe x ++ name) = .ok
      ["seq=".toList, padRight 5 (decimal x.toNat), [' '], F.fromUtf8Lossy name].flatten := by
  have hlen : 2 ≤ (u16ToBe x ++ name).length := by
    rw [List.length_append, length_u16ToBe]
    omega
  rw [renderEvent, readU16_append, ok_bind, slice_to_end hlen, ok_bind,
    List.drop_left' (length_u16ToBe x), pure_eq_ok]

/-- An alarm as it is packed. -/
theorem renderAlarm_eq (x : UInt16) {severity message : Bytes} (h : severity.length < 256) :
    renderAlarm F (u16ToBe x ++ UInt8.ofNat severity.length :: severity ++ message) = .ok
      ["seq=".toList, padRight 5 (decimal x.toNat), " [".toList, F.fromUtf8Lossy severity,
        "] ".toList, F.fromUtf8Lossy message].flatten := by
  have hassoc : u16ToBe x ++ UInt8.ofNat severity.length :: severity ++ message =
      (u16ToBe x ++ [UInt8.ofNat severity.length]) ++ (severity ++ message) := by simp
  have hhead : (u16ToBe x ++ [UInt8.ofNat severity.length]).length = 3 := by
    rw [List.length_append, length_u16ToBe]
    rfl
  have hnat : (UInt8.ofNat severity.length).toNat = severity.length := UInt8.toNat_ofNat_of_lt' h
  have hseq : readU16 (u16ToBe x ++ UInt8.ofNat severity.length :: severity ++ message) 0 =
      .ok x := by
    rw [List.append_assoc]
    exact readU16_append _ _
  rw [hassoc] at hseq ⊢
  have hlen : ((u16ToBe x ++ [UInt8.ofNat severity.length]) ++ (severity ++ message)).length =
      3 + severity.length + message.length := by
    rw [List.length_append, hhead, List.length_append, Nat.add_assoc]
  have hindex : index ((u16ToBe x ++ [UInt8.ofNat severity.length]) ++ (severity ++ message)) 2 =
      .ok (UInt8.ofNat severity.length) := by
    rw [index, List.getElem?_append_left (by omega), List.getElem?_append_right (by simp)]
    simp
  have hdrop : ((u16ToBe x ++ [UInt8.ofNat severity.length]) ++ (severity ++ message)).drop 3 =
      severity ++ message := List.drop_left' hhead
  rw [renderAlarm, hindex, ok_bind]
  dsimp only
  rw [hnat, if_neg (by omega), hseq, ok_bind, slice_eq (by omega) (by omega), ok_bind,
    slice_to_end (by omega), ok_bind, pure_eq_ok, ← List.drop_drop, List.drop_take, hdrop,
    Nat.add_sub_cancel_left, List.take_left' rfl, List.drop_left' rfl]

/-- The name a message type is printed under. -/
def label : MsgType → List Char
  | .message => "MESSAGE".toList
  | .event => "EVENT".toList
  | .alarm => "ALARM".toList
  | .number => "NUMBER".toList
  | .series => "SERIES".toList
  | .epochAnnounce => "EPOCH".toList
  | .timeAnnounce => "TIME_ANN".toList
  | .timeRequest => "TIME_REQ".toList
  | .heartbeat => "HEARTBEAT".toList
  | .capabilityAdvertise => "CAPS".toList

/-- `{from}  {when}  {:<8} {}`. -/
def line (source moment name text : List Char) : List Char :=
  [source, "  ".toList, moment, "  ".toList, padRight 8 name, [' '], text].flatten

/-- The line of a record no layout is held for. -/
def skipLine (source : List Char) (r : Record) : List Char :=
  [source, "  SKIP record format=0x".toList, upperHex r.format, " schema_version=".toList,
    decimal r.schemaVersion.toNat, " (".toList, decimal r.body.length,
    " bytes) - no layout held".toList].flatten

/-- The lines printed of what an accepted datagram carries: each record of a record-framed type,
the value of a number, each reading of a series, or the size of a control payload. -/
def carriedLines (F : Formatting) (source moment : List Char) (acc : Accepted) :
    Faulting (List (List Char)) :=
  match MsgType.fromU8 acc.datagram.msgType with
  | some .number =>
    match acc.datagram.numberValue with
    | some (scale, mantissa) =>
      .ok [line source moment "NUMBER".toList (formatScaled F.double scale mantissa)]
    | none => .ok [line source moment "NUMBER".toList "MALFORMED".toList]
  | some .series =>
    match acc.datagram.seriesValues with
    | some (scale, readings) => readings.mapM fun r => do
      return line source (← instantAt acc.epochId r.1) "SERIES".toList
        (formatScaled F.double scale r.2)
    | none => .ok [line source moment "SERIES".toList "MALFORMED".toList]
  | some mt =>
    if mt = .message ∨ mt = .event ∨ mt = .alarm then
      acc.datagram.records.mapM fun r => do return line source moment (label mt) (← render F r)
    else
      .ok [line source moment (label mt)
        (['('] ++ decimal acc.datagram.raw.length ++ " bytes)".toList)]
  | none => .ok []

/-- The lines printed of an accepted datagram, received from `source`. -/
def report (F : Formatting) (source : List Char) (acc : Accepted) :
    Faulting (List (List Char)) := do
  let lines ← carriedLines F source (← instantAt acc.epochId acc.datagramOffset) acc
  return lines ++ acc.skipped.map (skipLine source)

/-- The octets an opaque record's text shows. -/
def readBack (text : List Char) : Bytes :=
  unescape ((text.dropWhile fun c => c ≠ 'B').drop 4).dropLast

private theorem mem_padLeft {n : ℕ} {s : List Char} {c : Char} (h : c ∈ padLeft n s) :
    c = ' ' ∨ c ∈ s := by
  rw [padLeft, List.leftpad, List.mem_append] at h
  exact h.imp List.eq_of_mem_replicate id

/-- What stands before the octets has no `B` but the one of the byte count. -/
private theorem readBack_renderUnstructured (body : Bytes) :
    readBack (renderUnstructured body) = body := by
  have hfront : ∀ c ∈ "unstructured(".toList ++ padLeft 3 (decimal body.length), c ≠ 'B' := by
    intro c hc
    rcases List.mem_append.mp hc with hc | hc
    · exact (by simp : ∀ c ∈ "unstructured(".toList, c ≠ 'B') c hc
    · rcases mem_padLeft hc with rfl | hc
      · decide
      · rintro rfl
        exact absurd (Nat.isDigit_of_mem_toDigits (by decide) (by decide) hc) (by decide)
  have htext : renderUnstructured body =
      ("unstructured(".toList ++ padLeft 3 (decimal body.length)) ++
        ('B' :: ')' :: ' ' :: '"' :: (escape body ++ ['"'])) := by
    unfold renderUnstructured
    simp
  rw [readBack, htext, List.dropWhile_append_of_pos (by simpa using hfront),
    List.dropWhile_cons_of_neg (by decide)]
  change unescape (escape body ++ ['"']).dropLast = body
  rw [List.dropLast_concat, unescape_escape]

/-- **An opaque record is shown losslessly.** Whatever octets a record of the reserved schema
version holds, under any format, it is shown as printable text from which they can be read back: no
field is read out of it, and no control character reaches the terminal. -/
theorem render_opaque_spec (F : Formatting) (r : Record) (h : r.schemaVersion = unstructured) :
    ∃ text, render F r = .ok text ∧ (∀ c ∈ text, IsPrintable c) ∧ readBack text = r.body := by
  refine ⟨renderUnstructured r.body, if_pos h, ?_, readBack_renderUnstructured r.body⟩
  have hsize : ∀ c ∈ padLeft 3 (decimal r.body.length), IsPrintable c := by
    intro c hc
    rcases mem_padLeft hc with rfl | hc
    · decide
    · exact (isPlain_decimal hc).isPrintable
  unfold renderUnstructured
  rw [List.forall_mem_flatten]
  iterate 5 rw [List.forall_mem_cons]
  exact ⟨by simp [IsPrintable], hsize, by simp [IsPrintable], fun c hc => isPrintable_escape hc,
    by simp [IsPrintable], nofun⟩

/-- An escape sequence, sent under `CBOR`. -/
theorem render_opaque_spec_escape :
    ∃ text, render exactFormatting ⟨0x02, 0xFF, [0x1B, 0x5B, 0x5C]⟩ = .ok text ∧
      (∀ c ∈ text, IsPrintable c) ∧ readBack text = [0x1B, 0x5B, 0x5C] :=
  render_opaque_spec exactFormatting ⟨0x02, 0xFF, [0x1B, 0x5B, 0x5C]⟩ rfl

end Catp.Demo
