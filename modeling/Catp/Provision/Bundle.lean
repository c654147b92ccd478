import Catp.Core.Crypto
import Catp.Provision.Digits
import Mathlib.Data.List.Forall2
import Mathlib.Data.List.Induction

/-!
# Provisioning bundles

`Bundle` of `src/provisioning.rs`: what a deployment hands to both ends of an association, as a
text of `key value` lines. `toText` writes it and `parse` reads it.

The parser goes through the lines and skips those that are blank or comments. Each of the others
gives an entry (`entry`), which sets a field found so far or adds a layout (`Found.put`). Only the
lines not skipped, without the white space around them, matter (`parse_congr`), and
`parse_eq_ok_iff` says what an accepted text is: every such line gives an entry, and the last entry
of each field is the bundle's.

The accepted language is larger than the written one. A later line for a single-valued field takes
the place of an earlier one (`Found.put`), and numbers are read by the standard library's parser,
which takes a sign. Nothing here rules this out: `parse_eq_ok_iff` says what the code does, and
`Catp.Provision.Documented` compares it with the documentation.

Errors carry the text of the source, with the unrecognized key quoted in it. The first one met is
reported, and the missing fields are looked for after the last line.
-/

namespace Catp.Provision

open Hex Text

/-- A bundle could not be produced or consumed. The file errors are left out. -/
inductive ProvisionError
  | format (msg : String)
  deriving DecidableEq, Repr

/-- One node's provisioning material: identity, secret, cipher selection, and the layouts it
(and its collector) use. -/
structure Bundle where
  senderId : UInt32
  deviceSecret : Vector UInt8 32
  cipherId : UInt8
  /-- `(format, schema_version)` pairs, in file order. -/
  layouts : List (UInt8 × UInt8)
  deriving DecidableEq

/-- `HEADER_COMMENT`, the first line of every bundle written. -/
def headerComment : List Char := "# CATP provisioning bundle v1".toList

/-- The two digits of a byte. -/
def hex2 (b : UInt8) : List Char := padded 2 b.toNat

/-- The keyword of the `sender_id` line. -/
def senderIdKey : List Char := "sender_id".toList

/-- The keyword of the `device_secret` line. -/
def deviceSecretKey : List Char := "device_secret".toList

/-- The keyword of the `cipher_id` line. -/
def cipherIdKey : List Char := "cipher_id".toList

/-- The keyword of a `layout` line, of which there may be any number. -/
def layoutKey : List Char := "layout".toList

namespace Bundle

/-- Render as the `key value` text format. -/
def toText (b : Bundle) : List Char :=
  headerComment ++ ['\n']
    ++ ("sender_id     ".toList ++ padded 8 b.senderId.toNat ++ ['\n'])
    ++ ("device_secret ".toList ++ b.deviceSecret.toList.flatMap hex2 ++ ['\n'])
    ++ ("cipher_id     ".toList ++ hex2 b.cipherId ++ ['\n'])
    ++ b.layouts.flatMap fun p =>
      "layout        ".toList ++ hex2 p.1 ++ [' '] ++ hex2 p.2 ++ ['\n']

end Bundle

/-! ### The parser -/

/-- A format error with this text. -/
def bad (msg : String) : ProvisionError := .format msg

/-- `ok_or_else(|| bad(msg))`. -/
def orBad {α : Type*} (x : Option α) (msg : String) : Except ProvisionError α :=
  match x with
  | some a => .ok a
  | none => .error (bad msg)

/-- What one line of a bundle says. -/
inductive Entry
  | senderId (x : UInt32)
  | deviceSecret (x : Vector UInt8 32)
  | cipherId (x : UInt8)
  | layout (p : UInt8 × UInt8)
  deriving DecidableEq

namespace Entry

/-- The `sender_id` an entry sets, if it sets one; the like for the other fields. -/
def asSenderId : Entry → Option UInt32
  | senderId x => some x
  | _ => none

/-- The secret an entry sets, if it sets one. -/
def asDeviceSecret : Entry → Option (Vector UInt8 32)
  | deviceSecret x => some x
  | _ => none

/-- The suite an entry sets, if it sets one. -/
def asCipherId : Entry → Option UInt8
  | cipherId x => some x
  | _ => none

/-- The layout an entry adds, if it adds one. -/
def asLayout : Entry → Option (UInt8 × UInt8)
  | layout p => some p
  | _ => none

end Entry

/-- The fields found so far. -/
structure Found where
  senderId : Option UInt32
  deviceSecret : Option (Vector UInt8 32)
  cipherId : Option UInt8
  layouts : List (UInt8 × UInt8)

namespace Found

/-- Nothing found yet. -/
def empty : Found := ⟨none, none, none, []⟩

/-- An entry overwrites the field it sets; a layout is appended. -/
def put (f : Found) : Entry → Found
  | .senderId x => { f with senderId := some x }
  | .deviceSecret x => { f with deviceSecret := some x }
  | .cipherId x => { f with cipherId := some x }
  | .layout p => { f with layouts := f.layouts ++ [p] }

/-- A field that each entry sets or leaves is what the last entry setting it says. -/
private theorem foldl_put_eq {α : Type} (get : Found → Option α) (as : Entry → Option α)
    (h : ∀ f e, get (f.put e) = (as e).or (get f)) (es : List Entry) (f : Found) :
    get (es.foldl put f) = ((es.filterMap as).getLast?).or (get f) := by
  induction es using List.reverseRecOn with
  | nil => rfl
  | append_singleton es e ih =>
    rw [List.foldl_append, List.foldl_cons, List.foldl_nil, h, ih, List.filterMap_append]
    rcases has : as e with _ | a <;> simp [has]

private theorem foldl_put_layouts (es : List Entry) (f : Found) :
    (es.foldl put f).layouts = f.layouts ++ es.filterMap Entry.asLayout := by
  induction es generalizing f with
  | nil => rw [List.foldl_nil, List.filterMap_nil, List.append_nil]
  | cons e es ih =>
    rw [List.foldl_cons, ih, List.filterMap_cons]
    cases e <;> simp [put, Entry.asLayout]

end Found

/-- The 32 bytes of a secret. -/
def secretOf (rest : List Char) : Except ProvisionError (Vector UInt8 32) := do
  let bytes ← orBad (parseHexBytes rest) "device_secret is not valid hex"
  if h : bytes.length = 32 then .ok ⟨bytes.toArray, h⟩
  else .error (bad "device_secret must be exactly 32 bytes (64 hex digits)")

/-- The two bytes of a layout line. -/
def layoutOf (rest : List Char) : Except ProvisionError (UInt8 × UInt8) :=
  match words isWhitespace rest with
  | [] => .error (bad "layout line needs a format byte")
  | [_] => .error (bad "layout line needs a schema_version byte")
  | [format, schemaVersion] => do
    let format ← orBad (u8FromStrRadix format) "layout format is not hex"
    let schemaVersion ← orBad (u8FromStrRadix schemaVersion) "layout schema_version is not hex"
    .ok (format, schemaVersion)
  | _ => .error (bad "layout line has more than two fields")

/-- What a key and the text behind it say. -/
def entry (key rest : List Char) : Except ProvisionError Entry :=
  if key = senderIdKey then
    .senderId <$> orBad (u32FromStrRadix rest) "sender_id is not 8 hex digits"
  else if key = deviceSecretKey then .deviceSecret <$> secretOf rest
  else if key = cipherIdKey then
    .cipherId <$> orBad (u8FromStrRadix rest) "cipher_id is not 2 hex digits"
  else if key = layoutKey then .layout <$> layoutOf rest
  else .error (bad ("unrecognized field '" ++ String.ofList key ++ "'"))

/-- A trimmed line that the parser passes over. -/
def skipped (l : List Char) : Bool := l.isEmpty || l.head? == some '#'

/-- What a trimmed line says: its key is what stands before the first white space. -/
def entryOf (l : List Char) : Except ProvisionError Entry :=
  let (key, rest) := splitFirst isWhitespace l
  entry key (trim isWhitespace (rest.getD []))

/-- The fields after a trimmed line that is not passed over. -/
def putLine (f : Found) (l : List Char) : Except ProvisionError Found := f.put <$> entryOf l

/-- One step of the loop over the lines: comments and blank lines are skipped. -/
def parseLine (f : Found) (line : List Char) : Except ProvisionError Found :=
  let line := trim isWhitespace line
  if skipped line then .ok f else putLine f line

/-- The bundle of the fields found. -/
def Found.finish (f : Found) : Except ProvisionError Bundle := do
  let senderId ← orBad f.senderId "missing sender_id"
  let deviceSecret ← orBad f.deviceSecret "missing device_secret"
  let cipherId ← orBad f.cipherId "missing cipher_id"
  .ok ⟨senderId, deviceSecret, cipherId, f.layouts⟩

/-- Parse the text format. Rejects anything the format doesn't expect rather than silently
defaulting it. -/
def Bundle.parse (s : List Char) : Except ProvisionError Bundle := do
  let f ← (lines '\n' '\r' s).foldlM parseLine .empty
  f.finish

/-! ### The lines that matter -/

/-- The lines that are neither blank nor comments, without the white space around them. -/
def kept (ls : List (List Char)) : List (List Char) :=
  (ls.map (trim isWhitespace)).filter fun l => !skipped l

/-- The kept lines of a text. -/
def significant (s : List Char) : List (List Char) := kept (lines '\n' '\r' s)

private theorem foldlM_parseLine (f : Found) (ls : List (List Char)) :
    ls.foldlM parseLine f = (kept ls).foldlM putLine f := by
  induction ls generalizing f with
  | nil => rfl
  | cons l ls ih =>
    rw [List.foldlM_cons, kept, List.map_cons, List.filter_cons]
    by_cases hskip : skipped (trim isWhitespace l) = true
    · rw [show parseLine f l = .ok f from if_pos hskip, hskip]
      exact ih f
    · rw [show parseLine f l = putLine f (trim isWhitespace l) from if_neg hskip]
      simp only [hskip, Bool.not_false, if_true, List.foldlM_cons, ih, kept]

private theorem foldlM_lines (f : Found) (s : List Char) :
    (lines '\n' '\r' s).foldlM parseLine f = (significant s).foldlM putLine f :=
  foldlM_parseLine f _

/-- The bundle, or the error, depends on the significant lines only. -/
theorem parse_congr {s s' : List Char} (h : significant s = significant s') :
    Bundle.parse s = Bundle.parse s' := by
  rw [Bundle.parse, foldlM_lines, h, ← foldlM_lines, Bundle.parse]

theorem foldlM_putLine_eq_ok_iff {f g : Found} {ls : List (List Char)} :
    ls.foldlM putLine f = .ok g ↔
      ∃ es, List.Forall₂ (fun l e => entryOf l = .ok e) ls es ∧ es.foldl Found.put f = g := by
  induction ls generalizing f with
  | nil =>
    constructor
    · intro h
      cases h
      exact ⟨[], .nil, rfl⟩
    · rintro ⟨es, hes, rfl⟩
      cases hes
      rfl
  | cons l ls ih =>
    rw [List.foldlM_cons, putLine]
    rcases hl : entryOf l with err | e
    · constructor
      · intro h
        cases h
      · rintro ⟨es, hes, -⟩
        cases hes with
        | cons he _ => cases hl.symm.trans he
    · rw [show (f.put <$> Except.ok e >>= fun f' => ls.foldlM putLine f') =
        ls.foldlM putLine (f.put e) from rfl, ih]
      constructor
      · rintro ⟨es, hes, hg⟩
        exact ⟨e :: es, .cons hl hes, hg⟩
      · rintro ⟨es, hes, hg⟩
        cases hes with
        | cons he hes =>
          cases hl.symm.trans he
          exact ⟨_, hes, hg⟩

theorem orBad_eq_ok_iff {α : Type} {x : Option α} {msg : String} {a : α} :
    orBad x msg = .ok a ↔ x = some a := by
  rcases x with _ | b <;> simp [orBad]

theorem bind_eq_ok_iff {ε α β : Type} {x : Except ε α} {f : α → Except ε β} {b : β} :
    x >>= f = .ok b ↔ ∃ a, x = .ok a ∧ f a = .ok b := by
  constructor
  · intro h
    rcases x with err | a
    · cases h
    · exact ⟨a, rfl, h⟩
  · rintro ⟨a, rfl, h⟩
    exact h

theorem map_eq_ok_iff {ε α β : Type} {f : α → β} {x : Except ε α} {b : β} :
    f <$> x = .ok b ↔ ∃ a, x = .ok a ∧ f a = b := by
  rcases x with err | a <;> simp

theorem Found.finish_eq_ok_iff {f : Found} {b : Bundle} :
    f.finish = .ok b ↔ f.senderId = some b.senderId ∧ f.deviceSecret = some b.deviceSecret ∧
      f.cipherId = some b.cipherId ∧ f.layouts = b.layouts := by
  obtain ⟨sender, secret, cipher, layouts⟩ := b
  simp only [finish, bind_eq_ok_iff, orBad_eq_ok_iff, Except.ok.injEq, Bundle.mk.injEq]
  constructor
  · rintro ⟨_, h1, _, h2, _, h3, rfl, rfl, rfl, h4⟩
    exact ⟨h1, h2, h3, h4⟩
  · rintro ⟨h1, h2, h3, h4⟩
    exact ⟨_, h1, _, h2, _, h3, rfl, rfl, rfl, h4⟩

/-- **The accepted texts.** Every significant line gives an entry. The last one of each
single-valued field is the bundle's, and the layouts are those of the lines, in order. -/
theorem parse_eq_ok_iff {s : List Char} {b : Bundle} :
    Bundle.parse s = .ok b ↔
      ∃ es, List.Forall₂ (fun l e => entryOf l = .ok e) (significant s) es ∧
        (es.filterMap Entry.asSenderId).getLast? = some b.senderId ∧
        (es.filterMap Entry.asDeviceSecret).getLast? = some b.deviceSecret ∧
        (es.filterMap Entry.asCipherId).getLast? = some b.cipherId ∧
        es.filterMap Entry.asLayout = b.layouts := by
  have hfinish : ∀ es : List Entry, (es.foldl Found.put .empty).finish = .ok b ↔
      (es.filterMap Entry.asSenderId).getLast? = some b.senderId ∧
      (es.filterMap Entry.asDeviceSecret).getLast? = some b.deviceSecret ∧
      (es.filterMap Entry.asCipherId).getLast? = some b.cipherId ∧
      es.filterMap Entry.asLayout = b.layouts := fun es => by
    rw [Found.finish_eq_ok_iff, Found.foldl_put_layouts,
      Found.foldl_put_eq Found.senderId Entry.asSenderId (by intro f e; cases e <;> rfl),
      Found.foldl_put_eq Found.deviceSecret Entry.asDeviceSecret (by intro f e; cases e <;> rfl),
      Found.foldl_put_eq Found.cipherId Entry.asCipherId (by intro f e; cases e <;> rfl)]
    simp [Found.empty]
  rw [Bundle.parse, foldlM_lines]
  constructor
  · intro h
    rcases hfold : (significant s).foldlM putLine .empty with err | f
    · rw [hfold] at h
      cases h
    · rw [hfold] at h
      obtain ⟨es, hes, rfl⟩ := foldlM_putLine_eq_ok_iff.mp hfold
      exact ⟨es, hes, (hfinish es).mp h⟩
  · rintro ⟨es, hes, hb⟩
    rw [foldlM_putLine_eq_ok_iff.mpr ⟨es, hes, rfl⟩]
    exact (hfinish es).mpr hb

end Catp.Provision
