import Catp.Core.Registry

/-!
# Control payloads

`src/control.rs`: control messages are not record-framed, each has one fixed layout identified
by the message type alone. `Control.exists_parse_iff` restates what `parse` accepts as a
condition on the length of the payload and its counts, and `Control.parse_eq_ok_iff` says that it
is the inverse of `encode`.

* Four types have a layout, and `parse` takes their payloads apart by the type alone. What it
  makes of a type without one is an error, and `Control.Layout` is false of it.
* A capability is counted twice: each list stands behind its length in one octet, and the payload
  has to end where the second one does. `Capability.CountsExact` says so by positions, and
  `Capability.exists_parse_iff_length` by the two octets read.
* `asChunks2` splits a payload into pairs, and `pairBytes` writes them; on an even number of
  octets each undoes the other (`asChunks2_pairBytes`, `exists_pairBytes`).

As `parse` is the inverse of `encode`, a payload has at most one reading and a message at most one
payload. `encode` fails only for a capability with more than 255 suites or layouts.
-/

namespace Catp

/-- `as_chunks::<2>()`: the whole pairs, and the byte left over. -/
def asChunks2 : Bytes → List (UInt8 × UInt8) × Bytes
  | a :: b :: rest => ((a, b) :: (asChunks2 rest).1, (asChunks2 rest).2)
  | rest => ([], rest)

/-- Body of a `CAPABILITY_ADVERTISE`. -/
structure Capability where
  maxVersion : UInt8
  ciphers : Bytes
  /-- `(format, schema_version)` pairs the sender can produce. -/
  layouts : List (UInt8 × UInt8)
  deriving DecidableEq, Repr

namespace Capability

/-- `Capability::encode`: each list behind its length in one byte. -/
def encode (c : Capability) : Except Error Bytes :=
  if c.ciphers.length > 255 || c.layouts.length > 255 then
    .error (.framing "capability list longer than 255")
  else
    .ok (c.maxVersion :: UInt8.ofNat c.ciphers.length :: c.ciphers ++
      UInt8.ofNat c.layouts.length :: c.layouts.flatMap fun l => [l.1, l.2])

/-- `Capability::parse`: the two counts have to account for every byte. -/
def parse (p : Bytes) : Except Error Capability :=
  if p.length < 3 then .error (.framing "CAPABILITY_ADVERTISE shorter than 3 bytes")
  else
    let maxVersion := p[0]!
    let nc := p[1]!.toNat
    if p.length < 2 + nc + 1 then .error (.framing "cipher list overruns payload")
    else
      let ciphers := (p.take (2 + nc)).drop 2
      let nl := p[2 + nc]!.toNat
      if p.length ≠ 3 + nc + nl * 2 then
        .error (.framing "CAPABILITY_ADVERTISE length mismatch")
      else .ok ⟨maxVersion, ciphers, (asChunks2 (p.drop (3 + nc))).1⟩

end Capability

/-- A parsed control payload. -/
inductive Control
  /-- `EPOCH_ANNOUNCE`: asserts an absolute epoch. -/
  | epochAnnounce (targetEpoch : UInt32)
  /-- `TIME_ANNOUNCE`: cold-start time. -/
  | timeAnnounce (assertedTime : Int64)
  /-- `HEARTBEAT`: empty payload. -/
  | heartbeat
  /-- `CAPABILITY_ADVERTISE`: advisory. -/
  | capability (c : Capability)
  deriving DecidableEq, Repr

namespace Control

/-- Parse a verified control payload according to `msg_type`. -/
def parse (mt : MsgType) (p : Bytes) : Except Error Control :=
  match mt with
  | .epochAnnounce =>
    if p.length ≠ 4 then .error (.framing "EPOCH_ANNOUNCE payload is not 4 bytes")
    else .ok (.epochAnnounce (u32OfBe p))
  | .timeAnnounce =>
    if p.length ≠ 8 then .error (.framing "TIME_ANNOUNCE payload is not 8 bytes")
    else .ok (.timeAnnounce (i64OfBe p))
  | .heartbeat =>
    if !p.isEmpty then .error (.framing "HEARTBEAT payload is not empty") else .ok .heartbeat
  | .capabilityAdvertise => (Capability.parse p).map .capability
  | _ => .error (.framing "not a control message type")

/-- The payload of a control message. -/
def encode : Control → Except Error Bytes
  | epochAnnounce targetEpoch => .ok (u32ToBe targetEpoch)
  | timeAnnounce assertedTime => .ok (i64ToBe assertedTime)
  | heartbeat => .ok []
  | capability c => c.encode

/-- The type a control message is sent under. -/
def msgType : Control → MsgType
  | epochAnnounce _ => .epochAnnounce
  | timeAnnounce _ => .timeAnnounce
  | heartbeat => .heartbeat
  | capability _ => .capabilityAdvertise

end Control

/-! ### The accepted payloads -/

/-- The counts of a `CAPABILITY_ADVERTISE` payload account for its length. -/
def Capability.CountsExact (p : Bytes) : Prop :=
  3 ≤ p.length ∧ 2 + p[1]!.toNat < p.length ∧
    p.length = 3 + p[1]!.toNat + p[2 + p[1]!.toNat]!.toNat * 2

/-- A capability parses exactly if its two counts account for the payload. -/
theorem Capability.exists_parse_iff {p : Bytes} :
    (∃ c, Capability.parse p = .ok c) ↔ CountsExact p := by
  simp only [CountsExact, parse]
  split_ifs with h3 hnc hlen
  · exact ⟨nofun, fun h => absurd h.1 (by omega)⟩
  · exact ⟨nofun, fun h => absurd h.2.1 (by omega)⟩
  · exact ⟨nofun, fun h => absurd h.2.2 hlen⟩
  · exact ⟨fun _ => ⟨by omega, by omega, not_not.mp hlen⟩, fun _ => ⟨_, rfl⟩⟩

/-- The layout of each control type, as a condition on the payload. -/
def Control.Layout (mt : MsgType) (p : Bytes) : Prop :=
  match mt with
  | .epochAnnounce => p.length = 4
  | .timeAnnounce => p.length = 8
  | .heartbeat => p = []
  | .capabilityAdvertise => Capability.CountsExact p
  | _ => False

instance : (mt : MsgType) → (p : Bytes) → Decidable (Control.Layout mt p)
  | .epochAnnounce, p => inferInstanceAs (Decidable (p.length = 4))
  | .timeAnnounce, p => inferInstanceAs (Decidable (p.length = 8))
  | .heartbeat, p => inferInstanceAs (Decidable (p = []))
  | .capabilityAdvertise, _ => inferInstanceAs (Decidable (_ ∧ _))
  | .message, _ | .event, _ | .alarm, _ | .number, _ | .series, _ | .timeRequest, _ =>
    inferInstanceAs (Decidable False)

/-- `parse` accepts a payload exactly when it has the layout of its type. -/
theorem Control.exists_parse_iff {mt : MsgType} {p : Bytes} :
    (∃ c, Control.parse mt p = .ok c) ↔ Control.Layout mt p := by
  cases mt with
  | epochAnnounce =>
    rw [parse, Layout]
    split_ifs with h
    · exact ⟨nofun, fun h' => absurd h' h⟩
    · exact ⟨fun _ => not_not.mp h, fun _ => ⟨_, rfl⟩⟩
  | timeAnnounce =>
    rw [parse, Layout]
    split_ifs with h
    · exact ⟨nofun, fun h' => absurd h' h⟩
    · exact ⟨fun _ => not_not.mp h, fun _ => ⟨_, rfl⟩⟩
  | heartbeat => cases p <;> simp [parse, Layout]
  | capabilityAdvertise =>
    rw [parse, Layout, ← Capability.exists_parse_iff]
    cases Capability.parse p <;> simp [Except.map]
  | message | event | alarm | number | series | timeRequest => exact ⟨nofun, nofun⟩

/-! ### Parsing inverts encoding -/

/-- The pairs, one byte after the other. -/
def pairBytes (ls : List (UInt8 × UInt8)) : Bytes := ls.flatMap fun l => [l.1, l.2]

@[simp] theorem pairBytes_nil : pairBytes [] = [] := rfl

@[simp] theorem pairBytes_cons (l : UInt8 × UInt8) (ls : List (UInt8 × UInt8)) :
    pairBytes (l :: ls) = l.1 :: l.2 :: pairBytes ls := rfl

private theorem length_pairBytes (ls : List (UInt8 × UInt8)) :
    (pairBytes ls).length = ls.length * 2 := by
  induction ls with
  | nil => rfl
  | cons l ls ih =>
    rw [pairBytes_cons, List.length_cons, List.length_cons, List.length_cons, ih]
    omega

/-- The pairs are read back, with nothing left over. -/
theorem asChunks2_pairBytes (ls : List (UInt8 × UInt8)) : asChunks2 (pairBytes ls) = (ls, []) := by
  induction ls with
  | nil => rfl
  | cons l ls ih => rw [pairBytes_cons, asChunks2, ih]

/-- An even number of bytes is the bytes of as many pairs as half of it. -/
theorem exists_pairBytes {p : Bytes} {n : ℕ} (h : p.length = n * 2) :
    ∃ ls, p = pairBytes ls ∧ ls.length = n := by
  induction n generalizing p with
  | zero => exact ⟨[], List.length_eq_zero_iff.mp (by omega), rfl⟩
  | succ n ih =>
    rw [Nat.succ_mul] at h
    obtain ⟨a, p, rfl⟩ := List.exists_cons_of_length_eq_add_one h
    obtain ⟨b, p, rfl⟩ := List.exists_cons_of_length_eq_add_one (Nat.succ.inj h)
    obtain ⟨ls, rfl, rfl⟩ := ih (Nat.succ.inj (Nat.succ.inj h))
    exact ⟨(a, b) :: ls, rfl, rfl⟩

namespace Capability

variable {c : Capability} {p : Bytes}

/-- Encoding fails exactly when a list does not fit its count. -/
theorem encode_eq_ok_iff : c.encode = .ok p ↔ c.ciphers.length ≤ 255 ∧ c.layouts.length ≤ 255 ∧
    p = c.maxVersion :: UInt8.ofNat c.ciphers.length :: (c.ciphers ++
      UInt8.ofNat c.layouts.length :: pairBytes c.layouts) := by
  rw [encode]
  split_ifs with hlong <;> simp only [Bool.or_eq_true, decide_eq_true_eq] at hlong
  · exact ⟨nofun, fun h => by omega⟩
  · rw [Except.ok.injEq]
    exact ⟨fun h => ⟨by omega, by omega, h.symm⟩, fun h => h.2.2.symm⟩

/-- A capability is refused exactly if a list is too long for its count. -/
theorem exists_encode_error_iff : (∃ e, c.encode = .error e) ↔
    255 < c.ciphers.length ∨ 255 < c.layouts.length := by
  rw [encode]
  split_ifs with hlong <;> simp only [Bool.or_eq_true, decide_eq_true_eq] at hlong
  · exact iff_of_true ⟨_, rfl⟩ hlong
  · exact iff_of_false (fun ⟨_, he⟩ => by cases he) hlong

/-- The reads of a payload that is long enough for its ciphers. -/
private theorem parse_append {v nc nl : UInt8} {ciphers tail : Bytes}
    (h : ciphers.length = nc.toNat) :
    parse (v :: nc :: (ciphers ++ nl :: tail)) =
      if tail.length ≠ nl.toNat * 2 then .error (.framing "CAPABILITY_ADVERTISE length mismatch")
      else .ok ⟨v, ciphers, (asChunks2 tail).1⟩ := by
  have hlen : (v :: nc :: (ciphers ++ nl :: tail)).length = 3 + nc.toNat + tail.length := by
    rw [List.length_cons, List.length_cons, List.length_append, List.length_cons, h]
    omega
  have hnl : (v :: nc :: (ciphers ++ nl :: tail))[2 + nc.toNat]! = nl := by
    rw [show 2 + nc.toNat = nc.toNat + 1 + 1 by omega, List.getElem!_cons_succ,
      List.getElem!_cons_succ, ← h, List.getElem!_eq_getElem?_getD,
      List.getElem?_append_right (Nat.le_refl _), Nat.sub_self]
    rfl
  have htail : (v :: nc :: (ciphers ++ nl :: tail)).drop (3 + nc.toNat) = tail := by
    rw [show 3 + nc.toNat = nc.toNat + 1 + 1 + 1 by omega, List.drop_succ_cons,
      List.drop_succ_cons, ← h, List.drop_append, List.drop_of_length_le (by omega)]
    simp
  have hciphers : ((v :: nc :: (ciphers ++ nl :: tail)).take (2 + nc.toNat)).drop 2 = ciphers := by
    rw [show 2 + nc.toNat = nc.toNat + 1 + 1 by omega, List.take_succ_cons, List.take_succ_cons,
      List.drop_succ_cons, List.drop_succ_cons, List.drop_zero, ← h, List.take_left]
  simp only [parse]
  rw [if_neg (by omega), if_neg (by
    rw [hlen]
    exact Nat.not_lt.mpr (by simp; omega))]
  simp only [List.getElem!_cons_succ, List.getElem!_cons_zero, hnl, htail, hciphers, hlen]
  exact if_congr (not_congr (by omega)) rfl rfl

/-- A payload long enough for its ciphers, taken apart at its counts. -/
private theorem exists_append (h2 : 2 ≤ p.length) (hnc : 2 + p[1]!.toNat < p.length) :
    ∃ v nc nl ciphers tail, p = v :: nc :: (ciphers ++ nl :: tail) ∧
      ciphers.length = nc.toNat := by
  obtain ⟨v, p, rfl⟩ := List.exists_cons_of_length_pos (Nat.lt_of_lt_of_le Nat.two_pos h2)
  obtain ⟨nc, p, rfl⟩ :=
    List.exists_cons_of_length_pos (Nat.lt_of_succ_le (Nat.le_of_succ_le_succ h2))
  have hlt : nc.toNat < p.length := by
    simp only [List.getElem!_cons_succ, List.getElem!_cons_zero, List.length_cons] at hnc
    omega
  refine ⟨v, nc, p[nc.toNat], p.take nc.toNat, p.drop (nc.toNat + 1), ?_, ?_⟩
  · rw [← List.drop_eq_getElem_cons hlt, List.take_append_drop]
  · exact List.length_take_of_le hlt.le

/-- **`parse` is the inverse of `encode`.** -/
theorem parse_eq_ok_iff : parse p = .ok c ↔ c.encode = .ok p := by
  rw [encode_eq_ok_iff]
  constructor
  · intro h
    obtain ⟨h3, hnc, -⟩ := exists_parse_iff.mp ⟨c, h⟩
    obtain ⟨v, nc, nl, ciphers, tail, rfl, hciphers⟩ := exists_append (by omega) hnc
    rw [parse_append hciphers] at h
    split_ifs at h with hlen
    obtain ⟨layouts, rfl, hlayouts⟩ := exists_pairBytes (not_not.mp hlen)
    obtain rfl := Except.ok.inj h
    have := nc.toNat_lt
    have := nl.toNat_lt
    rw [asChunks2_pairBytes, hciphers, hlayouts, UInt8.ofNat_toNat, UInt8.ofNat_toNat]
    exact ⟨by omega, by omega, rfl⟩
  · rintro ⟨hciphers, hlayouts, rfl⟩
    have hnc : (UInt8.ofNat c.ciphers.length).toNat = c.ciphers.length :=
      UInt8.toNat_ofNat_of_lt' (Nat.lt_succ_of_le hciphers)
    have hnl : (UInt8.ofNat c.layouts.length).toNat = c.layouts.length :=
      UInt8.toNat_ofNat_of_lt' (Nat.lt_succ_of_le hlayouts)
    rw [parse_append hnc.symm, asChunks2_pairBytes, if_neg]
    rw [length_pairBytes, hnl]
    exact not_not.mpr rfl

/-- **The accepted lengths.** Both counts are read within the payload. -/
theorem exists_parse_iff_length : (∃ c, parse p = .ok c) ↔
    ∃ nc nl : UInt8, p[1]? = some nc ∧ p[2 + nc.toNat]? = some nl ∧
      p.length = 3 + nc.toNat + 2 * nl.toNat := by
  rw [exists_parse_iff]
  constructor
  · rintro ⟨h3, hnc, hlen⟩
    refine ⟨p[1]!, p[2 + p[1]!.toNat]!, ?_, ?_, by omega⟩
    · rw [List.getElem!_eq_getElem?_getD, List.getElem?_eq_getElem (by omega)]
      rfl
    · rw [List.getElem!_eq_getElem?_getD (i := 2 + p[1]!.toNat), List.getElem?_eq_getElem hnc]
      rfl
  · rintro ⟨nc, nl, hnc, hnl, hlen⟩
    have hnc' : p[1]! = nc := by rw [List.getElem!_eq_getElem?_getD, hnc]; rfl
    have hnl' : p[2 + nc.toNat]! = nl := by rw [List.getElem!_eq_getElem?_getD, hnl]; rfl
    rw [CountsExact, hnc', hnl']
    omega

end Capability

/-- **`parse` is the inverse of `encode`** for the type of the control message. -/
theorem Control.parse_eq_ok_iff {mt : MsgType} {p : Bytes} {c : Control} :
    Control.parse mt p = .ok c ↔ c.msgType = mt ∧ c.encode = .ok p := by
  constructor
  · intro h
    have hlayout := exists_parse_iff.mp ⟨c, h⟩
    cases mt with
    | epochAnnounce =>
      rw [Layout] at hlayout
      rw [parse, if_neg (not_not.mpr hlayout)] at h
      obtain rfl := Except.ok.inj h
      exact ⟨rfl, congrArg Except.ok (u32ToBe_u32OfBe hlayout)⟩
    | timeAnnounce =>
      rw [Layout] at hlayout
      rw [parse, if_neg (not_not.mpr hlayout)] at h
      obtain rfl := Except.ok.inj h
      exact ⟨rfl, congrArg Except.ok (i64ToBe_i64OfBe hlayout)⟩
    | heartbeat =>
      obtain rfl : p = [] := hlayout
      obtain rfl := Except.ok.inj h
      exact ⟨rfl, rfl⟩
    | capabilityAdvertise =>
      rw [parse] at h
      rcases hcap : Capability.parse p with e | cap
      · rw [hcap] at h
        cases h
      · rw [hcap] at h
        obtain rfl := Except.ok.inj h
        exact ⟨rfl, Capability.parse_eq_ok_iff.mp hcap⟩
    | message | event | alarm | number | series | timeRequest => cases h
  · rintro ⟨rfl, h⟩
    cases c with
    | epochAnnounce e =>
      obtain rfl := Except.ok.inj h
      rw [msgType, parse, if_neg (not_not.mpr (length_u32ToBe e)), u32OfBe_u32ToBe]
    | timeAnnounce t =>
      obtain rfl := Except.ok.inj h
      rw [msgType, parse, if_neg (not_not.mpr (length_i64ToBe t)), i64OfBe_i64ToBe]
    | heartbeat =>
      obtain rfl := Except.ok.inj h
      rfl
    | capability cap => rw [msgType, parse, Capability.parse_eq_ok_iff.mpr h]; rfl

end Catp
