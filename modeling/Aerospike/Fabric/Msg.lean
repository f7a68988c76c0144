import Aerospike.Lib.Bytes

/-! # Fabric messages

`msg.c` keeps a message as one slot per field id of its registered template.
`msg_to_wire` writes a 6-byte header (the body size, then the message type, both
big-endian) and one record per set field: the 16-bit id, the 8-bit wire type,
and either a fixed 4- or 8-byte integer or a 4-byte length followed by that many
bytes. `msg_parse` walks such records, skips those whose id or wire type does not
match the template, and points buffer fields into the parsed buffer.

Memory is a function from addresses to bytes: a buffer field holds the address
its `any_buf` points at, and the parser reads the buffer it is given through the
same function.
-/

namespace Aerospike.Fabric

open Bytes

/-- `msg_field_type`; `msg.h` fixes the values used on the wire. -/
inductive MsgFieldType
  | uint32 | unused2 | uint64 | unused4 | str | buf | arrayUint32 | arrayUint64
  | arrayBuf | arrayStr | msgpack
  deriving DecidableEq, Repr

namespace MsgFieldType

def code : MsgFieldType → UInt8
  | uint32 => 1 | unused2 => 2 | uint64 => 3 | unused4 => 4 | str => 5 | buf => 6
  | arrayUint32 => 7 | arrayUint64 => 8 | arrayBuf => 9 | arrayStr => 10 | msgpack => 11

def isBuffer : MsgFieldType → Bool
  | str | buf | arrayUint32 | arrayUint64 | arrayBuf | arrayStr | msgpack => true
  | uint32 | unused2 | uint64 | unused4 => false

end MsgFieldType

/-- The wire value of a template slot; a slot the template does not list was
zeroed by `cf_calloc`. -/
def typeCode : Option MsgFieldType → UInt8
  | some t => t.code
  | none => 0

structure MsgTemplate where
  id : UInt16
  type : MsgFieldType

/-- `msg_type_entry`: the template table indexed by field id, at most `2^16`
slots since `entry_count` is a `uint16_t`. -/
structure MsgTypeEntry where
  mt : List (Option MsgFieldType)
  mt_length_lt : mt.length < 2 ^ 16

theorem length_foldl_set (mt : List MsgTemplate) (table : List (Option MsgFieldType)) :
    (mt.foldl (fun table t => table.set t.id.toNat (some t.type)) table).length =
      table.length := by
  induction mt generalizing table with
  | nil => rfl
  | cons t mt ih => simp [List.foldl, ih]

/-- `msg_type_register` for a type not registered yet. The table has
`max_id + 1` slots in `uint16_t` arithmetic and a later template entry for an id
replaces an earlier one; an empty template trips the assertion. -/
def msgTypeRegister (mt : List MsgTemplate) : Option MsgTypeEntry :=
  if mt = [] then none
  else
    let maxId : UInt16 := mt.foldl (fun m t => if t.id ≥ m then t.id else m) 0
    let entryCount : UInt16 := maxId + 1
    some ⟨mt.foldl (fun table t => table.set t.id.toNat (some t.type))
      (List.replicate entryCount.toNat none), by
        simpa [length_foldl_set] using entryCount.toNat_lt⟩

/-- `mf_type`: the template type of a field id. -/
def MsgTypeEntry.mfType (e : MsgTypeEntry) (id : ℕ) : Option MsgFieldType :=
  e.mt.getD id none

/-- The `msg_field` value union. A buffer field holds the address it points at;
reading the union through another member than the one last written gives the
aliased bits for the integers, and a placeholder for an address. -/
inductive MsgFieldU
  | ui32 (v : UInt32)
  | ui64 (v : UInt64)
  | anyBuf (addr : ℕ)
  deriving DecidableEq, Repr

namespace MsgFieldU

def getUi32 : MsgFieldU → UInt32
  | ui32 v => v
  | ui64 v => v.toUInt32
  | anyBuf _ => 0

def getUi64 : MsgFieldU → UInt64
  | ui32 v => v.toUInt64
  | ui64 v => v
  | anyBuf _ => 0

def getAnyBuf : MsgFieldU → ℕ
  | anyBuf a => a
  | _ => 0

end MsgFieldU

/-- `msg_field`; its id is its slot and `is_free` only tracks ownership. -/
structure MsgField where
  isSet : Bool
  fieldSz : UInt32
  u : MsgFieldU
  deriving DecidableEq, Repr

/-- A slot as `msg_create` leaves it; the size and value are not initialised,
taken here as zero. -/
def MsgField.unset : MsgField := ⟨false, 0, .ui32 0⟩

/-- `msg`, of one of the `M_TYPE_MAX = 18` types, with one slot per field id. -/
structure Msg where
  type : Fin 18
  f : List MsgField
  nFields_lt : f.length < 2 ^ 16
  justParsed : Bool

/-- `msg_create` for a registered type. -/
def msgCreate (type : Fin 18) (e : MsgTypeEntry) : Msg :=
  ⟨type, List.replicate e.mt.length MsgField.unset, by simpa using e.mt_length_lt, false⟩

/-- `msg_reset`: every slot unset. -/
def msgReset (m : Msg) : Msg :=
  ⟨m.type, m.f.map fun mf => { mf with isSet := false }, by simpa using m.nFields_lt, false⟩

/-- `sizeof(msg_hdr)` and `sizeof(msg_field_hdr)`. -/
def msgHdrSz : ℕ := 6

def msgFieldHdrSz : ℕ := 3

/-- `msg_get_field_wire_size`; `none` is its `cf_crash` on other types. -/
def msgGetFieldWireSize : Option MsgFieldType → ℕ → Option ℕ
  | some .uint32, _ => some (msgFieldHdrSz + 4)
  | some .uint64, _ => some (msgFieldHdrSz + 8)
  | some t, fieldSz => if t.isBuffer then some (msgFieldHdrSz + 4 + fieldSz) else none
  | none, _ => none

/-- The loop of `msg_get_wire_size` over the slots from id `i` on. -/
def fieldsWireSize (e : MsgTypeEntry) : ℕ → List MsgField → Option ℕ
  | _, [] => some 0
  | i, mf :: fs =>
    if mf.isSet then
      (msgGetFieldWireSize (e.mfType i) mf.fieldSz.toNat).bind fun s =>
        (fieldsWireSize e (i + 1) fs).map (s + ·)
    else fieldsWireSize e (i + 1) fs

def msgGetWireSize (e : MsgTypeEntry) (m : Msg) : Option ℕ :=
  (fieldsWireSize e 0 m.f).map (msgHdrSz + ·)

/-- `msg_field_stamp`: the record of slot `id`; `none` is its `cf_crash`. -/
def msgFieldStamp (e : MsgTypeEntry) (mem : ℕ → UInt8) (id : ℕ) (mf : MsgField) :
    Option (List UInt8) :=
  let hdr := beBytes 2 id ++ [typeCode (e.mfType id)]
  match e.mfType id with
  | some .uint32 => some (hdr ++ beBytes 4 mf.u.getUi32.toNat)
  | some .uint64 => some (hdr ++ beBytes 8 mf.u.getUi64.toNat)
  | some t =>
    if t.isBuffer then
      some (hdr ++ beBytes 4 mf.fieldSz.toNat ++ read mem mf.u.getAnyBuf mf.fieldSz.toNat)
    else none
  | none => none

/-- The loop of `msg_to_wire` over the slots from id `i` on: the body. -/
def stampFields (e : MsgTypeEntry) (mem : ℕ → UInt8) : ℕ → List MsgField → Option (List UInt8)
  | _, [] => some []
  | i, mf :: fs =>
    if mf.isSet then
      (msgFieldStamp e mem i mf).bind fun s => (stampFields e mem (i + 1) fs).map (s ++ ·)
    else stampFields e mem (i + 1) fs

/-- `msg_to_wire`: the bytes written and the size returned. The header's size
field and the returned size use the body length cut to 32 bits. -/
def msgToWire (e : MsgTypeEntry) (mem : ℕ → UInt8) (m : Msg) : Option (List UInt8 × ℕ) :=
  (stampFields e mem 0 m.f).map fun body =>
    let bodySz := body.length % 2 ^ 32
    (beBytes 4 bodySz ++ beBytes 2 m.type.val ++ body, msgHdrSz + bodySz)

/-- The switch on the template type of slot `id` once a record matched it: an
integer read at `buf`, a buffer of `fsz` bytes at `buf`, or unset for the other
types. -/
def parsedField (e : MsgTypeEntry) (mem : ℕ → UInt8) (id fsz buf : ℕ) (mf : MsgField) :
    MsgField :=
  match e.mfType id with
  | some .uint32 => { mf with isSet := true, u := .ui32 (UInt32.ofNat (beRead mem buf 4)) }
  | some .uint64 => { mf with isSet := true, u := .ui64 (UInt64.ofNat (beRead mem buf 8)) }
  | some t =>
    if t.isBuffer then { mf with isSet := true, fieldSz := UInt32.ofNat fsz, u := .anyBuf buf }
    else { mf with isSet := false }
  | none => { mf with isSet := false }

/-- What `msg_parse` does to slot `id` for a record of wire type `ft` whose value
of `fsz` bytes starts at `buf`: nothing when the id is out of range or the wire
type differs from the template's. -/
def msgParseField (e : MsgTypeEntry) (mem : ℕ → UInt8) (f : List MsgField) (id : ℕ)
    (ft : UInt8) (fsz buf : ℕ) : List MsgField :=
  if id < f.length ∧ ft = typeCode (e.mfType id) then f.modify id (parsedField e mem id fsz buf)
  else f

/-- The switch on the wire type of a record whose header is at `buf`: the size
of its length prefix and the size of its value. -/
def fieldSizes (mem : ℕ → UInt8) (buf : ℕ) (ft : UInt8) : ℕ × ℕ :=
  if ft = MsgFieldType.uint32.code then (0, 4)
  else if ft = MsgFieldType.uint64.code then (0, 8)
  else (4, beRead mem (buf + msgFieldHdrSz) 4)

/-- The record loop of `msg_parse`, at address `buf`, up to the end of the body
`eob`; the result code and the slots. A record must have room for its 3-byte
header and a 4-byte value or length (`-4`) and then for its whole value (`-5`).
The `eob < buf` break of the source cannot fire after these checks but is kept. -/
def msgParseFields (e : MsgTypeEntry) (mem : ℕ → UInt8) (eob : ℕ) (f : List MsgField)
    (buf : ℕ) : Int × List MsgField :=
  if eob - buf = 0 then (0, f)
  else if eob - buf < msgFieldHdrSz + 4 then (-4, f)
  else
    let ft := mem (buf + 2)
    let sizes := fieldSizes mem buf ft
    if eob - buf < msgFieldHdrSz + sizes.1 + sizes.2 then (-5, f)
    else
      let valueAt := buf + msgFieldHdrSz + sizes.1
      let f := msgParseField e mem f (beRead mem buf 2) ft sizes.2 valueAt
      if eob < valueAt then (0, f)
      else msgParseFields e mem eob f (valueAt + sizes.2)
termination_by eob - buf
decreasing_by simp only [msgFieldHdrSz] at *; omega

@[simp] theorem length_msgParseField (e : MsgTypeEntry) (mem : ℕ → UInt8) (f : List MsgField)
    (id : ℕ) (ft : UInt8) (fsz buf : ℕ) :
    (msgParseField e mem f id ft fsz buf).length = f.length := by
  unfold msgParseField; split <;> simp

/-- What one turn of the record loop can do: stop with code `0`, `-4` or `-5`
and the slots as they are, or parse one record whose value fits in the body and
go on after it. -/
theorem msgParseFields_cases (e : MsgTypeEntry) (mem : ℕ → UInt8) (eob : ℕ)
    (f : List MsgField) (buf : ℕ) :
    (eob - buf = 0 ∧ msgParseFields e mem eob f buf = (0, f)) ∨
      msgParseFields e mem eob f buf = (-4, f) ∨
      msgParseFields e mem eob f buf = (-5, f) ∨
      (msgFieldHdrSz + 4 ≤ eob - buf ∧
        msgFieldHdrSz + (fieldSizes mem buf (mem (buf + 2))).1 +
          (fieldSizes mem buf (mem (buf + 2))).2 ≤ eob - buf ∧
        msgParseFields e mem eob f buf =
          msgParseFields e mem eob
            (msgParseField e mem f (beRead mem buf 2) (mem (buf + 2))
              (fieldSizes mem buf (mem (buf + 2))).2
              (buf + msgFieldHdrSz + (fieldSizes mem buf (mem (buf + 2))).1))
            (buf + msgFieldHdrSz + (fieldSizes mem buf (mem (buf + 2))).1 +
              (fieldSizes mem buf (mem (buf + 2))).2)) := by
  rw [msgParseFields]
  dsimp only
  split_ifs with h0 h4 h5 hb
  · exact .inl ⟨h0, rfl⟩
  · exact .inr (.inl rfl)
  · exact .inr (.inr (.inl rfl))
  · exfalso; simp only [msgFieldHdrSz] at *; omega
  · exact .inr (.inr (.inr ⟨by omega, by omega, rfl⟩))

/-- Induction along the record loop: a property of the loop's result that holds
where the loop stops and is carried back over one record holds from every
address. -/
theorem msgParseFields_induction (e : MsgTypeEntry) (mem : ℕ → UInt8) (eob : ℕ)
    {P : List MsgField → ℕ → Int × List MsgField → Prop}
    (stop : ∀ f buf (rc : Int), rc ∈ [0, -4, -5] → P f buf (rc, f))
    (step : ∀ f buf r, msgFieldHdrSz + 4 ≤ eob - buf →
      msgFieldHdrSz + (fieldSizes mem buf (mem (buf + 2))).1 +
        (fieldSizes mem buf (mem (buf + 2))).2 ≤ eob - buf →
      P (msgParseField e mem f (beRead mem buf 2) (mem (buf + 2))
          (fieldSizes mem buf (mem (buf + 2))).2
          (buf + msgFieldHdrSz + (fieldSizes mem buf (mem (buf + 2))).1))
        (buf + msgFieldHdrSz + (fieldSizes mem buf (mem (buf + 2))).1 +
          (fieldSizes mem buf (mem (buf + 2))).2) r →
      P f buf r) :
    ∀ f buf, P f buf (msgParseFields e mem eob f buf) := by
  intro f buf
  induction h : eob - buf using Nat.strong_induction_on generalizing f buf with
  | _ n ih =>
    rcases msgParseFields_cases e mem eob f buf with ⟨-, hr⟩ | hr | hr | ⟨h4, h5, hr⟩
    · rw [hr]; exact stop f buf 0 (by simp)
    · rw [hr]; exact stop f buf (-4) (by simp)
    · rw [hr]; exact stop f buf (-5) (by simp)
    · rw [hr]
      refine step f buf _ h4 h5 (ih _ ?_ _ _ rfl)
      simp only [msgFieldHdrSz] at *
      omega

theorem length_msgParseFields (e : MsgTypeEntry) (mem : ℕ → UInt8) (eob : ℕ)
    (f : List MsgField) (buf : ℕ) :
    (msgParseFields e mem eob f buf).2.length = f.length :=
  msgParseFields_induction e mem eob (P := fun f _ r => r.2.length = f.length)
    (fun _ _ _ _ => rfl) (fun _ _ _ _ _ ih => by rw [ih, length_msgParseField]) f buf

/-- The code and message `msg_parse` returns once the record loop gave `r`: the
loop's slots, and `just_parsed` set when the code is `0`. -/
def msgParseResult (m : Msg) (r : Int × List MsgField) (h : r.2.length = m.f.length) :
    Int × Msg :=
  (r.1, ⟨m.type, r.2, h ▸ m.nFields_lt, if r.1 = 0 then true else m.justParsed⟩)

section ParseResult

variable {m : Msg} {r : Int × List MsgField} {h : r.2.length = m.f.length}

@[simp] theorem msgParseResult_fst : (msgParseResult m r h).1 = r.1 := rfl

@[simp] theorem msgParseResult_f : (msgParseResult m r h).2.f = r.2 := rfl

@[simp] theorem msgParseResult_type : (msgParseResult m r h).2.type = m.type := rfl

theorem msgParseResult_congr {r' : Int × List MsgField} {h' : r'.2.length = m.f.length}
    (hr : r = r') : msgParseResult m r h = msgParseResult m r' h' := by
  subst hr; rfl

end ParseResult

/-- `msg_parse` of `bufsz` bytes at address `base` into `m`; the result code and
the message. A failed record check leaves the slots parsed before it set. -/
def msgParse (e : MsgTypeEntry) (m : Msg) (mem : ℕ → UInt8) (base bufsz : ℕ) : Int × Msg :=
  if bufsz < msgHdrSz then (-1, m)
  else if bufsz < beRead mem base 4 + msgHdrSz then (-2, m)
  else if m.type.val ≠ beRead mem (base + 4) 2 then (-3, m)
  else
    msgParseResult m (msgParseFields e mem (base + msgHdrSz + beRead mem base 4) m.f (base + msgHdrSz))
      (length_msgParseFields e mem _ m.f _)

end Aerospike.Fabric
