import Aerospike.Lib.Bytes

/-! # Client messages and `as_transaction_prepare`

A client message body is an `as_msg` header of 22 bytes, then `n_fields`
fields (a four-byte `field_sz` counting the type byte and the data, the type
byte, the data) and then `n_ops` bin operations (a four-byte `op_sz` counting
what follows it, the op, particle type, version and name size bytes, the name
and the value). `as_transaction_prepare` walks both lists once, checking each
header and each size against the end of the body; the accessors of `proto.h`
walk them again later without any check.

Memory is read from the start of the `as_msg`. Multi-byte fields are read big
endian: `as_msg_swap_header`, `as_msg_swap_field` and `as_msg_swap_op` swap
them in place before every host-order read, so what the code reads is the big
endian value of the bytes the client sent.

The main result is that an accepted message can be walked by the unchecked
accessors: every field and op they reach has a sane size and lies inside the
body, and the `msg_fields` bits are those of the known field types present.
-/

namespace Aerospike.Proto

open Bytes

def asMsgSize : ℕ := 22

/-- `sizeof(as_msg_field)`: the size word and the type byte. -/
def asMsgFieldSize : ℕ := 5

/-- `sizeof(as_msg_op)`: the size word, op, particle type, version and name
size. -/
def asMsgOpSize : ℕ := 8

variable (mem : ℕ → UInt8)

def nFields : ℕ := beRead mem 18 2

def nOps : ℕ := beRead mem 20 2

/-- `as_msg_field.field_sz` of the field at `a`. -/
def fieldSz (a : ℕ) : ℕ := beRead mem a 4

/-- `as_msg_field.type` of the field at `a`. -/
def fieldType (a : ℕ) : UInt8 := mem (a + 4)

/-- `as_msg_op.op_sz` of the op at `a`. -/
def opSz (a : ℕ) : ℕ := beRead mem a 4

/-- `as_msg_op.name_sz` of the op at `a`. -/
def opNameSz (a : ℕ) : ℕ := (mem (a + 7)).toNat

def asMsgFieldGetNext (a : ℕ) : ℕ := a + 4 + fieldSz mem a

/-- `as_msg_field_skip`: `none` (its `NULL`) for a field without a type byte. -/
def asMsgFieldSkip (a : ℕ) : Option ℕ :=
  if fieldSz mem a = 0 then none else some (asMsgFieldGetNext mem a)

def asMsgOpGetNext (a : ℕ) : ℕ := a + 4 + opSz mem a

/-- `as_msg_op_skip`: `none` for an op too small for its own header and name. -/
def asMsgOpSkip (a : ℕ) : Option ℕ :=
  if opNameSz mem a + 4 > opSz mem a then none else some (asMsgOpGetNext mem a)

/-- The field types the server knows, each with its `AS_MSG_FIELD_BIT_*`: the
cases of `as_transaction_set_msg_field_flag`. -/
def msgFieldBits : List (UInt8 × UInt32) :=
  [(0, 0x1), (1, 0x2), (2, 0x4), (4, 0x8), (6, 0x10), (7, 0x20), (8, 0x40), (9, 0x80),
    (21, 0x100), (22, 0x200), (26, 0x400), (30, 0x800), (31, 0x1000), (32, 0x2000),
    (33, 0x4000), (40, 0x8000), (41, 0x10000), (42, 0x20000), (43, 0x40000)]

/-- The `AS_MSG_FIELD_BIT_*` of a field type, for the types the server knows. -/
def msgFieldBit (type : UInt8) : Option UInt32 := msgFieldBits.lookup type

/-- `as_transaction_set_msg_field_flag`: the new `msg_fields` and whether the
type was known. -/
def asTransactionSetMsgFieldFlag (msgFields : UInt32) (type : UInt8) : UInt32 × Bool :=
  match msgFieldBit type with
  | some bit => (msgFields ||| bit, true)
  | none => (msgFields, false)

/-- The field loop of `as_transaction_prepare`: `n` more fields from `pRead`,
with the bits set so far; the cursor after them and the bits, or `none`. -/
def prepareFields (pEnd : ℕ) : ℕ → ℕ → UInt32 → Option (ℕ × UInt32)
  | 0, pRead, msgFields => some (pRead, msgFields)
  | n + 1, pRead, msgFields =>
    if pRead + asMsgFieldSize > pEnd then none
    else (asMsgFieldSkip mem pRead).bind fun next =>
      if next > pEnd then none
      else prepareFields pEnd n next
        (asTransactionSetMsgFieldFlag msgFields (fieldType mem pRead)).1

/-- The op loop of `as_transaction_prepare`. -/
def prepareOps (pEnd : ℕ) : ℕ → ℕ → Option ℕ
  | 0, pRead => some pRead
  | n + 1, pRead =>
    if pRead + asMsgOpSize > pEnd then none
    else (asMsgOpSkip mem pRead).bind fun next =>
      if next > pEnd then none else prepareOps pEnd n next

/-- `as_transaction_prepare` on a body of `size` bytes: the `msg_fields` it
leaves, or `none` for its `false`. -/
def asTransactionPrepare (size : ℕ) (msgFields : UInt32) : Option UInt32 :=
  if size < asMsgSize then none
  else
    match prepareFields mem size (nFields mem) asMsgSize msgFields with
    | none => none
    | some (pRead, flags) =>
      match prepareOps mem size (nOps mem) pRead with
      | none => none
      | some pDone => if pDone ≠ size then none else some flags

/-! ### What the unchecked accessors reach -/

/-- The fields `as_msg_field_get_next` steps through: `n` from `a`. -/
def fieldAddrs : ℕ → ℕ → List ℕ
  | 0, _ => []
  | n + 1, a => a :: fieldAddrs n (asMsgFieldGetNext mem a)

/-- Where stepping over `n` fields from `a` ends: the first op. -/
def fieldsEnd (n a : ℕ) : ℕ := (asMsgFieldGetNext mem)^[n] a

/-- The ops `as_msg_op_get_next` steps through: `n` from `a`. -/
def opAddrs : ℕ → ℕ → List ℕ
  | 0, _ => []
  | n + 1, a => a :: opAddrs n (asMsgOpGetNext mem a)

/-- `as_msg_field_get`: the first of the `n_fields` fields stepped through
that has the type, or `none` (its `NULL`). -/
def asMsgFieldGet (type : UInt8) : Option ℕ :=
  (fieldAddrs mem (nFields mem) asMsgSize).find? fun a => fieldType mem a == type

/-- The ops `as_msg_op_iterate` yields, in order: `n_ops` of them from the end
of the fields. -/
def asMsgOpIterate : List ℕ :=
  opAddrs mem (nOps mem) (fieldsEnd mem (nFields mem) asMsgSize)

/-- The bits the known types among the fields at `addrs` set. -/
def fieldBits (addrs : List ℕ) : UInt32 :=
  addrs.foldl (fun acc a => (asTransactionSetMsgFieldFlag acc (fieldType mem a)).1) 0

/-- A field that lies in a body of `size` bytes and has its type byte. -/
def FieldInBody (size a : ℕ) : Prop :=
  1 ≤ fieldSz mem a ∧ a + asMsgFieldSize ≤ size ∧ asMsgFieldGetNext mem a ≤ size

/-- An op that lies in a body of `size` bytes, with its header and name. -/
def OpInBody (size a : ℕ) : Prop :=
  opNameSz mem a + 4 ≤ opSz mem a ∧ a + asMsgOpSize ≤ size ∧ asMsgOpGetNext mem a ≤ size

variable {mem}

theorem le_fieldsEnd (mem : ℕ → UInt8) (n a : ℕ) : a ≤ fieldsEnd mem n a :=
  Function.id_le_iterate_of_id_le (fun a => by simp only [id, asMsgFieldGetNext]; omega) n a

theorem setMsgFieldFlag_or (acc : UInt32) (t : UInt8) (m : UInt32) :
    (asTransactionSetMsgFieldFlag (m ||| acc) t).1 =
      m ||| (asTransactionSetMsgFieldFlag acc t).1 := by
  unfold asTransactionSetMsgFieldFlag
  split <;> simp [UInt32.or_assoc]

theorem foldl_setMsgFieldFlag_or (mem : ℕ → UInt8) (m : UInt32) :
    ∀ (addrs : List ℕ) (acc : UInt32),
      addrs.foldl (fun acc a => (asTransactionSetMsgFieldFlag acc (fieldType mem a)).1) (m ||| acc) =
        m ||| addrs.foldl (fun acc a => (asTransactionSetMsgFieldFlag acc (fieldType mem a)).1) acc
  | [], _ => rfl
  | a :: addrs, acc => by
    simp only [List.foldl_cons, setMsgFieldFlag_or]
    exact foldl_setMsgFieldFlag_or mem m addrs _

theorem fieldBits_cons (a : ℕ) (addrs : List ℕ) :
    fieldBits mem (a :: addrs) =
      (asTransactionSetMsgFieldFlag 0 (fieldType mem a)).1 ||| fieldBits mem addrs := by
  have h := foldl_setMsgFieldFlag_or mem
    (asTransactionSetMsgFieldFlag 0 (fieldType mem a)).1 addrs 0
  rw [UInt32.or_zero] at h
  simpa [fieldBits] using h

theorem prepareFields_succ {pEnd n pRead : ℕ} {m : UInt32} {r : ℕ × UInt32}
    (h : prepareFields mem pEnd (n + 1) pRead m = some r) :
    FieldInBody mem pEnd pRead ∧
      prepareFields mem pEnd n (asMsgFieldGetNext mem pRead)
        (asTransactionSetMsgFieldFlag m (fieldType mem pRead)).1 = some r := by
  rw [prepareFields] at h
  by_cases hhdr : pRead + asMsgFieldSize > pEnd
  · rw [if_pos hhdr] at h
    cases h
  rw [if_neg hhdr] at h
  by_cases hsz : fieldSz mem pRead = 0
  · rw [asMsgFieldSkip, if_pos hsz] at h
    cases h
  rw [asMsgFieldSkip, if_neg hsz, Option.bind_some] at h
  by_cases hnext : asMsgFieldGetNext mem pRead > pEnd
  · rw [if_pos hnext] at h
    cases h
  rw [if_neg hnext] at h
  exact ⟨⟨by omega, by omega, by omega⟩, h⟩

theorem prepareFields_spec {pEnd : ℕ} {n pRead : ℕ} {m : UInt32} {r : ℕ × UInt32}
    (h : prepareFields mem pEnd n pRead m = some r) :
    (∀ a ∈ fieldAddrs mem n pRead, FieldInBody mem pEnd a) ∧
      r.1 = fieldsEnd mem n pRead ∧ r.2 = m ||| fieldBits mem (fieldAddrs mem n pRead) := by
  induction n generalizing pRead m with
  | zero =>
    rw [prepareFields, Option.some.injEq] at h
    subst h
    exact ⟨fun a ha => absurd ha List.not_mem_nil, rfl, UInt32.or_zero.symm⟩
  | succ n ih =>
    obtain ⟨hin, hrest⟩ := prepareFields_succ h
    obtain ⟨hall, hend, hbits⟩ := ih hrest
    refine ⟨?_, by rw [hend, fieldsEnd, fieldsEnd, Function.iterate_succ_apply], ?_⟩
    · intro a ha
      rcases List.mem_cons.mp ha with rfl | ha
      · exact hin
      · exact hall a ha
    · rw [hbits, fieldAddrs, fieldBits_cons, ← UInt32.or_assoc, ← setMsgFieldFlag_or,
        UInt32.or_zero]

theorem prepareOps_succ {pEnd n pRead r : ℕ} (h : prepareOps mem pEnd (n + 1) pRead = some r) :
    OpInBody mem pEnd pRead ∧ prepareOps mem pEnd n (asMsgOpGetNext mem pRead) = some r := by
  rw [prepareOps] at h
  by_cases hhdr : pRead + asMsgOpSize > pEnd
  · rw [if_pos hhdr] at h
    cases h
  rw [if_neg hhdr] at h
  by_cases hsz : opNameSz mem pRead + 4 > opSz mem pRead
  · rw [asMsgOpSkip, if_pos hsz] at h
    cases h
  rw [asMsgOpSkip, if_neg hsz, Option.bind_some] at h
  by_cases hnext : asMsgOpGetNext mem pRead > pEnd
  · rw [if_pos hnext] at h
    cases h
  rw [if_neg hnext] at h
  exact ⟨⟨by omega, by omega, by omega⟩, h⟩

theorem prepareOps_spec {pEnd : ℕ} {n pRead r : ℕ} (h : prepareOps mem pEnd n pRead = some r) :
    ∀ a ∈ opAddrs mem n pRead, OpInBody mem pEnd a := by
  induction n generalizing pRead with
  | zero => exact fun a ha => absurd ha List.not_mem_nil
  | succ n ih =>
    obtain ⟨hin, hrest⟩ := prepareOps_succ h
    intro a ha
    rcases List.mem_cons.mp ha with rfl | ha
    · exact hin
    · exact ih hrest a ha

/-- `as_transaction_prepare` accepts only messages the unchecked accessors can
walk: every field they step through has its type byte and lies in the body,
every op they iterate has its header and name and lies in the body, and the
bits set are those of the known field types present. -/
theorem asTransactionPrepare_spec {size : ℕ} {m flags : UInt32}
    (h : asTransactionPrepare mem size m = some flags) :
    (∀ a ∈ fieldAddrs mem (nFields mem) asMsgSize, FieldInBody mem size a) ∧
      (∀ a ∈ asMsgOpIterate mem, OpInBody mem size a) ∧
      flags = m ||| fieldBits mem (fieldAddrs mem (nFields mem) asMsgSize) := by
  unfold asTransactionPrepare at h
  split_ifs at h with hsize
  split at h
  · simp at h
  · rename_i pRead bits hfields
    split at h
    · simp at h
    · rename_i pDone hops
      split_ifs at h with hdone
      cases h
      obtain ⟨hall, hend, hbits⟩ := prepareFields_spec hfields
      simp only at hend hbits
      subst hend
      exact ⟨hall, prepareOps_spec hops, hbits⟩

theorem asMsgFieldGet_inBody {size : ℕ} {m flags : UInt32} {type : UInt8} {f : ℕ}
    (h : asTransactionPrepare mem size m = some flags) (hf : asMsgFieldGet mem type = some f) :
    FieldInBody mem size f ∧ fieldType mem f = type := by
  have hmem := List.mem_of_find?_eq_some hf
  have hty : fieldType mem f = type := by simpa using List.find?_some hf
  exact ⟨(asTransactionPrepare_spec h).1 f hmem, hty⟩

end Aerospike.Proto
