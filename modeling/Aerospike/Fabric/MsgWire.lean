import Aerospike.Fabric.Msg

/-! # The fabric message wire format

`msg_parse` reads back what `msg_to_wire` wrote. One record per set slot goes
out in id order, and the record loop of the parser meets them in the same order:
a record of slot `i` sets slot `i` of a fresh message to the same integer, or to
the same size and an address holding the same bytes. The proof is a step lemma
for one record and an induction over the slots.

The parser itself is total, returns one of its six codes, reads nothing past the
body it was told of nor past the buffer, and points every buffer field it sets
into the body.
-/

namespace Aerospike.Fabric

open Bytes

/-- The template types `msg_to_wire` writes: the two integers and the buffers. -/
def MsgFieldType.isWireType : MsgFieldType → Bool
  | .uint32 | .uint64 => true
  | t => t.isBuffer

/-- Every set slot from id `i` on has a template type `msg_to_wire` writes. -/
def setFieldsWireTyped (e : MsgTypeEntry) : ℕ → List MsgField → Bool
  | _, [] => true
  | i, mf :: fs =>
    (!mf.isSet || ((e.mfType i).map MsgFieldType.isWireType).getD false) &&
      setFieldsWireTyped e (i + 1) fs

/-- A slot read back carries the value of the slot it was written from: the same
integer, or the same size and the same bytes at its address. -/
def ValueAgree (e : MsgTypeEntry) (mem mem' : ℕ → UInt8) (id : ℕ) (mf mf' : MsgField) : Prop :=
  if e.mfType id = some .uint32 then mf'.u.getUi32 = mf.u.getUi32
  else if e.mfType id = some .uint64 then mf'.u.getUi64 = mf.u.getUi64
  else mf'.fieldSz = mf.fieldSz ∧
    read mem' mf'.u.getAnyBuf mf'.fieldSz.toNat = read mem mf.u.getAnyBuf mf.fieldSz.toNat

/-- A slot read back is set exactly when the slot it was written from is, and then
carries its value. -/
def FieldAgree (e : MsgTypeEntry) (mem mem' : ℕ → UInt8) (id : ℕ) (mf mf' : MsgField) : Prop :=
  mf'.isSet = mf.isSet ∧ (mf.isSet = true → ValueAgree e mem mem' id mf mf')

/-! ### One record -/

theorem holds_record {mem : ℕ → UInt8} {buf id : ℕ} {c : UInt8} {v : List UInt8}
    (h : Holds mem buf (beBytes 2 id ++ [c] ++ v)) :
    beRead mem buf 2 = id % 2 ^ 16 ∧ mem (buf + 2) = c ∧ Holds mem (buf + msgFieldHdrSz) v := by
  rw [holds_append, holds_append] at h
  obtain ⟨⟨hid, hc⟩, hv⟩ := h
  refine ⟨hid.beRead_eq, ?_, by simpa [msgFieldHdrSz] using hv⟩
  simpa using hc 0 (by simp)

theorem msgParseFields_step {e : MsgTypeEntry} {mem : ℕ → UInt8} {eob buf : ℕ}
    (f : List MsgField) (h4 : msgFieldHdrSz + 4 ≤ eob - buf)
    (h5 : msgFieldHdrSz + (fieldSizes mem buf (mem (buf + 2))).1 +
      (fieldSizes mem buf (mem (buf + 2))).2 ≤ eob - buf) :
    msgParseFields e mem eob f buf =
      msgParseFields e mem eob
        (msgParseField e mem f (beRead mem buf 2) (mem (buf + 2))
          (fieldSizes mem buf (mem (buf + 2))).2
          (buf + msgFieldHdrSz + (fieldSizes mem buf (mem (buf + 2))).1))
        (buf + msgFieldHdrSz + (fieldSizes mem buf (mem (buf + 2))).1 +
          (fieldSizes mem buf (mem (buf + 2))).2) := by
  simp only [msgFieldHdrSz] at h4 h5
  have h0 : ¬ eob - buf = 0 := by omega
  have h4' : ¬ eob - buf < msgFieldHdrSz + 4 := by simp only [msgFieldHdrSz]; omega
  have h5' : ¬ eob - buf < msgFieldHdrSz + (fieldSizes mem buf (mem (buf + 2))).1 +
      (fieldSizes mem buf (mem (buf + 2))).2 := by simp only [msgFieldHdrSz]; omega
  have hb : ¬ eob < buf + msgFieldHdrSz + (fieldSizes mem buf (mem (buf + 2))).1 := by
    simp only [msgFieldHdrSz]; omega
  rw [msgParseFields]
  simp only [h0, h4', h5', hb, if_false]

theorem msgParseField_of_type {e : MsgTypeEntry} {mem : ℕ → UInt8} {f : List MsgField} {id : ℕ}
    {t : MsgFieldType} (ht : e.mfType id = some t) (hid : id < f.length) (fsz buf : ℕ) :
    msgParseField e mem f id t.code fsz buf = f.set id (parsedField e mem id fsz buf f[id]) := by
  rw [msgParseField, if_pos ⟨hid, by rw [ht]; rfl⟩, List.modify_eq_set_get _ hid, List.get_eq_getElem]

section ParsedField

variable {e : MsgTypeEntry} {mem : ℕ → UInt8} {id fsz buf : ℕ}

theorem parsedField_uint32 (ht : e.mfType id = some .uint32) (mf : MsgField) :
    parsedField e mem id fsz buf mf =
      { mf with isSet := true, u := .ui32 (UInt32.ofNat (beRead mem buf 4)) } := by
  rw [parsedField, ht]

theorem parsedField_uint64 (ht : e.mfType id = some .uint64) (mf : MsgField) :
    parsedField e mem id fsz buf mf =
      { mf with isSet := true, u := .ui64 (UInt64.ofNat (beRead mem buf 8)) } := by
  rw [parsedField, ht]

theorem parsedField_buffer {t : MsgFieldType} (ht : e.mfType id = some t) (hb : t.isBuffer = true)
    (mf : MsgField) :
    parsedField e mem id fsz buf mf =
      { mf with isSet := true, fieldSz := UInt32.ofNat fsz, u := .anyBuf buf } := by
  rw [parsedField, ht]
  cases t <;> simp_all [MsgFieldType.isBuffer]

end ParsedField

theorem fieldSizes_buffer (mem : ℕ → UInt8) (buf : ℕ) {t : MsgFieldType}
    (hb : t.isBuffer = true) :
    fieldSizes mem buf t.code = (4, beRead mem (buf + msgFieldHdrSz) 4) := by
  cases t <;> simp_all [fieldSizes, MsgFieldType.isBuffer, MsgFieldType.code]

section Record

variable {e : MsgTypeEntry} {mem mem' : ℕ → UInt8} {eob buf id : ℕ} {f : List MsgField}

theorem msgParseFields_record_uint32 {x : UInt32} (ht : e.mfType id = some .uint32)
    (hid : id < f.length) (hid16 : id < 2 ^ 16)
    (hmem : Holds mem' buf (beBytes 2 id ++ [MsgFieldType.uint32.code] ++ beBytes 4 x.toNat))
    (heob : buf + msgFieldHdrSz + 4 ≤ eob) :
    msgParseFields e mem' eob f buf =
      msgParseFields e mem' eob (f.set id { f[id] with isSet := true, u := .ui32 x })
        (buf + msgFieldHdrSz + 4) := by
  obtain ⟨hidr, hc, hv⟩ := holds_record hmem
  have hsz : fieldSizes mem' buf (mem' (buf + 2)) = (0, 4) := by rw [hc]; rfl
  have hx : UInt32.ofNat (beRead mem' (buf + msgFieldHdrSz) 4) = x := by
    rw [hv.beRead_eq, Nat.mod_eq_of_lt (by have := x.toNat_lt; omega), UInt32.ofNat_toNat]
  rw [msgParseFields_step f (by omega) (by rw [hsz]; omega), hsz, hidr, hc,
    Nat.mod_eq_of_lt hid16, msgParseField_of_type ht hid, parsedField_uint32 ht]
  simp only [Nat.add_zero, hx]

theorem msgParseFields_record_uint64 {x : UInt64} (ht : e.mfType id = some .uint64)
    (hid : id < f.length) (hid16 : id < 2 ^ 16)
    (hmem : Holds mem' buf (beBytes 2 id ++ [MsgFieldType.uint64.code] ++ beBytes 8 x.toNat))
    (heob : buf + msgFieldHdrSz + 8 ≤ eob) :
    msgParseFields e mem' eob f buf =
      msgParseFields e mem' eob (f.set id { f[id] with isSet := true, u := .ui64 x })
        (buf + msgFieldHdrSz + 8) := by
  obtain ⟨hidr, hc, hv⟩ := holds_record hmem
  have hsz : fieldSizes mem' buf (mem' (buf + 2)) = (0, 8) := by rw [hc]; rfl
  have hx : UInt64.ofNat (beRead mem' (buf + msgFieldHdrSz) 8) = x := by
    rw [hv.beRead_eq, Nat.mod_eq_of_lt (by have := x.toNat_lt; omega), UInt64.ofNat_toNat]
  rw [msgParseFields_step f (by omega) (by rw [hsz]; omega), hsz, hidr, hc,
    Nat.mod_eq_of_lt hid16, msgParseField_of_type ht hid, parsedField_uint64 ht]
  simp only [Nat.add_zero, hx]

theorem msgParseFields_record_buffer {t : MsgFieldType} {sz : UInt32} {bytes : List UInt8}
    (ht : e.mfType id = some t) (hb : t.isBuffer = true) (hlen : bytes.length = sz.toNat)
    (hid : id < f.length) (hid16 : id < 2 ^ 16)
    (hmem : Holds mem' buf (beBytes 2 id ++ [t.code] ++ beBytes 4 sz.toNat ++ bytes))
    (heob : buf + msgFieldHdrSz + 4 + sz.toNat ≤ eob) :
    read mem' (buf + msgFieldHdrSz + 4) sz.toNat = bytes ∧
      msgParseFields e mem' eob f buf =
        msgParseFields e mem' eob
          (f.set id
            { f[id] with isSet := true, fieldSz := sz, u := .anyBuf (buf + msgFieldHdrSz + 4) })
          (buf + msgFieldHdrSz + 4 + sz.toNat) := by
  rw [List.append_assoc] at hmem
  obtain ⟨hidr, hc, hv⟩ := holds_record hmem
  obtain ⟨hszb, hbytes⟩ := holds_append.mp hv
  have hszv : beRead mem' (buf + msgFieldHdrSz) 4 = sz.toNat := by
    rw [hszb.beRead_eq, Nat.mod_eq_of_lt (by have := sz.toNat_lt; omega)]
  have hsz : fieldSizes mem' buf (mem' (buf + 2)) = (4, sz.toNat) := by
    rw [hc, fieldSizes_buffer _ _ hb, hszv]
  refine ⟨by simpa [hlen] using hbytes.read_eq, ?_⟩
  rw [msgParseFields_step f (by omega) (by rw [hsz]; omega), hsz, hidr, hc,
    Nat.mod_eq_of_lt hid16, msgParseField_of_type ht hid, parsedField_buffer ht hb,
    UInt32.ofNat_toNat]

theorem msgParseFields_stamp {mf : MsgField} {s : List UInt8}
    (hs : msgFieldStamp e mem id mf = some s) (hid : id < f.length) (hid16 : id < 2 ^ 16)
    (hmem : Holds mem' buf s) (heob : buf + s.length ≤ eob) :
    ∃ mf', mf'.isSet = true ∧ ValueAgree e mem mem' id mf mf' ∧
      msgParseFields e mem' eob f buf =
        msgParseFields e mem' eob (f.set id mf') (buf + s.length) := by
  unfold msgFieldStamp at hs
  cases ht : e.mfType id with
  | none => simp [ht] at hs
  | some t =>
    simp only [ht, typeCode] at hs
    by_cases h32 : t = .uint32
    · subst h32
      simp only [Option.some.injEq] at hs
      subst hs
      refine ⟨{ f[id] with isSet := true, u := .ui32 mf.u.getUi32 }, rfl,
        by simp [ValueAgree, ht, MsgFieldU.getUi32], ?_⟩
      rw [msgParseFields_record_uint32 ht hid hid16 hmem (by simpa [msgFieldHdrSz] using heob)]
      simp [msgFieldHdrSz]
    by_cases h64 : t = .uint64
    · subst h64
      simp only [Option.some.injEq] at hs
      subst hs
      refine ⟨{ f[id] with isSet := true, u := .ui64 mf.u.getUi64 }, rfl,
        by simp [ValueAgree, ht, MsgFieldU.getUi64], ?_⟩
      rw [msgParseFields_record_uint64 ht hid hid16 hmem (by simpa [msgFieldHdrSz] using heob)]
      simp [msgFieldHdrSz]
    have hs' : (if t.isBuffer then some (beBytes 2 id ++ [t.code] ++ beBytes 4 mf.fieldSz.toNat ++
        read mem mf.u.getAnyBuf mf.fieldSz.toNat) else none) = some s := by
      cases t <;> simp_all
    by_cases hb : t.isBuffer = true
    · rw [if_pos hb, Option.some.injEq] at hs'
      subst hs'
      have hle : buf + msgFieldHdrSz + 4 + mf.fieldSz.toNat ≤ eob := by
        simp [msgFieldHdrSz] at heob ⊢; omega
      obtain ⟨hread, hstep⟩ := msgParseFields_record_buffer ht hb length_read hid hid16 hmem hle
      refine ⟨
        { f[id] with isSet := true, fieldSz := mf.fieldSz, u := .anyBuf (buf + msgFieldHdrSz + 4) },
        rfl, ?_, ?_⟩
      · rw [ValueAgree, if_neg (by rw [ht]; simp [h32]), if_neg (by rw [ht]; simp [h64])]
        exact ⟨rfl, hread⟩
      · rw [hstep]
        congr 1
        simp only [List.length_append, length_beBytes, length_read, List.length_singleton,
          msgFieldHdrSz]
        omega
    · rw [if_neg hb] at hs'
      cases hs'

end Record

theorem msgParseFields_end (e : MsgTypeEntry) (mem : ℕ → UInt8) (f : List MsgField) (buf : ℕ) :
    msgParseFields e mem buf f buf = (0, f) := by
  rw [msgParseFields]; simp

/-! ### Sizes and records -/

section Stamp

variable {e : MsgTypeEntry} {mem : ℕ → UInt8}

theorem msgGetFieldWireSize_of_msgFieldStamp {id : ℕ} {mf : MsgField} {s : List UInt8}
    (hs : msgFieldStamp e mem id mf = some s) :
    msgGetFieldWireSize (e.mfType id) mf.fieldSz.toNat = some s.length := by
  unfold msgFieldStamp at hs
  cases ht : e.mfType id with
  | none => simp [ht] at hs
  | some t =>
    simp only [ht] at hs
    cases t <;> simp_all [msgGetFieldWireSize, msgFieldHdrSz, MsgFieldType.isBuffer] <;>
      (subst hs; simp +arith)

theorem msgFieldStamp_eq_some (mem : ℕ → UInt8) {id : ℕ} (mf : MsgField)
    (h : ((e.mfType id).map MsgFieldType.isWireType).getD false = true) :
    ∃ s, msgFieldStamp e mem id mf = some s := by
  unfold msgFieldStamp
  cases ht : e.mfType id with
  | none => simp [ht] at h
  | some t => cases t <;> simp_all [MsgFieldType.isWireType, MsgFieldType.isBuffer]

theorem stampFields_eq_some (mem : ℕ → UInt8) : ∀ {i : ℕ} {fs : List MsgField},
    setFieldsWireTyped e i fs = true → ∃ body, stampFields e mem i fs = some body
  | _, [], _ => ⟨[], rfl⟩
  | i, mf :: fs, h => by
    simp only [setFieldsWireTyped, Bool.and_eq_true, Bool.or_eq_true, Bool.not_eq_true'] at h
    obtain ⟨hmf, hfs⟩ := h
    obtain ⟨rest, hrest⟩ := stampFields_eq_some mem hfs
    by_cases hset : mf.isSet = true
    · obtain ⟨s, hs⟩ := msgFieldStamp_eq_some mem mf (hmf.resolve_left (by simp [hset]))
      exact ⟨s ++ rest, by simp [stampFields, hset, hs, hrest]⟩
    · exact ⟨rest, by simp [stampFields, hset, hrest]⟩

theorem fieldsWireSize_of_stampFields : ∀ {i : ℕ} {fs : List MsgField} {body : List UInt8},
    stampFields e mem i fs = some body → fieldsWireSize e i fs = some body.length
  | _, [], body, h => by
    simp only [stampFields, Option.some.injEq] at h
    simp [fieldsWireSize, ← h]
  | i, mf :: fs, body, h => by
    by_cases hset : mf.isSet = true
    · rw [stampFields, if_pos hset] at h
      obtain ⟨s, hs, h'⟩ := Option.bind_eq_some_iff.mp h
      obtain ⟨rest, hrest, rfl⟩ := Option.map_eq_some_iff.mp h'
      rw [fieldsWireSize, if_pos hset, msgGetFieldWireSize_of_msgFieldStamp hs, Option.bind_some,
        fieldsWireSize_of_stampFields hrest]
      simp
    · rw [stampFields, if_neg hset] at h
      rw [fieldsWireSize, if_neg hset, fieldsWireSize_of_stampFields h]

end Stamp

/-! ### The record loop over a written body -/

section Loop

variable {e : MsgTypeEntry} {mem mem' : ℕ → UInt8}

/-- The record loop over the records `msg_to_wire` wrote for the slots of `f` from
id `k` on, run on slots unset from `k` on: it returns `0`, keeps the slots below
`k` and leaves each slot from `k` on agreeing with the slot of `f`. The induction
is on the slots still to write. -/
theorem msgParseFields_stampFields {f : List MsgField} (hf : f.length < 2 ^ 16) :
    ∀ (fs : List MsgField) (k : ℕ), f.drop k = fs →
    ∀ {g : List MsgField} {addr : ℕ} {body : List UInt8},
      stampFields e mem k fs = some body → Holds mem' addr body → g.length = f.length →
      (∀ j (hj : j < g.length), k ≤ j → g[j].isSet = false) →
      ∃ g', msgParseFields e mem' (addr + body.length) g addr = (0, g') ∧
        (∀ j (hj : j < g.length) (hj' : j < g'.length), j < k → g'[j] = g[j]) ∧
        ∀ j (hj : j < f.length) (hj' : j < g'.length), k ≤ j →
          FieldAgree e mem mem' j f[j] g'[j] := by
  intro fs
  induction fs with
  | nil =>
    intro k hd g addr body hs _ _ _
    have hk : f.length ≤ k := List.drop_eq_nil_iff.mp hd
    simp only [stampFields, Option.some.injEq] at hs
    subst hs
    refine ⟨g, by simpa using msgParseFields_end e mem' g addr, fun _ _ _ _ => rfl, ?_⟩
    intro j hj _ hkj
    omega
  | cons mf fs ih =>
    intro k hd g addr body hs hmem hg hun
    have hk : k < f.length := by
      by_contra hk
      rw [List.drop_eq_nil_iff.mpr (by omega)] at hd
      cases hd
    rw [List.drop_eq_getElem_cons hk, List.cons.injEq] at hd
    obtain ⟨hmf, hd'⟩ := hd
    by_cases hset : mf.isSet = true
    · rw [stampFields, if_pos hset] at hs
      obtain ⟨s, hs1, hs2⟩ := Option.bind_eq_some_iff.mp hs
      obtain ⟨rest, hrest, rfl⟩ := Option.map_eq_some_iff.mp hs2
      obtain ⟨hms, hmr⟩ := holds_append.mp hmem
      have heob : addr + s.length ≤ addr + (s ++ rest).length := by simp
      obtain ⟨mf', hset', hval, hstep⟩ :=
        msgParseFields_stamp (f := g) hs1 (by omega) (by omega) hms heob
      have hun' : ∀ j (hj : j < (g.set k mf').length), k + 1 ≤ j → (g.set k mf')[j].isSet = false := by
        intro j hj hkj
        rw [List.getElem_set_ne (by omega)]
        exact hun j (by simpa using hj) (by omega)
      obtain ⟨g', hg', hlow, hhigh⟩ := ih (k + 1) hd' hrest hmr (by simpa using hg) hun'
      refine ⟨g', ?_, ?_, ?_⟩
      · rw [hstep, List.length_append, ← Nat.add_assoc, hg']
      · intro j hj hj' hjk
        rw [hlow j (by simpa using hj) hj' (by omega), List.getElem_set_ne (by omega)]
      · intro j hj hj' hkj
        rcases Nat.lt_or_ge k j with hkj' | hkj'
        · exact hhigh j hj hj' hkj'
        · obtain rfl : k = j := by omega
          have hk' : g'[k] = mf' := by
            rw [hlow k (by simp; omega) hj' (by omega), List.getElem_set_self]
          rw [hk', hmf]
          exact ⟨by rw [hset', hset], fun _ => hval⟩
    · rw [stampFields, if_neg hset] at hs
      obtain ⟨g', hg', hlow, hhigh⟩ := ih (k + 1) hd' hs hmem hg
        (fun j hj hkj => hun j hj (by omega))
      refine ⟨g', hg', fun j hj hj' hjk => hlow j hj hj' (by omega), ?_⟩
      intro j hj hj' hkj
      rcases Nat.lt_or_ge k j with hkj' | hkj'
      · exact hhigh j hj hj' hkj'
      · obtain rfl : k = j := by omega
        have hgk : g.length > k := by omega
        rw [hlow k hgk hj' (by omega), hmf]
        refine ⟨by rw [hun k hgk le_rfl]; simpa using hset, fun h => absurd h hset⟩

end Loop

/-! ### What the parser reads and where it points -/

/-- A slot after parsing, against the slot before: the same value and size, or a
value that is no buffer, or a buffer inside `[lo, hi)`. -/
def SlotWithin (lo hi : ℕ) (mf mf' : MsgField) : Prop :=
  (mf'.u = mf.u ∧ mf'.fieldSz = mf.fieldSz) ∨
    ∀ a, mf'.u = .anyBuf a → lo ≤ a ∧ a + mf'.fieldSz.toNat ≤ hi

namespace SlotWithin

variable {lo hi : ℕ} {mf mf' mf'' : MsgField}

theorem refl (mf : MsgField) : SlotWithin lo hi mf mf := .inl ⟨rfl, rfl⟩

theorem trans (h : SlotWithin lo hi mf mf') (h' : SlotWithin lo hi mf' mf'') :
    SlotWithin lo hi mf mf'' := by
  rcases h' with ⟨hu, hsz⟩ | hin
  · rcases h with ⟨hu', hsz'⟩ | hin
    · exact .inl ⟨hu.trans hu', hsz.trans hsz'⟩
    · exact .inr fun a ha => by rw [hsz]; exact hin a (hu ▸ ha)
  · exact .inr hin

end SlotWithin

section Parser

variable {e : MsgTypeEntry} {mem mem₂ : ℕ → UInt8}

theorem fieldSizes_snd_lt (mem : ℕ → UInt8) (buf : ℕ) (ft : UInt8) :
    (fieldSizes mem buf ft).2 < 2 ^ 32 := by
  unfold fieldSizes
  split_ifs
  · decide
  · decide
  · exact beRead_lt

theorem parsedField_slotWithin {lo hi id fsz buf : ℕ} (hlo : lo ≤ buf) (hhi : buf + fsz ≤ hi)
    (hfsz : fsz < 2 ^ 32) (mf : MsgField) :
    SlotWithin lo hi mf (parsedField e mem id fsz buf mf) := by
  unfold parsedField
  split
  next => exact .inr fun a ha => by cases ha
  next => exact .inr fun a ha => by cases ha
  next =>
    split_ifs
    · refine .inr fun a ha => ?_
      cases ha
      simp only [UInt32.toNat_ofNat', Nat.mod_eq_of_lt hfsz]
      omega
    · exact .inl ⟨rfl, rfl⟩
  next => exact .inl ⟨rfl, rfl⟩

theorem msgParseField_slotWithin (mem : ℕ → UInt8) (f : List MsgField) (id : ℕ) (ft : UInt8)
    {lo hi fsz buf : ℕ} (hlo : lo ≤ buf) (hhi : buf + fsz ≤ hi) (hfsz : fsz < 2 ^ 32) :
    ∀ j (hj : j < f.length) (hj' : j < (msgParseField e mem f id ft fsz buf).length),
      SlotWithin lo hi f[j] (msgParseField e mem f id ft fsz buf)[j] := by
  intro j hj hj'
  unfold msgParseField
  split_ifs with hc
  · rw [List.getElem_modify]
    split_ifs
    · exact parsedField_slotWithin hlo hhi hfsz _
    · exact .refl _
  · exact .refl _

theorem msgParseFields_slotWithin {lo : ℕ} (eob : ℕ) (f : List MsgField) (buf : ℕ) :
    lo ≤ buf → ∀ j (hj : j < f.length) (hj' : j < (msgParseFields e mem eob f buf).2.length),
      SlotWithin lo eob f[j] (msgParseFields e mem eob f buf).2[j] := by
  refine msgParseFields_induction e mem eob
    (P := fun f buf r => lo ≤ buf → ∀ j (hj : j < f.length) (hj' : j < r.2.length),
      SlotWithin lo eob f[j] r.2[j]) (fun _ _ _ _ _ _ _ _ => .refl _) ?_ f buf
  intro f buf r _ h5 ih hlo j hj hj'
  have hlo' : lo ≤ buf + msgFieldHdrSz + (fieldSizes mem buf (mem (buf + 2))).1 := by omega
  have hhi : buf + msgFieldHdrSz + (fieldSizes mem buf (mem (buf + 2))).1 +
      (fieldSizes mem buf (mem (buf + 2))).2 ≤ eob := by omega
  have hstep := msgParseField_slotWithin (e := e) mem f (beRead mem buf 2) (mem (buf + 2))
    hlo' hhi (fieldSizes_snd_lt mem buf (mem (buf + 2))) j hj (by simpa using hj)
  exact hstep.trans (ih (by omega) j (by simpa using hj) hj')

theorem msgParseFields_rc (eob : ℕ) (f : List MsgField) (buf : ℕ) :
    (msgParseFields e mem eob f buf).1 ∈ [0, -4, -5] :=
  msgParseFields_induction e mem eob (P := fun _ _ r => r.1 ∈ [0, -4, -5])
    (fun _ _ _ h => h) (fun _ _ _ _ _ ih => ih) f buf

theorem fieldSizes_congr {buf : ℕ} (ft : UInt8)
    (h : ∀ i < 4, mem₂ (buf + msgFieldHdrSz + i) = mem (buf + msgFieldHdrSz + i)) :
    fieldSizes mem₂ buf ft = fieldSizes mem buf ft := by
  unfold fieldSizes
  rw [beRead_congr h]

theorem parsedField_congr {id fsz buf : ℕ}
    (h4 : typeCode (e.mfType id) = MsgFieldType.uint32.code →
      ∀ i < 4, mem₂ (buf + i) = mem (buf + i))
    (h8 : typeCode (e.mfType id) = MsgFieldType.uint64.code →
      ∀ i < 8, mem₂ (buf + i) = mem (buf + i)) (mf : MsgField) :
    parsedField e mem₂ id fsz buf mf = parsedField e mem id fsz buf mf := by
  unfold parsedField
  cases ht : e.mfType id with
  | none => rfl
  | some t =>
    rw [ht] at h4 h8
    cases t
    case uint32 => rw [beRead_congr (h4 rfl)]
    case uint64 => rw [beRead_congr (h8 rfl)]
    all_goals rfl

theorem msgParseField_congr {f : List MsgField} {id : ℕ} {ft : UInt8} {fsz buf : ℕ}
    (h4 : ft = MsgFieldType.uint32.code → ∀ i < 4, mem₂ (buf + i) = mem (buf + i))
    (h8 : ft = MsgFieldType.uint64.code → ∀ i < 8, mem₂ (buf + i) = mem (buf + i)) :
    msgParseField e mem₂ f id ft fsz buf = msgParseField e mem f id ft fsz buf := by
  unfold msgParseField
  split_ifs with hc
  · obtain ⟨-, hft⟩ := hc
    have hfield : parsedField e mem₂ id fsz buf = parsedField e mem id fsz buf :=
      funext (parsedField_congr (fun h => h4 (hft.trans h)) (fun h => h8 (hft.trans h)))
    rw [hfield]
  · rfl

theorem msgParseFields_congr (eob : ℕ) :
    ∀ (f : List MsgField) (buf : ℕ), (∀ i, buf ≤ i → i < eob → mem₂ i = mem i) →
      msgParseFields e mem₂ eob f buf = msgParseFields e mem eob f buf := by
  intro f buf hmem
  induction h : eob - buf using Nat.strong_induction_on generalizing f buf with
  | _ n ih =>
    rw [msgParseFields.eq_1 e mem₂, msgParseFields.eq_1 e mem]
    by_cases h0 : eob - buf = 0
    · simp only [h0, if_true]
    by_cases h4 : eob - buf < msgFieldHdrSz + 4
    · simp only [h0, h4, if_true, if_false]
    have h4n : buf + msgFieldHdrSz + 4 ≤ eob := by omega
    have hft : mem₂ (buf + 2) = mem (buf + 2) :=
      hmem _ (by omega) (by simp only [msgFieldHdrSz] at h4n; omega)
    have hsz : fieldSizes mem₂ buf (mem (buf + 2)) = fieldSizes mem buf (mem (buf + 2)) :=
      fieldSizes_congr _ fun i hi => hmem _ (by omega) (by omega)
    have hid : beRead mem₂ buf 2 = beRead mem buf 2 :=
      beRead_congr fun i hi => hmem _ (by omega) (by simp only [msgFieldHdrSz] at h4n; omega)
    simp only [h0, h4, if_false, hft, hsz, hid]
    split_ifs with h5 hb
    · rfl
    all_goals
      have hread : ∀ w, (fieldSizes mem buf (mem (buf + 2))).2 = w → ∀ i < w,
          mem₂ (buf + msgFieldHdrSz + (fieldSizes mem buf (mem (buf + 2))).1 + i) =
            mem (buf + msgFieldHdrSz + (fieldSizes mem buf (mem (buf + 2))).1 + i) := by
        intro w hw i hi
        exact hmem _ (by omega) (by omega)
      have h4v : mem (buf + 2) = MsgFieldType.uint32.code → ∀ i < 4,
          mem₂ (buf + msgFieldHdrSz + (fieldSizes mem buf (mem (buf + 2))).1 + i) =
            mem (buf + msgFieldHdrSz + (fieldSizes mem buf (mem (buf + 2))).1 + i) :=
        fun hc => hread 4 (by rw [hc]; rfl)
      have h8v : mem (buf + 2) = MsgFieldType.uint64.code → ∀ i < 8,
          mem₂ (buf + msgFieldHdrSz + (fieldSizes mem buf (mem (buf + 2))).1 + i) =
            mem (buf + msgFieldHdrSz + (fieldSizes mem buf (mem (buf + 2))).1 + i) :=
        fun hc => hread 8 (by rw [hc]; rfl)
      rw [msgParseField_congr h4v h8v]
    exact ih _ (by simp only [msgFieldHdrSz] at *; omega) _ _
      (fun i hi hi' => hmem i (by omega) hi') rfl

end Parser

/-! ### Messages -/

/-- A message to parse into: of the type of `m`, with as many slots, all unset.
`msg_create` and `msg_reset` leave one. -/
def Msg.IsFreshFor (m0 m : Msg) : Prop :=
  m0.type = m.type ∧ m0.f.length = m.f.length ∧ ∀ mf ∈ m0.f, mf.isSet = false

theorem msgCreate_isFreshFor (e : MsgTypeEntry) (m : Msg) (h : m.f.length = e.mt.length) :
    (msgCreate m.type e).IsFreshFor m := by
  refine ⟨rfl, by simp [msgCreate, h], ?_⟩
  intro mf hmf
  simp only [msgCreate, List.mem_replicate] at hmf
  rw [hmf.2]
  rfl

theorem msgReset_isFreshFor {m1 m : Msg} (ht : m1.type = m.type) (hl : m1.f.length = m.f.length) :
    (msgReset m1).IsFreshFor m := by
  refine ⟨ht, by simpa [msgReset] using hl, ?_⟩
  intro mf hmf
  simp only [msgReset, List.mem_map] at hmf
  obtain ⟨_, _, rfl⟩ := hmf
  rfl

/-- A message read back: the type of the message written, as many slots, and
every slot agreeing. -/
def MsgAgree (e : MsgTypeEntry) (mem mem' : ℕ → UInt8) (m m' : Msg) : Prop :=
  m'.type = m.type ∧ m'.f.length = m.f.length ∧
    ∀ j (hj : j < m.f.length) (hj' : j < m'.f.length), FieldAgree e mem mem' j m.f[j] m'.f[j]

theorem msgParse_of_header (e : MsgTypeEntry) {m : Msg} {mem : ℕ → UInt8} {base bufsz : ℕ}
    (h2 : beRead mem base 4 + msgHdrSz ≤ bufsz) (h3 : m.type.val = beRead mem (base + 4) 2) :
    (msgParse e m mem base bufsz).1 =
        (msgParseFields e mem (base + msgHdrSz + beRead mem base 4) m.f (base + msgHdrSz)).1 ∧
      (msgParse e m mem base bufsz).2.f =
        (msgParseFields e mem (base + msgHdrSz + beRead mem base 4) m.f (base + msgHdrSz)).2 ∧
      (msgParse e m mem base bufsz).2.type = m.type := by
  have h1 : ¬ bufsz < msgHdrSz := by simp only [msgHdrSz] at *; omega
  have h2' : ¬ bufsz < beRead mem base 4 + msgHdrSz := by omega
  have h3' : ¬ m.type.val ≠ beRead mem (base + 4) 2 := by simpa using h3
  rw [msgParse, if_neg h1, if_neg h2', if_neg h3', msgParseResult_fst, msgParseResult_f,
    msgParseResult_type]
  exact ⟨rfl, rfl, rfl⟩

/-- `msg_parse` of the bytes `msg_to_wire` wrote, into a fresh message of the same
type, whose body fits the 32-bit size of the header: code `0`, and the message
read back agrees with the one written. -/
theorem msgParse_msgToWire {e : MsgTypeEntry} {mem mem' : ℕ → UInt8} {m m0 : Msg}
    {body : List UInt8} {base bufsz : ℕ} (hb : stampFields e mem 0 m.f = some body)
    (hfit : body.length < 2 ^ 32) (hfresh : m0.IsFreshFor m)
    (hmem : Holds mem' base (beBytes 4 body.length ++ beBytes 2 m.type.val ++ body))
    (hbuf : msgHdrSz + body.length ≤ bufsz) :
    (msgParse e m0 mem' base bufsz).1 = 0 ∧ MsgAgree e mem mem' m (msgParse e m0 mem' base bufsz).2 := by
  obtain ⟨htype, hlen, hunset⟩ := hfresh
  rw [holds_append, holds_append] at hmem
  obtain ⟨⟨hsz, hty⟩, hbody⟩ := hmem
  have hszv : beRead mem' base 4 = body.length := by
    rw [hsz.beRead_eq, Nat.mod_eq_of_lt (by omega)]
  have htyv : beRead mem' (base + 4) 2 = m.type.val := by
    rw [length_beBytes] at hty
    rw [hty.beRead_eq, Nat.mod_eq_of_lt (by have := m.type.isLt; omega)]
  have h2 : beRead mem' base 4 + msgHdrSz ≤ bufsz := by omega
  have h3 : m0.type.val = beRead mem' (base + 4) 2 := by rw [htyv, htype]
  obtain ⟨hrc, hf, htype'⟩ := msgParse_of_header e h2 h3
  have hbody' : Holds mem' (base + msgHdrSz) body := by simpa [msgHdrSz] using hbody
  obtain ⟨g', hg', -, hagree⟩ :=
    msgParseFields_stampFields m.nFields_lt m.f 0 rfl hb
      hbody' hlen (fun j hj _ => hunset _ (List.getElem_mem hj))
  rw [hszv, hg'] at hrc hf
  have hlen' : g'.length = m.f.length := by
    rw [← hlen, ← length_msgParseFields e mem' (base + msgHdrSz + body.length) m0.f
      (base + msgHdrSz), hg']
  refine ⟨hrc, by rw [htype', htype], by rw [hf, hlen'], ?_⟩
  intro j hj hj'
  rw [List.getElem_of_eq hf hj']
  exact hagree j hj _ (Nat.zero_le j)

/-- What `msg_to_wire` writes for a message whose set slots have wire types and
whose body fits the 32-bit size of the header: as many bytes as
`msg_get_wire_size` counts, that size returned, and bytes that `msg_parse` reads
back into a fresh message with code `0` and agreeing slots. -/
theorem msgToWire_msgParse {e : MsgTypeEntry} {mem : ℕ → UInt8} {m m0 : Msg}
    (hwt : setFieldsWireTyped e 0 m.f = true) (hfresh : m0.IsFreshFor m)
    (hfit : ∀ n, msgGetWireSize e m = some n → n < msgHdrSz + 2 ^ 32) :
    ∃ bytes, msgToWire e mem m = some (bytes, bytes.length) ∧
      msgGetWireSize e m = some bytes.length ∧
      ∀ (mem' : ℕ → UInt8) (base bufsz : ℕ), Holds mem' base bytes → bytes.length ≤ bufsz →
        (msgParse e m0 mem' base bufsz).1 = 0 ∧ MsgAgree e mem mem' m (msgParse e m0 mem' base bufsz).2 := by
  obtain ⟨body, hb⟩ := stampFields_eq_some mem hwt
  have hsize : msgGetWireSize e m = some (msgHdrSz + body.length) := by
    rw [msgGetWireSize, fieldsWireSize_of_stampFields hb, Option.map_some]
  have hlt : body.length < 2 ^ 32 := by
    have := hfit _ hsize
    simp only [msgHdrSz] at this
    omega
  have hlen : (beBytes 4 body.length ++ beBytes 2 m.type.val ++ body).length =
      msgHdrSz + body.length := by
    simp only [List.length_append, length_beBytes, msgHdrSz]
  refine ⟨beBytes 4 body.length ++ beBytes 2 m.type.val ++ body, ?_, by rw [hsize, hlen], ?_⟩
  · rw [msgToWire, hb, Option.map_some, Nat.mod_eq_of_lt hlt, hlen]
  · intro mem' base bufsz hmem hbuf
    exact msgParse_msgToWire hb hlt hfresh hmem (hlen ▸ hbuf)

theorem msgParse_cases (e : MsgTypeEntry) (m : Msg) (mem : ℕ → UInt8) (base bufsz : ℕ) :
    ((msgParse e m mem base bufsz).1 ∈ [-1, -2, -3] ∧ (msgParse e m mem base bufsz).2 = m) ∨
      (beRead mem base 4 + msgHdrSz ≤ bufsz ∧ m.type.val = beRead mem (base + 4) 2) := by
  by_cases h1 : bufsz < msgHdrSz
  · rw [msgParse, if_pos h1]
    simp
  by_cases h2 : bufsz < beRead mem base 4 + msgHdrSz
  · rw [msgParse, if_neg h1, if_pos h2]
    simp
  by_cases h3 : m.type.val ≠ beRead mem (base + 4) 2
  · rw [msgParse, if_neg h1, if_neg h2, if_pos h3]
    simp
  exact .inr ⟨by omega, not_not.mp h3⟩

theorem msgParse_rc (e : MsgTypeEntry) (m : Msg) (mem : ℕ → UInt8) (base bufsz : ℕ) :
    (msgParse e m mem base bufsz).1 ∈ [0, -1, -2, -3, -4, -5] := by
  rcases msgParse_cases e m mem base bufsz with ⟨hrc, -⟩ | ⟨h2, h3⟩
  · simp only [List.mem_cons, List.not_mem_nil, or_false] at hrc ⊢
    omega
  · have hrc : (msgParseFields e mem (base + msgHdrSz + beRead mem base 4) m.f
        (base + msgHdrSz)).1 ∈ [0, -4, -5] := msgParseFields_rc _ _ _
    rw [← (msgParse_of_header e h2 h3).1] at hrc
    simp only [List.mem_cons, List.not_mem_nil, or_false] at hrc ⊢
    omega

theorem msgParse_congr (e : MsgTypeEntry) (m : Msg) {mem mem₂ : ℕ → UInt8} {base bufsz : ℕ}
    (h : ∀ i < min bufsz (msgHdrSz + beRead mem base 4), mem₂ (base + i) = mem (base + i)) :
    msgParse e m mem₂ base bufsz = msgParse e m mem base bufsz := by
  by_cases h1 : bufsz < msgHdrSz
  · rw [msgParse, msgParse, if_pos h1, if_pos h1]
  have hhdr : ∀ i < msgHdrSz, mem₂ (base + i) = mem (base + i) :=
    fun i hi => h i (by simp only [msgHdrSz] at *; omega)
  have hsz : beRead mem₂ base 4 = beRead mem base 4 :=
    beRead_congr fun i hi => hhdr i (by simp only [msgHdrSz]; omega)
  have hty : beRead mem₂ (base + 4) 2 = beRead mem (base + 4) 2 := by
    refine beRead_congr fun i hi => ?_
    rw [Nat.add_assoc]
    exact hhdr _ (by simp only [msgHdrSz]; omega)
  rw [msgParse, msgParse]
  simp only [hsz, hty, h1, if_false]
  split_ifs with h2 h3
  · rfl
  · rfl
  refine msgParseResult_congr (msgParseFields_congr _ _ _ fun i hi hi' => ?_)
  have := h (i - base) (by omega)
  rwa [Nat.add_sub_cancel' (by omega)] at this

theorem msgParse_slotWithin (e : MsgTypeEntry) (m : Msg) (mem : ℕ → UInt8) (base bufsz : ℕ) :
    ∀ j (hj : j < m.f.length) (hj' : j < (msgParse e m mem base bufsz).2.f.length),
      SlotWithin (base + msgHdrSz) (base + msgHdrSz + beRead mem base 4) m.f[j]
        (msgParse e m mem base bufsz).2.f[j] := by
  intro j hj hj'
  rcases msgParse_cases e m mem base bufsz with ⟨-, hm⟩ | ⟨h2, h3⟩
  · rw [List.getElem_of_eq (congrArg Msg.f hm) hj']
    exact .refl _
  · rw [List.getElem_of_eq (msgParse_of_header e h2 h3).2.1 hj']
    exact msgParseFields_slotWithin _ _ _ le_rfl j hj _

/-! ### The wire format as a whole -/

/-- Fabric messages whose set slots have wire types and whose body fits the 32-bit
size of the header survive `msg_to_wire` and `msg_parse`; and on any bytes
`msg_parse` returns one of its codes, reads nothing past the buffer or the body
its header announces, and leaves every slot as it was or pointing into the body. -/
theorem msg_wire_round_trip_and_parse_safe (e : MsgTypeEntry) :
    (∀ (mem : ℕ → UInt8) (m m0 : Msg), setFieldsWireTyped e 0 m.f = true → m0.IsFreshFor m →
      (∀ n, msgGetWireSize e m = some n → n < msgHdrSz + 2 ^ 32) →
      ∃ bytes, msgToWire e mem m = some (bytes, bytes.length) ∧
        msgGetWireSize e m = some bytes.length ∧
        ∀ (mem' : ℕ → UInt8) (base bufsz : ℕ), Holds mem' base bytes → bytes.length ≤ bufsz →
          (msgParse e m0 mem' base bufsz).1 = 0 ∧
            MsgAgree e mem mem' m (msgParse e m0 mem' base bufsz).2) ∧
    ∀ (m : Msg) (mem mem₂ : ℕ → UInt8) (base bufsz : ℕ),
      (msgParse e m mem base bufsz).1 ∈ [0, -1, -2, -3, -4, -5] ∧
      ((∀ i < min bufsz (msgHdrSz + beRead mem base 4), mem₂ (base + i) = mem (base + i)) →
        msgParse e m mem₂ base bufsz = msgParse e m mem base bufsz) ∧
      ∀ j (hj : j < m.f.length) (hj' : j < (msgParse e m mem base bufsz).2.f.length),
        SlotWithin (base + msgHdrSz) (base + msgHdrSz + beRead mem base 4) m.f[j]
          (msgParse e m mem base bufsz).2.f[j] :=
  ⟨fun _ _ _ hwt hfresh hfit => msgToWire_msgParse hwt hfresh hfit,
    fun m mem _ base bufsz => ⟨msgParse_rc e m mem base bufsz, msgParse_congr e m,
      msgParse_slotWithin e m mem base bufsz⟩⟩

def twoFieldEntry : MsgTypeEntry := ⟨[some .uint32, some .buf], by decide⟩

def twoFieldMsg : Msg := ⟨0, [⟨true, 0, .ui32 7⟩, ⟨true, 2, .anyBuf 100⟩], by decide, false⟩

theorem msg_wire_round_trip_two_fields :
    ∃ bytes, msgToWire twoFieldEntry (fun _ => 0) twoFieldMsg = some (bytes, bytes.length) ∧
      msgGetWireSize twoFieldEntry twoFieldMsg = some bytes.length ∧
      ∀ (mem' : ℕ → UInt8) (base bufsz : ℕ), Holds mem' base bytes → bytes.length ≤ bufsz →
        (msgParse twoFieldEntry (msgCreate 0 twoFieldEntry) mem' base bufsz).1 = 0 ∧
          MsgAgree twoFieldEntry (fun _ => 0) mem' twoFieldMsg
            (msgParse twoFieldEntry (msgCreate 0 twoFieldEntry) mem' base bufsz).2 :=
  (msg_wire_round_trip_and_parse_safe twoFieldEntry).1 _ _ _ (by decide)
    (msgCreate_isFreshFor twoFieldEntry twoFieldMsg rfl) fun n hn => by
      rw [show msgGetWireSize twoFieldEntry twoFieldMsg = some 22 by rfl, Option.some.injEq] at hn
      omega

def bufEntry : MsgTypeEntry := ⟨[some .buf], by decide⟩

def overflowMsg : Msg := ⟨0, [⟨true, 4294967289, .anyBuf 0⟩], by decide, false⟩

/-- The body `msg_to_wire` writes for `overflowMsg`. -/
def overflowBody (mem : ℕ → UInt8) : List UInt8 :=
  beBytes 2 0 ++ [MsgFieldType.buf.code] ++ beBytes 4 4294967289 ++ read mem 0 4294967289

/-- The bytes `msg_to_wire` writes for `overflowMsg`: its header announces an
empty body. -/
def overflowWire (mem : ℕ → UInt8) : List UInt8 := beBytes 4 0 ++ beBytes 2 0 ++ overflowBody mem

theorem length_overflowBody (mem : ℕ → UInt8) : (overflowBody mem).length = 2 ^ 32 := by
  simp [overflowBody]

/-- A body of `2^32` bytes: `msg_to_wire` returns `6` though it wrote `2^32 + 6`
bytes, as `msg_get_wire_size` counts, and `msg_parse` of those bytes returns `0`
with the buffer field unset. -/
theorem msg_wire_body_overflow :
    msgToWire bufEntry (fun _ => 0) overflowMsg = some (overflowWire fun _ => 0, msgHdrSz) ∧
      msgGetWireSize bufEntry overflowMsg = some (msgHdrSz + 2 ^ 32) ∧
      (overflowWire fun _ => 0).length = msgHdrSz + 2 ^ 32 ∧
      (msgParse bufEntry (msgCreate 0 bufEntry) (fun a => (overflowWire fun _ => 0).getD a 0) 0
        (msgHdrSz + 2 ^ 32)).1 = 0 ∧
      ¬ MsgAgree bufEntry (fun _ => 0) (fun a => (overflowWire fun _ => 0).getD a 0) overflowMsg
        (msgParse bufEntry (msgCreate 0 bufEntry) (fun a => (overflowWire fun _ => 0).getD a 0) 0
          (msgHdrSz + 2 ^ 32)).2 := by
  have hb : stampFields bufEntry (fun _ => 0) 0 overflowMsg.f = some (overflowBody fun _ => 0) := by
    show stampFields bufEntry (fun _ => 0) 0 [⟨true, 4294967289, .anyBuf 0⟩] = _
    rw [stampFields, if_pos rfl, stampFields]
    simp only [Option.map_some, List.append_nil]
    rfl
  have hlen := length_overflowBody fun _ => 0
  obtain ⟨hhdr, -⟩ := holds_append.mp (holds_getD (overflowWire fun _ => 0))
  obtain ⟨hsz, hty⟩ := holds_append.mp hhdr
  rw [length_beBytes] at hty
  have hszv : beRead (fun a => (overflowWire fun _ => 0).getD a 0) 0 4 = 0 := by
    rw [hsz.beRead_eq, Nat.zero_mod]
  have h2 : beRead (fun a => (overflowWire fun _ => 0).getD a 0) 0 4 + msgHdrSz ≤
      msgHdrSz + 2 ^ 32 := by
    rw [hszv]; omega
  have h3 : (msgCreate 0 bufEntry).type.val =
      beRead (fun a => (overflowWire fun _ => 0).getD a 0) (0 + 4) 2 := by
    rw [hty.beRead_eq, Nat.zero_mod]; rfl
  obtain ⟨hrc, hf, -⟩ := msgParse_of_header bufEntry h2 h3
  rw [hszv, Nat.add_zero, msgParseFields_end] at hrc hf
  refine ⟨?_, ?_, ?_, hrc, ?_⟩
  · rw [msgToWire, hb, Option.map_some, hlen, Nat.mod_self]
    rfl
  · rw [msgGetWireSize, fieldsWireSize_of_stampFields hb, Option.map_some, hlen]
  · simp only [overflowWire, List.length_append, length_beBytes, hlen, msgHdrSz]
  · rintro ⟨-, -, hagree⟩
    have h0 := (hagree 0 (by decide) (by rw [hf]; decide)).1
    rw [List.getElem_of_eq hf] at h0
    simp [msgCreate, MsgField.unset, overflowMsg] at h0

end Aerospike.Fabric
