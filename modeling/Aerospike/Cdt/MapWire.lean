import Aerospike.Cdt.Base

/-! # A map particle on the wire, and record pickling

Replication and migration ship a record as a pickle (`as_record_pickle`,
`record.c`): for each bin its name and its particle as `to_wire_fn` writes it,
in a buffer sized by `wire_size_fn`. `unpickle_bins` reads the bins back and
requires the buffer to be used up exactly.

For a map (`particle_map.c`) the size is `map_wire_size` and the bytes are
those of `map_particle_strip_indexes`, which drops the index bits of the flags
and the ext pair with them when no other flag remains. The two disagree when
the ext pair carries no flag that survives: a map stored with an ext pair of
flags `0` (which `map_from_wire` accepts and keeps as it is, and which every
map operation reads as an unordered map) is sized with its ext pair but
written without it, under a header that still counts it.

Only the sizes and element counts matter here. The header sizes
`as_pack_list_header_get_size` and `as_pack_ext_header_get_size` belong to the
msgpack library and are parameters; the results need only that a header of more
elements is no smaller.
-/

namespace Aerospike.Cdt

def mapIndexFlags : UInt8 := 0x10 ||| 0x20

/-- A packed map as its header reads: the flags and content size of the ext
pair that may lead it, the number of pairs after, and their size. -/
structure MapPacked where
  ext : Option (UInt8 × ℕ)
  eleCount : ℕ
  contentSz : ℕ
  deriving DecidableEq, Repr

section Sizes

variable (packHeaderSize : ℕ → ℕ) (packExtHeaderSize : ℕ → ℕ)

namespace MapPacked

/-- The particle's size: the header, the ext pair (ext header, content, nil
value), the pairs. -/
def packedSz (m : MapPacked) : ℕ :=
  match m.ext with
  | none => packHeaderSize m.eleCount + m.contentSz
  | some (_, extSz) => packHeaderSize (m.eleCount + 1) + packExtHeaderSize extSz + extSz + 1 + m.contentSz

/-- `map.flags` as `packed_map_unpack_hdridx` reads it. -/
def flags (m : MapPacked) : UInt8 :=
  match m.ext with
  | none => 0
  | some (f, _) => f

end MapPacked

/-- `map_wire_size`: the particle as it is when it has no flags, else the pairs
under a header and an empty ext pair. -/
def mapWireSize (m : MapPacked) : ℕ :=
  if m.flags = 0 then m.packedSz packHeaderSize packExtHeaderSize
  else m.contentSz + packHeaderSize (m.eleCount + 1) + 3 + 1

/-- `map_particle_strip_indexes`: the element count of the header it writes,
the number of pairs it writes after it, and the bytes it writes. -/
def mapParticleStripIndexes (m : MapPacked) : ℕ × ℕ × ℕ :=
  match m.ext with
  | none => (m.eleCount, m.eleCount, packHeaderSize m.eleCount + m.contentSz)
  | some (flags, _) =>
    let eleCount := if flags ≠ 0 then m.eleCount else m.eleCount + 1
    let kept := flags &&& ~~~mapIndexFlags
    if kept ≠ 0 then
      (eleCount + 1, m.eleCount + 1, packHeaderSize (eleCount + 1) + 3 + 1 + m.contentSz)
    else (eleCount, m.eleCount, packHeaderSize eleCount + m.contentSz)

end Sizes

/-! ### Pickling -/

/-- A bin as pickling sees it: the length of its name, the size
`wire_size_fn` gives its particle, and the bytes `to_wire_fn` writes. -/
structure PickledBin where
  nameLen : ℕ
  wireSize : ℕ
  writtenSize : ℕ
  deriving DecidableEq, Repr

/-- The length `as_record_pickle` computes and returns: two bytes of bin count,
then per bin its name length, name, a spare byte, and the particle's type byte,
four size bytes and wire size. -/
def asRecordPickleLen (bins : List PickledBin) : ℕ :=
  2 + (bins.map fun b => 1 + b.nameLen + 1 + (1 + 4 + b.wireSize)).sum

/-- The bytes `as_record_pickle` writes: `as_bin_particle_to_pickled` records
and writes the size `to_wire_fn` returns. -/
def asRecordPickleWritten (bins : List PickledBin) : ℕ :=
  2 + (bins.map fun b => 1 + b.nameLen + 1 + (1 + 4 + b.writtenSize)).sum

def resultFailUnknown : Int := 1

/-- `unpickle_bins` on the pickle of these bins, each particle read back: each
bin takes its header and the value size it records, so it ends where the
writing ended; `OK` when that is the buffer's end, else the "extra bytes"
failure. -/
def unpickleBins (bins : List PickledBin) : Int :=
  if asRecordPickleWritten bins = asRecordPickleLen bins then 0 else resultFailUnknown

/-! ### Sizes against bytes -/

theorem kept_flags_zero : (0 : UInt8) &&& ~~~mapIndexFlags = 0 := by decide

section Sizes

variable {packHeaderSize : ℕ → ℕ} {packExtHeaderSize : ℕ → ℕ}

/-- `map_particle_strip_indexes` writes a header that counts the pairs it
writes, and as many bytes as `map_wire_size` says, exactly when the map has no
ext pair or its flags keep a bit besides the index bits. -/
theorem mapParticleStripIndexes_eq_iff (hmono : Monotone packHeaderSize) (m : MapPacked) :
    ((mapParticleStripIndexes packHeaderSize m).1 = (mapParticleStripIndexes packHeaderSize m).2.1 ∧
      (mapParticleStripIndexes packHeaderSize m).2.2 =
        mapWireSize packHeaderSize packExtHeaderSize m) ↔
      m.ext = none ∨ m.flags &&& ~~~mapIndexFlags ≠ 0 := by
  obtain ⟨ext, n, c⟩ := m
  cases ext with
  | none => simp [mapParticleStripIndexes, mapWireSize, MapPacked.flags, MapPacked.packedSz]
  | some e =>
    obtain ⟨f, sz⟩ := e
    simp only [mapParticleStripIndexes, mapWireSize, MapPacked.flags, MapPacked.packedSz,
      reduceCtorEq, false_or]
    by_cases hf : f = 0
    · subst hf
      simp only [ne_eq, not_true_eq_false, if_false, kept_flags_zero, if_true]
      rw [iff_false]
      omega
    by_cases hkept : f &&& ~~~mapIndexFlags = 0
    · have : packHeaderSize n ≤ packHeaderSize (n + 1) := hmono (Nat.le_succ n)
      simp only [ne_eq, hf, not_false_eq_true, if_true, hkept, not_true_eq_false, if_false]
      rw [true_and, iff_false]
      omega
    · simp only [ne_eq, hf, not_false_eq_true, if_true, hkept, if_false]
      rw [true_and, iff_true]
      omega

theorem mapParticleStripIndexes_lt (hmono : Monotone packHeaderSize) {m : MapPacked} {f : UInt8}
    {sz : ℕ} (hext : m.ext = some (f, sz)) (hkept : f &&& ~~~mapIndexFlags = 0) :
    (mapParticleStripIndexes packHeaderSize m).2.2 <
      mapWireSize packHeaderSize packExtHeaderSize m := by
  obtain ⟨ext, n, c⟩ := m
  subst hext
  simp only [mapParticleStripIndexes, mapWireSize, MapPacked.flags, MapPacked.packedSz, hkept,
    ne_eq, not_true_eq_false, if_false]
  by_cases hf : f = 0
  · simp only [hf, not_true_eq_false, if_false, if_true]
    omega
  · have : packHeaderSize n ≤ packHeaderSize (n + 1) := hmono (Nat.le_succ n)
    simp only [hf, not_false_eq_true, if_true, if_false]
    omega

end Sizes

theorem asRecordPickleWritten_lt {bins : List PickledBin}
    (hle : ∀ b ∈ bins, b.writtenSize ≤ b.wireSize) (hlt : ∃ b ∈ bins, b.writtenSize < b.wireSize) :
    asRecordPickleWritten bins < asRecordPickleLen bins := by
  have hsum := List.sum_lt_sum (l := bins) (fun b => 1 + b.nameLen + 1 + (1 + 4 + b.writtenSize))
    (fun b => 1 + b.nameLen + 1 + (1 + 4 + b.wireSize))
    (fun b hb => by have := hle b hb; omega)
    (by obtain ⟨b, hb, h⟩ := hlt; exact ⟨b, hb, by omega⟩)
  rw [asRecordPickleWritten, asRecordPickleLen]
  omega

theorem unpickleBins_of_short {bins : List PickledBin}
    (hle : ∀ b ∈ bins, b.writtenSize ≤ b.wireSize) (hlt : ∃ b ∈ bins, b.writtenSize < b.wireSize) :
    unpickleBins bins = resultFailUnknown := by
  rw [unpickleBins, if_neg (asRecordPickleWritten_lt hle hlt).ne]

/-- A record holding a map whose ext pair keeps no flag but the index bits
(flags `0` among them), beside bins that write no more than they are sized
for: `as_record_pickle` writes fewer bytes than the length it returns, and
`unpickle_bins` fails on the pickle. This holds for any header sizes that grow
with the element count. -/
theorem pickle_map_ext_without_flags_fails {packHeaderSize packExtHeaderSize : ℕ → ℕ}
    (hmono : Monotone packHeaderSize) (m : MapPacked) {f : UInt8} {sz : ℕ}
    (hext : m.ext = some (f, sz)) (hkept : f &&& ~~~mapIndexFlags = 0) (nameLen : ℕ)
    (others : List PickledBin) (hothers : ∀ b ∈ others, b.writtenSize ≤ b.wireSize) :
    let bin : PickledBin := ⟨nameLen, mapWireSize packHeaderSize packExtHeaderSize m,
      (mapParticleStripIndexes packHeaderSize m).2.2⟩
    asRecordPickleWritten (bin :: others) < asRecordPickleLen (bin :: others) ∧
      unpickleBins (bin :: others) = resultFailUnknown := by
  intro bin
  have hlt : bin.writtenSize < bin.wireSize := mapParticleStripIndexes_lt hmono hext hkept
  have hle : ∀ b ∈ bin :: others, b.writtenSize ≤ b.wireSize := by
    intro b hb
    rcases List.mem_cons.mp hb with rfl | hb
    · exact hlt.le
    · exact hothers b hb
  have hshort : ∃ b ∈ bin :: others, b.writtenSize < b.wireSize := ⟨bin, List.mem_cons_self, hlt⟩
  exact ⟨asRecordPickleWritten_lt hle hshort, unpickleBins_of_short hle hshort⟩

/-- The header sizes of the msgpack format, as one instance of the parameters:
a map or array header of `n` elements takes `1`, `3` or `5` bytes, an ext header
of `sz` content bytes `2` to `6`. -/
def msgpackHeaderSize (n : ℕ) : ℕ := if n < 16 then 1 else if n < 2 ^ 16 then 3 else 5

def msgpackExtHeaderSize (sz : ℕ) : ℕ :=
  if sz = 1 ∨ sz = 2 ∨ sz = 4 ∨ sz = 8 ∨ sz = 16 then 2
  else if sz < 2 ^ 8 then 3 else if sz < 2 ^ 16 then 4 else 6

theorem msgpackHeaderSize_monotone : Monotone msgpackHeaderSize := by
  intro a b hab
  unfold msgpackHeaderSize
  split_ifs <;> omega

theorem pickle_map_ext_flags_zero_fails :
    Monotone msgpackHeaderSize ∧
    asRecordPickleWritten [⟨1, mapWireSize msgpackHeaderSize msgpackExtHeaderSize ⟨some (0, 0), 1, 2⟩,
        (mapParticleStripIndexes msgpackHeaderSize ⟨some (0, 0), 1, 2⟩).2.2⟩] <
      asRecordPickleLen [⟨1, mapWireSize msgpackHeaderSize msgpackExtHeaderSize ⟨some (0, 0), 1, 2⟩,
        (mapParticleStripIndexes msgpackHeaderSize ⟨some (0, 0), 1, 2⟩).2.2⟩] ∧
    unpickleBins [⟨1, mapWireSize msgpackHeaderSize msgpackExtHeaderSize ⟨some (0, 0), 1, 2⟩,
        (mapParticleStripIndexes msgpackHeaderSize ⟨some (0, 0), 1, 2⟩).2.2⟩] = resultFailUnknown :=
  ⟨msgpackHeaderSize_monotone,
    pickle_map_ext_without_flags_fails msgpackHeaderSize_monotone ⟨some (0, 0), 1, 2⟩ rfl
      kept_flags_zero 1 [] (fun _ hb => absurd hb List.not_mem_nil)⟩

end Aerospike.Cdt
