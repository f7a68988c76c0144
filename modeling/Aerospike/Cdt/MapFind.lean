import Aerospike.Cdt.ListOffset
import Aerospike.Cdt.MapItems
import Aerospike.Cdt.Mask

/-! # Finding a key in a packed map

`packed_map_find_key` (`particle_map.c`) finds where a key belongs in a map: the
index of its pair, or of the first pair of a greater key, or the end, with that
pair's key offset, value offset and size. A key-ordered map with a full offset
index is searched by `packed_map_find_key_indexed`, a binary search over the
index. Any other key-ordered map is scanned from `find->lower`, reading pair
sizes from its offset index (`map_offset_index_get_delta`, which fills the index
as it goes) or skipping values when it has none. An unordered map is scanned
from its start.

The contents are read through two functions on byte offsets: `readKey`, what
`as_unpack_compare` reads of the element at an offset (a key and its size), and
`next`, `as_unpack_size`. Keys are elements of a linear order standing for
`as_unpack_compare`. On a map that holds pairs of increasing keys, the binary
search and the scan find the same place.
-/

namespace Aerospike.Cdt

/-- The fields of `map_ele_find` that the key lookups set and read. -/
structure MapEleFind where
  foundKey : Bool
  idx : ℕ
  keyOffset : ℕ
  valueOffset : ℕ
  sz : ℕ
  upper : ℕ
  lower : ℕ
deriving DecidableEq, Repr

/-- What a key lookup reports: whether the key was found, the index, the key
offset, the value offset and the size of the pair. -/
def MapEleFind.found (f : MapEleFind) : Bool × ℕ × ℕ × ℕ × ℕ :=
  (f.foundKey, f.idx, f.keyOffset, f.valueOffset, f.sz)

/-- What the key lookups read of a `packed_map` besides its contents: whether
its keys are ordered, its element count and content size, and its offset index
(`none` when not valid). -/
structure PackedMap where
  kOrdered : Bool
  eleCount : ℕ
  contentSz : ℕ
  offidx : Option OffsetIndex

/-- `offset_index_is_full` of a valid index. -/
def offsetIndexIsFull (o : OffsetIndex) : Bool := o.eleCount = 0 || o.getFilled = o.eleCount

/-- `offset_index_set_next` on an index that may be missing. -/
def offsetIndexSetNextOpt (oi : Option OffsetIndex) (index value : ℕ) : Option (Option OffsetIndex) :=
  match oi with
  | some o => (o.setNext index value).map fun r => some r.1
  | none => some none

variable {κ : Type} [LinearOrder κ]

section Defs

variable (readKey : ℕ → Option (κ × ℕ)) (next : ℕ → Option ℕ) (k : κ)

/-! ### The binary search -/

/-- The size of pair `idx` at `offset` in the binary search: to the next entry of
the index, or to the end of the contents. -/
def pairSzAt (m : PackedMap) (o : OffsetIndex) (idx offset : ℕ) : Option ℕ :=
  if idx + 1 ≥ m.eleCount then some (m.contentSz - offset)
  else (o.getConst (idx + 1)).map (· - offset)

/-- The loop of `packed_map_find_key_indexed` from probe `idx`, for at most
`fuel` rounds; `none` when the function returns `false` or crashes. -/
def findKeyIndexedLoop (m : PackedMap) (o : OffsetIndex) : ℕ → MapEleFind → ℕ → Option MapEleFind
  | 0, _, _ => none
  | fuel + 1, find, idx =>
    (o.getConst idx).bind fun offset => (readKey offset).bind fun r =>
      match compare k r.1 with
      | .eq =>
        if find.foundKey then some find
        else (pairSzAt m o idx offset).map fun sz =>
          { find with
            foundKey := true, keyOffset := offset, valueOffset := offset + r.2, idx := idx,
            sz := sz }
      | .gt =>
        if idx ≥ find.upper - 1 then
          if idx + 1 ≥ m.eleCount then
            some { find with
              keyOffset := m.contentSz, valueOffset := m.contentSz, idx := idx + 1, sz := 0 }
          else if find.foundKey then some find
          else (o.getConst (idx + 1)).bind fun offset' => (next offset').bind fun after =>
            (pairSzAt m o (idx + 1) offset').map fun sz =>
              { find with
                keyOffset := offset', valueOffset := after, idx := idx + 1, sz := sz }
        else findKeyIndexedLoop m o fuel { find with lower := idx + 1 } ((idx + find.upper) / 2)
      | .lt =>
        if idx = find.lower then
          (pairSzAt m o idx offset).map fun sz =>
            { find with
              keyOffset := offset, valueOffset := offset + r.2, idx := idx, sz := sz }
        else findKeyIndexedLoop m o fuel { find with upper := idx } ((idx + find.lower) / 2)

/-- `packed_map_find_key_indexed`: binary search over a full index. -/
def packedMapFindKeyIndexed (m : PackedMap) (o : OffsetIndex) (find : MapEleFind) :
    Option MapEleFind :=
  if m.eleCount = 0 then some { find with lower := 0, upper := 0, foundKey := false, idx := 0 }
  else findKeyIndexedLoop readKey next k m o m.eleCount
    { find with lower := 0, upper := m.eleCount, foundKey := false } (m.eleCount / 2)

/-! ### The map's offset index -/

/-- The loop of `map_offset_index_fill` from entry `i`, the unpacker at the
offset of pair `i - 1`: skip its key and value and record the offset reached.
The offset is `none` once a parse has failed. -/
def mapFillLoop : ℕ → ℕ → Option ℕ → OffsetIndex → Option ℕ × OffsetIndex
  | 0, _, off, o => (off, o)
  | _ + 1, _, none, o => (none, o)
  | count + 1, i, some off, o =>
    ((next off).bind next).elim (none, o) fun off' => mapFillLoop count (i + 1) (some off') (o.set i off')

/-- `map_offset_index_fill`: fill a map's index up to entry `index`, checking an
index filled to its end against the content size; `none` for a crash. -/
def mapOffsetIndexFill (o : OffsetIndex) (index : ℕ) : Option (OffsetIndex × Bool) :=
  if index < o.getFilled ∨ o.eleCount = o.getFilled then some (o, true)
  else (o.getConst (o.getFilled - 1)).bind fun start =>
    match mapFillLoop next (index - o.getFilled) o.getFilled (some start) o with
    | (none, o1) => some (o1, false)
    | (some off, o1) =>
      ((next off).bind next).elim (some (o1, false)) fun off' =>
        if index < o.eleCount then ((o1.set index off').setFilled (index + 1)).map (·, true)
        else if off' ≠ o.contentSz then some (o1, false)
        else (o1.setFilled o.eleCount).map (·, true)

/-- `map_offset_index_get`: the offset of entry `index`, at most the end, after
filling the index to it; the inner `none` is its `-1`. -/
def mapOffsetIndexGet (o : OffsetIndex) (index : ℕ) : Option (OffsetIndex × Option ℕ) :=
  (mapOffsetIndexFill next o (min index o.eleCount)).bind fun r =>
    if r.2 then (r.1.getConst (min index o.eleCount)).map fun v => (r.1, some v)
    else some (r.1, none)

/-- `map_offset_index_get_delta`: the size of pair `index`. -/
def mapOffsetIndexGetDelta (o : OffsetIndex) (index : ℕ) : Option (OffsetIndex × Option ℕ) :=
  (mapOffsetIndexGet next o index).bind fun r =>
    match r.2 with
    | none => some (r.1, none)
    | some offset =>
      if index + 1 = o.eleCount then some (r.1, some (o.contentSz - offset))
      else (mapOffsetIndexGet next r.1 (index + 1)).map fun r' => (r'.1, r'.2.map (· - offset))

/-! ### The scans -/

/-- The size of pair `i` of a key-ordered scan and the offset after it: from the
map's index when valid (filling it), else by skipping the value. -/
def orderedPairStep (oi : Option OffsetIndex) (i keyOffset valueOffset : ℕ) :
    Option (Option OffsetIndex × ℕ × ℕ) :=
  match oi with
  | some o =>
    (mapOffsetIndexGetDelta next o i).bind fun r => r.2.bind fun sz =>
      (mapOffsetIndexGet next r.1 (i + 1)).map fun r' => (some r'.1, sz, r'.2.getD 4294967295)
  | none => (next valueOffset).map fun off' => (none, off' - keyOffset, off')

/-- The end of the key-ordered scan at pair `upper`: the end of the map, or the
pair at `upper`, whose offset is offered to the index. -/
def findKeyOrderedEnd (m : PackedMap) (off : ℕ) (oi : Option OffsetIndex) (find : MapEleFind) :
    Option (MapEleFind × Option OffsetIndex) :=
  if find.upper = m.eleCount then
    some ({ find with
      keyOffset := m.contentSz, valueOffset := m.contentSz, sz := 0, idx := find.upper }, oi)
  else
    (offsetIndexSetNextOpt oi find.upper off).bind fun oi' =>
      (next off).bind fun valueOffset => (next valueOffset).map fun after =>
        ({ find with
          keyOffset := off, valueOffset := valueOffset, sz := after - off, idx := find.upper },
          oi')

/-- The key-ordered scan of `packed_map_find_key` from pair `i` at offset `off`,
`count` pairs before `upper`: the first pair whose key is not below the searched
one ends it. -/
def findKeyOrderedLoop (m : PackedMap) :
    ℕ → ℕ → ℕ → Option OffsetIndex → MapEleFind → Option (MapEleFind × Option OffsetIndex)
  | 0, _, off, oi, find => findKeyOrderedEnd next m off oi find
  | count + 1, i, off, oi, find =>
    (readKey off).bind fun r => (orderedPairStep next oi i off (off + r.2)).bind fun s =>
      match compare k r.1 with
      | .gt => findKeyOrderedLoop m count (i + 1) s.2.2 s.1 { find with valueOffset := off + r.2 }
      | .eq => some ({ find with
          valueOffset := off + r.2, foundKey := true, idx := i, keyOffset := off, sz := s.2.1 },
          s.1)
      | .lt => some ({ find with
          valueOffset := off + r.2, idx := i, keyOffset := off, sz := s.2.1 }, s.1)

/-- The scan of an unordered map from pair `i` at offset `off`, `count` pairs
left: equal keys are taken to be adjacent. -/
def findKeyUnorderedLoop (m : PackedMap) :
    ℕ → ℕ → ℕ → Option OffsetIndex → MapEleFind → Option (MapEleFind × Option OffsetIndex)
  | 0, _, _, oi, find =>
    some ({ find with
      keyOffset := m.contentSz, valueOffset := m.contentSz, sz := 0, idx := m.eleCount }, oi)
  | count + 1, i, off, oi, find =>
    (readKey off).bind fun r =>
      if compare k r.1 = .eq then
        (next (off + r.2)).bind fun after =>
          (offsetIndexSetNextOpt oi (i + 1) after).map fun oi' =>
            (if find.foundKey then find
              else { find with
                foundKey := true, idx := i, keyOffset := off, valueOffset := off + r.2,
                sz := after - off }, oi')
      else if find.foundKey then some (find, oi)
      else (next (off + r.2)).bind fun after =>
        (offsetIndexSetNextOpt oi (i + 1) after).bind fun oi' =>
          findKeyUnorderedLoop m count (i + 1) after oi' find

/-- The key-ordered scan of `packed_map_find_key`, from `find->lower` (at
`find->key_offset` when above `0`) to `find->upper`. -/
def packedMapFindKeyOrdered (m : PackedMap) (find : MapEleFind) :
    Option (MapEleFind × Option OffsetIndex) :=
  findKeyOrderedLoop readKey next k m (find.upper - find.lower) find.lower
    (if find.lower > 0 then find.keyOffset else 0) m.offidx { find with foundKey := false }

/-- `packed_map_find_key`: the binary search for a key-ordered map with a full
index, else a scan. Returns the find and the map's index after it; `none` when
the function returns `false` or crashes. -/
def packedMapFindKey (m : PackedMap) (find : MapEleFind) : Option (MapEleFind × Option OffsetIndex) :=
  if m.eleCount = 0 then some (find, m.offidx)
  else
    match m.offidx with
    | some o =>
      if m.kOrdered ∧ offsetIndexIsFull o then
        (packedMapFindKeyIndexed readKey next k m o find).map (·, m.offidx)
      else if m.kOrdered then packedMapFindKeyOrdered readKey next k m find
      else findKeyUnorderedLoop readKey next k m m.eleCount 0 0 m.offidx { find with foundKey := false }
    | none =>
      if m.kOrdered then packedMapFindKeyOrdered readKey next k m find
      else findKeyUnorderedLoop readKey next k m m.eleCount 0 0 m.offidx { find with foundKey := false }

end Defs

/-- `map_ele_find_init`: a search of the whole map. -/
def mapEleFindInit (m : PackedMap) : MapEleFind := ⟨false, m.eleCount, 0, 0, 0, m.eleCount, 0⟩

/-- `map_ele_find_continue_from_lower`: a search of the rest of the map from
where the search `found` ended. -/
def mapEleFindContinueFromLower (found : MapEleFind) (eleCount : ℕ) : MapEleFind :=
  ⟨false, (eleCount + found.idx) / 2, found.keyOffset, found.valueOffset, found.sz, eleCount,
    found.idx⟩

/-! ### Maps that hold pairs of increasing keys -/

section Holds

variable {ν : Type} (keySz : κ → ℕ) (valSz : ν → ℕ)

/-- Where key `k` belongs among pairs: the first pair whose key is not below
it, or the end, with that pair's offsets and size; found when its key is `k`. -/
def keyFindSpec (pairs : List (κ × ν)) (k : κ) : Bool × ℕ × ℕ × ℕ × ℕ :=
  let i := pairs.findIdx fun p => decide (k ≤ p.1)
  match pairs[i]? with
  | some p => (decide (p.1 = k), i, eleOffset (pairSz keySz valSz) pairs i,
      eleOffset (pairSz keySz valSz) pairs i + keySz p.1, pairSz keySz valSz p)
  | none => (false, i, eleOffset (pairSz keySz valSz) pairs pairs.length,
      eleOffset (pairSz keySz valSz) pairs pairs.length, 0)

/-- A packed map holds `pairs`: its counts are theirs, each key reads at its
pair's offset with its size, and the unpacker steps over each key and each
value. -/
structure PackedMap.Holds (readKey : ℕ → Option (κ × ℕ)) (next : ℕ → Option ℕ) (m : PackedMap)
    (pairs : List (κ × ν)) : Prop where
  eleCount_eq : m.eleCount = pairs.length
  contentSz_eq : m.contentSz = eleOffset (pairSz keySz valSz) pairs pairs.length
  readKey_eq : ∀ i (h : i < pairs.length),
    readKey (eleOffset (pairSz keySz valSz) pairs i) = some (pairs[i].1, keySz pairs[i].1)
  next_key : ∀ i (h : i < pairs.length), next (eleOffset (pairSz keySz valSz) pairs i) =
    some (eleOffset (pairSz keySz valSz) pairs i + keySz pairs[i].1)
  next_value : ∀ i (h : i < pairs.length),
    next (eleOffset (pairSz keySz valSz) pairs i + keySz pairs[i].1) =
      some (eleOffset (pairSz keySz valSz) pairs (i + 1))

variable {keySz valSz} {pairs : List (κ × ν)} {k : κ}

theorem keyFindSpec_of_lt {i : ℕ} (hi : i < pairs.length)
    (hbelow : ∀ j (h : j < pairs.length), j < i → pairs[j].1 < k) (hat : k ≤ pairs[i].1) :
    keyFindSpec keySz valSz pairs k = (decide (pairs[i].1 = k), i,
      eleOffset (pairSz keySz valSz) pairs i,
      eleOffset (pairSz keySz valSz) pairs i + keySz pairs[i].1, pairSz keySz valSz pairs[i]) := by
  have hidx : pairs.findIdx (fun p => decide (k ≤ p.1)) = i := by
    rw [List.findIdx_eq hi]
    refine ⟨decide_eq_true hat, fun j hj => decide_eq_false ?_⟩
    exact not_le.mpr (hbelow j (by omega) hj)
  unfold keyFindSpec
  simp only [hidx, List.getElem?_eq_getElem hi]

theorem keyFindSpec_of_forall_lt (hall : ∀ j (h : j < pairs.length), pairs[j].1 < k) :
    keyFindSpec keySz valSz pairs k = (false, pairs.length,
      eleOffset (pairSz keySz valSz) pairs pairs.length,
      eleOffset (pairSz keySz valSz) pairs pairs.length, 0) := by
  have hidx : pairs.findIdx (fun p => decide (k ≤ p.1)) = pairs.length := by
    rw [List.findIdx_eq_length]
    intro x hx
    obtain ⟨j, hj, rfl⟩ := List.getElem_of_mem hx
    exact decide_eq_false (not_le.mpr (hall j hj))
  unfold keyFindSpec
  simp only [hidx, List.getElem?_eq_none_iff.mpr le_rfl]

theorem key_lt_of_lt (hinc : pairs.Pairwise fun a b => a.1 < b.1) {i j : ℕ} (hij : i < j)
    (hj : j < pairs.length) : pairs[i].1 < pairs[j].1 :=
  List.pairwise_iff_getElem.mp hinc i j (by omega) hj hij

@[simp]
theorem keyFindSpec_nil (k : κ) : keyFindSpec keySz valSz ([] : List (κ × ν)) k = (false, 0, 0, 0, 0) :=
  rfl

/-- The result of a search marks where a search for a key not below it may go
on: the keys before its index are below that key, and its key offset is the
offset of its pair. -/
theorem found_continue {f0 : MapEleFind} {k0 : κ} (hf0 : f0.found = keyFindSpec keySz valSz pairs k0)
    (hk : k0 ≤ k) :
    f0.idx ≤ pairs.length ∧ (∀ j (h : j < pairs.length), j < f0.idx → pairs[j].1 < k) ∧
      f0.keyOffset = eleOffset (pairSz keySz valSz) pairs f0.idx := by
  have hle : pairs.findIdx (fun p => decide (k0 ≤ p.1)) ≤ pairs.length := List.findIdx_le_length
  have hspec : f0.idx = pairs.findIdx (fun p => decide (k0 ≤ p.1)) ∧
      f0.keyOffset = eleOffset (pairSz keySz valSz) pairs f0.idx := by
    unfold keyFindSpec at hf0
    dsimp only at hf0
    split at hf0
    · simp only [MapEleFind.found, Prod.mk.injEq] at hf0
      exact ⟨hf0.2.1, by rw [hf0.2.2.1, hf0.2.1]⟩
    · rename_i hnone
      have hend := List.getElem?_eq_none_iff.mp hnone
      simp only [MapEleFind.found, Prod.mk.injEq] at hf0
      exact ⟨hf0.2.1, by rw [hf0.2.2.1, hf0.2.1]; congr 1; omega⟩
  refine ⟨hspec.1 ▸ hle, fun j hj hji => ?_, hspec.2⟩
  have hnot := List.not_of_lt_findIdx (hspec.1 ▸ hji)
  exact lt_of_lt_of_le (not_le.mp (of_decide_eq_false hnot)) hk

end Holds

/-! ### The binary search -/

section Search

variable {ν : Type} {keySz : κ → ℕ} {valSz : ν → ℕ} {readKey : ℕ → Option (κ × ℕ)}
  {next : ℕ → Option ℕ} {m : PackedMap} {pairs : List (κ × ν)} {k : κ} {o : OffsetIndex}

/-- The binary search's invariant: no key found yet, the probe inside
`[lower, upper)`, the keys before `lower` below `k` and those from `upper` on
above it. -/
def SearchInv (pairs : List (κ × ν)) (k : κ) (find : MapEleFind) (idx : ℕ) : Prop :=
  find.foundKey = false ∧ find.lower ≤ idx ∧ idx < find.upper ∧ find.upper ≤ pairs.length ∧
    (∀ j (h : j < pairs.length), j < find.lower → pairs[j].1 < k) ∧
    ∀ j (h : j < pairs.length), find.upper ≤ j → k < pairs[j].1

omit [LinearOrder κ] in
theorem pairSzAt_eq (hm : m.Holds keySz valSz readKey next pairs)
    (ho : o.IsFull pairs.length (eleOffset (pairSz keySz valSz) pairs)) {idx : ℕ}
    (hidx : idx < pairs.length) :
    pairSzAt m o idx (eleOffset (pairSz keySz valSz) pairs idx) =
      some (pairSz keySz valSz pairs[idx]) := by
  have hsucc : eleOffset (pairSz keySz valSz) pairs (idx + 1) =
      eleOffset (pairSz keySz valSz) pairs idx + pairSz keySz valSz pairs[idx] :=
    eleOffset_succ hidx
  unfold pairSzAt
  by_cases hlast : idx + 1 ≥ m.eleCount
  · have hend : idx + 1 = pairs.length := by rw [hm.eleCount_eq] at hlast; omega
    rw [if_pos hlast, hm.contentSz_eq, ← hend, hsucc]
    congr 1
    omega
  · rw [if_neg hlast, ho.getConst (eleOffset_zero pairs) (by rw [hm.eleCount_eq] at hlast; omega),
      Option.map_some, hsucc]
    congr 1
    omega

theorem findKeyIndexedLoop_eq (hm : m.Holds keySz valSz readKey next pairs)
    (hinc : pairs.Pairwise fun a b => a.1 < b.1)
    (ho : o.IsFull pairs.length (eleOffset (pairSz keySz valSz) pairs)) :
    ∀ (fuel : ℕ) (find : MapEleFind) (idx : ℕ), SearchInv pairs k find idx →
      find.upper - find.lower ≤ fuel →
      ∃ f, findKeyIndexedLoop readKey next k m o fuel find idx = some f ∧
        f.found = keyFindSpec keySz valSz pairs k
  | 0, _, _, ⟨_, hlo, hup, _⟩, hfuel => absurd hfuel (by omega)
  | fuel + 1, find, idx, ⟨hnf, hlo, hup, hn, hbelow, habove⟩, hfuel => by
    have hidx : idx < pairs.length := by omega
    have h0 : eleOffset (pairSz keySz valSz) pairs 0 = 0 := eleOffset_zero pairs
    rw [findKeyIndexedLoop, ho.getConst h0 hidx.le, Option.bind_some, hm.readKey_eq idx hidx,
      Option.bind_some]
    dsimp only
    rcases lt_trichotomy k pairs[idx].1 with hlt | heq | hgt
    · have habove' : ∀ j (h : j < pairs.length), idx ≤ j → k < pairs[j].1 := fun j hj hij => by
        rcases Nat.lt_or_eq_of_le hij with hij | rfl
        · exact lt_trans hlt (key_lt_of_lt hinc hij hj)
        · exact hlt
      rw [compare_lt_iff_lt.mpr hlt]
      dsimp only
      by_cases hlow : idx = find.lower
      · rw [if_pos hlow, pairSzAt_eq hm ho hidx, Option.map_some]
        refine ⟨_, rfl, ?_⟩
        rw [keyFindSpec_of_lt hidx (fun j hj hji => hbelow j hj (by omega)) hlt.le]
        simp [MapEleFind.found, hnf, ne_of_gt hlt]
      · rw [if_neg hlow]
        exact findKeyIndexedLoop_eq hm hinc ho fuel _ _
          ⟨hnf, by dsimp only; omega, by dsimp only; omega, by dsimp only; omega, hbelow,
            habove'⟩ (by dsimp only; omega)
    · rw [compare_eq_iff_eq.mpr heq]
      dsimp only
      rw [hnf, if_neg Bool.false_ne_true, pairSzAt_eq hm ho hidx, Option.map_some]
      refine ⟨_, rfl, ?_⟩
      rw [keyFindSpec_of_lt hidx (fun j hj hji => heq ▸ key_lt_of_lt hinc hji hidx) heq.le]
      simp [MapEleFind.found, heq]
    · have hbelow' : ∀ j (h : j < pairs.length), j ≤ idx → pairs[j].1 < k := fun j hj hji => by
        rcases Nat.lt_or_eq_of_le hji with hji | rfl
        · exact lt_trans (key_lt_of_lt hinc hji hidx) hgt
        · exact hgt
      rw [compare_gt_iff_gt.mpr hgt]
      dsimp only
      by_cases hedge : idx ≥ find.upper - 1
      · rw [if_pos hedge]
        by_cases hend : idx + 1 ≥ m.eleCount
        · rw [if_pos hend]
          refine ⟨_, rfl, ?_⟩
          rw [hm.eleCount_eq] at hend
          rw [keyFindSpec_of_forall_lt fun j hj => hbelow' j hj (by omega)]
          simp [MapEleFind.found, hnf, hm.contentSz_eq]
          omega
        · rw [hm.eleCount_eq] at hend
          have hidx1 : idx + 1 < pairs.length := by omega
          have hnext : k < pairs[idx + 1].1 := habove (idx + 1) hidx1 (by omega)
          rw [if_neg (by rw [hm.eleCount_eq]; omega), hnf, if_neg Bool.false_ne_true,
            ho.getConst h0 hidx1.le, Option.bind_some, hm.next_key (idx + 1) hidx1,
            Option.bind_some, pairSzAt_eq hm ho hidx1, Option.map_some]
          refine ⟨_, rfl, ?_⟩
          rw [keyFindSpec_of_lt hidx1 (fun j hj hji => hbelow' j hj (by omega)) hnext.le]
          simp [MapEleFind.found, ne_of_gt hnext]
      · rw [if_neg hedge]
        exact findKeyIndexedLoop_eq hm hinc ho fuel _ _
          ⟨hnf, by dsimp only; omega, by dsimp only; omega, hn,
            fun j hj hj' => hbelow' j hj (by dsimp only at hj'; omega), habove⟩
          (by dsimp only; omega)

theorem packedMapFindKeyIndexed_eq (hm : m.Holds keySz valSz readKey next pairs)
    (hinc : pairs.Pairwise fun a b => a.1 < b.1)
    (ho : o.IsFull pairs.length (eleOffset (pairSz keySz valSz) pairs)) {find : MapEleFind}
    (hfind : pairs = [] → find.keyOffset = 0 ∧ find.valueOffset = 0 ∧ find.sz = 0) :
    ∃ f, packedMapFindKeyIndexed readKey next k m o find = some f ∧
      f.found = keyFindSpec keySz valSz pairs k := by
  unfold packedMapFindKeyIndexed
  by_cases hz : m.eleCount = 0
  · have hnil : pairs = [] := List.length_eq_zero_iff.mp (hm.eleCount_eq ▸ hz)
    obtain ⟨h1, h2, h3⟩ := hfind hnil
    rw [if_pos hz]
    refine ⟨_, rfl, ?_⟩
    subst hnil
    simp [MapEleFind.found, h1, h2, h3]
  · rw [if_neg hz]
    rw [hm.eleCount_eq] at hz ⊢
    exact findKeyIndexedLoop_eq hm hinc ho pairs.length _ _
      ⟨rfl, Nat.zero_le _, by dsimp only; omega, le_rfl,
        fun j _ hj => absurd hj (Nat.not_lt_zero j), fun j hj hj' => absurd hj (not_lt.mpr hj')⟩
      (by dsimp only; omega)

end Search

/-! ### The map's index during a scan -/

/-- An index state the scan can read: its known entries are the offsets `offs`
of the pairs, over the map's pair count and content size. -/
structure OffsetIndex.Tracks (o : OffsetIndex) (n : ℕ) (offs : ℕ → ℕ) : Prop where
  sound : o.Sound 1 offs
  eleCount_eq : o.eleCount = n
  contentSz_eq : o.contentSz = offs n

def IndexTracks (oi : Option OffsetIndex) (n : ℕ) (offs : ℕ → ℕ) : Prop :=
  ∀ o, oi = some o → o.Tracks n offs

section MapIndex

variable {next : ℕ → Option ℕ} {offs : ℕ → ℕ} {n : ℕ} {o : OffsetIndex}

theorem OffsetIndex.Tracks.getConst (ht : o.Tracks n offs) (h0 : offs 0 = 0) {index : ℕ}
    (hi : index ≤ n) (hf : min (index + 1) n ≤ o.getFilled) :
    o.getConst index = some (offs index) := by
  by_cases hlt : index < n
  · rw [o.getConst_of_valid ht.sound.valid h0 (by omega), Nat.mul_one]
  · have hend : index = n := by omega
    unfold OffsetIndex.getConst
    by_cases hz : index = 0
    · rw [if_pos hz, hz, h0]
    · rw [if_neg hz, if_pos (by rw [ht.eleCount_eq]; exact hend), ht.contentSz_eq, hend]

theorem mapFillLoop_spec (hf : Loop.Follows (fun off => (next off).bind next) offs n) :
    ∀ (c j : ℕ) (o : OffsetIndex), j + c ≤ n → j + c < o.eleCount →
      ∃ o', mapFillLoop next c (j + 1) (some (offs j)) o = (some (offs (j + c)), o') ∧
        o'.eleCount = o.eleCount ∧ o'.contentSz = o.contentSz ∧ o'.filled = o.filled ∧
        ∀ i, o'.entries i = if j < i ∧ i ≤ j + c then offs i else o.entries i
  | 0, j, o, _, _ => ⟨o, rfl, rfl, rfl, rfl, fun i => by rw [if_neg (by omega)]⟩
  | c + 1, j, o, hn, he => by
    have hstep : (next (offs j)).bind next = some (offs (j + 1)) := hf j (by omega)
    have hset : o.set (j + 1) (offs (j + 1)) =
        { o with entries := Function.update o.entries (j + 1) (offs (j + 1)) } :=
      o.set_of_ne (by omega) (by omega)
    obtain ⟨o', hrun, h1, h2, h3, h4⟩ := mapFillLoop_spec hf c (j + 1)
      (o.set (j + 1) (offs (j + 1))) (by omega) (by rw [hset]; dsimp only; omega)
    rw [hset] at hrun h1 h2 h3 h4
    refine ⟨o', ?_, h1, h2, h3, fun i => ?_⟩
    · rw [mapFillLoop, hstep, Option.elim_some, hset, hrun, Nat.add_right_comm, Nat.add_assoc]
    · rw [h4 i]
      dsimp only
      by_cases hi : i = j + 1
      · rw [hi, if_neg (by omega), Function.update_self, if_pos (by omega)]
      · rw [Function.update_of_ne hi]
        split_ifs <;> first | rfl | omega

theorem mapOffsetIndexFill_tracks (hf : Loop.Follows (fun off => (next off).bind next) offs n)
    (ht : o.Tracks n offs) (h0 : offs 0 = 0) {index : ℕ} (hi : index ≤ n) :
    ∃ o', mapOffsetIndexFill next o index = some (o', true) ∧ o'.Tracks n offs ∧
      min (index + 1) n ≤ o'.getFilled := by
  have hn := ht.eleCount_eq
  unfold mapOffsetIndexFill
  by_cases hdone : index < o.getFilled ∨ o.eleCount = o.getFilled
  · rw [if_pos hdone]
    exact ⟨o, rfl, ht, by omega⟩
  rw [if_neg hdone]
  have hpos : 0 < o.eleCount := by
    by_contra hz
    rw [OffsetIndex.getFilled, if_pos (by omega)] at hdone
    omega
  have hfill := o.getFilled_of_pos hpos
  have hstart := ht.sound.filled_pos
  have hlast : o.getConst (o.getFilled - 1) = some (offs (o.getFilled - 1)) := by
    rw [o.getConst_of_valid ht.sound.valid h0 (by omega), Nat.mul_one]
  obtain ⟨o1, hrun, h1, h2, h3, h4⟩ := mapFillLoop_spec hf (index - o.getFilled)
    (o.getFilled - 1) o (by omega) (by omega)
  have hj : o.getFilled - 1 + (index - o.getFilled) = index - 1 := by omega
  rw [Nat.sub_add_cancel hstart, hj] at hrun
  have hpair : (next (offs (index - 1))).bind next = some (offs index) := by
    have := hf (index - 1) (by omega)
    rwa [Nat.sub_add_cancel (by omega)] at this
  rw [hlast, Option.bind_some, hrun]
  dsimp only
  rw [hpair, Option.elim_some]
  have hvalid : ∀ i, 0 < i → i < index → i < o.eleCount → o1.entries i = offs i := by
    intro i hi0 hii hie
    rw [h4 i]
    split_ifs with hin
    · rfl
    · exact (ht.sound.valid i hi0 (by omega) hie).trans (by rw [Nat.mul_one])
  by_cases hlt : index < o.eleCount
  · have hset : o1.set index (offs index) =
        { o1 with entries := Function.update o1.entries index (offs index) } :=
      o1.set_of_ne (by omega) (by omega)
    rw [if_pos hlt, hset, OffsetIndex.setFilled_of_le
      (o := { o1 with entries := Function.update o1.entries index (offs index) })
      (by dsimp only; omega) (by dsimp only; omega), Option.map_some]
    refine ⟨_, rfl, ⟨⟨fun i hi0 hif hie => ?_, ?_⟩, by dsimp only; omega,
      by dsimp only; rw [h2, ht.contentSz_eq]⟩, ?_⟩
    · dsimp only [OffsetIndex.getFilled] at hif hie ⊢
      rw [if_neg (by omega)] at hif
      by_cases hii : i = index
      · rw [hii, Function.update_self, Nat.mul_one]
      · rw [Function.update_of_ne hii, hvalid i hi0 (by omega) (by omega), Nat.mul_one]
    · dsimp only [OffsetIndex.getFilled]
      rw [if_neg (by omega)]
      omega
    · dsimp only [OffsetIndex.getFilled]
      rw [if_neg (by omega)]
      omega
  · have hend : index = n := by omega
    rw [if_neg hlt, if_neg (by rw [not_not, ht.contentSz_eq, hend]),
      OffsetIndex.setFilled_of_le (o := o1) (by omega) (by omega), Option.map_some]
    refine ⟨_, rfl, ⟨⟨fun i hi0 hif hie => ?_, ?_⟩, by dsimp only; omega,
      by dsimp only; rw [h2, ht.contentSz_eq]⟩, ?_⟩
    · dsimp only [OffsetIndex.getFilled] at hif hie ⊢
      rw [hvalid i hi0 (by omega) (by omega), Nat.mul_one]
    · dsimp only [OffsetIndex.getFilled]
      rw [if_neg (by omega)]
      omega
    · dsimp only [OffsetIndex.getFilled]
      rw [if_neg (by omega)]
      omega

theorem mapOffsetIndexGet_eq (hf : Loop.Follows (fun off => (next off).bind next) offs n)
    (ht : o.Tracks n offs) (h0 : offs 0 = 0) {index : ℕ} (hi : index ≤ n) :
    ∃ o', mapOffsetIndexGet next o index = some (o', some (offs index)) ∧ o'.Tracks n offs := by
  have hmin : min index o.eleCount = index := by rw [ht.eleCount_eq]; omega
  obtain ⟨o', hfill, ht', hknown⟩ := mapOffsetIndexFill_tracks hf ht h0 hi
  refine ⟨o', ?_, ht'⟩
  rw [mapOffsetIndexGet, hmin, hfill, Option.bind_some]
  dsimp only
  rw [if_pos rfl, ht'.getConst h0 hi hknown, Option.map_some]

theorem mapOffsetIndexGetDelta_eq (hf : Loop.Follows (fun off => (next off).bind next) offs n)
    (ht : o.Tracks n offs) (h0 : offs 0 = 0) {index : ℕ} (hi : index < n) :
    ∃ o', mapOffsetIndexGetDelta next o index = some (o', some (offs (index + 1) - offs index)) ∧
      o'.Tracks n offs := by
  obtain ⟨o1, hget, ht1⟩ := mapOffsetIndexGet_eq hf ht h0 hi.le
  rw [mapOffsetIndexGetDelta, hget, Option.bind_some]
  dsimp only
  by_cases hlast : index + 1 = o.eleCount
  · refine ⟨o1, ?_, ht1⟩
    rw [if_pos hlast, ht.contentSz_eq, ← ht.eleCount_eq, ← hlast]
  · obtain ⟨o2, hget2, ht2⟩ := mapOffsetIndexGet_eq hf ht1 h0 (show index + 1 ≤ n by omega)
    rw [if_neg hlast, hget2, Option.map_some]
    exact ⟨o2, rfl, ht2⟩

end MapIndex

/-! ### The key-ordered scan -/

section Scan

variable {ν : Type} {keySz : κ → ℕ} {valSz : ν → ℕ} {readKey : ℕ → Option (κ × ℕ)}
  {next : ℕ → Option ℕ} {m : PackedMap} {pairs : List (κ × ν)} {k : κ}

omit [LinearOrder κ] in
theorem PackedMap.Holds.follows (hm : m.Holds keySz valSz readKey next pairs) :
    Loop.Follows (fun off => (next off).bind next) (eleOffset (pairSz keySz valSz) pairs)
      pairs.length := fun i hi => by
  dsimp only
  rw [hm.next_key i hi, Option.bind_some, hm.next_value i hi]

omit [LinearOrder κ] in
theorem orderedPairStep_eq (hm : m.Holds keySz valSz readKey next pairs) {oi : Option OffsetIndex}
    (ht : IndexTracks oi pairs.length (eleOffset (pairSz keySz valSz) pairs)) {i : ℕ}
    (hi : i < pairs.length) :
    ∃ oi', orderedPairStep next oi i (eleOffset (pairSz keySz valSz) pairs i)
        (eleOffset (pairSz keySz valSz) pairs i + keySz pairs[i].1) =
        some (oi', pairSz keySz valSz pairs[i], eleOffset (pairSz keySz valSz) pairs (i + 1)) ∧
      IndexTracks oi' pairs.length (eleOffset (pairSz keySz valSz) pairs) := by
  have hsz : eleOffset (pairSz keySz valSz) pairs (i + 1) - eleOffset (pairSz keySz valSz) pairs i =
      pairSz keySz valSz pairs[i] := by
    rw [eleOffset_succ hi]
    omega
  have h0 : eleOffset (pairSz keySz valSz) pairs 0 = 0 := eleOffset_zero pairs
  cases oi with
  | none =>
    refine ⟨none, ?_, fun _ h => nomatch h⟩
    rw [orderedPairStep, hm.next_value i hi, Option.map_some, hsz]
  | some o =>
    have ht0 := ht o rfl
    obtain ⟨o1, hdelta, ht1⟩ := mapOffsetIndexGetDelta_eq hm.follows ht0 h0 hi
    obtain ⟨o2, hget, ht2⟩ := mapOffsetIndexGet_eq hm.follows ht1 h0 (show i + 1 ≤ pairs.length by omega)
    refine ⟨some o2, ?_, fun _ h => Option.some_inj.mp h ▸ ht2⟩
    rw [orderedPairStep, hdelta, Option.bind_some]
    dsimp only
    rw [Option.bind_some, hget, Option.map_some, hsz]
    rfl

theorem findKeyOrderedLoop_eq (hm : m.Holds keySz valSz readKey next pairs) :
    ∀ (c i : ℕ) (oi : Option OffsetIndex) (find : MapEleFind), i + c = pairs.length →
      IndexTracks oi pairs.length (eleOffset (pairSz keySz valSz) pairs) →
      find.upper = pairs.length → find.foundKey = false →
      (∀ j (h : j < pairs.length), j < i → pairs[j].1 < k) →
      ∃ f oi', findKeyOrderedLoop readKey next k m c i (eleOffset (pairSz keySz valSz) pairs i)
          oi find = some (f, oi') ∧
        f.found = keyFindSpec keySz valSz pairs k ∧
        IndexTracks oi' pairs.length (eleOffset (pairSz keySz valSz) pairs)
  | 0, i, oi, find, hc, ht, hup, hnf, hbelow => by
    rw [findKeyOrderedLoop, findKeyOrderedEnd, if_pos (by rw [hup, hm.eleCount_eq])]
    refine ⟨_, oi, rfl, ?_, ht⟩
    rw [keyFindSpec_of_forall_lt fun j hj => hbelow j hj (by omega)]
    simp [MapEleFind.found, hnf, hup, hm.contentSz_eq]
  | c + 1, i, oi, find, hc, ht, hup, hnf, hbelow => by
    have hi : i < pairs.length := by omega
    obtain ⟨oi', hstep, ht'⟩ := orderedPairStep_eq hm ht hi
    rw [findKeyOrderedLoop, hm.readKey_eq i hi, Option.bind_some]
    dsimp only
    rw [hstep, Option.bind_some]
    dsimp only
    rcases lt_trichotomy k pairs[i].1 with hlt | heq | hgt
    · rw [compare_lt_iff_lt.mpr hlt]
      refine ⟨_, oi', rfl, ?_, ht'⟩
      rw [keyFindSpec_of_lt hi hbelow hlt.le]
      simp [MapEleFind.found, hnf, ne_of_gt hlt]
    · rw [compare_eq_iff_eq.mpr heq]
      refine ⟨_, oi', rfl, ?_, ht'⟩
      rw [keyFindSpec_of_lt hi hbelow heq.le]
      simp [MapEleFind.found, heq]
    · rw [compare_gt_iff_gt.mpr hgt]
      exact findKeyOrderedLoop_eq hm c (i + 1) oi' _ (by omega) ht' hup hnf
        fun j hj hji => (Nat.lt_succ_iff_lt_or_eq.mp hji).elim (hbelow j hj)
          fun hji => by subst hji; exact hgt

theorem packedMapFindKeyOrdered_eq (hm : m.Holds keySz valSz readKey next pairs)
    (ht : IndexTracks m.offidx pairs.length (eleOffset (pairSz keySz valSz) pairs))
    (find : MapEleFind) (hup : find.upper = pairs.length) (hlo : find.lower ≤ pairs.length)
    (hbelow : ∀ j (h : j < pairs.length), j < find.lower → pairs[j].1 < k)
    (hoff : 0 < find.lower → find.keyOffset = eleOffset (pairSz keySz valSz) pairs find.lower) :
    ∃ f oi, packedMapFindKeyOrdered readKey next k m find = some (f, oi) ∧
      f.found = keyFindSpec keySz valSz pairs k ∧
      IndexTracks oi pairs.length (eleOffset (pairSz keySz valSz) pairs) := by
  have hstart : (if find.lower > 0 then find.keyOffset else 0) =
      eleOffset (pairSz keySz valSz) pairs find.lower := by
    split_ifs with hpos
    · exact hoff hpos
    · rw [Nat.eq_zero_of_not_pos hpos, eleOffset_zero]
  rw [packedMapFindKeyOrdered, hstart]
  exact findKeyOrderedLoop_eq hm _ _ _ _ (by omega) ht hup rfl hbelow

end Scan

/-! ### The binary search and the scan agree -/

section Agree

variable {ν : Type} {keySz : κ → ℕ} {valSz : ν → ℕ} {readKey : ℕ → Option (κ × ℕ)}
  {next : ℕ → Option ℕ} {m : PackedMap} {pairs : List (κ × ν)} {k : κ} {o : OffsetIndex}

/-- On a map of increasing keys, a fresh search for `k` and a search continued
from where a search for a key `k0 ≤ k` ended give where `k` belongs, by binary
search over a full index and by the key-ordered scan alike. -/
theorem packedMapFindKey_indexed_eq_scan (hm : m.Holds keySz valSz readKey next pairs)
    (hinc : pairs.Pairwise fun a b => a.1 < b.1)
    (ho : o.IsFull pairs.length (eleOffset (pairSz keySz valSz) pairs))
    (ht : IndexTracks m.offidx pairs.length (eleOffset (pairSz keySz valSz) pairs))
    {k0 : κ} (hk : k0 ≤ k) {f0 : MapEleFind} (hf0 : f0.found = keyFindSpec keySz valSz pairs k0) :
    ((∃ f, packedMapFindKeyIndexed readKey next k m o (mapEleFindInit m) = some f ∧
        f.found = keyFindSpec keySz valSz pairs k) ∧
      ∃ f oi, packedMapFindKeyOrdered readKey next k m (mapEleFindInit m) = some (f, oi) ∧
        f.found = keyFindSpec keySz valSz pairs k) ∧
    ((∃ f, packedMapFindKeyIndexed readKey next k m o
        (mapEleFindContinueFromLower f0 m.eleCount) = some f ∧
        f.found = keyFindSpec keySz valSz pairs k) ∧
      ∃ f oi, packedMapFindKeyOrdered readKey next k m
        (mapEleFindContinueFromLower f0 m.eleCount) = some (f, oi) ∧
        f.found = keyFindSpec keySz valSz pairs k) := by
  obtain ⟨hidx, hbelow, hoff⟩ := found_continue hf0 hk
  have hn := hm.eleCount_eq
  have hnil : pairs = [] → f0.keyOffset = 0 ∧ f0.valueOffset = 0 ∧ f0.sz = 0 := by
    rintro rfl
    rw [keyFindSpec_nil] at hf0
    simp only [MapEleFind.found, Prod.mk.injEq] at hf0
    exact ⟨hf0.2.2.1, hf0.2.2.2.1, hf0.2.2.2.2⟩
  refine ⟨⟨packedMapFindKeyIndexed_eq hm hinc ho fun _ => ⟨rfl, rfl, rfl⟩, ?_⟩,
    packedMapFindKeyIndexed_eq hm hinc ho hnil, ?_⟩
  · obtain ⟨f, oi, hrun, hf, -⟩ := packedMapFindKeyOrdered_eq hm ht (mapEleFindInit m)
      hn (Nat.zero_le _) (fun j _ hj => absurd hj (Nat.not_lt_zero j)) (fun h => absurd h (Nat.lt_irrefl 0))
    exact ⟨f, oi, hrun, hf⟩
  · obtain ⟨f, oi, hrun, hf, -⟩ := packedMapFindKeyOrdered_eq hm ht
      (mapEleFindContinueFromLower f0 m.eleCount) hn hidx hbelow fun _ => hoff
    exact ⟨f, oi, hrun, hf⟩

def oneFiveNine : List (ℕ × ℕ) := [(1, 0), (5, 0), (9, 0)]

/-- What the unpacker reads of the keys of `oneFiveNine`, at offsets `0`, `2`
and `4`. -/
def oneFiveNineKey (off : ℕ) : Option (ℕ × ℕ) :=
  if off < 6 ∧ off % 2 = 0 then some (2 * off + 1, 1) else none

def oneFiveNineNext (off : ℕ) : Option ℕ := if off < 6 then some (off + 1) else none

def oneFiveNineMap : PackedMap := ⟨true, 3, 6, none⟩

theorem oneFiveNineMap_holds :
    oneFiveNineMap.Holds (fun _ => 1) (fun _ => 1) oneFiveNineKey oneFiveNineNext oneFiveNine :=
  ⟨rfl, rfl, by decide, by decide, by decide⟩

theorem packedMapFindKey_indexed_eq_scan_oneFiveNine :
    oneFiveNine.Pairwise (fun a b => a.1 < b.1) ∧ (3 : ℕ) ≤ 6 ∧
      (⟨false, 1, 2, 3, 2, 3, 0⟩ : MapEleFind).found =
        keyFindSpec (fun _ => 1) (fun _ => 1) oneFiveNine 3 ∧
      ((∃ f, packedMapFindKeyIndexed oneFiveNineKey oneFiveNineNext 6 oneFiveNineMap
          (fullIndex (pairSz (fun _ => 1) (fun _ => 1)) oneFiveNine) (mapEleFindInit oneFiveNineMap) =
            some f ∧ f.found = keyFindSpec (fun _ => 1) (fun _ => 1) oneFiveNine 6) ∧
        ∃ f oi, packedMapFindKeyOrdered oneFiveNineKey oneFiveNineNext 6 oneFiveNineMap
          (mapEleFindInit oneFiveNineMap) = some (f, oi) ∧
          f.found = keyFindSpec (fun _ => 1) (fun _ => 1) oneFiveNine 6) ∧
      ((∃ f, packedMapFindKeyIndexed oneFiveNineKey oneFiveNineNext 6 oneFiveNineMap
          (fullIndex (pairSz (fun _ => 1) (fun _ => 1)) oneFiveNine)
          (mapEleFindContinueFromLower ⟨false, 1, 2, 3, 2, 3, 0⟩ oneFiveNineMap.eleCount) = some f ∧
          f.found = keyFindSpec (fun _ => 1) (fun _ => 1) oneFiveNine 6) ∧
        ∃ f oi, packedMapFindKeyOrdered oneFiveNineKey oneFiveNineNext 6 oneFiveNineMap
          (mapEleFindContinueFromLower ⟨false, 1, 2, 3, 2, 3, 0⟩ oneFiveNineMap.eleCount) =
            some (f, oi) ∧ f.found = keyFindSpec (fun _ => 1) (fun _ => 1) oneFiveNine 6) :=
  ⟨by decide, by decide, by decide,
    packedMapFindKey_indexed_eq_scan oneFiveNineMap_holds (by decide)
      (fullIndex_isFull _ oneFiveNine) (fun _ h => nomatch h) (show (3 : ℕ) ≤ 6 by decide)
      (show (⟨false, 1, 2, 3, 2, 3, 0⟩ : MapEleFind).found =
        keyFindSpec (fun _ => 1) (fun _ => 1) oneFiveNine 3 by decide)⟩

/-- Continued from where a search for a greater key ended, the scan does not
look back: on `1, 5, 9` a search for `5` continued from the search for `6`
(which ended at pair `2`) reports pair `2`, not found, where the binary search
finds `5` at pair `1`. -/
theorem packedMapFindKey_continue_from_greater_differs :
    (packedMapFindKeyOrdered oneFiveNineKey oneFiveNineNext 6 oneFiveNineMap
        (mapEleFindInit oneFiveNineMap)).map (·.1) = some ⟨false, 2, 4, 5, 2, 3, 0⟩ ∧
      (packedMapFindKeyOrdered oneFiveNineKey oneFiveNineNext 5 oneFiveNineMap
        (mapEleFindContinueFromLower ⟨false, 2, 4, 5, 2, 3, 0⟩ 3)).map (·.1.found) =
        some (false, 2, 4, 5, 2) ∧
      (packedMapFindKeyIndexed oneFiveNineKey oneFiveNineNext 5 oneFiveNineMap
        (fullIndex (pairSz (fun _ => 1) (fun _ => 1)) oneFiveNine)
        (mapEleFindContinueFromLower ⟨false, 2, 4, 5, 2, 3, 0⟩ 3)).map MapEleFind.found =
        some (true, 1, 2, 3, 2) := by
  decide

end Agree

end Aerospike.Cdt
