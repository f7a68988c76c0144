import Aerospike.Cdt.Base

/-! # Packed lists and their offset index

A packed list particle (`particle_list.c`) is a msgpack list whose first element
may be an `ext` holding the list's flags and its offset index. An ordered list
keeps a full index, an entry per element; an unordered list of at least 128
elements keeps a partial one, an entry per 128 elements. Every known entry must
be the byte offset of its element.

Elements are abstract here: an element of type `α` has a packed size `sz`, and
the offset of element `k` is the size of the elements before it.
`list_set_flags` rebuilds the particle through `list_setup_bin`, which keeps the
known prefix of the old index; turning an ordered list into an unordered one
keeps entries of the full index as entries of the partial one.
-/

namespace Aerospike.Cdt

variable {α : Type} (sz : α → ℕ)

/-- The byte offset of element `k`: the sizes of the elements before it. -/
def eleOffset (eles : List α) (k : ℕ) : ℕ := ((eles.take k).map sz).sum

def packedListIndexStep : ℕ := 128

/-- A packed list: the ordered flag of its `ext`, its elements, and the offset
index its `ext` holds, if any. -/
structure PackedList (α : Type) where
  ordered : Bool
  eles : List α
  offidx : Option OffsetIndex

/-- `list_offset_index_init`'s entry count: one per 128 elements and one more,
or none below 128 elements. -/
def listPartialEleCount (eleCount : ℕ) : ℕ :=
  if eleCount / packedListIndexStep = 0 then 0 else eleCount / packedListIndexStep + 1

/-- The stored index is well formed: it covers the list's contents, has the
entry count of its kind, and each known entry is the offset of its element,
element `k` for a full index and element `128 k` for a partial one. -/
def PackedList.IndexValid (l : PackedList α) : Prop :=
  ∀ o, l.offidx = some o →
    o.contentSz = eleOffset sz l.eles l.eles.length ∧
    o.eleCount = (if l.ordered then l.eles.length else listPartialEleCount l.eles.length) ∧
    o.Valid (if l.ordered then 1 else packedListIndexStep) (eleOffset sz l.eles)

/-- The full index of a list, every entry known: what `list_order_index_pack`
writes for an ordered list. -/
def fullIndex (eles : List α) : OffsetIndex :=
  ⟨eles.length, eleOffset sz eles eles.length, eles.length, eleOffset sz eles, le_rfl⟩

/-- `list_setup_bin`, the index of the new particle: none when an unordered list
has no room for one, else a fresh index of the new kind that keeps the first
`idxTrunc` known entries of the old index (`idxTrunc / 128` for a partial one);
the outer `none` is an assertion. -/
def listSetupBinIndex (setOrdered : Bool) (contentSz eleCount idxTrunc : ℕ)
    (old : Option OffsetIndex) : Option (Option OffsetIndex) :=
  if !setOrdered ∧ listPartialEleCount eleCount = 0 then some none
  else
    let fresh := OffsetIndex.init
      (if setOrdered then eleCount else listPartialEleCount eleCount) contentSz
    let trunc := if setOrdered then idxTrunc else idxTrunc / packedListIndexStep
    match old with
    | some o =>
      if trunc = 0 then (fresh.setFilled 1).map some
      else
        ((fresh.copy o 0 0 (min trunc o.getFilled) 0).bind
          (·.setFilled (min trunc o.getFilled))).map some
    | none => (fresh.setFilled 1).map some

/-- `list_set_flags`: setting the flags a list has is a no-op; an unordered list
of more than one element is sorted by `sort` (the source's `qsort_r`, whose
order of equal elements is unspecified) and gets a full index; otherwise the
elements stay and the particle is rebuilt keeping all of the old index it can. -/
def listSetFlags (sort : List α → List α) (l : PackedList α) (setOrdered : Bool) :
    Option (PackedList α) :=
  if setOrdered = l.ordered then some l
  else if setOrdered ∧ 1 < l.eles.length then
    some ⟨true, sort l.eles, some (fullIndex sz (sort l.eles))⟩
  else
    (listSetupBinIndex setOrdered (eleOffset sz l.eles l.eles.length) l.eles.length
      l.eles.length l.offidx).map fun idx => ⟨setOrdered, l.eles, idx⟩

/-! ### Offsets -/

section Offsets

variable {sz}

theorem eleOffset_zero (eles : List α) : eleOffset sz eles 0 = 0 := by simp [eleOffset]

theorem eleOffset_length_eq_sum (eles : List α) :
    eleOffset sz eles eles.length = (eles.map sz).sum := by
  rw [eleOffset, List.take_length]

theorem eleOffset_succ {eles : List α} {k : ℕ} (h : k < eles.length) :
    eleOffset sz eles (k + 1) = eleOffset sz eles k + sz eles[k] := by
  simp only [eleOffset, List.take_add_one, List.getElem?_eq_getElem h, Option.toList_some,
    List.map_append, List.sum_append, List.map_cons, List.map_nil, List.sum_cons, List.sum_nil,
    Nat.add_zero]

theorem eleOffset_lt (hsz : ∀ x, 0 < sz x) {eles : List α} {j k : ℕ} (hjk : j < k)
    (hk : k ≤ eles.length) : eleOffset sz eles j < eleOffset sz eles k := by
  induction k with
  | zero => omega
  | succ k ih =>
    rw [eleOffset_succ (by omega)]
    have := hsz eles[k]
    rcases Nat.lt_or_ge j k with hj | hj
    · have := ih hj (by omega)
      omega
    · obtain rfl : j = k := by omega
      omega

end Offsets

theorem fullIndex_valid (eles : List α) : (fullIndex sz eles).Valid 1 (eleOffset sz eles) := by
  intro k _ _ _
  rw [Nat.mul_one]
  rfl

theorem fullIndex_indexValid (eles : List α) :
    (⟨true, eles, some (fullIndex sz eles)⟩ : PackedList α).IndexValid sz := by
  rintro o ho
  obtain rfl := Option.some.inj ho
  refine ⟨rfl, ?_, fullIndex_valid sz eles⟩
  rw [if_pos rfl]
  rfl

theorem listSetFlags_ordered_indexValid {sort : List α → List α} {l l' : PackedList α}
    (hord : l.ordered = false) (hn : 1 < l.eles.length) (h : listSetFlags sz sort l true = some l') :
    l'.ordered = true ∧ l'.eles = sort l.eles ∧ l'.IndexValid sz := by
  rw [listSetFlags, if_neg (by rw [hord]; decide), if_pos ⟨rfl, hn⟩, Option.some.injEq] at h
  subst h
  exact ⟨rfl, rfl, fullIndex_indexValid sz _⟩

/-! ### Keeping the old index -/

/-- Turning a list with an index of `n ≥ 128` elements into an unordered one
keeps entries `1` to `t - 1` of the old index, for `t` the smaller of `n / 128`
and the old index's known entries, as the known entries of the partial index. -/
theorem listSetupBinIndex_unordered {contentSz n : ℕ} {o : OffsetIndex}
    (hn : packedListIndexStep ≤ n) (hc : o.contentSz = contentSz) (ho : o.eleCount = n) :
    ∃ o', listSetupBinIndex false contentSz n n (some o) = some (some o') ∧
      o'.eleCount = listPartialEleCount n ∧
      o'.getFilled = min (n / packedListIndexStep) o.getFilled ∧
      ∀ k, k < o'.getFilled → o'.entries k = o.entries k := by
  have h128 : packedListIndexStep = 128 := rfl
  have hq : n / packedListIndexStep = n / 128 := rfl
  have hpar : listPartialEleCount n = n / packedListIndexStep + 1 := by
    rw [listPartialEleCount, if_neg (by omega)]
  have hfill : o.getFilled ≤ n := ho ▸ o.getFilled_le_of_pos (by omega)
  have hd : 0 + min (n / packedListIndexStep) o.getFilled ≤
      (OffsetIndex.init (listPartialEleCount n) contentSz).eleCount := by
    simp only [OffsetIndex.init]
    omega
  have hs : 0 + min (n / packedListIndexStep) o.getFilled ≤ o.eleCount := by omega
  obtain ⟨c, hcopy, hce, hcentries⟩ := OffsetIndex.copy_raw hd hs (by rw [hc]; rfl)
  obtain ⟨o', hset, he', hf', hent'⟩ :=
    OffsetIndex.setFilled_spec (o := c) (v := min (n / packedListIndexStep) o.getFilled)
      (by rw [hce]; simp only [OffsetIndex.init]; omega) (by rw [hce]; omega)
  refine ⟨o', ?_, by rw [he', hce]; rfl, hf', fun k hk => ?_⟩
  · rw [listSetupBinIndex, if_neg (by simp; omega)]
    simp only [Bool.false_eq_true, if_false]
    rw [if_neg (by omega), hcopy, Option.bind_some, hset, Option.map_some]
  · rw [hent', hcentries k (Nat.zero_le _) (by omega), Nat.sub_zero, Nat.add_zero]

theorem listSetupBinIndex_isSome {l : PackedList α} (hvalid : l.IndexValid sz)
    (contentSz eleCount idxTrunc : ℕ) (hpos : 0 < eleCount) (htrunc : idxTrunc ≤ eleCount)
    (hle : eleCount ≤ l.eles.length) :
    (listSetupBinIndex l.ordered contentSz eleCount idxTrunc l.offidx).isSome := by
  have h128 : packedListIndexStep = 128 := rfl
  unfold listSetupBinIndex
  by_cases hnone : (!l.ordered) = true ∧ listPartialEleCount eleCount = 0
  · rw [if_pos hnone]
    rfl
  rw [if_neg hnone]
  have hfresh : 0 < (OffsetIndex.init
      (if l.ordered then eleCount else listPartialEleCount eleCount) contentSz).eleCount := by
    simp only [OffsetIndex.init]
    cases hord : l.ordered
    · simp only [hord, Bool.not_false, true_and] at hnone
      simpa using Nat.pos_of_ne_zero hnone
    · simpa using hpos
  have hfilled := OffsetIndex.setFilled_spec hfresh (v := 1) (by omega)
  obtain ⟨f1, hf1, -⟩ := hfilled
  cases hidx : l.offidx with
  | none => simp [hf1]
  | some o =>
    dsimp only
    by_cases h0 : (if l.ordered = true then idxTrunc else idxTrunc / packedListIndexStep) = 0
    · simp [h0, hf1]
    rw [if_neg h0]
    obtain ⟨-, hcount, -⟩ := hvalid o hidx
    have hlp : ∀ m, packedListIndexStep ≤ m → listPartialEleCount m = m / 128 + 1 := fun m hm => by
      rw [listPartialEleCount, if_neg (by rw [h128] at hm ⊢; omega), h128]
    have hopos : 0 < o.eleCount := by
      rw [hcount]
      cases hord : l.ordered
      · simp only [hord, Bool.not_false, true_and] at hnone
        have : packedListIndexStep ≤ eleCount := by
          by_contra hlt
          exact hnone (by rw [listPartialEleCount, if_pos (by rw [h128] at hlt ⊢; omega)])
        simp only [Bool.false_eq_true, if_false]
        rw [hlp _ (by omega)]
        omega
      · simp only [if_true]
        omega
    have hofill := o.getFilled_le_of_pos hopos
    have htr : (if l.ordered = true then idxTrunc else idxTrunc / packedListIndexStep) ≤
        (OffsetIndex.init (if l.ordered then eleCount else listPartialEleCount eleCount)
          contentSz).eleCount := by
      simp only [OffsetIndex.init]
      cases hord : l.ordered
      · simp only [hord, Bool.not_false, true_and] at hnone
        have : packedListIndexStep ≤ eleCount := by
          by_contra hlt
          exact hnone (by rw [listPartialEleCount, if_pos (by rw [h128] at hlt ⊢; omega)])
        simp only [Bool.false_eq_true, if_false]
        rw [hlp _ this, h128]
        exact Nat.le_succ_of_le (Nat.div_le_div_right htrunc)
      · simpa using htrunc
    obtain ⟨c, hcopy, hce⟩ := OffsetIndex.copy_spec
      (OffsetIndex.init (if l.ordered then eleCount else listPartialEleCount eleCount) contentSz) o
      0 0 (min (if l.ordered = true then idxTrunc else idxTrunc / packedListIndexStep) o.getFilled) 0
      (by omega) (by omega) (by omega)
    obtain ⟨o', hset, -⟩ := OffsetIndex.setFilled_spec (o := c) (by rw [hce]; exact hfresh)
      (v := min (if l.ordered = true then idxTrunc else idxTrunc / packedListIndexStep) o.getFilled)
      (by rw [hce]; omega)
    rw [hcopy, Option.bind_some, hset]
    rfl

/-- `list_set_flags` turning an ordered list of at least 128 elements into an
unordered one: the elements stay, and the partial index's known entries are
those of the old full index. -/
theorem listSetFlags_unordered {sort : List α → List α} {l : PackedList α} {o : OffsetIndex}
    (hord : l.ordered = true) (hidx : l.offidx = some o) (hvalid : l.IndexValid sz)
    (hn : packedListIndexStep ≤ l.eles.length) :
    ∃ o', listSetFlags sz sort l false = some ⟨false, l.eles, some o'⟩ ∧
      o'.eleCount = listPartialEleCount l.eles.length ∧
      o'.getFilled = min (l.eles.length / packedListIndexStep) o.getFilled ∧
      ∀ k, k < o'.getFilled → o'.entries k = o.entries k := by
  obtain ⟨hc, hcount, -⟩ := hvalid o hidx
  rw [hord, if_pos rfl] at hcount
  obtain ⟨o', hsetup, hcount', hfilled, hentries⟩ := listSetupBinIndex_unordered hn hc hcount
  refine ⟨o', ?_, hcount', hfilled, hentries⟩
  rw [listSetFlags, if_neg (by rw [hord]; decide), if_neg (by simp), hidx, hsetup, Option.map_some]

/-- `list_set_flags` turning an ordered list of at least 256 elements, whose full
index knows the offset of element `1`, into an unordered list breaks the partial
index: its entry `1` is the offset of element `1`, not of element `128`. -/
theorem list_set_flags_unordered_breaks_partial_index (hsz : ∀ x, 0 < sz x)
    (sort : List α → List α) (l : PackedList α) (o : OffsetIndex)
    (hord : l.ordered = true) (hidx : l.offidx = some o) (hvalid : l.IndexValid sz)
    (hn : 2 * packedListIndexStep ≤ l.eles.length) (hfill : 2 ≤ o.getFilled) :
    ∃ l', listSetFlags sz sort l false = some l' ∧ ¬ l'.IndexValid sz := by
  have h128 : packedListIndexStep = 128 := rfl
  have hq : l.eles.length / packedListIndexStep = l.eles.length / 128 := rfl
  obtain ⟨o', hset, hcount', hfilled', hentries⟩ :=
    listSetFlags_unordered sz hord hidx hvalid (by omega)
  obtain ⟨-, hcount, hold⟩ := hvalid o hidx
  rw [hord, if_pos rfl] at hcount hold
  refine ⟨_, hset, fun hnew => ?_⟩
  obtain ⟨-, -, hnew⟩ := hnew o' rfl
  simp only [Bool.false_eq_true, if_false] at hnew
  have h2 : 2 ≤ l.eles.length / packedListIndexStep := by omega
  have h1 : 1 < o'.getFilled := by omega
  have hwant := hnew 1 Nat.one_pos h1 (by rw [hcount', listPartialEleCount, if_neg (by omega)]; omega)
  have hhave : o'.entries 1 = eleOffset sz l.eles 1 := by
    rw [hentries 1 h1, hold 1 Nat.one_pos (by omega) (by omega)]
  rw [hhave, Nat.one_mul] at hwant
  have : eleOffset sz l.eles 1 < eleOffset sz l.eles packedListIndexStep :=
    eleOffset_lt hsz (by omega) (by omega)
  omega

/-- Two hundred and fifty-six one-byte elements in an ordered list with its
full index. -/
def orderedBytes : PackedList Unit :=
  ⟨true, List.replicate 256 (), some (fullIndex (fun _ => 1) (List.replicate 256 ()))⟩

theorem list_set_flags_unordered_breaks_partial_index_256 :
    ∃ l', listSetFlags (fun _ => 1) id orderedBytes false = some l' ∧
      ¬ l'.IndexValid (fun _ => 1) :=
  list_set_flags_unordered_breaks_partial_index (fun _ => 1) (fun _ => Nat.one_pos) id
    orderedBytes _ rfl rfl (fullIndex_indexValid _ _)
    (show 2 * 128 ≤ (List.replicate 256 ()).length by rw [List.length_replicate])
    (show 2 ≤ if (List.replicate 256 ()).length = 0 then 1 else (List.replicate 256 ()).length by
      rw [List.length_replicate]; decide)

end Aerospike.Cdt
