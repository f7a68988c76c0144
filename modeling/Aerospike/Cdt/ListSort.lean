import Aerospike.Cdt.List
import Aerospike.Cdt.OrderIndex

/-! # Sorting a packed list

`list_sort` (`particle_list.c`) orders a list of more than one element through
an order index. An ordered list keeps its own order. An unordered one is
sorted by `list_order_index_sort`, ascending or, with `AS_CDT_SORT_DESCENDING`,
descending. With `AS_CDT_SORT_DROP_DUPLICATES`, `order_index_sorted_mark_dup_eles`
then marks the repeated elements. `list_setup_bin` sizes the new particle by
the element count and content size less the marked ones, and
`list_order_index_pack` copies the unmarked elements in order.

Whenever the sort succeeds, the elements it copies fill the particle it sized.
The walk that marks repeats expects an ascending order: after a descending sort
it fails on any list with two different elements, and the sort reports an
invalid list.

Elements are elements of a linear order standing for `as_unpack_compare`, with
their packed sizes given by `sz`.
-/

namespace Aerospike.Cdt

def asCdtSortDescending : ℕ := 1

def asCdtSortDropDuplicates : ℕ := 2

theorem length_le_one_cases {β : Type} {xs : List β} (h : xs.length ≤ 1) :
    xs = [] ∨ ∃ x, xs = [x] := by
  rcases Nat.le_one_iff_eq_zero_or_eq_one.mp h with h0 | h1
  · exact Or.inl (List.length_eq_zero_iff.mp h0)
  · exact Or.inr (List.length_eq_one_iff.mp h1)

variable {α : Type} [LinearOrder α]

/-- `list_order_index_sort_cmp_fn` as a test that `a` sorts before or with
`b`: the order of `as_unpack_compare`, turned round by `AS_CDT_SORT_DESCENDING`. -/
def listOrderIndexSortLe (flags : ℕ) (a b : α) : Bool :=
  if flags &&& asCdtSortDescending = 0 then decide (a ≤ b) else decide (b ≤ a)

/-- `list_order_index_sort`: the elements in the comparator's order. The order
of equal elements, which `qsort_r` leaves open, does not show in the elements. -/
def listOrderIndexSort (flags : ℕ) (eles : List α) : List α :=
  eles.mergeSort (listOrderIndexSortLe flags)

/-- The order index `list_sort` builds: an ordered list's own order, else
`list_order_index_sort`'s. -/
def listSortOrder (l : PackedList α) (flags : ℕ) : List α :=
  if l.ordered then l.eles else listOrderIndexSort flags l.eles

section Defs

variable (sz : α → ℕ)

/-- The order index after `list_sort`'s marking pass, with `rm_count`, `rm_sz`
and the pass's result: marked by `order_index_sorted_mark_dup_eles` with
`AS_CDT_SORT_DROP_DUPLICATES`, else left unmarked. -/
def listSortMarks (flags : ℕ) (order : List α) : DupMarks α :=
  if flags &&& asCdtSortDropDuplicates = 0 then ⟨order.map some, 0, 0, true⟩
  else orderIndexSortedMarkDupEles id sz order

/-- What `list_sort` writes: the content size and element count it passes to
`list_setup_bin`, and the elements `list_order_index_pack` copies. -/
structure ListSortOut (α : Type) where
  contentSz : ℕ
  eleCount : ℕ
  eles : List α

/-- `list_sort` on a valid list: a list of at most one element is left as it
is; a failed marking pass is an invalid list. -/
def listSort (l : PackedList α) (flags : ℕ) : Except Int (ListSortOut α) :=
  if l.eles.length ≤ 1 then .ok ⟨eleOffset sz l.eles l.eles.length, l.eles.length, l.eles⟩
  else
    match listSortMarks sz flags (listSortOrder l flags) with
    | ⟨marks, rmCount, rmSz, ok⟩ =>
      if ok then
        .ok ⟨eleOffset sz l.eles l.eles.length - rmSz, l.eles.length - rmCount, marks.filterMap id⟩
      else .error (-resultFailParameter)

end Defs

/-! ### The sort -/

section Sorting

variable (flags : ℕ)

theorem listOrderIndexSortLe_iff (a b : α) :
    listOrderIndexSortLe flags a b = true ↔
      if flags &&& asCdtSortDescending = 0 then a ≤ b else b ≤ a := by
  unfold listOrderIndexSortLe
  split <;> exact decide_eq_true_iff

theorem listOrderIndexSort_perm (eles : List α) : (listOrderIndexSort flags eles).Perm eles :=
  List.mergeSort_perm _ _

theorem listOrderIndexSort_pairwise (eles : List α) :
    (listOrderIndexSort flags eles).Pairwise fun a b =>
      if flags &&& asCdtSortDescending = 0 then a ≤ b else b ≤ a := by
  have h : (listOrderIndexSort flags eles).Pairwise fun a b =>
      listOrderIndexSortLe flags a b = true := List.pairwise_mergeSort
    (fun a b c hab hbc => by
      rw [listOrderIndexSortLe_iff] at hab hbc ⊢
      split at hab
      · rw [if_pos ‹_›] at hbc ⊢
        exact le_trans hab hbc
      · rw [if_neg ‹_›] at hbc ⊢
        exact le_trans hbc hab)
    (fun a b => by
      rw [Bool.or_eq_true, listOrderIndexSortLe_iff, listOrderIndexSortLe_iff]
      split
      · exact le_total a b
      · exact le_total b a) eles
  exact h.imp fun hab => (listOrderIndexSortLe_iff flags _ _).mp hab

theorem listSortOrder_perm (l : PackedList α) : (listSortOrder l flags).Perm l.eles := by
  unfold listSortOrder
  split
  · exact List.Perm.refl _
  · exact listOrderIndexSort_perm flags l.eles

end Sorting

/-! ### The marking pass and the sizes -/

section Marks

variable (sz : α → ℕ)

theorem listSortMarks_eq_of_ok {flags : ℕ} {order : List α}
    (h : (listSortMarks sz flags order).ok = true) :
    ∃ dropped : List α,
      ((listSortMarks sz flags order).marks.filterMap id ++ dropped).Perm order ∧
      (listSortMarks sz flags order).count = dropped.length ∧
      (listSortMarks sz flags order).sz = (dropped.map sz).sum := by
  unfold listSortMarks at h ⊢
  split
  · refine ⟨[], ?_, rfl, rfl⟩
    rw [List.append_nil, List.filterMap_map]
    exact List.Perm.of_eq (List.filterMap_some)
  · rw [if_neg ‹_›] at h
    obtain ⟨h1, h2, h3⟩ := orderIndexSortedMarkDupEles_eq_of_ok id sz h
    exact ⟨droppedItems id none order, h1 ▸ keptItems_append_droppedItems_perm id none order,
      h2, h3⟩

theorem listSortMarks_of_pairwise {flags : ℕ} {order : List α}
    (h : flags &&& asCdtSortDropDuplicates = 0 ∨ order.Pairwise (· ≤ ·)) :
    (listSortMarks sz flags order).ok = true ∧
      (listSortMarks sz flags order).marks.filterMap id =
        if flags &&& asCdtSortDropDuplicates = 0 then order else order.destutter (· ≠ ·) := by
  unfold listSortMarks
  split
  · exact ⟨rfl, by rw [List.filterMap_map]; exact List.filterMap_some⟩
  · next hdrop =>
    obtain ⟨h1, -, -, h4⟩ := orderIndexSortedMarkDupEles_spec id sz (h.resolve_left hdrop)
    exact ⟨h4, h1.trans (keptItems_id_none order)⟩

/-- Whenever `list_sort` succeeds, the elements `list_order_index_pack` copies
fill the content size and element count the particle was set up with. -/
theorem listSort_fills {l : PackedList α} {flags : ℕ} {out : ListSortOut α}
    (h : listSort sz l flags = .ok out) :
    out.contentSz = eleOffset sz out.eles out.eles.length ∧ out.eleCount = out.eles.length := by
  unfold listSort at h
  split at h
  · cases h
    exact ⟨rfl, rfl⟩
  · rcases hm : listSortMarks sz flags (listSortOrder l flags) with ⟨marks, rmCount, rmSz, ok⟩
    rw [hm] at h
    dsimp only at h
    split at h
    · next hok =>
      cases h
      obtain ⟨dropped, hperm, hcount, hsz⟩ := listSortMarks_eq_of_ok sz (by rw [hm]; exact hok)
      rw [hm] at hperm hcount hsz
      dsimp only at hperm hcount hsz
      have hperm' := hperm.trans (listSortOrder_perm flags l)
      have hlen := hperm'.length_eq
      have hsum := (hperm'.map sz).sum_nat
      rw [List.length_append] at hlen
      rw [List.map_append, List.sum_append] at hsum
      dsimp only
      rw [eleOffset_length_eq_sum, eleOffset_length_eq_sum, hcount, hsz]
      omega
    · cases h

theorem listSort_fills_drop_duplicates :
    listSort (fun _ : ℕ => 1) ⟨true, [1, 1, 2], none⟩ asCdtSortDropDuplicates = .ok ⟨2, 2, [1, 2]⟩ ∧
      (⟨2, 2, [1, 2]⟩ : ListSortOut ℕ).contentSz =
        eleOffset (fun _ : ℕ => 1) (⟨2, 2, [1, 2]⟩ : ListSortOut ℕ).eles 2 ∧
      (⟨2, 2, [1, 2]⟩ : ListSortOut ℕ).eleCount = 2 :=
  have h : listSort (fun _ : ℕ => 1) ⟨true, [1, 1, 2], none⟩ asCdtSortDropDuplicates = .ok ⟨2, 2, [1, 2]⟩ :=
    rfl
  ⟨h, listSort_fills _ h⟩

end Marks

/-! ### What the sort produces -/

section Results

variable (sz : α → ℕ)

theorem listOrderIndexSort_of_length_le_one (flags : ℕ) {eles : List α} (h : eles.length ≤ 1) :
    listOrderIndexSort flags eles = eles := by
  rcases length_le_one_cases h with rfl | ⟨x, rfl⟩ <;> simp [listOrderIndexSort]

theorem destutter_of_length_le_one {xs : List α} (h : xs.length ≤ 1) :
    xs.destutter (· ≠ ·) = xs := by
  rcases length_le_one_cases h with rfl | ⟨x, rfl⟩ <;> rfl

theorem listSort_of_length_le_one {l : PackedList α} (flags : ℕ) (h : l.eles.length ≤ 1) :
    listSort sz l flags = .ok ⟨eleOffset sz l.eles l.eles.length, l.eles.length, l.eles⟩ := by
  rw [listSort, if_pos h]

theorem listSort_of_ok {l : PackedList α} {flags : ℕ} (hlen : 1 < l.eles.length)
    (hok : (listSortMarks sz flags (listSortOrder l flags)).ok = true) :
    ∃ out, listSort sz l flags = .ok out ∧
      out.eles = (listSortMarks sz flags (listSortOrder l flags)).marks.filterMap id := by
  rw [listSort, if_neg (by omega)]
  rcases hm : listSortMarks sz flags (listSortOrder l flags) with ⟨marks, rmCount, rmSz, ok⟩
  rw [hm] at hok
  dsimp only at hok ⊢
  rw [if_pos hok]
  exact ⟨_, rfl, rfl⟩

theorem listSort_of_not_ok {l : PackedList α} {flags : ℕ} (hlen : 1 < l.eles.length)
    (hok : (listSortMarks sz flags (listSortOrder l flags)).ok = false) :
    listSort sz l flags = .error (-resultFailParameter) := by
  rw [listSort, if_neg (by omega)]
  rcases hm : listSortMarks sz flags (listSortOrder l flags) with ⟨marks, rmCount, rmSz, ok⟩
  rw [hm] at hok
  dsimp only at hok ⊢
  rw [if_neg (by rw [hok]; decide)]

/-- An unordered list is sorted in the order its flags ask for, keeping one
element of each run of equal ones with `AS_CDT_SORT_DROP_DUPLICATES`, unless
it is to be sorted descending without duplicates. -/
theorem listSort_unordered {l : PackedList α} {flags : ℕ} (hord : l.ordered = false)
    (hflags : flags &&& asCdtSortDescending = 0 ∨ flags &&& asCdtSortDropDuplicates = 0) :
    ∃ out, listSort sz l flags = .ok out ∧
      out.eles = if flags &&& asCdtSortDropDuplicates = 0 then listOrderIndexSort flags l.eles
        else (listOrderIndexSort flags l.eles).destutter (· ≠ ·) := by
  by_cases hlen : l.eles.length ≤ 1
  · refine ⟨_, listSort_of_length_le_one sz flags hlen, ?_⟩
    rw [listOrderIndexSort_of_length_le_one flags hlen, destutter_of_length_le_one hlen]
    exact (ite_self _).symm
  · have horder : listSortOrder l flags = listOrderIndexSort flags l.eles := by
      rw [listSortOrder, hord]
      rfl
    have hasc : flags &&& asCdtSortDropDuplicates = 0 ∨
        (listOrderIndexSort flags l.eles).Pairwise (· ≤ ·) := by
      rcases hflags with hdesc | hdrop
      · exact Or.inr ((listOrderIndexSort_pairwise flags l.eles).imp fun h => by
          rwa [if_pos hdesc] at h)
      · exact Or.inl hdrop
    obtain ⟨hok, heles⟩ := listSortMarks_of_pairwise sz hasc
    obtain ⟨out, hout, houtEles⟩ := listSort_of_ok sz (not_le.mp hlen) (by rw [horder]; exact hok)
    rw [horder] at houtEles
    exact ⟨out, hout, houtEles.trans heles⟩

theorem listSort_unordered_drop_duplicates :
    (⟨false, [2, 1, 2], none⟩ : PackedList ℕ).ordered = false ∧
      (asCdtSortDropDuplicates &&& asCdtSortDescending = 0 ∨
        asCdtSortDropDuplicates &&& asCdtSortDropDuplicates = 0) ∧
      ∃ out, listSort (fun _ : ℕ => 1) ⟨false, [2, 1, 2], none⟩ asCdtSortDropDuplicates = .ok out ∧
        out.eles = if asCdtSortDropDuplicates &&& asCdtSortDropDuplicates = 0 then
            listOrderIndexSort asCdtSortDropDuplicates [2, 1, 2]
          else (listOrderIndexSort asCdtSortDropDuplicates [2, 1, 2]).destutter (· ≠ ·) :=
  ⟨rfl, Or.inl (by decide), listSort_unordered _ rfl (Or.inl (by decide))⟩

/-- An ordered list keeps its ascending order whatever the flags, with one
element of each run of equal ones under `AS_CDT_SORT_DROP_DUPLICATES`. -/
theorem listSort_ordered {l : PackedList α} {flags : ℕ} (hord : l.ordered = true)
    (hsorted : l.eles.Pairwise (· ≤ ·)) :
    ∃ out, listSort sz l flags = .ok out ∧
      out.eles = if flags &&& asCdtSortDropDuplicates = 0 then l.eles
        else l.eles.destutter (· ≠ ·) := by
  by_cases hlen : l.eles.length ≤ 1
  · refine ⟨_, listSort_of_length_le_one sz flags hlen, ?_⟩
    rw [destutter_of_length_le_one hlen]
    exact (ite_self _).symm
  · have horder : listSortOrder l flags = l.eles := by
      rw [listSortOrder, hord]
      rfl
    have hpass : flags &&& asCdtSortDropDuplicates = 0 ∨ l.eles.Pairwise (· ≤ ·) := Or.inr hsorted
    obtain ⟨hok, heles⟩ := listSortMarks_of_pairwise sz hpass
    obtain ⟨out, hout, houtEles⟩ := listSort_of_ok sz (not_le.mp hlen) (by rw [horder]; exact hok)
    rw [horder] at houtEles
    exact ⟨out, hout, houtEles.trans heles⟩

theorem listSort_ordered_descending :
    (⟨true, [1, 2], none⟩ : PackedList ℕ).ordered = true ∧ [1, 2].Pairwise (· ≤ ·) ∧
      ∃ out, listSort (fun _ : ℕ => 1) ⟨true, [1, 2], none⟩ asCdtSortDescending = .ok out ∧
        out.eles = if asCdtSortDescending &&& asCdtSortDropDuplicates = 0 then [1, 2]
          else [1, 2].destutter (· ≠ ·) :=
  ⟨rfl, by decide, listSort_ordered _ rfl (by decide)⟩

example : listSort (fun _ : ℕ => 1) ⟨true, [1, 2], none⟩ asCdtSortDescending =
    .ok ⟨2, 2, [1, 2]⟩ := rfl

/-- Sorting an unordered list descending and dropping duplicates fails as an
invalid list as soon as the list holds two different elements: the marking
pass meets the descending order and stops. -/
theorem listSort_descending_drop_duplicates_fails {l : PackedList α} {flags : ℕ}
    (hord : l.ordered = false) (hdesc : flags &&& asCdtSortDescending ≠ 0)
    (hdrop : flags &&& asCdtSortDropDuplicates ≠ 0) {a b : α} (ha : a ∈ l.eles)
    (hb : b ∈ l.eles) (hab : a ≠ b) :
    listSort sz l flags = .error (-resultFailParameter) := by
  have hlen : 1 < l.eles.length := by
    by_contra hle
    rcases length_le_one_cases (not_lt.mp hle) with h | ⟨x, h⟩
    · rw [h] at ha
      exact absurd ha List.not_mem_nil
    · rw [h, List.mem_singleton] at ha hb
      exact hab (ha.trans hb.symm)
  have horder : listSortOrder l flags = listOrderIndexSort flags l.eles := by
    rw [listSortOrder, hord]
    rfl
  have hperm := listOrderIndexSort_perm flags l.eles
  have hdescending : (listOrderIndexSort flags l.eles).Pairwise fun x y => y ≤ x :=
    (listOrderIndexSort_pairwise flags l.eles).imp fun h => by rwa [if_neg hdesc] at h
  have hfail := orderIndexSortedMarkDupEles_ok_eq_false id sz hdescending (hperm.mem_iff.mpr ha)
    (hperm.mem_iff.mpr hb) hab
  apply listSort_of_not_ok sz hlen
  rw [horder, listSortMarks, if_neg hdrop]
  exact hfail

theorem listSort_descending_drop_duplicates_fails_two :
    (3 &&& asCdtSortDescending ≠ 0 ∧ 3 &&& asCdtSortDropDuplicates ≠ 0) ∧
      listSort (fun _ : ℕ => 1) ⟨false, [1, 2], none⟩ 3 = .error (-resultFailParameter) :=
  ⟨⟨by decide, by decide⟩,
    listSort_descending_drop_duplicates_fails (fun _ : ℕ => 1) rfl (by decide) (by decide)
      (List.mem_cons_self) (List.mem_cons_of_mem 1 List.mem_cons_self) (by decide)⟩

end Results

end Aerospike.Cdt
