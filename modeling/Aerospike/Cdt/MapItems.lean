import Aerospike.Cdt.Map
import Aerospike.Cdt.OrderIndex

/-! # The sizes `map_add_items_ordered` writes

`map_add_items` sorts the items by key, then value (`SORT_BY_KEY`), and
`order_index_sorted_mark_dup_eles` marks every item whose key equals its
predecessor's, counting the marked items and the bytes the comparison of the
keys read. `map_add_items_ordered` then looks up each remaining item in a
non-empty map, marks the pairs they replace, and sizes the new map as
`content_sz - rm_sz + val_content_sz - dup_sz`.

The comparison reads one element, the key, so `dup_sz` sums the keys of the
dropped items while the writer skips their whole pairs: with a repeated key
among the items, the declared content size exceeds the pairs of the new map by
the sizes of the dropped values.

Keys and values are elements of linear orders standing for `as_unpack_compare`,
with their packed sizes given by `keySz` and `valSz`.
-/

namespace Aerospike.Cdt

variable {κ ν : Type} [LinearOrder κ]

section Defs

variable (keySz : κ → ℕ) (valSz : ν → ℕ)

def pairSz (p : κ × ν) : ℕ := keySz p.1 + valSz p.2

def pairsContentSz (pairs : List (κ × ν)) : ℕ := (pairs.map (pairSz keySz valSz)).sum

/-- `order_index_set_sorted` with `SORT_BY_KEY`: the items by key, then value. -/
def sortByKey [LinearOrder ν] (items : List (κ × ν)) : List (κ × ν) :=
  items.mergeSort fun a b => decide (a.1 < b.1 ∨ a.1 = b.1 ∧ a.2 ≤ b.2)

structure RmState where
  rmMask : ℕ → Bool
  rmCount : ℕ
  rmSz : ℕ

/-- The lookup loop of `map_add_items_ordered`: each kept item is found among
the map's keys and checked; a replaced pair is marked once. -/
def addItemsScan (control : MapAddControl) (pairs : List (κ × ν)) :
    List (Option (κ × ν)) → RmState → Except Int RmState
  | [], st => .ok st
  | none :: marks, st => addItemsScan control pairs marks st
  | some v :: marks, st =>
    if hasKey pairs v.1 then
      if !control.allowOverwrite then .error (-resultFailElementExists)
      else if st.rmMask (pairs.findIdx (·.1 == v.1)) then addItemsScan control pairs marks st
      else
        addItemsScan control pairs marks
          ⟨Function.update st.rmMask (pairs.findIdx (·.1 == v.1)) true, st.rmCount + 1,
            st.rmSz + pairSz keySz valSz (pairs.getD (pairs.findIdx (·.1 == v.1)) v)⟩
    else if !control.allowCreate then .error (-resultFailElementNotFound)
    else addItemsScan control pairs marks st

/-- The element count and content size `map_add_items_ordered` declares for a
non-empty map, or the failed check. -/
def mapAddItemsOrderedHeader [LinearOrder ν] (control : MapAddControl) (pairs items : List (κ × ν)) :
    Except Int (ℕ × ℕ) :=
  match orderIndexSortedMarkDupEles Prod.fst (keySz ·.1) (sortByKey items) with
  | ⟨marks, dupCount, dupSz, _⟩ =>
    match addItemsScan keySz valSz control pairs marks ⟨fun _ => false, 0, 0⟩ with
    | .error rc => .error rc
    | .ok st => .ok (pairs.length - st.rmCount + items.length - dupCount,
        pairsContentSz keySz valSz pairs - st.rmSz + pairsContentSz keySz valSz items - dupSz)

end Defs

theorem sortByKey_perm [LinearOrder ν] (items : List (κ × ν)) : (sortByKey items).Perm items :=
  List.mergeSort_perm _ _

theorem sortByKey_pairwise [LinearOrder ν] (items : List (κ × ν)) :
    (sortByKey items).Pairwise fun a b => a.1 ≤ b.1 := by
  have h : (sortByKey items).Pairwise
      (fun a b => decide (a.1 < b.1 ∨ a.1 = b.1 ∧ a.2 ≤ b.2) = true) := List.pairwise_mergeSort
    (fun a b c hab hbc => by
      simp only [decide_eq_true_eq] at hab hbc ⊢
      rcases hab with hab | ⟨hab, hab'⟩ <;> rcases hbc with hbc | ⟨hbc, hbc'⟩
      · exact Or.inl (lt_trans hab hbc)
      · exact Or.inl (hbc ▸ hab)
      · exact Or.inl (hab ▸ hbc)
      · exact Or.inr ⟨hab.trans hbc, le_trans hab' hbc'⟩)
    (fun a b => by
      simp only [Bool.or_eq_true, decide_eq_true_eq]
      rcases lt_trichotomy a.1 b.1 with h | h | h
      · exact Or.inl (Or.inl h)
      · rcases le_total a.2 b.2 with h' | h'
        · exact Or.inl (Or.inr ⟨h, h'⟩)
        · exact Or.inr (Or.inr ⟨h.symm, h'⟩)
      · exact Or.inr (Or.inl h)) items
  refine h.imp fun {a b} hab => ?_
  simp only [decide_eq_true_eq] at hab
  rcases hab with hab | ⟨hab, -⟩
  · exact hab.le
  · exact hab.le


/-! ### The pairs an add replaces -/

section Replace

variable (f : κ × ν → ℕ)

theorem hasKey_eq_false_of_lt {pairs : List (κ × ν)} {k : κ} (h : ∀ p ∈ pairs, k < p.1) :
    hasKey pairs k = false :=
  List.any_eq_false.mpr fun p hp hpk => absurd (beq_iff_eq.mp hpk) (ne_of_lt (h p hp)).symm

theorem sum_filter_hasKey_cons {v : κ × ν} {vs : List (κ × ν)} (hv : hasKey vs v.1 = false) :
    ∀ pairs : List (κ × ν), pairs.Pairwise (fun a b => a.1 < b.1) →
      ((pairs.filter fun p => hasKey (v :: vs) p.1).map f).sum =
        (if hasKey pairs v.1 then f (pairs.getD (pairs.findIdx (·.1 == v.1)) v) else 0) +
          ((pairs.filter fun p => hasKey vs p.1).map f).sum
  | [], _ => rfl
  | p :: ps, h => by
    have hrest := List.pairwise_cons.mp h
    have ih := sum_filter_hasKey_cons hv ps hrest.2
    have hcons : hasKey (v :: vs) p.1 = (v.1 == p.1 || hasKey vs p.1) := by
      rw [hasKey, List.any_cons]
      rfl
    by_cases hpv : p.1 = v.1
    · have hps : hasKey ps v.1 = false := hasKey_eq_false_of_lt (hpv ▸ hrest.1)
      have hvs : hasKey vs p.1 = false := hpv ▸ hv
      have hfilter : ps.filter (fun q => hasKey (v :: vs) q.1) = ps.filter (fun q => hasKey vs q.1) := by
        apply List.filter_congr
        intro q hq
        have hq' : (v.1 == q.1) = false := beq_false_of_ne (ne_of_lt (hpv ▸ hrest.1 q hq))
        rw [hasKey, hasKey, List.any_cons, hq', Bool.false_or]
      rw [List.filter_cons_of_pos (by rw [hcons, hpv, beq_self_eq_true, Bool.true_or]),
        List.filter_cons_of_neg (by rw [hvs]; exact Bool.false_ne_true), hfilter,
        if_pos (by simp [hasKey, hpv]), List.findIdx_cons, show (p.1 == v.1) = true from beq_iff_eq.mpr hpv,
        cond_true]
      rfl
    · have hpv' : (p.1 == v.1) = false := beq_false_of_ne hpv
      have hvp : (v.1 == p.1) = false := beq_false_of_ne (Ne.symm hpv)
      have hkey : hasKey (p :: ps) v.1 = hasKey ps v.1 := by
        simp only [hasKey, List.any_cons, hpv', Bool.false_or]
      have hidx : (p :: ps).findIdx (·.1 == v.1) = ps.findIdx (·.1 == v.1) + 1 := by
        rw [List.findIdx_cons, hpv', cond_false]
      rw [hkey, hidx, List.getD_cons_succ]
      by_cases hvsp : hasKey vs p.1
      · rw [List.filter_cons_of_pos (by rw [hcons, hvsp, Bool.or_true]),
          List.filter_cons_of_pos (p := fun q : κ × ν => hasKey vs q.1) hvsp, List.map_cons, List.map_cons, List.sum_cons, List.sum_cons, ih]
        omega
      · rw [List.filter_cons_of_neg (by rw [hcons, hvp, Bool.false_or]; exact hvsp),
          List.filter_cons_of_neg (p := fun q : κ × ν => hasKey vs q.1) hvsp, ih]

end Replace

section Scan

variable (keySz : κ → ℕ) (valSz : ν → ℕ)

theorem eq_of_findIdx_eq {pairs : List (κ × ν)} {k k' : κ} (hk : hasKey pairs k = true)
    (h : pairs.findIdx (·.1 == k') = pairs.findIdx (·.1 == k)) : k' = k := by
  have hlt : pairs.findIdx (·.1 == k) < pairs.length := by
    rw [List.findIdx_lt_length]
    simpa [hasKey] using hk
  have h1 := List.findIdx_getElem (w := hlt)
  have h2 := List.findIdx_getElem (w := h ▸ hlt)
  simp only [h, beq_iff_eq] at h1 h2
  exact h2.symm.trans h1

theorem addItemsScan_put (pairs : List (κ × ν)) (hpairs : pairs.Pairwise fun a b => a.1 < b.1) :
    ∀ (vals : List (κ × ν)) (st : RmState), vals.Pairwise (fun a b => a.1 < b.1) →
      (∀ v ∈ vals, st.rmMask (pairs.findIdx (·.1 == v.1)) = false) →
      ∃ mask, addItemsScan keySz valSz putItemsControl pairs (vals.map some) st =
        .ok ⟨mask, st.rmCount + ((pairs.filter fun p => hasKey vals p.1).map fun _ => 1).sum,
          st.rmSz + ((pairs.filter fun p => hasKey vals p.1).map (pairSz keySz valSz)).sum⟩
  | [], st, _, _ => ⟨st.rmMask, by simp [addItemsScan, hasKey]⟩
  | v :: vs, st, hvals, hmask => by
    have hrest := List.pairwise_cons.mp hvals
    have hv : hasKey vs v.1 = false := hasKey_eq_false_of_lt hrest.1
    have hcnt := sum_filter_hasKey_cons (fun _ => 1) hv pairs hpairs
    have hsz := sum_filter_hasKey_cons (pairSz keySz valSz) hv pairs hpairs
    rw [List.map_cons, addItemsScan]
    by_cases hk : hasKey pairs v.1
    · rw [if_pos hk]
      rw [if_pos hk] at hcnt hsz
      have hnew : ∀ w ∈ vs, Function.update st.rmMask (pairs.findIdx (·.1 == v.1)) true
          (pairs.findIdx (·.1 == w.1)) = false := by
        intro w hw
        rw [Function.update_of_ne fun h => ne_of_gt (hrest.1 w hw) (eq_of_findIdx_eq hk h)]
        exact hmask w (List.mem_cons_of_mem v hw)
      obtain ⟨mask, hrun⟩ := addItemsScan_put pairs hpairs vs
        ⟨Function.update st.rmMask (pairs.findIdx (·.1 == v.1)) true, st.rmCount + 1,
          st.rmSz + pairSz keySz valSz (pairs.getD (pairs.findIdx (·.1 == v.1)) v)⟩ hrest.2 hnew
      refine ⟨mask, ?_⟩
      rw [if_neg (by decide), if_neg (by rw [hmask v List.mem_cons_self]; decide), hrun, hcnt, hsz]
      simp only [Nat.add_assoc]
    · rw [Bool.not_eq_true] at hk
      rw [if_neg (by rw [hk]; decide), if_neg (by decide)]
      rw [hk] at hcnt hsz
      obtain ⟨mask, hrun⟩ := addItemsScan_put pairs hpairs vs st hrest.2
        fun w hw => hmask w (List.mem_cons_of_mem v hw)
      refine ⟨mask, ?_⟩
      rw [hrun, hcnt, hsz]
      simp

end Scan

/-! ### The declared sizes -/

theorem mapMerge_perm (pairs vals : List (κ × ν)) (hpairs : pairs.Pairwise fun a b => a.1 < b.1)
    (hvals : vals.Pairwise fun a b => a.1 < b.1) :
    (mapMerge pairs vals).Perm (pairs.filter (fun p => !hasKey vals p.1) ++ vals) := by
  induction pairs, vals using mapMerge.induct with
  | case1 vals => simp [mapMerge]
  | case2 p ps => simp [mapMerge, hasKey]
  | case3 p ps v vs hlt ih =>
    have hnone : ∀ q ∈ p :: ps, v.1 < q.1 := fun q hq => by
      rcases List.mem_cons.mp hq with rfl | hq
      · exact hlt
      · exact lt_trans hlt ((List.pairwise_cons.mp hpairs).1 q hq)
    have hfilter : (p :: ps).filter (fun q => !hasKey (v :: vs) q.1) =
        (p :: ps).filter (fun q => !hasKey vs q.1) := by
      apply List.filter_congr
      intro q hq
      rw [hasKey, List.any_cons, beq_false_of_ne (ne_of_lt (hnone q hq)), Bool.false_or]
      rfl
    rw [mapMerge, if_pos hlt, hfilter]
    exact ((ih hpairs (List.pairwise_cons.mp hvals).2).cons v).trans List.perm_middle.symm
  | case4 p ps v vs hlt heq ih =>
    have hps := List.pairwise_cons.mp hpairs
    have hfilter : (p :: ps).filter (fun q => !hasKey (v :: vs) q.1) =
        ps.filter (fun q => !hasKey vs q.1) := by
      rw [List.filter_cons_of_neg (by simp [hasKey, heq])]
      apply List.filter_congr
      intro q hq
      rw [hasKey, List.any_cons, beq_false_of_ne (ne_of_lt (heq ▸ hps.1 q hq)), Bool.false_or]
      rfl
    rw [mapMerge, if_neg hlt, if_pos heq, hfilter]
    exact ((ih hps.2 (List.pairwise_cons.mp hvals).2).cons v).trans List.perm_middle.symm
  | case5 p ps v vs hlt heq ih =>
    have hpv : p.1 < v.1 := lt_of_le_of_ne (not_lt.mp hlt) (Ne.symm heq)
    have hkey : hasKey (v :: vs) p.1 = false := hasKey_eq_false_of_lt fun w hw => by
      rcases List.mem_cons.mp hw with rfl | hw
      · exact hpv
      · exact lt_trans hpv ((List.pairwise_cons.mp hvals).1 w hw)
    rw [mapMerge, if_neg hlt, if_neg heq, List.filter_cons_of_pos (by rw [hkey]; rfl)]
    exact (ih (List.pairwise_cons.mp hpairs).2 hvals).cons p

section Header

variable (keySz : κ → ℕ) (valSz : ν → ℕ)

theorem addItemsScan_filterMap (control : MapAddControl) (pairs : List (κ × ν)) :
    ∀ (marks : List (Option (κ × ν))) (st : RmState),
      addItemsScan keySz valSz control pairs marks st =
        addItemsScan keySz valSz control pairs ((marks.filterMap id).map some) st
  | [], _ => rfl
  | none :: marks, st => by
    rw [addItemsScan, List.filterMap_cons_none rfl, addItemsScan_filterMap control pairs marks st]
  | some v :: marks, st => by
    rw [List.filterMap_cons_some (f := id) rfl, List.map_cons, addItemsScan, addItemsScan]
    simp only [addItemsScan_filterMap control pairs marks]

/-- What `map_add_items_ordered` declares for a non-empty map with `PUT`: the
element count of the merged map, and its content size plus the sizes of the
values of the items dropped as repeated keys. -/
theorem mapAddItemsOrderedHeader_put [LinearOrder ν] (pairs items : List (κ × ν))
    (hpairs : pairs.Pairwise fun a b => a.1 < b.1) :
    mapAddItemsOrderedHeader keySz valSz putItemsControl pairs items =
      .ok ((mapMerge pairs (keptItems Prod.fst none (sortByKey items))).length,
        pairsContentSz keySz valSz (mapMerge pairs (keptItems Prod.fst none (sortByKey items))) +
          ((droppedItems Prod.fst none (sortByKey items)).map (valSz ·.2)).sum) := by
  have hsorted := sortByKey_pairwise items
  have hinc := keptItems_none_pairwise Prod.fst hsorted
  obtain ⟨hkept, hcount, hsz, -⟩ := orderIndexSortedMarkDupEles_spec Prod.fst (keySz ·.1) hsorted
  obtain ⟨mask, hscan⟩ := addItemsScan_put keySz valSz pairs hpairs _ ⟨fun _ => false, 0, 0⟩ hinc
    fun _ _ => rfl
  have hpairsP := List.filter_append_perm (fun p => hasKey (keptItems Prod.fst none (sortByKey items)) p.1) pairs
  have hitemsP := (keptItems_append_droppedItems_perm Prod.fst none (sortByKey items)).trans
    (sortByKey_perm items)
  have hmergeP := mapMerge_perm pairs _ hpairs hinc
  have hlen1 := hpairsP.length_eq
  have hlen2 := hitemsP.length_eq
  have hlen3 := hmergeP.length_eq
  have hsz1 := (hpairsP.map (pairSz keySz valSz)).sum_nat
  have hsz2 := (hitemsP.map (pairSz keySz valSz)).sum_nat
  have hsz3 := (hmergeP.map (pairSz keySz valSz)).sum_nat
  have hdrop : ((droppedItems Prod.fst none (sortByKey items)).map (pairSz keySz valSz)).sum =
      ((droppedItems Prod.fst none (sortByKey items)).map (keySz ·.1)).sum +
        ((droppedItems Prod.fst none (sortByKey items)).map (valSz ·.2)).sum := by
    rw [← List.sum_map_add]
    rfl
  simp only [List.length_append, List.map_append, List.sum_append] at hlen1 hlen2 hlen3 hsz1 hsz2 hsz3
  unfold mapAddItemsOrderedHeader
  rcases hm : orderIndexSortedMarkDupEles Prod.fst (keySz ·.1) (sortByKey items) with
    ⟨marks, dupCount, dupSz, ok⟩
  rw [hm] at hkept hcount hsz
  dsimp only at hkept hcount hsz ⊢
  rw [addItemsScan_filterMap, hkept, hscan]
  have hone : ((pairs.filter fun p => hasKey (keptItems Prod.fst none (sortByKey items)) p.1).map
      fun _ => 1).sum = (pairs.filter fun p => hasKey (keptItems Prod.fst none (sortByKey items)) p.1).length := by
    simp
  unfold pairsContentSz
  rw [hcount, hsz, hone]
  dsimp only
  congr 2 <;> omega

end Header


theorem map_add_items_repeated_key_header :
    mapAddItemsOrderedHeader (fun _ : ℕ => 1) (fun _ : ℕ => 1) putItemsControl [(1, 10)]
        [(2, 20), (2, 30)] = .ok (2, 5) ∧
      mapMerge [(1, 10)] (keptItems Prod.fst none (sortByKey [((2 : ℕ), (20 : ℕ)), (2, 30)])) =
        [(1, 10), (2, 20)] ∧
      pairsContentSz (fun _ : ℕ => 1) (fun _ : ℕ => 1) [((1 : ℕ), (10 : ℕ)), (2, 20)] = 4 := by
  have hsort : sortByKey [((2 : ℕ), (20 : ℕ)), (2, 30)] = [(2, 20), (2, 30)] :=
    List.mergeSort_of_pairwise (by decide)
  have hmerge : mapMerge [((1 : ℕ), (10 : ℕ))] (keptItems Prod.fst none (sortByKey [((2 : ℕ), (20 : ℕ)), (2, 30)])) =
      [(1, 10), (2, 20)] := by
    rw [hsort]
    simp [keptItems, mapMerge]
  refine ⟨?_, hmerge, rfl⟩
  rw [mapAddItemsOrderedHeader_put _ _ _ _ (by decide), hmerge, hsort]
  rfl

end Aerospike.Cdt
