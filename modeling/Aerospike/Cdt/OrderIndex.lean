import Mathlib

/-! # Marking repeated entries of a sorted order index

`order_index_sorted_mark_dup_eles` (`cdt.c`) walks an order index whose entries
are sorted, compares each entry with its predecessor by `as_unpack_compare`
and marks it with the sentinel `ele_count` when the two compare equal, counting
the marked entries and the bytes the comparison read. An entry that compares
below its predecessor stops the walk, which then reports failure.

The walk serves lists, whose entries compare as whole elements, and maps, whose
pairs compare by key: `cmpKey` is what the comparison reads of an entry, an
element of a linear order standing for `as_unpack_compare`, and `cmpSz` is its
packed size. On an ascending order the kept entries are the first of each run
of equal keys; on a descending one with two different keys the walk fails.
-/

namespace Aerospike.Cdt

variable {β κ : Type} [LinearOrder κ]

/-- What `order_index_sorted_mark_dup_eles` leaves: each entry kept or marked
(`none`, the sentinel), the number marked, the bytes the comparison read of
them, and its result. -/
structure DupMarks (β : Type) where
  marks : List (Option β)
  count : ℕ
  sz : ℕ
  ok : Bool

section Defs

variable (cmpKey : β → κ) (cmpSz : β → ℕ)

/-- The loop of `order_index_sorted_mark_dup_eles` after the entry `prev`; an
entry below its predecessor ends it with `false`, the entries from there on
left as they are. -/
def markDupEles (prev : β) : List β → DupMarks β
  | [] => ⟨[], 0, 0, true⟩
  | x :: xs =>
    if cmpKey prev = cmpKey x then
      match markDupEles x xs with
      | ⟨marks, count, sz, ok⟩ => ⟨none :: marks, count + 1, sz + cmpSz x, ok⟩
    else if cmpKey prev < cmpKey x then
      match markDupEles x xs with
      | ⟨marks, count, sz, ok⟩ => ⟨some x :: marks, count, sz, ok⟩
    else ⟨(x :: xs).map some, 0, 0, false⟩

/-- `order_index_sorted_mark_dup_eles`: the first entry is always kept. -/
def orderIndexSortedMarkDupEles : List β → DupMarks β
  | [] => ⟨[], 0, 0, true⟩
  | x :: xs =>
    match markDupEles cmpKey cmpSz x xs with
    | ⟨marks, count, sz, ok⟩ => ⟨some x :: marks, count, sz, ok⟩

/-- The entries after the predecessor key `prev` whose key is not their
predecessor's: on a sorted list, the first entry of each key. -/
def keptItems : Option κ → List β → List β
  | _, [] => []
  | prev, x :: xs =>
    if prev = some (cmpKey x) then keptItems (some (cmpKey x)) xs
    else x :: keptItems (some (cmpKey x)) xs

def droppedItems : Option κ → List β → List β
  | _, [] => []
  | prev, x :: xs =>
    if prev = some (cmpKey x) then x :: droppedItems (some (cmpKey x)) xs
    else droppedItems (some (cmpKey x)) xs

end Defs

variable (cmpKey : β → κ) (cmpSz : β → ℕ)

/-! ### The walk that succeeds -/

theorem markDupEles_eq_of_ok : ∀ (prev : β) (xs : List β),
    (markDupEles cmpKey cmpSz prev xs).ok = true →
      (markDupEles cmpKey cmpSz prev xs).marks.filterMap id =
        keptItems cmpKey (some (cmpKey prev)) xs ∧
      (markDupEles cmpKey cmpSz prev xs).count =
        (droppedItems cmpKey (some (cmpKey prev)) xs).length ∧
      (markDupEles cmpKey cmpSz prev xs).sz =
        ((droppedItems cmpKey (some (cmpKey prev)) xs).map cmpSz).sum
  | _, [], _ => ⟨rfl, rfl, rfl⟩
  | prev, x :: xs, h => by
    rcases hr : markDupEles cmpKey cmpSz x xs with ⟨marks, count, sz, ok⟩
    by_cases heq : cmpKey prev = cmpKey x
    · rw [markDupEles, if_pos heq, hr] at h
      obtain ⟨ih1, ih2, ih3⟩ := markDupEles_eq_of_ok x xs (by rw [hr]; exact h)
      rw [hr] at ih1 ih2 ih3
      rw [markDupEles, if_pos heq, hr, keptItems, droppedItems, if_pos (congrArg some heq),
        if_pos (congrArg some heq)]
      refine ⟨?_, ?_, ?_⟩
      · rw [List.filterMap_cons_none rfl]
        exact ih1
      · rw [List.length_cons, ← ih2]
      · rw [List.map_cons, List.sum_cons, ← ih3, Nat.add_comm]
    · have hne : (some (cmpKey prev) : Option κ) ≠ some (cmpKey x) :=
        fun h => heq (Option.some.inj h)
      by_cases hlt : cmpKey prev < cmpKey x
      · rw [markDupEles, if_neg heq, if_pos hlt, hr] at h
        obtain ⟨ih1, ih2, ih3⟩ := markDupEles_eq_of_ok x xs (by rw [hr]; exact h)
        rw [hr] at ih1 ih2 ih3
        rw [markDupEles, if_neg heq, if_pos hlt, hr, keptItems, droppedItems, if_neg hne,
          if_neg hne]
        refine ⟨?_, ih2, ih3⟩
        rw [List.filterMap_cons_some (f := id) rfl, ih1]
      · rw [markDupEles, if_neg heq, if_neg hlt] at h
        exact absurd h Bool.false_ne_true

theorem markDupEles_ok_of_pairwise : ∀ (prev : β) (xs : List β),
    (prev :: xs).Pairwise (fun a b => cmpKey a ≤ cmpKey b) →
      (markDupEles cmpKey cmpSz prev xs).ok = true
  | _, [], _ => rfl
  | prev, x :: xs, h => by
    have hle : cmpKey prev ≤ cmpKey x := (List.pairwise_cons.mp h).1 x List.mem_cons_self
    have ih := markDupEles_ok_of_pairwise x xs (List.pairwise_cons.mp h).2
    rcases hr : markDupEles cmpKey cmpSz x xs with ⟨marks, count, sz, ok⟩
    rw [hr] at ih
    by_cases heq : cmpKey prev = cmpKey x
    · rw [markDupEles, if_pos heq, hr]
      exact ih
    · rw [markDupEles, if_neg heq, if_pos (lt_of_le_of_ne hle heq), hr]
      exact ih

theorem orderIndexSortedMarkDupEles_eq_of_ok {xs : List β}
    (h : (orderIndexSortedMarkDupEles cmpKey cmpSz xs).ok = true) :
    (orderIndexSortedMarkDupEles cmpKey cmpSz xs).marks.filterMap id = keptItems cmpKey none xs ∧
      (orderIndexSortedMarkDupEles cmpKey cmpSz xs).count =
        (droppedItems cmpKey none xs).length ∧
      (orderIndexSortedMarkDupEles cmpKey cmpSz xs).sz =
        ((droppedItems cmpKey none xs).map cmpSz).sum := by
  cases xs with
  | nil => exact ⟨rfl, rfl, rfl⟩
  | cons x xs =>
    rcases hr : markDupEles cmpKey cmpSz x xs with ⟨marks, count, sz, ok⟩
    rw [orderIndexSortedMarkDupEles, hr] at h
    obtain ⟨h1, h2, h3⟩ := markDupEles_eq_of_ok cmpKey cmpSz x xs (by rw [hr]; exact h)
    rw [hr] at h1 h2 h3
    have hne : (none : Option κ) ≠ some (cmpKey x) := Option.some_ne_none _ ∘ Eq.symm
    rw [orderIndexSortedMarkDupEles, hr, keptItems, droppedItems, if_neg hne, if_neg hne]
    exact ⟨by rw [List.filterMap_cons_some (f := id) rfl, h1], h2, h3⟩

theorem orderIndexSortedMarkDupEles_ok_of_pairwise {xs : List β}
    (h : xs.Pairwise fun a b => cmpKey a ≤ cmpKey b) :
    (orderIndexSortedMarkDupEles cmpKey cmpSz xs).ok = true := by
  cases xs with
  | nil => rfl
  | cons x xs =>
    have hok := markDupEles_ok_of_pairwise cmpKey cmpSz x xs h
    rcases hr : markDupEles cmpKey cmpSz x xs with ⟨marks, count, sz, ok⟩
    rw [hr] at hok
    rw [orderIndexSortedMarkDupEles, hr]
    exact hok

theorem orderIndexSortedMarkDupEles_spec {xs : List β}
    (h : xs.Pairwise fun a b => cmpKey a ≤ cmpKey b) :
    (orderIndexSortedMarkDupEles cmpKey cmpSz xs).marks.filterMap id = keptItems cmpKey none xs ∧
      (orderIndexSortedMarkDupEles cmpKey cmpSz xs).count =
        (droppedItems cmpKey none xs).length ∧
      (orderIndexSortedMarkDupEles cmpKey cmpSz xs).sz =
        ((droppedItems cmpKey none xs).map cmpSz).sum ∧
      (orderIndexSortedMarkDupEles cmpKey cmpSz xs).ok = true := by
  have hok := orderIndexSortedMarkDupEles_ok_of_pairwise cmpKey cmpSz h
  obtain ⟨h1, h2, h3⟩ := orderIndexSortedMarkDupEles_eq_of_ok cmpKey cmpSz hok
  exact ⟨h1, h2, h3, hok⟩

/-! ### The walk on a descending order -/

theorem markDupEles_ok_eq_false : ∀ (prev : β) (xs : List β),
    (prev :: xs).Pairwise (fun a b => cmpKey b ≤ cmpKey a) →
      (∃ y ∈ xs, cmpKey y ≠ cmpKey prev) → (markDupEles cmpKey cmpSz prev xs).ok = false
  | _, [], _, ⟨_, hy, _⟩ => absurd hy List.not_mem_nil
  | prev, x :: xs, h, ⟨y, hy, hne⟩ => by
    have hge : cmpKey x ≤ cmpKey prev := (List.pairwise_cons.mp h).1 x List.mem_cons_self
    by_cases heq : cmpKey prev = cmpKey x
    · have hy' : y ∈ xs := by
        rcases List.mem_cons.mp hy with rfl | hy
        · exact absurd heq.symm hne
        · exact hy
      have ih := markDupEles_ok_eq_false x xs (List.pairwise_cons.mp h).2 ⟨y, hy', heq ▸ hne⟩
      rcases hr : markDupEles cmpKey cmpSz x xs with ⟨marks, count, sz, ok⟩
      rw [hr] at ih
      rw [markDupEles, if_pos heq, hr]
      exact ih
    · have hnlt : ¬cmpKey prev < cmpKey x := not_lt.mpr hge
      rw [markDupEles, if_neg heq, if_neg hnlt]

theorem orderIndexSortedMarkDupEles_ok_eq_false {xs : List β}
    (h : xs.Pairwise fun a b => cmpKey b ≤ cmpKey a) {a b : β} (ha : a ∈ xs) (hb : b ∈ xs)
    (hab : cmpKey a ≠ cmpKey b) : (orderIndexSortedMarkDupEles cmpKey cmpSz xs).ok = false := by
  cases xs with
  | nil => exact absurd ha List.not_mem_nil
  | cons x xs =>
    have hy : ∃ y ∈ xs, cmpKey y ≠ cmpKey x := by
      rcases List.mem_cons.mp ha with rfl | ha
      · rcases List.mem_cons.mp hb with rfl | hb
        · exact absurd rfl hab
        · exact ⟨b, hb, Ne.symm hab⟩
      · by_cases hax : cmpKey a = cmpKey x
        · rcases List.mem_cons.mp hb with rfl | hb
          · exact absurd hax hab
          · exact ⟨b, hb, fun h => hab (hax.trans h.symm)⟩
        · exact ⟨a, ha, hax⟩
    have hf := markDupEles_ok_eq_false cmpKey cmpSz x xs h hy
    rcases hr : markDupEles cmpKey cmpSz x xs with ⟨marks, count, sz, ok⟩
    rw [hr] at hf
    rw [orderIndexSortedMarkDupEles, hr]
    exact hf

/-! ### Kept and dropped entries -/

theorem keptItems_append_droppedItems_perm : ∀ (prev : Option κ) (xs : List β),
    (keptItems cmpKey prev xs ++ droppedItems cmpKey prev xs).Perm xs
  | _, [] => List.Perm.refl _
  | prev, x :: xs => by
    have ih := keptItems_append_droppedItems_perm (some (cmpKey x)) xs
    rw [keptItems, droppedItems]
    split
    · exact List.perm_middle.trans (ih.cons x)
    · exact ih.cons x

theorem keptItems_pairwise : ∀ (k : κ) (xs : List β),
    (∀ y ∈ xs, k ≤ cmpKey y) → xs.Pairwise (fun a b => cmpKey a ≤ cmpKey b) →
      (keptItems cmpKey (some k) xs).Pairwise (fun a b => cmpKey a < cmpKey b) ∧
        ∀ y ∈ keptItems cmpKey (some k) xs, k < cmpKey y
  | _, [], _, _ => ⟨List.Pairwise.nil, fun _ h => absurd h List.not_mem_nil⟩
  | k, x :: xs, hk, hxs => by
    have hrest := List.pairwise_cons.mp hxs
    obtain ⟨ih1, ih2⟩ := keptItems_pairwise (cmpKey x) xs hrest.1 hrest.2
    have hkx : k ≤ cmpKey x := hk x List.mem_cons_self
    rw [keptItems]
    split
    · next heq =>
      have hkx' : k = cmpKey x := Option.some.inj heq
      exact ⟨ih1, fun y hy => hkx' ▸ ih2 y hy⟩
    · next hne =>
      have hlt : k < cmpKey x := lt_of_le_of_ne hkx fun h => hne (congrArg some h)
      exact ⟨List.Pairwise.cons ih2 ih1, fun y hy => by
        rcases List.mem_cons.mp hy with rfl | hy
        · exact hlt
        · exact lt_trans hlt (ih2 y hy)⟩

theorem keptItems_none_pairwise {xs : List β} (h : xs.Pairwise fun a b => cmpKey a ≤ cmpKey b) :
    (keptItems cmpKey none xs).Pairwise fun a b => cmpKey a < cmpKey b := by
  cases xs with
  | nil => exact List.Pairwise.nil
  | cons x xs =>
    have hrest := List.pairwise_cons.mp h
    obtain ⟨h1, h2⟩ := keptItems_pairwise cmpKey (cmpKey x) xs hrest.1 hrest.2
    rw [keptItems, if_neg (Option.some_ne_none _ ∘ Eq.symm)]
    exact List.Pairwise.cons h2 h1

theorem cons_keptItems_id (a : κ) : ∀ xs : List κ,
    a :: keptItems id (some a) xs = xs.destutter' (· ≠ ·) a
  | [] => rfl
  | x :: xs => by
    rw [keptItems, id_eq]
    by_cases hax : a = x
    · subst hax
      rw [if_pos rfl, List.destutter'_cons_neg xs (fun h => h rfl)]
      exact cons_keptItems_id a xs
    · rw [if_neg fun h => hax (Option.some.inj h), List.destutter'_cons_pos xs hax]
      exact congrArg (a :: ·) (cons_keptItems_id x xs)

theorem keptItems_id_none (xs : List κ) : keptItems id none xs = xs.destutter (· ≠ ·) := by
  cases xs with
  | nil => rfl
  | cons x xs =>
    rw [keptItems, if_neg (Option.some_ne_none _ ∘ Eq.symm), List.destutter_cons' xs]
    exact cons_keptItems_id x xs

end Aerospike.Cdt
