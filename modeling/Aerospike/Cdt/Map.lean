import Aerospike.Cdt.Base

/-! # Adding items to a map

`map_add_items` (`particle_map.c`) serves `ADD_ITEMS`, `PUT_ITEMS` and
`REPLACE_ITEMS`. The items are sorted by key and keys repeated among them are
dropped; then a map whose keys are kept in order (`K_ORDERED`) goes to
`map_add_items_ordered` and any other to `map_add_items_unordered`. Both check,
key by key, `map_add_control`: a key already in the map needs
`allow_overwrite`, a new one `allow_create`.

The ordered path looks up every item among the map's keys. The unordered path
loops over the map's pairs instead and looks each one up among the items: a
pair the items do not name fails the `allow_create` check, and an item the map
does not have is never checked. `REPLACE_ITEMS` on an unordered map therefore
fails as soon as the map has a key the items leave alone, where the ordered map
succeeds.

Pairs are modelled as they are, a key and a value; the packed bytes and the
indexes that the source rebuilds are left out.
-/

namespace Aerospike.Cdt

def resultFailElementNotFound : Int := 23

def resultFailElementExists : Int := 24

/-- `map_add_control`: whether a present key may be overwritten and an absent
one created. -/
structure MapAddControl where
  allowOverwrite : Bool
  allowCreate : Bool
  deriving DecidableEq, Repr

/-- The control of `AS_CDT_OP_MAP_ADD_ITEMS`. -/
def addItemsControl : MapAddControl := ⟨false, true⟩

/-- The control of `AS_CDT_OP_MAP_PUT_ITEMS`. -/
def putItemsControl : MapAddControl := ⟨true, true⟩

/-- The control of `AS_CDT_OP_MAP_REPLACE_ITEMS`. -/
def replaceItemsControl : MapAddControl := ⟨true, false⟩

/-- The check both loops make for one key, found or not: the code it fails
with, if any. -/
def mapAddCheck (control : MapAddControl) (found : Bool) : Option Int :=
  if found then
    if !control.allowOverwrite then some (-resultFailElementExists) else none
  else if !control.allowCreate then some (-resultFailElementNotFound) else none

variable {κ ν : Type} [LinearOrder κ]

def hasKey (pairs : List (κ × ν)) (k : κ) : Bool := pairs.any (·.1 == k)

/-- The pairs of a map and the items merged by key, an item replacing the pair
of its key: what the write loop of `map_add_items_ordered` produces. -/
def mapMerge : List (κ × ν) → List (κ × ν) → List (κ × ν)
  | [], vals => vals
  | p :: ps, [] => p :: ps
  | p :: ps, v :: vs =>
    if v.1 < p.1 then v :: mapMerge (p :: ps) vs
    else if v.1 = p.1 then v :: mapMerge ps vs
    else p :: mapMerge ps (v :: vs)
termination_by pairs vals => pairs.length + vals.length

/-- `map_add_items_unordered` at the level of pairs: each pair of the map is
looked up among the items (`vals`, sorted by key without repeats), and the
first failed check is returned; else the pairs the items do not replace, then
the items. -/
def mapAddItemsUnordered (control : MapAddControl) (pairs vals : List (κ × ν)) :
    Except Int (List (κ × ν)) :=
  match pairs.findSome? (fun p => mapAddCheck control (hasKey vals p.1)) with
  | some rc => .error rc
  | none => .ok (pairs.filter (fun p => !hasKey vals p.1) ++ vals)

/-- `map_add_items_ordered` at the level of pairs: an empty map takes the items
unchecked; otherwise each item is looked up among the map's keys, and the first
failed check is returned; else the items merged into the map. -/
def mapAddItemsOrdered (control : MapAddControl) (pairs vals : List (κ × ν)) :
    Except Int (List (κ × ν)) :=
  if pairs = [] then .ok vals
  else
    match vals.findSome? (fun v => mapAddCheck control (hasKey pairs v.1)) with
    | some rc => .error rc
    | none => .ok (mapMerge pairs vals)

/-- `map_add_items` once the items are sorted by key and their repeated keys
dropped: no items is a no-op, and the map's key order picks the path. -/
def mapAddItems (kOrdered : Bool) (control : MapAddControl) (pairs vals : List (κ × ν)) :
    Except Int (List (κ × ν)) :=
  if vals = [] then .ok pairs
  else if kOrdered then mapAddItemsOrdered control pairs vals
  else mapAddItemsUnordered control pairs vals

/-! ### What a map holds -/

def lookup (pairs : List (κ × ν)) (k : κ) : Option ν :=
  (pairs.find? (·.1 == k)).map Prod.snd

/-- What a map holds after items are put into it: an item's value for its key,
else the map's. -/
def putItemsSpec (pairs vals : List (κ × ν)) (k : κ) : Option ν :=
  (lookup vals k).or (lookup pairs k)

@[simp] theorem lookup_nil (k : κ) : lookup ([] : List (κ × ν)) k = none := rfl

theorem lookup_cons (p : κ × ν) (ps : List (κ × ν)) (k : κ) :
    lookup (p :: ps) k = if p.1 = k then some p.2 else lookup ps k := by
  by_cases h : p.1 = k <;> simp [lookup, h]

theorem lookup_append (xs ys : List (κ × ν)) (k : κ) :
    lookup (xs ++ ys) k = (lookup xs k).or (lookup ys k) := by
  rw [lookup, List.find?_append, Option.map_or]
  rfl

theorem lookup_eq_none {pairs : List (κ × ν)} {k : κ} (h : hasKey pairs k = false) :
    lookup pairs k = none := by
  rw [lookup, Option.map_eq_none_iff, List.find?_eq_none]
  exact List.any_eq_false.mp h

theorem lookup_or_of_hasKey {pairs : List (κ × ν)} {k : κ} (h : hasKey pairs k = true)
    (o : Option ν) : (lookup pairs k).or o = lookup pairs k := by
  obtain ⟨p, hp, hpk⟩ := List.any_eq_true.mp h
  cases hl : lookup pairs k with
  | some v => rfl
  | none =>
    rw [lookup, Option.map_eq_none_iff, List.find?_eq_none] at hl
    exact absurd hpk (hl p hp)

theorem lookup_filter_not_hasKey (pairs vals : List (κ × ν)) (k : κ) :
    lookup (pairs.filter fun p => !hasKey vals p.1) k =
      if hasKey vals k then none else lookup pairs k := by
  induction pairs with
  | nil => split_ifs <;> rfl
  | cons p ps ih =>
    rw [List.filter_cons, lookup_cons]
    cases hp : hasKey vals p.1
    · rw [Bool.not_false, if_pos rfl, lookup_cons, ih]
      by_cases hpk : p.1 = k
      · rw [if_pos hpk, if_pos hpk, ← hpk, hp]
        rfl
      · rw [if_neg hpk, if_neg hpk]
    · rw [Bool.not_true, if_neg Bool.false_ne_true, ih]
      by_cases hpk : p.1 = k
      · rw [if_pos hpk, ← hpk, hp, if_pos rfl, if_pos rfl]
      · rw [if_neg hpk]

theorem lookup_unordered_result (pairs vals : List (κ × ν)) (k : κ) :
    lookup (pairs.filter (fun p => !hasKey vals p.1) ++ vals) k = putItemsSpec pairs vals k := by
  rw [lookup_append, lookup_filter_not_hasKey, putItemsSpec]
  cases h : hasKey vals k
  · rw [if_neg Bool.false_ne_true, lookup_eq_none h, Option.or_none, Option.none_or]
  · rw [if_pos rfl, Option.none_or, lookup_or_of_hasKey h]

theorem lookup_mapMerge (pairs : List (κ × ν)) {vals : List (κ × ν)}
    (hvals : vals.Pairwise fun a b => a.1 < b.1) (k : κ) :
    lookup (mapMerge pairs vals) k = putItemsSpec pairs vals k := by
  induction pairs, vals using mapMerge.induct with
  | case1 vals => rw [mapMerge, putItemsSpec, lookup_nil, Option.or_none]
  | case2 p ps => rw [mapMerge, putItemsSpec, lookup_nil, Option.none_or]
  | case3 p ps v vs hlt ih =>
    have ih' := ih (List.pairwise_cons.mp hvals).2
    rw [putItemsSpec] at ih'
    rw [mapMerge, if_pos hlt, lookup_cons, ih', putItemsSpec, lookup_cons v vs]
    by_cases hvk : v.1 = k
    · rw [if_pos hvk, if_pos hvk]
      rfl
    · rw [if_neg hvk, if_neg hvk]
  | case4 p ps v vs hlt heq ih =>
    have ih' := ih (List.pairwise_cons.mp hvals).2
    rw [putItemsSpec] at ih'
    rw [mapMerge, if_neg hlt, if_pos heq, lookup_cons, ih', putItemsSpec, lookup_cons v vs,
      lookup_cons p ps, ← heq]
    by_cases hvk : v.1 = k
    · rw [if_pos hvk, if_pos hvk]
      rfl
    · rw [if_neg hvk, if_neg hvk, if_neg hvk]
  | case5 p ps v vs hlt heq ih =>
    have ih' := ih hvals
    rw [putItemsSpec] at ih'
    rw [mapMerge, if_neg hlt, if_neg heq, lookup_cons, ih', putItemsSpec, lookup_cons p ps]
    by_cases hpk : p.1 = k
    · have hnone : lookup (v :: vs) k = none := by
        refine lookup_eq_none (List.any_eq_false.mpr fun w hw hwk => ?_)
        have hvw : v.1 ≤ w.1 := by
          rcases List.mem_cons.mp hw with rfl | hw
          · exact le_rfl
          · exact ((List.pairwise_cons.mp hvals).1 w hw).le
        have hpv : p.1 < v.1 := lt_of_le_of_ne (not_lt.mp hlt) (Ne.symm heq)
        rw [beq_iff_eq] at hwk
        rw [hpk, ← hwk] at hpv
        exact absurd (lt_of_lt_of_le hpv hvw) (lt_irrefl _)
      rw [if_pos hpk, if_pos hpk, hnone, Option.none_or]
    · rw [if_neg hpk, if_neg hpk]

/-! ### The checks -/

theorem findSome?_eq_some_of_forall {α β : Type} {f : α → Option β} {c : β} :
    ∀ {l : List α}, (∀ x ∈ l, f x = none ∨ f x = some c) → (∃ x ∈ l, f x = some c) →
      l.findSome? f = some c
  | [], _, ⟨_, hx, _⟩ => absurd hx List.not_mem_nil
  | y :: ys, hall, ⟨x, hx, hfx⟩ => by
    rw [List.findSome?_cons]
    rcases hall y List.mem_cons_self with hy | hy
    · rw [hy]
      have hx' : x ∈ ys := by
        rcases List.mem_cons.mp hx with rfl | h
        · rw [hy] at hfx; cases hfx
        · exact h
      exact findSome?_eq_some_of_forall (fun z hz => hall z (List.mem_cons_of_mem y hz)) ⟨x, hx', hfx⟩
    · rw [hy]

theorem mapAddCheck_replace (found : Bool) :
    mapAddCheck replaceItemsControl found = if found then none else some (-resultFailElementNotFound) := by
  cases found <;> rfl

/-- `REPLACE_ITEMS` whose items all name keys of the map, on a map with a key
they do not name: the unordered map fails with `ELEMENT_NOT_FOUND`, the ordered
one merges the items. -/
theorem replace_items_unordered_fails_on_untouched_key {pairs vals : List (κ × ν)} (hv : vals ≠ [])
    (hall : ∀ v ∈ vals, hasKey pairs v.1 = true) {p : κ × ν} (hp : p ∈ pairs)
    (hmiss : hasKey vals p.1 = false) :
    mapAddItems false replaceItemsControl pairs vals = .error (-resultFailElementNotFound) ∧
    mapAddItems true replaceItemsControl pairs vals = .ok (mapMerge pairs vals) := by
  constructor
  · have hfind : pairs.findSome? (fun q => mapAddCheck replaceItemsControl (hasKey vals q.1)) =
        some (-resultFailElementNotFound) := by
      refine findSome?_eq_some_of_forall (fun q _ => ?_) ⟨p, hp, ?_⟩
      · rw [mapAddCheck_replace]
        split_ifs
        · exact Or.inl rfl
        · exact Or.inr rfl
      · rw [mapAddCheck_replace, hmiss, if_neg Bool.false_ne_true]
    rw [mapAddItems, if_neg hv, if_neg Bool.false_ne_true, mapAddItemsUnordered, hfind]
  · have hfind : vals.findSome? (fun v => mapAddCheck replaceItemsControl (hasKey pairs v.1)) = none :=
      List.findSome?_eq_none_iff.mpr fun v hv => by rw [mapAddCheck_replace, hall v hv, if_pos rfl]
    rw [mapAddItems, if_neg hv, if_pos rfl, mapAddItemsOrdered, if_neg (List.ne_nil_of_mem hp), hfind]

theorem findSome?_mapAddCheck {α : Type} {control : MapAddControl} (hcreate : control.allowCreate = true)
    (l : List α) (found : α → Bool) :
    l.findSome? (fun x => mapAddCheck control (found x)) =
      if (!control.allowOverwrite && l.any found) = true then some (-resultFailElementExists)
      else none := by
  have hcheck : ∀ x, mapAddCheck control (found x) =
      if (!control.allowOverwrite && found x) = true then some (-resultFailElementExists)
      else none := fun x => by
    cases found x <;> cases hw : control.allowOverwrite <;> simp [mapAddCheck, hcreate, hw]
  split_ifs with hfail
  · rw [Bool.and_eq_true, List.any_eq_true] at hfail
    obtain ⟨hw, x, hx, hfx⟩ := hfail
    refine findSome?_eq_some_of_forall (fun y _ => ?_) ⟨x, hx, ?_⟩
    · rw [hcheck]
      split_ifs
      · exact Or.inr rfl
      · exact Or.inl rfl
    · rw [hcheck, if_pos (by rw [hw, hfx]; rfl)]
  · refine List.findSome?_eq_none_iff.mpr fun x hx => ?_
    rw [hcheck, if_neg]
    intro hx'
    rw [Bool.and_eq_true] at hx' hfail
    exact hfail ⟨hx'.1, List.any_eq_true.mpr ⟨x, hx, hx'.2⟩⟩

theorem any_hasKey_comm (pairs vals : List (κ × ν)) :
    pairs.any (fun p => hasKey vals p.1) = vals.any (fun v => hasKey pairs v.1) := by
  rw [Bool.eq_iff_iff]
  simp only [hasKey, List.any_eq_true, beq_iff_eq]
  constructor
  · rintro ⟨p, hp, v, hv, hvp⟩
    exact ⟨v, hv, p, hp, hvp.symm⟩
  · rintro ⟨v, hv, p, hp, hpv⟩
    exact ⟨p, hp, v, hv, hpv.symm⟩

/-- `ADD_ITEMS` and `PUT_ITEMS`, which allow creation: the unordered and the
ordered map fail alike, or both succeed holding the values of the map with the
items put in. -/
theorem mapAddItems_order_unobservable_of_allowCreate {control : MapAddControl}
    (hcreate : control.allowCreate = true) (pairs : List (κ × ν)) {vals : List (κ × ν)}
    (hvals : vals.Pairwise fun a b => a.1 < b.1) :
    (∃ rc, mapAddItems false control pairs vals = .error rc ∧
      mapAddItems true control pairs vals = .error rc) ∨
    (∃ r r', mapAddItems false control pairs vals = .ok r ∧
      mapAddItems true control pairs vals = .ok r' ∧
      ∀ k, lookup r k = putItemsSpec pairs vals k ∧ lookup r' k = putItemsSpec pairs vals k) := by
  by_cases hv : vals = []
  · subst hv
    refine Or.inr ⟨pairs, pairs, rfl, rfl, fun k => ?_⟩
    rw [putItemsSpec, lookup_nil, Option.none_or]
    exact ⟨rfl, rfl⟩
  have hu := findSome?_mapAddCheck hcreate pairs (fun p => hasKey vals p.1)
  have ho := findSome?_mapAddCheck hcreate vals (fun v => hasKey pairs v.1)
  rw [← any_hasKey_comm] at ho
  by_cases hfail : (!control.allowOverwrite && pairs.any fun p => hasKey vals p.1) = true
  · have hne : pairs ≠ [] := by
      rintro rfl
      simp at hfail
    refine Or.inl ⟨-resultFailElementExists, ?_, ?_⟩
    · rw [mapAddItems, if_neg hv, if_neg Bool.false_ne_true, mapAddItemsUnordered, hu, if_pos hfail]
    · rw [mapAddItems, if_neg hv, if_pos rfl, mapAddItemsOrdered, if_neg hne, ho, if_pos hfail]
  · have hunord : mapAddItems false control pairs vals =
        .ok (pairs.filter (fun p => !hasKey vals p.1) ++ vals) := by
      rw [mapAddItems, if_neg hv, if_neg Bool.false_ne_true, mapAddItemsUnordered, hu, if_neg hfail]
    by_cases hne : pairs = []
    · subst hne
      refine Or.inr ⟨_, vals, hunord, by rw [mapAddItems, if_neg hv, if_pos rfl, mapAddItemsOrdered,
        if_pos rfl], fun k => ⟨lookup_unordered_result _ _ k, ?_⟩⟩
      rw [putItemsSpec, lookup_nil, Option.or_none]
    · refine Or.inr ⟨_, mapMerge pairs vals, hunord, ?_,
        fun k => ⟨lookup_unordered_result _ _ k, lookup_mapMerge pairs hvals k⟩⟩
      rw [mapAddItems, if_neg hv, if_pos rfl, mapAddItemsOrdered, if_neg hne, ho, if_neg hfail]

theorem mapAddItems_order_unobservable_put_items :
    putItemsControl.allowCreate = true ∧ [((2 : ℕ), (5 : ℕ)), (3, 7)].Pairwise (fun a b => a.1 < b.1) ∧
      ((∃ rc, mapAddItems false putItemsControl [(1, 10), (2, 20)] [(2, 5), (3, 7)] = .error rc ∧
          mapAddItems true putItemsControl [(1, 10), (2, 20)] [(2, 5), (3, 7)] = .error rc) ∨
        (∃ r r', mapAddItems false putItemsControl [(1, 10), (2, 20)] [(2, 5), (3, 7)] = .ok r ∧
          mapAddItems true putItemsControl [(1, 10), (2, 20)] [(2, 5), (3, 7)] = .ok r' ∧
          ∀ k, lookup r k = putItemsSpec [(1, 10), (2, 20)] [(2, 5), (3, 7)] k ∧
            lookup r' k = putItemsSpec [(1, 10), (2, 20)] [(2, 5), (3, 7)] k)) :=
  ⟨rfl, by decide, mapAddItems_order_unobservable_of_allowCreate rfl _ (by decide)⟩

theorem replace_items_a_of_a_b :
    mapAddItems false replaceItemsControl [(0, 1), (1, 2)] [((0 : ℕ), (5 : ℕ))] =
      .error (-resultFailElementNotFound) ∧
    mapAddItems true replaceItemsControl [(0, 1), (1, 2)] [((0 : ℕ), (5 : ℕ))] =
      .ok (mapMerge [(0, 1), (1, 2)] [(0, 5)]) :=
  replace_items_unordered_fails_on_untouched_key (by decide) (by decide) (p := (1, 2))
    (by decide) (by decide)

end Aerospike.Cdt
