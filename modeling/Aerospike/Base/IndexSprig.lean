import Aerospike.Lib.RedBlack
import Aerospike.Base.Index

/-! # Inserting into and deleting from an index sprig

Each sprig of an index tree (`index.c`) is a red-black tree of `as_index`
records held in an arena, larger digests to the left.
`as_index_sprig_get_insert_vlock` and `as_index_sprig_delete` search down from
the root saving each element's parent in a stack of `as_index_ele`, change the
tree at the bottom, and rebalance on the way back up with
`as_index_sprig_insert_rebalance` and `as_index_sprig_delete_rebalance`, whose
rotations mend the parent links of the stack as they go.

The model resolves the arena: a sprig's tree is a `RedBlack.RBNode` of records,
the sentinel handle `0` is the empty tree, and the stack of saved parents is a
`RedBlack.Path` from the current element up to the stack `root_parent`, whose
colour is black. Locks, the reduce-lock retry, record locks and reference
counts do not change the tree and are left out; `cf_arenax_alloc` failing is
the `alloc` argument. A branch where the code would read the sentinel's
children or the stack beyond `root_parent` is `none`; on a valid sprig none is
reached.
-/

namespace Aerospike.Index

open RedBlack

variable {cfDigestCompare : CfDigest → CfDigest → Ordering}

/-- `as_sprig` with its arena resolved: the tree under `root_h`, and `n_elements`. -/
structure RbSprig where
  root : RBNode AsIndex
  nElements : UInt64

def RbSprig.empty : RbSprig := ⟨.nil, 0⟩

/-- `as_index_sprig_search_lockless`: the record of digest `keyd`, going left
at records of smaller digests. -/
def asIndexSprigSearchLockless (cfDigestCompare : CfDigest → CfDigest → Ordering) :
    RBNode AsIndex → CfDigest → Option AsIndex
  | .nil, _ => none
  | .node _ l r rt, keyd =>
    match cfDigestCompare keyd r.keyd with
    | .eq => some r
    | .gt => asIndexSprigSearchLockless cfDigestCompare l keyd
    | .lt => asIndexSprigSearchLockless cfDigestCompare rt keyd

/-- The search loop of `as_index_sprig_get_insert_vlock` and
`as_index_sprig_delete`, saving parents: the element of digest `keyd` or the
sentinel below which it would go, and the path up from it. -/
def searchSaveParents (cfDigestCompare : CfDigest → CfDigest → Ordering) (keyd : CfDigest) :
    RBNode AsIndex → RBNode.Path AsIndex → RBNode AsIndex × RBNode.Path AsIndex
  | .nil, p => (.nil, p)
  | .node c l r rt, p =>
    match cfDigestCompare keyd r.keyd with
    | .eq => (.node c l r rt, p)
    | .gt => searchSaveParents cfDigestCompare keyd l (.left c p r rt)
    | .lt => searchSaveParents cfDigestCompare keyd rt (.right c l r p)

/-- `as_index_sprig_insert_rebalance` from the new element `r` below the saved
parents `p`: while the parent is red, recolour with a red uncle and move up two
layers, or rotate the parent and grandparent; the root ends black. -/
def asIndexSprigInsertRebalance (r : RBNode AsIndex) (p : RBNode.Path AsIndex) : Option (RBNode AsIndex) :=
  if p.color = .red then
    match p with
    | .left _ gp vP y =>
      match gp with
      | .left _ ggp vG u =>
        if u.color = .red then
          asIndexSprigInsertRebalance (.node .red (.node .black r vP y) vG (u.setColor .black)) ggp
        else
          asIndexSprigInsertRebalance r (.left .black ggp vP (.node .red y vG u))
      | .right _ u vG ggp =>
        if u.color = .red then
          asIndexSprigInsertRebalance (.node .red (u.setColor .black) vG (.node .black r vP y)) ggp
        else
          match r with
          | .node _ a vR b =>
            asIndexSprigInsertRebalance (.node .red b vP y) (.right .black (.node .red u vG a) vR ggp)
          | .nil => none
      | .root => none
    | .right _ y vP gp =>
      match gp with
      | .left _ ggp vG u =>
        if u.color = .red then
          asIndexSprigInsertRebalance (.node .red (.node .black y vP r) vG (u.setColor .black)) ggp
        else
          match r with
          | .node _ a vR b =>
            asIndexSprigInsertRebalance (.node .red y vP a) (.left .black ggp vR (.node .red b vG u))
          | .nil => none
      | .right _ u vG ggp =>
        if u.color = .red then
          asIndexSprigInsertRebalance (.node .red (u.setColor .black) vG (.node .black y vP r)) ggp
        else
          asIndexSprigInsertRebalance r (.right .black (.node .red u vG y) vP ggp)
      | .root => none
    | .root => none
  else some ((p.fill r).setColor .black)
termination_by p.depth
decreasing_by all_goals simp only [RBNode.Path.depth]; omega

/-- `as_index_sprig_get_insert_vlock`: `0` with the sprig unchanged when the
digest's record is there and valid, `-2` when it is there but half created or
deleted, `-1` when the arena has no element for a new one, and `1` once a new
red element with cleared record info is linked in at the search's sentinel,
the sprig rebalanced and `n_elements` counted up. -/
def asIndexSprigGetInsertVlock (cfDigestCompare : CfDigest → CfDigest → Ordering) (sprig : RbSprig)
    (keyd : CfDigest) (alloc : Bool) : Option (Int × RbSprig) :=
  match searchSaveParents cfDigestCompare keyd sprig.root .root with
  | (.node _ _ t _, _) => some (if t.valid then 0 else -2, sprig)
  | (.nil, p) =>
    if alloc then
      match asIndexSprigInsertRebalance (.node .red .nil ⟨keyd, false⟩ .nil) p with
      | some root => some (1, ⟨root, sprig.nElements + 1⟩)
      | none => none
    else some (-1, sprig)

/-- The red-sibling case of `as_index_sprig_delete_rebalance` for a left child:
a red sibling turns black, the parent red, and the sibling rotates above the
parent. The parent's colour, the path above the parent and the new sibling. -/
def rotateRedSiblingLeft (cP : RBColor) (pp : RBNode.Path AsIndex) (w : RBNode AsIndex) :
    RBColor × RBNode.Path AsIndex × RBNode AsIndex :=
  match w with
  | .node .red wl vW wr => (.red, .left .black pp vW wr, wl)
  | _ => (cP, pp, w)

def rotateRedSiblingRight (cP : RBColor) (pp : RBNode.Path AsIndex) (w : RBNode AsIndex) :
    RBColor × RBNode.Path AsIndex × RBNode AsIndex :=
  match w with
  | .node .red wl vW wr => (.red, .right .black wl vW pp, wr)
  | _ => (cP, pp, w)

theorem rotateRedSiblingLeft_depth {cP c : RBColor} {pp pp' : RBNode.Path AsIndex}
    {w s : RBNode AsIndex} (h : rotateRedSiblingLeft cP pp w = (c, pp', s)) (y : RBNode AsIndex)
    (hy : y.color = c) : pp'.depth + (if y.color = .black then 1 else 0) ≤ pp.depth + 1 := by
  unfold rotateRedSiblingLeft at h
  split at h
  · cases h
    simp [hy]
  · cases h
    split_ifs <;> omega

theorem rotateRedSiblingRight_depth {cP c : RBColor} {pp pp' : RBNode.Path AsIndex}
    {w s : RBNode AsIndex} (h : rotateRedSiblingRight cP pp w = (c, pp', s)) (y : RBNode AsIndex)
    (hy : y.color = c) : pp'.depth + (if y.color = .black then 1 else 0) ≤ pp.depth + 1 := by
  unfold rotateRedSiblingRight at h
  split at h
  · cases h
    simp [hy]
  · cases h
    split_ifs <;> omega

/-- The inner-nephew case of `as_index_sprig_delete_rebalance` for a left
child, on the sibling's children and value: with a black far nephew, the red
near one turns black, the sibling red, and the near nephew rotates above the
sibling. The new sibling's value and children; `none` where the near nephew
would be the sentinel. -/
def rotateNephewLeft (sl : RBNode AsIndex) (vS : AsIndex) (sr : RBNode AsIndex) :
    Option (AsIndex × RBNode AsIndex × RBNode AsIndex) :=
  if sr.color = .black then
    match sl with
    | .node _ a vSL b => some (vSL, a, .node .red b vS sr)
    | .nil => none
  else some (vS, sl, sr)

def rotateNephewRight (sl : RBNode AsIndex) (vS : AsIndex) (sr : RBNode AsIndex) :
    Option (AsIndex × RBNode AsIndex × RBNode AsIndex) :=
  if sl.color = .black then
    match sr with
    | .node _ a vSR b => some (vSR, .node .red sl vS a, b)
    | .nil => none
  else some (vS, sl, sr)

/-- `as_index_sprig_delete_rebalance` at `x`, the child that took a black
element's place, below the saved parents `p`: while `x` is black and not the
root, make a red sibling black, then recolour a sibling with black children
and move up, or rotate the sibling's red child up and stop; `x` ends black. -/
def asIndexSprigDeleteRebalance (x : RBNode AsIndex) (p : RBNode.Path AsIndex) : Option (RBNode AsIndex) :=
  if hx : x.color = .black then
    match p with
    | .root => some (x.setColor .black)
    | .left cP pp vP w =>
      match hs : rotateRedSiblingLeft cP pp w with
      | (cP, pp', .node _ sl vS sr) =>
        if sl.color = .black ∧ sr.color = .black then
          asIndexSprigDeleteRebalance (.node cP x vP (.node .red sl vS sr)) pp'
        else
          match rotateNephewLeft sl vS sr with
          | some (vS, sl, sr) =>
            some ((pp'.fill (.node cP (.node .black x vP sl) vS (sr.setColor .black))).setColor .black)
          | none => none
      | (_, _, .nil) => none
    | .right cP w vP pp =>
      match hs : rotateRedSiblingRight cP pp w with
      | (cP, pp', .node _ sl vS sr) =>
        if sl.color = .black ∧ sr.color = .black then
          asIndexSprigDeleteRebalance (.node cP (.node .red sl vS sr) vP x) pp'
        else
          match rotateNephewRight sl vS sr with
          | some (vS, sl, sr) =>
            some ((pp'.fill (.node cP (sl.setColor .black) vS (.node .black sr vP x))).setColor .black)
          | none => none
      | (_, _, .nil) => none
  else some (p.fill (x.setColor .black))
termination_by p.depth + (if x.color = .black then 1 else 0)
decreasing_by
  · have := rotateRedSiblingLeft_depth hs (.node _ x vP (.node .red sl vS sr)) rfl
    simp only [RBNode.Path.depth, hx, ↓reduceIte]
    omega
  · have := rotateRedSiblingRight_depth hs (.node _ (.node .red sl vS sr) vP x) rfl
    simp only [RBNode.Path.depth, hx, ↓reduceIte]
    omega

/-- The successor search of `as_index_sprig_delete`: down the left children
to an element with no left child, saving parents. -/
def successorSaveParents :
    RBNode AsIndex → RBNode.Path AsIndex → RBNode AsIndex × RBNode.Path AsIndex
  | .node c (.node cl ll vl lr) v r, p => successorSaveParents (.node cl ll vl lr) (.left c p v r)
  | t, p => (t, p)

/-- The cut of `as_index_sprig_delete`: the element `s`, which has at most one
child, gives its place to that child, and a black `s` is rebalanced for at it. -/
def cutAndRebalance (s : RBNode AsIndex) (sp : RBNode.Path AsIndex) : Option (RBNode AsIndex) :=
  match s with
  | .node cS sl _ sr =>
    let x := match sl with
      | .nil => sr
      | _ => sl
    if cS = .black then asIndexSprigDeleteRebalance x sp else some (sp.fill x)
  | .nil => none

/-- The last step of `as_index_sprig_delete` for an element `r` with two
children: its successor `s` takes its place, with `r`'s colour and children. -/
def successorInPlace (cfDigestCompare : CfDigest → CfDigest → Ordering) (r s : AsIndex) :
    RBNode AsIndex → RBNode AsIndex :=
  RBNode.map fun a => if cfDigestCompare a.keyd r.keyd = .eq then s else a

/-- `as_index_sprig_delete`: `-1` with the sprig unchanged when no record has
digest `keyd`; otherwise `0` once the record's element is cut out, through its
successor when it has two children, the sprig rebalanced and `n_elements`
counted down. -/
def asIndexSprigDelete (cfDigestCompare : CfDigest → CfDigest → Ordering) (sprig : RbSprig)
    (keyd : CfDigest) : Option (Int × RbSprig) :=
  match searchSaveParents cfDigestCompare keyd sprig.root .root with
  | (.nil, _) => some (-1, sprig)
  | (.node cR rl r rr, rp) =>
    match rl, rr with
    | .node .., .node .. =>
      let (s, sp) := successorSaveParents rr (.right cR rl r rp)
      match s, cutAndRebalance s sp with
      | .node _ _ vS _, some root =>
        some (0, ⟨successorInPlace cfDigestCompare r vS root, sprig.nElements - 1⟩)
      | _, _ => none
    | _, _ =>
      match cutAndRebalance (.node cR rl r rr) rp with
      | some root => some (0, ⟨root, sprig.nElements - 1⟩)
      | none => none

/-! ### Digest order -/

theorem CfDigestOrder.ne_of_gt (hord : CfDigestOrder cfDigestCompare) {a b : CfDigest}
    (h : cfDigestCompare a b = .gt) : a ≠ b := by
  rintro rfl
  rw [(hord.eq_iff a a).mpr rfl] at h
  cases h

theorem CfDigestOrder.gt_of_lt (hord : CfDigestOrder cfDigestCompare) {a b : CfDigest}
    (h : cfDigestCompare a b = .lt) : cfDigestCompare b a = .gt := by
  rw [hord.swap, h]
  rfl

theorem find?_eq_none_of_above (hord : CfDigestOrder cfDigestCompare) {l : List AsIndex} {keyd : CfDigest}
    (h : ∀ x ∈ l, cfDigestCompare x.keyd keyd = .gt) : l.find? (·.keyd = keyd) = none := by
  rw [List.find?_eq_none]
  intro x hx
  simpa using hord.ne_of_gt (h x hx)

theorem find?_eq_none_of_below (hord : CfDigestOrder cfDigestCompare) {l : List AsIndex} {keyd : CfDigest}
    (h : ∀ x ∈ l, cfDigestCompare keyd x.keyd = .gt) : l.find? (·.keyd = keyd) = none := by
  rw [List.find?_eq_none]
  intro x hx
  simpa [eq_comm] using hord.ne_of_gt (h x hx)

theorem digestGt_split {l₁ l₂ : List AsIndex} {r : AsIndex} (hs : (l₁ ++ r :: l₂).Pairwise
    (DigestGt cfDigestCompare)) :
    (∀ x ∈ l₁, DigestGt cfDigestCompare x r) ∧ ∀ y ∈ l₂, DigestGt cfDigestCompare r y := by
  obtain ⟨-, hr, hlr⟩ := List.pairwise_append.mp hs
  exact ⟨fun x hx => hlr x hx r (by simp), (List.pairwise_cons.mp hr).1⟩

theorem digestGt_around {A B l rt : List AsIndex} {r : AsIndex}
    (hs : (A ++ (l ++ r :: rt) ++ B).Pairwise (DigestGt cfDigestCompare)) :
    (∀ x ∈ l, DigestGt cfDigestCompare x r) ∧ ∀ y ∈ rt, DigestGt cfDigestCompare r y := by
  have hmid := (List.pairwise_append.mp (List.pairwise_append.mp hs).1).2.1
  obtain ⟨-, hrt, hlr⟩ := List.pairwise_append.mp hmid
  exact ⟨fun x hx => hlr x hx r (by simp), (List.pairwise_cons.mp hrt).1⟩

/-! ### Searching -/

theorem asIndexSprigSearchLockless_eq_find? (hord : CfDigestOrder cfDigestCompare) (keyd : CfDigest) :
    ∀ {t : RBNode AsIndex}, t.toList.Pairwise (DigestGt cfDigestCompare) →
      asIndexSprigSearchLockless cfDigestCompare t keyd = t.toList.find? (·.keyd = keyd)
  | .nil, _ => rfl
  | .node c l r rt, hs => by
    obtain ⟨hl, hr⟩ := digestGt_around (A := []) (B := []) (by simpa using hs)
    have hsl : l.toList.Pairwise (DigestGt cfDigestCompare) := (List.pairwise_append.mp hs).1
    have hsr : rt.toList.Pairwise (DigestGt cfDigestCompare) :=
      (List.pairwise_cons.mp (List.pairwise_append.mp hs).2.1).2
    rw [asIndexSprigSearchLockless, RBNode.toList_node, List.find?_append, List.find?_cons]
    cases hcmp : cfDigestCompare keyd r.keyd with
    | eq =>
      obtain rfl := (hord.eq_iff _ _).mp hcmp
      rw [find?_eq_none_of_above hord hl]
      simp
    | gt =>
      have hnr : ¬r.keyd = keyd := fun h => hord.ne_of_gt hcmp h.symm
      have hrt : rt.toList.find? (·.keyd = keyd) = none := find?_eq_none_of_below hord
        fun y hy => hord.gt_trans _ _ _ hcmp (hr y hy)
      rw [asIndexSprigSearchLockless_eq_find? hord keyd hsl]
      simp [hnr, hrt]
    | lt =>
      have hrk := hord.gt_of_lt hcmp
      have hnr : ¬r.keyd = keyd := hord.ne_of_gt hrk
      have hll : l.toList.find? (·.keyd = keyd) = none := find?_eq_none_of_above hord
        fun x hx => hord.gt_trans _ _ _ (hl x hx) hrk
      rw [asIndexSprigSearchLockless_eq_find? hord keyd hsr]
      simp [hnr, hll]

/-- Every record before the hole of `p` has a digest above `keyd`, and every
record after it one below. -/
def KeyBounds (cfDigestCompare : CfDigest → CfDigest → Ordering) (keyd : CfDigest)
    (p : RBNode.Path AsIndex) : Prop :=
  (∀ x ∈ p.pre, cfDigestCompare x.keyd keyd = .gt) ∧ ∀ y ∈ p.post, cfDigestCompare keyd y.keyd = .gt

/-- The search saving parents keeps the tree, keeps `keyd` between what comes
before the hole and what comes after, and stops at the sentinel or at the
element of digest `keyd`. -/
theorem searchSaveParents_spec (hord : CfDigestOrder cfDigestCompare) (keyd : CfDigest) :
    ∀ {t t' : RBNode AsIndex} {p p' : RBNode.Path AsIndex},
      (p.fill t).toList.Pairwise (DigestGt cfDigestCompare) → KeyBounds cfDigestCompare keyd p →
      searchSaveParents cfDigestCompare keyd t p = (t', p') →
      p'.fill t' = p.fill t ∧ KeyBounds cfDigestCompare keyd p' ∧
        (t' = .nil ∨ ∃ c l r rt, t' = .node c l r rt ∧ r.keyd = keyd)
  | .nil, _, _, _, _, hb, h => by
    cases h
    exact ⟨rfl, hb, .inl rfl⟩
  | .node c l r rt, _, p, _, hs, hb, h => by
    rw [RBNode.Path.toList_fill, RBNode.toList_node] at hs
    obtain ⟨hl, hr⟩ := digestGt_around hs
    rw [searchSaveParents] at h
    split at h
    · next hcmp =>
      cases h
      exact ⟨rfl, hb, .inr ⟨_, _, _, _, rfl, ((hord.eq_iff _ _).mp hcmp).symm⟩⟩
    · next hcmp =>
      have hb' : KeyBounds cfDigestCompare keyd (.left c p r rt) := by
        refine ⟨hb.1, fun y hy => ?_⟩
        simp only [RBNode.Path.post_left, List.cons_append, List.mem_cons, List.mem_append] at hy
        rcases hy with rfl | hy | hy
        · exact hcmp
        · exact hord.gt_trans _ _ _ hcmp (hr y hy)
        · exact hb.2 y hy
      obtain ⟨hfill, hkb, hend⟩ := searchSaveParents_spec hord keyd (t := l) (p := .left c p r rt)
        (by simpa [RBNode.Path.toList_fill] using hs) hb' h
      exact ⟨hfill, hkb, hend⟩
    · next hcmp =>
      have hb' : KeyBounds cfDigestCompare keyd (.right c l r p) := by
        refine ⟨fun x hx => ?_, hb.2⟩
        simp only [RBNode.Path.pre_right, List.mem_append, List.mem_singleton] at hx
        rcases hx with (hx | hx) | rfl
        · exact hb.1 x hx
        · exact hord.gt_trans _ _ _ (hl x hx) (hord.gt_of_lt hcmp)
        · exact hord.gt_of_lt hcmp
      obtain ⟨hfill, hkb, hend⟩ := searchSaveParents_spec hord keyd (t := rt) (p := .right c l r p)
        (by simpa [RBNode.Path.toList_fill] using hs) hb' h
      exact ⟨hfill, hkb, hend⟩
/-! ### Insert rebalancing -/

section InsertRebalance

open RBNode RBNode.Path

variable {n₀ : ℕ}

theorem asIndexSprigInsertRebalance_spec (r : RBNode AsIndex) (p : RBNode.Path AsIndex) :
    ∀ {n : ℕ}, r.Balanced .red n → p.InsBalanced n₀ n →
      ∃ t, asIndexSprigInsertRebalance r p = some t ∧ t.toList = (p.fill r).toList ∧
        ∃ m, t.Balanced .black m := by
  fun_induction asIndexSprigInsertRebalance r p with
  | case1 r cP vP y cG ggp vG u hu hcol ih =>
    intro n hr hp
    obtain rfl : cP = .red := hcol
    obtain ⟨hy, hgp⟩ := hp.left_red
    obtain ⟨rfl, ⟨cu, hu'⟩, hggp⟩ := hgp.left_of_red
    obtain ⟨ul, vu, ur, rfl, hul, hur⟩ := hu'.exists_red hu
    obtain ⟨t, ht, hlist, hbal⟩ := ih (.red (.black hr hy) (.black hul hur)) hggp.insBalanced
    exact ⟨t, ht, hlist.trans (toList_fill_congr ggp (by simp)), hbal⟩
  | case2 r cP vP y cG ggp vG u hu hcol ih =>
    intro n hr hp
    obtain rfl : cP = .red := hcol
    obtain ⟨hy, hgp⟩ := hp.left_red
    obtain ⟨rfl, ⟨cu, hu'⟩, hggp⟩ := hgp.left_of_red
    obtain ⟨t, ht, hlist, hbal⟩ := ih hr (.ok (.blackL (.red hy (hu'.black_of_ne_red hu)) hggp))
    exact ⟨t, ht, hlist.trans (toList_fill_congr ggp (by simp)), hbal⟩
  | case3 r cP vP y cG u vG ggp hu hcol ih =>
    intro n hr hp
    obtain rfl : cP = .red := hcol
    obtain ⟨hy, hgp⟩ := hp.left_red
    obtain ⟨rfl, ⟨cu, hu'⟩, hggp⟩ := hgp.right_of_red
    obtain ⟨ul, vu, ur, rfl, hul, hur⟩ := hu'.exists_red hu
    obtain ⟨t, ht, hlist, hbal⟩ := ih (.red (.black hul hur) (.black hr hy)) hggp.insBalanced
    exact ⟨t, ht, hlist.trans (toList_fill_congr ggp (by simp)), hbal⟩
  | case4 cP vP y cG u vG ggp hu cR a vR b hcol ih =>
    intro n hr hp
    obtain rfl : cP = .red := hcol
    obtain ⟨hy, hgp⟩ := hp.left_red
    obtain ⟨rfl, ⟨cu, hu'⟩, hggp⟩ := hgp.right_of_red
    obtain ⟨a', vR', b', hr', ha, hb⟩ := hr.exists_red (hr.color_eq)
    cases hr'
    obtain ⟨t, ht, hlist, hbal⟩ :=
      ih (.red hb hy) (.ok (.blackR (.red (hu'.black_of_ne_red hu) ha) hggp))
    exact ⟨t, ht, hlist.trans (toList_fill_congr ggp (by simp)), hbal⟩
  | case5 => intro n hr; cases hr
  | case6 r cP vP y hcol =>
    intro n _ hp
    obtain rfl : cP = .red := hcol
    exact hp.left_red.2.not_root_red.elim
  | case7 r cP y vP cG ggp vG u hu hcol ih =>
    intro n hr hp
    obtain rfl : cP = .red := hcol
    obtain ⟨hy, hgp⟩ := hp.right_red
    obtain ⟨rfl, ⟨cu, hu'⟩, hggp⟩ := hgp.left_of_red
    obtain ⟨ul, vu, ur, rfl, hul, hur⟩ := hu'.exists_red hu
    obtain ⟨t, ht, hlist, hbal⟩ := ih (.red (.black hy hr) (.black hul hur)) hggp.insBalanced
    exact ⟨t, ht, hlist.trans (toList_fill_congr ggp (by simp)), hbal⟩
  | case8 cP y vP cG ggp vG u hu cR a vR b hcol ih =>
    intro n hr hp
    obtain rfl : cP = .red := hcol
    obtain ⟨hy, hgp⟩ := hp.right_red
    obtain ⟨rfl, ⟨cu, hu'⟩, hggp⟩ := hgp.left_of_red
    obtain ⟨a', vR', b', hr', ha, hb⟩ := hr.exists_red (hr.color_eq)
    cases hr'
    obtain ⟨t, ht, hlist, hbal⟩ :=
      ih (.red hy ha) (.ok (.blackL (.red hb (hu'.black_of_ne_red hu)) hggp))
    exact ⟨t, ht, hlist.trans (toList_fill_congr ggp (by simp)), hbal⟩
  | case9 => intro n hr; cases hr
  | case10 r cP y vP cG u vG ggp hu hcol ih =>
    intro n hr hp
    obtain rfl : cP = .red := hcol
    obtain ⟨hy, hgp⟩ := hp.right_red
    obtain ⟨rfl, ⟨cu, hu'⟩, hggp⟩ := hgp.right_of_red
    obtain ⟨ul, vu, ur, rfl, hul, hur⟩ := hu'.exists_red hu
    obtain ⟨t, ht, hlist, hbal⟩ := ih (.red (.black hul hur) (.black hy hr)) hggp.insBalanced
    exact ⟨t, ht, hlist.trans (toList_fill_congr ggp (by simp)), hbal⟩
  | case11 r cP y vP cG u vG ggp hu hcol ih =>
    intro n hr hp
    obtain rfl : cP = .red := hcol
    obtain ⟨hy, hgp⟩ := hp.right_red
    obtain ⟨rfl, ⟨cu, hu'⟩, hggp⟩ := hgp.right_of_red
    obtain ⟨t, ht, hlist, hbal⟩ := ih hr (.ok (.blackR (.red (hu'.black_of_ne_red hu) hy) hggp))
    exact ⟨t, ht, hlist.trans (toList_fill_congr ggp (by simp)), hbal⟩
  | case12 r cP y vP hcol =>
    intro n _ hp
    obtain rfl : cP = .red := hcol
    exact hp.right_red.2.not_root_red.elim
  | case13 r hcol => exact absurd hcol (by simp)
  | case14 r p hcol =>
    intro n hr hp
    refine ⟨_, rfl, toList_setColor _ _, ?_⟩
    cases hp with
    | root => exact hr.setBlack
    | ok hp => exact (hp.fill hr).setBlack
    | redL => exact absurd rfl hcol
    | redR => exact absurd rfl hcol

end InsertRebalance
/-! ### Delete rebalancing -/

section DeleteRebalance

open RBNode RBNode.Path

variable {n₀ : ℕ}

theorem rotateRedSiblingLeft_spec {cP cP' c : RBColor} {pp pp' : RBNode.Path AsIndex}
    {vP : AsIndex} {w s : RBNode AsIndex} {n : ℕ}
    (hp : (left cP pp vP w).Balanced .black n₀ c (n + 1))
    (h : rotateRedSiblingLeft cP pp w = (cP', pp', s)) :
    (∃ c', (left cP' pp' vP s).Balanced .black n₀ c' (n + 1)) ∧ s.Balanced .black (n + 1) ∧
      ∀ t, ((left cP' pp' vP s).fill t).toList = ((left cP pp vP w).fill t).toList := by
  unfold rotateRedSiblingLeft at h
  split at h
  · cases h
    rcases hp.left_cases with ⟨-, hw, -⟩ | ⟨rfl, ⟨cw, hw⟩, hpp⟩
    · cases hw
    · cases hw with
      | red hwl hwr =>
        exact ⟨⟨_, .redL hwl (.blackL hwr hpp)⟩, hwl, fun t => toList_fill_congr pp (by simp)⟩
  · next hnot =>
    cases h
    refine ⟨⟨_, hp⟩, ?_, fun _ => rfl⟩
    rcases hp.left_cases with ⟨-, hw, -⟩ | ⟨-, ⟨cw, hw⟩, -⟩
    · exact hw
    · refine hw.black_of_ne_red fun hred => ?_
      obtain ⟨wl, vW, wr, rfl, -, -⟩ := hw.exists_red hred
      exact hnot wl vW wr rfl

theorem rotateRedSiblingRight_spec {cP cP' c : RBColor} {pp pp' : RBNode.Path AsIndex}
    {vP : AsIndex} {w s : RBNode AsIndex} {n : ℕ}
    (hp : (right cP w vP pp).Balanced .black n₀ c (n + 1))
    (h : rotateRedSiblingRight cP pp w = (cP', pp', s)) :
    (∃ c', (right cP' s vP pp').Balanced .black n₀ c' (n + 1)) ∧ s.Balanced .black (n + 1) ∧
      ∀ t, ((right cP' s vP pp').fill t).toList = ((right cP w vP pp).fill t).toList := by
  unfold rotateRedSiblingRight at h
  split at h
  · cases h
    rcases hp.right_cases with ⟨-, hw, -⟩ | ⟨rfl, ⟨cw, hw⟩, hpp⟩
    · cases hw
    · cases hw with
      | red hwl hwr =>
        exact ⟨⟨_, .redR hwr (.blackR hwl hpp)⟩, hwr, fun t => toList_fill_congr pp (by simp)⟩
  · next hnot =>
    cases h
    refine ⟨⟨_, hp⟩, ?_, fun _ => rfl⟩
    rcases hp.right_cases with ⟨-, hw, -⟩ | ⟨-, ⟨cw, hw⟩, -⟩
    · exact hw
    · refine hw.black_of_ne_red fun hred => ?_
      obtain ⟨wl, vW, wr, rfl, -, -⟩ := hw.exists_red hred
      exact hnot wl vW wr rfl

theorem rotateNephewLeft_spec {sl sr : RBNode AsIndex} (vS : AsIndex) {csl csr : RBColor} {n : ℕ}
    (hsl : sl.Balanced csl n) (hsr : sr.Balanced csr n)
    (hnot : ¬(sl.color = .black ∧ sr.color = .black)) :
    ∃ vS' sl' sr', rotateNephewLeft sl vS sr = some (vS', sl', sr') ∧ (∃ c, sl'.Balanced c n) ∧
      sr'.Balanced .red n ∧ sl'.toList ++ vS' :: sr'.toList = sl.toList ++ vS :: sr.toList := by
  unfold rotateNephewLeft
  by_cases hsrc : sr.color = .black
  · obtain ⟨a, vSL, b, rfl, ha, hb⟩ :=
      hsl.exists_red (RBColor.eq_red_of_ne_black fun hslc => hnot ⟨hslc, hsrc⟩)
    rw [if_pos hsrc]
    exact ⟨_, _, _, rfl, ⟨_, ha⟩, .red hb (hsr.of_color hsrc), by simp⟩
  · rw [if_neg hsrc]
    exact ⟨_, _, _, rfl, ⟨_, hsl⟩, hsr.of_color (RBColor.eq_red_of_ne_black hsrc), rfl⟩

theorem rotateNephewRight_spec {sl sr : RBNode AsIndex} (vS : AsIndex) {csl csr : RBColor} {n : ℕ}
    (hsl : sl.Balanced csl n) (hsr : sr.Balanced csr n)
    (hnot : ¬(sl.color = .black ∧ sr.color = .black)) :
    ∃ vS' sl' sr', rotateNephewRight sl vS sr = some (vS', sl', sr') ∧ sl'.Balanced .red n ∧
      (∃ c, sr'.Balanced c n) ∧ sl'.toList ++ vS' :: sr'.toList = sl.toList ++ vS :: sr.toList := by
  unfold rotateNephewRight
  by_cases hslc : sl.color = .black
  · obtain ⟨a, vSR, b, rfl, ha, hb⟩ :=
      hsr.exists_red (RBColor.eq_red_of_ne_black fun hsrc => hnot ⟨hslc, hsrc⟩)
    rw [if_pos hslc]
    exact ⟨_, _, _, rfl, .red (hsl.of_color hslc) ha, ⟨_, hb⟩, by simp⟩
  · rw [if_neg hslc]
    exact ⟨_, _, _, rfl, hsl.of_color (RBColor.eq_red_of_ne_black hslc), ⟨_, hsr⟩, rfl⟩
theorem asIndexSprigDeleteRebalance_spec (x : RBNode AsIndex) (p : RBNode.Path AsIndex) :
    ∀ {n : ℕ}, x.RedRed n → p.DelBalanced n₀ n →
      ∃ t, asIndexSprigDeleteRebalance x p = some t ∧ t.toList = (p.fill x).toList ∧
        ∃ m, t.Balanced .black m := by
  fun_induction asIndexSprigDeleteRebalance x p with
  | case1 x hx =>
    intro n hxr _
    exact ⟨_, rfl, toList_setColor _ _, (hxr.of_black hx).setBlack⟩
  | case2 x hx cP pp vP w cP' pp' cS sl vS sr hs hbb ih =>
    intro n hxr hp
    obtain ⟨c, hp⟩ := hp.short_of_ne_root nofun
    obtain ⟨⟨c', hp'⟩, hsb, hlist⟩ := rotateRedSiblingLeft_spec hp hs
    obtain ⟨_, _, _, _, _, hnode, hsl, hsr⟩ := hsb.exists_node
    cases hnode
    obtain ⟨m, hz, hpp⟩ :=
      hp'.delUp_left (hxr.of_black hx) (.red (hsl.of_color hbb.1) (hsr.of_color hbb.2))
    obtain ⟨t, ht, htl, hbal⟩ := ih hz hpp
    refine ⟨t, ht, htl.trans ?_, hbal⟩
    rw [← hlist x]
    exact toList_fill_congr pp' (by simp)
  | case3 x hx cP pp vP w cP' pp' cS sl vS sr hs hbb vS' sl' sr' hrot =>
    intro n hxr hp
    obtain ⟨c, hp⟩ := hp.short_of_ne_root nofun
    obtain ⟨⟨c', hp'⟩, hsb, hlist⟩ := rotateRedSiblingLeft_spec hp hs
    obtain ⟨_, _, _, _, _, hnode, hsl, hsr⟩ := hsb.exists_node
    cases hnode
    obtain ⟨_, _, _, hrot', ⟨_, hsl'⟩, hsr', horder⟩ := rotateNephewLeft_spec vS hsl hsr hbb
    rw [hrot] at hrot'
    cases hrot'
    refine ⟨_, rfl, ?_, ?_⟩
    · rw [toList_setColor, ← hlist x]
      refine toList_fill_congr pp' ?_
      simp only [toList_node, toList_setColor, List.append_assoc, List.cons_append, horder]
    · exact (hp'.fill_left_parent (.black (hxr.of_black hx) hsl')
        ((RedRed.balanced hsr').setBlack_of_red hsr'.color_eq)).setBlack
  | case4 x hx cP pp vP w cP' pp' cS sl vS sr hs hbb hrot =>
    intro n hxr hp
    obtain ⟨c, hp⟩ := hp.short_of_ne_root nofun
    obtain ⟨-, hsb, -⟩ := rotateRedSiblingLeft_spec hp hs
    obtain ⟨_, _, _, _, _, hnode, hsl, hsr⟩ := hsb.exists_node
    cases hnode
    obtain ⟨_, _, _, hrot', -⟩ := rotateNephewLeft_spec vS hsl hsr hbb
    rw [hrot] at hrot'
    cases hrot'
  | case5 x hx cP pp vP w cP' pp' hs =>
    intro n _ hp
    obtain ⟨c, hp⟩ := hp.short_of_ne_root nofun
    obtain ⟨-, hsb, -⟩ := rotateRedSiblingLeft_spec hp hs
    cases hsb
  | case6 x hx cP w vP pp cP' pp' cS sl vS sr hs hbb ih =>
    intro n hxr hp
    obtain ⟨c, hp⟩ := hp.short_of_ne_root nofun
    obtain ⟨⟨c', hp'⟩, hsb, hlist⟩ := rotateRedSiblingRight_spec hp hs
    obtain ⟨_, _, _, _, _, hnode, hsl, hsr⟩ := hsb.exists_node
    cases hnode
    obtain ⟨m, hz, hpp⟩ :=
      hp'.delUp_right (hxr.of_black hx) (.red (hsl.of_color hbb.1) (hsr.of_color hbb.2))
    obtain ⟨t, ht, htl, hbal⟩ := ih hz hpp
    refine ⟨t, ht, htl.trans ?_, hbal⟩
    rw [← hlist x]
    exact toList_fill_congr pp' (by simp)
  | case7 x hx cP w vP pp cP' pp' cS sl vS sr hs hbb vS' sl' sr' hrot =>
    intro n hxr hp
    obtain ⟨c, hp⟩ := hp.short_of_ne_root nofun
    obtain ⟨⟨c', hp'⟩, hsb, hlist⟩ := rotateRedSiblingRight_spec hp hs
    obtain ⟨_, _, _, _, _, hnode, hsl, hsr⟩ := hsb.exists_node
    cases hnode
    obtain ⟨_, _, _, hrot', hsl', ⟨_, hsr'⟩, horder⟩ :=
      rotateNephewRight_spec vS hsl hsr hbb
    rw [hrot] at hrot'
    cases hrot'
    refine ⟨_, rfl, ?_, ?_⟩
    · rw [toList_setColor, ← hlist x]
      refine toList_fill_congr pp' ?_
      have h := congrArg (· ++ vP :: x.toList) horder
      simpa using h
    · exact (hp'.fill_right_parent ((RedRed.balanced hsl').setBlack_of_red hsl'.color_eq)
        (.black hsr' (hxr.of_black hx))).setBlack
  | case8 x hx cP w vP pp cP' pp' cS sl vS sr hs hbb hrot =>
    intro n hxr hp
    obtain ⟨c, hp⟩ := hp.short_of_ne_root nofun
    obtain ⟨-, hsb, -⟩ := rotateRedSiblingRight_spec hp hs
    obtain ⟨_, _, _, _, _, hnode, hsl, hsr⟩ := hsb.exists_node
    cases hnode
    obtain ⟨_, _, _, hrot', -⟩ := rotateNephewRight_spec vS hsl hsr hbb
    rw [hrot] at hrot'
    cases hrot'
  | case9 x hx cP w vP pp cP' pp' hs =>
    intro n _ hp
    obtain ⟨c, hp⟩ := hp.short_of_ne_root nofun
    obtain ⟨-, hsb, -⟩ := rotateRedSiblingRight_spec hp hs
    cases hsb
  | case10 x p hx =>
    intro n hxr hp
    have hxb := hxr.setBlack_of_red (RBColor.eq_red_of_ne_black hx)
    refine ⟨_, rfl, toList_fill_congr p (toList_setColor _ _), ?_⟩
    cases hp with
    | root => exact ⟨_, hxb⟩
    | short hp => exact ⟨_, hp.toBlack.fill hxb⟩

end DeleteRebalance
/-! ### Cutting an element out -/

section Cut

open RBNode RBNode.Path

theorem successorSaveParents_spec :
    ∀ {c : RBColor} {l r s : RBNode AsIndex} {v : AsIndex} {p sp : RBNode.Path AsIndex},
      successorSaveParents (.node c l v r) p = (s, sp) →
      sp.fill s = p.fill (.node c l v r) ∧ sp.pre = p.pre ∧ ∃ cS vS sr, s = .node cS .nil vS sr
  | _, .nil, _, _, _, _, _, h => by
    cases h
    exact ⟨rfl, rfl, _, _, _, rfl⟩
  | c, .node cl ll vl lr, r, _, v, p, _, h => by
    rw [successorSaveParents] at h
    obtain ⟨hfill, hpre, hs⟩ := successorSaveParents_spec (p := .left c p v r) h
    exact ⟨hfill, hpre, hs⟩

theorem cutAndRebalance_spec {n₀ : ℕ} {cS : RBColor} {sl sr : RBNode AsIndex} {vS : AsIndex}
    {sp : RBNode.Path AsIndex} (hone : sl = .nil ∨ sr = .nil)
    (hb : (sp.fill (.node cS sl vS sr)).Balanced .black n₀) :
    ∃ t, cutAndRebalance (.node cS sl vS sr) sp = some t ∧
      t.toList = sp.pre ++ (sl.toList ++ sr.toList) ++ sp.post ∧ ∃ m, t.Balanced .black m := by
  obtain ⟨c, k, hs, hsp⟩ := Balanced.of_fill hb
  unfold cutAndRebalance
  cases sl with
  | nil =>
    cases hs with
    | red _ hr => exact ⟨_, rfl, by simp [toList_fill], _, hsp.toBlack.fill hr⟩
    | black _ hr =>
      obtain ⟨t, ht, htl, hbal⟩ := asIndexSprigDeleteRebalance_spec sr sp (.balanced hr) (.short hsp)
      exact ⟨t, ht, by simpa [toList_fill] using htl, hbal⟩
  | node cl ll vl lr =>
    obtain rfl : sr = .nil := hone.resolve_left nofun
    cases hs with
    | red hl _ => exact ⟨_, rfl, by simp [toList_fill], _, hsp.toBlack.fill hl⟩
    | black hl _ =>
      obtain ⟨t, ht, htl, hbal⟩ := asIndexSprigDeleteRebalance_spec _ sp (.balanced hl) (.short hsp)
      exact ⟨t, ht, by simpa [toList_fill] using htl, hbal⟩

end Cut
/-! ### The sprig operations -/

/-- A sprig as `index.c` keeps it: a red-black tree with a black root, its
records in decreasing digest order, and `n_elements` counting them. -/
structure RbSprig.Valid (sprig : RbSprig) (cfDigestCompare : CfDigest → CfDigest → Ordering) : Prop where
  balanced : ∃ n, sprig.root.Balanced .black n
  sorted : sprig.root.toList.Pairwise (DigestGt cfDigestCompare)
  nElements_eq : sprig.nElements.toNat = sprig.root.toList.length % 2 ^ 64

theorem RbSprig.valid_empty : RbSprig.empty.Valid cfDigestCompare :=
  ⟨⟨0, .nil⟩, List.Pairwise.nil, rfl⟩

section Operations

open RBNode RBNode.Path

variable {sprig : RbSprig} {keyd : CfDigest}

theorem searchSaveParents_nil (hord : CfDigestOrder cfDigestCompare)
    (hs : sprig.root.toList.Pairwise (DigestGt cfDigestCompare)) {p : RBNode.Path AsIndex}
    (h : searchSaveParents cfDigestCompare keyd sprig.root .root = (.nil, p)) :
    asIndexSprigSearchLockless cfDigestCompare sprig.root keyd = none ∧ p.fill .nil = sprig.root
      ∧ KeyBounds cfDigestCompare keyd p := by
  obtain ⟨hfill, hb, -⟩ := searchSaveParents_spec hord keyd (p := .root) hs ⟨nofun, nofun⟩ h
  replace hfill : p.fill .nil = sprig.root := hfill
  refine ⟨?_, hfill, hb⟩
  rw [asIndexSprigSearchLockless_eq_find? hord keyd hs, ← hfill, toList_fill, toList_nil,
    List.append_nil, List.find?_append, find?_eq_none_of_above hord hb.1, find?_eq_none_of_below hord hb.2]
  rfl

theorem searchSaveParents_node (hord : CfDigestOrder cfDigestCompare)
    (hs : sprig.root.toList.Pairwise (DigestGt cfDigestCompare)) {p : RBNode.Path AsIndex}
    {c : RBColor} {l rt : RBNode AsIndex} {r : AsIndex}
    (h : searchSaveParents cfDigestCompare keyd sprig.root .root = (.node c l r rt, p)) :
    asIndexSprigSearchLockless cfDigestCompare sprig.root keyd = some r ∧ r.keyd = keyd ∧
      p.fill (.node c l r rt) = sprig.root := by
  obtain ⟨hfill, hb, hend⟩ := searchSaveParents_spec hord keyd (p := .root) hs ⟨nofun, nofun⟩ h
  replace hfill : p.fill (.node c l r rt) = sprig.root := hfill
  obtain ⟨_, _, _, _, hnode, hkey⟩ := hend.resolve_left nofun
  cases hnode
  refine ⟨?_, hkey, hfill⟩
  have hs' := hs
  rw [← hfill, toList_fill, toList_node] at hs'
  obtain ⟨hl, -⟩ := digestGt_around hs'
  have hnone : l.toList.find? (·.keyd = keyd) = none :=
    find?_eq_none_of_above hord fun x hx => hkey ▸ hl x hx
  rw [asIndexSprigSearchLockless_eq_find? hord keyd hs, ← hfill, toList_fill, toList_node,
    List.find?_append, List.find?_append, List.find?_append, find?_eq_none_of_above hord hb.1, hnone]
  simp [hkey]
theorem pairwise_digestGt_insert {l₁ l₂ : List AsIndex} {n : AsIndex}
    (hs : (l₁ ++ l₂).Pairwise (DigestGt cfDigestCompare))
      (h₁ : ∀ x ∈ l₁, DigestGt cfDigestCompare x n) (h₂ : ∀ y ∈ l₂, DigestGt cfDigestCompare n y) :
    (l₁ ++ n :: l₂).Pairwise (DigestGt cfDigestCompare) := by
  rw [List.pairwise_append] at hs ⊢
  refine ⟨hs.1, List.pairwise_cons.mpr ⟨h₂, hs.2.1⟩, fun x hx y hy => ?_⟩
  rcases List.mem_cons.mp hy with rfl | hy
  · exact h₁ x hx
  · exact hs.2.2 x hx y hy

theorem asIndexSprigGetInsertVlock_of_found (hord : CfDigestOrder cfDigestCompare)
    (hv : sprig.Valid cfDigestCompare) {r : AsIndex}
    (h : asIndexSprigSearchLockless cfDigestCompare sprig.root keyd = some r) (alloc : Bool) :
    asIndexSprigGetInsertVlock cfDigestCompare sprig keyd alloc = some (if r.valid then 0 else -2, sprig) := by
  unfold asIndexSprigGetInsertVlock
  cases hsp : searchSaveParents cfDigestCompare keyd sprig.root .root with
  | mk t p =>
    cases t with
    | nil =>
      rw [(searchSaveParents_nil hord hv.sorted hsp).1] at h
      cases h
    | node c l r' rt =>
      rw [(searchSaveParents_node hord hv.sorted hsp).1] at h
      cases h
      rfl

/-- `as_index_sprig_get_insert_vlock` on a digest the sprig does not hold fails
without an arena element, and otherwise links a new record in between the
records above and below its digest, keeping the sprig valid. -/
theorem asIndexSprigGetInsertVlock_of_not_found (hord : CfDigestOrder cfDigestCompare)
    (hv : sprig.Valid cfDigestCompare)
    (h : asIndexSprigSearchLockless cfDigestCompare sprig.root keyd = none) :
    asIndexSprigGetInsertVlock cfDigestCompare sprig keyd false = some (-1, sprig) ∧
      ∃ sprig', asIndexSprigGetInsertVlock cfDigestCompare sprig keyd true = some (1, sprig')
        ∧ sprig'.Valid cfDigestCompare ∧
        ∃ l₁ l₂, sprig.root.toList = l₁ ++ l₂ ∧ sprig'.root.toList = l₁ ++ ⟨keyd, false⟩ :: l₂ ∧
          ∀ x ∈ l₁, cfDigestCompare x.keyd keyd = .gt := by
  unfold asIndexSprigGetInsertVlock
  cases hsp : searchSaveParents cfDigestCompare keyd sprig.root .root with
  | mk t p =>
    cases t with
    | node c l r rt =>
      rw [(searchSaveParents_node hord hv.sorted hsp).1] at h
      cases h
    | nil =>
      obtain ⟨-, hfill, hb⟩ := searchSaveParents_nil hord hv.sorted hsp
      refine ⟨rfl, ?_⟩
      obtain ⟨n₀, hbal⟩ := hv.balanced
      rw [← hfill] at hbal
      obtain ⟨c, k, hnil, hp⟩ := Balanced.of_fill hbal
      cases hnil
      obtain ⟨t, ht, htl, hbt⟩ := asIndexSprigInsertRebalance_spec (.node .red .nil ⟨keyd, false⟩ .nil)
        p (.red .nil .nil) hp.insBalanced
      have hlen : sprig.root.toList = p.pre ++ p.post := by
        rw [← hfill, toList_fill]
        simp
      have htl' : t.toList = p.pre ++ ⟨keyd, false⟩ :: p.post := by
        rw [htl, toList_fill]
        simp
      refine ⟨⟨t, sprig.nElements + 1⟩, by simp [ht], ⟨hbt, ?_, ?_⟩, p.pre, p.post, hlen, htl', hb.1⟩
      · rw [htl']
        exact pairwise_digestGt_insert (hlen ▸ hv.sorted) hb.1 hb.2
      · rw [htl', UInt64.toNat_add, hv.nElements_eq, hlen]
        simp only [List.length_append, List.length_cons, UInt64.toNat_one]
        omega

theorem asIndexSprigDelete_of_not_found (hord : CfDigestOrder cfDigestCompare)
    (hv : sprig.Valid cfDigestCompare)
    (h : asIndexSprigSearchLockless cfDigestCompare sprig.root keyd = none) :
    asIndexSprigDelete cfDigestCompare sprig keyd = some (-1, sprig) := by
  unfold asIndexSprigDelete
  cases hsp : searchSaveParents cfDigestCompare keyd sprig.root .root with
  | mk t p =>
    cases t with
    | nil => rfl
    | node c l r rt =>
      rw [(searchSaveParents_node hord hv.sorted hsp).1] at h
      cases h

theorem toList_successorInPlace (hord : CfDigestOrder cfDigestCompare) {l₁ l₂ : List AsIndex}
    {r s : AsIndex}
    (h₁ : ∀ x ∈ l₁, DigestGt cfDigestCompare x r) (h₂ : ∀ y ∈ l₂, DigestGt cfDigestCompare r y)
      {t : RBNode AsIndex}
    (ht : t.toList = l₁ ++ r :: l₂) : (successorInPlace cfDigestCompare r s t).toList
      = l₁ ++ s :: l₂ := by
  have hne₁ : ∀ x ∈ l₁, cfDigestCompare x.keyd r.keyd ≠ .eq := fun x hx h => by
    rw [h₁ x hx] at h
    cases h
  have hne₂ : ∀ y ∈ l₂, cfDigestCompare y.keyd r.keyd ≠ .eq := fun y hy h => by
    rw [hord.swap, h₂ y hy] at h
    cases h
  rw [successorInPlace, toList_map, ht, List.map_append, List.map_cons,
    List.map_congr_left (fun x hx => if_neg (hne₁ x hx)),
    List.map_congr_left (fun y hy => if_neg (hne₂ y hy))]
  simp [(hord.eq_iff r.keyd r.keyd).mpr rfl]

theorem RbSprig.Valid.of_remove (hv : sprig.Valid cfDigestCompare) {t : RBNode AsIndex}
    {l₁ l₂ : List AsIndex}
    {r : AsIndex} (hl : sprig.root.toList = l₁ ++ r :: l₂) (ht : t.toList = l₁ ++ l₂)
    (hbal : ∃ m, t.Balanced .black m) : (⟨t, sprig.nElements - 1⟩ : RbSprig).Valid cfDigestCompare := by
  refine ⟨hbal, ?_, ?_⟩
  · rw [ht]
    have hs := hv.sorted
    rw [hl] at hs
    exact hs.sublist ((List.Sublist.refl l₁).append (List.sublist_cons_self r l₂))
  · have hc := hv.nElements_eq
    rw [hl] at hc
    simp only [UInt64.toNat_sub, hc, ht, List.length_append, List.length_cons, UInt64.toNat_one]
    omega

theorem asIndexSprigDelete_of_found (hord : CfDigestOrder cfDigestCompare)
    (hv : sprig.Valid cfDigestCompare) {r : AsIndex}
    (h : asIndexSprigSearchLockless cfDigestCompare sprig.root keyd = some r) :
    ∃ sprig', asIndexSprigDelete cfDigestCompare sprig keyd = some (0, sprig')
      ∧ sprig'.Valid cfDigestCompare ∧
      ∃ l₁ l₂, sprig.root.toList = l₁ ++ r :: l₂ ∧ sprig'.root.toList = l₁ ++ l₂ := by
  unfold asIndexSprigDelete
  cases hsp : searchSaveParents cfDigestCompare keyd sprig.root .root with
  | mk t rp =>
    cases t with
    | nil =>
      rw [(searchSaveParents_nil hord hv.sorted hsp).1] at h
      cases h
    | node cR rl r' rr =>
      obtain ⟨hfind, -, hfill⟩ := searchSaveParents_node hord hv.sorted hsp
      rw [hfind] at h
      cases h
      obtain ⟨n₀, hbal⟩ := hv.balanced
      rw [← hfill] at hbal
      dsimp only
      split
      · next _ _ cl ll vl lr cr ll' vr rr' =>
        cases hsucc : successorSaveParents (.node cr ll' vr rr') (.right cR (.node cl ll vl lr) r rp) with
        | mk s sp =>
          obtain ⟨hsfill, hspre, cS, vS, sr, rfl⟩ := successorSaveParents_spec hsucc
          obtain ⟨t, ht, htl, htb⟩ := cutAndRebalance_spec (.inl rfl) (hsfill ▸ hbal)
          dsimp only
          rw [ht]
          have hl : sprig.root.toList = (rp.pre ++ (node cl ll vl lr).toList) ++ r ::
              (vS :: (sr.toList ++ sp.post)) := by
            have hfill' : sp.fill (.node cS .nil vS sr) = sprig.root := hsfill.trans hfill
            rw [← hfill', toList_fill, hspre]
            simp
          have hs := hv.sorted
          rw [hl] at hs
          obtain ⟨h₁, h₂⟩ := digestGt_split hs
          have ht' : (successorInPlace cfDigestCompare r vS t).toList = (rp.pre ++ (node cl ll vl lr).toList) ++
              vS :: (sr.toList ++ sp.post) := by
            refine toList_successorInPlace hord h₁ (fun y hy => h₂ y (List.mem_cons_of_mem _ hy)) ?_
            rw [htl, hspre]
            simp
          exact ⟨_, rfl, hv.of_remove hl ht' (htb.imp fun _ h => h.map _), _, _, hl, ht'⟩
      · next hnot =>
        have hone : rl = .nil ∨ rr = .nil := by
          cases rl with
          | nil => exact .inl rfl
          | node => cases rr with
            | nil => exact .inr rfl
            | node => exact (hnot _ _ _ _ _ _ _ _ rfl rfl).elim
        obtain ⟨t, ht, htl, htb⟩ := cutAndRebalance_spec hone hbal
        rw [ht]
        have hl : sprig.root.toList = (rp.pre ++ rl.toList) ++ r :: (rr.toList ++ rp.post) := by
          rw [← hfill, toList_fill]
          simp
        have ht' : t.toList = (rp.pre ++ rl.toList) ++ (rr.toList ++ rp.post) := by
          rw [htl]
          simp
        exact ⟨_, rfl, hv.of_remove hl ht' htb, _, _, hl, ht'⟩

end Operations

/-! ### Runs of operations -/

inductive SprigOp where
  | getInsert (keyd : CfDigest) (alloc : Bool)
  | delete (keyd : CfDigest)

def asIndexSprigStep (cfDigestCompare : CfDigest → CfDigest → Ordering) (sprig : RbSprig) :
    SprigOp → Option (Int × RbSprig)
  | .getInsert keyd alloc => asIndexSprigGetInsertVlock cfDigestCompare sprig keyd alloc
  | .delete keyd => asIndexSprigDelete cfDigestCompare sprig keyd

def asIndexSprigRun (cfDigestCompare : CfDigest → CfDigest → Ordering) (sprig : RbSprig) :
    List SprigOp → Option (List Int × RbSprig)
  | [] => some ([], sprig)
  | op :: ops =>
    match asIndexSprigStep cfDigestCompare sprig op with
    | some (rv, sprig') => (asIndexSprigRun cfDigestCompare sprig' ops).map fun (rvs, s) => (rv :: rvs, s)
    | none => none

/-- What a sprig is for: the record it holds for each digest. A call on the map
returns what the sprig's call returns. -/
def indexMapStep (m : CfDigest → Option AsIndex) : SprigOp → Int × (CfDigest → Option AsIndex)
  | .getInsert keyd alloc =>
    match m keyd with
    | some r => (if r.valid then 0 else -2, m)
    | none => if alloc then (1, Function.update m keyd (some ⟨keyd, false⟩)) else (-1, m)
  | .delete keyd =>
    match m keyd with
    | some _ => (0, Function.update m keyd none)
    | none => (-1, m)

def indexMapRun (m : CfDigest → Option AsIndex) : List SprigOp → List Int × (CfDigest → Option AsIndex)
  | [] => ([], m)
  | op :: ops =>
    let (rv, m') := indexMapStep m op
    let (rvs, m'') := indexMapRun m' ops
    (rv :: rvs, m'')

/-- A sprig stands for a map when it is valid and its search finds the map's
record for every digest. -/
structure RbSprig.Refines (sprig : RbSprig) (cfDigestCompare : CfDigest → CfDigest → Ordering)
    (m : CfDigest → Option AsIndex) : Prop where
  valid : sprig.Valid cfDigestCompare
  search_eq : ∀ d, asIndexSprigSearchLockless cfDigestCompare sprig.root d = m d

section Refinement

theorem find?_insert_between (hord : CfDigestOrder cfDigestCompare) {l₁ l₂ : List AsIndex} {n : AsIndex}
    (h₁ : ∀ x ∈ l₁, cfDigestCompare x.keyd n.keyd = .gt) (d : CfDigest) :
    (l₁ ++ n :: l₂).find? (·.keyd = d) =
      Function.update (fun d => (l₁ ++ l₂).find? (·.keyd = d)) n.keyd (some n) d := by
  by_cases hd : d = n.keyd
  · subst hd
    simp [List.find?_append, find?_eq_none_of_above hord h₁]
  · rw [Function.update_of_ne hd]
    simp [List.find?_append, Ne.symm hd]

theorem find?_erase_between (hord : CfDigestOrder cfDigestCompare) {l₁ l₂ : List AsIndex} {r : AsIndex}
    (hs : (l₁ ++ r :: l₂).Pairwise (DigestGt cfDigestCompare)) (d : CfDigest) :
    (l₁ ++ l₂).find? (·.keyd = d) =
      Function.update (fun d => (l₁ ++ r :: l₂).find? (·.keyd = d)) r.keyd none d := by
  obtain ⟨h₁, h₂⟩ := digestGt_split hs
  by_cases hd : d = r.keyd
  · subst hd
    rw [Function.update_self, List.find?_append, find?_eq_none_of_above hord h₁,
      find?_eq_none_of_below hord h₂]
    rfl
  · rw [Function.update_of_ne hd]
    simp [List.find?_append, Ne.symm hd]

variable {sprig : RbSprig} {m : CfDigest → Option AsIndex}

theorem keyd_of_search (hord : CfDigestOrder cfDigestCompare) (hs : sprig.root.toList.Pairwise
    (DigestGt cfDigestCompare)) {keyd : CfDigest} {r : AsIndex}
    (h : asIndexSprigSearchLockless cfDigestCompare sprig.root keyd = some r) : r.keyd = keyd := by
  rw [asIndexSprigSearchLockless_eq_find? hord keyd hs] at h
  simpa using List.find?_some h

theorem asIndexSprigStep_refines (hord : CfDigestOrder cfDigestCompare)
    (h : sprig.Refines cfDigestCompare m) (op : SprigOp) :
    ∃ sprig', asIndexSprigStep cfDigestCompare sprig op = some ((indexMapStep m op).1, sprig') ∧
      sprig'.Refines cfDigestCompare (indexMapStep m op).2 := by
  have hs := h.valid.sorted
  cases op with
  | getInsert keyd alloc =>
    cases hm : m keyd with
    | some r =>
      rw [← h.search_eq] at hm
      refine ⟨sprig, ?_, ?_⟩
      · simp [asIndexSprigStep, indexMapStep, asIndexSprigGetInsertVlock_of_found hord h.valid hm,
          ← h.search_eq, hm]
      · simpa [indexMapStep, ← h.search_eq, hm] using h
    | none =>
      rw [← h.search_eq] at hm
      obtain ⟨hfalse, sprig', htrue, hv', l₁, l₂, hl, hl', h₁⟩ :=
        asIndexSprigGetInsertVlock_of_not_found hord h.valid hm
      cases alloc with
      | false =>
        refine ⟨sprig, ?_, ?_⟩
        · simp [asIndexSprigStep, indexMapStep, hfalse, ← h.search_eq, hm]
        · simpa [indexMapStep, ← h.search_eq, hm] using h
      | true =>
        refine ⟨sprig', by simp [asIndexSprigStep, indexMapStep, htrue, ← h.search_eq, hm], hv', ?_⟩
        intro d
        simp only [indexMapStep, ← h.search_eq, hm, if_true]
        rw [asIndexSprigSearchLockless_eq_find? hord d hv'.sorted, hl',
          find?_insert_between hord (n := ⟨keyd, false⟩) h₁ d]
        congr 1
        funext d
        rw [← h.search_eq, asIndexSprigSearchLockless_eq_find? hord d hs, hl]
  | delete keyd =>
    cases hm : m keyd with
    | some r =>
      rw [← h.search_eq] at hm
      have hkey := keyd_of_search hord hs hm
      obtain ⟨sprig', hdel, hv', l₁, l₂, hl, hl'⟩ := asIndexSprigDelete_of_found hord h.valid hm
      refine ⟨sprig', by simp [asIndexSprigStep, indexMapStep, hdel, ← h.search_eq, hm], hv', ?_⟩
      intro d
      simp only [indexMapStep, ← h.search_eq, hm]
      rw [asIndexSprigSearchLockless_eq_find? hord d hv'.sorted, hl',
        find?_erase_between hord (hl ▸ hs) d, hkey]
      congr 1
      funext d
      rw [← h.search_eq, asIndexSprigSearchLockless_eq_find? hord d hs, hl]
    | none =>
      rw [← h.search_eq] at hm
      refine ⟨sprig, ?_, ?_⟩
      · simp [asIndexSprigStep, indexMapStep, asIndexSprigDelete_of_not_found hord h.valid hm,
          ← h.search_eq, hm]
      · simpa [indexMapStep, ← h.search_eq, hm] using h

theorem asIndexSprigRun_refines (hord : CfDigestOrder cfDigestCompare) : ∀ (ops : List SprigOp)
    {sprig : RbSprig}
    {m : CfDigest → Option AsIndex}, sprig.Refines cfDigestCompare m →
      ∃ sprig', asIndexSprigRun cfDigestCompare sprig ops = some ((indexMapRun m ops).1, sprig') ∧
        sprig'.Refines cfDigestCompare (indexMapRun m ops).2
  | [], sprig, _, h => ⟨sprig, rfl, h⟩
  | op :: ops, _, m, h => by
    obtain ⟨sprig', hstep, h'⟩ := asIndexSprigStep_refines hord h op
    obtain ⟨sprig'', hrun, h''⟩ := asIndexSprigRun_refines hord ops h'
    exact ⟨sprig'', by simp [asIndexSprigRun, indexMapRun, hstep, hrun], h''⟩

/-- From an empty sprig, every run of `as_index_sprig_get_insert_vlock` and
`as_index_sprig_delete` calls returns what the same calls on a map from digests
to records return, and leaves a valid red-black sprig whose search finds
exactly the map's records. -/
theorem asIndexSprigRun_empty_refines (hord : CfDigestOrder cfDigestCompare) (ops : List SprigOp) :
    ∃ sprig, asIndexSprigRun cfDigestCompare RbSprig.empty ops =
        some ((indexMapRun (fun _ => none) ops).1, sprig) ∧ sprig.Valid cfDigestCompare ∧
      ∀ d, asIndexSprigSearchLockless cfDigestCompare sprig.root d = (indexMapRun
        (fun _ => none) ops).2 d := by
  obtain ⟨sprig, hrun, hv, hsearch⟩ :=
    asIndexSprigRun_refines hord ops ⟨RbSprig.valid_empty, fun _ => rfl⟩
  exact ⟨sprig, hrun, hv, hsearch⟩

def threeInserts : List SprigOp :=
  [.getInsert (digestOf 0 1) true, .getInsert (digestOf 0 2) true, .getInsert (digestOf 0 3) true]

theorem asIndexSprigRun_empty_refines_threeInserts : CfDigestOrder memcmpDigest ∧
    ∃ sprig, asIndexSprigRun memcmpDigest RbSprig.empty threeInserts =
        some ((indexMapRun (fun _ => none) threeInserts).1, sprig) ∧ sprig.Valid memcmpDigest ∧
      ∀ d, asIndexSprigSearchLockless memcmpDigest sprig.root d =
        (indexMapRun (fun _ => none) threeInserts).2 d :=
  ⟨cfDigestOrder_memcmpDigest, asIndexSprigRun_empty_refines cfDigestOrder_memcmpDigest threeInserts⟩

theorem asIndexSprigStep_length_le (hord : CfDigestOrder cfDigestCompare) {m : CfDigest → Option AsIndex}
    (h : sprig.Refines cfDigestCompare m) (op : SprigOp) {rv : Int} {sprig' : RbSprig}
    (hstep : asIndexSprigStep cfDigestCompare sprig op = some (rv, sprig')) :
    sprig'.root.toList.length ≤ sprig.root.toList.length + 1 := by
  cases op with
  | getInsert keyd alloc =>
    cases hs : asIndexSprigSearchLockless cfDigestCompare sprig.root keyd with
    | some r =>
      rw [asIndexSprigStep, asIndexSprigGetInsertVlock_of_found hord h.valid hs, Option.some.injEq,
        Prod.mk.injEq] at hstep
      rw [← hstep.2]
      omega
    | none =>
      obtain ⟨hfalse, s', htrue, -, l₁, l₂, hl, hl', -⟩ :=
        asIndexSprigGetInsertVlock_of_not_found hord h.valid hs
      cases alloc with
      | false =>
        rw [asIndexSprigStep, hfalse, Option.some.injEq, Prod.mk.injEq] at hstep
        rw [← hstep.2]
        omega
      | true =>
        rw [asIndexSprigStep, htrue, Option.some.injEq, Prod.mk.injEq] at hstep
        rw [← hstep.2, hl', hl]
        simp
        omega
  | delete keyd =>
    cases hs : asIndexSprigSearchLockless cfDigestCompare sprig.root keyd with
    | some r =>
      obtain ⟨s', hdel, -, l₁, l₂, hl, hl'⟩ := asIndexSprigDelete_of_found hord h.valid hs
      rw [asIndexSprigStep, hdel, Option.some.injEq, Prod.mk.injEq] at hstep
      rw [← hstep.2, hl', hl]
      simp
      omega
    | none =>
      rw [asIndexSprigStep, asIndexSprigDelete_of_not_found hord h.valid hs, Option.some.injEq,
        Prod.mk.injEq] at hstep
      rw [← hstep.2]
      omega

theorem asIndexSprigRun_length_le (hord : CfDigestOrder cfDigestCompare) :
    ∀ (ops : List SprigOp) {sprig : RbSprig} {m : CfDigest → Option AsIndex},
      sprig.Refines cfDigestCompare m → ∀ {rvs : List Int} {sprig' : RbSprig},
      asIndexSprigRun cfDigestCompare sprig ops = some (rvs, sprig') →
      sprig'.root.toList.length ≤ sprig.root.toList.length + ops.length
  | [], _, _, _, _, _, hrun => by
    rw [asIndexSprigRun, Option.some.injEq, Prod.mk.injEq] at hrun
    rw [← hrun.2]
    omega
  | op :: ops, sprig, m, h, rvs, sprig', hrun => by
    obtain ⟨s1, hstep, h1⟩ := asIndexSprigStep_refines hord h op
    rw [asIndexSprigRun, hstep] at hrun
    dsimp only at hrun
    obtain ⟨⟨rvs', s2⟩, hrun', hmap⟩ := Option.map_eq_some_iff.mp hrun
    simp only [Prod.mk.injEq] at hmap
    obtain ⟨-, rfl⟩ := hmap
    have h2 := asIndexSprigRun_length_le hord ops h1 hrun'
    have h3 := asIndexSprigStep_length_le hord h op hstep
    rw [List.length_cons]
    omega

/-- `as_index_sprig_get_insert_vlock` keeps in `eles[64]` the stack
`root_parent`, one element for each record it searches past, and the found or
new element, the last at the search path's depth plus one: on a valid sprig of
fewer than `2 ^ 32 - 1` records that index is below 64. -/
theorem asIndexSprigGetInsertVlock_eles_lt (hord : CfDigestOrder cfDigestCompare)
    (hv : sprig.Valid cfDigestCompare)
    (hsize : sprig.root.toList.length + 1 < 2 ^ 32) (keyd : CfDigest) :
    (searchSaveParents cfDigestCompare keyd sprig.root .root).2.depth + 1 < 64 := by
  obtain ⟨n₀, hbal⟩ := hv.balanced
  have hn₀ : n₀ < 32 := by
    by_contra hge
    have := Nat.pow_le_pow_right (by norm_num : 0 < 2) (not_lt.mp hge)
    have := hbal.two_pow_le
    omega
  cases hsp : searchSaveParents cfDigestCompare keyd sprig.root .root with
  | mk t p =>
    obtain ⟨hfill, -, -⟩ := searchSaveParents_spec hord keyd (p := .root) hv.sorted ⟨nofun, nofun⟩ hsp
    replace hfill : p.fill t = sprig.root := hfill
    rw [← hfill] at hbal
    obtain ⟨c, n, -, hp⟩ := RBNode.Path.Balanced.of_fill hbal
    have := hp.depth_le
    dsimp only
    omega

theorem asIndexSprigGetInsertVlock_eles_lt_threeInserts :
    ∃ sprig, asIndexSprigRun memcmpDigest RbSprig.empty threeInserts = some ([1, 1, 1], sprig) ∧
      CfDigestOrder memcmpDigest ∧ sprig.Valid memcmpDigest ∧ sprig.root.toList.length + 1 < 2 ^ 32 ∧
      (searchSaveParents memcmpDigest (digestOf 0 2) sprig.root .root).2.depth + 1 < 64 := by
  have hempty : RbSprig.empty.Refines memcmpDigest fun _ => none := ⟨RbSprig.valid_empty, fun _ => rfl⟩
  obtain ⟨sprig, hrun, href⟩ := asIndexSprigRun_refines cfDigestOrder_memcmpDigest threeInserts hempty
  have hrv : (indexMapRun (fun _ => none) threeInserts).1 = [1, 1, 1] := by decide
  rw [hrv] at hrun
  have hlen : sprig.root.toList.length + 1 < 2 ^ 32 := by
    have := asIndexSprigRun_length_le cfDigestOrder_memcmpDigest threeInserts hempty hrun
    simp only [RbSprig.empty, RBNode.toList_nil, List.length_nil, threeInserts, List.length_cons] at this
    omega
  exact ⟨sprig, hrun, cfDigestOrder_memcmpDigest, href.valid, hlen,
    asIndexSprigGetInsertVlock_eles_lt cfDigestOrder_memcmpDigest href.valid hlen _⟩

end Refinement

/-! ### Reducing a sprig -/

/-- The sprig without colours, as `as_index_sprig_reduce_partial` walks it. -/
def RbSprig.toAsSprig (sprig : RbSprig) : AsSprig := ⟨sprig.root.toBinaryTree, sprig.nElements⟩

theorem mem_toList_iff_search (hord : CfDigestOrder cfDigestCompare) {t : RBNode AsIndex}
    (hs : t.toList.Pairwise (DigestGt cfDigestCompare)) (r : AsIndex) :
    r ∈ t.toList ↔ asIndexSprigSearchLockless cfDigestCompare t r.keyd = some r := by
  rw [asIndexSprigSearchLockless_eq_find? hord r.keyd hs]
  constructor
  · intro hr
    obtain ⟨l₁, l₂, hl⟩ := List.append_of_mem hr
    rw [hl] at hs ⊢
    obtain ⟨h₁, -⟩ := digestGt_split hs
    rw [List.find?_append, find?_eq_none_of_above hord h₁]
    simp
  · exact List.mem_of_find?_eq_some

theorem RbSprig.Valid.reducePartial_eq {sprig : RbSprig} (hv : sprig.Valid cfDigestCompare)
    (hlt : sprig.root.toList.length < 2 ^ 64) (sampleCount : UInt64) :
    (asIndexSprigReducePartial sprig.toAsSprig sampleCount).1 =
      sprig.root.toList.take (sprigSampleCount sprig.toAsSprig sampleCount).toNat := by
  have hn : sprig.toAsSprig.nElements.toNat = sprig.toAsSprig.root.numNodes := by
    rw [RbSprig.toAsSprig, ← BinaryTree.length_inorder, RBNode.inorder_toBinaryTree,
      hv.nElements_eq, Nat.mod_eq_of_lt hlt]
  rw [asIndexSprigReducePartial_eq _ _ hn]
  simp [RbSprig.toAsSprig]

/-- After any run of calls from an empty sprig, a partial reduce of the sprig
collects the records the map holds with the largest digests, in decreasing
digest order, as many as its capped count. -/
theorem asIndexSprigReducePartial_after_run (hord : CfDigestOrder cfDigestCompare)
    (ops : List SprigOp) (sampleCount : UInt64) :
    ∃ sprig, asIndexSprigRun cfDigestCompare RbSprig.empty ops =
        some ((indexMapRun (fun _ => none) ops).1, sprig) ∧
      (∀ r, r ∈ sprig.root.toList ↔ (indexMapRun (fun _ => none) ops).2 r.keyd = some r) ∧
      sprig.root.toList.Pairwise (DigestGt cfDigestCompare) ∧
      (sprig.root.toList.length < 2 ^ 64 →
        (asIndexSprigReducePartial sprig.toAsSprig sampleCount).1 =
          sprig.root.toList.take (sprigSampleCount sprig.toAsSprig sampleCount).toNat) := by
  obtain ⟨sprig, hrun, hv, hsearch⟩ :=
    asIndexSprigRun_refines hord (m := fun _ => none) ops ⟨RbSprig.valid_empty, fun _ => rfl⟩
  refine ⟨sprig, hrun, fun r => ?_, hv.sorted, fun hlt => hv.reducePartial_eq hlt _⟩
  rw [mem_toList_iff_search hord hv.sorted, hsearch]

theorem asIndexSprigReducePartial_after_run_threeInserts : CfDigestOrder memcmpDigest ∧
    ∃ sprig, asIndexSprigRun memcmpDigest RbSprig.empty threeInserts =
        some ((indexMapRun (fun _ => none) threeInserts).1, sprig) ∧
      (∀ r, r ∈ sprig.root.toList ↔ (indexMapRun (fun _ => none) threeInserts).2 r.keyd = some r) ∧
      sprig.root.toList.Pairwise (DigestGt memcmpDigest) ∧
      (sprig.root.toList.length < 2 ^ 64 →
        (asIndexSprigReducePartial sprig.toAsSprig 2).1 =
          sprig.root.toList.take (sprigSampleCount sprig.toAsSprig 2).toNat) :=
  ⟨cfDigestOrder_memcmpDigest, asIndexSprigReducePartial_after_run cfDigestOrder_memcmpDigest threeInserts 2⟩

end Aerospike.Index
