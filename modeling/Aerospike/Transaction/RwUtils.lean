import Mathlib

/-! # Secondary-index updates on a record replace

`write_sindex_update` (`rw_utils.c`) compares a record's old bins with its new
bins and asks the secondary-index layer for one update per changed bin: a
delete for an old bin whose id is gone, a diff (`as_sindex_sbins_populate`) for
a bin whose particle changed, and an insert for a new bin whose id is new.

For each old bin it looks for the new bin of the same id, starting at the old
bin's index (the last new bin when there are fewer), walking down and wrapping
around to the top, and marks the new bin it finds; the new bins left unmarked
are the created ones. The search visits every new bin once, so on bin arrays
of distinct ids the requests are exactly the bin diff.
-/

namespace Aerospike.Transaction

variable {P : Type}

/-- The fields of `as_bin` the update reads: its id, its particle type and its
particle (the pointer the code compares). -/
structure AsBin (P : Type) where
  id : ℕ
  particleType : ℕ
  particle : P
deriving DecidableEq

/-- A request to the secondary-index layer: `as_sindex_sbins_from_bin` with
`AS_SINDEX_OP_DELETE` or `AS_SINDEX_OP_INSERT`, or `as_sindex_sbins_populate`. -/
inductive SbinRequest (P : Type)
  | delete (b : AsBin P)
  | insert (b : AsBin P)
  | populate (bOld bNew : AsBin P)
deriving DecidableEq

/-! ### The model -/

/-- The new bin the search examines after `iNew`, `none` where it breaks:
`if (--i_new < 0 && (i_new = n_new_minus_1) <= i_old) break;` then
`if (i_new == i_old) break;`. -/
def nextNewIndex (nNewMinus1 iOld iNew : ℤ) : Option ℤ :=
  let dec := iNew - 1
  let iNew' := if dec < 0 then nNewMinus1 else dec
  if dec < 0 ∧ nNewMinus1 ≤ iOld then none
  else if iNew' = iOld then none
  else some iNew'

/-- The search loop from `iNew` for the new bin of id `id`, for at most `fuel`
rounds: the index found, or the inner `none` for none; the outer `none` is the
fuel running out. -/
def findNewLoop (newBins : List (AsBin P)) (id : ℕ) (iOld : ℤ) : ℕ → ℤ → Option (Option ℕ)
  | 0, _ => none
  | fuel + 1, iNew =>
    (newBins[iNew.toNat]?).bind fun bNew =>
      if bNew.id = id then some (some iNew.toNat)
      else
        match nextNewIndex ((newBins.length : ℤ) - 1) iOld iNew with
        | none => some none
        | some i => findNewLoop newBins id iOld fuel i

/-- The search for the new bin matching old bin `iOld`, from
`min(n_new - 1, i_old)`, with a round for each new bin. -/
def findNewBin (newBins : List (AsBin P)) (id : ℕ) (iOld : ℤ) : Option (Option ℕ) :=
  if newBins.length ≠ 0 then
    let nNewMinus1 : ℤ := (newBins.length : ℤ) - 1
    findNewLoop newBins id iOld newBins.length (if nNewMinus1 < iOld then nNewMinus1 else iOld)
  else some none

/-- The loop over the old bins from `iOld`: the requests so far, and the
`not_just_created` marks of the new bins. -/
def oldBinsLoop [DecidableEq P] (newBins : List (AsBin P)) :
    ℕ → List (AsBin P) → List (SbinRequest P) → (ℕ → Bool) →
      Option (List (SbinRequest P) × (ℕ → Bool))
  | _, [], reqs, marks => some (reqs, marks)
  | iOld, bOld :: rest, reqs, marks =>
    (findNewBin newBins bOld.id iOld).bind fun found =>
      match found with
      | none => oldBinsLoop newBins (iOld + 1) rest (reqs ++ [.delete bOld]) marks
      | some iNew => (newBins[iNew]?).bind fun bNew =>
        let reqs' := if bOld.particleType ≠ bNew.particleType ∨ bOld.particle ≠ bNew.particle then
          reqs ++ [.populate bOld bNew] else reqs
        oldBinsLoop newBins (iOld + 1) rest reqs' (Function.update marks iNew true)

def createdLoop (marks : ℕ → Bool) : ℕ → List (AsBin P) → List (SbinRequest P)
  | _, [] => []
  | iNew, bNew :: rest =>
    if marks iNew then createdLoop marks (iNew + 1) rest
    else .insert bNew :: createdLoop marks (iNew + 1) rest

/-- `write_sindex_update`: the requests in the order the sbins are filled, and
whether any sbin was filled, where `sbinCount` is the number of sbins the
secondary-index layer fills for a request; `none` if a search ran out. -/
def writeSindexUpdate [DecidableEq P] (sbinCount : SbinRequest P → ℕ) (oldBins newBins : List (AsBin P)) :
    Option (List (SbinRequest P) × Bool) :=
  (oldBinsLoop newBins 0 oldBins [] fun _ => false).map fun r =>
    let reqs := r.1 ++ createdLoop r.2 0 newBins
    (reqs, decide ((reqs.map sbinCount).sum ≠ 0))

/-! ### The bin diff -/

/-- What an old bin asks for: a diff when the new bin of its id has another
particle, a delete when there is none. -/
def oldBinDiff [DecidableEq P] (newBins : List (AsBin P)) (bOld : AsBin P) : Option (SbinRequest P) :=
  match newBins.find? (·.id == bOld.id) with
  | some bNew =>
    if bOld.particleType ≠ bNew.particleType ∨ bOld.particle ≠ bNew.particle then
      some (.populate bOld bNew)
    else none
  | none => some (.delete bOld)

/-- The bin diff: the old bins' requests, then an insert for each new bin of an
id no old bin has. -/
def binDiff [DecidableEq P] (oldBins newBins : List (AsBin P)) : List (SbinRequest P) :=
  oldBins.filterMap (oldBinDiff newBins) ++
    (newBins.filter fun bNew => !oldBins.any (·.id == bNew.id)).map .insert

/-! ### The search visits every new bin once -/

section Search

variable {newBins : List (AsBin P)} {id : ℕ}

/-- The search's test on new bin `j`. -/
def idAt (newBins : List (AsBin P)) (id : ℕ) (j : ℕ) : Bool := (newBins[j]?).any (·.id == id)

theorem nextNewIndex_succ (m : ℤ) (iOld i : ℕ) :
    nextNewIndex m iOld ((i + 1 : ℕ) : ℤ) = if i = iOld then none else some (i : ℤ) := by
  have hdec : ((i + 1 : ℕ) : ℤ) - 1 = i := by omega
  unfold nextNewIndex
  dsimp only
  rw [hdec, if_neg (show ¬(i : ℤ) < 0 by omega), if_neg (fun h => absurd h.1 (by omega))]
  by_cases h : i = iOld
  · rw [if_pos (by rw [h]), if_pos h]
  · rw [if_neg (by omega), if_neg h]

theorem nextNewIndex_zero (m : ℤ) (iOld : ℕ) :
    nextNewIndex m iOld ((0 : ℕ) : ℤ) = if m ≤ iOld then none else some m := by
  unfold nextNewIndex
  dsimp only
  have hneg : ((0 : ℕ) : ℤ) - 1 < 0 := by omega
  rw [if_pos hneg]
  by_cases hm : m ≤ iOld
  · rw [if_pos ⟨hneg, hm⟩, if_pos hm]
  · rw [if_neg (fun h => hm h.2), if_neg hm, if_neg (by omega)]

theorem findNewLoop_succ (fuel i : ℕ) (iOld : ℤ) (hi : i < newBins.length) :
    findNewLoop newBins id iOld (fuel + 1) i =
      if idAt newBins id i then some (some i)
      else
        match nextNewIndex ((newBins.length : ℤ) - 1) iOld i with
        | none => some none
        | some i' => findNewLoop newBins id iOld fuel i' := by
  rw [findNewLoop, Int.toNat_natCast, List.getElem?_eq_getElem hi, Option.bind_some, idAt,
    List.getElem?_eq_getElem hi, Option.any_some]
  by_cases hid : newBins[i].id = id
  · rw [if_pos hid, if_pos (beq_iff_eq.mpr hid)]
  · rw [if_neg hid, if_neg (by simpa using hid)]

theorem findNewLoop_top {iOld : ℕ} :
    ∀ (k fuel : ℕ), iOld + k + 1 < newBins.length → k + 1 ≤ fuel →
      findNewLoop newBins id iOld fuel (iOld + k + 1 : ℕ) =
        some (((List.range' (iOld + 1) (k + 1)).reverse).find? (idAt newBins id))
  | _, 0, _, hfuel => absurd hfuel (by omega)
  | k, fuel + 1, hn, hfuel => by
    have horder : (List.range' (iOld + 1) (k + 1)).reverse =
        (iOld + k + 1) :: (List.range' (iOld + 1) k).reverse := by
      rw [List.range'_concat, List.reverse_append, Nat.one_mul, Nat.add_right_comm]
      rfl
    rw [findNewLoop_succ fuel _ _ hn, horder, List.find?_cons]
    cases hid : idAt newBins id (iOld + k + 1)
    · rw [if_neg Bool.false_ne_true]
      dsimp only
      rw [nextNewIndex_succ]
      cases k with
      | zero => rw [if_pos (Nat.add_zero iOld), List.range'_zero, List.reverse_nil, List.find?_nil]
      | succ k =>
        rw [if_neg (by omega)]
        dsimp only
        rw [← Nat.add_assoc]
        exact findNewLoop_top k fuel (by omega) (by omega)
    · rw [if_pos rfl]

/-- The order the search visits the new bins in for old bin `iOld`: from
`min(n - 1, iOld)` down to `0`, then from the top down to just above `iOld`. -/
def searchOrder (n iOld : ℕ) : List ℕ :=
  (List.range (min (n - 1) iOld + 1)).reverse ++ (List.range' (iOld + 1) (n - 1 - iOld)).reverse

theorem findNewLoop_down {iOld : ℕ} :
    ∀ (i fuel : ℕ), i ≤ iOld → i < newBins.length → i + 1 + (newBins.length - 1 - iOld) ≤ fuel →
      findNewLoop newBins id iOld fuel i =
        some (((List.range (i + 1)).reverse ++
          (List.range' (iOld + 1) (newBins.length - 1 - iOld)).reverse).find? (idAt newBins id))
  | _, 0, _, _, hfuel => absurd hfuel (by omega)
  | i, fuel + 1, hi, hn, hfuel => by
    rw [findNewLoop_succ fuel i _ hn, List.range_succ, List.reverse_append, List.reverse_singleton,
      List.singleton_append, List.cons_append, List.find?_cons]
    cases hid : idAt newBins id i
    · rw [if_neg Bool.false_ne_true]
      dsimp only
      cases i with
      | zero =>
        rw [nextNewIndex_zero, List.range_zero, List.reverse_nil, List.nil_append]
        by_cases htop : (newBins.length : ℤ) - 1 ≤ iOld
        · rw [if_pos htop, show newBins.length - 1 - iOld = 0 by omega, List.range'_zero,
            List.reverse_nil, List.find?_nil]
        · rw [if_neg htop]
          dsimp only
          have htopN : ((newBins.length : ℤ) - 1) = ((iOld + (newBins.length - 2 - iOld) + 1 : ℕ) : ℤ) := by
            omega
          rw [htopN, findNewLoop_top _ fuel (by omega) (by omega),
            show newBins.length - 2 - iOld + 1 = newBins.length - 1 - iOld by omega]
      | succ i =>
        rw [nextNewIndex_succ, if_neg (by omega)]
        dsimp only
        exact findNewLoop_down i fuel (by omega) (by omega) (by omega)
    · rw [if_pos rfl]

theorem findNewBin_eq (iOld : ℕ) (hn : newBins.length ≠ 0) :
    findNewBin newBins id iOld = some ((searchOrder newBins.length iOld).find? (idAt newBins id)) := by
  rw [findNewBin, if_pos hn]
  dsimp only
  by_cases hlt : (newBins.length : ℤ) - 1 < iOld
  · rw [if_pos hlt, show (newBins.length : ℤ) - 1 = ((newBins.length - 1 : ℕ) : ℤ) by omega,
      findNewLoop_down _ _ (by omega) (by omega) (by omega), searchOrder,
      show min (newBins.length - 1) iOld = newBins.length - 1 by omega]
  · rw [if_neg hlt, findNewLoop_down _ _ (Nat.le_refl _) (by omega) (by omega), searchOrder,
      show min (newBins.length - 1) iOld = iOld by omega]

theorem searchOrder_perm {n : ℕ} (iOld : ℕ) (hn : n ≠ 0) : (searchOrder n iOld).Perm (List.range n) := by
  unfold searchOrder
  refine ((List.reverse_perm _).append (List.reverse_perm _)).trans ?_
  by_cases hle : n - 1 ≤ iOld
  · rw [show min (n - 1) iOld + 1 = n by omega, show n - 1 - iOld = 0 by omega, List.range'_zero,
      List.append_nil]
  · rw [show min (n - 1) iOld = iOld by omega, List.range'_eq_map_range, ← List.range_add,
      show iOld + 1 + (n - 1 - iOld) = n by omega]

theorem find?_perm_range {l : List ℕ} {n : ℕ} {p : ℕ → Bool} (hperm : l.Perm (List.range n))
    (huniq : ∀ a b, a < n → b < n → p a = true → p b = true → a = b) (j : ℕ) :
    l.find? p = some j ↔ j < n ∧ p j = true := by
  constructor
  · intro h
    exact ⟨List.mem_range.mp (hperm.subset (List.mem_of_find?_eq_some h)), List.find?_some h⟩
  · rintro ⟨hj, hp⟩
    have hmem : j ∈ l := hperm.symm.subset (List.mem_range.mpr hj)
    cases hfind : l.find? p with
    | none => exact absurd hp (List.find?_eq_none.mp hfind j hmem)
    | some k =>
      have hk := List.mem_range.mp (hperm.subset (List.mem_of_find?_eq_some hfind))
      rw [huniq k j hk hj (List.find?_some hfind) hp]

theorem findNewBin_spec (id : ℕ) (hnd : (newBins.map (·.id)).Nodup) (iOld : ℕ) :
    ∃ r, findNewBin newBins id iOld = some r ∧
      ∀ j, r = some j ↔ ∃ h : j < newBins.length, newBins[j].id = id := by
  by_cases hn : newBins.length = 0
  · refine ⟨none, by rw [findNewBin, if_neg (not_not.mpr hn)], fun j => ⟨(fun h => nomatch h), ?_⟩⟩
    rintro ⟨h, -⟩
    omega
  have hidAt : ∀ j (h : j < newBins.length), idAt newBins id j = true ↔ newBins[j].id = id := by
    intro j h
    rw [idAt, List.getElem?_eq_getElem h, Option.any_some, beq_iff_eq]
  have huniq : ∀ a b, a < newBins.length → b < newBins.length → idAt newBins id a = true →
      idAt newBins id b = true → a = b := by
    intro a b ha hb hpa hpb
    have ha' : a < (newBins.map (·.id)).length := by simpa using ha
    have hb' : b < (newBins.map (·.id)).length := by simpa using hb
    have hab : (newBins.map (·.id))[a] = (newBins.map (·.id))[b] := by
      simp only [List.getElem_map, (hidAt a ha).mp hpa, (hidAt b hb).mp hpb]
    exact (List.Nodup.getElem_inj_iff hnd).mp hab
  refine ⟨_, findNewBin_eq iOld hn, fun j => ?_⟩
  rw [find?_perm_range (searchOrder_perm iOld hn) huniq]
  exact ⟨fun ⟨h, hp⟩ => ⟨h, (hidAt j h).mp hp⟩, fun ⟨h, hp⟩ => ⟨h, (hidAt j h).mpr hp⟩⟩

end Search

/-! ### The requests are the bin diff -/

section Diff

variable [DecidableEq P] {newBins : List (AsBin P)}

/-- New bin `j` has the id of a bin of `bins`. -/
def markedBy (newBins bins : List (AsBin P)) (j : ℕ) : Bool :=
  (newBins[j]?).any fun bNew => bins.any (·.id == bNew.id)

omit [DecidableEq P] in
theorem find?_id_eq (hnd : (newBins.map (·.id)).Nodup) {j : ℕ} (hj : j < newBins.length) :
    newBins.find? (·.id == newBins[j].id) = some newBins[j] := by
  cases hfind : newBins.find? (·.id == newBins[j].id) with
  | none =>
    exact absurd (by simp) (List.find?_eq_none.mp hfind _ (List.getElem_mem hj))
  | some b =>
    have hid : b.id = newBins[j].id := by simpa using List.find?_some hfind
    rw [List.inj_on_of_nodup_map hnd (List.mem_of_find?_eq_some hfind) (List.getElem_mem hj) hid]

omit [DecidableEq P] in
theorem find?_id_none {id : ℕ} (h : ∀ j (hj : j < newBins.length), newBins[j].id ≠ id) :
    newBins.find? (·.id == id) = none := by
  rw [List.find?_eq_none]
  intro b hb
  obtain ⟨j, hj, rfl⟩ := List.getElem_of_mem hb
  simpa using h j hj

theorem oldBinsLoop_eq (hnd : (newBins.map (·.id)).Nodup) :
    ∀ (rest : List (AsBin P)) (iOld : ℕ) (reqs : List (SbinRequest P)) (marks : ℕ → Bool),
      oldBinsLoop newBins iOld rest reqs marks =
        some (reqs ++ rest.filterMap (oldBinDiff newBins),
          fun j => marks j || markedBy newBins rest j)
  | [], _, reqs, marks => by
    rw [oldBinsLoop, List.filterMap_nil, List.append_nil]
    congr
    funext j
    cases h : newBins[j]? <;> simp [markedBy, h]
  | bOld :: rest, iOld, reqs, marks => by
    obtain ⟨r, hr, hspec⟩ := findNewBin_spec bOld.id hnd iOld
    rw [oldBinsLoop, hr, Option.bind_some]
    cases r with
    | none =>
      have hnone : ∀ j (hj : j < newBins.length), newBins[j].id ≠ bOld.id :=
        fun j hj hid => nomatch (hspec j).mpr ⟨hj, hid⟩
      dsimp only
      rw [oldBinsLoop_eq hnd rest, List.filterMap_cons, oldBinDiff, find?_id_none hnone]
      simp only [Option.some.injEq, Prod.mk.injEq]
      refine ⟨by simp, ?_⟩
      · funext j
        cases h : newBins[j]? with
        | none => simp [markedBy, h]
        | some bNew =>
          obtain ⟨hj, hb⟩ := List.getElem?_eq_some_iff.mp h
          have hne : (bOld.id == bNew.id) = false := by
            rw [beq_eq_false_iff_ne]
            exact fun hid => hnone j hj (hb ▸ hid.symm)
          simp [markedBy, h, hne]
    | some iNew =>
      obtain ⟨hi, hid⟩ := (hspec iNew).mp rfl
      have hfind := find?_id_eq hnd hi
      rw [hid] at hfind
      simp only [List.getElem?_eq_getElem hi, Option.bind_some]
      rw [oldBinsLoop_eq hnd rest, List.filterMap_cons, oldBinDiff, hfind]
      simp only [Option.some.injEq, Prod.mk.injEq]
      refine ⟨by split_ifs <;> simp, ?_⟩
      · funext j
        by_cases hj : j = iNew
        · subst hj
          simp [markedBy, List.getElem?_eq_getElem hi, hid]
        · rw [Function.update_of_ne hj]
          cases h : newBins[j]? with
          | none => simp [markedBy, h]
          | some bNew =>
            obtain ⟨hjn, hb⟩ := List.getElem?_eq_some_iff.mp h
            have hne : (bOld.id == bNew.id) = false := by
              rw [beq_eq_false_iff_ne]
              exact fun hid' => hj (Option.some_inj.mp ((hspec j).mpr ⟨hjn, hb ▸ hid'.symm⟩)).symm
            simp [markedBy, h, hne]

omit [DecidableEq P] in
theorem createdLoop_eq (marks : ℕ → Bool) (q : AsBin P → Bool) :
    ∀ (bins : List (AsBin P)) (iNew : ℕ), (∀ i (h : i < bins.length), marks (iNew + i) = q bins[i]) →
      createdLoop marks iNew bins = (bins.filter fun b => !q b).map .insert
  | [], _, _ => rfl
  | b :: bins, iNew, h => by
    have hrest : ∀ i (hi : i < bins.length), marks (iNew + 1 + i) = q bins[i] := fun i hi => by
      rw [Nat.add_assoc, Nat.add_comm 1 i, h (i + 1) (by simpa using hi)]
      rfl
    rw [createdLoop, List.filter_cons, createdLoop_eq marks q bins (iNew + 1) hrest]
    have hb : marks iNew = q b := h 0 (Nat.zero_lt_succ _)
    cases hq : q b <;> simp [hb, hq]

/-- On new bins of distinct ids, `write_sindex_update` asks for exactly the bin
diff, and reports whether those requests filled any sbin. -/
theorem writeSindexUpdate_eq_binDiff (sbinCount : SbinRequest P → ℕ) (oldBins : List (AsBin P))
    (hnd : (newBins.map (·.id)).Nodup) :
    writeSindexUpdate sbinCount oldBins newBins =
      some (binDiff oldBins newBins, decide (((binDiff oldBins newBins).map sbinCount).sum ≠ 0)) := by
  have hcreated : createdLoop (fun j => false || markedBy newBins oldBins j) 0 newBins =
      (newBins.filter fun bNew => !oldBins.any (·.id == bNew.id)).map .insert :=
    createdLoop_eq _ _ newBins 0 fun i hi => by simp [markedBy, List.getElem?_eq_getElem hi]
  rw [writeSindexUpdate, oldBinsLoop_eq hnd oldBins 0 [] fun _ => false, Option.map_some]
  dsimp only
  rw [hcreated, List.nil_append]
  rfl

/-- Three old bins and three new ones: bin `1` unchanged, bin `2` deleted, bin
`3` changed and bin `4` created. -/
def oldThree : List (AsBin ℕ) := [⟨1, 1, 0⟩, ⟨2, 1, 0⟩, ⟨3, 1, 0⟩]

def newThree : List (AsBin ℕ) := [⟨3, 1, 5⟩, ⟨1, 1, 0⟩, ⟨4, 1, 0⟩]

example : binDiff oldThree newThree =
    [.delete ⟨2, 1, 0⟩, .populate ⟨3, 1, 0⟩ ⟨3, 1, 5⟩, .insert ⟨4, 1, 0⟩] := by
  decide

theorem writeSindexUpdate_eq_binDiff_three :
    (newThree.map (·.id)).Nodup ∧
      writeSindexUpdate (fun _ => 1) oldThree newThree =
        some (binDiff oldThree newThree,
          decide (((binDiff oldThree newThree).map fun _ => 1).sum ≠ 0)) :=
  ⟨by decide, writeSindexUpdate_eq_binDiff (fun _ => 1) oldThree (by decide)⟩

end Diff

end Aerospike.Transaction
