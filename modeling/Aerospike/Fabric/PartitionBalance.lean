import Aerospike.Lib.Word

/-! # Partition node sequences and rack-aware rows

`partition_balance.c` orders the nodes of the succession list for each
partition: each node's hash with the partition, with the node's succession
position overlaid on its low bits, sorted descending. A namespace on a subset
of the nodes filters the global row through a translation from succession
positions to namespace positions. In rack-aware mode a namespace row is then
adjusted so that the first replicas sit on distinct racks.

The hash functions `cf_hash_fnv64` and `cf_hash_jen64` belong to the common
library; they are parameters here, so every result holds for any hash. `qsort`
is `List.mergeSort` with the comparator's order: its keys are distinct, or
equal only as equal values, so every sort gives the same list.
-/

namespace Aerospike.PartitionBalance

/-- `cf_node`: a node id. -/
abbrev CfNode := UInt64

def asClusterSz : ℕ := 128

/-- `AS_CLUSTER_SZ_MASKP`: `-(uint64_t)AS_CLUSTER_SZ`. -/
def asClusterSzMaskp : UInt64 := -asClusterSz.toUInt64

def asClusterSzMaskn : UInt64 := asClusterSz.toUInt64 - 1

/-- `qsort` with `cf_node_compare_desc` (and `cf_compare_uint32_desc`): largest first. -/
def sortDesc {α : Type} [LE α] [DecidableLE α] (l : List α) : List α :=
  l.mergeSort fun a b => decide (b ≤ a)

theorem sortDesc_pairwise {α : Type} [LE α] [DecidableLE α]
    (htrans : ∀ a b c : α, a ≤ b → b ≤ c → a ≤ c) (htotal : ∀ a b : α, a ≤ b ∨ b ≤ a)
    (l : List α) : (sortDesc l).Pairwise fun a b => b ≤ a :=
  (List.pairwise_mergeSort
    (fun a b c hab hbc => by
      simp only [decide_eq_true_eq] at hab hbc ⊢
      exact htrans c b a hbc hab)
    (fun a b => by
      simp only [Bool.or_eq_true, decide_eq_true_eq]
      exact htotal b a) l).imp fun h => of_decide_eq_true h

/-! ### Global tables -/

section Global

variable (fnv : CfNode → UInt64) (jen : UInt64 → UInt64 → UInt64) (hashedPid : UInt64)

/-- The value `fill_global_tables` sorts for succession position `n`:
`cf_hash_jen64` of the partition's and the node's hashes, with the position
overlaid on the bits below `AS_CLUSTER_SZ`. -/
def nodeKey (succession : List CfNode) (n : ℕ) : UInt64 :=
  (jen hashedPid (fnv (succession.getD n 0)) &&& asClusterSzMaskp) + n.toUInt64

def hashedRow (succession : List CfNode) : List UInt64 :=
  (List.range succession.length).map (nodeKey fnv jen hashedPid succession)

def slIxOf (v : UInt64) : ℕ := (v &&& asClusterSzMaskn).toNat

/-- `FULL_SL_IX(pid, .)` after `fill_global_tables`. -/
def fullSlIx (succession : List CfNode) : List ℕ :=
  (sortDesc (hashedRow fnv jen hashedPid succession)).map slIxOf

/-- `FULL_NODE_SEQ(pid, .)` after `fill_global_tables`: the sorted values
overwritten by the nodes of their succession positions. -/
def fullNodeSeq (succession : List CfNode) : List CfNode :=
  (fullSlIx fnv jen hashedPid succession).map fun slIx => succession.getD slIx 0

end Global

section GlobalRows

variable {fnv : CfNode → UInt64} {jen : UInt64 → UInt64 → UInt64} {hashedPid : UInt64}
  {succession : List CfNode}

def hashHigh (fnv : CfNode → UInt64) (jen : UInt64 → UInt64 → UInt64) (hashedPid : UInt64)
    (node : CfNode) : ℕ :=
  (jen hashedPid (fnv node)).toNat / asClusterSz

theorem toNat_nodeKey {n : ℕ} (hn : n < asClusterSz) :
    (nodeKey fnv jen hashedPid succession n).toNat =
      hashHigh fnv jen hashedPid (succession.getD n 0) * asClusterSz + n := by
  have hmask : asClusterSzMaskp.toNat = 2 ^ 64 - 2 ^ 7 := rfl
  have hx := (jen hashedPid (fnv (succession.getD n 0))).toNat_lt
  have hn' : n.toUInt64.toNat = n := UInt64.toNat_ofNat_of_lt' (Nat.lt_of_lt_of_le hn (by decide))
  rw [nodeKey, UInt64.toNat_add, UInt64.toNat_and, hmask, Word.and_two_pow_sub_two_pow hx (by omega),
    hn', hashHigh]
  unfold asClusterSz at hn ⊢
  omega

theorem slIxOf_nodeKey {n : ℕ} (hn : n < asClusterSz) :
    slIxOf (nodeKey fnv jen hashedPid succession n) = n := by
  have hmask : asClusterSzMaskn.toNat = 2 ^ 7 - 1 := rfl
  rw [slIxOf, UInt64.toNat_and, hmask, Nat.and_two_pow_sub_one_eq_mod, toNat_nodeKey hn]
  unfold asClusterSz at hn ⊢
  omega

theorem nodeKey_lt_iff {i j : ℕ} (hi : i < asClusterSz) (hj : j < asClusterSz) :
    nodeKey fnv jen hashedPid succession i < nodeKey fnv jen hashedPid succession j ↔
      hashHigh fnv jen hashedPid (succession.getD i 0) <
          hashHigh fnv jen hashedPid (succession.getD j 0) ∨
        hashHigh fnv jen hashedPid (succession.getD i 0) =
          hashHigh fnv jen hashedPid (succession.getD j 0) ∧ i < j := by
  rw [UInt64.lt_iff_toNat_lt, toNat_nodeKey hi, toNat_nodeKey hj]
  unfold asClusterSz at hi hj ⊢
  omega


theorem hashedRow_nodup (hsz : succession.length ≤ asClusterSz) :
    (hashedRow fnv jen hashedPid succession).Nodup := by
  apply List.Nodup.map_on _ List.nodup_range
  intro i hi j hj hij
  rw [List.mem_range] at hi hj
  rw [← slIxOf_nodeKey (Nat.lt_of_lt_of_le hi hsz), hij, slIxOf_nodeKey (Nat.lt_of_lt_of_le hj hsz)]

theorem sortDesc_pairwise_lt {l : List UInt64} (hl : l.Nodup) :
    (sortDesc l).Pairwise fun a b => b < a := by
  have hle := sortDesc_pairwise (fun _ _ _ => UInt64.le_trans) UInt64.le_total l
  have hnd : (sortDesc l).Nodup := (List.mergeSort_perm l _).nodup_iff.mpr hl
  exact (hle.and hnd).imp fun {a b} ⟨hba, hne⟩ => UInt64.lt_of_le_of_ne hba (Ne.symm hne)

theorem fullSlIx_perm (hsz : succession.length ≤ asClusterSz) :
    (fullSlIx fnv jen hashedPid succession).Perm (List.range succession.length) := by
  have hrow : (hashedRow fnv jen hashedPid succession).map slIxOf = List.range succession.length := by
    rw [hashedRow, List.map_map]
    conv => rhs; rw [← List.map_id (List.range succession.length)]
    apply List.map_congr_left
    intro n hn
    exact slIxOf_nodeKey (Nat.lt_of_lt_of_le (List.mem_range.mp hn) hsz)
  rw [fullSlIx, ← hrow]
  exact (List.mergeSort_perm _ _).map slIxOf

theorem fullSlIx_pairwise (hsz : succession.length ≤ asClusterSz) :
    (fullSlIx fnv jen hashedPid succession).Pairwise fun a b =>
      nodeKey fnv jen hashedPid succession b < nodeKey fnv jen hashedPid succession a := by
  have hkey : ∀ v ∈ sortDesc (hashedRow fnv jen hashedPid succession),
      nodeKey fnv jen hashedPid succession (slIxOf v) = v := by
    intro v hv
    obtain ⟨n, hn, rfl⟩ := List.mem_map.mp ((List.mergeSort_perm _ _).subset hv)
    rw [slIxOf_nodeKey (Nat.lt_of_lt_of_le (List.mem_range.mp hn) hsz)]
  rw [fullSlIx, List.pairwise_map]
  refine (sortDesc_pairwise_lt (hashedRow_nodup hsz)).imp_of_mem fun {a b} ha hb hab => ?_
  rw [hkey a ha, hkey b hb]
  exact hab

end GlobalRows

/-! ### Namespace rows -/

/-- The loop of `fill_translation` from succession position `full_n` on, with
`ns_n` namespace nodes matched so far. -/
def fillTranslationFrom (nsSuccession : List CfNode) : List CfNode → ℕ → List Int
  | [], _ => []
  | node :: rest, nsN =>
    if nsN < nsSuccession.length ∧ node = nsSuccession.getD nsN 0 then
      (nsN : Int) :: fillTranslationFrom nsSuccession rest (nsN + 1)
    else -1 :: fillTranslationFrom nsSuccession rest nsN

/-- `fill_translation`: each succession position's namespace position, or `-1`. -/
def fillTranslation (succession nsSuccession : List CfNode) : List Int :=
  fillTranslationFrom nsSuccession succession 0

def translateIx (translation : List Int) (slIx : ℕ) : Option ℕ :=
  if translation.getD slIx (-1) = -1 then none else some (translation.getD slIx (-1)).toNat

/-- `fill_namespace_rows`: `ns_node_seq` and `ns_sl_ix` of one partition. -/
def fillNamespaceRows (fullNodeSeq : List CfNode) (fullSlIx : List ℕ) (gClusterSize : ℕ)
    (nsSuccession : List CfNode) (translation : List Int) : List CfNode × List ℕ :=
  if nsSuccession.length = gClusterSize then (fullNodeSeq, fullSlIx)
  else
    ((fullSlIx.filterMap (translateIx translation)).map fun nsN => nsSuccession.getD nsN 0,
      fullSlIx.filterMap (translateIx translation))

section Translation

variable {succession nsSuccession : List CfNode}

theorem length_fillTranslationFrom :
    ∀ (rest : List CfNode) (nsN : ℕ), (fillTranslationFrom nsSuccession rest nsN).length = rest.length
  | [], _ => rfl
  | node :: rest, nsN => by
    unfold fillTranslationFrom
    split <;> simp [length_fillTranslationFrom rest]

@[simp] theorem length_fillTranslation :
    (fillTranslation succession nsSuccession).length = succession.length :=
  length_fillTranslationFrom succession 0

theorem mem_fillTranslationFrom :
    ∀ (rest : List CfNode) (nsN : ℕ), ∀ x ∈ fillTranslationFrom nsSuccession rest nsN,
      x = -1 ∨ (nsN ≤ x ∧ x < nsSuccession.length)
  | [], _, x, hx => by simp [fillTranslationFrom] at hx
  | node :: rest, nsN, x, hx => by
    unfold fillTranslationFrom at hx
    split at hx
    · next h =>
      rcases List.mem_cons.mp hx with rfl | hx
      · exact Or.inr ⟨le_rfl, by exact_mod_cast h.1⟩
      · rcases mem_fillTranslationFrom rest (nsN + 1) x hx with h' | h'
        · exact Or.inl h'
        · exact Or.inr ⟨by omega, h'.2⟩
    · rcases List.mem_cons.mp hx with rfl | hx
      · exact Or.inl rfl
      · exact mem_fillTranslationFrom rest nsN x hx

theorem fillTranslationFrom_pairwise : ∀ (rest : List CfNode) (nsN : ℕ),
    (fillTranslationFrom nsSuccession rest nsN).Pairwise fun x y => x ≠ -1 → y ≠ -1 → x < y
  | [], _ => List.Pairwise.nil
  | node :: rest, nsN => by
    unfold fillTranslationFrom
    split
    · refine List.Pairwise.cons (fun y hy _ hy' => ?_) (fillTranslationFrom_pairwise rest (nsN + 1))
      rcases mem_fillTranslationFrom rest (nsN + 1) y hy with h | h
      · exact absurd h hy'
      · omega
    · exact List.Pairwise.cons (fun _ _ h => absurd rfl h) (fillTranslationFrom_pairwise rest nsN)

theorem getD_fillTranslationFrom : ∀ (rest : List CfNode) (nsN i : ℕ),
    (fillTranslationFrom nsSuccession rest nsN).getD i (-1) ≠ -1 →
      rest.getD i 0 = nsSuccession.getD ((fillTranslationFrom nsSuccession rest nsN).getD i (-1)).toNat 0
  | [], _, _, h => absurd rfl h
  | node :: rest, nsN, i, h => by
    unfold fillTranslationFrom at h ⊢
    split
    · next hm =>
      rw [if_pos hm] at h
      cases i with
      | zero => simpa using hm.2
      | succ i => simpa using getD_fillTranslationFrom rest (nsN + 1) i (by simpa using h)
    · next hm =>
      rw [if_neg hm] at h
      cases i with
      | zero => simp at h
      | succ i => simpa using getD_fillTranslationFrom rest nsN i (by simpa using h)


theorem fillTranslationFrom_filterMap : ∀ (rest : List CfNode) (nsN : ℕ),
    (nsSuccession.drop nsN).Sublist rest →
      (fillTranslationFrom nsSuccession rest nsN).filterMap
          (fun x => if x = -1 then none else some x.toNat) =
        List.range' nsN (nsSuccession.length - nsN)
  | [], nsN, h => by
    have hle : nsSuccession.length ≤ nsN := by
      simpa using List.eq_nil_of_sublist_nil h
    rw [Nat.sub_eq_zero_of_le hle]
    rfl
  | node :: rest, nsN, h => by
    unfold fillTranslationFrom
    split
    · next hm =>
      have hd : nsSuccession.drop nsN = nsSuccession[nsN] :: nsSuccession.drop (nsN + 1) :=
        List.drop_eq_getElem_cons hm.1
      have hnode : nsSuccession[nsN] = node := by
        rw [← List.getD_eq_getElem _ 0 hm.1]
        exact hm.2.symm
      rw [hd, hnode, List.cons_sublist_cons] at h
      obtain ⟨k, hk⟩ : ∃ k, nsSuccession.length - nsN = k + 1 :=
        ⟨_, (Nat.sub_one_add_one (by omega)).symm⟩
      rw [List.filterMap_cons, if_neg (by omega), fillTranslationFrom_filterMap rest (nsN + 1) h,
        hk, List.range'_succ, show nsSuccession.length - (nsN + 1) = k by omega]
      rfl
    · next hm =>
      have h' : (nsSuccession.drop nsN).Sublist rest := by
        by_cases hlt : nsN < nsSuccession.length
        · have hd : nsSuccession.drop nsN = nsSuccession[nsN] :: nsSuccession.drop (nsN + 1) :=
            List.drop_eq_getElem_cons hlt
          rw [hd] at h ⊢
          rcases List.sublist_cons_iff.mp h with h | ⟨l, hl, h⟩
          · exact h
          · obtain ⟨rfl, rfl⟩ := List.cons_eq_cons.mp hl
            exact absurd ⟨hlt, (List.getD_eq_getElem _ _ hlt).symm⟩ hm
        · rw [List.drop_of_length_le (by omega)]
          exact List.nil_sublist rest
      rw [List.filterMap_cons, if_pos rfl, fillTranslationFrom_filterMap rest nsN h']

theorem filterMap_translateIx (h : nsSuccession.Sublist succession) :
    (List.range succession.length).filterMap (translateIx (fillTranslation succession nsSuccession)) =
      List.range nsSuccession.length := by
  have hT : (List.range succession.length).map
      (fun i => (fillTranslation succession nsSuccession).getD i (-1)) =
        fillTranslation succession nsSuccession := by
    apply List.ext_getElem (by simp)
    intro i h1 h2
    simp only [List.getElem_map, List.getElem_range]
    exact List.getD_eq_getElem _ _ h2
  have hx : translateIx (fillTranslation succession nsSuccession) =
      (fun x => if x = -1 then none else some x.toNat) ∘
        (fun i => (fillTranslation succession nsSuccession).getD i (-1)) := rfl
  rw [hx, ← List.filterMap_map, hT, fillTranslation,
    fillTranslationFrom_filterMap succession 0 (by simpa using h), List.range_eq_range']
  rfl


theorem getD_fillTranslation {i : ℕ}
    (hne : (fillTranslation succession nsSuccession).getD i (-1) ≠ -1) :
    i < succession.length ∧ 0 ≤ (fillTranslation succession nsSuccession).getD i (-1) ∧
      (fillTranslation succession nsSuccession).getD i (-1) < nsSuccession.length := by
  have hi : i < (fillTranslation succession nsSuccession).length := by
    by_contra hge
    exact hne (List.getD_eq_default _ _ (Nat.le_of_not_lt hge))
  have hmem := mem_fillTranslationFrom succession 0 _ (List.getElem_mem hi)
  rw [← List.getD_eq_getElem _ (-1) hi] at hmem
  refine ⟨by rw [length_fillTranslation] at hi; exact hi, ?_⟩
  rcases hmem with h | h
  · exact absurd h hne
  · exact ⟨by exact_mod_cast h.1, h.2⟩

theorem translateIx_eq_some {translation : List Int} {i a : ℕ} :
    translateIx translation i = some a ↔
      translation.getD i (-1) ≠ -1 ∧ (translation.getD i (-1)).toNat = a := by
  unfold translateIx
  split <;> simp_all

theorem translateIx_spec {i a : ℕ}
    (h : translateIx (fillTranslation succession nsSuccession) i = some a) :
    i < succession.length ∧ a < nsSuccession.length ∧
      succession.getD i 0 = nsSuccession.getD a 0 := by
  obtain ⟨hne, rfl⟩ := translateIx_eq_some.mp h
  obtain ⟨hi, h0, hlt⟩ := getD_fillTranslation hne
  exact ⟨hi, by omega, getD_fillTranslationFrom succession 0 i hne⟩

theorem translateIx_lt {i i' a b : ℕ} (hii : i < i')
    (ha : translateIx (fillTranslation succession nsSuccession) i = some a)
    (hb : translateIx (fillTranslation succession nsSuccession) i' = some b) : a < b := by
  obtain ⟨hne, rfl⟩ := translateIx_eq_some.mp ha
  obtain ⟨hne', rfl⟩ := translateIx_eq_some.mp hb
  obtain ⟨-, h0, -⟩ := getD_fillTranslation hne
  obtain ⟨hi', h0', -⟩ := getD_fillTranslation hne'
  have hp := List.pairwise_iff_getElem.mp (show (fillTranslation succession nsSuccession).Pairwise
    (fun x y => x ≠ -1 → y ≠ -1 → x < y) from fillTranslationFrom_pairwise succession 0)
    i i' (by rw [length_fillTranslation]; omega) (by rw [length_fillTranslation]; exact hi') hii
  rw [← List.getD_eq_getElem _ (-1), ← List.getD_eq_getElem _ (-1)] at hp
  have := hp hne hne'
  omega

end Translation

section Namespace

variable {fnv : CfNode → UInt64} {jen : UInt64 → UInt64 → UInt64} {hashedPid : UInt64}
  {succession nsSuccession : List CfNode}

/-- The global row filtered to the namespace is in decreasing order of the
namespace's own hashed values: the hashes agree, and so do the tie-breaks,
because the translation keeps the succession order. -/
theorem filterMap_translateIx_pairwise (hsz : succession.length ≤ asClusterSz)
    (hsub : nsSuccession.Sublist succession) :
    ((fullSlIx fnv jen hashedPid succession).filterMap
        (translateIx (fillTranslation succession nsSuccession))).Pairwise fun a b =>
      nodeKey fnv jen hashedPid nsSuccession b < nodeKey fnv jen hashedPid nsSuccession a := by
  have hsz' := Nat.le_trans hsub.length_le hsz
  refine (fullSlIx_pairwise hsz).filterMap _ fun i i' hlt a ha b hb => ?_
  obtain ⟨hi, hai, hnode⟩ := translateIx_spec (Option.mem_def.mp ha)
  obtain ⟨hi', hbi, hnode'⟩ := translateIx_spec (Option.mem_def.mp hb)
  rw [nodeKey_lt_iff (Nat.lt_of_lt_of_le hi' hsz) (Nat.lt_of_lt_of_le hi hsz), hnode, hnode'] at hlt
  rw [nodeKey_lt_iff (Nat.lt_of_lt_of_le hbi hsz') (Nat.lt_of_lt_of_le hai hsz')]
  rcases hlt with hlt | ⟨heq, hii⟩
  · exact Or.inl hlt
  · exact Or.inr ⟨heq, translateIx_lt hii (Option.mem_def.mp hb) (Option.mem_def.mp ha)⟩

theorem fillNamespaceRows_eq_fill_global (fnv : CfNode → UInt64)
    (jen : UInt64 → UInt64 → UInt64) (hashedPid : UInt64) (succession nsSuccession : List CfNode)
    (hsz : succession.length ≤ asClusterSz) (hsub : nsSuccession.Sublist succession) :
    (fullSlIx fnv jen hashedPid succession).Perm (List.range succession.length) ∧
      fullNodeSeq fnv jen hashedPid succession =
        (fullSlIx fnv jen hashedPid succession).map (succession.getD · 0) ∧
      fillNamespaceRows (fullNodeSeq fnv jen hashedPid succession)
          (fullSlIx fnv jen hashedPid succession) succession.length nsSuccession
          (fillTranslation succession nsSuccession) =
        (fullNodeSeq fnv jen hashedPid nsSuccession, fullSlIx fnv jen hashedPid nsSuccession) := by
  have hsz' := Nat.le_trans hsub.length_le hsz
  refine ⟨fullSlIx_perm hsz, rfl, ?_⟩
  unfold fillNamespaceRows
  split
  · next heq =>
    obtain rfl := hsub.eq_of_length heq
    rfl
  · have hperm : ((fullSlIx fnv jen hashedPid succession).filterMap
        (translateIx (fillTranslation succession nsSuccession))).Perm
          (fullSlIx fnv jen hashedPid nsSuccession) := by
      refine ((fullSlIx_perm hsz).filterMap _).trans ?_
      rw [filterMap_translateIx hsub]
      exact (fullSlIx_perm hsz').symm
    have hrow := hperm.eq_of_pairwise (fun a b _ _ hab hba => absurd hba (UInt64.lt_asymm hab))
      (filterMap_translateIx_pairwise hsz hsub) (fullSlIx_pairwise hsz')
    rw [hrow]
    rfl

def sampleJen (hashedPid hashedNode : UInt64) : UInt64 := hashedPid * 31 + hashedNode * 0x9E3779B97F4A7C15

theorem fillNamespaceRows_eq_fill_global_three :
    [5, 9, 7].length ≤ asClusterSz ∧ [5, 7].Sublist ([5, 9, 7] : List CfNode) ∧
      ((fullSlIx id sampleJen 3 [5, 9, 7]).Perm (List.range [5, 9, 7].length) ∧
        fullNodeSeq id sampleJen 3 [5, 9, 7] =
          (fullSlIx id sampleJen 3 [5, 9, 7]).map ([5, 9, 7].getD · 0) ∧
        fillNamespaceRows (fullNodeSeq id sampleJen 3 [5, 9, 7]) (fullSlIx id sampleJen 3 [5, 9, 7])
            [5, 9, 7].length [5, 7] (fillTranslation [5, 9, 7] [5, 7]) =
          (fullNodeSeq id sampleJen 3 [5, 7], fullSlIx id sampleJen 3 [5, 7])) :=
  ⟨by decide, by decide,
    fillNamespaceRows_eq_fill_global id sampleJen 3 [5, 9, 7] [5, 7] (by decide) (by decide)⟩

end Namespace

/-! ### Rack-aware rows -/

/-- `RACK_ID(n)`: the rack id of the node at row position `n`. -/
def rackIdAt (nsSlIx : List ℕ) (rackIds : List UInt32) (n : ℕ) : UInt32 :=
  rackIds.getD (nsSlIx.getD n 0) 0

/-- `is_rack_distinct_before_n`: no row position below `n` is in rack `rackId`. -/
def isRackDistinctBeforeN (nsSlIx : List ℕ) (rackIds : List UInt32) (rackId : UInt32) (n : ℕ) :
    Bool :=
  (List.range n).all fun curN => rackIdAt nsSlIx rackIds curN != rackId

/-- The `while` loop of `rack_aware_adjust_row`: the first position from
`next_n` on whose rack is distinct before `cur_n`, and `next_n` after it. -/
def findSwapN (nsSlIx : List ℕ) (rackIds : List UInt32) (nIds curN nextN : ℕ) : Option ℕ × ℕ :=
  if nextN < nIds then
    if isRackDistinctBeforeN nsSlIx rackIds (rackIdAt nsSlIx rackIds nextN) curN then
      (some nextN, nextN + 1)
    else findSwapN nsSlIx rackIds nIds curN (nextN + 1)
  else (none, nextN)
termination_by nIds - nextN

/-- Exchanging row positions `curN` and `swapN`, as the temporaries of
`rack_aware_adjust_row` do. -/
def swapPositions {α : Type} (l : List α) (d : α) (curN swapN : ℕ) : List α :=
  (l.set swapN (l.getD curN d)).set curN (l.getD swapN d)

/-- The `for` loop of `rack_aware_adjust_row` from `cur_n` on; `none` is its
`cf_crash`, when no swap candidate is left. -/
def rackAwareAdjustLoop (rackIds : List UInt32) (nIds nNeeded : ℕ) (curN nextN : ℕ)
    (nsNodeSeq : List CfNode) (nsSlIx : List ℕ) : Option (List CfNode × List ℕ) :=
  if curN < nNeeded then
    if isRackDistinctBeforeN nsSlIx rackIds (rackIdAt nsSlIx rackIds curN) curN then
      rackAwareAdjustLoop rackIds nIds nNeeded (curN + 1) nextN nsNodeSeq nsSlIx
    else
      match findSwapN nsSlIx rackIds nIds curN nextN with
      | (none, _) => none
      | (some swapN, nextN') =>
        rackAwareAdjustLoop rackIds nIds nNeeded (curN + 1) nextN'
          (swapPositions nsNodeSeq 0 curN swapN) (swapPositions nsSlIx 0 curN swapN)
  else some (nsNodeSeq, nsSlIx)
termination_by nNeeded - curN

/-- `rack_aware_adjust_row`: the adjusted `ns_node_seq` and `ns_sl_ix`. -/
def rackAwareAdjustRow (nsNodeSeq : List CfNode) (nsSlIx : List ℕ) (replicationFactor : ℕ)
    (rackIds : List UInt32) (nIds nRacks startN : ℕ) : Option (List CfNode × List ℕ) :=
  rackAwareAdjustLoop rackIds nIds (if nRacks < replicationFactor then nRacks else replicationFactor)
    startN (if nRacks < replicationFactor then nRacks else replicationFactor) nsNodeSeq nsSlIx

/-- The loop of `rack_count` over the sorted ids after the current one. -/
def countRacks (curId : UInt32) : List UInt32 → ℕ
  | [] => 0
  | id :: ids => if id ≠ curId then countRacks id ids + 1 else countRacks curId ids

/-- `rack_count`: the number of distinct rack ids of a namespace's nodes. -/
def rackCount (rackIds : List UInt32) : ℕ :=
  if (sortDesc rackIds).head? = (sortDesc rackIds).getLast? then 1
  else countRacks ((sortDesc rackIds).headD 0) (sortDesc rackIds).tail + 1

section Swap

variable {α : Type} {l : List α} {d : α} {curN swapN : ℕ}

@[simp] theorem length_swapPositions : (swapPositions l d curN swapN).length = l.length := by
  simp [swapPositions]

theorem getD_swapPositions (hc : curN < l.length) (hs : swapN < l.length) (k : ℕ) :
    (swapPositions l d curN swapN).getD k d =
      l.getD (if k = curN then swapN else if k = swapN then curN else k) d := by
  unfold swapPositions
  simp only [List.getD_eq_getElem?_getD, List.getElem?_set, List.length_set]
  by_cases hk : k = curN
  · subst hk
    simp [hc]
  · by_cases hks : k = swapN
    · subst hks
      simp [hk, hs, Ne.symm hk]
    · simp [hk, hks, Ne.symm hk, Ne.symm hks]

theorem swapPositions_perm [DecidableEq α] (hc : curN < l.length) (hs : swapN < l.length) :
    (swapPositions l d curN swapN).Perm l := by
  rw [List.perm_iff_count]
  intro a
  unfold swapPositions
  rw [List.getD_eq_getElem _ _ hc, List.getD_eq_getElem _ _ hs,
    List.count_set (by simpa using hc), List.count_set hs, List.getElem_set, ite_self]
  have hpos : (if l[swapN] == a then 1 else 0) ≤ l.count a := by
    split
    · next h => exact List.count_pos_iff.mpr (by rw [← beq_iff_eq.mp h]; exact List.getElem_mem hs)
    · exact Nat.zero_le _
  omega

theorem swapPositions_map {β : Type} (f : α → β) (d' : β) (hc : curN < l.length)
    (hs : swapN < l.length) :
    swapPositions (l.map f) d' curN swapN = (swapPositions l d curN swapN).map f := by
  unfold swapPositions
  rw [List.map_set, List.map_set, List.getD_eq_getElem _ _ (by simpa using hc),
    List.getD_eq_getElem _ _ (by simpa using hs), List.getD_eq_getElem _ _ hc,
    List.getD_eq_getElem _ _ hs, List.getElem_map, List.getElem_map]

end Swap

section Racks

variable {nsSlIx : List ℕ} {rackIds : List UInt32}

theorem isRackDistinctBeforeN_iff {rackId : UInt32} {n : ℕ} :
    isRackDistinctBeforeN nsSlIx rackIds rackId n = true ↔
      ∀ c < n, rackIdAt nsSlIx rackIds c ≠ rackId := by
  simp [isRackDistinctBeforeN]

theorem findSwapN_cases (nsSlIx : List ℕ) (rackIds : List UInt32) (nIds curN : ℕ) : ∀ nextN,
    (∃ j, findSwapN nsSlIx rackIds nIds curN nextN = (some j, j + 1) ∧ nextN ≤ j ∧ j < nIds ∧
      isRackDistinctBeforeN nsSlIx rackIds (rackIdAt nsSlIx rackIds j) curN = true ∧
      ∀ k, nextN ≤ k → k < j →
        isRackDistinctBeforeN nsSlIx rackIds (rackIdAt nsSlIx rackIds k) curN = false) ∨
    ((findSwapN nsSlIx rackIds nIds curN nextN).1 = none ∧
      ∀ k, nextN ≤ k → k < nIds →
        isRackDistinctBeforeN nsSlIx rackIds (rackIdAt nsSlIx rackIds k) curN = false)
  | nextN => by
    rw [findSwapN]
    by_cases hn : nextN < nIds
    · rw [if_pos hn]
      by_cases hd : isRackDistinctBeforeN nsSlIx rackIds (rackIdAt nsSlIx rackIds nextN) curN = true
      · rw [if_pos hd]
        exact Or.inl ⟨nextN, rfl, le_rfl, hn, hd, fun k hk hk' => absurd hk' (by omega)⟩
      · rw [if_neg hd]
        rw [Bool.not_eq_true] at hd
        rcases findSwapN_cases nsSlIx rackIds nIds curN (nextN + 1) with ⟨j, hj, hle, hlt, hjd, hskip⟩ | ⟨hnone, hall⟩
        · refine Or.inl ⟨j, hj, by omega, hlt, hjd, fun k hk hkj => ?_⟩
          rcases Nat.eq_or_lt_of_le hk with rfl | hk
          · exact hd
          · exact hskip k hk hkj
        · refine Or.inr ⟨hnone, fun k hk hkn => ?_⟩
          rcases Nat.eq_or_lt_of_le hk with rfl | hk
          · exact hd
          · exact hall k hk hkn
    · rw [if_neg hn]
      exact Or.inr ⟨rfl, fun k hk hkn => absurd hkn (by omega)⟩
termination_by nextN => nIds - nextN


theorem rackIdAt_swapPositions (rackIds : List UInt32) {curN swapN : ℕ} (hc : curN < nsSlIx.length)
    (hs : swapN < nsSlIx.length) (k : ℕ) :
    rackIdAt (swapPositions nsSlIx 0 curN swapN) rackIds k =
      rackIdAt nsSlIx rackIds (if k = curN then swapN else if k = swapN then curN else k) := by
  rw [rackIdAt, rackIdAt, getD_swapPositions hc hs]

theorem rackIdAt_swapPositions_of_ne (rackIds : List UInt32) {curN swapN k : ℕ}
    (hc : curN < nsSlIx.length) (hs : swapN < nsSlIx.length) (hkc : k ≠ curN) (hks : k ≠ swapN) :
    rackIdAt (swapPositions nsSlIx 0 curN swapN) rackIds k = rackIdAt nsSlIx rackIds k := by
  rw [rackIdAt_swapPositions rackIds hc hs, if_neg hkc, if_neg hks]

theorem nodup_map_range_succ {f : ℕ → UInt32} {n : ℕ} :
    ((List.range (n + 1)).map f).Nodup ↔ ((List.range n).map f).Nodup ∧ ∀ c < n, f c ≠ f n := by
  rw [List.range_succ, List.map_append, List.nodup_append]
  simp only [List.map_cons, List.map_nil, List.nodup_cons, List.not_mem_nil, not_false_eq_true,
    List.nodup_nil, and_self, List.mem_map, List.mem_range, List.mem_cons, forall_exists_index,
    and_imp, true_and]
  constructor
  · rintro ⟨h, hne⟩
    exact ⟨h, fun c hc heq => hne _ c hc rfl _ (Or.inl rfl) heq⟩
  · rintro ⟨h, hne⟩
    refine ⟨h, fun _ c hc hfc _ hb hab => ?_⟩
    rcases hb with rfl | hb
    · exact hne c hc (hfc ▸ hab)
    · exact hb.elim

/-- The state of `rack_aware_adjust_row`'s loop at `cur_n`: the row is a
permutation of the original with position `0` kept, the racks below `cur_n`
are distinct, and every candidate passed over from `n_needed` to `next_n`
repeats one of them. -/
structure AdjustInv (rackIds : List UInt32) (nNeeded curN nextN : ℕ) (nsSlIx₀ nsSlIx : List ℕ) :
    Prop where
  perm : nsSlIx.Perm nsSlIx₀
  head_eq : nsSlIx[0]? = nsSlIx₀[0]?
  one_le : 1 ≤ curN
  cur_le : curN ≤ nNeeded
  needed_le : nNeeded ≤ nextN
  distinct : ((List.range curN).map (rackIdAt nsSlIx rackIds)).Nodup
  passed : ∀ k, nNeeded ≤ k → k < nextN →
    ∃ c < curN, rackIdAt nsSlIx rackIds c = rackIdAt nsSlIx rackIds k


theorem exists_of_isRackDistinctBeforeN_eq_false {rackId : UInt32} {n : ℕ}
    (h : isRackDistinctBeforeN nsSlIx rackIds rackId n = false) :
    ∃ c < n, rackIdAt nsSlIx rackIds c = rackId := by
  rw [← Bool.not_eq_true, isRackDistinctBeforeN_iff] at h
  by_contra hne
  exact h fun c hc heq => hne ⟨c, hc, heq⟩

section Step

variable {nNeeded curN nextN : ℕ} {nsSlIx₀ : List ℕ}

theorem AdjustInv.keep (inv : AdjustInv rackIds nNeeded curN nextN nsSlIx₀ nsSlIx)
    (hlt : curN < nNeeded)
    (hd : isRackDistinctBeforeN nsSlIx rackIds (rackIdAt nsSlIx rackIds curN) curN = true) :
    AdjustInv rackIds nNeeded (curN + 1) nextN nsSlIx₀ nsSlIx where
  perm := inv.perm
  head_eq := inv.head_eq
  one_le := by omega
  cur_le := hlt
  needed_le := inv.needed_le
  distinct := nodup_map_range_succ.mpr ⟨inv.distinct, isRackDistinctBeforeN_iff.mp hd⟩
  passed k hk hk' := by
    obtain ⟨c, hc, h⟩ := inv.passed k hk hk'
    exact ⟨c, by omega, h⟩

theorem AdjustInv.swap (inv : AdjustInv rackIds nNeeded curN nextN nsSlIx₀ nsSlIx)
    (hlt : curN < nNeeded)
    (hd : isRackDistinctBeforeN nsSlIx rackIds (rackIdAt nsSlIx rackIds curN) curN = false)
    {j : ℕ} (hj : nextN ≤ j) (hjn : j < nsSlIx.length)
    (hjd : isRackDistinctBeforeN nsSlIx rackIds (rackIdAt nsSlIx rackIds j) curN = true)
    (hskip : ∀ k, nextN ≤ k → k < j →
      isRackDistinctBeforeN nsSlIx rackIds (rackIdAt nsSlIx rackIds k) curN = false) :
    AdjustInv rackIds nNeeded (curN + 1) (j + 1) nsSlIx₀ (swapPositions nsSlIx 0 curN j) := by
  have hneed := inv.needed_le
  have hone := inv.one_le
  have hc : curN < nsSlIx.length := by omega
  have hkeep : ∀ k, k ≠ curN → k ≠ j →
      rackIdAt (swapPositions nsSlIx 0 curN j) rackIds k = rackIdAt nsSlIx rackIds k :=
    fun k hkc hkj => rackIdAt_swapPositions_of_ne rackIds hc hjn hkc hkj
  refine ⟨(swapPositions_perm hc hjn).trans inv.perm, ?_, by omega, hlt, by omega, ?_, ?_⟩
  · rw [← inv.head_eq, swapPositions, List.getElem?_set, List.getElem?_set]
    simp only [List.length_set]
    rw [if_neg (by omega), if_neg (by omega)]
  · have hpre : (List.range curN).map (rackIdAt (swapPositions nsSlIx 0 curN j) rackIds) =
        (List.range curN).map (rackIdAt nsSlIx rackIds) :=
      List.map_congr_left fun c hc' => hkeep c (by simp at hc'; omega) (by simp at hc'; omega)
    rw [nodup_map_range_succ, hpre, rackIdAt_swapPositions rackIds hc hjn, if_pos rfl]
    refine ⟨inv.distinct, fun c hc' => ?_⟩
    rw [hkeep c (by omega) (by omega)]
    exact isRackDistinctBeforeN_iff.mp hjd c hc'
  · intro k hk hk'
    obtain ⟨c, hc', h⟩ : ∃ c < curN,
        rackIdAt nsSlIx rackIds c = rackIdAt (swapPositions nsSlIx 0 curN j) rackIds k := by
      rcases Nat.lt_or_ge k j with hkj | hkj
      · rw [hkeep k (by omega) (by omega)]
        rcases Nat.lt_or_ge k nextN with hkn | hkn
        · exact inv.passed k hk hkn
        · exact exists_of_isRackDistinctBeforeN_eq_false (hskip k hkn hkj)
      · obtain rfl : k = j := by omega
        rw [rackIdAt_swapPositions rackIds hc hjn, if_neg (by omega), if_pos rfl]
        exact exists_of_isRackDistinctBeforeN_eq_false hd
    exact ⟨c, by omega, by rw [hkeep c (by omega) (by omega), h]⟩

theorem AdjustInv.exists_candidate (inv : AdjustInv rackIds nNeeded curN nextN nsSlIx₀ nsSlIx)
    (hperm : nsSlIx₀.Perm (List.range rackIds.length)) (hlt : curN < nNeeded)
    (hcard : nNeeded ≤ rackIds.toFinset.card)
    (hd : isRackDistinctBeforeN nsSlIx rackIds (rackIdAt nsSlIx rackIds curN) curN = false)
    (hall : ∀ k, nextN ≤ k → k < nsSlIx.length →
      isRackDistinctBeforeN nsSlIx rackIds (rackIdAt nsSlIx rackIds k) curN = false) : False := by
  have hsub : rackIds.toFinset ⊆ (Finset.range curN).image (rackIdAt nsSlIx rackIds) ∪
      (Finset.Ioo curN nNeeded).image (rackIdAt nsSlIx rackIds) := by
    intro r hr
    obtain ⟨j, hj, rfl⟩ := List.getElem_of_mem (List.mem_toFinset.mp hr)
    obtain ⟨k, hk, hkj⟩ := List.getElem_of_mem
      ((inv.perm.trans hperm).symm.subset (List.mem_range.mpr hj))
    have hrk : rackIdAt nsSlIx rackIds k = rackIds[j] := by
      rw [rackIdAt, List.getD_eq_getElem _ _ hk, hkj, List.getD_eq_getElem _ _ hj]
    rw [← hrk, Finset.mem_union, Finset.mem_image, Finset.mem_image]
    have hbelow : (∃ c < curN, rackIdAt nsSlIx rackIds c = rackIdAt nsSlIx rackIds k) →
        ∃ c ∈ Finset.range curN, rackIdAt nsSlIx rackIds c = rackIdAt nsSlIx rackIds k := by
      rintro ⟨c, hc, h⟩
      exact ⟨c, Finset.mem_range.mpr hc, h⟩
    rcases Nat.lt_or_ge k curN with hkc | hkc
    · exact Or.inl ⟨k, Finset.mem_range.mpr hkc, rfl⟩
    rcases Nat.eq_or_lt_of_le hkc with rfl | hkc
    · exact Or.inl (hbelow (exists_of_isRackDistinctBeforeN_eq_false hd))
    rcases Nat.lt_or_ge k nNeeded with hkn | hkn
    · exact Or.inr ⟨k, Finset.mem_Ioo.mpr ⟨hkc, hkn⟩, rfl⟩
    rcases Nat.lt_or_ge k nextN with hkx | hkx
    · exact Or.inl (hbelow (inv.passed k hkn hkx))
    · exact Or.inl (hbelow (exists_of_isRackDistinctBeforeN_eq_false (hall k hkx hk)))
  have hle := Finset.card_le_card hsub
  have hu := Finset.card_union_le ((Finset.range curN).image (rackIdAt nsSlIx rackIds))
    ((Finset.Ioo curN nNeeded).image (rackIdAt nsSlIx rackIds))
  have h1 := (Finset.range curN).card_image_le (f := rackIdAt nsSlIx rackIds)
  have h2 := (Finset.Ioo curN nNeeded).card_image_le (f := rackIdAt nsSlIx rackIds)
  rw [Finset.card_range] at h1
  rw [Nat.card_Ioo] at h2
  omega

end Step


section Run

variable {nsSuccession : List CfNode} {nNeeded : ℕ} {nsSlIx₀ : List ℕ}

theorem rackAwareAdjustLoop_spec (hperm : nsSlIx₀.Perm (List.range rackIds.length))
    (hcard : 1 < nNeeded → nNeeded ≤ rackIds.toFinset.card) :
    ∀ curN nextN (nsNodeSeq : List CfNode) (nsSlIx : List ℕ),
      AdjustInv rackIds nNeeded curN nextN nsSlIx₀ nsSlIx →
      nsNodeSeq = nsSlIx.map (nsSuccession.getD · 0) →
      ∃ nodeSeq slIx nextN', rackAwareAdjustLoop rackIds nsSlIx₀.length nNeeded curN nextN
          nsNodeSeq nsSlIx = some (nodeSeq, slIx) ∧
        AdjustInv rackIds nNeeded nNeeded nextN' nsSlIx₀ slIx ∧
        nodeSeq = slIx.map (nsSuccession.getD · 0)
  | curN, nextN, nsNodeSeq, nsSlIx, inv, hseq => by
    rw [rackAwareAdjustLoop]
    by_cases hlt : curN < nNeeded
    · rw [if_pos hlt]
      by_cases hd : isRackDistinctBeforeN nsSlIx rackIds (rackIdAt nsSlIx rackIds curN) curN = true
      · rw [if_pos hd]
        exact rackAwareAdjustLoop_spec hperm hcard (curN + 1) nextN nsNodeSeq nsSlIx
          (inv.keep hlt hd) hseq
      · rw [if_neg hd]
        rw [Bool.not_eq_true] at hd
        have hlen : nsSlIx₀.length = nsSlIx.length := inv.perm.length_eq.symm
        rw [hlen]
        rcases findSwapN_cases nsSlIx rackIds nsSlIx.length curN nextN with ⟨j, hj, hnj, hjn, hjd, hskip⟩ | ⟨-, hall⟩
        · rw [hj]
          have hc : curN < nsSlIx.length := by have := inv.needed_le; omega
          rw [← hlen]
          refine rackAwareAdjustLoop_spec hperm hcard (curN + 1) (j + 1) _ _
            (inv.swap hlt hd hnj hjn hjd hskip) ?_
          rw [hseq, swapPositions_map _ _ hc hjn]
        · exact (inv.exists_candidate hperm hlt (hcard (by have := inv.one_le; omega)) hd hall).elim
    · rw [if_neg hlt]
      obtain rfl : curN = nNeeded := Nat.le_antisymm inv.cur_le (Nat.le_of_not_lt hlt)
      exact ⟨nsNodeSeq, nsSlIx, nextN, rfl, inv, hseq⟩
termination_by curN => nNeeded - curN

end Run


section Count

theorem countRacks_eq : ∀ (a : UInt32) (t : List UInt32),
    (a :: t).Pairwise (fun x y => y ≤ x) → countRacks a t + 1 = (a :: t).toFinset.card
  | a, [], _ => rfl
  | a, b :: t, h => by
    have hrest := List.pairwise_cons.mp h
    rw [countRacks]
    split
    · next hba =>
      have hlt : b < a := UInt32.lt_of_le_of_ne (hrest.1 b (List.mem_cons_self)) hba
      have hna : a ∉ (b :: t).toFinset := by
        rw [List.mem_toFinset]
        intro ha
        rcases List.mem_cons.mp ha with rfl | ha
        · exact UInt32.lt_irrefl a hlt
        · exact UInt32.lt_irrefl b (UInt32.lt_of_lt_of_le hlt ((List.pairwise_cons.mp hrest.2).1 a ha))
      rw [countRacks_eq b t hrest.2,
        show (a :: b :: t).toFinset = insert a (b :: t).toFinset from List.toFinset_cons,
        Finset.card_insert_of_notMem hna]
    · next hba =>
      rw [not_not] at hba
      subst hba
      rw [countRacks_eq b t hrest.2, List.toFinset_cons, List.toFinset_cons, List.toFinset_cons,
        Finset.insert_idem]

theorem countRacks_of_forall_eq (a : UInt32) : ∀ t : List UInt32, (∀ x ∈ t, x = a) → countRacks a t = 0
  | [], _ => rfl
  | b :: t, h => by
    rw [countRacks, if_neg (not_not.mpr (h b List.mem_cons_self))]
    exact countRacks_of_forall_eq a t fun x hx => h x (List.mem_cons_of_mem b hx)

theorem forall_eq_of_getLast? {a : UInt32} {t : List UInt32}
    (h : (a :: t).Pairwise (fun x y => y ≤ x)) (hl : (a :: t).getLast? = some a) :
    ∀ x ∈ t, x = a := by
  intro x hx
  obtain ⟨i, hi, rfl⟩ := List.getElem_of_mem hx
  rw [List.getLast?_eq_getElem?, List.length_cons, Nat.add_sub_cancel,
    List.getElem?_eq_getElem (by simp)] at hl
  have hlast := Option.some.inj hl
  have hxa : t[i] ≤ a := (List.pairwise_cons.mp h).1 _ (List.getElem_mem hi)
  rcases Nat.lt_or_ge (i + 1) t.length with hlt | hge
  · have hp := List.pairwise_iff_getElem.mp h (i + 1) t.length (by simp; omega) (by simp) hlt
    rw [hlast] at hp
    exact UInt32.le_antisymm hxa hp
  · have hidx : t.length = i + 1 := by omega
    rw [← hlast]
    grind

theorem rackCount_eq {rackIds : List UInt32} (hne : rackIds ≠ []) :
    rackCount rackIds = rackIds.toFinset.card := by
  have hsorted := sortDesc_pairwise (fun _ _ _ => UInt32.le_trans) UInt32.le_total rackIds
  have hset : (sortDesc rackIds).toFinset = rackIds.toFinset :=
    List.toFinset_eq_of_perm _ _ (List.mergeSort_perm _ _)
  obtain ⟨a, t, hat⟩ : ∃ a t, sortDesc rackIds = a :: t := by
    cases hs : sortDesc rackIds with
    | nil =>
      have hp : (sortDesc rackIds).Perm rackIds := List.mergeSort_perm _ _
      rw [hs] at hp
      exact absurd hp.symm.eq_nil hne
    | cons a t => exact ⟨a, t, rfl⟩
  rw [← hset, hat, ← countRacks_eq a t (hat ▸ hsorted), rackCount, hat, List.head?_cons]
  split
  · next hl =>
    rw [countRacks_of_forall_eq a t (forall_eq_of_getLast? (hat ▸ hsorted) hl.symm)]
  · rfl

end Count

end Racks

theorem rackAwareAdjustRow_spreads_racks (nsSuccession : List CfNode) (rackIds : List UInt32)
    (nsNodeSeq : List CfNode) (nsSlIx : List ℕ) (replicationFactor : ℕ)
    (hperm : nsSlIx.Perm (List.range rackIds.length))
    (hseq : nsNodeSeq = nsSlIx.map (nsSuccession.getD · 0)) :
    ∃ nodeSeq slIx,
      rackAwareAdjustRow nsNodeSeq nsSlIx replicationFactor rackIds nsSlIx.length
          (rackCount rackIds) 1 = some (nodeSeq, slIx) ∧
        slIx.Perm nsSlIx ∧ slIx[0]? = nsSlIx[0]? ∧ nodeSeq[0]? = nsNodeSeq[0]? ∧
        nodeSeq = slIx.map (nsSuccession.getD · 0) ∧
        ((List.range (min replicationFactor (rackCount rackIds))).map
          (rackIdAt slIx rackIds)).Nodup := by
  have hmin : (if rackCount rackIds < replicationFactor then rackCount rackIds
      else replicationFactor) = min replicationFactor (rackCount rackIds) := by
    split <;> omega
  unfold rackAwareAdjustRow
  rw [hmin]
  rcases Nat.eq_zero_or_pos (min replicationFactor (rackCount rackIds)) with h0 | hpos
  · rw [h0, rackAwareAdjustLoop, if_neg (by omega)]
    exact ⟨nsNodeSeq, nsSlIx, rfl, List.Perm.refl _, rfl, rfl, hseq, by simp⟩
  have hcard : 1 < min replicationFactor (rackCount rackIds) →
      min replicationFactor (rackCount rackIds) ≤ rackIds.toFinset.card := by
    intro h1
    by_cases hne : rackIds = []
    · subst hne
      have : rackCount [] = 1 := by simp [rackCount, sortDesc]
      omega
    · rw [← rackCount_eq hne]
      exact Nat.min_le_right _ _
  have inv : AdjustInv rackIds (min replicationFactor (rackCount rackIds)) 1
      (min replicationFactor (rackCount rackIds)) nsSlIx nsSlIx :=
    { perm := List.Perm.refl _
      head_eq := rfl
      one_le := le_rfl
      cur_le := hpos
      needed_le := le_rfl
      distinct := by simp
      passed := fun k hk hk' => absurd hk' (by omega) }
  obtain ⟨nodeSeq, slIx, nextN, hrun, hinv, hseq'⟩ :=
    rackAwareAdjustLoop_spec hperm hcard 1 _ nsNodeSeq nsSlIx inv hseq
  refine ⟨nodeSeq, slIx, hrun, hinv.perm, hinv.head_eq, ?_, hseq', hinv.distinct⟩
  rw [hseq', hseq, List.getElem?_map, List.getElem?_map, hinv.head_eq]

theorem rackAwareAdjustRow_spreads_racks_two :
    [0, 1, 2].Perm (List.range [1, 1, 2].length) ∧
      ([10, 11, 12] : List CfNode) = [0, 1, 2].map (([10, 11, 12] : List CfNode).getD · 0) ∧
      ∃ nodeSeq slIx,
        rackAwareAdjustRow [10, 11, 12] [0, 1, 2] 2 [1, 1, 2] [0, 1, 2].length
            (rackCount [1, 1, 2]) 1 = some (nodeSeq, slIx) ∧
          slIx.Perm [0, 1, 2] ∧ slIx[0]? = [0, 1, 2][0]? ∧
          nodeSeq[0]? = ([10, 11, 12] : List CfNode)[0]? ∧
          nodeSeq = slIx.map (([10, 11, 12] : List CfNode).getD · 0) ∧
          ((List.range (min 2 (rackCount [1, 1, 2]))).map (rackIdAt slIx [1, 1, 2])).Nodup :=
  ⟨by decide, rfl,
    rackAwareAdjustRow_spreads_racks [10, 11, 12] [1, 1, 2] [10, 11, 12] [0, 1, 2] 2 (by decide) rfl⟩

end Aerospike.PartitionBalance
