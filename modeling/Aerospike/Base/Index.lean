import Aerospike.Lib.BinTree
import Aerospike.Lib.Bytes

/-! # Reducing an index tree in digest order

A partition's index tree (`index.c`) spreads its records over `n_sprigs`
trees, the sprigs, by the 12 digest bits above the partition id.
`as_index_reduce_partial` walks the sprigs from the last to the first and
each sprig in order, collecting at most `sample_count` records under the
sprig's lock and calling back the valid ones outside it. Rapid rebalance relies
on the order being decreasing in digest order over the whole tree: a sprig's
tree keeps larger digests to the left, and among the digests of one partition
the sprig index grows with the digest.

Records are the nodes of a `BinaryTree`; the red-black colours and arena
handles take no part in a reduce and are left out. `cf_digest_compare` belongs
to the common library: the model takes it as a parameter, a strict total order
on digests, which for the order across sprigs compares the leading bytes first.
-/

namespace Aerospike.Index

open BinaryTree

/-- `cf_digest`: the 20 bytes of a record key's digest. -/
structure CfDigest where
  digest : List UInt8
  length_eq : digest.length = 20
  deriving DecidableEq

/-- What the index takes of `cf_digest_compare`, which the common library
provides: a strict total order on digests. -/
structure CfDigestOrder (cfDigestCompare : CfDigest → CfDigest → Ordering) : Prop where
  eq_iff : ∀ a b, cfDigestCompare a b = .eq ↔ a = b
  swap : ∀ a b, cfDigestCompare b a = (cfDigestCompare a b).swap
  gt_trans : ∀ a b c, cfDigestCompare a b = .gt → cfDigestCompare b c = .gt →
    cfDigestCompare a c = .gt

/-- An order on digests that compares their leading bytes first, as `memcmp` does. -/
def LeadsByBytes (cfDigestCompare : CfDigest → CfDigest → Ordering) : Prop :=
  ∀ a b, cfDigestCompare a b ≠ .gt → Bytes.memcmp (a.digest.take 3) (b.digest.take 3) ≠ .gt

/-- Byte `k` of a digest. -/
def CfDigest.byte (d : CfDigest) (k : Fin 20) : UInt8 :=
  d.digest.get ⟨k, by rw [d.length_eq]; exact k.isLt⟩

def asPartitions : ℕ := 4096

/-- `as_partition_getid`: the digest's first 32-bit word, read little-endian,
under `AS_PARTITION_MASK`. -/
def asPartitionGetid (d : CfDigest) : ℕ :=
  Bytes.beValue (d.digest.take 4).reverse &&& (asPartitions - 1)

/-- The bits of `as_index_sprig_from_keyd`: the high nibble of byte 1 above
byte 2, the 12 most significant digest bits outside the partition id. -/
def sprigBits (d : CfDigest) : ℕ :=
  (((d.byte 1).toNat &&& 0xF0) <<< 4) ||| (d.byte 2).toNat

/-- `as_index_sprig_from_keyd`'s sprig index. -/
def sprigIndex (sprigsShift : ℕ) (d : CfDigest) : ℕ := sprigBits d >>> sprigsShift

/-- An index record: its digest, and whether it is still a complete record
when its callback comes (`as_index_sprig_invalid_record_done` skips it if not). -/
structure AsIndex where
  keyd : CfDigest
  valid : Bool

/-- `as_sprig`: the root of a sprig's tree and its element count. -/
structure AsSprig where
  root : BinaryTree AsIndex
  nElements : UInt64

/-- An index tree: its sprigs, and the namespace's `n_sprigs` and `sprigs_shift`. -/
structure AsIndexTree where
  nSprigs : ℕ
  sprigsShift : ℕ
  sprigs : ℕ → AsSprig

/-- `AS_REDUCE_ALL`: `-1` as an unsigned count. -/
def asReduceAll : UInt64 := 0xFFFFFFFFFFFFFFFF

/-- `as_index_sprig_traverse`: the records of a subtree in order, appended to
the array until it holds `allocSz`. -/
def asIndexSprigTraverse (allocSz : ℕ) : BinaryTree AsIndex → List AsIndex → List AsIndex
  | .nil, va => va
  | .node r left right, va =>
    if (asIndexSprigTraverse allocSz left va).length ≥ allocSz then
      asIndexSprigTraverse allocSz left va
    else asIndexSprigTraverse allocSz right (asIndexSprigTraverse allocSz left va ++ [r])

/-- The count a sprig reduce collects: `sample_count` capped by the sprig's
`n_elements`, which reduce-all mode takes whole. -/
def sprigSampleCount (sprig : AsSprig) (sampleCount : UInt64) : UInt64 :=
  if sampleCount = asReduceAll ∨ sampleCount > sprig.nElements then sprig.nElements
  else sampleCount

/-- `as_index_sprig_reduce_partial`: the records collected from one sprig, and
the count it returns, `0` in reduce-all mode. -/
def asIndexSprigReducePartial (sprig : AsSprig) (sampleCount : UInt64) :
    List AsIndex × UInt64 :=
  if sprigSampleCount sprig sampleCount = 0 then ([], 0)
  else
    let va := asIndexSprigTraverse (sprigSampleCount sprig sampleCount).toNat sprig.root []
    (va, if sampleCount = asReduceAll then 0 else va.length.toUInt64)

/-- The loop of `as_index_reduce_partial` over sprigs `i - 1` down to `0`. -/
def reduceSprigs (t : AsIndexTree) : ℕ → UInt64 → List AsIndex
  | 0, _ => []
  | i + 1, sampleCount =>
    let r := asIndexSprigReducePartial (t.sprigs i) sampleCount
    r.1 ++ if sampleCount - r.2 = 0 then [] else reduceSprigs t i (sampleCount - r.2)

/-- `as_index_reduce_partial`: the records called back, in order. -/
def asIndexReducePartial (t : AsIndexTree) (sampleCount : UInt64) : List AsIndex :=
  (reduceSprigs t t.nSprigs sampleCount).filter (·.valid)

/-! ### What a reduce visits -/

def treeRecords (t : AsIndexTree) : ℕ → List AsIndex
  | 0 => []
  | i + 1 => (t.sprigs i).root.inorder ++ treeRecords t i

def DigestGt (cfDigestCompare : CfDigest → CfDigest → Ordering) (a b : AsIndex) : Prop :=
  cfDigestCompare a.keyd b.keyd = .gt

/-- A well-formed index tree of partition `pid`: every sprig is a search tree
for `DigestGt` that counts its records, and holds the records of its own
sprig index and partition. -/
structure AsIndexTree.Valid (t : AsIndexTree) (cfDigestCompare : CfDigest → CfDigest → Ordering)
    (pid : ℕ) : Prop where
  search : ∀ i < t.nSprigs, (t.sprigs i).root.SearchTree (DigestGt cfDigestCompare)
  nElements_eq : ∀ i < t.nSprigs, (t.sprigs i).nElements.toNat = (t.sprigs i).root.numNodes
  sprig_eq : ∀ i < t.nSprigs, ∀ r ∈ (t.sprigs i).root.inorder,
    sprigIndex t.sprigsShift r.keyd = i
  partition_eq : ∀ i < t.nSprigs, ∀ r ∈ (t.sprigs i).root.inorder, asPartitionGetid r.keyd = pid

/-! ### Digest bits -/

theorem CfDigest.digest_eq (d : CfDigest) :
    d.digest = d.byte 0 :: d.byte 1 :: d.byte 2 :: d.byte 3 :: d.digest.drop 4 := by
  obtain ⟨digest, h⟩ := d
  match digest, h with
  | _ :: _ :: _ :: _ :: _, _ => rfl

theorem asPartitionGetid_eq (d : CfDigest) :
    asPartitionGetid d = (d.byte 0).toNat + (d.byte 1).toNat % 16 * 256 := by
  have h : asPartitions - 1 = 2 ^ 12 - 1 := rfl
  rw [asPartitionGetid, h, Nat.and_two_pow_sub_one_eq_mod, d.digest_eq]
  simp only [List.take_succ_cons, List.take_zero, List.reverse_cons, List.reverse_nil,
    List.nil_append, List.cons_append, Bytes.beValue, List.length_cons, List.length_nil]
  have := (d.byte 0).toNat_lt
  omega

theorem and_high_nibble : ∀ n < 256, n &&& 0xF0 = n / 16 * 16 := by decide +kernel

theorem sprigBits_eq (d : CfDigest) :
    sprigBits d = (d.byte 1).toNat / 16 * 256 + (d.byte 2).toNat := by
  have hshift : ((d.byte 1).toNat &&& 0xF0) <<< 4 = ((d.byte 1).toNat / 16) <<< 8 := by
    rw [and_high_nibble _ (d.byte 1).toNat_lt, Nat.shiftLeft_eq, Nat.shiftLeft_eq]
    omega
  rw [sprigBits, hshift, ← Nat.shiftLeft_add_eq_or_of_lt (d.byte 2).toNat_lt, Nat.shiftLeft_eq]

theorem sprigBits_le_of_not_gt {cfDigestCompare : CfDigest → CfDigest → Ordering}
    (hlead : LeadsByBytes cfDigestCompare) {x y : CfDigest}
    (hpid : asPartitionGetid x = asPartitionGetid y) (h : cfDigestCompare x y ≠ .gt) :
    sprigBits x ≤ sprigBits y := by
  rw [asPartitionGetid_eq, asPartitionGetid_eq] at hpid
  have h := hlead x y h
  rw [x.digest_eq, y.digest_eq] at h
  simp only [List.take_succ_cons, List.take_zero] at h
  rw [Ne, Bytes.memcmp_cons_eq_gt, Bytes.memcmp_cons_eq_gt, Bytes.memcmp_cons_eq_gt] at h
  simp only [UInt8.lt_iff_toNat_lt, ← UInt8.toNat_inj, not_or, not_and] at h
  obtain ⟨h0, h⟩ := h
  have hx0 := (x.byte 0).toNat_lt
  have hy0 := (y.byte 0).toNat_lt
  obtain ⟨h1, h⟩ := h (by omega)
  rw [sprigBits_eq, sprigBits_eq]
  have hx2 := (x.byte 2).toNat_lt
  have hy2 := (y.byte 2).toNat_lt
  by_cases h11 : (x.byte 1).toNat = (y.byte 1).toNat
  · have h2 := (h h11).1
    rw [h11]
    omega
  · omega

theorem sprigIndex_le_of_not_gt {cfDigestCompare : CfDigest → CfDigest → Ordering}
    (hlead : LeadsByBytes cfDigestCompare) {x y : CfDigest} (s : ℕ)
    (hpid : asPartitionGetid x = asPartitionGetid y) (h : cfDigestCompare x y ≠ .gt) :
    sprigIndex s x ≤ sprigIndex s y := by
  rw [sprigIndex, sprigIndex, Nat.shiftRight_eq_div_pow, Nat.shiftRight_eq_div_pow]
  exact Nat.div_le_div_right (sprigBits_le_of_not_gt hlead hpid h)


/-! ### Collecting records -/

theorem asIndexSprigTraverse_eq (n : ℕ) : ∀ (t : BinaryTree AsIndex) (va : List AsIndex),
    va.length ≤ n → asIndexSprigTraverse n t va = va ++ t.inorder.take (n - va.length)
  | .nil, va, _ => by simp [asIndexSprigTraverse]
  | .node r l rt, va, hva => by
    rw [asIndexSprigTraverse, asIndexSprigTraverse_eq n l va hva, inorder_node]
    by_cases h : (va ++ l.inorder.take (n - va.length)).length ≥ n
    · have hl : n - va.length ≤ l.inorder.length := by
        simp only [List.length_append, List.length_take] at h
        omega
      rw [if_pos h, List.take_append_of_le_length hl]
    · have hl : l.inorder.length < n - va.length := by
        simp only [List.length_append, List.length_take] at h
        omega
      rw [if_neg h, List.take_of_length_le hl.le,
        asIndexSprigTraverse_eq n rt _ (by simp only [List.length_append, List.length_singleton]; omega),
        List.take_append, List.take_of_length_le hl.le]
      obtain ⟨k, hk⟩ : ∃ k, n - va.length - l.inorder.length = k + 1 := ⟨_, (Nat.sub_one_add_one (by omega)).symm⟩
      rw [hk, List.take_succ_cons]
      simp only [List.length_append, List.length_singleton, List.append_assoc, List.singleton_append]
      congr 4
      omega


theorem sprigSampleCount_le (sprig : AsSprig) (sampleCount : UInt64) :
    sprigSampleCount sprig sampleCount ≤ sprig.nElements := by
  unfold sprigSampleCount
  split
  · exact UInt64.le_refl _
  · next h =>
    rw [not_or, UInt64.not_lt] at h
    exact h.2

theorem sprigSampleCount_of_ne {sprig : AsSprig} {sampleCount : UInt64}
    (hs : sampleCount ≠ asReduceAll) :
    (sprigSampleCount sprig sampleCount).toNat = min sampleCount.toNat sprig.nElements.toNat := by
  unfold sprigSampleCount
  split
  · next h =>
    have := UInt64.lt_iff_toNat_lt.mp (h.resolve_left hs)
    omega
  · next h =>
    have := UInt64.le_iff_toNat_le.mp (UInt64.not_lt.mp (not_or.mp h).2)
    omega

theorem asIndexSprigReducePartial_eq (sprig : AsSprig) (sampleCount : UInt64)
    (hn : sprig.nElements.toNat = sprig.root.numNodes) :
    asIndexSprigReducePartial sprig sampleCount =
      (sprig.root.inorder.take (sprigSampleCount sprig sampleCount).toNat,
        if sampleCount = asReduceAll then 0 else sprigSampleCount sprig sampleCount) := by
  have hle := UInt64.le_iff_toNat_le.mp (sprigSampleCount_le sprig sampleCount)
  have htrav := asIndexSprigTraverse_eq (sprigSampleCount sprig sampleCount).toNat sprig.root []
    (Nat.zero_le _)
  rw [List.nil_append, List.length_nil, Nat.sub_zero] at htrav
  unfold asIndexSprigReducePartial
  split
  · next h0 =>
    rw [h0, UInt64.toNat_zero, List.take_zero, ite_self]
  · simp only [htrav, Prod.mk.injEq, true_and]
    split
    · rfl
    · rw [List.length_take, length_inorder, ← hn, Nat.min_eq_left hle]
      exact UInt64.ofNat_toNat


section Reduce

variable {t : AsIndexTree}

theorem reduceSprigs_reduceAll : ∀ i,
    (∀ j < i, (t.sprigs j).nElements.toNat = (t.sprigs j).root.numNodes) →
      reduceSprigs t i asReduceAll = treeRecords t i
  | 0, _ => rfl
  | i + 1, hn => by
    have hall : sprigSampleCount (t.sprigs i) asReduceAll = (t.sprigs i).nElements :=
      if_pos (Or.inl rfl)
    have hne : asReduceAll - 0 ≠ 0 := by decide
    simp only [reduceSprigs, asIndexSprigReducePartial_eq _ _ (hn i i.lt_succ_self), if_pos,
      hall, hn i i.lt_succ_self, UInt64.sub_zero]
    rw [if_neg (by decide), reduceSprigs_reduceAll i (fun j hj => hn j (by omega)),
      List.take_of_length_le (by simp),
      treeRecords]

theorem reduceSprigs_eq_take : ∀ i (sampleCount : UInt64),
    (∀ j < i, (t.sprigs j).nElements.toNat = (t.sprigs j).root.numNodes) →
      sampleCount ≠ asReduceAll →
      reduceSprigs t i sampleCount = (treeRecords t i).take sampleCount.toNat
  | 0, _, _, _ => by simp [reduceSprigs, treeRecords]
  | i + 1, sampleCount, hn', hs => by
    have hn : ∀ j ≤ i, (t.sprigs j).nElements.toNat = (t.sprigs j).root.numNodes :=
      fun j hj => hn' j (by omega)
    have hc : (sprigSampleCount (t.sprigs i) sampleCount).toNat =
        min sampleCount.toNat (t.sprigs i).root.numNodes := by
      rw [sprigSampleCount_of_ne hs, hn i le_rfl]
    have hle := UInt64.le_iff_toNat_le.mpr (show (sprigSampleCount (t.sprigs i) sampleCount).toNat
      ≤ sampleCount.toNat by omega)
    have hsub := UInt64.toNat_sub_of_le _ _ hle
    simp only [reduceSprigs, asIndexSprigReducePartial_eq _ _ (hn i le_rfl), if_neg hs, treeRecords,
      List.take_append, length_inorder]
    by_cases h0 : sampleCount - sprigSampleCount (t.sprigs i) sampleCount = 0
    · have hlt : sampleCount.toNat ≤ (t.sprigs i).root.numNodes := by
        rw [h0, UInt64.toNat_zero] at hsub
        omega
      rw [if_pos h0, hc, Nat.min_eq_left hlt, Nat.sub_eq_zero_of_le hlt, List.take_zero]
    · have hlt : (t.sprigs i).root.numNodes < sampleCount.toNat := by
        have : (sampleCount - sprigSampleCount (t.sprigs i) sampleCount).toNat ≠ 0 := by
          rwa [← UInt64.toNat_inj, UInt64.toNat_zero] at h0
        omega
      have hs' : sampleCount - sprigSampleCount (t.sprigs i) sampleCount ≠ asReduceAll := by
        rw [Ne, ← UInt64.toNat_inj]
        have := sampleCount.toNat_lt
        have : asReduceAll.toNat = 2 ^ 64 - 1 := rfl
        rw [Ne, ← UInt64.toNat_inj] at hs
        omega
      rw [if_neg h0, reduceSprigs_eq_take i _ (fun j hj => hn j (by omega)) hs', hsub, hc, Nat.min_eq_right hlt.le,
        List.take_of_length_le (show (t.sprigs i).root.inorder.length ≤ _ by simp),
        List.take_of_length_le (show (t.sprigs i).root.inorder.length ≤ _ by simp; omega)]

theorem mem_treeRecords {r : AsIndex} : ∀ {i},
    r ∈ treeRecords t i ↔ ∃ j < i, r ∈ (t.sprigs j).root.inorder
  | 0 => by simp [treeRecords]
  | i + 1 => by
    rw [treeRecords, List.mem_append, mem_treeRecords]
    constructor
    · rintro (h | ⟨j, hj, h⟩)
      · exact ⟨i, i.lt_succ_self, h⟩
      · exact ⟨j, by omega, h⟩
    · rintro ⟨j, hj, h⟩
      rcases Nat.lt_succ_iff_lt_or_eq.mp hj with hj | rfl
      · exact Or.inr ⟨j, hj, h⟩
      · exact Or.inl h

end Reduce

/-! ### Digest order across sprigs -/

section Order

variable {cfDigestCompare : CfDigest → CfDigest → Ordering}

theorem CfDigestOrder.digestGt_trans (hcmp : CfDigestOrder cfDigestCompare) (a b c : AsIndex) :
    DigestGt cfDigestCompare a b → DigestGt cfDigestCompare b c → DigestGt cfDigestCompare a c :=
  hcmp.gt_trans _ _ _

theorem CfDigestOrder.not_digestGt_self (hcmp : CfDigestOrder cfDigestCompare) (a : AsIndex) :
    ¬DigestGt cfDigestCompare a a := by
  rw [DigestGt, (hcmp.eq_iff _ _).mpr rfl]
  exact nofun

theorem CfDigestOrder.ne_of_digestGt (hcmp : CfDigestOrder cfDigestCompare) {a b : AsIndex}
    (h : DigestGt cfDigestCompare a b) : a ≠ b := by
  rintro rfl
  exact hcmp.not_digestGt_self a h

variable {t : AsIndexTree} {pid : ℕ}

theorem AsIndexTree.Valid.digestGt_of_lt (hlead : LeadsByBytes cfDigestCompare)
    (ht : t.Valid cfDigestCompare pid) {i j : ℕ} (hi : i < t.nSprigs)
    (hij : j < i) {x y : AsIndex} (hx : x ∈ (t.sprigs i).root.inorder)
    (hy : y ∈ (t.sprigs j).root.inorder) : DigestGt cfDigestCompare x y := by
  by_contra h
  have hle := sprigIndex_le_of_not_gt hlead t.sprigsShift
    ((ht.partition_eq i hi x hx).trans (ht.partition_eq j (by omega) y hy).symm) h
  rw [ht.sprig_eq i hi x hx, ht.sprig_eq j (by omega) y hy] at hle
  omega

theorem AsIndexTree.Valid.pairwise_treeRecords (hcmp : CfDigestOrder cfDigestCompare)
    (hlead : LeadsByBytes cfDigestCompare) (ht : t.Valid cfDigestCompare pid) :
    ∀ i ≤ t.nSprigs, (treeRecords t i).Pairwise (DigestGt cfDigestCompare)
  | 0, _ => List.Pairwise.nil
  | i + 1, hi => by
    rw [treeRecords, List.pairwise_append]
    refine ⟨(ht.search i hi).pairwise_inorder hcmp.digestGt_trans,
      ht.pairwise_treeRecords hcmp hlead i (by omega), ?_⟩
    intro x hx y hy
    obtain ⟨j, hj, hy⟩ := mem_treeRecords.mp hy
    exact ht.digestGt_of_lt hlead hi hj hx hy

end Order

theorem asIndexReducePartial_visits_desc {cfDigestCompare : CfDigest → CfDigest → Ordering}
    (hcmp : CfDigestOrder cfDigestCompare) (hlead : LeadsByBytes cfDigestCompare) (t : AsIndexTree)
    (pid : ℕ) (ht : t.Valid cfDigestCompare pid) (sampleCount : UInt64) :
    asIndexReducePartial t sampleCount =
        (if sampleCount = asReduceAll then treeRecords t t.nSprigs
          else (treeRecords t t.nSprigs).take sampleCount.toNat).filter (·.valid) ∧
      (asIndexReducePartial t sampleCount).Pairwise (DigestGt cfDigestCompare) ∧
      (asIndexReducePartial t sampleCount).Nodup ∧
      (reduceSprigs t t.nSprigs sampleCount).length =
        if sampleCount = asReduceAll then (treeRecords t t.nSprigs).length
        else min sampleCount.toNat (treeRecords t t.nSprigs).length := by
  have hvisit : reduceSprigs t t.nSprigs sampleCount =
      if sampleCount = asReduceAll then treeRecords t t.nSprigs
      else (treeRecords t t.nSprigs).take sampleCount.toNat := by
    split
    · next hs => rw [hs, reduceSprigs_reduceAll _ ht.nElements_eq]
    · next hs => rw [reduceSprigs_eq_take _ _ ht.nElements_eq hs]
  have hsorted : (reduceSprigs t t.nSprigs sampleCount).Pairwise (DigestGt cfDigestCompare) := by
    rw [hvisit]
    split
    · exact ht.pairwise_treeRecords hcmp hlead _ le_rfl
    · exact (ht.pairwise_treeRecords hcmp hlead _ le_rfl).sublist (List.take_sublist _ _)
  have hcb : (asIndexReducePartial t sampleCount).Pairwise (DigestGt cfDigestCompare) :=
    hsorted.filter _
  refine ⟨by rw [asIndexReducePartial, hvisit], hcb, hcb.imp hcmp.ne_of_digestGt, ?_⟩
  rw [hvisit]
  split
  · rfl
  · exact List.length_take

/-- `memcmp` of the 20 bytes: the order the common library's `cf_digest_compare` gives. -/
def memcmpDigest (d1 d2 : CfDigest) : Ordering := Bytes.memcmp d1.digest d2.digest

theorem cfDigestOrder_memcmpDigest : CfDigestOrder memcmpDigest where
  eq_iff a b := by
    constructor
    · intro h
      obtain ⟨da, ha⟩ := a
      obtain ⟨db, hb⟩ := b
      obtain rfl : da = db := Bytes.eq_of_memcmp_eq (ha.trans hb.symm) h
      rfl
    · rintro rfl
      exact Bytes.memcmp_self _
  swap a b := Bytes.memcmp_swap a.digest b.digest
  gt_trans _ _ _ := Bytes.memcmp_gt_trans

theorem leadsByBytes_memcmpDigest : LeadsByBytes memcmpDigest := fun _ _ h =>
  Bytes.memcmp_take_ne_gt 3 h

def digestOf (b1 b2 : UInt8) : CfDigest := ⟨[0, b1, b2] ++ List.replicate 17 0, rfl⟩

def twoRecordTree : AsIndexTree where
  nSprigs := 1
  sprigsShift := 12
  sprigs _ := ⟨.node ⟨digestOf 0 5, true⟩ (.node ⟨digestOf 0x10 0, true⟩ .nil .nil) .nil, 2⟩

theorem twoRecordTree_valid : twoRecordTree.Valid memcmpDigest 0 := by
  refine ⟨fun i _ => ?_, fun i _ => rfl, fun i hi r hr => ?_, fun i _ r hr => ?_⟩
  · simp only [twoRecordTree, BinaryTree.SearchTree, inorder_node, inorder_nil, List.nil_append,
      List.mem_singleton, List.not_mem_nil, forall_eq, DigestGt]
    exact ⟨by decide, fun _ h => h.elim, ⟨fun _ h => h.elim, fun _ h => h.elim, trivial, trivial⟩,
      trivial⟩
  · obtain rfl : i = 0 := by simpa [twoRecordTree] using hi
    simp only [twoRecordTree, inorder_node, inorder_nil, List.nil_append, List.cons_append,
      List.mem_cons, List.not_mem_nil, or_false] at hr ⊢
    rcases hr with rfl | rfl <;> decide
  · simp only [twoRecordTree, inorder_node, inorder_nil, List.nil_append, List.cons_append,
      List.mem_cons, List.not_mem_nil, or_false] at hr
    rcases hr with rfl | rfl <;> decide

theorem asIndexReducePartial_visits_desc_two : CfDigestOrder memcmpDigest ∧ LeadsByBytes memcmpDigest ∧
    twoRecordTree.Valid memcmpDigest 0 ∧
    (asIndexReducePartial twoRecordTree 1 =
        (if (1 : UInt64) = asReduceAll then treeRecords twoRecordTree twoRecordTree.nSprigs
          else (treeRecords twoRecordTree twoRecordTree.nSprigs).take (1 : UInt64).toNat).filter
          (·.valid) ∧
      (asIndexReducePartial twoRecordTree 1).Pairwise (DigestGt memcmpDigest) ∧
      (asIndexReducePartial twoRecordTree 1).Nodup ∧
      (reduceSprigs twoRecordTree twoRecordTree.nSprigs 1).length =
        if (1 : UInt64) = asReduceAll then (treeRecords twoRecordTree twoRecordTree.nSprigs).length
        else min (1 : UInt64).toNat (treeRecords twoRecordTree twoRecordTree.nSprigs).length) :=
  ⟨cfDigestOrder_memcmpDigest, leadsByBytes_memcmpDigest, twoRecordTree_valid,
    asIndexReducePartial_visits_desc cfDigestOrder_memcmpDigest leadsByBytes_memcmpDigest twoRecordTree 0
      twoRecordTree_valid 1⟩

example : (asIndexReducePartial twoRecordTree 1).map (·.keyd.digest) = [(digestOf 0x10 0).digest] := by
  decide

end Aerospike.Index
