import Aerospike.Cf.Shash

/-! # The hash table as a map

A table in order (`CfShash.Ok`) stands for the map `CfShash.toMap` of the keys
of its elements in use to their values. Each operation is shown to keep the
table in order and to act on that map as a map operation: the bucket lemmas
say what an edit does to the bucket's pairs, and `CfShash.Ok.update_bucket` lifts an
edit of the key's bucket to the table.
-/

namespace Aerospike.Shash

variable {K V σ : Type}

/-- The representation invariant of `cf_shash`: at least one bucket, the table
of `n_buckets` buckets, each bucket in order under the table's hash, and
`n_elements` the number of elements in use. -/
structure CfShash.Ok (h : CfShash K V) : Prop where
  nBuckets_pos : 0 < h.nBuckets.toNat
  length_table : h.table.length = h.nBuckets.toNat
  bucketOk : ∀ i (hi : i < h.table.length), BucketOk (cfShashCalculateHash h) i h.table[i]
  nElements_eq : h.nElements = (h.table.map fun b => b.live.length).sum

/-- The map a table stands for: the value of the element in use with the key,
in whichever bucket. -/
def CfShash.toMap [DecidableEq K] (h : CfShash K V) (k : K) : Option V :=
  (h.table.map ShashBucket.entries).flatten.lookup k

/-! ### Edits of a bucket -/

section Edits

variable {hash : K → ℕ} {i : ℕ} {b : ShashBucket K V}

theorem eles_inUse_of_length (h : b.live.length = b.eles.length) : ∀ e ∈ b.eles, e.inUse = true := by
  have hpre : b.live = b.eles :=
    (List.takeWhile_prefix (l := b.eles) fun e : ShashEle K V => e.inUse).eq_of_length h
  exact List.takeWhile_eq_self_iff.mp hpre

theorem BucketOk.of_inUse (hall : ∀ e ∈ b.eles, e.inUse = true) (hnodup : (b.live.map (·.key)).Nodup)
    (hhash : ∀ e ∈ b.live, hash e.key = i) : BucketOk hash i b :=
  ⟨fun h => by simp [hall b.head (List.mem_cons_self ..)] at h,
    fun e he => hall e (List.mem_cons_of_mem _ he), hnodup, hhash⟩

theorem BucketOk.of_sublist (hb : BucketOk hash i b) {b' : ShashBucket K V}
    (h1 : b'.head.inUse = false → b'.chain = []) (h2 : ∀ e ∈ b'.chain, e.inUse = true)
    (hsub : List.Sublist b'.live b.live) : BucketOk hash i b' :=
  ⟨h1, h2, (hsub.map _).nodup hb.nodup, fun e he => hb.hash_eq e (hsub.subset he)⟩

theorem BucketOk.live_length (hb : BucketOk hash i b) :
    b.live.length = b.chain.length + if b.head.inUse then 1 else 0 := by
  cases hin : b.head.inUse
  · simp [live_of_not_inUse hin, hb.chain_nil hin]
  · simp [hb.live_of_inUse hin, ShashBucket.eles, Nat.add_comm]

theorem live_deleteAll (b : ShashBucket K V) : b.deleteAll.live = [] := live_of_not_inUse rfl

theorem bucketOk_deleteAll (b : ShashBucket K V) : BucketOk hash i b.deleteAll :=
  ⟨fun _ => rfl, fun e he => by simp [ShashBucket.deleteAll] at he, by simp [live_deleteAll],
    by simp [live_deleteAll]⟩

theorem setValue_head_inUse (pos : ℕ) (value : V) : (b.setValue pos value).head.inUse = b.head.inUse := by
  cases pos <;> rfl

theorem BucketOk.setValue (hb : BucketOk hash i b) (hin : b.head.inUse = true) (pos : ℕ) (value : V) :
    BucketOk hash i (b.setValue pos value) ∧ (b.setValue pos value).live.length = b.live.length := by
  have hlen : (b.setValue pos value).live.length = b.live.length := by
    rw [live_setValue, List.length_modify]
  have hkeys : (b.setValue pos value).live.map (·.key) = b.live.map (·.key) := by
    rw [live_setValue, KeyList.map_modify (f := fun (e : ShashEle K V) => { e with value := value })
      (u := id) (fun _ => rfl), List.modify_id]
  refine ⟨BucketOk.of_inUse (eles_inUse_of_length ?_) (hkeys ▸ hb.nodup) fun e he => ?_, hlen⟩
  · rw [hlen, hb.live_of_inUse hin, eles_setValue, List.length_modify]
  · obtain ⟨e', he', hk⟩ := List.mem_map.mp (hkeys ▸ List.mem_map_of_mem he : e.key ∈ b.live.map (·.key))
    exact hk ▸ hb.hash_eq e' he'

theorem BucketOk.removeAt (hb : BucketOk hash i b) {pos : ℕ} (hpos : pos < b.live.length) :
    BucketOk hash i (b.removeAt pos) ∧ (b.removeAt pos).live = b.live.eraseIdx pos := by
  have hlive := hb.live_removeAt hpos
  have hin := head_inUse_of_lt_live hpos
  have hshape : ((b.removeAt pos).head.inUse = false → (b.removeAt pos).chain = []) ∧
      ∀ e ∈ (b.removeAt pos).chain, e.inUse = true := by
    match pos, hc : b.chain with
    | 0, [] => simp [ShashBucket.removeAt, hc]
    | 0, e :: es =>
      have hall : ∀ x ∈ e :: es, x.inUse = true := hc ▸ hb.chain_inUse
      simp only [ShashBucket.removeAt, hc]
      exact ⟨fun he => by simp [hall e (List.mem_cons_self ..)] at he,
        fun x hx => hall x (List.mem_cons_of_mem _ hx)⟩
    | p + 1, _ =>
      simp only [ShashBucket.removeAt]
      exact ⟨fun he => by simp [hin] at he, fun x hx => hb.chain_inUse x (List.mem_of_mem_eraseIdx hx)⟩
  exact ⟨hb.of_sublist hshape.1 hshape.2 (hlive ▸ List.eraseIdx_sublist _ _), hlive⟩

end Edits

section Table

variable [DecidableEq K] [Inhabited K] [Inhabited V] {h : CfShash K V}

omit [DecidableEq K] [Inhabited K] [Inhabited V] in
theorem calculateHash_lt (hOk : h.Ok) (key : K) : cfShashCalculateHash h key < h.table.length := by
  rw [hOk.length_table, cfShashCalculateHash, UInt32.toNat_mod]
  exact Nat.mod_lt _ hOk.nBuckets_pos

omit [DecidableEq K] in
theorem getBucket_eq {i : ℕ} (hi : i < h.table.length) : cfShashGetBucket h i = h.table[i] := by
  simp [cfShashGetBucket, List.getD_eq_getElem?_getD, hi]

theorem CfShash.Ok.toMap_eq (hOk : h.Ok) (k : K) :
    h.toMap k = (cfShashGetBucket h (cfShashCalculateHash h k)).entries.lookup k := by
  have hi := calculateHash_lt hOk k
  rw [getBucket_eq hi, CfShash.toMap, KeyList.lookup_flatten (by simpa using hi)]
  · simp
  · intro j hj hne hk
    have hj' : j < h.table.length := by simpa using hj
    rw [List.getElem_map, keys_entries] at hk
    obtain ⟨e, he, rfl⟩ := List.mem_map.mp hk
    exact hne ((hOk.bucketOk j hj').hash_eq e he).symm

omit [DecidableEq K] [Inhabited K] [Inhabited V] in
theorem CfShash.Ok.of_setBucket (hOk : h.Ok) {i : ℕ} (hi : i < h.table.length) {b : ShashBucket K V}
    (hb : BucketOk (cfShashCalculateHash h) i b) {h' : CfShash K V} (hh : h'.hFn = h.hFn)
    (hn : h'.nBuckets = h.nBuckets) (ht : h'.table = h.table.set i b)
    (hcount : h'.nElements + h.table[i].live.length = h.nElements + b.live.length) : h'.Ok := by
  have hhash : cfShashCalculateHash h' = cfShashCalculateHash h := by
    funext key
    simp [cfShashCalculateHash, hh, hn]
  refine ⟨hn ▸ hOk.nBuckets_pos, by rw [ht, List.length_set, hOk.length_table, hn], ?_, ?_⟩
  · intro j hj
    have hj' : j < h.table.length := by simpa [ht] using hj
    rw [hhash]
    simp only [ht, List.getElem_set]
    split_ifs with hij
    · exact hij ▸ hb
    · exact hOk.bucketOk j hj'
  · have hsum := List.sum_set (h.table.map fun b => b.live.length) i b.live.length
    have hsplit := List.sum_take_add_sum_drop (h.table.map fun b => b.live.length) i
    have hdrop : (h.table.map fun b => b.live.length).drop i =
        h.table[i].live.length :: (h.table.map fun b => b.live.length).drop (i + 1) := by
      rw [List.drop_eq_getElem_cons (by simpa using hi), List.getElem_map]
    rw [hdrop, List.sum_cons] at hsplit
    rw [ht, List.map_set, hsum, if_pos (by simpa using hi)]
    have := hOk.nElements_eq
    omega

theorem CfShash.Ok.update_bucket (hOk : h.Ok) {key : K} {b : ShashBucket K V} {new : Option V}
    (hb : BucketOk (cfShashCalculateHash h) (cfShashCalculateHash h key) b)
    (hlook : ∀ k, b.entries.lookup k =
      if k = key then new else (cfShashGetBucket h (cfShashCalculateHash h key)).entries.lookup k)
    (h' : CfShash K V) (hh : h'.hFn = h.hFn) (hn : h'.nBuckets = h.nBuckets)
    (ht : h'.table = h.table.set (cfShashCalculateHash h key) b)
    (hcount : h'.nElements + (cfShashGetBucket h (cfShashCalculateHash h key)).live.length =
      h.nElements + b.live.length) :
    h'.Ok ∧ h'.toMap = Function.update h.toMap key new := by
  have hi := calculateHash_lt hOk key
  rw [getBucket_eq hi] at hcount hlook
  have hOk' := hOk.of_setBucket hi hb hh hn ht hcount
  have hhash : cfShashCalculateHash h' = cfShashCalculateHash h := by
    funext k
    simp [cfShashCalculateHash, hh, hn]
  refine ⟨hOk', funext fun k => ?_⟩
  rw [hOk'.toMap_eq, Function.update_apply, hhash, hOk.toMap_eq]
  have hk := calculateHash_lt hOk k
  rw [getBucket_eq (by simpa [ht] using hk), getBucket_eq hk]
  simp only [ht, List.getElem_set]
  split_ifs with hik hkey hkey
  · rw [hlook, if_pos hkey]
  · simp only [hlook, if_neg hkey, hik]
  · exact absurd (by rw [hkey]) hik
  · rfl

/-! ### What each edit does to the bucket's pairs -/

section Lookup

variable {hash : K → ℕ} {i : ℕ} {b : ShashBucket K V} {key : K}

omit [Inhabited K] [Inhabited V] in
theorem lookup_entries (b : ShashBucket K V) (k : K) :
    b.entries.lookup k = (b.live.find? (·.key = k)).map (·.value) :=
  KeyList.lookup_map_pair _ _ _

omit [Inhabited K] [Inhabited V] in
theorem BucketOk.fill (hb : BucketOk hash i b) (hnot : b.head.inUse = false) (hk : hash key = i) (value : V) :
    BucketOk hash i { b with head := cfShashFillElement key value } ∧
      ({ b with head := cfShashFillElement key value } : ShashBucket K V).live.length = b.live.length + 1 ∧
      ∀ k, ({ b with head := cfShashFillElement key value } : ShashBucket K V).entries.lookup k =
        if k = key then some value else b.entries.lookup k := by
  have hlive := live_fill hb hnot key value
  have hnil := live_of_not_inUse hnot
  refine ⟨⟨fun h => by simp [cfShashFillElement] at h, fun e he => by simp [hb.chain_nil hnot] at he, ?_, ?_⟩,
    by rw [hlive, hnil]; rfl, fun k => ?_⟩
  · simp [hlive]
  · intro e he
    rw [hlive, List.mem_singleton] at he
    subst he
    exact hk
  · rw [ShashBucket.entries, hlive, ShashBucket.entries, hnil]
    by_cases hkk : k = key <;> simp [cfShashFillElement, hkk]

theorem BucketOk.lookup_of_findIdx (hb : BucketOk hash i b) (hin : b.head.inUse = true) {pos : ℕ}
    (hpos : b.eles.findIdx? (·.key = key) = some pos) :
    pos < b.entries.length ∧ b.entries[pos]?.map Prod.fst = some key ∧
      b.entries.lookup key = some (b.eles.getD pos ShashEle.cleared).value := by
  obtain ⟨hlt, hkey, -⟩ := List.findIdx?_eq_some_iff_getElem.mp hpos
  have hlive := hb.live_of_inUse hin
  have hlt' : pos < b.entries.length := by simpa [ShashBucket.entries, hlive] using hlt
  refine ⟨hlt', by simpa [ShashBucket.entries, hlive, hlt] using hkey, ?_⟩
  apply KeyList.lookup_eq_some_of_mem hb.nodup_entries
  rw [ShashBucket.entries, hlive, List.getD_eq_getElem?_getD, List.getElem?_eq_getElem hlt, Option.getD_some]
  have hk : b.eles[pos].key = key := by simpa using hkey
  exact List.mem_map.mpr ⟨b.eles[pos], List.getElem_mem hlt, by rw [hk]⟩

theorem BucketOk.lookup_setValue (hb : BucketOk hash i b) (hin : b.head.inUse = true) {pos : ℕ}
    (hpos : b.eles.findIdx? (·.key = key) = some pos) (value : V) (k : K) :
    (b.setValue pos value).entries.lookup k = if k = key then some value else b.entries.lookup k := by
  obtain ⟨hlt, hfst, -⟩ := hb.lookup_of_findIdx hin hpos
  have hfst' : b.entries[pos].1 = key := by simpa [List.getElem?_eq_getElem hlt] using hfst
  rw [entries_setValue, KeyList.lookup_modify hb.nodup_entries hlt, hfst']

omit [Inhabited K] [Inhabited V] in
theorem BucketOk.insert (hb : BucketOk hash i b) (hin : b.head.inUse = true)
    (hnone : b.eles.findIdx? (·.key = key) = none) (hk : hash key = i) (value : V) :
    BucketOk hash i (b.insertAfterHead (cfShashFillElement key value)) ∧
      (b.insertAfterHead (cfShashFillElement key value)).live.length = b.live.length + 1 ∧
      ∀ k, (b.insertAfterHead (cfShashFillElement key value)).entries.lookup k =
        if k = key then some value else b.entries.lookup k := by
  have hlive := hb.live_insertAfterHead hin (e := cfShashFillElement key value) rfl
  have hold := hb.live_of_inUse hin
  have hnot : ∀ e ∈ b.eles, e.key ≠ key := by simpa using List.findIdx?_eq_none_iff.mp hnone
  have hnodup := hb.nodup
  rw [hold, ShashBucket.eles, List.map_cons, List.nodup_cons] at hnodup
  refine ⟨⟨fun h => by simp [ShashBucket.insertAfterHead, hin] at h, ?_, ?_, ?_⟩,
    by rw [hlive, hold]; rfl, fun k => ?_⟩
  · intro e he
    rcases List.mem_cons.mp he with rfl | he
    · rfl
    · exact hb.chain_inUse e he
  · rw [hlive, List.map_cons, List.map_cons, List.nodup_cons, List.nodup_cons]
    refine ⟨?_, ?_, hnodup.2⟩
    · simp only [List.mem_cons, cfShashFillElement, not_or]
      exact ⟨hnot b.head (List.mem_cons_self ..), hnodup.1⟩
    · simp only [cfShashFillElement, List.mem_map, not_exists, not_and]
      exact fun e he hek => hnot e (List.mem_cons_of_mem _ he) hek
  · intro e he
    rw [hlive] at he
    rcases List.mem_cons.mp he with rfl | he
    · exact hb.hash_eq _ (hold ▸ List.mem_cons_self ..)
    rcases List.mem_cons.mp he with rfl | he
    · exact hk
    · exact hb.hash_eq e (hold ▸ List.mem_cons_of_mem _ he)
  · rw [ShashBucket.entries, hlive, ShashBucket.entries, hold]
    simp only [ShashBucket.eles, List.map_cons]
    by_cases hkh : k = b.head.key
    · have hne : k ≠ key := hkh ▸ hnot b.head (List.mem_cons_self ..)
      subst hkh
      simp [hne]
    · rw [KeyList.lookup_cons_of_ne hkh, KeyList.lookup_cons_of_ne hkh]
      by_cases hkk : k = key
      · subst hkk
        simp [cfShashFillElement]
      · simp [cfShashFillElement, KeyList.lookup_cons_of_ne hkk, hkk]

omit [Inhabited K] [Inhabited V] in
theorem lookup_of_not_inUse (hnot : b.head.inUse = false) (k : K) : b.entries.lookup k = none := by
  simp [ShashBucket.entries, live_of_not_inUse hnot]

omit [Inhabited K] [Inhabited V] in
theorem BucketOk.lookup_of_findIdx_none (hb : BucketOk hash i b) (hin : b.head.inUse = true)
    (hnone : b.eles.findIdx? (·.key = key) = none) : b.entries.lookup key = none := by
  have hnot : ∀ e ∈ b.eles, e.key ≠ key := by simpa using List.findIdx?_eq_none_iff.mp hnone
  apply KeyList.lookup_eq_none_of_not_mem
  rw [keys_entries, hb.live_of_inUse hin]
  simpa using hnot

theorem lookup_of_findIdx_live (hb : BucketOk hash i b) {pos : ℕ}
    (hpos : b.live.findIdx? (·.key = key) = some pos) :
    pos < b.live.length ∧ b.entries.lookup key = some (b.live.getD pos ShashEle.cleared).value := by
  obtain ⟨hlt, hkey, -⟩ := List.findIdx?_eq_some_iff_getElem.mp hpos
  refine ⟨hlt, KeyList.lookup_eq_some_of_mem hb.nodup_entries ?_⟩
  rw [ShashBucket.entries, List.getD_eq_getElem?_getD, List.getElem?_eq_getElem hlt, Option.getD_some]
  have hk : b.live[pos].key = key := by simpa using hkey
  exact List.mem_map.mpr ⟨b.live[pos], List.getElem_mem hlt, by rw [hk]⟩

omit [Inhabited K] [Inhabited V] in
theorem lookup_of_findIdx_live_none (hnone : b.live.findIdx? (·.key = key) = none) :
    b.entries.lookup key = none := by
  have hnot : ∀ e ∈ b.live, e.key ≠ key := by simpa using List.findIdx?_eq_none_iff.mp hnone
  apply KeyList.lookup_eq_none_of_not_mem
  rw [keys_entries]
  simpa using hnot

omit [Inhabited K] [Inhabited V] in
theorem BucketOk.lookup_removeAt (hb : BucketOk hash i b) {pos : ℕ}
    (hpos : b.live.findIdx? (·.key = key) = some pos) (k : K) :
    (b.removeAt pos).entries.lookup k = if k = key then none else b.entries.lookup k := by
  obtain ⟨hlt, hkey, -⟩ := List.findIdx?_eq_some_iff_getElem.mp hpos
  have hlt' : pos < b.entries.length := by simpa [ShashBucket.entries] using hlt
  have hfst : b.entries[pos].1 = key := by simpa [ShashBucket.entries] using hkey
  rw [ShashBucket.entries, (hb.removeAt hlt).2, ← List.eraseIdx_map, ← ShashBucket.entries,
    KeyList.lookup_eraseIdx hb.nodup_entries hlt', hfst]

end Lookup

/-! ### The operations as map operations -/

theorem cfShashCreate_ok {hFn : K → UInt32} {nBuckets : UInt32} (hc : cfShashCreate hFn nBuckets = some h) :
    h.Ok ∧ h.toMap = fun _ => none := by
  unfold cfShashCreate at hc
  split_ifs at hc with hn
  obtain rfl := Option.some.inj hc
  have hpos : 0 < nBuckets.toNat := Nat.pos_of_ne_zero fun h0 => hn (UInt32.toNat_inj.mp (by simpa using h0))
  have hcleared : (ShashBucket.cleared : ShashBucket K V).live = [] := live_of_not_inUse rfl
  refine ⟨⟨hpos, List.length_replicate, fun j hj => ?_, ?_⟩, funext fun k => ?_⟩
  · rw [List.getElem_replicate]
    exact ⟨fun _ => rfl, fun e he => by simp [ShashBucket.cleared] at he, by simp [hcleared],
      by simp [hcleared]⟩
  · simp [hcleared]
  · simp [CfShash.toMap, ShashBucket.entries, hcleared]

variable (hOk : h.Ok) (key : K)
include hOk

theorem put_spec (value : V) :
    (cfShashPut h key value).Ok ∧ (cfShashPut h key value).toMap = Function.update h.toMap key (some value) := by
  have hi := calculateHash_lt hOk key
  have hb := hOk.bucketOk _ hi
  rw [← getBucket_eq hi] at hb
  unfold cfShashPut
  dsimp only
  split_ifs with hin
  · obtain ⟨hb', hlen, hlook⟩ := hb.fill (by simpa using hin) rfl value
    exact hOk.update_bucket hb' hlook _ rfl rfl rfl (by simp only [CfShash.sizeIncr, CfShash.setBucket]; omega)
  · have hin' : (cfShashGetBucket h (cfShashCalculateHash h key)).head.inUse = true := by simpa using hin
    split
    · rename_i pos hpos
      obtain ⟨hb', hlen⟩ := hb.setValue hin' pos value
      exact hOk.update_bucket hb' (hb.lookup_setValue hin' hpos value) _ rfl rfl rfl
        (by simp only [CfShash.setBucket]; omega)
    · rename_i hnone
      obtain ⟨hb', hlen, hlook⟩ := hb.insert hin' hnone rfl value
      exact hOk.update_bucket hb' hlook _ rfl rfl rfl
        (by simp only [CfShash.sizeIncr, CfShash.setBucket]; omega)

theorem putUnique_spec (value : V) :
    (cfShashPutUnique h key value).1.Ok ∧
      (h.toMap key = none → (cfShashPutUnique h key value).2 = cfShashOk ∧
        (cfShashPutUnique h key value).1.toMap = Function.update h.toMap key (some value)) ∧
      (h.toMap key ≠ none →
        (cfShashPutUnique h key value).2 = cfShashErrFound ∧ (cfShashPutUnique h key value).1 = h) := by
  have hi := calculateHash_lt hOk key
  have hb := hOk.bucketOk _ hi
  rw [← getBucket_eq hi] at hb
  have hmap := hOk.toMap_eq key
  unfold cfShashPutUnique
  dsimp only
  by_cases hin : (cfShashGetBucket h (cfShashCalculateHash h key)).head.inUse
  · rw [if_neg (by simp [hin])]
    split
    · rename_i pos hpos
      have hsome := (hb.lookup_of_findIdx hin hpos).2.2
      exact ⟨hOk, fun hnone => by simp [hmap, hsome] at hnone, fun _ => ⟨rfl, rfl⟩⟩
    · rename_i hnone
      obtain ⟨hb', hlen, hlook⟩ := hb.insert hin hnone rfl value
      obtain ⟨hOk', hmap'⟩ := hOk.update_bucket hb' hlook
        (h.setBucket (cfShashCalculateHash h key) _).sizeIncr rfl rfl rfl
        (by simp only [CfShash.sizeIncr, CfShash.setBucket]; omega)
      exact ⟨hOk', fun _ => ⟨rfl, hmap'⟩,
        fun hne => absurd (hmap.trans (hb.lookup_of_findIdx_none hin hnone)) hne⟩
  · have hnot : (cfShashGetBucket h (cfShashCalculateHash h key)).head.inUse = false := by simpa using hin
    rw [if_pos (by simp [hnot])]
    obtain ⟨hb', hlen, hlook⟩ := hb.fill hnot rfl value
    obtain ⟨hOk', hmap'⟩ := hOk.update_bucket hb' hlook
      (h.setBucket (cfShashCalculateHash h key) _).sizeIncr rfl rfl rfl
      (by simp only [CfShash.sizeIncr, CfShash.setBucket]; omega)
    exact ⟨hOk', fun _ => ⟨rfl, hmap'⟩, fun hne => absurd (hmap.trans (lookup_of_not_inUse hnot key)) hne⟩

/-- `cf_shash_update` calls `update_fn` once, with the key's value when the map
has one and a `value_old` buffer is given, and stores what it leaves in
`value_new`. -/
theorem update_spec (valueOld : Bool) (valueNew : V) (updateFn : σ → K → Option V → V → σ × V)
    (udata : σ) :
    (cfShashUpdate h key valueOld valueNew updateFn udata).1.Ok ∧
      ((cfShashUpdate h key valueOld valueNew updateFn udata).2.1,
        (cfShashUpdate h key valueOld valueNew updateFn udata).2.2.2) =
        updateFn udata key (if valueOld then h.toMap key else none) valueNew ∧
      (cfShashUpdate h key valueOld valueNew updateFn udata).1.toMap =
        Function.update h.toMap key (some (cfShashUpdate h key valueOld valueNew updateFn udata).2.2.2) := by
  have hi := calculateHash_lt hOk key
  have hb := hOk.bucketOk _ hi
  rw [← getBucket_eq hi] at hb
  have hmap := hOk.toMap_eq key
  unfold cfShashUpdate
  dsimp only
  by_cases hin : (cfShashGetBucket h (cfShashCalculateHash h key)).head.inUse
  · rw [if_neg (by simp [hin])]
    split
    · rename_i pos hpos
      have hsome := (hb.lookup_of_findIdx hin hpos).2.2
      have harg : (if valueOld then some ((cfShashGetBucket h (cfShashCalculateHash h key)).eles.getD pos
          ShashEle.cleared).value else none) = if valueOld then h.toMap key else none := by
        rw [hmap, hsome]
      rw [harg]
      obtain ⟨hb', hlen⟩ :=
        hb.setValue hin pos (updateFn udata key (if valueOld then h.toMap key else none) valueNew).2
      obtain ⟨hOk', hmap'⟩ := hOk.update_bucket hb' (hb.lookup_setValue hin hpos _)
        (h.setBucket (cfShashCalculateHash h key) _) rfl rfl rfl (by simp only [CfShash.setBucket]; omega)
      exact ⟨hOk', rfl, hmap'⟩
    · rename_i hnone
      have hnone' : h.toMap key = none := hmap.trans (hb.lookup_of_findIdx_none hin hnone)
      obtain ⟨hb', hlen, hlook⟩ := hb.insert hin hnone rfl (updateFn udata key none valueNew).2
      obtain ⟨hOk', hmap'⟩ := hOk.update_bucket hb' hlook
        (h.setBucket (cfShashCalculateHash h key) _).sizeIncr rfl rfl rfl
        (by simp only [CfShash.sizeIncr, CfShash.setBucket]; omega)
      exact ⟨hOk', by simp [hnone'], hmap'⟩
  · have hnot : (cfShashGetBucket h (cfShashCalculateHash h key)).head.inUse = false := by simpa using hin
    rw [if_pos (by simp [hnot])]
    have hnone : h.toMap key = none := hmap.trans (lookup_of_not_inUse hnot key)
    obtain ⟨hb', hlen, hlook⟩ := hb.fill hnot rfl (updateFn udata key none valueNew).2
    obtain ⟨hOk', hmap'⟩ := hOk.update_bucket hb' hlook
      (h.setBucket (cfShashCalculateHash h key) _).sizeIncr rfl rfl rfl
      (by simp only [CfShash.sizeIncr, CfShash.setBucket]; omega)
    exact ⟨hOk', by simp [hnone], hmap'⟩

theorem get_spec : cfShashGet h key = match h.toMap key with
    | some v => (cfShashOk, some v)
    | none => (cfShashErrNotFound, none) := by
  unfold cfShashGet
  dsimp only
  rw [hOk.toMap_eq, lookup_entries]
  cases (cfShashGetBucket h (cfShashCalculateHash h key)).live.find? (·.key = key) <;> rfl

theorem deleteOrPop_spec :
    (cfShashDeleteOrPop h key).1.Ok ∧ (cfShashDeleteOrPop h key).2.2 = h.toMap key ∧
      (h.toMap key = none →
        (cfShashDeleteOrPop h key).2.1 = cfShashErrNotFound ∧ (cfShashDeleteOrPop h key).1 = h) ∧
      (h.toMap key ≠ none → (cfShashDeleteOrPop h key).2.1 = cfShashOk ∧
        (cfShashDeleteOrPop h key).1.toMap = Function.update h.toMap key none) := by
  have hi := calculateHash_lt hOk key
  have hb := hOk.bucketOk _ hi
  have hle : (cfShashGetBucket h (cfShashCalculateHash h key)).live.length ≤ h.nElements := by
    rw [getBucket_eq hi, hOk.nElements_eq]
    exact List.le_sum_of_mem (List.mem_map_of_mem (List.getElem_mem hi))
  rw [← getBucket_eq hi] at hb
  have hmap := hOk.toMap_eq key
  unfold cfShashDeleteOrPop
  dsimp only
  split
  · rename_i pos hpos
    obtain ⟨hlt, hsome⟩ := lookup_of_findIdx_live hb hpos
    obtain ⟨hb', hlive⟩ := hb.removeAt hlt
    obtain ⟨hOk', hmap'⟩ := hOk.update_bucket hb' (hb.lookup_removeAt hpos)
      (h.setBucket (cfShashCalculateHash h key) _).sizeDecr rfl rfl rfl (by simp only [CfShash.sizeDecr, CfShash.setBucket, hlive, List.length_eraseIdx_of_lt hlt]; omega)
    exact ⟨hOk', by rw [hmap, hsome], fun hnone => by simp [hmap, hsome] at hnone, fun _ => ⟨rfl, hmap'⟩⟩
  · rename_i hnone
    have hnone' : h.toMap key = none := hmap.trans (lookup_of_findIdx_live_none hnone)
    exact ⟨hOk, hnone'.symm, fun _ => ⟨rfl, rfl⟩, fun hne => absurd hnone' hne⟩

omit [Inhabited K] [Inhabited V] in
theorem deleteAll_spec : (cfShashDeleteAll h).Ok ∧ (cfShashDeleteAll h).toMap = fun _ => none := by
  have hfreed : (h.table.map fun b => b.chain.length + if b.head.inUse then 1 else 0).sum = h.nElements := by
    rw [hOk.nElements_eq]
    congr 1
    refine List.map_congr_left fun b hb => ?_
    obtain ⟨j, hj, rfl⟩ := List.getElem_of_mem hb
    exact ((hOk.bucketOk j hj).live_length).symm
  have htable : (cfShashDeleteAll h).table = h.table.map ShashBucket.deleteAll := rfl
  refine ⟨⟨hOk.nBuckets_pos, by rw [htable, List.length_map, hOk.length_table]; rfl, fun j hj => ?_, ?_⟩, ?_⟩
  · simp only [htable, List.getElem_map]
    exact bucketOk_deleteAll _
  · show h.nElements - _ = _
    rw [hfreed, htable, List.map_map]
    simp [Function.comp_def, live_deleteAll]
  · funext k
    rw [CfShash.toMap, htable, List.map_map]
    simp [Function.comp_def, ShashBucket.entries, live_deleteAll]

end Table

end Aerospike.Shash
