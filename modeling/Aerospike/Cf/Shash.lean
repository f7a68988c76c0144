import Aerospike.Lib.KeyList

/-! # The fixed-size hash table

`cf_shash` (`shash.c`) keeps `n_buckets` buckets in one table. The first
element of a bucket lives in the table itself and has an `in_use` flag; more
elements are allocated and chained from it by `next`, each new one just after
the head. Keys and values are fixed-size byte strings compared by `memcmp`:
here they are any types with decidable equality on keys. The lock modes only
lock, so the model is the data; `udata`, which the callbacks of
`cf_shash_update` and `cf_shash_reduce` read and write, is a state `σ` passed
along.

A table stands for the partial map of the keys of its elements in use to their
values. The representation invariant `CfShash.Ok` says what the walks rely on:
a head not in use has no chain, the chain is in use, and the keys of a bucket
are distinct and hash to it.
-/

namespace Aerospike.Shash

/-- `cf_shash_ele`: whether the element is in use, its key and its value. -/
structure ShashEle (K V : Type) where
  inUse : Bool
  key : K
  value : V
deriving DecidableEq, Repr

/-- A bucket: the element in the table, and the chain its `next` reaches. -/
structure ShashBucket (K V : Type) where
  head : ShashEle K V
  chain : List (ShashEle K V)
deriving DecidableEq, Repr

/-- `cf_shash`: the hash function, the number of buckets, the element count
and the table of buckets. -/
structure CfShash (K V : Type) where
  hFn : K → UInt32
  nBuckets : UInt32
  nElements : ℕ
  table : List (ShashBucket K V)

def cfShashOk : Int := 0

def cfShashReduceDelete : Int := 1

def cfShashErrNotFound : Int := -3

def cfShashErrFound : Int := -4

variable {K V σ : Type}

def ShashBucket.eles (b : ShashBucket K V) : List (ShashEle K V) := b.head :: b.chain

/-- The elements the walks of `cf_shash_get`, `cf_shash_delete` and
`cf_shash_reduce` visit: from the head, while in use. -/
def ShashBucket.live (b : ShashBucket K V) : List (ShashEle K V) := b.eles.takeWhile (·.inUse)

/-- The element `cf_shash_fill_element` writes (its size increment is the
caller's `sizeIncr` here). -/
def cfShashFillElement (key : K) (value : V) : ShashEle K V := ⟨true, key, value⟩

/-- The value of the element at position `pos` of the walk replaced. -/
def ShashBucket.setValue (b : ShashBucket K V) (pos : ℕ) (value : V) : ShashBucket K V :=
  match pos with
  | 0 => { b with head := { b.head with value := value } }
  | p + 1 => { b with chain := b.chain.modify p fun e => { e with value := value } }

def ShashBucket.insertAfterHead (b : ShashBucket K V) (e : ShashEle K V) : ShashBucket K V :=
  { b with chain := e :: b.chain }

/-- The element at position `pos` of the walk removed, as the deletes and the
reduce do it: past the head the previous element is patched to skip it; a head
alone is marked not in use; a head with a successor has the successor copied
over it, its `next` and `in_use` included. -/
def ShashBucket.removeAt (b : ShashBucket K V) : ℕ → ShashBucket K V
  | 0 =>
    match b.chain with
    | [] => { b with head := { b.head with inUse := false } }
    | e :: es => ⟨e, es⟩
  | p + 1 => { b with chain := b.chain.eraseIdx p }

/-- The table with bucket `i` written. -/
def CfShash.setBucket (h : CfShash K V) (i : ℕ) (b : ShashBucket K V) : CfShash K V :=
  { h with table := h.table.set i b }

def CfShash.sizeIncr (h : CfShash K V) : CfShash K V := { h with nElements := h.nElements + 1 }

def CfShash.sizeDecr (h : CfShash K V) : CfShash K V := { h with nElements := h.nElements - 1 }

def cfShashGetSize (h : CfShash K V) : ℕ := h.nElements

def cfShashCalculateHash (h : CfShash K V) (key : K) : ℕ := (h.hFn key % h.nBuckets).toNat

section Table

variable [DecidableEq K] [Inhabited K] [Inhabited V]

/-- A head as `cf_shash_clear_table` leaves it: not in use, over whatever the
table's memory held. -/
def ShashEle.cleared : ShashEle K V := ⟨false, default, default⟩

/-- A bucket as `cf_shash_clear_table` leaves it. -/
def ShashBucket.cleared : ShashBucket K V := ⟨ShashEle.cleared, []⟩

/-- `cf_shash_create`: a cleared table; `none` where its assert fails. -/
def cfShashCreate (hFn : K → UInt32) (nBuckets : UInt32) : Option (CfShash K V) :=
  if nBuckets = 0 then none
  else some ⟨hFn, nBuckets, 0, List.replicate nBuckets.toNat ShashBucket.cleared⟩

def cfShashGetBucket (h : CfShash K V) (i : ℕ) : ShashBucket K V := h.table.getD i ShashBucket.cleared

/-- `cf_shash_put`: the key's value replaced where an element has it, else a
new element, in the head when it is not in use. -/
def cfShashPut (h : CfShash K V) (key : K) (value : V) : CfShash K V :=
  let hash := cfShashCalculateHash h key
  let e := cfShashGetBucket h hash
  if !e.head.inUse then (h.setBucket hash { e with head := cfShashFillElement key value }).sizeIncr
  else
    match e.eles.findIdx? (·.key = key) with
    | some pos => h.setBucket hash (e.setValue pos value)
    | none => (h.setBucket hash (e.insertAfterHead (cfShashFillElement key value))).sizeIncr

/-- `cf_shash_put_unique`: `CF_SHASH_ERR_FOUND` where an element has the key,
else a new element. -/
def cfShashPutUnique (h : CfShash K V) (key : K) (value : V) : CfShash K V × Int :=
  let hash := cfShashCalculateHash h key
  let e := cfShashGetBucket h hash
  if !e.head.inUse then ((h.setBucket hash { e with head := cfShashFillElement key value }).sizeIncr, cfShashOk)
  else
    match e.eles.findIdx? (·.key = key) with
    | some _ => (h, cfShashErrFound)
    | none => ((h.setBucket hash (e.insertAfterHead (cfShashFillElement key value))).sizeIncr, cfShashOk)

/-- `cf_shash_update`: `update_fn` is called with the key, the old value when an
element has the key and a `value_old` buffer is given, and `value_new`; what it
leaves in `value_new` is stored. Returns the table, `udata`, what `value_old`
receives and `value_new`. -/
def cfShashUpdate (h : CfShash K V) (key : K) (valueOld : Bool) (valueNew : V)
    (updateFn : σ → K → Option V → V → σ × V) (udata : σ) : CfShash K V × σ × Option V × V :=
  let hash := cfShashCalculateHash h key
  let e := cfShashGetBucket h hash
  if !e.head.inUse then
    let r := updateFn udata key none valueNew
    ((h.setBucket hash { e with head := cfShashFillElement key r.2 }).sizeIncr, r.1, none, r.2)
  else
    match e.eles.findIdx? (·.key = key) with
    | some pos =>
      let old := if valueOld then some (e.eles.getD pos ShashEle.cleared).value else none
      let r := updateFn udata key old valueNew
      (h.setBucket hash (e.setValue pos r.2), r.1, old, r.2)
    | none =>
      let r := updateFn udata key none valueNew
      ((h.setBucket hash (e.insertAfterHead (cfShashFillElement key r.2))).sizeIncr, r.1, none, r.2)

/-- `cf_shash_get`: `CF_SHASH_OK` and the value of the element in use with the
key, or `CF_SHASH_ERR_NOT_FOUND`. -/
def cfShashGet (h : CfShash K V) (key : K) : Int × Option V :=
  let e := cfShashGetBucket h (cfShashCalculateHash h key)
  match e.live.find? (·.key = key) with
  | some f => (cfShashOk, some f.value)
  | none => (cfShashErrNotFound, none)

/-- `cf_shash_get_vlock`: the walk of `cf_shash_get`; the value comes back
through a pointer, with the bucket's lock held. -/
def cfShashGetVlock (h : CfShash K V) (key : K) : Int × Option V := cfShashGet h key

/-- `cf_shash_delete_or_pop`: the element in use with the key removed, and its
value; or `CF_SHASH_ERR_NOT_FOUND` and the table as it is. -/
def cfShashDeleteOrPop (h : CfShash K V) (key : K) : CfShash K V × Int × Option V :=
  let hash := cfShashCalculateHash h key
  let e := cfShashGetBucket h hash
  match e.live.findIdx? (·.key = key) with
  | some pos => ((h.setBucket hash (e.removeAt pos)).sizeDecr, cfShashOk, (e.live.getD pos ShashEle.cleared).value)
  | none => (h, cfShashErrNotFound, none)

def cfShashDelete (h : CfShash K V) (key : K) : CfShash K V × Int :=
  let r := cfShashDeleteOrPop h key
  (r.1, r.2.1)

/-- `cf_shash_delete_lockfree`: the walk and removal of `cf_shash_delete`,
without the lock. -/
def cfShashDeleteLockfree (h : CfShash K V) (key : K) : CfShash K V × Int := cfShashDelete h key

def cfShashGetAndDelete (h : CfShash K V) (key : K) : CfShash K V × Int × Option V :=
  cfShashDeleteOrPop h key

end Table

/-- A bucket after `cf_shash_delete_all`: the chain freed, the head not in use. -/
def ShashBucket.deleteAll (b : ShashBucket K V) : ShashBucket K V :=
  ⟨{ b.head with inUse := false }, []⟩

/-- `cf_shash_delete_all`: every bucket emptied, the count decremented once per
element freed and once per head in use. -/
def cfShashDeleteAll (h : CfShash K V) : CfShash K V :=
  { h with
    table := h.table.map ShashBucket.deleteAll
    nElements := h.nElements - (h.table.map fun b => b.chain.length + if b.head.inUse then 1 else 0).sum }

/-- The walk of `cf_shash_reduce` past the head, while in use: the chain left,
`udata`, the number deleted and the stopping return code. -/
def reduceChain (f : σ → K → V → Int × σ) (udata : σ) :
    List (ShashEle K V) → List (ShashEle K V) × σ × ℕ × Option Int
  | [] => ([], udata, 0, none)
  | e :: es =>
    if !e.inUse then (e :: es, udata, 0, none)
    else
      let r := f udata e.key e.value
      if r.1 = cfShashOk then
        let t := reduceChain f r.2 es
        (e :: t.1, t.2)
      else if r.1 = cfShashReduceDelete then
        let t := reduceChain f r.2 es
        (t.1, t.2.1, t.2.2.1 + 1, t.2.2.2)
      else (e :: es, r.2, 0, some r.1)

/-- The walk of `cf_shash_reduce` at the head of a bucket. -/
def reduceHead (f : σ → K → V → Int × σ) (udata : σ) (head : ShashEle K V)
    (chain : List (ShashEle K V)) : ShashBucket K V × σ × ℕ × Option Int :=
  if !head.inUse then (⟨head, chain⟩, udata, 0, none)
  else
    let r := f udata head.key head.value
    if r.1 = cfShashOk then
      let t := reduceChain f r.2 chain
      (⟨head, t.1⟩, t.2)
    else if r.1 = cfShashReduceDelete then
      match hc : chain with
      | [] => (⟨{ head with inUse := false }, []⟩, r.2, 1, none)
      | e :: es =>
        let t := reduceHead f r.2 e es
        (t.1, t.2.1, t.2.2.1 + 1, t.2.2.2)
    else (⟨head, chain⟩, r.2, 0, some r.1)
termination_by chain.length
decreasing_by simp

/-- The buckets of `cf_shash_reduce` in order, up to a stop. -/
def reduceTable (f : σ → K → V → Int × σ) (udata : σ) :
    List (ShashBucket K V) → List (ShashBucket K V) × σ × ℕ × Option Int
  | [] => ([], udata, 0, none)
  | b :: bs =>
    let t := reduceHead f udata b.head b.chain
    match t.2.2.2 with
    | some rv => (t.1 :: bs, t.2.1, t.2.2.1, some rv)
    | none =>
      let t' := reduceTable f t.2.1 bs
      (t.1 :: t'.1, t'.2.1, t.2.2.1 + t'.2.2.1, t'.2.2.2)

/-- `cf_shash_reduce`: `reduce_fn` on each element in use, bucket by bucket;
`CF_SHASH_REDUCE_DELETE` deletes the element, any other code but
`CF_SHASH_OK` stops the reduce and is returned. -/
def cfShashReduce (h : CfShash K V) (f : σ → K → V → Int × σ) (udata : σ) : CfShash K V × σ × Int :=
  let t := reduceTable f udata h.table
  ({ h with table := t.1, nElements := h.nElements - t.2.2.1 }, t.2.1, t.2.2.2.getD cfShashOk)

/-! ### Buckets -/

/-- The representation invariant of bucket `i` under the bucket function
`hash`: a head not in use has no chain, the chain is in use, and the keys of
the elements in use are distinct and hash to the bucket. -/
structure BucketOk (hash : K → ℕ) (i : ℕ) (b : ShashBucket K V) : Prop where
  chain_nil : b.head.inUse = false → b.chain = []
  chain_inUse : ∀ e ∈ b.chain, e.inUse = true
  nodup : (b.live.map (·.key)).Nodup
  hash_eq : ∀ e ∈ b.live, hash e.key = i

def ShashBucket.entries (b : ShashBucket K V) : List (K × V) := b.live.map fun e => (e.key, e.value)

section Bucket

variable {hash : K → ℕ} {i : ℕ} {b : ShashBucket K V}

theorem live_of_not_inUse (h : b.head.inUse = false) : b.live = [] := by
  simp [ShashBucket.live, ShashBucket.eles, h]

theorem BucketOk.live_of_inUse (hb : BucketOk hash i b) (h : b.head.inUse = true) : b.live = b.eles := by
  unfold ShashBucket.live
  rw [List.takeWhile_eq_self_iff]
  intro e he
  rcases List.mem_cons.mp he with rfl | he
  · exact h
  · exact hb.chain_inUse e he

theorem keys_entries (b : ShashBucket K V) : b.entries.map Prod.fst = b.live.map (·.key) := by
  simp [ShashBucket.entries]

theorem BucketOk.nodup_entries (hb : BucketOk hash i b) : (b.entries.map Prod.fst).Nodup :=
  keys_entries b ▸ hb.nodup

/-- A bucket whose elements in use are the given ones, all hashing to it with
distinct keys, is in order once its chain is in use and a head not in use has
none. -/
theorem BucketOk.of_live {b' : ShashBucket K V} (h1 : b'.head.inUse = false → b'.chain = [])
    (h2 : ∀ e ∈ b'.chain, e.inUse = true) (hnodup : (b'.live.map (·.key)).Nodup)
    (hhash : ∀ e ∈ b'.live, hash e.key = i) : BucketOk hash i b' :=
  ⟨h1, h2, hnodup, hhash⟩

/-! The elements in use after each edit of a bucket in order. -/

theorem live_fill (hb : BucketOk hash i b) (h : b.head.inUse = false) (key : K) (value : V) :
    ({ b with head := cfShashFillElement key value } : ShashBucket K V).live = [cfShashFillElement key value] := by
  simp [ShashBucket.live, ShashBucket.eles, hb.chain_nil h, cfShashFillElement]

theorem eles_setValue (pos : ℕ) (value : V) :
    (b.setValue pos value).eles = b.eles.modify pos fun e => { e with value := value } := by
  cases pos <;> simp [ShashBucket.setValue, ShashBucket.eles]

theorem live_setValue (pos : ℕ) (value : V) :
    (b.setValue pos value).live = b.live.modify pos fun e => { e with value := value } := by
  rw [ShashBucket.live, eles_setValue,
    KeyList.takeWhile_modify (f := fun (e : ShashEle K V) => { e with value := value }) (fun _ => rfl)]
  rfl

theorem entries_setValue (pos : ℕ) (value : V) :
    (b.setValue pos value).entries = b.entries.modify pos fun p => (p.1, value) := by
  rw [ShashBucket.entries, live_setValue,
    KeyList.map_modify (f := fun (e : ShashEle K V) => { e with value := value }) (u := fun p => (p.1, value)) (fun _ => rfl)]
  rfl

theorem BucketOk.live_insertAfterHead (hb : BucketOk hash i b) (h : b.head.inUse = true) {e : ShashEle K V}
    (he : e.inUse = true) : (b.insertAfterHead e).live = b.head :: e :: b.chain := by
  change (b.head :: e :: b.chain).takeWhile (·.inUse) = _
  rw [List.takeWhile_eq_self_iff]
  intro x hx
  simp only [List.mem_cons] at hx
  rcases hx with rfl | rfl | hx
  · exact h
  · exact he
  · exact hb.chain_inUse x hx

theorem head_inUse_of_lt_live {pos : ℕ} (hpos : pos < b.live.length) : b.head.inUse = true := by
  by_contra hne
  rw [live_of_not_inUse (by simpa using hne)] at hpos
  exact Nat.not_lt_zero _ hpos

theorem BucketOk.live_removeAt (hb : BucketOk hash i b) {pos : ℕ} (hpos : pos < b.live.length) :
    (b.removeAt pos).live = b.live.eraseIdx pos := by
  have hin := head_inUse_of_lt_live hpos
  rw [hb.live_of_inUse hin]
  match pos, hc : b.chain with
  | 0, [] => simp [ShashBucket.removeAt, hc, ShashBucket.eles, ShashBucket.live]
  | 0, e :: es =>
    have hall : ∀ x ∈ e :: es, x.inUse = true := hc ▸ hb.chain_inUse
    simp only [ShashBucket.removeAt, hc, ShashBucket.eles, ShashBucket.live, List.eraseIdx_cons_zero]
    exact List.takeWhile_eq_self_iff.mpr hall
  | p + 1, _ =>
    simp only [ShashBucket.removeAt, ShashBucket.live, ShashBucket.eles, List.eraseIdx_cons_succ]
    rw [List.takeWhile_eq_self_iff]
    intro x hx
    rcases List.mem_cons.mp hx with rfl | hx
    · exact hin
    · exact hb.chain_inUse x (List.mem_of_mem_eraseIdx hx)

end Bucket

end Aerospike.Shash
