import Aerospike.Cf.ShashMap

/-! # The reduce of the hash table

`cf_shash_reduce` calls `reduce_fn` on the elements in use bucket by bucket and
deletes those it answers `CF_SHASH_REDUCE_DELETE` for. A deleted head with a
successor has the successor copied over it and is visited again, so the walk
sees each pair of the bucket once, in order. The reduce is shown to be
`reducePairs`, the same callback over the table's pairs in table order.
-/

namespace Aerospike.Shash

variable {K V σ : Type}

/-- `reduce_fn` over a list of pairs in order: the pairs kept, the state and
the code that stopped it. -/
def reducePairs (f : σ → K → V → Int × σ) (u : σ) : List (K × V) → List (K × V) × σ × Option Int
  | [] => ([], u, none)
  | p :: ps =>
    let r := f u p.1 p.2
    if r.1 = cfShashOk then
      let t := reducePairs f r.2 ps
      (p :: t.1, t.2)
    else if r.1 = cfShashReduceDelete then reducePairs f r.2 ps
    else (p :: ps, r.2, some r.1)

section Cons

variable {f : σ → K → V → Int × σ} {u : σ} {p : K × V} {ps : List (K × V)}

theorem reducePairs_cons_ok (h : (f u p.1 p.2).1 = cfShashOk) :
    reducePairs f u (p :: ps) =
      (p :: (reducePairs f (f u p.1 p.2).2 ps).1, (reducePairs f (f u p.1 p.2).2 ps).2) := by
  rw [reducePairs, if_pos h]

theorem reducePairs_cons_delete (h : (f u p.1 p.2).1 = cfShashReduceDelete) :
    reducePairs f u (p :: ps) = reducePairs f (f u p.1 p.2).2 ps := by
  rw [reducePairs, if_neg (by rw [h]; decide), if_pos h]

theorem reducePairs_cons_stop (hok : (f u p.1 p.2).1 ≠ cfShashOk)
    (hdel : (f u p.1 p.2).1 ≠ cfShashReduceDelete) :
    reducePairs f u (p :: ps) = (p :: ps, (f u p.1 p.2).2, some (f u p.1 p.2).1) := by
  rw [reducePairs, if_neg hok, if_neg hdel]

end Cons

theorem reducePairs_append (f : σ → K → V → Int × σ) :
    ∀ (u : σ) (ps qs : List (K × V)), reducePairs f u (ps ++ qs) =
      match (reducePairs f u ps).2.2 with
      | some rv => ((reducePairs f u ps).1 ++ qs, (reducePairs f u ps).2.1, some rv)
      | none =>
        ((reducePairs f u ps).1 ++ (reducePairs f (reducePairs f u ps).2.1 qs).1,
          (reducePairs f (reducePairs f u ps).2.1 qs).2)
  | u, [], qs => rfl
  | u, p :: ps, qs => by
    simp only [List.cons_append, reducePairs]
    split_ifs with hok hdel
    · rw [reducePairs_append f _ ps qs]
      split <;> simp_all
    · exact reducePairs_append f _ ps qs
    · rfl

theorem reducePairs_of_ok {f : σ → K → V → Int × σ} (hok : ∀ u k v, (f u k v).1 = cfShashOk) :
    ∀ (u : σ) (ps : List (K × V)),
      reducePairs f u ps = (ps, ps.foldl (fun u p => (f u p.1 p.2).2) u, none)
  | _, [] => rfl
  | u, p :: ps => by
    rw [reducePairs_cons_ok (hok u p.1 p.2), reducePairs_of_ok hok _ ps]
    rfl

/-- The walk past the head is the reduce of the chain's pairs: what it keeps,
the state and the stop; it keeps a part of the chain, and counts what it
drops. By induction on the chain. -/
theorem reduceChain_spec (f : σ → K → V → Int × σ) :
    ∀ (u : σ) (es : List (ShashEle K V)), (∀ e ∈ es, e.inUse = true) →
      (((reduceChain f u es).1.map fun e => (e.key, e.value)), (reduceChain f u es).2.1,
        (reduceChain f u es).2.2.2) = reducePairs f u (es.map fun e => (e.key, e.value)) ∧
      List.Sublist (reduceChain f u es).1 es ∧
      (reduceChain f u es).2.2.1 + (reduceChain f u es).1.length = es.length
  | u, [], _ => ⟨rfl, List.Sublist.slnil, rfl⟩
  | u, e :: es, hin => by
    have he : e.inUse = true := hin e (List.mem_cons_self ..)
    obtain ⟨ih, hsub, hcount⟩ := reduceChain_spec f (f u e.key e.value).2 es
      fun x hx => hin x (List.mem_cons_of_mem _ hx)
    simp only [reduceChain, he, Bool.not_true, Bool.false_eq_true, if_false, List.map_cons, reducePairs]
    split_ifs with hok hdel
    · refine ⟨by rw [← ih]; rfl, hsub.cons_cons e, ?_⟩
      simp only [List.length_cons]
      omega
    · exact ⟨ih, hsub.cons e, by simp only [List.length_cons]; omega⟩
    · exact ⟨rfl, List.Sublist.refl _, by simp⟩

def ShapeOk (b : ShashBucket K V) : Prop :=
  (b.head.inUse = false → b.chain = []) ∧ ∀ e ∈ b.chain, e.inUse = true

theorem live_of_shapeOk {b : ShashBucket K V} (hs : ShapeOk b) (hin : b.head.inUse = true) : b.live = b.eles := by
  unfold ShashBucket.live
  rw [List.takeWhile_eq_self_iff]
  intro e he
  rcases List.mem_cons.mp he with rfl | he
  · exact hin
  · exact hs.2 e he

theorem entries_of_shapeOk {b : ShashBucket K V} (hs : ShapeOk b) (hin : b.head.inUse = true) :
    b.entries = (b.head.key, b.head.value) :: b.chain.map fun e => (e.key, e.value) := by
  simp [ShashBucket.entries, live_of_shapeOk hs hin, ShashBucket.eles]

/-- The walk at the head is the reduce of the bucket's pairs; it leaves a
bucket of the same shape, with a part of the elements in use, and counts what
it drops. By the walk's own induction: a deleted head with a successor has the
successor copied over it, and the walk starts again on a shorter chain. -/
theorem reduceHead_spec (f : σ → K → V → Int × σ) (u : σ) (head : ShashEle K V)
    (chain : List (ShashEle K V)) (hs : ShapeOk ⟨head, chain⟩) :
    ((reduceHead f u head chain).1.entries, (reduceHead f u head chain).2.1,
      (reduceHead f u head chain).2.2.2) = reducePairs f u (⟨head, chain⟩ : ShashBucket K V).entries ∧
    ShapeOk (reduceHead f u head chain).1 ∧
    List.Sublist (reduceHead f u head chain).1.live (⟨head, chain⟩ : ShashBucket K V).live ∧
    (reduceHead f u head chain).2.2.1 + (reduceHead f u head chain).1.live.length =
      (⟨head, chain⟩ : ShashBucket K V).live.length := by
  induction u, head, chain using reduceHead.induct f with
  | case1 u head chain hnot =>
    have hlive : (⟨head, chain⟩ : ShashBucket K V).live = [] := live_of_not_inUse (by simpa using hnot)
    rw [reduceHead, if_pos hnot]
    simp [ShashBucket.entries, hlive, reducePairs, hs]
  | case2 u head chain hin r hok =>
    have hin' : head.inUse = true := by simpa using hin
    have hok : (f u head.key head.value).1 = cfShashOk := hok
    obtain ⟨hc, hsub, hcount⟩ := reduceChain_spec f (f u head.key head.value).2 chain hs.2
    have hs' : ShapeOk (⟨head, (reduceChain f (f u head.key head.value).2 chain).1⟩ : ShashBucket K V) :=
      ⟨fun h => by simp [hin'] at h, fun e he => hs.2 e (hsub.subset he)⟩
    rw [reduceHead, if_neg hin, if_pos hok]
    dsimp only
    rw [entries_of_shapeOk hs' hin', entries_of_shapeOk hs hin', live_of_shapeOk hs' hin',
      live_of_shapeOk hs hin']
    dsimp only
    rw [reducePairs_cons_ok hok, ← hc]
    refine ⟨rfl, hs', hsub.cons_cons head, ?_⟩
    simp only [ShashBucket.eles, List.length_cons]
    omega
  | case3 u head hin r hnok hdel =>
    have hin' : head.inUse = true := by simpa using hin
    have hdel : (f u head.key head.value).1 = cfShashReduceDelete := hdel
    rw [reduceHead, if_neg hin, if_neg hnok, if_pos hdel]
    dsimp only
    rw [entries_of_shapeOk hs hin', live_of_shapeOk hs hin', live_of_not_inUse rfl]
    dsimp only
    rw [reducePairs_cons_delete hdel]
    exact ⟨by simp [ShashBucket.entries, live_of_not_inUse, reducePairs], ⟨fun _ => rfl, by simp⟩,
      List.nil_sublist _, rfl⟩
  | case4 u head hin r hnok hdel e es ih =>
    have hin' : head.inUse = true := by simpa using hin
    have hdel : (f u head.key head.value).1 = cfShashReduceDelete := hdel
    have he : e.inUse = true := hs.2 e (List.mem_cons_self ..)
    have hse : ShapeOk (⟨e, es⟩ : ShashBucket K V) :=
      ⟨fun h => by simp [he] at h, fun x hx => hs.2 x (List.mem_cons_of_mem _ hx)⟩
    obtain ⟨hr, hshape, hsub, hcount⟩ := ih hse
    dsimp only [r] at hr hshape hsub hcount
    rw [reduceHead, if_neg hin, if_neg hnok, if_pos hdel]
    dsimp only
    rw [entries_of_shapeOk hs hin', live_of_shapeOk hs hin']
    dsimp only
    rw [reducePairs_cons_delete hdel]
    rw [entries_of_shapeOk hse he] at hr
    rw [live_of_shapeOk hse he] at hsub hcount
    refine ⟨hr, hshape, hsub.cons head, ?_⟩
    simp only [ShashBucket.eles, List.length_cons] at hcount ⊢
    omega
  | case5 u head chain hin r hnok hndel =>
    have hin' : head.inUse = true := by simpa using hin
    rw [reduceHead, if_neg hin, if_neg hnok, if_neg hndel]
    dsimp only
    rw [entries_of_shapeOk hs hin']
    dsimp only
    rw [reducePairs_cons_stop hnok hndel]
    exact ⟨rfl, hs, List.Sublist.refl _, Nat.zero_add _⟩

/-- The buckets walked one after another are the reduce of the table's pairs in
table order; each bucket keeps its shape and a part of its elements in use,
and the count is what was dropped. By induction on the buckets: a stop in a
bucket leaves the later ones as they are. -/
theorem reduceTable_spec (f : σ → K → V → Int × σ) :
    ∀ (u : σ) (bs : List (ShashBucket K V)), (∀ b ∈ bs, ShapeOk b) →
      (((reduceTable f u bs).1.map ShashBucket.entries).flatten, (reduceTable f u bs).2.1,
        (reduceTable f u bs).2.2.2) = reducePairs f u (bs.map ShashBucket.entries).flatten ∧
      List.Forall₂ (fun b' b => ShapeOk b' ∧ List.Sublist b'.live b.live) (reduceTable f u bs).1 bs ∧
      (reduceTable f u bs).2.2.1 + ((reduceTable f u bs).1.map fun b => b.live.length).sum =
        (bs.map fun b => b.live.length).sum
  | u, [], _ => ⟨rfl, List.Forall₂.nil, rfl⟩
  | u, b :: bs, hs => by
    have hbs : ∀ x ∈ bs, ShapeOk x := fun x hx => hs x (List.mem_cons_of_mem _ hx)
    obtain ⟨hr, hshape, hsub, hcount⟩ := reduceHead_spec f u b.head b.chain (hs b (List.mem_cons_self ..))
    change List.Sublist _ b.live at hsub
    change _ = b.live.length at hcount
    simp only [reduceTable, List.map_cons, List.flatten_cons]
    rw [reducePairs_append, ← hr]
    generalize reduceHead f u b.head b.chain = t at hshape hsub hcount ⊢
    obtain ⟨b', u', n, stop⟩ := t
    cases stop with
    | some rv =>
      refine ⟨rfl, List.Forall₂.cons ⟨hshape, hsub⟩ (List.forall₂_same.mpr fun x hx => ⟨hbs x hx, .refl _⟩), ?_⟩
      simp only [List.map_cons, List.sum_cons] at hcount ⊢
      omega
    | none =>
      obtain ⟨ih, hall, hcount'⟩ := reduceTable_spec f u' bs hbs
      dsimp only at ih ⊢
      rw [← ih]
      refine ⟨rfl, List.Forall₂.cons ⟨hshape, hsub⟩ hall, ?_⟩
      simp only [List.map_cons, List.sum_cons] at hcount ⊢
      omega

section Table

variable {h : CfShash K V}

theorem CfShash.Ok.nodup_keys (hOk : h.Ok) : ((h.table.map ShashBucket.entries).flatten.map Prod.fst).Nodup := by
  rw [List.map_flatten, List.nodup_flatten, List.map_map]
  constructor
  · intro l hl
    obtain ⟨b, hb, rfl⟩ := List.mem_map.mp hl
    obtain ⟨j, hj, rfl⟩ := List.getElem_of_mem hb
    exact (hOk.bucketOk j hj).nodup_entries
  · rw [List.pairwise_iff_getElem]
    intro i j hi hj hij k hki hkj
    simp only [List.length_map] at hi hj
    simp only [List.getElem_map, Function.comp_apply, keys_entries] at hki hkj
    obtain ⟨e, he, rfl⟩ := List.mem_map.mp hki
    obtain ⟨e', he', hk⟩ := List.mem_map.mp hkj
    have hi' := (hOk.bucketOk i hi).hash_eq e he
    have hj' := (hOk.bucketOk j hj).hash_eq e' he'
    rw [hk] at hj'
    omega

theorem CfShash.Ok.length_entries (hOk : h.Ok) :
    ((h.table.map ShashBucket.entries).flatten).length = h.nElements := by
  rw [hOk.nElements_eq, List.length_flatten, List.map_map]
  congr 1
  apply List.map_congr_left
  intro b _
  simp [ShashBucket.entries]

/-- `cf_shash_reduce` is the reduce of the map's pairs in table order: it keeps
the table in order, its map is what the reduce keeps, and it returns the
reduce's state and the code that stopped it. -/
theorem reduce_spec [DecidableEq K] (hOk : h.Ok) (f : σ → K → V → Int × σ) (u : σ) :
    (cfShashReduce h f u).1.Ok ∧
      (cfShashReduce h f u).1.toMap =
        (fun k => (reducePairs f u (h.table.map ShashBucket.entries).flatten).1.lookup k) ∧
      (cfShashReduce h f u).2.1 = (reducePairs f u (h.table.map ShashBucket.entries).flatten).2.1 ∧
      (cfShashReduce h f u).2.2 =
        (reducePairs f u (h.table.map ShashBucket.entries).flatten).2.2.getD cfShashOk := by
  have hshape : ∀ b ∈ h.table, ShapeOk b := by
    intro b hb
    obtain ⟨j, hj, rfl⟩ := List.getElem_of_mem hb
    exact ⟨(hOk.bucketOk j hj).chain_nil, (hOk.bucketOk j hj).chain_inUse⟩
  obtain ⟨hr, hall, hcount⟩ := reduceTable_spec f u h.table hshape
  have hlen := hall.length_eq
  rw [← hr]
  refine ⟨⟨hOk.nBuckets_pos, hlen.trans hOk.length_table, fun j hj => ?_, ?_⟩, rfl, rfl, rfl⟩
  · have hj' : j < h.table.length := hlen ▸ hj
    obtain ⟨hs, hsub⟩ := hall.get hj hj'
    exact (hOk.bucketOk j hj').of_sublist hs.1 hs.2 hsub
  · show h.nElements - (reduceTable f u h.table).2.2.1 =
      ((reduceTable f u h.table).1.map fun b => b.live.length).sum
    have := hOk.nElements_eq
    omega

end Table

end Aerospike.Shash
