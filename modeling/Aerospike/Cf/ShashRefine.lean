import Aerospike.Cf.ShashReduce

/-! # The hash table refines a finite map

The calls a client makes on a `cf_shash`, with one client state `udata`
threaded through the callbacks, against a partial map from keys to values.
`mapStep` says what each call does to the map; the one freedom of the map is
the order a reduce visits its pairs in, any order that lists each pair once.
A table in order stays in order under every call and its map takes the map's
step (`step_refines`), so every run of calls from a new table is a run of the
map from the empty one.
-/

namespace Aerospike.Shash

variable {K V σ : Type}

/-- The calls on a table, with their arguments; `update` and `reduce` carry
their callbacks. -/
inductive ShashOp (K V σ : Type) where
  | put (key : K) (value : V)
  | putUnique (key : K) (value : V)
  | update (key : K) (valueOld : Bool) (valueNew : V) (updateFn : σ → K → Option V → V → σ × V)
  | get (key : K)
  | getVlock (key : K)
  | delete (key : K)
  | deleteLockfree (key : K)
  | getAndDelete (key : K)
  | deleteAll
  | reduce (reduceFn : σ → K → V → Int × σ)

/-- What a call gives its caller: the return code (`CF_SHASH_OK` for the calls
that return nothing) and the value it copies out. -/
structure ShashOut (V : Type) where
  rc : Int
  value : Option V
  deriving DecidableEq, Repr

section Step

variable [DecidableEq K] [Inhabited K] [Inhabited V]

def cfShashStep (h : CfShash K V) (u : σ) : ShashOp K V σ → CfShash K V × σ × ShashOut V
  | .put key value => (cfShashPut h key value, u, ⟨cfShashOk, none⟩)
  | .putUnique key value =>
    let r := cfShashPutUnique h key value
    (r.1, u, ⟨r.2, none⟩)
  | .update key valueOld valueNew updateFn =>
    let r := cfShashUpdate h key valueOld valueNew updateFn u
    (r.1, r.2.1, ⟨cfShashOk, some r.2.2.2⟩)
  | .get key =>
    let r := cfShashGet h key
    (h, u, ⟨r.1, r.2⟩)
  | .getVlock key =>
    let r := cfShashGetVlock h key
    (h, u, ⟨r.1, r.2⟩)
  | .delete key =>
    let r := cfShashDelete h key
    (r.1, u, ⟨r.2, none⟩)
  | .deleteLockfree key =>
    let r := cfShashDeleteLockfree h key
    (r.1, u, ⟨r.2, none⟩)
  | .getAndDelete key =>
    let r := cfShashGetAndDelete h key
    (r.1, u, ⟨r.2.1, r.2.2⟩)
  | .deleteAll => (cfShashDeleteAll h, u, ⟨cfShashOk, none⟩)
  | .reduce reduceFn =>
    let r := cfShashReduce h reduceFn u
    (r.1, r.2.1, ⟨r.2.2, none⟩)

def cfShashRun (h : CfShash K V) (u : σ) : List (ShashOp K V σ) → CfShash K V × σ × List (ShashOut V)
  | [] => (h, u, [])
  | op :: ops =>
    let r := cfShashStep h u op
    let t := cfShashRun r.1 r.2.1 ops
    (t.1, t.2.1, r.2.2 :: t.2.2)

end Step

/-! ### The map -/

section Map

variable [DecidableEq K]

/-- A lookup as the caller sees it: `CF_SHASH_OK` and the value, or
`CF_SHASH_ERR_NOT_FOUND`. -/
def mapFound : Option V → ShashOut V
  | some v => ⟨cfShashOk, some v⟩
  | none => ⟨cfShashErrNotFound, none⟩

/-- What each call does to the map, with `E` the order a reduce visits the
pairs in. -/
def mapStep (m : K → Option V) (E : List (K × V)) (u : σ) :
    ShashOp K V σ → (K → Option V) × σ × ShashOut V
  | .put key value => (Function.update m key (some value), u, ⟨cfShashOk, none⟩)
  | .putUnique key value =>
    match m key with
    | none => (Function.update m key (some value), u, ⟨cfShashOk, none⟩)
    | some _ => (m, u, ⟨cfShashErrFound, none⟩)
  | .update key valueOld valueNew updateFn =>
    let r := updateFn u key (if valueOld then m key else none) valueNew
    (Function.update m key (some r.2), r.1, ⟨cfShashOk, some r.2⟩)
  | .get key | .getVlock key => (m, u, mapFound (m key))
  | .delete key | .deleteLockfree key => (Function.update m key none, u, ⟨(mapFound (m key)).rc, none⟩)
  | .getAndDelete key => (Function.update m key none, u, mapFound (m key))
  | .deleteAll => (fun _ => none, u, ⟨cfShashOk, none⟩)
  | .reduce reduceFn =>
    let r := reducePairs reduceFn u E
    (fun k => r.1.lookup k, r.2.1, ⟨r.2.2.getD cfShashOk, none⟩)

def MapStep (m : K → Option V) (u : σ) (op : ShashOp K V σ) (r : (K → Option V) × σ × ShashOut V) : Prop :=
  ∃ E, KeyList.Enumerates m E ∧ r = mapStep m E u op

inductive MapRun : (K → Option V) → σ → List (ShashOp K V σ) → (K → Option V) → σ → List (ShashOut V) → Prop
  | nil (m : K → Option V) (u : σ) : MapRun m u [] m u []
  | cons {m m₁ m' : K → Option V} {u u₁ u' : σ} {op : ShashOp K V σ} {out : ShashOut V}
      {ops : List (ShashOp K V σ)} {outs : List (ShashOut V)} :
      MapStep m u op (m₁, u₁, out) → MapRun m₁ u₁ ops m' u' outs → MapRun m u (op :: ops) m' u' (out :: outs)

end Map

/-! ### The table takes the map's steps -/

section Refine

variable [DecidableEq K] [Inhabited K] [Inhabited V] {h : CfShash K V}

omit [Inhabited K] [Inhabited V] in
theorem CfShash.Ok.enumerates (hOk : h.Ok) :
    KeyList.Enumerates h.toMap (h.table.map ShashBucket.entries).flatten :=
  ⟨hOk.nodup_keys, fun _ => rfl⟩

theorem get_found (hOk : h.Ok) (key : K) :
    (⟨(cfShashGet h key).1, (cfShashGet h key).2⟩ : ShashOut V) = mapFound (h.toMap key) := by
  rw [get_spec hOk key]
  cases h.toMap key <;> rfl

theorem deleteOrPop_found (hOk : h.Ok) (key : K) :
    (cfShashDeleteOrPop h key).1.Ok ∧
      (cfShashDeleteOrPop h key).1.toMap = Function.update h.toMap key none ∧
      (⟨(cfShashDeleteOrPop h key).2.1, (cfShashDeleteOrPop h key).2.2⟩ : ShashOut V) =
        mapFound (h.toMap key) := by
  obtain ⟨hOk', hval, hnone, hsome⟩ := deleteOrPop_spec hOk key
  cases hk : h.toMap key with
  | none =>
    obtain ⟨hrc, hsame⟩ := hnone hk
    refine ⟨hOk', ?_, by rw [hrc, hval, hk]; rfl⟩
    rw [hsame]
    exact (Function.update_eq_self_iff.mpr hk.symm).symm
  | some v =>
    obtain ⟨hrc, hmap⟩ := hsome (by simp [hk])
    exact ⟨hOk', hmap, by rw [hrc, hval, hk]; rfl⟩

theorem step_refines (hOk : h.Ok) (u : σ) (op : ShashOp K V σ) :
    (cfShashStep h u op).1.Ok ∧
      MapStep h.toMap u op ((cfShashStep h u op).1.toMap, (cfShashStep h u op).2.1, (cfShashStep h u op).2.2) := by
  suffices (cfShashStep h u op).1.Ok ∧
      ((cfShashStep h u op).1.toMap, (cfShashStep h u op).2.1, (cfShashStep h u op).2.2) =
        mapStep h.toMap (h.table.map ShashBucket.entries).flatten u op from
    ⟨this.1, _, hOk.enumerates, this.2⟩
  cases op with
  | put key value =>
    obtain ⟨hOk', hmap⟩ := put_spec hOk key value
    exact ⟨hOk', by simp only [cfShashStep, mapStep, hmap]⟩
  | putUnique key value =>
    obtain ⟨hOk', hnone, hsome⟩ := putUnique_spec hOk key value
    refine ⟨hOk', ?_⟩
    simp only [cfShashStep, mapStep]
    cases hk : h.toMap key with
    | none =>
      obtain ⟨hrc, hmap⟩ := hnone hk
      rw [hrc, hmap]
    | some v =>
      obtain ⟨hrc, hsame⟩ := hsome (by simp [hk])
      rw [hrc, hsame]
  | update key valueOld valueNew updateFn =>
    obtain ⟨hOk', hcall, hmap⟩ := update_spec hOk key valueOld valueNew updateFn u
    refine ⟨hOk', ?_⟩
    simp only [cfShashStep, mapStep]
    rw [hmap, ← hcall]
  | get key => exact ⟨hOk, by simp only [cfShashStep, mapStep, get_found hOk key]⟩
  | getVlock key => exact ⟨hOk, by simp only [cfShashStep, mapStep, cfShashGetVlock, get_found hOk key]⟩
  | delete key =>
    obtain ⟨hOk', hmap, hout⟩ := deleteOrPop_found hOk key
    exact ⟨hOk', by simp only [cfShashStep, mapStep, cfShashDelete, hmap, ← hout]⟩
  | deleteLockfree key =>
    obtain ⟨hOk', hmap, hout⟩ := deleteOrPop_found hOk key
    exact ⟨hOk', by simp only [cfShashStep, mapStep, cfShashDeleteLockfree, cfShashDelete, hmap, ← hout]⟩
  | getAndDelete key =>
    obtain ⟨hOk', hmap, hout⟩ := deleteOrPop_found hOk key
    exact ⟨hOk', by simp only [cfShashStep, mapStep, cfShashGetAndDelete, hmap, ← hout]⟩
  | deleteAll =>
    obtain ⟨hOk', hmap⟩ := deleteAll_spec hOk
    exact ⟨hOk', by simp only [cfShashStep, mapStep, hmap]⟩
  | reduce reduceFn =>
    obtain ⟨hOk', hmap, hu, hrc⟩ := reduce_spec hOk reduceFn u
    exact ⟨hOk', by simp only [cfShashStep, mapStep, hmap, hu, hrc]⟩

theorem run_refines (ops : List (ShashOp K V σ)) :
    ∀ (h : CfShash K V) (u : σ), h.Ok →
      (cfShashRun h u ops).1.Ok ∧
        MapRun h.toMap u ops (cfShashRun h u ops).1.toMap (cfShashRun h u ops).2.1 (cfShashRun h u ops).2.2 := by
  induction ops with
  | nil => exact fun h u hOk => ⟨hOk, MapRun.nil _ _⟩
  | cons op ops ih =>
    intro h u hOk
    obtain ⟨hOk₁, hstep⟩ := step_refines hOk u op
    obtain ⟨hOk', hrun⟩ := ih _ (cfShashStep h u op).2.1 hOk₁
    exact ⟨hOk', MapRun.cons hstep hrun⟩

/-- From a new table of `n_buckets > 0` buckets, under any hash function, every
run of calls keeps the table in order and is a run of the map from the empty
one. -/
theorem shash_refines_map (hFn : K → UInt32) (nBuckets : UInt32) (hn : 0 < nBuckets) (u : σ)
    (ops : List (ShashOp K V σ)) :
    ∃ h0 : CfShash K V, cfShashCreate hFn nBuckets = some h0 ∧ (cfShashRun h0 u ops).1.Ok ∧
      MapRun (fun _ => none) u ops (cfShashRun h0 u ops).1.toMap (cfShashRun h0 u ops).2.1
        (cfShashRun h0 u ops).2.2 := by
  cases hc : (cfShashCreate hFn nBuckets : Option (CfShash K V)) with
  | none =>
    unfold cfShashCreate at hc
    split_ifs at hc with h0
    exact absurd hn (by simp [h0])
  | some h0 =>
    obtain ⟨hOk, hempty⟩ := cfShashCreate_ok hc
    obtain ⟨hOk', hrun⟩ := run_refines ops h0 u hOk
    exact ⟨h0, rfl, hOk', hempty ▸ hrun⟩

theorem shash_refines_map_sample :
    (0 : UInt32) < 4 ∧ ∃ h0 : CfShash ℕ ℕ, cfShashCreate (fun k => k.toUInt32) 4 = some h0 ∧
      (cfShashRun h0 () [.put 1 2, .putUnique 5 6, .get 1, .delete 5]).1.Ok ∧
      MapRun (fun _ => none) () [.put 1 2, .putUnique 5 6, .get 1, .delete 5]
        (cfShashRun h0 () [.put 1 2, .putUnique 5 6, .get 1, .delete 5]).1.toMap
        (cfShashRun h0 () [.put 1 2, .putUnique 5 6, .get 1, .delete 5]).2.1
        (cfShashRun h0 () [.put 1 2, .putUnique 5 6, .get 1, .delete 5]).2.2 :=
  ⟨by decide, shash_refines_map (fun k => k.toUInt32) 4 (by decide) () [.put 1 2, .putUnique 5 6, .get 1, .delete 5]⟩

/-- Without a `value_old` buffer, `update_fn` is given no old value although
the key is present: here it records what it is given. -/
theorem update_without_value_old_gets_none :
    ∃ h0 : CfShash ℕ ℕ, cfShashCreate (fun k => k.toUInt32) 1 = some h0 ∧
      (cfShashPut h0 5 7).toMap 5 = some 7 ∧
      (cfShashUpdate (cfShashPut h0 5 7) 5 false 9
        (fun (_ : Option ℕ) (_ : ℕ) (old : Option ℕ) (new : ℕ) => (old, new)) none).2.1 = none :=
  ⟨_, rfl, rfl, rfl⟩

end Refine

end Aerospike.Shash
