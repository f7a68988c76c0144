import Aerospike.Fabric.ExchangeCluster

/-! # What a cluster commits

The data message names each namespace by its name, and the receiver finds its
own namespace of that name with `as_namespace_get_bybuf`. Names as
`as_namespace_create` accepts them (shorter than `AS_ID_NAMESPACE_SZ`, no zero
byte, no two alike) are found exactly: the receiver's slot for its `i`-th
namespace holds the data the sender built for the namespace of the same name,
if the sender has one. Over every run of the cluster, then, a node's committed
namespace has one slot per node of the round that has a namespace of its name,
in succession order, with that node's rack id and partition versions; a node
commits only once every node of the round announced ready, having acked and
had acked every node's data; and, in clusters of at most `AS_CLUSTER_SZ`
nodes, no node crashes on any event in the exchange's own code, which stops
short of the `as_partition_balance` call that ends the commit.
-/

namespace Aerospike.Exchange

/-- A namespace name `as_namespace_create` accepts: shorter than
`AS_ID_NAMESPACE_SZ`, and a C string, so without a zero byte. -/
structure NameWf (name : List UInt8) : Prop where
  length_lt : name.length < asIdNamespaceSz
  zero_not_mem : (0 : UInt8) ∉ name

/-- A node's namespaces as its configuration makes them: names it accepts, no
two alike, and a rack id for each. -/
structure ExchangeConfig.Wf (cfg : ExchangeConfig) : Prop where
  names : ∀ name ∈ cfg.namespaceNames, NameWf name
  nodup : cfg.namespaceNames.Nodup
  rackIds_length : cfg.rackIds.length = cfg.namespaceNames.length

/-! ### Finding a namespace by its name -/

section Names

variable {name : List UInt8} {i : ℕ}

theorem getElem?_namespaceNameBuf_of_lt (hi : i < name.length) :
    (namespaceNameBuf name)[i]? = name[i]? := by
  simp [namespaceNameBuf, List.getElem?_append_left hi]

theorem getElem?_namespaceNameBuf_of_le (hi : name.length ≤ i) (hi' : i < asIdNamespaceSz) :
    (namespaceNameBuf name)[i]? = some 0 := by
  rw [namespaceNameBuf, List.getElem?_append_right hi, List.getElem?_replicate]
  simp only [ite_eq_left_iff, not_lt]
  omega

/-- The test of `as_namespace_get_bybuf` on accepted names is equality: a
name's buffer starts with the bytes and has a zero after them exactly when
they are the name. -/
theorem namespaceNameBuf_match_iff {y : List UInt8} (hn : NameWf name) (hy : NameWf y) :
    ((namespaceNameBuf name).take y.length == y &&
      (namespaceNameBuf name).getD y.length 0 == 0) = true ↔ name = y := by
  simp only [Bool.and_eq_true, beq_iff_eq, List.getD_eq_getElem?_getD]
  constructor
  · rintro ⟨htake, hzero⟩
    have hle : y.length ≤ name.length := by
      by_contra hlt
      apply hy.zero_not_mem
      have h0 := getElem?_namespaceNameBuf_of_le (le_refl name.length) hn.length_lt
      have : y[name.length]? = some 0 := by
        rw [← htake, List.getElem?_take, if_pos (by omega), h0]
      exact List.mem_of_getElem? this
    have heq : y.length = name.length := by
      by_contra hne
      have hlt : y.length < name.length := lt_of_le_of_ne hle hne
      apply hn.zero_not_mem
      rw [getElem?_namespaceNameBuf_of_lt hlt, List.getElem?_eq_getElem hlt, Option.getD_some] at hzero
      exact hzero ▸ List.getElem_mem hlt
    rw [← htake, heq, namespaceNameBuf, List.take_left' rfl]
  · rintro rfl
    refine ⟨by rw [namespaceNameBuf, List.take_left' rfl], ?_⟩
    rw [getElem?_namespaceNameBuf_of_le le_rfl hy.length_lt, Option.getD_some]

variable {cfg : ExchangeConfig}

theorem asNamespaceGetBybuf_eq (hwf : cfg.Wf) {y : List UInt8} (hy : NameWf y) :
    asNamespaceGetBybuf cfg y = cfg.namespaceNames.idxOf? y := by
  rw [asNamespaceGetBybuf, if_neg (not_le.mpr hy.length_lt), List.idxOf?]
  refine KeyList.findIdx?_congr fun name hname => ?_
  rw [Bool.eq_iff_iff, namespaceNameBuf_match_iff (hwf.names name hname) hy, beq_iff_eq]

theorem asNamespaceGetBybuf_eq_some_iff (hwf : cfg.Wf) {y : List UInt8} (hy : NameWf y) :
    asNamespaceGetBybuf cfg y = some i ↔ cfg.namespaceNames[i]? = some y := by
  rw [asNamespaceGetBybuf_eq hwf hy, List.idxOf?_eq_some_iff]
  constructor
  · rintro ⟨hi, hget, -⟩
    rw [List.getElem?_eq_getElem hi, hget]
  · intro hget
    obtain ⟨hi, hget⟩ := List.getElem?_eq_some_iff.mp hget
    refine ⟨hi, hget, fun j hj hj' => ?_⟩
    have := (hwf.nodup.getElem_inj_iff (i := j) (j := i)).mp (hj'.trans hget.symm)
    omega

end Names

/-! ### The slots of an honest round -/

section Round

variable (cfg : UInt64 → ExchangeConfig) (succ : UInt64 → List UInt64)
  (vers : UInt64 → UInt64 → ℕ → ℕ → AsPartitionVersion)

/-- The nodes of round `K`, each with the partitions and the rack id of its
namespace named `name`, if it has one. -/
def roundNamespaceNodes (K : UInt64) (name : List UInt8) :
    List (UInt64 × Option ((ℕ → AsPartitionVersion) × UInt32)) :=
  (succ K).map fun x => (x, ((cfg x).namespaceNames.idxOf? name).map fun j =>
    (vers x K j, (cfg x).rackIds.getD j 0))

variable {cfg vers} {n x K : UInt64}

theorem exchangeDataMsgEntries_roundDataMsg :
    exchangeDataMsgEntries (roundDataMsg cfg vers x K) =
      (cfg x).namespaceNames.zip ((preparedPayloads (cfg x) (vers x K)).zip (cfg x).rackIds) := rfl

theorem getElem?_preparedPayloads_zip (hx : (cfg x).Wf) {j : ℕ}
    (hj : j < (cfg x).namespaceNames.length) :
    ((preparedPayloads (cfg x) (vers x K)).zip (cfg x).rackIds)[j]? =
      (exchangeDataNamespacePayloadAdd (vers x K j) []).map fun payload =>
        (payload, (cfg x).rackIds.getD j 0) := by
  obtain ⟨payload, hp⟩ := Option.isSome_iff_exists.mp (exchangeDataNamespacePayloadAdd_isSome (vers x K j))
  have hr : j < (cfg x).rackIds.length := hx.rackIds_length ▸ hj
  rw [hp, Option.map_some, List.getElem?_zip_eq_some]
  refine ⟨by simp [preparedPayloads, hj, hp], ?_⟩
  rw [List.getD_eq_getElem?_getD, List.getElem?_eq_getElem hr, Option.getD_some]

theorem namespaceSlot_roundSlots (hn : (cfg n).Wf) (hx : (cfg x).Wf) (i : ℕ) :
    namespaceSlot (roundSlots cfg vers n x K) i =
      ((cfg n).namespaceNames[i]?).bind fun a =>
        (((cfg x).namespaceNames.idxOf? a).map fun j => (vers x K j, (cfg x).rackIds.getD j 0)).bind
          fun d => (exchangeDataNamespacePayloadAdd d.1 []).map fun payload => (payload, d.2) := by
  rw [namespaceSlot, roundSlots, namespaceEntries, exchangeDataMsgEntries_roundDataMsg,
    List.find?_filterMap]
  have htest : ∀ e ∈ (cfg x).namespaceNames.zip ((preparedPayloads (cfg x) (vers x K)).zip (cfg x).rackIds),
      ((asNamespaceGetBybuf (cfg n) e.1).map fun nsIx =>
        (⟨some nsIx, e.2.1, e.2.2⟩ : AsExchangeNodeNamespaceData)).any
          (fun d => decide (d.localNamespace = some i)) =
        decide ((cfg n).namespaceNames[i]? = some e.1) := by
    intro e he
    have hy : NameWf e.1 := hx.names e.1 (List.of_mem_zip he).1
    rw [Bool.eq_iff_iff, decide_eq_true_iff, ← asNamespaceGetBybuf_eq_some_iff hn hy]
    cases asNamespaceGetBybuf (cfg n) e.1 <;> simp
  rw [List.find?_congr htest]
  cases hi : (cfg n).namespaceNames[i]? with
  | none =>
    rw [List.find?_eq_none.mpr (by simp)]
    rfl
  | some a =>
    have hga : asNamespaceGetBybuf (cfg n) a = some i :=
      (asNamespaceGetBybuf_eq_some_iff hn (hn.names a (List.mem_of_getElem? hi))).mpr hi
    have hpred : (fun e : List UInt8 × List UInt8 × UInt32 => decide (some a = some e.1)) =
        fun e => e.1 == a := by
      funext e
      rw [Bool.eq_iff_iff, decide_eq_true_iff, beq_iff_eq, Option.some_inj, eq_comm]
    rw [hpred, KeyList.find?_zip_eq, Option.bind_some, Option.bind_map]
    cases hj : (cfg x).namespaceNames.idxOf? a with
    | none => rfl
    | some j =>
      have hlt := (List.idxOf?_eq_some_iff.mp hj).1
      obtain ⟨payload, hp⟩ := Option.isSome_iff_exists.mp
        (exchangeDataNamespacePayloadAdd_isSome (vers x K j))
      simp [getElem?_preparedPayloads_zip hx hlt, hp, hga]

theorem slotsDistinct_roundSlots (hn : (cfg n).Wf) (hx : (cfg x).Wf) :
    SlotsDistinct (roundSlots cfg vers n x K) where
  nodup := by
    rw [roundSlots, namespaceEntries, List.map_filterMap, exchangeDataMsgEntries_roundDataMsg]
    have hfst : ((cfg x).namespaceNames.zip
        ((preparedPayloads (cfg x) (vers x K)).zip (cfg x).rackIds)).map Prod.fst =
          (cfg x).namespaceNames :=
      List.map_fst_zip (by simp [preparedPayloads, hx.rackIds_length])
    have hes := hfst ▸ hx.nodup
    refine KeyList.nodup_filterMap (hes.of_map _) fun e he e' he' b hb hb' => ?_
    obtain ⟨j, hj, rfl⟩ : ∃ j, asNamespaceGetBybuf (cfg n) e.1 = some j ∧ some j = b := by
      simpa using hb
    have hj' : asNamespaceGetBybuf (cfg n) e'.1 = some j := by simpa using hb'
    rw [asNamespaceGetBybuf_eq_some_iff hn (hx.names e.1 (List.of_mem_zip he).1)] at hj
    rw [asNamespaceGetBybuf_eq_some_iff hn (hx.names e'.1 (List.of_mem_zip he').1)] at hj'
    exact List.inj_on_of_nodup_map hes he he' (Option.some_inj.mp (hj.symm.trans hj'))
  isSome _ hd := localNamespace_of_mem_namespaceEntries hd

theorem roundNodeSlots_namespaceSlot (hcfg : ∀ x, (cfg x).Wf) {i : ℕ} {a : List UInt8}
    (hi : (cfg n).namespaceNames[i]? = some a) :
    (roundNodeSlots cfg succ vers n K).map (fun p => (p.1, namespaceSlot p.2 i)) =
      sentPayloads (roundNamespaceNodes cfg succ vers K a) := by
  simp only [roundNodeSlots, roundNamespaceNodes, sentPayloads, List.map_map]
  refine List.map_congr_left fun x _ => ?_
  simp [namespaceSlot_roundSlots (hcfg n) (hcfg x), hi]

theorem roundNodeSlots_namespaceSlot_of_none (hcfg : ∀ x, (cfg x).Wf) {i : ℕ}
    (hi : (cfg n).namespaceNames[i]? = none) :
    (roundNodeSlots cfg succ vers n K).map (fun p => (p.1, namespaceSlot p.2 i)) =
      sentPayloads ((succ K).map fun x => (x, none)) := by
  simp only [roundNodeSlots, sentPayloads, List.map_map]
  refine List.map_congr_left fun x _ => ?_
  simp [namespaceSlot_roundSlots (hcfg n) (hcfg x), hi]

/-- What node `n` commits of a round whose nodes all sent their data: for each
of its namespaces, one slot per node of the round that has a namespace of its
name, in succession order. -/
theorem commitNodeSlots_roundNodeSlots (hcfg : ∀ x, (cfg x).Wf) (hsz : (succ K).length ≤ asClusterSz) :
    ∃ nss, commitNodeSlots (roundNodeSlots cfg succ vers n K) = some nss ∧
      ∀ i a, (cfg n).namespaceNames[i]? = some a →
        CommittedAs (nss i) (namespaceSenders (roundNamespaceNodes cfg succ vers K a)) := by
  have hcommit : ∀ nodes : List (UInt64 × Option ((ℕ → AsPartitionVersion) × UInt32)),
      nodes.length = (succ K).length → ∃ ns,
        exchangeDataCommitNamespace (sentPayloads nodes) = some ns ∧ CommittedAs ns (namespaceSenders nodes) := by
    intro nodes hlen
    have hle : (namespaceSenders nodes).length ≤ asClusterSz :=
      (List.length_filterMap_le _ _).trans (hlen ▸ hsz)
    obtain ⟨ns, hrun, h⟩ := exchangeDataCommit_foldlM nodes committedAs_cleared (by simpa using hle)
    exact ⟨ns, hrun, by simpa using h⟩
  have hns : ∀ i, ∃ ns, exchangeDataCommitNamespace
      ((roundNodeSlots cfg succ vers n K).map fun p => (p.1, namespaceSlot p.2 i)) = some ns ∧
        ∀ a, (cfg n).namespaceNames[i]? = some a →
          CommittedAs ns (namespaceSenders (roundNamespaceNodes cfg succ vers K a)) := by
    intro i
    cases hi : (cfg n).namespaceNames[i]? with
    | none =>
      obtain ⟨ns, hrun, -⟩ := hcommit ((succ K).map fun x => (x, none)) (List.length_map ..)
      exact ⟨ns, by rw [roundNodeSlots_namespaceSlot_of_none succ hcfg hi, hrun], fun _ h => by cases h⟩
    | some a =>
      obtain ⟨ns, hrun, h⟩ := hcommit (roundNamespaceNodes cfg succ vers K a)
        (by simp [roundNamespaceNodes])
      refine ⟨ns, by rw [roundNodeSlots_namespaceSlot succ hcfg hi, hrun], fun a' ha' => ?_⟩
      cases ha'
      exact h
  choose nss hnss using hns
  refine ⟨nss, (commitNodeSlots_eq_some_iff ?_ nss).mpr fun i => (hnss i).1,
    fun i a ha => (hnss i).2 a ha⟩
  intro p hp
  obtain ⟨x, -, rfl⟩ := List.mem_map.mp hp
  exact slotsDistinct_roundSlots (hcfg n) (hcfg x)

end Round

/-- Two namespaces agree: the same cluster size, the same node and rack id in
each slot, and the same versions. -/
structure NsClusterData.Agree (ns ns' : NsClusterData) : Prop where
  clusterSize : ns.clusterSize = ns'.clusterSize
  succession : ∀ k < ns.clusterSize, ns.succession k = ns'.succession k
  rackIds : ∀ k < ns.clusterSize, ns.rackIds k = ns'.rackIds k
  clusterVersions : ns.clusterVersions = ns'.clusterVersions

theorem CommittedAs.agree {ns ns' : NsClusterData} {S : List (UInt64 × (ℕ → AsPartitionVersion) × UInt32)}
    (h : CommittedAs ns S) (h' : CommittedAs ns' S) : ns.Agree ns' where
  clusterSize := h.clusterSize.trans h'.clusterSize.symm
  succession k hk := by
    rw [h.clusterSize] at hk
    rw [(h.holds k hk).succession, (h'.holds k hk).succession]
  rackIds k hk := by
    rw [h.clusterSize] at hk
    rw [(h.holds k hk).rackId, (h'.holds k hk).rackId]
  clusterVersions := by
    funext k pid
    by_cases hk : k < S.length
    · rw [(h.holds k hk).versions, (h'.holds k hk).versions]
    · rw [h.cleared k (not_lt.mp hk), h'.cleared k (not_lt.mp hk)]

/-! ### Over every run -/

section Runs

variable {cfg : UInt64 → ExchangeConfig} {succ : UInt64 → List UInt64}
  {vers : UInt64 → UInt64 → ℕ → ℕ → AsPartitionVersion} {c : ExchangeCluster} {n : UInt64}
  {g : AsExchange}

/-- What a node committed, with configurations as nodes make them and rounds
of at most `AS_CLUSTER_SZ` nodes: the round's succession list, and for each of
its namespaces one slot per node of the round that has a namespace of its
name. -/
theorem NodeInv.committed_namespaces (h : NodeInv cfg succ vers c n g) (hcfg : ∀ x, (cfg x).Wf)
    (hsz : ∀ K, (succ K).length ≤ asClusterSz) (hK : g.committedClusterKey ≠ 0) :
    g.committedSuccessionList = succ g.committedClusterKey ∧
      ∀ i a, (cfg n).namespaceNames[i]? = some a →
        CommittedAs (g.namespaces i) (namespaceSenders (roundNamespaceNodes cfg succ vers g.committedClusterKey a)) := by
  obtain ⟨hsucc, hslots, -⟩ := h.committed hK
  obtain ⟨nss, hnss, hall⟩ := commitNodeSlots_roundNodeSlots succ (n := n) hcfg (hsz g.committedClusterKey)
  rw [hslots, Option.some_inj] at hnss
  exact ⟨hsucc, hnss ▸ hall⟩

theorem NodeInv.exchangeDataCommit_isSome (h : NodeInv cfg succ vers c n g) (hcfg : ∀ x, (cfg x).Wf)
    (hsz : ∀ K, (succ K).length ≤ asClusterSz) (hstate : g.state = .readyToCommit) :
    (exchangeDataCommit g).isSome := by
  obtain ⟨nss, hnss, -⟩ := commitNodeSlots_roundNodeSlots succ (n := n) hcfg (hsz g.clusterKey)
  rw [exchangeDataCommit_eq fun x hx => (h.inv.dom x).mpr hx, h.nodeSlots_eq hstate, hnss]
  rfl

/-- In every run, the data a node holds from a node it received is that
node's data of the round: for its `i`-th namespace, the payload the sender
built from its partitions' versions of the round for its namespace of the same
name, with that namespace's rack id, and nothing where the sender has no
namespace of that name. -/
theorem exchange_received_data (hr : ClusterReachable cfg succ vers c) (hcfg : ∀ x, (cfg x).Wf)
    {x : UInt64} {st : AsExchangeNodeState} (hst : (c.nodes n).nodeidToNodeState x = some st)
    (hrec : st.received = true) (i : ℕ) :
    namespaceSlot st.slots i = ((cfg n).namespaceNames[i]?).bind fun a =>
      (((cfg x).namespaceNames.idxOf? a).map fun j =>
        (vers x (c.nodes n).clusterKey j, (cfg x).rackIds.getD j 0)).bind fun d =>
          (exchangeDataNamespacePayloadAdd d.1 []).map fun payload => (payload, d.2) := by
  rw [((clusterInv_of_reachable hr).node n).stored x st hst hrec]
  exact namespaceSlot_roundSlots (hcfg n) (hcfg x) i

/-- A node commits a round only once every node of the round announced that it
is ready to commit it, each having had its data acked by every node of the
round and acked every node's data. -/
theorem exchange_commit_barrier (hr : ClusterReachable cfg succ vers c)
    (hK : (c.nodes n).committedClusterKey ≠ 0) :
    ∀ x ∈ succ (c.nodes n).committedClusterKey,
      (∃ p, c.Sent x p .readyToCommit (c.nodes n).committedClusterKey) ∧
        c.AckedRound succ x (c.nodes n).committedClusterKey := by
  have hI := clusterInv_of_reachable hr
  intro x hx
  obtain ⟨p, m, hm, htype, hkey⟩ := ((hI.node n).committed hK).2.2 x hx
  exact ⟨⟨p, m, hm, htype, hkey⟩, (hI.sent x p m hm).readyToCommit _ htype hkey⟩

/-- What a node commits over any run: the round's succession list, and for
each of its namespaces one slot per node of the round that has a namespace of
its name, in succession order, with that node's rack id and the versions of
its partitions. -/
theorem exchange_committed_namespaces (hr : ClusterReachable cfg succ vers c)
    (hcfg : ∀ x, (cfg x).Wf) (hsz : ∀ K, (succ K).length ≤ asClusterSz)
    (hK : (c.nodes n).committedClusterKey ≠ 0) :
    (c.nodes n).committedSuccessionList = succ (c.nodes n).committedClusterKey ∧
      ∀ i a, (cfg n).namespaceNames[i]? = some a →
        CommittedAs ((c.nodes n).namespaces i)
          (namespaceSenders (roundNamespaceNodes cfg succ vers (c.nodes n).committedClusterKey a)) :=
  ((clusterInv_of_reachable hr).node n).committed_namespaces hcfg hsz hK

/-- Two nodes that committed the same round agree on its succession list and,
for a namespace both have, on what they committed of it, whatever the index
of the namespace at each. -/
theorem exchange_commit_agreement (hr : ClusterReachable cfg succ vers c)
    (hcfg : ∀ x, (cfg x).Wf) (hsz : ∀ K, (succ K).length ≤ asClusterSz) (n' : UInt64)
    (hK : (c.nodes n).committedClusterKey ≠ 0)
    (hsame : (c.nodes n').committedClusterKey = (c.nodes n).committedClusterKey)
    (i i' : ℕ) (a : List UInt8) (hi : (cfg n).namespaceNames[i]? = some a)
    (hi' : (cfg n').namespaceNames[i']? = some a) :
    (c.nodes n).committedSuccessionList = (c.nodes n').committedSuccessionList ∧
      ((c.nodes n).namespaces i).Agree ((c.nodes n').namespaces i') := by
  have hI := clusterInv_of_reachable hr
  obtain ⟨hsucc, hns⟩ := (hI.node n).committed_namespaces hcfg hsz hK
  obtain ⟨hsucc', hns'⟩ := (hI.node n').committed_namespaces hcfg hsz (hsame ▸ hK)
  rw [hsame] at hsucc' hns'
  exact ⟨hsucc.trans hsucc'.symm, (hns i a hi).agree (hns' i' a hi')⟩

/-- No node crashes in the exchange: in any cluster a run reaches, every node
handles every event, with configurations as nodes make them and rounds of at
most `AS_CLUSTER_SZ` nodes. -/
theorem exchange_no_crash (hr : ClusterReachable cfg succ vers c) (hcfg : ∀ x, (cfg x).Wf)
    (hsz : ∀ K, (succ K).length ≤ asClusterSz) (ev : ClusterEvent) :
    (exchangeEventHandle (cfg ev.node) (c.nodes ev.node) (ev.toEvent succ vers)).isSome :=
  let h := (clusterInv_of_reachable hr).node ev.node
  exchangeEventHandle_isSome h.inv (h.exchangeDataCommit_isSome hcfg hsz) _

end Runs

/-! ### A round of one node

A node with one namespace, alone in its cluster: the cluster change, its data
to itself, the ack, its ready to commit and the commit. -/

theorem exchangeConfig_wf_one_namespace (x : UInt64) : (⟨x, [[97]], [0]⟩ : ExchangeConfig).Wf where
  names name h := by
    rw [List.mem_singleton.mp h]
    exact ⟨by decide, by decide⟩
  nodup := List.nodup_singleton _
  rackIds_length := rfl

theorem exchange_round_one_node :
    ∃ c, ClusterReachable (fun _ => ⟨1, [[97]], [0]⟩) (fun _ => [1]) (fun _ _ _ _ => ⟨0⟩) c ∧
      (c.nodes 1).committedClusterKey = 1 ∧
      ∃ st, (c.nodes 1).nodeidToNodeState 1 = some st ∧ st.received = true :=
  ⟨_, .tail (.tail (.tail (.tail (.tail .refl
    (.handle _ (.clusterChanged 1 1) _ _ trivial rfl))
    (.handle _ (.deliver 1 1 ⟨some 1, some 0, some 1, some [[97]], some [[0, 0, 0, 0]], some [0]⟩) _ _
      (by unfold ClusterEvent.Enabled; decide +kernel) rfl))
    (.handle _ (.deliver 1 1 ⟨some 1, some 1, some 1, none, none, none⟩) _ _
      (by unfold ClusterEvent.Enabled; decide +kernel) rfl))
    (.handle _ (.deliver 1 1 ⟨some 1, some 3, some 1, none, none, none⟩) _ _
      (by unfold ClusterEvent.Enabled; decide +kernel) rfl))
    (.handle _ (.deliver 1 1 ⟨some 1, some 4, some 1, none, none, none⟩) _ _
      (by unfold ClusterEvent.Enabled; decide +kernel) rfl), rfl, _, rfl, rfl⟩

theorem exchange_received_data_one_node :
    ∃ c st, ClusterReachable (fun _ => ⟨1, [[97]], [0]⟩) (fun _ => [1]) (fun _ _ _ _ => ⟨0⟩) c ∧
      (c.nodes 1).nodeidToNodeState 1 = some st ∧ st.received = true ∧
      namespaceSlot st.slots 0 = (exchangeDataNamespacePayloadAdd (fun _ => ⟨0⟩) []).map fun payload =>
        (payload, 0) := by
  obtain ⟨c, hr, -, st, hst, hrec⟩ := exchange_round_one_node
  refine ⟨c, st, hr, hst, hrec, ?_⟩
  rw [exchange_received_data hr (fun _ => exchangeConfig_wf_one_namespace 1) hst hrec 0]
  decide +kernel

theorem exchange_commit_barrier_one_node :
    ∃ c, ClusterReachable (fun _ => ⟨1, [[97]], [0]⟩) (fun _ => [1]) (fun _ _ _ _ => ⟨0⟩) c ∧
      (c.nodes 1).committedClusterKey = 1 ∧
      ∀ x ∈ [1], (∃ p, c.Sent x p .readyToCommit 1) ∧ c.AckedRound (fun _ => [1]) x 1 := by
  obtain ⟨c, hr, hK, -⟩ := exchange_round_one_node
  have h := exchange_commit_barrier hr (n := 1) (by rw [hK]; decide)
  rw [hK] at h
  exact ⟨c, hr, hK, h⟩

theorem exchange_committed_namespaces_one_node :
    ∃ c, ClusterReachable (fun _ => ⟨1, [[97]], [0]⟩) (fun _ => [1]) (fun _ _ _ _ => ⟨0⟩) c ∧
      (c.nodes 1).committedClusterKey = 1 ∧ (c.nodes 1).committedSuccessionList = [1] ∧
      CommittedAs ((c.nodes 1).namespaces 0)
        (namespaceSenders (roundNamespaceNodes (fun _ => ⟨1, [[97]], [0]⟩) (fun _ => [1])
          (fun _ _ _ _ => ⟨0⟩) 1 [97])) := by
  obtain ⟨c, hr, hK, -⟩ := exchange_round_one_node
  have h := exchange_committed_namespaces hr (fun _ => exchangeConfig_wf_one_namespace 1)
    (fun _ => by decide) (n := 1) (by rw [hK]; decide)
  rw [hK] at h
  exact ⟨c, hr, hK, h.1, h.2 0 [97] rfl⟩

theorem exchange_no_crash_one_node :
    ∃ c, ClusterReachable (fun _ => ⟨1, [[97]], [0]⟩) (fun _ => [1]) (fun _ _ _ _ => ⟨0⟩) c ∧
      (c.nodes 1).committedClusterKey = 1 ∧
      (exchangeEventHandle ⟨1, [[97]], [0]⟩ (c.nodes 1) (.clusterChanged 2 [1] fun _ _ => ⟨0⟩)).isSome := by
  obtain ⟨c, hr, hK, -⟩ := exchange_round_one_node
  exact ⟨c, hr, hK, exchange_no_crash hr (fun _ => exchangeConfig_wf_one_namespace 1) (fun _ => by decide)
    (.clusterChanged 1 2)⟩

/-! ### A round of two nodes

Nodes `1` and `2`, each with one namespace of the same name: both cluster
changes, the four data messages and their four acks, the two ready to commit
and the principal's two commits. -/

def twoNodeRound : List ClusterEvent :=
  let data : ExchangeMsg := ⟨some 1, some 0, some 1, some [[97]], some [[0, 0, 0, 0]], some [0]⟩
  let ack : ExchangeMsg := ⟨some 1, some 1, some 1, none, none, none⟩
  let rtc : ExchangeMsg := ⟨some 1, some 3, some 1, none, none, none⟩
  let commit : ExchangeMsg := ⟨some 1, some 4, some 1, none, none, none⟩
  [.clusterChanged 1 1, .clusterChanged 2 1,
    .deliver 1 1 data, .deliver 1 2 data, .deliver 2 1 data, .deliver 2 2 data,
    .deliver 1 1 ack, .deliver 2 1 ack, .deliver 1 2 ack, .deliver 2 2 ack,
    .deliver 1 1 rtc, .deliver 2 1 rtc, .deliver 1 1 commit, .deliver 1 2 commit]

theorem exchange_round_two_nodes :
    ∃ c, ClusterReachable (fun x => ⟨x, [[97]], [0]⟩) (fun _ => [1, 2]) (fun _ _ _ _ => ⟨0⟩) c ∧
      (c.nodes 1).committedClusterKey = 1 ∧ (c.nodes 2).committedClusterKey = 1 := by
  have hrun : (ExchangeCluster.init.run (fun x => ⟨x, [[97]], [0]⟩) (fun _ => [1, 2]) (fun _ _ _ _ => ⟨0⟩)
      twoNodeRound).map (fun c => ((c.nodes 1).committedClusterKey, (c.nodes 2).committedClusterKey)) =
        some (1, 1) := by
    decide +kernel
  obtain ⟨c, hc, hkeys⟩ := Option.map_eq_some_iff.mp hrun
  rw [Prod.mk.injEq] at hkeys
  exact ⟨c, ClusterReachable.run .refl hc, hkeys.1, hkeys.2⟩

theorem exchange_commit_agreement_two_nodes :
    ∃ c, ClusterReachable (fun x => ⟨x, [[97]], [0]⟩) (fun _ => [1, 2]) (fun _ _ _ _ => ⟨0⟩) c ∧
      (c.nodes 1).committedClusterKey = 1 ∧ (c.nodes 2).committedClusterKey = 1 ∧
      (c.nodes 1).committedSuccessionList = (c.nodes 2).committedSuccessionList ∧
      ((c.nodes 1).namespaces 0).Agree ((c.nodes 2).namespaces 0) := by
  obtain ⟨c, hr, hK1, hK2⟩ := exchange_round_two_nodes
  exact ⟨c, hr, hK1, hK2, exchange_commit_agreement hr exchangeConfig_wf_one_namespace (fun _ => by decide)
    (n := 1) 2 (by rw [hK1]; decide) (hK2.trans hK1.symm) 0 0 [97] rfl rfl⟩

end Aerospike.Exchange
