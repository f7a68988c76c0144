import Aerospike.Fabric.ExchangeNode

/-! # The exchange across a cluster

Every node runs the exchange of `exchange.c` on its own record, and the nodes
share nothing but fabric messages. Fabric may deliver a message late, out of
order, more than once or never, so the cluster keeps every message sent, and a
step delivers any of them. The clustering layer may give any node a cluster
change or an orphaning at any time; a cluster key names one cluster change,
with its succession list `succ K`, and the partition versions `vers n K` node
`n` freezes for it. Timers fire at any time.

The invariant `ClusterInv` holds over every run: the node states hold, for
each node they received, exactly the data that node sent in the round; every
flag is backed by the message that set it; a commit message follows every
node's ready to commit, and a ready to commit the sender's acked round; and a
node's committed namespaces are the commit of the round's data. What follows
from it for what nodes commit, and that no node crashes, is drawn in
`Aerospike.Fabric.ExchangeCommit`.
-/

namespace Aerospike.Exchange

/-- Every node's exchange record, and every message sent so far: from whom,
to whom, and what. -/
structure ExchangeCluster where
  nodes : UInt64 → AsExchange
  sent : List (UInt64 × UInt64 × ExchangeMsg)

def ExchangeCluster.init : ExchangeCluster := ⟨fun _ => AsExchange.init, []⟩

def ExchangeCluster.handled (c : ExchangeCluster) (node : UInt64) (g : AsExchange)
    (out : List (UInt64 × ExchangeMsg)) : ExchangeCluster :=
  ⟨Function.update c.nodes node g, c.sent ++ out.map fun o => (node, o.1, o.2)⟩

/-- A message of type `t` in round `clusterKey` was sent from `source` to `dest`. -/
def ExchangeCluster.Sent (c : ExchangeCluster) (source dest : UInt64) (t : AsExchangeMsgType)
    (clusterKey : UInt64) : Prop :=
  ∃ m, (source, dest, m) ∈ c.sent ∧ exchangeMsgTypeGet m = some t ∧ m.clusterKey = some clusterKey

inductive ClusterEvent where
  | deliver (source dest : UInt64) (m : ExchangeMsg)
  | timer (node : UInt64) (timeout : Bool)
  | clusterChanged (node clusterKey : UInt64)
  | orphaned (node : UInt64)

def ClusterEvent.node : ClusterEvent → UInt64
  | .deliver _ dest _ => dest
  | .timer node _ => node
  | .clusterChanged node _ => node
  | .orphaned node => node

section Steps

variable {c : ExchangeCluster} {n : UInt64} {g : AsExchange} {out : List (UInt64 × ExchangeMsg)}

@[simp] theorem ExchangeCluster.handled_nodes_self : (c.handled n g out).nodes n = g := by
  simp [ExchangeCluster.handled]

theorem ExchangeCluster.handled_nodes_of_ne {k : UInt64} (hk : k ≠ n) :
    (c.handled n g out).nodes k = c.nodes k := by
  simp [ExchangeCluster.handled, hk]

theorem ExchangeCluster.mem_handled_sent {s d : UInt64} {m : ExchangeMsg} :
    (s, d, m) ∈ (c.handled n g out).sent ↔ (s, d, m) ∈ c.sent ∨ (s = n ∧ (d, m) ∈ out) := by
  simp only [ExchangeCluster.handled, List.mem_append, List.mem_map, Prod.mk.injEq]
  constructor
  · rintro (h | ⟨⟨d', m'⟩, h, rfl, rfl, rfl⟩)
    · exact .inl h
    · exact .inr ⟨rfl, h⟩
  · rintro (h | ⟨rfl, h⟩)
    · exact .inl h
    · exact .inr ⟨(d, m), h, rfl, rfl, rfl⟩

theorem ExchangeCluster.sent_subset_handled : c.sent ⊆ (c.handled n g out).sent :=
  fun _ h => List.mem_append_left _ h

theorem ExchangeCluster.Sent.mono {c' : ExchangeCluster} {s d : UInt64} {t : AsExchangeMsgType}
    {K : UInt64} (h : c.Sent s d t K) (hsub : c.sent ⊆ c'.sent) : c'.Sent s d t K := by
  obtain ⟨m, hm, ht, hk⟩ := h
  exact ⟨m, hsub hm, ht, hk⟩

end Steps

@[simp] theorem exchangeMsgTypeGet_exchangeMsgGet (g : AsExchange) (t : AsExchangeMsgType) :
    exchangeMsgTypeGet (exchangeMsgGet g t) = some t := by
  cases t <;> rfl

@[simp] theorem clusterKey_exchangeMsgGet (g : AsExchange) (t : AsExchangeMsgType) :
    (exchangeMsgGet g t).clusterKey = some g.clusterKey := rfl

section Cluster

variable (cfg : UInt64 → ExchangeConfig) (succ : UInt64 → List UInt64)
  (vers : UInt64 → UInt64 → ℕ → ℕ → AsPartitionVersion)

def ClusterEvent.toEvent : ClusterEvent → AsExchangeEvent
  | .deliver source _ m => .msg source m
  | .timer _ timeout => .timer timeout
  | .clusterChanged node clusterKey => .clusterChanged clusterKey (succ clusterKey) (vers node clusterKey)
  | .orphaned _ => .orphaned

def ClusterEvent.Enabled (c : ExchangeCluster) : ClusterEvent → Prop
  | .deliver source dest m => (source, dest, m) ∈ c.sent
  | _ => True

/-- A step of the cluster: a node handles an event of its environment without
a crash. -/
inductive ClusterStep : ExchangeCluster → ExchangeCluster → Prop
  | handle (c : ExchangeCluster) (ev : ClusterEvent) (g : AsExchange)
      (out : List (UInt64 × ExchangeMsg)) (hen : ev.Enabled c)
      (h : exchangeEventHandle (cfg ev.node) (c.nodes ev.node) (ev.toEvent succ vers) = some (g, out)) :
      ClusterStep c (c.handled ev.node g out)

def ClusterReachable (c : ExchangeCluster) : Prop :=
  Relation.ReflTransGen (ClusterStep cfg succ vers) .init c

instance (c : ExchangeCluster) : (ev : ClusterEvent) → Decidable (ev.Enabled c)
  | .deliver source dest m => inferInstanceAs (Decidable ((source, dest, m) ∈ c.sent))
  | .timer .. => isTrue trivial
  | .clusterChanged .. => isTrue trivial
  | .orphaned _ => isTrue trivial

/-- A schedule of events run from a cluster, each enabled and handled without
a crash; `none` where one is not. -/
def ExchangeCluster.run (c : ExchangeCluster) : List ClusterEvent → Option ExchangeCluster
  | [] => some c
  | ev :: evs =>
    if ev.Enabled c then
      match exchangeEventHandle (cfg ev.node) (c.nodes ev.node) (ev.toEvent succ vers) with
      | some (g, out) => (c.handled ev.node g out).run evs
      | none => none
    else none

/-- The data node `n` sends in round `K`. -/
def roundDataMsg (n K : UInt64) : ExchangeMsg :=
  ⟨some asExchangeProtocolIdentifier, some AsExchangeMsgType.data.toUInt32, some K,
    some (cfg n).namespaceNames, some (preparedPayloads (cfg n) (vers n K)), some (cfg n).rackIds⟩

/-- The slots node `n` takes of node `x`'s data of round `K`. -/
def roundSlots (n x K : UInt64) : List AsExchangeNodeNamespaceData :=
  namespaceEntries (cfg n) (exchangeDataMsgEntries (roundDataMsg cfg vers x K))

/-- The nodes of round `K`, each with the slots node `n` takes of its data. -/
def roundNodeSlots (n K : UInt64) : List (UInt64 × List AsExchangeNodeNamespaceData) :=
  (succ K).map fun x => (x, roundSlots cfg vers n x K)

/-- In round `K`, node `x` acked every node's data and had its own acked by
every node. -/
def ExchangeCluster.AckedRound (c : ExchangeCluster) (x K : UInt64) : Prop :=
  ∀ y ∈ succ K, c.Sent y x .dataAck K ∧ c.Sent x y .dataAck K

def ExchangeCluster.ReadyRound (c : ExchangeCluster) (K : UInt64) : Prop :=
  ∀ x ∈ succ K, ∃ p, c.Sent x p .readyToCommit K

/-- What holds of node `n`'s record `g` in cluster `c`: its round is the
cluster change's, its own data the round's, the data it received the senders'
data of the round, each flag backed by the message that set it, and what it
committed the round's data, after every node of the round was ready. -/
structure NodeInv (c : ExchangeCluster) (n : UInt64) (g : AsExchange) : Prop where
  inv : ExchangeInv g
  succession : g.clusterKey ≠ 0 → g.successionList = succ g.clusterKey
  selfData : g.state = .exchanging ∨ g.state = .readyToCommit →
    g.selfDataDynBuf = preparedPayloads (cfg n) (vers n g.clusterKey)
  stored : ∀ x st, g.nodeidToNodeState x = some st → st.received →
    st.slots = roundSlots cfg vers n x g.clusterKey
  acked : ∀ x st, g.nodeidToNodeState x = some st → st.sendAcked → c.Sent x n .dataAck g.clusterKey
  received : ∀ x st, g.nodeidToNodeState x = some st → st.received → c.Sent n x .dataAck g.clusterKey
  marked : ∀ x st, g.nodeidToNodeState x = some st → st.isReadyToCommit →
    c.Sent x n .readyToCommit g.clusterKey
  rest : g.state = .rest → g.clusterKey ≠ 0 → c.ReadyRound succ g.clusterKey
  committed : g.committedClusterKey ≠ 0 →
    g.committedSuccessionList = succ g.committedClusterKey ∧
      commitNodeSlots (roundNodeSlots cfg succ vers n g.committedClusterKey) = some g.namespaces ∧
      c.ReadyRound succ g.committedClusterKey

/-- What a message node `n` sent stands for: data is the node's data of a
round, ready to commit follows the node's acked round, and a commit follows
every node's ready to commit. -/
structure MsgInv (c : ExchangeCluster) (n : UInt64) (m : ExchangeMsg) : Prop where
  data : exchangeMsgTypeGet m = some .data → ∃ K, m = roundDataMsg cfg vers n K
  readyToCommit : ∀ K, exchangeMsgTypeGet m = some .readyToCommit → m.clusterKey = some K →
    c.AckedRound succ n K
  commit : ∀ K, exchangeMsgTypeGet m = some .commit → m.clusterKey = some K → K ≠ 0 →
    c.ReadyRound succ K

structure ClusterInv (c : ExchangeCluster) : Prop where
  node : ∀ n, NodeInv cfg succ vers c n (c.nodes n)
  sent : ∀ s d m, (s, d, m) ∈ c.sent → MsgInv cfg succ vers c s m

section Mono

variable {cfg succ vers} {c c' : ExchangeCluster} (hsub : c.sent ⊆ c'.sent)
include hsub

theorem ExchangeCluster.AckedRound.mono {x K : UInt64} (h : c.AckedRound succ x K) :
    c'.AckedRound succ x K :=
  fun y hy => ⟨(h y hy).1.mono hsub, (h y hy).2.mono hsub⟩

theorem ExchangeCluster.ReadyRound.mono {K : UInt64} (h : c.ReadyRound succ K) :
    c'.ReadyRound succ K := fun x hx => by
  obtain ⟨p, hp⟩ := h x hx
  exact ⟨p, hp.mono hsub⟩

theorem NodeInv.mono {n : UInt64} {g : AsExchange} (h : NodeInv cfg succ vers c n g) :
    NodeInv cfg succ vers c' n g where
  inv := h.inv
  succession := h.succession
  selfData := h.selfData
  stored := h.stored
  acked x st hst ha := (h.acked x st hst ha).mono hsub
  received x st hst hr := (h.received x st hst hr).mono hsub
  marked x st hst hm := (h.marked x st hst hm).mono hsub
  rest hs hk := (h.rest hs hk).mono hsub
  committed hk := ⟨(h.committed hk).1, (h.committed hk).2.1, (h.committed hk).2.2.mono hsub⟩

theorem MsgInv.mono {n : UInt64} {m : ExchangeMsg} (h : MsgInv cfg succ vers c n m) :
    MsgInv cfg succ vers c' n m where
  data := h.data
  readyToCommit K ht hk := (h.readyToCommit K ht hk).mono hsub
  commit K ht hk hk0 := (h.commit K ht hk hk0).mono hsub

end Mono

section Paths

variable {cfg succ vers} {c : ExchangeCluster} {n : UInt64} {g : AsExchange}

theorem clusterKey_of_sane {source : UInt64} {m : ExchangeMsg}
    (h : exchangeMsgIsSane g source m = true) : m.clusterKey = some g.clusterKey ∧ g.clusterKey ≠ 0 := by
  simp only [exchangeMsgIsSane, Bool.and_eq_true] at h
  obtain ⟨-, hk⟩ := h
  cases hm : m.clusterKey with
  | none => simp [hm] at hk
  | some k =>
    simp only [hm, Option.map_some, Option.getD_some, Bool.and_eq_true, beq_iff_eq, bne_iff_ne] at hk
    exact ⟨by rw [hk.1], hk.2⟩

theorem exchangeMsgTypeGet_roundDataMsg (n K : UInt64) :
    exchangeMsgTypeGet (roundDataMsg cfg vers n K) = some .data := rfl

theorem exchangeMsgDataPayloadSet_eq
    (hbuf : g.selfDataDynBuf = preparedPayloads (cfg n) (vers n g.clusterKey)) :
    exchangeMsgDataPayloadSet (cfg n) g (exchangeMsgGet g .data) = roundDataMsg cfg vers n g.clusterKey := by
  simp [exchangeMsgDataPayloadSet, exchangeMsgGet, roundDataMsg, hbuf]

theorem msgInv_roundDataMsg (K : UInt64) : MsgInv cfg succ vers c n (roundDataMsg cfg vers n K) where
  data _ := ⟨K, rfl⟩
  readyToCommit _ ht := by
    rw [exchangeMsgTypeGet_roundDataMsg] at ht
    cases ht
  commit _ ht := by
    rw [exchangeMsgTypeGet_roundDataMsg] at ht
    cases ht

theorem msgInv_exchangeMsgGet {t : AsExchangeMsgType} (hdata : t ≠ .data)
    (hready : t = .readyToCommit → c.AckedRound succ n g.clusterKey)
    (hcommit : t = .commit → g.clusterKey ≠ 0 → c.ReadyRound succ g.clusterKey) :
    MsgInv cfg succ vers c n (exchangeMsgGet g t) where
  data ht := absurd (Option.some.inj ((exchangeMsgTypeGet_exchangeMsgGet g t).symm.trans ht)) hdata
  readyToCommit K ht hk := by
    rw [exchangeMsgTypeGet_exchangeMsgGet, Option.some.injEq] at ht
    rw [clusterKey_exchangeMsgGet, Option.some.injEq] at hk
    subst hk
    exact hready ht
  commit K ht hk hk0 := by
    rw [exchangeMsgTypeGet_exchangeMsgGet, Option.some.injEq] at ht
    rw [clusterKey_exchangeMsgGet, Option.some.injEq] at hk
    subst hk
    exact hcommit ht hk0

theorem msgInv_dataAck : MsgInv cfg succ vers c n (exchangeMsgGet g .dataAck) :=
  msgInv_exchangeMsgGet (by decide) (fun h => by cases h) (fun h => by cases h)

theorem msgInv_pendingAck (hbuf : g.selfDataDynBuf = preparedPayloads (cfg n) (vers n g.clusterKey)) :
    ∀ o ∈ exchangeDataMsgSendPendingAck (cfg n) g, MsgInv cfg succ vers c n o.2 := by
  intro o ho
  obtain ⟨x, -, rfl⟩ := List.mem_map.mp ho
  rw [exchangeMsgDataPayloadSet_eq hbuf]
  exact msgInv_roundDataMsg _

theorem NodeInv.ackedRound (h : NodeInv cfg succ vers c n g) (hstate : g.state = .readyToCommit) :
    c.AckedRound succ n g.clusterKey := by
  obtain ⟨hk, hflags⟩ := h.inv.ready hstate
  intro y hy
  rw [← h.succession hk] at hy
  obtain ⟨st, hst⟩ := Option.isSome_iff_exists.mp ((h.inv.dom y).mpr hy)
  exact ⟨h.acked y st hst (hflags y st hst).1, h.received y st hst (hflags y st hst).2⟩

theorem NodeInv.nodeSlots_eq (h : NodeInv cfg succ vers c n g) (hstate : g.state = .readyToCommit) :
    nodeSlots g = roundNodeSlots cfg succ vers n g.clusterKey := by
  obtain ⟨hk, hflags⟩ := h.inv.ready hstate
  rw [nodeSlots, roundNodeSlots, h.succession hk]
  refine List.map_congr_left fun x hx => ?_
  rw [← h.succession hk] at hx
  obtain ⟨st, hst⟩ := Option.isSome_iff_exists.mp ((h.inv.dom x).mpr hx)
  rw [hst, Option.map_some, Option.getD_some, h.stored x st hst (hflags x st hst).2]

theorem NodeInv.checkSwitch (h : NodeInv cfg succ vers c n g) (hstate : g.state = .exchanging) :
    NodeInv cfg succ vers c n (exchangeExchangingCheckSwitchReadyToCommit g).1 ∧
      ∀ o ∈ (exchangeExchangingCheckSwitchReadyToCommit g).2, MsgInv cfg succ vers c n o.2 := by
  rcases exchangeExchangingCheckSwitchReadyToCommit_cases g with hsw | ⟨-, -, -, -, hsw⟩
  · rw [hsw]
    exact ⟨h, fun o ho => by cases ho⟩
  have hi := h.inv.checkSwitch
  rw [hsw] at hi ⊢
  have hnode : NodeInv cfg succ vers c n { g with state := .readyToCommit } :=
    { h with inv := hi, selfData := fun _ => h.selfData (.inl hstate), rest := fun hr => by cases hr }
  exact ⟨hnode, List.forall_mem_singleton.mpr
    (msgInv_exchangeMsgGet (by decide) (fun _ => hnode.ackedRound rfl) (fun h => by cases h))⟩

theorem NodeInv.update {s : UInt64} {st' : AsExchangeNodeState} (h : NodeInv cfg succ vers c n g)
    (hi : ExchangeInv (exchangeNodeStateUpdate g s st'))
    (hstored : st'.received → st'.slots = roundSlots cfg vers n s g.clusterKey)
    (hacked : st'.sendAcked → c.Sent s n .dataAck g.clusterKey)
    (hreceived : st'.received → c.Sent n s .dataAck g.clusterKey)
    (hmarked : st'.isReadyToCommit → c.Sent s n .readyToCommit g.clusterKey) :
    NodeInv cfg succ vers c n (exchangeNodeStateUpdate g s st') where
  inv := hi
  succession := h.succession
  selfData := h.selfData
  stored := exchangeNodeStateUpdate_forall hstored h.stored
  acked := exchangeNodeStateUpdate_forall hacked h.acked
  received := exchangeNodeStateUpdate_forall hreceived h.received
  marked := exchangeNodeStateUpdate_forall hmarked h.marked
  rest := h.rest
  committed := h.committed

theorem NodeInv.of_fresh {g' : AsExchange} (h : NodeInv cfg succ vers c n g) (hi : ExchangeInv g')
    (hfresh : ∀ x st, g'.nodeidToNodeState x = some st → st.Fresh)
    (hsucc : g'.clusterKey ≠ 0 → g'.successionList = succ g'.clusterKey)
    (hself : g'.state = .exchanging ∨ g'.state = .readyToCommit →
      g'.selfDataDynBuf = preparedPayloads (cfg n) (vers n g'.clusterKey))
    (hstate : g'.state ≠ .rest) (hkey : g'.committedClusterKey = g.committedClusterKey)
    (hsl : g'.committedSuccessionList = g.committedSuccessionList)
    (hns : g'.namespaces = g.namespaces) : NodeInv cfg succ vers c n g' where
  inv := hi
  succession := hsucc
  selfData := hself
  stored x st hx hr := by rw [(hfresh x st hx).received] at hr; cases hr
  acked x st hx ha := by rw [(hfresh x st hx).sendAcked] at ha; cases ha
  received x st hx hr := by rw [(hfresh x st hx).received] at hr; cases hr
  marked x st hx hm := by rw [(hfresh x st hx).isReadyToCommit] at hm; cases hm
  rest hr := absurd hr hstate
  committed hk := by
    rw [hkey, hsl, hns]
    exact h.committed (hkey ▸ hk)

end Paths

section Step

variable {cfg succ vers} {c c' : ExchangeCluster} (hI : ClusterInv cfg succ vers c)
  (hsub : c.sent ⊆ c'.sent) {n source : UInt64} {m : ExchangeMsg}
include hI hsub

theorem ClusterInv.dataStored {st r : AsExchangeNodeState} (hm : (source, n, m) ∈ c.sent)
    (hsane : exchangeMsgIsSane (c.nodes n) source m = true) (htype : exchangeMsgTypeGet m = some .data)
    (hst : (c.nodes n).nodeidToNodeState source = some st)
    (hns : exchangeDataMsgNamespaces (cfg n) (exchangeDataMsgEntries m)
      { st with numNamespaces := 0 } = some (r, true))
    (hi : ExchangeInv (exchangeNodeStateUpdate (c.nodes n) source { r with received := true }))
    (hack : c'.Sent n source .dataAck (c.nodes n).clusterKey) :
    NodeInv cfg succ vers c' n (exchangeNodeStateUpdate (c.nodes n) source { r with received := true }) := by
  have h := (hI.node n).mono hsub
  obtain ⟨K, rfl⟩ := (hI.sent source n m hm).data htype
  have hK : K = (c.nodes n).clusterKey := by
    simpa [roundDataMsg] using (clusterKey_of_sane hsane).1
  subst hK
  obtain ⟨hslots, -⟩ := exchangeDataMsgNamespaces_true (cfg n) hns
  obtain ⟨-, k, data, rfl⟩ := exchangeDataMsgNamespaces_le (cfg n) hns
  refine h.update hi (fun _ => ?_) (h.acked source st hst) (fun _ => hack) (h.marked source st hst)
  simpa [AsExchangeNodeState.slots, roundSlots] using hslots

theorem ClusterInv.markReady {st : AsExchangeNodeState} (hm : (source, n, m) ∈ c.sent)
    (hsane : exchangeMsgIsSane (c.nodes n) source m = true)
    (htype : exchangeMsgTypeGet m = some .readyToCommit)
    (hst : (c.nodes n).nodeidToNodeState source = some st) :
    NodeInv cfg succ vers c' n
        (exchangeNodeStateUpdate (c.nodes n) source { st with isReadyToCommit := true }) ∧
      ∀ o ∈ (if (exchangeNodesFindNotReadyToCommit
            (exchangeNodeStateUpdate (c.nodes n) source { st with isReadyToCommit := true })).isEmpty then
          (c.nodes n).successionList.map fun x => (x, exchangeMsgGet (c.nodes n) .commit)
        else []), MsgInv cfg succ vers c' n o.2 := by
  have h := (hI.node n).mono hsub
  obtain ⟨hkey, hk0⟩ := clusterKey_of_sane hsane
  have hnode := h.update ((hI.node n).inv.markReady hst) (h.stored source st hst)
    (h.acked source st hst) (h.received source st hst) (fun _ => ⟨m, hsub hm, htype, hkey⟩)
  refine ⟨hnode, fun o ho => ?_⟩
  split_ifs at ho with hall
  · obtain ⟨x, -, rfl⟩ := List.mem_map.mp ho
    refine msgInv_exchangeMsgGet (by decide) (fun h => by cases h) fun _ _ y hy => ⟨n, ?_⟩
    have hy' : y ∈ (c.nodes n).successionList := by rwa [h.succession hk0]
    obtain ⟨sty, hsty⟩ := Option.isSome_iff_exists.mp ((hnode.inv.dom y).mpr hy')
    exact hnode.marked y sty hsty
      (exchangeNodesFind_eq_nil.mp (List.isEmpty_iff.mp hall) y hy' sty hsty)
  · cases ho

theorem ClusterInv.commit {g'' : AsExchange} (hm : (source, n, m) ∈ c.sent)
    (hstate : (c.nodes n).state = .readyToCommit) (hsane : exchangeMsgIsSane (c.nodes n) source m = true)
    (htype : exchangeMsgTypeGet m = some .commit) (hcommit : exchangeDataCommit (c.nodes n) = some g'')
    (hi : ExchangeInv { g'' with state := .rest }) :
    NodeInv cfg succ vers c' n { g'' with state := .rest } := by
  have h := (hI.node n).mono hsub
  obtain ⟨hkey, hk0⟩ := clusterKey_of_sane hsane
  have hready : c'.ReadyRound succ (c.nodes n).clusterKey :=
    ((hI.sent source n m hm).commit _ htype hkey hk0).mono hsub
  have hsucc := h.succession hk0
  have hdom : ∀ x ∈ (c.nodes n).successionList, ((c.nodes n).nodeidToNodeState x).isSome :=
    fun x hx => (h.inv.dom x).mpr hx
  have hslots : commitNodeSlots (roundNodeSlots cfg succ vers n (c.nodes n).clusterKey) =
      some g''.namespaces := by
    have := exchangeDataCommit_eq hdom
    rw [hcommit, h.nodeSlots_eq hstate] at this
    cases hc : commitNodeSlots (roundNodeSlots cfg succ vers n (c.nodes n).clusterKey) with
    | none => simp [hc] at this
    | some nss =>
      rw [hc, Option.map_some, Option.some.injEq] at this
      rw [this]
  obtain ⟨nss, rfl⟩ := exchangeDataCommit_eq_some hcommit
  exact { h with
    inv := hi
    selfData := fun hs => by simp at hs
    rest := fun _ _ => hready
    committed := fun _ => ⟨hsucc, hslots, hready⟩ }

theorem ClusterInv.path {ev : ClusterEvent} (hen : ev.Enabled c) {g' : AsExchange}
    {out : List (UInt64 × ExchangeMsg)} (hout : ∀ o ∈ out, (ev.node, o.1, o.2) ∈ c'.sent)
    (hh : Handles (cfg ev.node) (c.nodes ev.node) (ev.toEvent succ vers) g' out) :
    NodeInv cfg succ vers c' ev.node g' ∧ ∀ o ∈ out, MsgInv cfg succ vers c' ev.node o.2 := by
  have hi := hh.inv (hI.node ev.node).inv
  have h := (hI.node ev.node).mono hsub
  cases ev with
  | deliver source n m =>
    simp only [ClusterEvent.toEvent, ClusterEvent.node, ClusterEvent.Enabled] at hh hi h hen hout ⊢
    cases hh with
    | ignore => exact ⟨h, fun o ho => by cases ho⟩
    | resendCommit _ _ hstate hsane _ _ =>
      exact ⟨h, List.forall_mem_singleton.mpr
        (msgInv_exchangeMsgGet (by decide) (fun h => by cases h) (fun _ hk0 => h.rest hstate hk0))⟩
    | ackData => exact ⟨h, List.forall_mem_singleton.mpr msgInv_dataAck⟩
    | dataPartial _ _ st r hstate _ _ hst hreceived _ hns =>
      obtain ⟨-, k, data, rfl⟩ := exchangeDataMsgNamespaces_le (cfg n) hns
      refine ⟨h.update hi (fun hr => ?_) (h.acked source st hst) (fun hr => ?_)
        (h.marked source st hst), fun o ho => by cases ho⟩
      · simp_all
      · simp_all
    | dataStored _ _ st r g'' out' hstate hsane htype hst _ hnum hns hswitch =>
      have hack : c'.Sent n source .dataAck (c.nodes n).clusterKey :=
        ⟨_, hout _ (List.mem_cons_self ..), by simp, by simp⟩
      have h₁ := hI.dataStored hsub hen hsane htype hst hns
        ((hI.node n).inv.dataStored hstate hst hnum hns) hack
      have hsw := h₁.checkSwitch hstate
      rw [hswitch] at hsw
      exact ⟨hsw.1, List.forall_mem_cons.mpr ⟨msgInv_dataAck, hsw.2⟩⟩
    | dataAgain _ _ st g'' out' hstate _ _ _ _ hswitch =>
      have hsw := h.checkSwitch hstate
      rw [hswitch] at hsw
      exact ⟨hsw.1, List.forall_mem_cons.mpr ⟨msgInv_dataAck, hsw.2⟩⟩
    | dataAck _ _ st g'' out' hstate hsane htype hst hswitch =>
      have hkey := (clusterKey_of_sane hsane).1
      have h₁ := h.update ((hI.node n).inv.dataAck hstate hst) (h.stored source st hst)
        (fun _ => ⟨m, hsub hen, htype, hkey⟩) (h.received source st hst) (h.marked source st hst)
      have hsw := h₁.checkSwitch hstate
      rw [hswitch] at hsw
      exact hsw
    | markReady _ _ st _ hsane htype _ hst => exact hI.markReady hsub hen hsane htype hst
    | commit _ _ g'' hstate hsane htype _ hcommit =>
      exact ⟨hI.commit hsub hen hstate hsane htype hcommit hi, fun o ho => by cases ho⟩
  | timer n timeout =>
    simp only [ClusterEvent.toEvent, ClusterEvent.node] at hh hi h hout ⊢
    cases hh with
    | ignore => exact ⟨h, fun o ho => by cases ho⟩
    | orphanCommit hstate =>
      exact ⟨{ h with inv := hi, committed := fun hk => absurd rfl hk }, fun o ho => by cases ho⟩
    | resendData hstate => exact ⟨h, msgInv_pendingAck (h.selfData (.inl hstate))⟩
    | resendReadyToCommit hstate =>
      exact ⟨h, List.forall_mem_singleton.mpr
        (msgInv_exchangeMsgGet (by decide) (fun _ => h.ackedRound hstate) (fun h => by cases h))⟩
  | clusterChanged n K =>
    simp only [ClusterEvent.toEvent, ClusterEvent.node] at hh hi h hout ⊢
    cases hh with
    | ignore => exact ⟨h, fun o ho => by cases ho⟩
    | clusterChanged _ _ _ g' hg' =>
      subst hg'
      refine ⟨h.of_fresh hi (fun x st hx =>
        (exchangeResetForNewRound_nodeidToNodeState _ (S := succ K) (K := K) hx).2)
        (fun _ => by simp [exchangeResetForNewRound_eq])
        (fun _ => by simp [exchangeResetForNewRound_eq]) (by simp) (by simp [exchangeResetForNewRound_eq])
        (by simp [exchangeResetForNewRound_eq]) (by simp [exchangeResetForNewRound_eq]), ?_⟩
      exact msgInv_pendingAck (by simp [exchangeResetForNewRound_eq])
  | orphaned n =>
    simp only [ClusterEvent.toEvent, ClusterEvent.node] at hh hi h hout ⊢
    cases hh with
    | ignore => exact ⟨h, fun o ho => by cases ho⟩
    | orphaned =>
      refine ⟨h.of_fresh hi (fun x st hx => (exchangeResetForNewRound_nodeidToNodeState
          { c.nodes n with state := .orphaned } (S := []) (K := 0) (n := x) hx).2) (fun hk => ?_) (fun hs => ?_) ?_ rfl rfl rfl,
        fun o ho => by cases ho⟩
      · simp [exchangeOrphanedHandle, exchangeResetForNewRound_eq] at hk
      · simp [exchangeOrphanedHandle, exchangeResetForNewRound_eq] at hs
      · simp [exchangeOrphanedHandle, exchangeResetForNewRound_eq]

end Step

section Reachable

variable {cfg succ vers}

theorem ClusterInv.step {c c' : ExchangeCluster} (hI : ClusterInv cfg succ vers c)
    (hs : ClusterStep cfg succ vers c c') : ClusterInv cfg succ vers c' := by
  cases hs with
  | handle ev g' out hen h => ?_
  have hsub : c.sent ⊆ (c.handled ev.node g' out).sent := ExchangeCluster.sent_subset_handled
  obtain ⟨hnode, hmsg⟩ := hI.path hsub hen
    (fun o ho => ExchangeCluster.mem_handled_sent.mpr (.inr ⟨rfl, ho⟩)) (exchangeEventHandle_handles h)
  refine ⟨fun k => ?_, fun s d m hm => ?_⟩
  · by_cases hk : k = ev.node
    · subst hk
      rw [ExchangeCluster.handled_nodes_self]
      exact hnode
    · rw [ExchangeCluster.handled_nodes_of_ne hk]
      exact (hI.node k).mono hsub
  · rcases ExchangeCluster.mem_handled_sent.mp hm with hold | ⟨rfl, hnew⟩
    · exact (hI.sent s d m hold).mono hsub
    · exact hmsg (d, m) hnew

theorem clusterInv_init : ClusterInv cfg succ vers .init where
  node _ := {
    inv := exchangeInv_init
    succession := fun hk => absurd rfl hk
    selfData := fun hs => by rcases hs with hs | hs <;> cases hs
    stored := fun _ _ hx => by cases hx
    acked := fun _ _ hx => by cases hx
    received := fun _ _ hx => by cases hx
    marked := fun _ _ hx => by cases hx
    rest := fun _ hk => absurd rfl hk
    committed := fun hk => absurd rfl hk }
  sent _ _ _ hm := by cases hm

theorem clusterInv_of_reachable {c : ExchangeCluster} (hr : ClusterReachable cfg succ vers c) :
    ClusterInv cfg succ vers c := by
  induction hr with
  | refl => exact clusterInv_init
  | tail _ hs ih => exact ih.step hs

theorem ClusterReachable.run {c c' : ExchangeCluster} (hr : ClusterReachable cfg succ vers c) :
    ∀ {evs : List ClusterEvent}, c.run cfg succ vers evs = some c' → ClusterReachable cfg succ vers c'
  | [], h => by
    cases h
    exact hr
  | ev :: evs, h => by
    rw [ExchangeCluster.run] at h
    split_ifs at h with hen
    split at h
    · next g out hstep => exact ClusterReachable.run (.tail hr (.handle c ev g out hen hstep)) h
    · cases h

end Reachable

end Cluster

end Aerospike.Exchange
