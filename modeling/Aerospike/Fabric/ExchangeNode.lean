import Aerospike.Fabric.Exchange
import Aerospike.Lib.Pointwise

/-! # What a node's exchange handlers do

One relation lists the paths of `exchange_event_handle`, each with the record
it leaves and the messages it sends, and every run of the handler that does
not crash takes one of them. Over it: the invariant of a node's record, kept
by every path; the commit of all nodes' data, read one namespace at a time;
and the handlers' freedom from crashes in any record that keeps the
invariant, but for the data commit itself.
-/

namespace Aerospike.Exchange

def AsExchangeNodeState.slots (st : AsExchangeNodeState) : List AsExchangeNodeNamespaceData :=
  (List.range st.numNamespaces).map st.namespaceData

def AsExchangeNodeState.push (st : AsExchangeNodeState) (d : AsExchangeNodeNamespaceData) :
    AsExchangeNodeState :=
  { st with
    numNamespaces := st.numNamespaces + 1
    namespaceData := Function.update st.namespaceData st.numNamespaces d }

/-- The slots the namespace loop adds for a message's entries: one for each
entry whose name is a local namespace, with its payload and rack id. -/
def namespaceEntries (cfg : ExchangeConfig) (entries : List (List UInt8 × List UInt8 × UInt32)) :
    List AsExchangeNodeNamespaceData :=
  entries.filterMap fun e => (asNamespaceGetBybuf cfg e.1).map fun nsIx => ⟨some nsIx, e.2.1, e.2.2⟩

/-- The payloads `exchange_data_payloads_prepare` builds. -/
def preparedPayloads (cfg : ExchangeConfig) (versions : ℕ → ℕ → AsPartitionVersion) :
    List (List UInt8) :=
  (List.range cfg.namespaceNames.length).map fun nsIx =>
    (exchangeDataNamespacePayloadAdd (versions nsIx) []).getD []

/-- A node's state at the start of a round: nothing acked, received or ready,
and no data. -/
structure AsExchangeNodeState.Fresh (st : AsExchangeNodeState) : Prop where
  sendAcked : st.sendAcked = false
  received : st.received = false
  isReadyToCommit : st.isReadyToCommit = false
  numNamespaces : st.numNamespaces = 0

/-- The data of a received node: each slot has a local namespace and a payload
the check accepts. -/
def SlotsWf (st : AsExchangeNodeState) : Prop :=
  ∀ d ∈ st.slots, d.localNamespace.isSome ∧ exchangeNamespacePayloadIsValid d.partitionVersions = some true

/-- What holds of a node's record between events: a state for exactly the
nodes of the succession list, whose first node is the principal; at most
`AS_NAMESPACE_SZ` slots of data per node, well formed once received; and in
ready to commit, a round under way with every node's data sent and received. -/
structure ExchangeInv (g : AsExchange) : Prop where
  dom : ∀ n, (g.nodeidToNodeState n).isSome ↔ n ∈ g.successionList
  principal : g.principal = g.successionList.headD 0
  clusterSize : g.clusterSize = g.successionList.length
  numNamespaces_le : ∀ n st, g.nodeidToNodeState n = some st → st.numNamespaces ≤ asNamespaceSz
  slotsWf : ∀ n st, g.nodeidToNodeState n = some st → st.received → SlotsWf st
  ready : g.state = .readyToCommit → g.clusterKey ≠ 0 ∧
    ∀ n st, g.nodeidToNodeState n = some st → st.sendAcked ∧ st.received

section NodeState

variable {st : AsExchangeNodeState} {d : AsExchangeNodeNamespaceData}

theorem AsExchangeNodeState.slots_push : (st.push d).slots = st.slots ++ [d] := by
  simp only [slots, push, List.range_succ, List.map_append, List.map_singleton,
    Function.update_self, List.append_cancel_right_eq]
  exact List.map_congr_left fun i hi => Function.update_of_ne (List.mem_range.mp hi).ne _ _

theorem AsExchangeNodeState.fresh_init : AsExchangeNodeState.init.Fresh := ⟨rfl, rfl, rfl, rfl⟩

theorem exchangeNodeStateReset_fresh (st : AsExchangeNodeState) : (exchangeNodeStateReset st).Fresh :=
  ⟨rfl, rfl, rfl, rfl⟩

end NodeState

section Round

variable (g : AsExchange)

theorem exchangeResetForNewRound_eq (S : List UInt64) (K : UInt64) :
    exchangeResetForNewRound g S K = { g with
      successionList := S, principal := S.headD 0, clusterSize := S.length, clusterKey := K,
      nodeidToNodeState := fun n => if n ∈ S then
        some (((g.nodeidToNodeState n).map exchangeNodeStateReset).getD .init) else none } := by
  cases S with
  | nil => simp [exchangeResetForNewRound, exchangeNodeStatesReset]
  | cons p S =>
    simp only [exchangeResetForNewRound, exchangeNodeStatesReset, List.headD_cons]
    congr 1
    funext n
    split_ifs <;> rfl

theorem exchangeResetForNewRound_nodeidToNodeState {S : List UInt64} {K : UInt64} {n : UInt64}
    {st : AsExchangeNodeState} (h : (exchangeResetForNewRound g S K).nodeidToNodeState n = some st) :
    n ∈ S ∧ st.Fresh := by
  rw [exchangeResetForNewRound_eq] at h
  dsimp only at h
  split_ifs at h with hn
  · refine ⟨hn, ?_⟩
    cases hg : g.nodeidToNodeState n with
    | none =>
      rw [hg] at h
      cases h
      exact AsExchangeNodeState.fresh_init
    | some st₀ =>
      rw [hg] at h
      cases h
      exact exchangeNodeStateReset_fresh st₀

end Round

section Nodes

variable {g : AsExchange} {n : UInt64} {st st' : AsExchangeNodeState}

theorem exchangeNodesFind_eq_nil {flag : AsExchangeNodeState → Bool} :
    exchangeNodesFind g flag = [] ↔
      ∀ n ∈ g.successionList, ∀ st, g.nodeidToNodeState n = some st → flag st = true := by
  simp only [exchangeNodesFind, List.filter_eq_nil_iff]
  refine forall₂_congr fun n _ => ?_
  cases g.nodeidToNodeState n <;> simp

theorem exchangeNodeStateUpdate_of_eq (h : g.nodeidToNodeState n = some st) :
    exchangeNodeStateUpdate g n st = g := by
  simp only [exchangeNodeStateUpdate, ← h, Function.update_eq_self]

theorem exchangeNodeStateUpdate_eq_some {m : UInt64} {s : AsExchangeNodeState} :
    (exchangeNodeStateUpdate g n st').nodeidToNodeState m = some s ↔
      (m = n ∧ s = st') ∨ (m ≠ n ∧ g.nodeidToNodeState m = some s) := by
  by_cases hm : m = n
  · subst hm
    simp [exchangeNodeStateUpdate, eq_comm]
  · simp [exchangeNodeStateUpdate, hm]

theorem exchangeNodeStateUpdate_ite_flag (flag : AsExchangeNodeState → Bool)
    (set : AsExchangeNodeState → AsExchangeNodeState) (hset : ∀ st, flag st = true → set st = st)
    (hst : g.nodeidToNodeState n = some st) :
    (if !flag st then exchangeNodeStateUpdate g n (set st) else g) = exchangeNodeStateUpdate g n (set st) := by
  cases hflag : flag st
  · rfl
  · rw [Bool.not_true, if_neg Bool.false_ne_true, hset st hflag, exchangeNodeStateUpdate_of_eq hst]

theorem exchangeNodeStateUpdate_forall {P : UInt64 → AsExchangeNodeState → Prop} (hnew : P n st')
    (hold : ∀ m s, g.nodeidToNodeState m = some s → P m s) :
    ∀ m s, (exchangeNodeStateUpdate g n st').nodeidToNodeState m = some s → P m s := by
  intro m s h
  rcases exchangeNodeStateUpdate_eq_some.mp h with ⟨rfl, rfl⟩ | ⟨-, h⟩
  · exact hnew
  · exact hold m s h

theorem ExchangeInv.update (hi : ExchangeInv g) (hst : g.nodeidToNodeState n = some st)
    (hle : st'.numNamespaces ≤ asNamespaceSz) (hwf : st'.received → SlotsWf st')
    (hready : g.state = .readyToCommit → st'.sendAcked ∧ st'.received) :
    ExchangeInv (exchangeNodeStateUpdate g n st') where
  dom m := by
    by_cases hm : m = n
    · subst hm
      simp [exchangeNodeStateUpdate, ← hi.dom, hst]
    · simp [exchangeNodeStateUpdate, hm, hi.dom]
  principal := hi.principal
  clusterSize := hi.clusterSize
  numNamespaces_le := exchangeNodeStateUpdate_forall hle hi.numNamespaces_le
  slotsWf := exchangeNodeStateUpdate_forall hwf hi.slotsWf
  ready hr := ⟨(hi.ready hr).1, exchangeNodeStateUpdate_forall (hready hr) (hi.ready hr).2⟩

theorem ExchangeInv.of_fresh (hdom : ∀ n, (g.nodeidToNodeState n).isSome ↔ n ∈ g.successionList)
    (hp : g.principal = g.successionList.headD 0) (hcs : g.clusterSize = g.successionList.length)
    (hfresh : ∀ n st, g.nodeidToNodeState n = some st → st.Fresh)
    (hstate : g.state ≠ .readyToCommit) : ExchangeInv g where
  dom := hdom
  principal := hp
  clusterSize := hcs
  numNamespaces_le n st h := by
    rw [(hfresh n st h).numNamespaces]
    exact Nat.zero_le _
  slotsWf n st h hr := by
    rw [(hfresh n st h).received] at hr
    cases hr
  ready h := absurd h hstate

theorem ExchangeInv.resetForNewRound {g' : AsExchange} (S : List UInt64) (K : UInt64)
    (hnodes : g'.nodeidToNodeState = (exchangeResetForNewRound g S K).nodeidToNodeState)
    (hsucc : g'.successionList = S) (hp : g'.principal = S.headD 0)
    (hcs : g'.clusterSize = S.length) (hstate : g'.state ≠ .readyToCommit) : ExchangeInv g' := by
  refine .of_fresh (fun m => ?_) (by rw [hp, hsucc]) (by rw [hcs, hsucc])
    (fun m s h => (exchangeResetForNewRound_nodeidToNodeState g (hnodes ▸ h)).2) hstate
  rw [hnodes, hsucc, exchangeResetForNewRound_eq]
  by_cases hm : m ∈ S <;> simp [hm]

end Nodes

section Switch

variable (g : AsExchange)

/-- `exchange_exchanging_check_switch_ready_to_commit` either leaves the record,
or, in a round under way with every node's data acked and received, moves to
ready to commit and tells the principal. -/
theorem exchangeExchangingCheckSwitchReadyToCommit_cases :
    exchangeExchangingCheckSwitchReadyToCommit g = (g, []) ∨
      (g.state ≠ .rest ∧ g.clusterKey ≠ 0 ∧ exchangeNodesFindSendUnacked g = [] ∧
        exchangeNodesFindNotReceived g = [] ∧
        exchangeExchangingCheckSwitchReadyToCommit g =
          ({ g with state := .readyToCommit }, [(g.principal, exchangeMsgGet g .readyToCommit)])) := by
  unfold exchangeExchangingCheckSwitchReadyToCommit
  split_ifs with hround hacked hreceived
  · exact .inl rfl
  · exact .inl rfl
  · exact .inl rfl
  · right
    rw [not_or] at hround
    exact ⟨hround.1, hround.2, by simpa using hacked, by simpa using hreceived, rfl⟩

end Switch

section Namespaces

variable (cfg : ExchangeConfig)

theorem namespaceEntries_cons_none {name pv : List UInt8} {rackId : UInt32}
    (rest : List (List UInt8 × List UInt8 × UInt32)) (hns : asNamespaceGetBybuf cfg name = none) :
    namespaceEntries cfg ((name, pv, rackId) :: rest) = namespaceEntries cfg rest := by
  simp [namespaceEntries, hns]

theorem namespaceEntries_cons_some {name pv : List UInt8} {rackId : UInt32} {nsIx : ℕ}
    (rest : List (List UInt8 × List UInt8 × UInt32)) (hns : asNamespaceGetBybuf cfg name = some nsIx) :
    namespaceEntries cfg ((name, pv, rackId) :: rest) = ⟨some nsIx, pv, rackId⟩ :: namespaceEntries cfg rest := by
  simp [namespaceEntries, hns]

theorem exchangeDataMsgNamespaces_match {name pv : List UInt8} {rackId : UInt32} {nsIx : ℕ}
    (rest : List (List UInt8 × List UInt8 × UInt32)) (st : AsExchangeNodeState)
    (hns : asNamespaceGetBybuf cfg name = some nsIx)
    (hv : exchangeNamespacePayloadIsValid pv = some true) :
    exchangeDataMsgNamespaces cfg ((name, pv, rackId) :: rest) st =
      exchangeDataMsgNamespaces cfg rest (st.push ⟨some nsIx, pv, rackId⟩) := by
  simp only [exchangeDataMsgNamespaces, hns, hv, AsExchangeNodeState.push, Function.update_idem,
    Function.update_self]

theorem exchangeDataMsgNamespaces_le :
    ∀ {entries : List (List UInt8 × List UInt8 × UInt32)} {st r : AsExchangeNodeState} {b : Bool},
      exchangeDataMsgNamespaces cfg entries st = some (r, b) →
        r.numNamespaces ≤ st.numNamespaces + entries.length ∧
          ∃ k data, r = { st with numNamespaces := k, namespaceData := data }
  | [], st, r, b, h => by
    simp only [exchangeDataMsgNamespaces, Option.some.injEq, Prod.mk.injEq] at h
    obtain ⟨rfl, -⟩ := h
    exact ⟨by simp, _, _, rfl⟩
  | (name, pv, rackId) :: rest, st, r, b, h => by
    simp only [exchangeDataMsgNamespaces] at h
    split at h
    · obtain ⟨hle, k, data, rfl⟩ := exchangeDataMsgNamespaces_le h
      exact ⟨by simp only [List.length_cons] at hle ⊢; omega, k, data, rfl⟩
    · split at h
      · cases h
      · obtain ⟨rfl, -⟩ := Prod.mk.inj (Option.some.inj h)
        exact ⟨by simp, _, _, rfl⟩
      · obtain ⟨hle, k, data, hr⟩ := exchangeDataMsgNamespaces_le h
        exact ⟨by simp only [List.length_cons] at hle ⊢; omega, k, data, hr⟩

theorem exchangeDataMsgNamespaces_true :
    ∀ {entries : List (List UInt8 × List UInt8 × UInt32)} {st r : AsExchangeNodeState},
      exchangeDataMsgNamespaces cfg entries st = some (r, true) →
        r.slots = st.slots ++ namespaceEntries cfg entries ∧
          ∀ d ∈ namespaceEntries cfg entries, exchangeNamespacePayloadIsValid d.partitionVersions = some true
  | [], st, r, h => by
    simp only [exchangeDataMsgNamespaces, Option.some.injEq, Prod.mk.injEq, and_true] at h
    subst h
    simp [namespaceEntries]
  | (name, pv, rackId) :: rest, st, r, h => by
    cases hns : asNamespaceGetBybuf cfg name with
    | none =>
      simp only [exchangeDataMsgNamespaces, hns] at h
      rw [namespaceEntries_cons_none cfg rest hns]
      exact exchangeDataMsgNamespaces_true h
    | some nsIx =>
      cases hv : exchangeNamespacePayloadIsValid pv with
      | none => simp [exchangeDataMsgNamespaces, hns, hv] at h
      | some valid =>
        cases valid with
        | false => simp [exchangeDataMsgNamespaces, hns, hv] at h
        | true =>
          rw [exchangeDataMsgNamespaces_match cfg rest st hns hv] at h
          obtain ⟨hslots, hvalid⟩ := exchangeDataMsgNamespaces_true h
          rw [namespaceEntries_cons_some cfg rest hns]
          refine ⟨by simp [hslots, AsExchangeNodeState.slots_push], ?_⟩
          simp only [List.mem_cons, forall_eq_or_imp]
          exact ⟨hv, hvalid⟩

theorem exchangeDataMsgNamespaces_of_valid :
    ∀ {entries : List (List UInt8 × List UInt8 × UInt32)} (st : AsExchangeNodeState),
      (∀ d ∈ namespaceEntries cfg entries, exchangeNamespacePayloadIsValid d.partitionVersions = some true) →
        ∃ r, exchangeDataMsgNamespaces cfg entries st = some (r, true)
  | [], st, _ => ⟨st, rfl⟩
  | (name, pv, rackId) :: rest, st, hvalid => by
    cases hns : asNamespaceGetBybuf cfg name with
    | none =>
      rw [namespaceEntries_cons_none cfg rest hns] at hvalid
      simp only [exchangeDataMsgNamespaces, hns]
      exact exchangeDataMsgNamespaces_of_valid st hvalid
    | some nsIx =>
      rw [namespaceEntries_cons_some cfg rest hns, List.forall_mem_cons] at hvalid
      rw [exchangeDataMsgNamespaces_match cfg rest st hns hvalid.1]
      exact exchangeDataMsgNamespaces_of_valid _ hvalid.2

theorem exchangeDataMsgNamespaces_isSome :
    ∀ (entries : List (List UInt8 × List UInt8 × UInt32)) (st : AsExchangeNodeState),
      (exchangeDataMsgNamespaces cfg entries st).isSome
  | [], _ => rfl
  | (name, pv, rackId) :: rest, st => by
    have hsome := exchangeNamespacePayloadIsValid_isSome pv
    simp only [exchangeDataMsgNamespaces]
    split
    · exact exchangeDataMsgNamespaces_isSome rest st
    · split
      · simp_all
      · rfl
      · exact exchangeDataMsgNamespaces_isSome rest _

theorem length_exchangeDataMsgEntries_le {m : ExchangeMsg} (h : exchangeDataMsgGetNumNamespaces m ≠ 0) :
    (exchangeDataMsgEntries m).length ≤ asNamespaceSz := by
  unfold exchangeDataMsgGetNumNamespaces at h
  unfold exchangeDataMsgEntries
  split at h
  · exact absurd rfl h
  · rename_i names hnames
    split_ifs at h with hlen
    · exact absurd rfl h
    · rw [hnames, Option.getD_some, List.length_zip]
      exact le_trans (min_le_left _ _) (not_lt.mp hlen)

end Namespaces

/-! ### The paths of the handlers -/

/-- The paths of `exchange_event_handle`, each with the record it leaves and the
messages it sends. -/
inductive Handles (cfg : ExchangeConfig) (g : AsExchange) :
    AsExchangeEvent → AsExchange → List (UInt64 × ExchangeMsg) → Prop
  /-- The event changes nothing and sends nothing. -/
  | ignore (e : AsExchangeEvent) : Handles cfg g e g []
  /-- A cluster change starts a round and sends the data to its nodes. -/
  | clusterChanged (clusterKey : UInt64) (successionList : List UInt64)
      (versions : ℕ → ℕ → AsPartitionVersion) (g' : AsExchange)
      (hg' : g' = { exchangeResetForNewRound g successionList clusterKey with
        state := .exchanging, selfDataDynBuf := preparedPayloads cfg versions }) :
      Handles cfg g (.clusterChanged clusterKey successionList versions) g'
        (exchangeDataMsgSendPendingAck cfg g')
  /-- An orphaning ends the round. -/
  | orphaned : Handles cfg g .orphaned (exchangeOrphanedHandle g) []
  /-- An orphan for too long blocks transactions. -/
  | orphanCommit (hstate : g.state = .orphaned) :
      Handles cfg g (.timer true) (exchangeOrphanCommit g) []
  /-- The data again to the nodes that have not acked it. -/
  | resendData (hstate : g.state = .exchanging) :
      Handles cfg g (.timer true) g (exchangeDataMsgSendPendingAck cfg g)
  /-- Ready to commit again to the principal. -/
  | resendReadyToCommit (hstate : g.state = .readyToCommit) :
      Handles cfg g (.timer true) g [(g.principal, exchangeMsgGet g .readyToCommit)]
  /-- The principal at rest sends the commit again to a node asking for it. -/
  | resendCommit (source : UInt64) (m : ExchangeMsg) (hstate : g.state = .rest)
      (hsane : exchangeMsgIsSane g source m = true) (hprincipal : exchangeSelfIsPrincipal cfg g = true)
      (htype : exchangeMsgTypeGet m = some .readyToCommit) :
      Handles cfg g (.msg source m) g [(source, exchangeMsgGet g .commit)]
  /-- Data in ready to commit is acked again. -/
  | ackData (source : UInt64) (m : ExchangeMsg) (hstate : g.state = .readyToCommit)
      (hsane : exchangeMsgIsSane g source m = true) (htype : exchangeMsgTypeGet m = some .data) :
      Handles cfg g (.msg source m) g [(source, exchangeMsgGet g .dataAck)]
  /-- Data with a payload the check rejects: the slots written before it stay. -/
  | dataPartial (source : UInt64) (m : ExchangeMsg) (st r : AsExchangeNodeState)
      (hstate : g.state = .exchanging) (hsane : exchangeMsgIsSane g source m = true)
      (htype : exchangeMsgTypeGet m = some .data) (hst : g.nodeidToNodeState source = some st)
      (hreceived : st.received = false) (hnum : exchangeDataMsgGetNumNamespaces m ≠ 0)
      (hns : exchangeDataMsgNamespaces cfg (exchangeDataMsgEntries m)
        { st with numNamespaces := 0 } = some (r, false)) :
      Handles cfg g (.msg source m) (exchangeNodeStateUpdate g source r) []
  /-- The first data from a node, stored and acked. -/
  | dataStored (source : UInt64) (m : ExchangeMsg) (st r : AsExchangeNodeState) (g' : AsExchange)
      (out : List (UInt64 × ExchangeMsg))
      (hstate : g.state = .exchanging) (hsane : exchangeMsgIsSane g source m = true)
      (htype : exchangeMsgTypeGet m = some .data) (hst : g.nodeidToNodeState source = some st)
      (hreceived : st.received = false) (hnum : exchangeDataMsgGetNumNamespaces m ≠ 0)
      (hns : exchangeDataMsgNamespaces cfg (exchangeDataMsgEntries m)
        { st with numNamespaces := 0 } = some (r, true))
      (hswitch : exchangeExchangingCheckSwitchReadyToCommit
        (exchangeNodeStateUpdate g source { r with received := true }) = (g', out)) :
      Handles cfg g (.msg source m) g' ((source, exchangeMsgGet g .dataAck) :: out)
  /-- Data from a node already received, acked again. -/
  | dataAgain (source : UInt64) (m : ExchangeMsg) (st : AsExchangeNodeState) (g' : AsExchange)
      (out : List (UInt64 × ExchangeMsg))
      (hstate : g.state = .exchanging) (hsane : exchangeMsgIsSane g source m = true)
      (htype : exchangeMsgTypeGet m = some .data) (hst : g.nodeidToNodeState source = some st)
      (hreceived : st.received = true)
      (hswitch : exchangeExchangingCheckSwitchReadyToCommit g = (g', out)) :
      Handles cfg g (.msg source m) g' ((source, exchangeMsgGet g .dataAck) :: out)
  /-- A node has the data. -/
  | dataAck (source : UInt64) (m : ExchangeMsg) (st : AsExchangeNodeState) (g' : AsExchange)
      (out : List (UInt64 × ExchangeMsg))
      (hstate : g.state = .exchanging) (hsane : exchangeMsgIsSane g source m = true)
      (htype : exchangeMsgTypeGet m = some .dataAck) (hst : g.nodeidToNodeState source = some st)
      (hswitch : exchangeExchangingCheckSwitchReadyToCommit
        (exchangeNodeStateUpdate g source { st with sendAcked := true }) = (g', out)) :
      Handles cfg g (.msg source m) g' out
  /-- The principal marks a node ready, and once every node is, sends the commit. -/
  | markReady (source : UInt64) (m : ExchangeMsg) (st : AsExchangeNodeState)
      (hstate : g.state = .readyToCommit) (hsane : exchangeMsgIsSane g source m = true)
      (htype : exchangeMsgTypeGet m = some .readyToCommit)
      (hprincipal : exchangeSelfIsPrincipal cfg g = true) (hst : g.nodeidToNodeState source = some st) :
      Handles cfg g (.msg source m)
        (exchangeNodeStateUpdate g source { st with isReadyToCommit := true })
        (if (exchangeNodesFindNotReadyToCommit
            (exchangeNodeStateUpdate g source { st with isReadyToCommit := true })).isEmpty then
          g.successionList.map fun n => (n, exchangeMsgGet g .commit)
        else [])
  /-- The principal's commit: the data committed, and the node rests. -/
  | commit (source : UInt64) (m : ExchangeMsg) (g' : AsExchange) (hstate : g.state = .readyToCommit)
      (hsane : exchangeMsgIsSane g source m = true) (htype : exchangeMsgTypeGet m = some .commit)
      (hsource : source = g.principal) (hcommit : exchangeDataCommit g = some g') :
      Handles cfg g (.msg source m) { g' with state := .rest } []

section Inversion

variable {cfg : ExchangeConfig} {g g' : AsExchange} {out : List (UInt64 × ExchangeMsg)}
  {source : UInt64} {m : ExchangeMsg}

theorem exchangeDataNamespacePayloadAdd_isSome (partitions : ℕ → AsPartitionVersion) :
    (exchangeDataNamespacePayloadAdd partitions []).isSome := by
  obtain ⟨E, hadd, -⟩ := exchangeDataNamespacePayloadAdd_eq partitions []
  rw [hadd]
  rfl

theorem exchangeDataPayloadsPrepare_eq (versions : ℕ → ℕ → AsPartitionVersion) :
    exchangeDataPayloadsPrepare cfg g versions =
      some { g with selfDataDynBuf := preparedPayloads cfg versions } := by
  have hadd : ∀ nsIx, exchangeDataNamespacePayloadAdd (versions nsIx) [] =
      pure ((exchangeDataNamespacePayloadAdd (versions nsIx) []).getD []) := fun nsIx =>
    (Option.getD_of_ne_none (Option.isSome_iff_ne_none.mp
      (exchangeDataNamespacePayloadAdd_isSome _)) []).symm
  rw [exchangeDataPayloadsPrepare, funext hadd, List.mapM_pure]
  rfl

theorem exchangeClusteringEventHandle_handles {e : AsExchangeEvent}
    (h : exchangeClusteringEventHandle cfg g e = some (g', out)) : Handles cfg g e g' out := by
  cases e with
  | clusterChanged clusterKey successionList versions =>
    simp only [exchangeClusteringEventHandle, exchangeClusterChangeHandle,
      exchangeDataPayloadsPrepare_eq, Option.bind_eq_bind, Option.bind_some] at h
    cases h
    exact .clusterChanged _ _ _ _ rfl
  | orphaned =>
    cases h
    exact .orphaned
  | timer _ =>
    cases h
    exact .ignore _
  | msg _ _ =>
    cases h
    exact .ignore _

theorem exchangeExchangingDataMsgHandle_handles (hstate : g.state = .exchanging)
    (hsane : exchangeMsgIsSane g source m = true) (htype : exchangeMsgTypeGet m = some .data)
    (h : exchangeExchangingDataMsgHandle cfg g source m = some (g', out)) :
    Handles cfg g (.msg source m) g' out := by
  unfold exchangeExchangingDataMsgHandle at h
  obtain ⟨st, hst, h⟩ := Option.bind_eq_some_iff.mp h
  cases hreceived : st.received with
  | true =>
    simp only [hreceived, Bool.not_true, Bool.false_eq_true, if_false] at h
    cases h
    exact .dataAgain source m st _ _ hstate hsane htype hst hreceived rfl
  | false =>
    rw [if_pos (by simp [hreceived])] at h
    dsimp only at h
    split_ifs at h with hnum
    · cases h
      exact .ignore _
    obtain ⟨⟨r, complete⟩, hns, h⟩ := Option.bind_eq_some_iff.mp h
    cases complete with
    | false =>
      cases h
      exact .dataPartial source m st r hstate hsane htype hst hreceived hnum hns
    | true =>
      cases h
      exact .dataStored source m st r _ _ hstate hsane htype hst hreceived hnum hns rfl

theorem exchangeExchangingMsgEventHandle_handles (hstate : g.state = .exchanging)
    (h : exchangeExchangingMsgEventHandle cfg g source m = some (g', out)) :
    Handles cfg g (.msg source m) g' out := by
  unfold exchangeExchangingMsgEventHandle at h
  split_ifs at h with hsane
  · cases h
    exact .ignore _
  simp only [Bool.not_eq_true', Bool.not_eq_false] at hsane
  split at h
  · exact exchangeExchangingDataMsgHandle_handles hstate hsane ‹_› h
  · rename_i htype
    obtain ⟨st, hst, h⟩ := Option.bind_eq_some_iff.mp h
    rw [exchangeNodeStateUpdate_ite_flag AsExchangeNodeState.sendAcked (fun st => { st with sendAcked := true })
      (fun st h => by rw [← h]) hst] at h
    exact .dataAck source m st _ _ hstate hsane htype hst (Option.some.inj h)
  · cases h
    exact .ignore _

theorem exchangeReadyToCommitMsgEventHandle_handles (hstate : g.state = .readyToCommit)
    (h : exchangeReadyToCommitMsgEventHandle cfg g source m = some (g', out)) :
    Handles cfg g (.msg source m) g' out := by
  unfold exchangeReadyToCommitMsgEventHandle at h
  split_ifs at h with hsane
  · cases h
    exact .ignore _
  simp only [Bool.not_eq_true', Bool.not_eq_false] at hsane
  split at h
  · rename_i htype
    unfold exchangeReadyToCommitRtcMsgHandle at h
    split_ifs at h with hprincipal
    · cases h
      exact .ignore _
    simp only [Bool.not_eq_true', Bool.not_eq_false] at hprincipal
    obtain ⟨st, hst, h⟩ := Option.bind_eq_some_iff.mp h
    rw [exchangeNodeStateUpdate_ite_flag AsExchangeNodeState.isReadyToCommit
      (fun st => { st with isReadyToCommit := true }) (fun st h => by rw [← h]) hst] at h
    dsimp only at h
    have hmr := Handles.markReady source m st hstate hsane htype hprincipal hst
    split_ifs at h with hall <;> cases h
    · rw [if_pos hall] at hmr
      exact hmr
    · rw [if_neg hall] at hmr
      exact hmr
  · rename_i htype
    unfold exchangeReadyToCommitCommitMsgHandle at h
    split_ifs at h with hsource
    · cases h
      exact .ignore _
    obtain ⟨g'', hcommit, h⟩ := Option.bind_eq_some_iff.mp h
    cases h
    exact .commit source m g'' hstate hsane htype (not_not.mp hsource) hcommit
  · cases h
    exact .ackData source m hstate hsane ‹_›
  · cases h
    exact .ignore _

theorem exchangeEventHandle_handles {e : AsExchangeEvent}
    (h : exchangeEventHandle cfg g e = some (g', out)) : Handles cfg g e g' out := by
  unfold exchangeEventHandle at h
  split at h
  · rename_i source m hstate
    unfold exchangeRestMsgEventHandle at h
    split_ifs at h with hsane hresend <;> cases h
    · exact .ignore _
    · simp only [Bool.not_eq_true', Bool.not_eq_false] at hsane
      exact .resendCommit source m hstate hsane hresend.1 hresend.2
    · exact .ignore _
  · cases h
    exact .ignore _
  · exact exchangeExchangingMsgEventHandle_handles ‹_› h
  · rename_i timeout hstate
    unfold exchangeExchangingTimerEventHandle at h
    cases timeout <;> cases h
    · exact .ignore _
    · exact .resendData hstate
  · exact exchangeReadyToCommitMsgEventHandle_handles ‹_› h
  · rename_i timeout hstate
    unfold exchangeReadyToCommitTimerEventHandle at h
    cases timeout <;> cases h
    · exact .ignore _
    · exact .resendReadyToCommit hstate
  · cases h
    exact .ignore _
  · rename_i timeout hstate
    unfold exchangeOrphanTimerEventHandle at h
    split_ifs at h with hblock <;> cases h
    · rw [hblock.2]
      exact .orphanCommit hstate
    · exact .ignore _
  · exact exchangeClusteringEventHandle_handles h

end Inversion

/-! ### The node's invariant -/

section Invariant

variable {cfg : ExchangeConfig} {g g' : AsExchange}

theorem exchangeDataCommit_eq_some (h : exchangeDataCommit g = some g') :
    ∃ nss, g' = { g with
      namespaces := nss, committedClusterKey := g.clusterKey, committedClusterSize := g.clusterSize,
      committedPrincipal := g.principal, committedSuccessionList := g.successionList } := by
  obtain ⟨nss, -, h⟩ := Option.bind_eq_some_iff.mp h
  exact ⟨nss, (Option.some.inj h).symm⟩

theorem ExchangeInv.of_round (hi : ExchangeInv g)
    (hnodes : g'.nodeidToNodeState = g.nodeidToNodeState) (hsucc : g'.successionList = g.successionList)
    (hp : g'.principal = g.principal) (hcs : g'.clusterSize = g.clusterSize)
    (hkey : g'.clusterKey = g.clusterKey) (hstate : g'.state = .readyToCommit → g.state = .readyToCommit) :
    ExchangeInv g' where
  dom n := by rw [hnodes, hsucc, hi.dom]
  principal := by rw [hp, hsucc, hi.principal]
  clusterSize := by rw [hcs, hsucc, hi.clusterSize]
  numNamespaces_le n st h := hi.numNamespaces_le n st (hnodes ▸ h)
  slotsWf n st h := hi.slotsWf n st (hnodes ▸ h)
  ready h := by
    rw [hkey, hnodes]
    exact hi.ready (hstate h)

theorem ExchangeInv.checkSwitch (hi : ExchangeInv g) :
    ExchangeInv (exchangeExchangingCheckSwitchReadyToCommit g).1 := by
  rcases exchangeExchangingCheckSwitchReadyToCommit_cases g with h | ⟨-, hkey, hacked, hreceived, h⟩
  · rw [h]
    exact hi
  rw [h]
  have hflags : ∀ n st, g.nodeidToNodeState n = some st → st.sendAcked ∧ st.received := by
    intro n st hst
    have hn : n ∈ g.successionList := (hi.dom n).mp (by simp [hst])
    exact ⟨exchangeNodesFind_eq_nil.mp hacked n hn st hst,
      exchangeNodesFind_eq_nil.mp hreceived n hn st hst⟩
  exact ⟨hi.dom, hi.principal, hi.clusterSize, hi.numNamespaces_le, hi.slotsWf,
    fun _ => ⟨hkey, hflags⟩⟩

theorem localNamespace_of_mem_namespaceEntries {entries : List (List UInt8 × List UInt8 × UInt32)}
    {d : AsExchangeNodeNamespaceData} (hd : d ∈ namespaceEntries cfg entries) :
    d.localNamespace.isSome := by
  obtain ⟨e, -, he⟩ := List.mem_filterMap.mp hd
  obtain ⟨nsIx, -, rfl⟩ := Option.map_eq_some_iff.mp he
  rfl

section Updates

variable {source : UInt64} {m : ExchangeMsg} {st r : AsExchangeNodeState}

theorem ExchangeInv.dataPartial (hi : ExchangeInv g) (hstate : g.state = .exchanging)
    (hst : g.nodeidToNodeState source = some st) (hreceived : st.received = false)
    (hnum : exchangeDataMsgGetNumNamespaces m ≠ 0)
    (hns : exchangeDataMsgNamespaces cfg (exchangeDataMsgEntries m)
      { st with numNamespaces := 0 } = some (r, false)) :
    ExchangeInv (exchangeNodeStateUpdate g source r) := by
  obtain ⟨hle, k, data, rfl⟩ := exchangeDataMsgNamespaces_le cfg hns
  refine hi.update hst ?_ (fun hr => ?_) (fun hr => ?_)
  · exact le_trans hle (by simpa using length_exchangeDataMsgEntries_le hnum)
  · simp_all
  · simp_all

theorem ExchangeInv.dataStored (hi : ExchangeInv g) (hstate : g.state = .exchanging)
    (hst : g.nodeidToNodeState source = some st) (hnum : exchangeDataMsgGetNumNamespaces m ≠ 0)
    (hns : exchangeDataMsgNamespaces cfg (exchangeDataMsgEntries m)
      { st with numNamespaces := 0 } = some (r, true)) :
    ExchangeInv (exchangeNodeStateUpdate g source { r with received := true }) := by
  have hle := (exchangeDataMsgNamespaces_le cfg hns).1
  obtain ⟨hslots, hvalid⟩ := exchangeDataMsgNamespaces_true cfg hns
  refine hi.update hst ?_ (fun _ d hd => ?_) (fun hr => by simp_all)
  · exact le_trans hle (by simpa using length_exchangeDataMsgEntries_le hnum)
  · have hd' : d ∈ r.slots := hd
    rw [hslots] at hd'
    replace hd' : d ∈ namespaceEntries cfg (exchangeDataMsgEntries m) := by
      simpa [AsExchangeNodeState.slots] using hd'
    exact ⟨localNamespace_of_mem_namespaceEntries hd', hvalid d hd'⟩

theorem ExchangeInv.dataAck (hi : ExchangeInv g) (hstate : g.state = .exchanging)
    (hst : g.nodeidToNodeState source = some st) :
    ExchangeInv (exchangeNodeStateUpdate g source { st with sendAcked := true }) :=
  hi.update hst (hi.numNamespaces_le source st hst) (hi.slotsWf source st hst) (fun hr => by simp_all)

theorem ExchangeInv.markReady (hi : ExchangeInv g) (hst : g.nodeidToNodeState source = some st) :
    ExchangeInv (exchangeNodeStateUpdate g source { st with isReadyToCommit := true }) :=
  hi.update hst (hi.numNamespaces_le source st hst) (hi.slotsWf source st hst)
    fun hr => (hi.ready hr).2 source st hst

end Updates

theorem Handles.inv {e : AsExchangeEvent} {out : List (UInt64 × ExchangeMsg)}
    (hi : ExchangeInv g) (h : Handles cfg g e g' out) : ExchangeInv g' := by
  cases h with
  | ignore => exact hi
  | clusterChanged clusterKey successionList versions g' hg' =>
    subst hg'
    exact .resetForNewRound successionList clusterKey rfl (by simp [exchangeResetForNewRound_eq])
      (by simp [exchangeResetForNewRound_eq]) (by simp [exchangeResetForNewRound_eq]) (by simp)
  | orphaned =>
    exact .resetForNewRound (g := { g with state := .orphaned }) [] 0 rfl
      (by simp [exchangeOrphanedHandle, exchangeResetForNewRound_eq])
      (by simp [exchangeOrphanedHandle, exchangeResetForNewRound_eq])
      (by simp [exchangeOrphanedHandle, exchangeResetForNewRound_eq])
      (by simp [exchangeOrphanedHandle, exchangeResetForNewRound_eq])
  | orphanCommit hstate => exact hi.of_round rfl rfl rfl rfl rfl id
  | resendData => exact hi
  | resendReadyToCommit => exact hi
  | resendCommit => exact hi
  | ackData => exact hi
  | dataPartial source m st r hstate _ _ hst hreceived hnum hns =>
    exact hi.dataPartial hstate hst hreceived hnum hns
  | dataStored source m st r g' out hstate _ _ hst _ hnum hns hswitch =>
    have := (hi.dataStored hstate hst hnum hns).checkSwitch
    rwa [hswitch] at this
  | dataAgain source m st g' out _ _ _ _ _ hswitch =>
    have := hi.checkSwitch
    rwa [hswitch] at this
  | dataAck source m st g' out hstate _ _ hst hswitch =>
    have := (hi.dataAck hstate hst).checkSwitch
    rwa [hswitch] at this
  | markReady source m st hstate _ _ _ hst => exact hi.markReady hst
  | commit source m g'' hstate _ _ _ hcommit =>
    obtain ⟨nss, rfl⟩ := exchangeDataCommit_eq_some hcommit
    exact hi.of_round rfl rfl rfl rfl rfl (fun h => by cases h)

theorem exchangeInv_init : ExchangeInv AsExchange.init :=
  .of_fresh (fun _ => by simp [AsExchange.init]) rfl rfl (fun _ _ h => by cases h) (by decide)

theorem exchangeEventHandle_inv {e : AsExchangeEvent} {out : List (UInt64 × ExchangeMsg)}
    (hi : ExchangeInv g) (h : exchangeEventHandle cfg g e = some (g', out)) : ExchangeInv g' :=
  (exchangeEventHandle_handles h).inv hi

/-- Whatever events come, messages from any node with any content included,
every record the exchange reaches from one that keeps the invariant keeps it. -/
theorem exchangeInv_of_events : ∀ (es : List AsExchangeEvent) {g g' : AsExchange}, ExchangeInv g →
    es.foldlM (fun g e => (exchangeEventHandle cfg g e).map Prod.fst) g = some g' → ExchangeInv g'
  | [], _, _, hi, h => by
    cases h
    exact hi
  | e :: es, _, _, hi, h => by
    rw [List.foldlM_cons, Option.bind_eq_bind] at h
    obtain ⟨g₁, h₁, h₂⟩ := Option.bind_eq_some_iff.mp h
    obtain ⟨⟨_, out⟩, hstep, rfl⟩ := Option.map_eq_some_iff.mp h₁
    exact exchangeInv_of_events es (exchangeEventHandle_inv hi hstep) h₂

/-- The events of node `1` alone in its cluster through one round: the cluster
change, its own data, the ack, its ready to commit and the commit. -/
def oneNodeRoundEvents : List AsExchangeEvent :=
  [.clusterChanged 1 [1] fun _ _ => ⟨0⟩,
    .msg 1 ⟨some 1, some 0, some 1, some [[97]], some [[0, 0, 0, 0]], some [0]⟩,
    .msg 1 ⟨some 1, some 1, some 1, none, none, none⟩,
    .msg 1 ⟨some 1, some 3, some 1, none, none, none⟩,
    .msg 1 ⟨some 1, some 4, some 1, none, none, none⟩]

theorem exchangeInv_of_events_one_node_round :
    (oneNodeRoundEvents.foldlM (fun g e => (exchangeEventHandle ⟨1, [[97]], [0]⟩ g e).map Prod.fst)
        AsExchange.init).map AsExchange.committedClusterKey = some 1 ∧
      ∀ g', oneNodeRoundEvents.foldlM (fun g e => (exchangeEventHandle ⟨1, [[97]], [0]⟩ g e).map Prod.fst)
        AsExchange.init = some g' → ExchangeInv g' :=
  ⟨by decide +kernel, fun _ h => @exchangeInv_of_events ⟨1, [[97]], [0]⟩ oneNodeRoundEvents _ _ exchangeInv_init h⟩

end Invariant

/-! ### The commit, one namespace at a time -/

/-- What committing a slot does to one namespace: the slot's local namespace
takes the node's payload, the others are left. -/
def slotCommitAt (node : UInt64) (d : AsExchangeNodeNamespaceData) (nsIx : ℕ) :
    NsClusterData → Option NsClusterData :=
  match d.localNamespace with
  | some ix =>
    if nsIx = ix then fun ns => exchangeNamespacePayloadCommitForNode ns node d.partitionVersions d.rackId
    else some
  | none => fun _ => none

def namespaceSlot (slots : List AsExchangeNodeNamespaceData) (nsIx : ℕ) :
    Option (List UInt8 × UInt32) :=
  (slots.find? fun d => d.localNamespace = some nsIx).map fun d => (d.partitionVersions, d.rackId)

structure SlotsDistinct (slots : List AsExchangeNodeNamespaceData) : Prop where
  nodup : (slots.map (·.localNamespace)).Nodup
  isSome : ∀ d ∈ slots, d.localNamespace.isSome

instance (slots : List AsExchangeNodeNamespaceData) : Decidable (SlotsDistinct slots) :=
  decidable_of_iff ((slots.map (·.localNamespace)).Nodup ∧ ∀ d ∈ slots, d.localNamespace.isSome)
    ⟨fun h => ⟨h.1, h.2⟩, fun h => ⟨h.1, h.2⟩⟩

def commitNodeSlots (nodes : List (UInt64 × List AsExchangeNodeNamespaceData)) :
    Option (ℕ → NsClusterData) :=
  nodes.foldlM (fun nss p => p.2.foldlM (exchangeSlotCommit p.1) nss) fun _ => NsClusterData.cleared

def nodeSlots (g : AsExchange) : List (UInt64 × List AsExchangeNodeNamespaceData) :=
  g.successionList.map fun node => (node, ((g.nodeidToNodeState node).map (·.slots)).getD [])

section Refinement

variable {g : AsExchange} (node : UInt64)

theorem exchangeSlotCommit_pointwise (d : AsExchangeNodeNamespaceData) :
    Pointwise (fun nss => exchangeSlotCommit node nss d) (slotCommitAt node d) := by
  cases hl : d.localNamespace with
  | some ix =>
    have hat : slotCommitAt node d = fun nsIx => if nsIx = ix then
        fun ns => exchangeNamespacePayloadCommitForNode ns node d.partitionVersions d.rackId else some := by
      funext nsIx
      simp only [slotCommitAt, hl]
    simp only [exchangeSlotCommit, hl, hat]
    exact Pointwise.update ix fun ns =>
      exchangeNamespacePayloadCommitForNode ns node d.partitionVersions d.rackId
  | none =>
    have hat : slotCommitAt node d = fun _ _ => none := by
      funext nsIx
      simp only [slotCommitAt, hl]
    simp only [exchangeSlotCommit, hl, hat]
    exact Pointwise.fail

theorem foldlM_slotCommitAt {slots : List AsExchangeNodeNamespaceData} (hd : SlotsDistinct slots)
    (nsIx : ℕ) (ns : NsClusterData) :
    slots.foldlM (fun ns d => slotCommitAt node d nsIx ns) ns =
      match namespaceSlot slots nsIx with
      | some (payload, rackId) => exchangeNamespacePayloadCommitForNode ns node payload rackId
      | none => some ns := by
  have hstep : ∀ d ∈ slots, ∀ ns, slotCommitAt node d nsIx ns =
      if some nsIx = d.localNamespace then
        exchangeNamespacePayloadCommitForNode ns node d.partitionVersions d.rackId
      else some ns := by
    intro d hdm ns
    obtain ⟨ix, hix⟩ := Option.isSome_iff_exists.mp (hd.isSome d hdm)
    simp only [slotCommitAt, hix, Option.some.injEq]
    split_ifs <;> rfl
  rw [Pointwise.foldlM_congr ns hstep]
  have := Pointwise.foldlM_ite_eq (some nsIx) (l := slots.map fun d =>
    (d.localNamespace, fun ns => exchangeNamespacePayloadCommitForNode ns node d.partitionVersions d.rackId))
    (by simpa [Function.comp_def] using hd.nodup) ns
  rw [List.foldlM_map] at this
  rw [this, namespaceSlot, KeyList.lookup_map_pair]
  cases slots.find? (fun d => d.localNamespace = some nsIx) <;> rfl

theorem commitNodeSlots_eq_some_iff {nodes : List (UInt64 × List AsExchangeNodeNamespaceData)}
    (hd : ∀ p ∈ nodes, SlotsDistinct p.2) (nss : ℕ → NsClusterData) :
    commitNodeSlots nodes = some nss ↔
      ∀ nsIx, exchangeDataCommitNamespace (nodes.map fun p => (p.1, namespaceSlot p.2 nsIx)) =
        some (nss nsIx) := by
  have hnode : ∀ p : UInt64 × List AsExchangeNodeNamespaceData,
      Pointwise (fun nss => p.2.foldlM (exchangeSlotCommit p.1) nss) fun nsIx ns =>
        p.2.foldlM (fun ns d => slotCommitAt p.1 d nsIx ns) ns :=
    fun p => Pointwise.foldlM (exchangeSlotCommit_pointwise p.1) p.2
  rw [commitNodeSlots, Pointwise.foldlM hnode nodes]
  refine forall_congr' fun nsIx => ?_
  rw [exchangeDataCommitNamespace, List.foldlM_map]
  exact Eq.congr_left (Pointwise.foldlM_congr _ fun p hp ns =>
    (foldlM_slotCommitAt p.1 (hd p hp) nsIx ns).trans rfl)

theorem exchangeDataCommitForNode_eq {st : AsExchangeNodeState} (hst : g.nodeidToNodeState node = some st)
    (nss : ℕ → NsClusterData) :
    exchangeDataCommitForNode g node nss = st.slots.foldlM (exchangeSlotCommit node) nss := by
  rw [exchangeDataCommitForNode, hst, Option.bind_eq_bind, Option.bind_some, AsExchangeNodeState.slots,
    List.foldlM_map]

theorem exchangeDataCommit_eq
    (hdom : ∀ node ∈ g.successionList, (g.nodeidToNodeState node).isSome) :
    exchangeDataCommit g = (commitNodeSlots (nodeSlots g)).map fun nss => { g with
      namespaces := nss, committedClusterKey := g.clusterKey, committedClusterSize := g.clusterSize,
      committedPrincipal := g.principal, committedSuccessionList := g.successionList } := by
  have hloop : g.successionList.foldlM (fun nss node => exchangeDataCommitForNode g node nss)
      (fun _ => NsClusterData.cleared) = commitNodeSlots (nodeSlots g) := by
    rw [commitNodeSlots, nodeSlots, List.foldlM_map]
    refine Pointwise.foldlM_congr _ fun node hn nss => ?_
    obtain ⟨st, hst⟩ := Option.isSome_iff_exists.mp (hdom node hn)
    rw [exchangeDataCommitForNode_eq node hst, hst]
    rfl
  rw [exchangeDataCommit, hloop]
  cases commitNodeSlots (nodeSlots g) <;> rfl

/-- `exchange_data_commit` commits namespace by namespace: over nodes that all
have a state, each with slots of distinct namespaces, the commit succeeds
exactly when, for each namespace, the commit of the nodes' slots for it in
succession order does, and it gives their results. -/
theorem exchangeDataCommit_eq_some_iff
    (hdom : ∀ node ∈ g.successionList, (g.nodeidToNodeState node).isSome)
    (hd : ∀ p ∈ nodeSlots g, SlotsDistinct p.2) (g' : AsExchange) :
    exchangeDataCommit g = some g' ↔ ∃ nss : ℕ → NsClusterData,
      (∀ nsIx, exchangeDataCommitNamespace ((nodeSlots g).map fun p => (p.1, namespaceSlot p.2 nsIx)) =
        some (nss nsIx)) ∧
      g' = { g with
        namespaces := nss, committedClusterKey := g.clusterKey, committedClusterSize := g.clusterSize,
        committedPrincipal := g.principal, committedSuccessionList := g.successionList } := by
  rw [exchangeDataCommit_eq hdom, Option.map_eq_some_iff]
  constructor
  · rintro ⟨nss, hnss, rfl⟩
    exact ⟨nss, (commitNodeSlots_eq_some_iff hd nss).mp hnss, rfl⟩
  · rintro ⟨nss, hnss, rfl⟩
    exact ⟨nss, (commitNodeSlots_eq_some_iff hd nss).mpr hnss, rfl⟩

def oneNodeReady : AsExchange :=
  ((oneNodeRoundEvents.take 3).foldlM (fun g e => (exchangeEventHandle ⟨1, [[97]], [0]⟩ g e).map Prod.fst)
    AsExchange.init).getD AsExchange.init

theorem exchangeDataCommit_eq_some_iff_one_node :
    oneNodeReady.state = .readyToCommit ∧
      (∀ node ∈ oneNodeReady.successionList, (oneNodeReady.nodeidToNodeState node).isSome) ∧
      (∀ p ∈ nodeSlots oneNodeReady, SlotsDistinct p.2) ∧
      ∃ g', exchangeDataCommit oneNodeReady = some g' ∧ ∃ nss : ℕ → NsClusterData,
        (∀ nsIx, exchangeDataCommitNamespace
          ((nodeSlots oneNodeReady).map fun p => (p.1, namespaceSlot p.2 nsIx)) = some (nss nsIx)) ∧
        g' = { oneNodeReady with
          namespaces := nss, committedClusterKey := oneNodeReady.clusterKey,
          committedClusterSize := oneNodeReady.clusterSize, committedPrincipal := oneNodeReady.principal,
          committedSuccessionList := oneNodeReady.successionList } := by
  have hsucc : oneNodeReady.successionList = [1] := by decide +kernel
  have hdom : ∀ node ∈ oneNodeReady.successionList, (oneNodeReady.nodeidToNodeState node).isSome := by
    rw [hsucc]
    intro node hnode
    rw [List.mem_singleton.mp hnode]
    decide +kernel
  have hslots : nodeSlots oneNodeReady = [(1, [⟨some 0, [0, 0, 0, 0], 0⟩])] := by decide +kernel
  have hd : ∀ p ∈ nodeSlots oneNodeReady, SlotsDistinct p.2 := by
    rw [hslots]
    decide
  have hsome : (exchangeDataCommit oneNodeReady).isSome := by decide +kernel
  exact ⟨by decide +kernel, hdom, hd, _, (Option.some_get hsome).symm,
    (exchangeDataCommit_eq_some_iff hdom hd _).mp (Option.some_get hsome).symm⟩

end Refinement

/-! ### No crash -/

section NoCrash

variable {cfg : ExchangeConfig} {g : AsExchange} {source : UInt64} {m : ExchangeMsg}

theorem mem_of_exchangeMsgIsSane (h : exchangeMsgIsSane g source m = true) :
    source ∈ g.successionList := by
  simp only [exchangeMsgIsSane, Bool.and_eq_true, decide_eq_true_eq] at h
  exact h.1.2

theorem nodeidToNodeState_of_sane (hi : ExchangeInv g) (h : exchangeMsgIsSane g source m = true) :
    ∃ st, g.nodeidToNodeState source = some st :=
  Option.isSome_iff_exists.mp ((hi.dom source).mpr (mem_of_exchangeMsgIsSane h))

theorem exchangeExchangingDataMsgHandle_isSome (hi : ExchangeInv g)
    (hsane : exchangeMsgIsSane g source m = true) :
    (exchangeExchangingDataMsgHandle cfg g source m).isSome := by
  obtain ⟨st, hst⟩ := nodeidToNodeState_of_sane hi hsane
  unfold exchangeExchangingDataMsgHandle
  rw [hst, Option.bind_eq_bind, Option.bind_some]
  dsimp only
  split_ifs
  · rfl
  · obtain ⟨r, hr⟩ := Option.isSome_iff_exists.mp
      (exchangeDataMsgNamespaces_isSome cfg (exchangeDataMsgEntries m) { st with numNamespaces := 0 })
    rw [hr, Option.bind_eq_bind, Option.bind_some]
    split_ifs <;> rfl
  · rfl

theorem exchangeClusteringEventHandle_isSome (e : AsExchangeEvent) :
    (exchangeClusteringEventHandle cfg g e).isSome := by
  cases e with
  | clusterChanged clusterKey successionList versions =>
    simp [exchangeClusteringEventHandle, exchangeClusterChangeHandle, exchangeDataPayloadsPrepare_eq]
  | _ => rfl

theorem exchangeExchangingMsgEventHandle_isSome (hi : ExchangeInv g) :
    (exchangeExchangingMsgEventHandle cfg g source m).isSome := by
  unfold exchangeExchangingMsgEventHandle
  split_ifs with hsane
  · rfl
  simp only [Bool.not_eq_true', Bool.not_eq_false] at hsane
  split
  · exact exchangeExchangingDataMsgHandle_isSome hi hsane
  · obtain ⟨st, hst⟩ := nodeidToNodeState_of_sane hi hsane
    rw [exchangeExchangingDataAckMsgHandle, hst, Option.bind_eq_bind, Option.bind_some]
    rfl
  · rfl

theorem exchangeReadyToCommitMsgEventHandle_isSome (hi : ExchangeInv g)
    (hcommit : (exchangeDataCommit g).isSome) :
    (exchangeReadyToCommitMsgEventHandle cfg g source m).isSome := by
  unfold exchangeReadyToCommitMsgEventHandle
  split_ifs with hsane
  · rfl
  simp only [Bool.not_eq_true', Bool.not_eq_false] at hsane
  split
  · unfold exchangeReadyToCommitRtcMsgHandle
    split_ifs
    · rfl
    obtain ⟨st, hst⟩ := nodeidToNodeState_of_sane hi hsane
    rw [hst, Option.bind_eq_bind, Option.bind_some]
    dsimp only
    split_ifs <;> rfl
  · unfold exchangeReadyToCommitCommitMsgHandle
    split_ifs
    · rfl
    obtain ⟨g', hg'⟩ := Option.isSome_iff_exists.mp hcommit
    rw [hg', Option.bind_eq_bind, Option.bind_some]
    rfl
  · rfl
  · rfl

/-- From a record that keeps the invariant, every event is handled without a
crash, but for a commit whose data commit fails: each message handled comes
from a node with a state, and every payload read is in bounds. -/
theorem exchangeEventHandle_isSome (hi : ExchangeInv g)
    (hcommit : g.state = .readyToCommit → (exchangeDataCommit g).isSome) (e : AsExchangeEvent) :
    (exchangeEventHandle cfg g e).isSome := by
  unfold exchangeEventHandle
  split
  · rfl
  · rfl
  · exact exchangeExchangingMsgEventHandle_isSome hi
  · rfl
  · exact exchangeReadyToCommitMsgEventHandle_isSome hi (hcommit ‹_›)
  · rfl
  · rfl
  · rfl
  · exact exchangeClusteringEventHandle_isSome _

end NoCrash

end Aerospike.Exchange
