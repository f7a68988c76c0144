import Aerospike.Fabric.ExchangePayload

/-! # The exchange state machine of a node

After each cluster change the nodes of the new succession list exchange their
partition versions (`exchange.c`). A node sends its data to every node of the
list until each acks it, acks the data it receives, and once both are complete
tells the principal (the list's first node) it is ready to commit. The
principal, once every node is ready, sends every node the commit, on which
each node commits what it received and rests.

`g_exchange` is a record, and each event handler a function from it to the
new record and the messages the node sends, or `none` where the code crashes
(`exchange_node_state_get_safe` on a node without state) or reads or writes
out of bounds. The node-state hash `nodeid_to_node_state` is the map it stands
for, and its reduces walk the succession list, which holds its keys. A
message's fields are `none` where it lacks them. The clocks of the timers are
left to the environment: a timer event says whether the state's timeout has
passed. The namespaces' exchanged fields, which the commit writes, are kept
with the record. The commit ends with `as_partition_balance`, which reads
those fields; that call is left out, and what is shown here of the commit
holds up to it.
-/

namespace Aerospike.Exchange

def asExchangeProtocolIdentifier : UInt32 := 1

def asNamespaceSz : ℕ := 32

/-- `AS_ID_NAMESPACE_SZ`: a namespace name's buffer, with its terminating zero. -/
def asIdNamespaceSz : ℕ := 32

inductive AsExchangeState where
  | rest
  | exchanging
  | readyToCommit
  | orphaned
  deriving DecidableEq, Repr

/-- `as_exchange_msg_type`, short of its sentinel. -/
inductive AsExchangeMsgType where
  | data
  | dataAck
  | dataNack
  | readyToCommit
  | commit
  deriving DecidableEq, Repr

def AsExchangeMsgType.toUInt32 : AsExchangeMsgType → UInt32
  | .data => 0
  | .dataAck => 1
  | .dataNack => 2
  | .readyToCommit => 3
  | .commit => 4

def asExchangeMsgTypeSentinel : UInt32 := 5

/-- The message type a type field holds; `none` from the sentinel on. -/
def AsExchangeMsgType.ofUInt32? (t : UInt32) : Option AsExchangeMsgType :=
  if t = 0 then some .data
  else if t = 1 then some .dataAck
  else if t = 2 then some .dataNack
  else if t = 3 then some .readyToCommit
  else if t = 4 then some .commit
  else none

/-- An exchange message: the fields of `exchange_msg_template`. -/
structure ExchangeMsg where
  id : Option UInt32
  type : Option UInt32
  clusterKey : Option UInt64
  namespaces : Option (List (List UInt8))
  nsPartitionVersions : Option (List (List UInt8))
  nsRackIds : Option (List UInt32)
  deriving DecidableEq, Repr

/-- `as_exchange_node_namespace_data`: the local namespace (an index into
`g_config.namespaces`, `none` for NULL), the payload and the rack id. -/
structure AsExchangeNodeNamespaceData where
  localNamespace : Option ℕ
  partitionVersions : List UInt8
  rackId : UInt32
  deriving DecidableEq, Repr

/-- `as_exchange_node_state`, with the `as_exchange_node_data` it points to. -/
structure AsExchangeNodeState where
  sendAcked : Bool
  received : Bool
  isReadyToCommit : Bool
  numNamespaces : ℕ
  namespaceData : ℕ → AsExchangeNodeNamespaceData

/-- `g_exchange`, with the exchanged fields of the node's namespaces that its
commit writes. -/
structure AsExchange where
  state : AsExchangeState
  clusterKey : UInt64
  clusterSize : ℕ
  successionList : List UInt64
  principal : UInt64
  committedClusterKey : UInt64
  committedClusterSize : ℕ
  committedSuccessionList : List UInt64
  committedPrincipal : UInt64
  orphanStateAreTransactionsBlocked : Bool
  nodeidToNodeState : UInt64 → Option AsExchangeNodeState
  selfDataDynBuf : List (List UInt8)
  namespaces : ℕ → NsClusterData

structure ExchangeConfig where
  selfNode : UInt64
  namespaceNames : List (List UInt8)
  rackIds : List UInt32

/-- The events a node's exchange handles: a clustering event (a cluster change
with the partition versions it freezes, or an orphaning), a timer tick, and a
message from a node. -/
inductive AsExchangeEvent where
  | clusterChanged (clusterKey : UInt64) (successionList : List UInt64)
      (versions : ℕ → ℕ → AsPartitionVersion)
  | orphaned
  | timer (timeout : Bool)
  | msg (source : UInt64) (m : ExchangeMsg)

/-- `g_exchange` at start: all zero. -/
def AsExchange.init : AsExchange :=
  ⟨.rest, 0, 0, [], 0, 0, 0, [], 0, false, fun _ => none, [], fun _ => NsClusterData.cleared⟩

/-- What a handler gives: the new record and the messages sent, each with its
destination. -/
abbrev ExchangeOut := AsExchange × List (UInt64 × ExchangeMsg)

section Handlers

variable (cfg : ExchangeConfig)

/-! ### Node states -/

/-- `exchange_node_state_init`: all zero, with zeroed data. -/
def AsExchangeNodeState.init : AsExchangeNodeState :=
  ⟨false, false, false, 0, fun _ => ⟨none, [], 0⟩⟩

/-- `exchange_node_state_reset`: the flags cleared and the data emptied; the
payload buffers stay for reuse. -/
def exchangeNodeStateReset (st : AsExchangeNodeState) : AsExchangeNodeState :=
  { st with
    sendAcked := false, received := false, isReadyToCommit := false, numNamespaces := 0,
    namespaceData := fun i =>
      if i < asNamespaceSz then { st.namespaceData i with localNamespace := none }
      else st.namespaceData i }

/-- `exchange_node_states_reset`: the states of nodes off the succession list
deleted, the others reset, then a new state for each node of the list
without one. -/
def exchangeNodeStatesReset (g : AsExchange) : AsExchange :=
  let kept : UInt64 → Option AsExchangeNodeState := fun n =>
    if n ∈ g.successionList then (g.nodeidToNodeState n).map exchangeNodeStateReset else none
  { g with nodeidToNodeState := fun n =>
      if n ∈ g.successionList then some ((kept n).getD AsExchangeNodeState.init) else kept n }

def exchangeNodeStateUpdate (g : AsExchange) (node : UInt64) (st : AsExchangeNodeState) :
    AsExchange :=
  { g with nodeidToNodeState := Function.update g.nodeidToNodeState node (some st) }

/-- The reduce of the `exchange_nodes_find_*` functions: the nodes whose state
lacks a flag. The hash holds a state for each node of the succession list, in
the hash's own order. -/
def exchangeNodesFind (g : AsExchange) (flag : AsExchangeNodeState → Bool) : List UInt64 :=
  g.successionList.filter fun n => (g.nodeidToNodeState n).any fun st => !flag st

def exchangeNodesFindSendUnacked (g : AsExchange) : List UInt64 :=
  exchangeNodesFind g AsExchangeNodeState.sendAcked

def exchangeNodesFindNotReceived (g : AsExchange) : List UInt64 :=
  exchangeNodesFind g AsExchangeNodeState.received

def exchangeNodesFindNotReadyToCommit (g : AsExchange) : List UInt64 :=
  exchangeNodesFind g AsExchangeNodeState.isReadyToCommit

/-! ### Messages -/

/-- `exchange_msg_get`: the protocol identifier, the type and the current
cluster key. -/
def exchangeMsgGet (g : AsExchange) (type : AsExchangeMsgType) : ExchangeMsg :=
  ⟨some asExchangeProtocolIdentifier, some type.toUInt32, some g.clusterKey, none, none, none⟩

/-- `exchange_msg_data_payload_set`: each namespace's name, payload and rack id. -/
def exchangeMsgDataPayloadSet (g : AsExchange) (m : ExchangeMsg) : ExchangeMsg :=
  { m with
    namespaces := some cfg.namespaceNames
    nsPartitionVersions := some g.selfDataDynBuf
    nsRackIds := some cfg.rackIds }

/-- `exchange_msg_is_sane`: the protocol identifier, a type short of the
sentinel, a source in the succession list and the current, non-zero cluster
key. -/
def exchangeMsgIsSane (g : AsExchange) (source : UInt64) (m : ExchangeMsg) : Bool :=
  m.id == some asExchangeProtocolIdentifier &&
    (m.type.map fun t => decide (t < asExchangeMsgTypeSentinel)).getD false &&
    decide (source ∈ g.successionList) &&
    (m.clusterKey.map fun k => g.clusterKey == k && g.clusterKey != 0).getD false

def exchangeMsgTypeGet (m : ExchangeMsg) : Option AsExchangeMsgType :=
  m.type.bind AsExchangeMsgType.ofUInt32?

/-- `exchange_data_msg_send_pending_ack`: the data to each node that has not
acked it. -/
def exchangeDataMsgSendPendingAck (g : AsExchange) : List (UInt64 × ExchangeMsg) :=
  (exchangeNodesFindSendUnacked g).map fun n =>
    (n, exchangeMsgDataPayloadSet cfg g (exchangeMsgGet g .data))

def exchangeSelfIsPrincipal (g : AsExchange) : Bool := cfg.selfNode == g.principal

/-! ### Clustering events -/

/-- `exchange_reset_for_new_round`: the new succession list, its first node as
principal, the node states reset for it, and the new cluster key. -/
def exchangeResetForNewRound (g : AsExchange) (newSuccessionList : List UInt64)
    (newClusterKey : UInt64) : AsExchange :=
  let g := { g with successionList := [], principal := 0 }
  let g := match newSuccessionList with
    | [] => { g with clusterSize := 0 }
    | principal :: _ =>
      { g with
        successionList := newSuccessionList
        principal := principal
        clusterSize := newSuccessionList.length }
  let g := exchangeNodeStatesReset g
  { g with clusterKey := newClusterKey }

/-- `exchange_orphaned_handle`: orphaned, with no succession list and key zero. -/
def exchangeOrphanedHandle (g : AsExchange) : AsExchange :=
  let g := { g with state := .orphaned }
  let g := exchangeResetForNewRound g [] 0
  { g with orphanStateAreTransactionsBlocked := false }

/-- `exchange_data_payloads_prepare`: each namespace's buffer holds its payload. -/
def exchangeDataPayloadsPrepare (g : AsExchange) (versions : ℕ → ℕ → AsPartitionVersion) :
    Option AsExchange :=
  ((List.range cfg.namespaceNames.length).mapM fun nsIx =>
    exchangeDataNamespacePayloadAdd (versions nsIx) []).map fun bufs =>
      { g with selfDataDynBuf := bufs }

/-- `exchange_cluster_change_handle`: a new round, exchanging, with the data
sent to every node of the new list. -/
def exchangeClusterChangeHandle (g : AsExchange) (clusterKey : UInt64)
    (successionList : List UInt64) (versions : ℕ → ℕ → AsPartitionVersion) :
    Option ExchangeOut := do
  let g := exchangeResetForNewRound g successionList clusterKey
  let g := { g with state := .exchanging }
  let g ← exchangeDataPayloadsPrepare cfg g versions
  some (g, exchangeDataMsgSendPendingAck cfg g)

def exchangeClusteringEventHandle (g : AsExchange) : AsExchangeEvent → Option ExchangeOut
  | .clusterChanged clusterKey successionList versions =>
    exchangeClusterChangeHandle cfg g clusterKey successionList versions
  | .orphaned => some (exchangeOrphanedHandle g, [])
  | _ => some (g, [])

/-! ### Exchanging -/

/-- `exchange_exchanging_check_switch_ready_to_commit`: with all data acked and
received, ready to commit, which the principal is told. -/
def exchangeExchangingCheckSwitchReadyToCommit (g : AsExchange) : ExchangeOut :=
  if g.state = .rest ∨ g.clusterKey = 0 then (g, [])
  else if !(exchangeNodesFindSendUnacked g).isEmpty then (g, [])
  else if !(exchangeNodesFindNotReceived g).isEmpty then (g, [])
  else
    let g := { g with state := .readyToCommit }
    (g, [(g.principal, exchangeMsgGet g .readyToCommit)])

/-- `exchange_data_msg_get_num_namespaces`: the count of namespaces, if it is
at most `AS_NAMESPACE_SZ` and the three arrays agree on it, else zero. -/
def exchangeDataMsgGetNumNamespaces (m : ExchangeMsg) : ℕ :=
  match m.namespaces with
  | none => 0
  | some names =>
    if names.length > asNamespaceSz then 0
    else match m.nsPartitionVersions with
      | none => 0
      | some pvs =>
        if names.length ≠ pvs.length then 0
        else match m.nsRackIds with
          | none => 0
          | some racks => if names.length ≠ racks.length then 0 else names.length

/-- A namespace's name in its `AS_ID_NAMESPACE_SZ`-byte buffer. -/
def namespaceNameBuf (name : List UInt8) : List UInt8 :=
  name ++ List.replicate (asIdNamespaceSz - name.length) 0

/-- `as_namespace_get_bybuf`: the first namespace whose name buffer starts with
the bytes and has a zero after them. -/
def asNamespaceGetBybuf (buf : List UInt8) : Option ℕ :=
  if buf.length ≥ asIdNamespaceSz then none
  else cfg.namespaceNames.findIdx? fun name =>
    (namespaceNameBuf name).take buf.length == buf && (namespaceNameBuf name).getD buf.length 0 == 0

def exchangeDataMsgEntries (m : ExchangeMsg) : List (List UInt8 × List UInt8 × UInt32) :=
  (m.namespaces.getD []).zip ((m.nsPartitionVersions.getD []).zip (m.nsRackIds.getD []))

/-- The namespace loop of `exchange_exchanging_data_msg_handle`: each namespace
the node has takes the next entry of the data, with the sender's rack id and,
once it passes the check, the payload. The flag says whether every payload
passed; the data written before a failed one stays. -/
def exchangeDataMsgNamespaces :
    List (List UInt8 × List UInt8 × UInt32) → AsExchangeNodeState →
      Option (AsExchangeNodeState × Bool)
  | [], st => some (st, true)
  | (name, pv, rackId) :: rest, st =>
    match asNamespaceGetBybuf cfg name with
    | none => exchangeDataMsgNamespaces rest st
    | some nsIx =>
      let slot := st.numNamespaces
      let st := { st with
        numNamespaces := slot + 1
        namespaceData := Function.update st.namespaceData slot
          { st.namespaceData slot with localNamespace := some nsIx, rackId := rackId } }
      match exchangeNamespacePayloadIsValid pv with
      | none => none
      | some false => some (st, false)
      | some true =>
        exchangeDataMsgNamespaces rest { st with
          namespaceData := Function.update st.namespaceData slot
            { st.namespaceData slot with partitionVersions := pv } }

/-- `exchange_exchanging_data_msg_handle`: the first data from a node is
stored and acked, then the switch to ready to commit is checked; a repeat is
acked again. Data with a bad namespace count or a bad payload is dropped
without an ack. -/
def exchangeExchangingDataMsgHandle (g : AsExchange) (source : UInt64) (m : ExchangeMsg) :
    Option ExchangeOut := do
  let nodeState ← g.nodeidToNodeState source
  if !nodeState.received then
    let numNamespacesSent := exchangeDataMsgGetNumNamespaces m
    if numNamespacesSent = 0 then some (g, [])
    else
      let r ← exchangeDataMsgNamespaces cfg (exchangeDataMsgEntries m)
        { nodeState with numNamespaces := 0 }
      if !r.2 then
        some (exchangeNodeStateUpdate g source r.1, [])
      else
        let g := exchangeNodeStateUpdate g source { r.1 with received := true }
        let out := exchangeExchangingCheckSwitchReadyToCommit g
        some (out.1, (source, exchangeMsgGet g .dataAck) :: out.2)
  else
    let out := exchangeExchangingCheckSwitchReadyToCommit g
    some (out.1, (source, exchangeMsgGet g .dataAck) :: out.2)

/-- `exchange_exchanging_data_ack_msg_handle`: the node has the data; then the
switch to ready to commit is checked. -/
def exchangeExchangingDataAckMsgHandle (g : AsExchange) (source : UInt64) : Option ExchangeOut := do
  let nodeState ← g.nodeidToNodeState source
  let g := if !nodeState.sendAcked then exchangeNodeStateUpdate g source { nodeState with sendAcked := true }
    else g
  some (exchangeExchangingCheckSwitchReadyToCommit g)

def exchangeExchangingMsgEventHandle (g : AsExchange) (source : UInt64) (m : ExchangeMsg) :
    Option ExchangeOut :=
  if !exchangeMsgIsSane g source m then some (g, [])
  else match exchangeMsgTypeGet m with
    | some .data => exchangeExchangingDataMsgHandle cfg g source m
    | some .dataAck => exchangeExchangingDataAckMsgHandle g source
    | _ => some (g, [])

/-- `exchange_exchanging_timer_event_handle`: past the timeout, the data again
to the nodes that have not acked it. -/
def exchangeExchangingTimerEventHandle (g : AsExchange) (timeout : Bool) : ExchangeOut :=
  if timeout then (g, exchangeDataMsgSendPendingAck cfg g) else (g, [])

/-! ### Ready to commit -/

/-- `exchange_ready_to_commit_rtc_msg_handle`: the principal marks the node
ready, and once every node is, sends the commit to the succession list. -/
def exchangeReadyToCommitRtcMsgHandle (g : AsExchange) (source : UInt64) : Option ExchangeOut :=
  if !exchangeSelfIsPrincipal cfg g then some (g, [])
  else do
    let nodeState ← g.nodeidToNodeState source
    let g := if !nodeState.isReadyToCommit then
        exchangeNodeStateUpdate g source { nodeState with isReadyToCommit := true }
      else g
    if (exchangeNodesFindNotReadyToCommit g).isEmpty then
      some (g, g.successionList.map fun n => (n, exchangeMsgGet g .commit))
    else some (g, [])

/-- `exchange_namespace_payload_commit_for_node` of one slot of a node's data,
into its local namespace; a NULL local namespace is dereferenced. -/
def exchangeSlotCommit (node : UInt64) (nss : ℕ → NsClusterData) (d : AsExchangeNodeNamespaceData) :
    Option (ℕ → NsClusterData) :=
  match d.localNamespace with
  | some nsIx =>
    (exchangeNamespacePayloadCommitForNode (nss nsIx) node d.partitionVersions d.rackId).map
      (Function.update nss nsIx ·)
  | none => none

/-- `exchange_data_commit_for_node`: each namespace entry of the node's data
committed into its local namespace. -/
def exchangeDataCommitForNode (g : AsExchange) (node : UInt64) (nss : ℕ → NsClusterData) :
    Option (ℕ → NsClusterData) := do
  let nodeState ← g.nodeidToNodeState node
  (List.range nodeState.numNamespaces).foldlM
    (fun nss i => exchangeSlotCommit node nss (nodeState.namespaceData i)) nss

/-- `exchange_data_commit` up to its call of `as_partition_balance`: the
namespaces' exchanged fields cleared, each node of the succession list
committed in order, and the round's cluster committed. The balance that
follows is not part of this model. -/
def exchangeDataCommit (g : AsExchange) : Option AsExchange := do
  let nss ← g.successionList.foldlM (fun nss node => exchangeDataCommitForNode g node nss)
    fun _ => NsClusterData.cleared
  some { g with
    namespaces := nss, committedClusterKey := g.clusterKey, committedClusterSize := g.clusterSize,
    committedPrincipal := g.principal, committedSuccessionList := g.successionList }

/-- `exchange_ready_to_commit_commit_msg_handle`: the principal's commit is
committed, and the node rests. -/
def exchangeReadyToCommitCommitMsgHandle (g : AsExchange) (source : UInt64) : Option ExchangeOut :=
  if source ≠ g.principal then some (g, [])
  else do
    let g ← exchangeDataCommit g
    some ({ g with state := .rest }, [])

/-- `exchange_ready_to_commit_msg_event_handle`; data from a node that missed
the ack is acked again. -/
def exchangeReadyToCommitMsgEventHandle (g : AsExchange) (source : UInt64) (m : ExchangeMsg) :
    Option ExchangeOut :=
  if !exchangeMsgIsSane g source m then some (g, [])
  else match exchangeMsgTypeGet m with
    | some .readyToCommit => exchangeReadyToCommitRtcMsgHandle cfg g source
    | some .commit => exchangeReadyToCommitCommitMsgHandle g source
    | some .data => some (g, [(source, exchangeMsgGet g .dataAck)])
    | _ => some (g, [])

/-- `exchange_ready_to_commit_timer_event_handle`: past the timeout, ready to
commit again to the principal. -/
def exchangeReadyToCommitTimerEventHandle (g : AsExchange) (timeout : Bool) : ExchangeOut :=
  if timeout then (g, [(g.principal, exchangeMsgGet g .readyToCommit)]) else (g, [])

/-! ### Rest and orphan -/

/-- `exchange_rest_msg_event_handle`: the principal sends the commit again to a
node still asking for it. -/
def exchangeRestMsgEventHandle (g : AsExchange) (source : UInt64) (m : ExchangeMsg) : ExchangeOut :=
  if !exchangeMsgIsSane g source m then (g, [])
  else if exchangeSelfIsPrincipal cfg g ∧ exchangeMsgTypeGet m = some .readyToCommit then
    (g, [(source, exchangeMsgGet g .commit)])
  else (g, [])

/-- `exchange_orphan_commit`: no committed cluster, and transactions blocked. -/
def exchangeOrphanCommit (g : AsExchange) : AsExchange :=
  { g with
    committedClusterKey := 0, committedClusterSize := 0, committedPrincipal := 0,
    committedSuccessionList := [], orphanStateAreTransactionsBlocked := true }

/-- `exchange_orphan_timer_event_handle`: an orphan for too long commits the
orphan state. -/
def exchangeOrphanTimerEventHandle (g : AsExchange) (timeout : Bool) : AsExchange :=
  if !g.orphanStateAreTransactionsBlocked ∧ timeout then exchangeOrphanCommit g else g

/-! ### Dispatch -/

/-- `exchange_event_handle`: the event to the handler of the current state. -/
def exchangeEventHandle (g : AsExchange) (e : AsExchangeEvent) : Option ExchangeOut :=
  match g.state, e with
  | .rest, .msg source m => some (exchangeRestMsgEventHandle cfg g source m)
  | .rest, .timer _ => some (g, [])
  | .exchanging, .msg source m => exchangeExchangingMsgEventHandle cfg g source m
  | .exchanging, .timer timeout => some (exchangeExchangingTimerEventHandle cfg g timeout)
  | .readyToCommit, .msg source m => exchangeReadyToCommitMsgEventHandle cfg g source m
  | .readyToCommit, .timer timeout => some (exchangeReadyToCommitTimerEventHandle g timeout)
  | .orphaned, .msg _ _ => some (g, [])
  | .orphaned, .timer timeout => some (exchangeOrphanTimerEventHandle g timeout, [])
  | _, e => exchangeClusteringEventHandle cfg g e

end Handlers

end Aerospike.Exchange
