import Aerospike.Base.Transaction
import Aerospike.Lib.Loop

/-! # Batch requests: `as_batch_queue_task`

A batch request is one client message whose batch field holds a row count, an
inline flag and then one row per record: a four-byte index, a twenty-byte
digest, a repeat flag and, in a row that does not repeat the one before it,
`info1`, `n_fields`, `n_ops` and the row's fields and ops. The 30 bytes of a
row's header are the size of a `cl_msg`, so `as_batch_queue_task` turns each
full row into a sub-transaction in place: it writes a proto header and an
`as_msg` header over them, and the row's fields and ops become the message's.
A row that repeats submits the last message again.

The rows are walked with weaker checks than `as_transaction_prepare` makes:
every field and op header must start early enough and the message must end
inside the request, but a field's size and an op's name size are not checked.
-/

namespace Aerospike.Proto

open Bytes Loop

def protoSizeMax : ℕ := 128 * 1024 * 1024

def protoVersion : UInt8 := 2

def protoTypeAsMsg : UInt8 := 3

def maxBatchThreads : ℕ := 256

/-- `BATCH_REPEAT_SIZE`: a row's index, digest and repeat flag. -/
def batchRepeatSize : ℕ := 25

/-- `sizeof(cl_msg)`: a proto header and an `as_msg` header. -/
def clMsgSize : ℕ := 30

def asProtoSize : ℕ := 8

def asMsgFieldTypeNamespace : UInt8 := 0

def asMsgFieldTypeSet : UInt8 := 1

def asMsgFieldTypeBatch : UInt8 := 41

def asMsgFieldTypeBatchWithSet : UInt8 := 42

def asProtoResultFailParameter : ℕ := 4

def asProtoResultFailBatchDisabled : ℕ := 150

def asProtoResultFailBatchMaxRequests : ℕ := 151

/-- The configuration `as_batch_queue_task` reads: the size of the batch thread
pool and `batch-max-requests`. -/
structure BatchConfig where
  threadSize : ℕ
  batchMaxRequests : ℕ

/-- A submitted sub-transaction: where its message's `as_msg` starts, its
`proto.sz`, `tr.msg_fields`, and the row's index and digest. -/
structure BatchSub where
  msgAddr : ℕ
  size : ℕ
  msgFields : UInt32
  batchIndex : ℕ
  keyd : List UInt8
  deriving DecidableEq, Repr

/-- The variables of the row loop: the memory with the headers written so far,
`data`, `tran_row`, `prev_msgp` (the `as_msg` address and size of the last full
row's message), `tr.msg_fields` and the sub-transactions submitted. -/
structure BatchState where
  mem : ℕ → UInt8
  data : ℕ
  tranRow : ℕ
  prev : Option (ℕ × ℕ)
  msgFields : UInt32
  subs : List BatchSub

variable (mem : ℕ → UInt8) (limit : ℕ)

/-- The header field loop: each field must start before `limit` (else "Batch
field limit reached", `none`), and the last `BATCH` or `BATCH_WITH_SET` field is
the batch field. -/
def batchFieldFind (addrs : List ℕ) : Option (Option ℕ) :=
  addrs.foldl (fun acc mf => acc.bind fun bf =>
    if mf ≥ limit then none
    else some (if fieldType mem mf = asMsgFieldTypeBatch ∨
      fieldType mem mf = asMsgFieldTypeBatchWithSet then some mf else bf)) (some none)

/-- The `as_msg` header written over a full row: `header_sz`, `info1`, zeros up
to the batch's `transaction_ttl`, then `n_fields` and `n_ops`. -/
def batchMsgHeader (info1 : UInt8) (transactionTtl nFields nOps : ℕ) : List UInt8 :=
  [UInt8.ofNat asMsgSize, info1, 0, 0, 0, 0] ++ beBytes 4 0 ++ beBytes 4 0 ++
    beBytes 4 transactionTtl ++ beBytes 2 nFields ++ beBytes 2 nOps

def batchProtoHeader (sz : ℕ) : List UInt8 :=
  [protoVersion, protoTypeAsMsg] ++ beBytes 6 sz

/-- The loop over a full row's fields after the namespace: each header must
fit before `limit` (else `goto TranEnd`, `none`), and a `SET` field sets its
bit. -/
def batchRowFields (addrs : List ℕ) (msgFields : UInt32) : Option UInt32 :=
  addrs.foldl (fun acc a => acc.bind fun f =>
    if a + asMsgFieldSize > limit then none
    else some (if fieldType mem a = asMsgFieldTypeSet then
      (asTransactionSetMsgFieldFlag f asMsgFieldTypeSet).1 else f)) (some msgFields)

/-- The loop over a full row's ops: each header must fit before `limit`. -/
def batchRowOpsFit (addrs : List ℕ) : Bool :=
  addrs.all fun a => a + asMsgOpSize ≤ limit

/-- Where stepping over `n` ops from `a` ends. -/
def opsEnd (n a : ℕ) : ℕ := (asMsgOpGetNext mem)^[n] a

/-- The end of a turn of the row loop: a message that runs past `limit` ends
the loop, otherwise the sub-transaction is submitted and counted. -/
def batchSubmit (s : BatchState) (sub : BatchSub) : BatchState × Bool :=
  if s.data > limit then (s, false)
  else ({ s with tranRow := s.tranRow + 1, subs := s.subs ++ [sub] }, true)

/-- One turn of the row loop on the row at `s.data`: the state after it and
whether the loop goes on (`false` for a `break` or the `goto TranEnd`). -/
def batchRow (s : BatchState) : BatchState × Bool :=
  let data := s.data
  let index := beRead s.mem data 4
  let keyd := read s.mem (data + 4) 20
  if s.mem (data + 24) ≠ 0 then
    match s.prev with
    | none => (s, false)
    | some (msgAddr, size) =>
      batchSubmit limit { s with data := data + batchRepeatSize }
        ⟨msgAddr, size, s.msgFields, index, keyd⟩
  else
    let msgFields := (asTransactionSetMsgFieldFlag 0 asMsgFieldTypeNamespace).1
    if data + clMsgSize + asMsgFieldSize > limit then ({ s with msgFields }, false)
    else
      let nF := if beRead s.mem (data + 26) 2 = 0 then 1 else beRead s.mem (data + 26) 2
      let nO := beRead s.mem (data + 28) 2
      let mem := write s.mem (data + asProtoSize)
        (batchMsgHeader (s.mem (data + 25)) (beRead s.mem 14 4) nF nO)
      let first := asMsgFieldGetNext mem (data + clMsgSize)
      match batchRowFields mem limit (fieldAddrs mem (nF - 1) first) msgFields with
      | none => ({ s with mem, msgFields }, false)
      | some msgFields =>
        let opsStart := fieldsEnd mem (nF - 1) first
        if !batchRowOpsFit limit (opAddrs mem nO opsStart) then ({ s with mem, msgFields }, false)
        else
          let dataEnd := opsEnd mem nO opsStart
          let size := dataEnd - (data + asProtoSize)
          let mem := write mem data (batchProtoHeader size)
          batchSubmit limit
            { s with mem, data := dataEnd, prev := some (data + asProtoSize, size), msgFields }
            ⟨data + asProtoSize, size, msgFields, index, keyd⟩

def batchLoopCond (tranCount : ℕ) (s : BatchState) : Bool :=
  s.tranRow < tranCount && s.data + batchRepeatSize ≤ limit

/-- The result of the row loop: its last state and `tran_count`. -/
structure BatchRun where
  final : BatchState
  tranCount : ℕ

/-- The rows `as_batch_terminate` answers with `FAIL_PARAMETER`. -/
def BatchRun.terminated (r : BatchRun) : ℕ := r.tranCount - r.final.tranRow

/-- `as_batch_queue_task` on a request whose proto header has type `type` and
`sz` bytes after it, read from the `as_msg` on: the error it answers with, or
the run of the row loop. -/
def asBatchQueueTask (cfg : BatchConfig) (type : UInt8) (sz : ℕ) : Except ℕ BatchRun :=
  if cfg.threadSize = 0 ∨ cfg.threadSize > maxBatchThreads then
    .error asProtoResultFailBatchDisabled
  else if sz > protoSizeMax then .error asProtoResultFailParameter
  else if type ≠ protoTypeAsMsg then .error asProtoResultFailParameter
  else
    match batchFieldFind mem sz (fieldAddrs mem (nFields mem) asMsgSize) with
    | none => .error asProtoResultFailParameter
    | some none => .error asProtoResultFailParameter
    | some (some bf) =>
      let tranCount := beRead mem (bf + asMsgFieldSize) 4
      if tranCount = 0 then .error asProtoResultFailParameter
      else if tranCount > cfg.batchMaxRequests then .error asProtoResultFailBatchMaxRequests
      else
        let s₀ : BatchState := ⟨mem, bf + asMsgFieldSize + 5, 0, none, 0, []⟩
        .ok ⟨runWhile (batchLoopCond sz tranCount) (batchRow sz) tranCount s₀, tranCount⟩

/-! ### The row loop -/

section Run

variable {mem limit}

theorem batchSubmit_cases (s : BatchState) (sub : BatchSub) :
    (batchSubmit limit s sub = (s, false) ∧ limit < s.data) ∨
      (batchSubmit limit s sub =
        ({ s with tranRow := s.tranRow + 1, subs := s.subs ++ [sub] }, true) ∧ s.data ≤ limit) := by
  unfold batchSubmit
  by_cases h : s.data > limit
  · exact .inl ⟨if_pos h, h⟩
  · exact .inr ⟨if_neg h, by omega⟩

theorem le_opsEnd (mem : ℕ → UInt8) (n a : ℕ) : a ≤ opsEnd mem n a :=
  Function.id_le_iterate_of_id_le (fun a => by simp only [id, asMsgOpGetNext]; omega) n a

/-- What one turn of the row loop can do: stop with the count, the
sub-transactions, the kept message and the cursor as they were, or end in
`batchSubmit` with the count and sub-transactions as they were, submitting
either the kept message again (a repeat row, the cursor past its 25 bytes) or
a new message that ends at the cursor and is kept. -/
theorem batchRow_cases (s : BatchState) :
    ((batchRow limit s).2 = false ∧ (batchRow limit s).1.tranRow = s.tranRow ∧
      (batchRow limit s).1.subs = s.subs ∧ (batchRow limit s).1.prev = s.prev ∧
      (batchRow limit s).1.data = s.data) ∨
    ∃ s' sub, batchRow limit s = batchSubmit limit s' sub ∧ s'.tranRow = s.tranRow ∧
      s'.subs = s.subs ∧
      ((s.prev = some (sub.msgAddr, sub.size) ∧ s'.prev = s.prev ∧
          s'.data = s.data + batchRepeatSize) ∨
        (s'.prev = some (sub.msgAddr, sub.size) ∧ sub.msgAddr + sub.size = s'.data)) := by
  unfold batchRow
  dsimp only
  by_cases hrep : s.mem (s.data + 24) ≠ 0
  · rw [if_pos hrep]
    rcases hprev : s.prev with _ | ⟨msgAddr, size⟩
    · exact .inl ⟨rfl, rfl, rfl, hprev, rfl⟩
    · exact .inr ⟨_, _, rfl, rfl, rfl, .inl ⟨rfl, rfl, rfl⟩⟩
  rw [if_neg hrep]
  by_cases hfit : s.data + clMsgSize + asMsgFieldSize > limit
  · rw [if_pos hfit]
    exact .inl ⟨rfl, rfl, rfl, rfl, rfl⟩
  rw [if_neg hfit]
  generalize (if beRead s.mem (s.data + 26) 2 = 0 then 1 else beRead s.mem (s.data + 26) 2) = nF
  generalize write s.mem (s.data + asProtoSize) _ = mem
  split
  · exact .inl ⟨rfl, rfl, rfl, rfl, rfl⟩
  split
  · exact .inl ⟨rfl, rfl, rfl, rfl, rfl⟩
  refine .inr ⟨_, _, rfl, rfl, rfl, .inr ⟨rfl, ?_⟩⟩
  have hfirst := le_fieldsEnd mem (nF - 1) (asMsgFieldGetNext mem (s.data + clMsgSize))
  have hops := le_opsEnd mem (beRead s.mem (s.data + 28) 2)
    (fieldsEnd mem (nF - 1) (asMsgFieldGetNext mem (s.data + clMsgSize)))
  simp only [asMsgFieldGetNext, asProtoSize, clMsgSize] at hfirst hops ⊢
  omega

theorem batchRow_tranRow (s : BatchState) (h : (batchRow limit s).2 = true) :
    (batchRow limit s).1.tranRow = s.tranRow + 1 := by
  rcases batchRow_cases s with ⟨hstop, -⟩ | ⟨s', sub, heq, hrow, -⟩
  · rw [hstop] at h
    cases h
  rw [heq] at h ⊢
  rcases batchSubmit_cases s' sub with ⟨hs, -⟩ | ⟨hs, -⟩
  · rw [hs] at h
    cases h
  · rw [hs, hrow]

/-- What every turn of the row loop keeps: one sub-transaction per counted row,
no more rows than `tran_count`, every submitted message ends inside the
request, and the message kept for repeat rows ends before the cursor. -/
structure BatchInv (limit tranCount : ℕ) (s : BatchState) : Prop where
  subs_length : s.subs.length = s.tranRow
  tranRow_le : s.tranRow ≤ tranCount
  sub_inside : ∀ sub ∈ s.subs, sub.msgAddr + sub.size ≤ limit
  prev_le : ∀ msg, s.prev = some msg → msg.1 + msg.2 ≤ s.data

variable {tranCount : ℕ}

theorem batchSubmit_inv {s : BatchState} {sub : BatchSub}
    (hlen : s.subs.length = s.tranRow) (hrow : s.tranRow < tranCount)
    (hsubs : ∀ x ∈ s.subs, x.msgAddr + x.size ≤ limit)
    (hprev : ∀ msg, s.prev = some msg → msg.1 + msg.2 ≤ s.data)
    (hsub : sub.msgAddr + sub.size ≤ s.data) :
    BatchInv limit tranCount (batchSubmit limit s sub).1 := by
  rcases batchSubmit_cases s sub with ⟨h, -⟩ | ⟨h, hdata⟩
  · rw [h]
    exact ⟨hlen, hrow.le, hsubs, hprev⟩
  rw [h]
  refine ⟨by simp [hlen], hrow, fun x hx => ?_, hprev⟩
  rcases List.mem_append.mp hx with hx | hx
  · exact hsubs x hx
  · rw [List.mem_singleton.mp hx]
    omega

theorem batchRow_inv {s : BatchState} (hs : BatchInv limit tranCount s)
    (hcond : batchLoopCond limit tranCount s = true) :
    BatchInv limit tranCount (batchRow limit s).1 := by
  have hrow : s.tranRow < tranCount := by
    simp only [batchLoopCond, Bool.and_eq_true, decide_eq_true_eq] at hcond
    exact hcond.1
  rcases batchRow_cases s with ⟨-, hrow', hsubs, hprev, hdata⟩ | ⟨s', sub, h, hrow', hsubs, hlast⟩
  · exact ⟨by rw [hsubs, hrow']; exact hs.subs_length, by rw [hrow']; exact hs.tranRow_le,
      by rw [hsubs]; exact hs.sub_inside, by rw [hprev, hdata]; exact hs.prev_le⟩
  rw [h]
  refine batchSubmit_inv (by rw [hsubs, hrow']; exact hs.subs_length) (by rw [hrow']; exact hrow)
    (by rw [hsubs]; exact hs.sub_inside) (fun msg hmsg => ?_) ?_
  · rcases hlast with ⟨-, hp, hd⟩ | ⟨hp, hd⟩
    · rw [hp] at hmsg
      have := hs.prev_le msg hmsg
      omega
    · rw [hp, Option.some.injEq] at hmsg
      subst hmsg
      exact hd.le
  · rcases hlast with ⟨hp, -, hd⟩ | ⟨-, hd⟩
    · have := hs.prev_le _ hp
      omega
    · exact hd.le

theorem batchLoop_inv (fuel : ℕ) (s : BatchState) (hs : BatchInv limit tranCount s) :
    BatchInv limit tranCount (runWhile (batchLoopCond limit tranCount) (batchRow limit) fuel s) :=
  runWhile_induction _ (fun _ hs hc => batchRow_inv hs hc) fuel s hs

/-- The fuel `tran_count` cuts nothing: every turn that goes on counts a row,
and the loop stops once `tran_count` rows are counted. -/
theorem batchLoop_fuel_enough (k : ℕ) (s : BatchState) (hs : s.tranRow = 0) :
    runWhile (batchLoopCond limit tranCount) (batchRow limit) (tranCount + k) s =
      runWhile (batchLoopCond limit tranCount) (batchRow limit) tranCount s := by
  have hrow : ∀ s, batchLoopCond limit tranCount s = true → s.tranRow < tranCount := by
    intro s hc
    simp only [batchLoopCond, Bool.and_eq_true, decide_eq_true_eq] at hc
    exact hc.1
  refine runWhile_fuel_enough (fun s => tranCount - s.tranRow) (fun s hc => ?_)
    (fun s hc hgo => ?_) tranCount s (by omega) k
  · have := hrow s hc
    omega
  · have := hrow s hc
    rw [batchRow_tranRow s hgo]
    omega

theorem batchLoop_fuel_enough_two_rows :
    (⟨fun _ => 0, 0, 0, none, 0, []⟩ : BatchState).tranRow = 0 ∧
      runWhile (batchLoopCond 64 2) (batchRow 64) (2 + 3) ⟨fun _ => 0, 0, 0, none, 0, []⟩ =
        runWhile (batchLoopCond 64 2) (batchRow 64) 2 ⟨fun _ => 0, 0, 0, none, 0, []⟩ :=
  ⟨rfl, batchLoop_fuel_enough 3 _ rfl⟩

end Run

/-! ### What an accepted batch does -/

section Queue

variable {mem} {cfg : BatchConfig} {type : UInt8} {sz : ℕ}

theorem asBatchQueueTask_ok {r : BatchRun} (h : asBatchQueueTask mem cfg type sz = .ok r) :
    ∃ bf, r = ⟨runWhile (batchLoopCond sz r.tranCount) (batchRow sz) r.tranCount
      ⟨mem, bf + asMsgFieldSize + 5, 0, none, 0, []⟩, r.tranCount⟩ := by
  unfold asBatchQueueTask at h
  by_cases hthreads : cfg.threadSize = 0 ∨ cfg.threadSize > maxBatchThreads
  · rw [if_pos hthreads] at h
    cases h
  rw [if_neg hthreads] at h
  by_cases hsz : sz > protoSizeMax
  · rw [if_pos hsz] at h
    cases h
  rw [if_neg hsz] at h
  by_cases htype : type ≠ protoTypeAsMsg
  · rw [if_pos htype] at h
    cases h
  rw [if_neg htype] at h
  split at h
  · cases h
  · cases h
  rename_i bf _
  dsimp only at h
  by_cases hzero : beRead mem (bf + asMsgFieldSize) 4 = 0
  · rw [if_pos hzero] at h
    cases h
  rw [if_neg hzero] at h
  by_cases hmax : beRead mem (bf + asMsgFieldSize) 4 > cfg.batchMaxRequests
  · rw [if_pos hmax] at h
    cases h
  rw [if_neg hmax] at h
  cases h
  exact ⟨bf, rfl⟩

theorem asBatchQueueTask_eq_ok (bf : ℕ)
    (hthreads : 0 < cfg.threadSize ∧ cfg.threadSize ≤ maxBatchThreads) (hsz : sz ≤ protoSizeMax)
    (htype : type = protoTypeAsMsg)
    (hbf : batchFieldFind mem sz (fieldAddrs mem (nFields mem) asMsgSize) = some (some bf))
    (hcount : 0 < beRead mem (bf + asMsgFieldSize) 4 ∧
      beRead mem (bf + asMsgFieldSize) 4 ≤ cfg.batchMaxRequests) :
    asBatchQueueTask mem cfg type sz =
      .ok ⟨runWhile (batchLoopCond sz (beRead mem (bf + asMsgFieldSize) 4)) (batchRow sz)
        (beRead mem (bf + asMsgFieldSize) 4) ⟨mem, bf + asMsgFieldSize + 5, 0, none, 0, []⟩,
        beRead mem (bf + asMsgFieldSize) 4⟩ := by
  unfold asBatchQueueTask
  rw [if_neg (by omega), if_neg (by omega), if_neg (by simpa using htype), hbf]
  dsimp only
  rw [if_neg (by omega), if_neg (by omega)]

/-- Every row of an accepted batch is answered once, by a submitted
sub-transaction or by `as_batch_terminate`, and every submitted message ends
inside the request. -/
theorem asBatchQueueTask_rows {r : BatchRun} (h : asBatchQueueTask mem cfg type sz = .ok r) :
    r.final.subs.length + r.terminated = r.tranCount ∧
      ∀ sub ∈ r.final.subs, sub.msgAddr + sub.size ≤ sz := by
  obtain ⟨bf, hr⟩ := asBatchQueueTask_ok h
  have hinv : BatchInv sz r.tranCount r.final := by
    rw [hr]
    exact batchLoop_inv _ _ ⟨rfl, Nat.zero_le _, fun _ h => absurd h List.not_mem_nil,
      fun _ h => by cases h⟩
  refine ⟨?_, hinv.sub_inside⟩
  have := hinv.tranRow_le
  rw [BatchRun.terminated, hinv.subs_length]
  omega

end Queue

/-! ### A batch whose sub-transaction `as_transaction_prepare` would refuse

One row, with a namespace field and one op whose `op_sz` of 4 does not cover
its one-byte name. The row loop checks only that the op's header fits before
the end of the request, so the row is submitted.
-/

/-- The request: an `as_msg` header with one field, the batch field (a count of
one, no inline flag) and the row. -/
def batchOpNameOverrun : List UInt8 :=
  [22, 1, 0, 0, 0, 0, 0, 0, 0, 0, 0, 0, 0, 0, 0, 0, 3, 232, 0, 1, 0, 0,
    0, 0, 0, 50, 41,
    0, 0, 0, 1, 0,
    0, 0, 0, 0, 7, 7, 7, 7, 7, 7, 7, 7, 7, 7, 7, 7, 7, 7, 7, 7, 7, 7, 7, 7,
    0, 1, 0, 1, 0, 1,
    0, 0, 0, 2, 0, 116,
    0, 0, 0, 4, 1, 0, 0, 1]

/-- The memory of a sub-transaction's message, from its `as_msg` on. -/
def batchSubMsg (mem : ℕ → UInt8) (sub : BatchSub) : ℕ → UInt8 :=
  fun i => mem (sub.msgAddr + i)

theorem asBatchQueueTask_submits_unprepared :
    ∃ r, asBatchQueueTask (fun i => batchOpNameOverrun.getD i 0) ⟨1, 5000⟩ protoTypeAsMsg 76 =
        .ok r ∧
      ∃ sub ∈ r.final.subs,
        asTransactionPrepare (batchSubMsg r.final.mem sub) sub.size 0 = none ∧
        ∃ a ∈ asMsgOpIterate (batchSubMsg r.final.mem sub),
          opSz (batchSubMsg r.final.mem sub) a < 4 + opNameSz (batchSubMsg r.final.mem sub) a :=
  ⟨_, asBatchQueueTask_eq_ok 22 (by decide) (by decide) rfl (by decide) (by decide),
    ⟨40, 36, 1, 0, List.replicate 20 7⟩, by decide, by decide, 28, by decide, by decide⟩

theorem asBatchQueueTask_rows_overrun :
    ∃ r, asBatchQueueTask (fun i => batchOpNameOverrun.getD i 0) ⟨1, 5000⟩ protoTypeAsMsg 76 = .ok r ∧
      r.final.subs.length + r.terminated = r.tranCount ∧ ∀ sub ∈ r.final.subs, sub.msgAddr + sub.size ≤ 76 :=
  have h := asBatchQueueTask_eq_ok 22 (by decide) (by decide) rfl (by decide) (by decide)
  ⟨_, h, asBatchQueueTask_rows h⟩

end Aerospike.Proto
