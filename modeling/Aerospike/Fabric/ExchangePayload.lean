import Aerospike.Cf.ShashRefine
import Aerospike.Base.Index

/-! # The partition versions a node exchanges

At each cluster change every node sends, for each namespace, the versions of
its `AS_PARTITIONS` partitions, grouped by version (`exchange.c`):
`exchange_data_namespace_payload_add` collects the pids of each non-null
version in a `cf_shash` and serializes it as an `as_exchange_ns_vinfos_payload`;
the receiver checks the bytes with `exchange_namespace_payload_is_valid`, and
`exchange_namespace_payload_commit_for_node` writes the sender's row of
`ns->cluster_versions`.

The model follows the bytes. A payload is the list of its bytes, and the loops
that walk it with `read_ptr` work on the bytes from `read_ptr` to the payload's
end; a read past the end is `none`, as is a write past a row of
`cluster_versions`. A version is the 64-bit word its bit fields pack, copied
in host (little-endian) order. The pid vectors the hash points to are held in
the hash by value: appending through the pointer is storing the grown vector.

`encodeNsVinfosPayload` states the format. The serializer writes it for the
hash's pairs; the check accepts exactly its well-formed instances and never
reads past the payload; the commit of an accepted payload writes each pid's
version and nothing else, so that after a round of the exchange each node's
slot holds its versions again.
-/

namespace Aerospike.Exchange

open Shash Bytes Index

/-- `as_partition_version`: the word of its bit fields, `ckey` in the low 48 bits. -/
structure AsPartitionVersion where
  word : UInt64
  deriving DecidableEq, Repr, Inhabited

/-- The `ckey` bit field. -/
def AsPartitionVersion.ckey (v : AsPartitionVersion) : ℕ := v.word.toNat % 2 ^ 48

def asPartitionVersionIsNull (v : AsPartitionVersion) : Bool := v.ckey == 0

/-- The all-zero version that `exchange_data_commit` clears the rows to. -/
def AsPartitionVersion.zero : AsPartitionVersion := ⟨0⟩

/-- `AS_EXCHANGE_UNIQUE_VINFO_MAX_SIZE_SOFT`: the bucket count of the namespace hash. -/
def asExchangeUniqueVinfoMaxSizeSoft : UInt32 := 200

/-- `AS_CLUSTER_SZ`: the rows of `cluster_versions`. -/
def asClusterSz : ℕ := 128

/-- `exchange_blob_hash`: a one-at-a-time hash of the bytes. -/
def exchangeBlobHash (value : List UInt8) : UInt32 :=
  let hash := value.foldl (fun (hash : UInt32) b =>
    let hash := hash + b.toUInt32
    let hash := hash + (hash <<< 10)
    hash ^^^ (hash >>> 6)) (0 : UInt32)
  let hash := hash + (hash <<< 3)
  let hash := hash ^^^ (hash >>> 11)
  hash + (hash <<< 15)

/-- `exchange_vinfo_shash`: the blob hash of the version's 8 bytes. -/
def exchangeVinfoShash (v : AsPartitionVersion) : UInt32 := exchangeBlobHash (leBytes 8 v.word.toNat)

/-! ### Serializing -/

/-- `exchange_namespace_hash_pid_add`: a null version is skipped; a version
seen for the first time is put with a new, empty vector; then the pid is
appended to the vector the hash holds. -/
def exchangeNamespaceHashPidAdd (nsHash : CfShash AsPartitionVersion (List UInt16))
    (vinfo : AsPartitionVersion) (pid : UInt16) : CfShash AsPartitionVersion (List UInt16) :=
  if asPartitionVersionIsNull vinfo then nsHash
  else
    let got := cfShashGet nsHash vinfo
    let created : CfShash AsPartitionVersion (List UInt16) × List UInt16 :=
      if got.1 ≠ cfShashOk then (cfShashPut nsHash vinfo [], []) else (nsHash, got.2.getD [])
    cfShashPut created.1 vinfo (created.2 ++ [pid])

/-- `exchange_namespace_hash_serialize_reduce`: the version's bytes, the count
of its pids and each pid, appended to the buffer. -/
def exchangeNamespaceHashSerializeReduce (dynBuf : List UInt8) (vinfo : AsPartitionVersion)
    (pidVector : List UInt16) : Int × List UInt8 :=
  let dynBuf := dynBuf ++ leBytes 8 vinfo.word.toNat
  let numPids : UInt32 := pidVector.length.toUInt32
  let dynBuf := dynBuf ++ leBytes 4 numPids.toNat
  let dynBuf := (List.range numPids.toNat).foldl
    (fun dynBuf i => dynBuf ++ leBytes 2 (pidVector.getD i 0).toNat) dynBuf
  (cfShashOk, dynBuf)

/-- `exchange_data_namespace_payload_add`: the hash of each non-null version's
pids, its size, then its pairs in table order, appended to the buffer; `none`
where `cf_shash_create` would fail. The reduce that frees the vectors and the
hash leaves the buffer as it is. -/
def exchangeDataNamespacePayloadAdd (partitions : ℕ → AsPartitionVersion) (dynBuf : List UInt8) :
    Option (List UInt8) := do
  let nsHash : CfShash AsPartitionVersion (List UInt16) ←
    cfShashCreate exchangeVinfoShash asExchangeUniqueVinfoMaxSizeSoft
  let nsHash := (List.range asPartitions).foldl
    (fun nsHash i => exchangeNamespaceHashPidAdd nsHash (partitions i) i.toUInt16) nsHash
  let numVinfos : UInt32 := (cfShashGetSize nsHash).toUInt32
  let dynBuf := dynBuf ++ leBytes 4 numVinfos.toNat
  some (cfShashReduce nsHash exchangeNamespaceHashSerializeReduce dynBuf).2.1

/-! ### Checking -/

/-- `sizeof(as_exchange_vinfo_payload)`: the version and the pid count, packed. -/
def vinfoPayloadSize : ℕ := 12

/-- The pid loop of `exchange_namespace_payload_is_valid`: each of `numPids`
pids from the start of `pids` below `AS_PARTITIONS`. -/
def pidsAreValid : ℕ → List UInt8 → Option Bool
  | 0, _ => some true
  | n + 1, pids => do
    let pid ← leRead? pids 2
    if pid ≥ asPartitions then some false else pidsAreValid n (pids.drop 2)

/-- The vinfo loop of `exchange_namespace_payload_is_valid`, over `n` vinfo
payloads, on the bytes from `read_ptr` to the payload's end. -/
def vinfosAreValid : ℕ → List UInt8 → Option Bool
  | 0, rest => some rest.isEmpty
  | n + 1, rest =>
    if rest.isEmpty then some false
    else if rest.length < vinfoPayloadSize then some false
    else do
      let numPids ← leRead? (rest.drop 8) 4
      if numPids > asPartitions then some false
      else if rest.length < vinfoPayloadSize + numPids * 2 then some false
      else do
        let pidsOk ← pidsAreValid numPids (rest.drop vinfoPayloadSize)
        if !pidsOk then some false
        else vinfosAreValid n (rest.drop (vinfoPayloadSize + numPids * 2))

/-- `exchange_namespace_payload_is_valid`: the count fits, is at most
`AS_PARTITIONS`, and the vinfo payloads fill the rest exactly. -/
def exchangeNamespacePayloadIsValid (nsPayload : List UInt8) : Option Bool :=
  if nsPayload.length < 4 then some false
  else do
    let numVinfos ← leRead? nsPayload 4
    if numVinfos > asPartitions then some false
    else vinfosAreValid numVinfos (nsPayload.drop 4)

/-! ### Committing -/

/-- The exchanged fields of `as_namespace`: the cluster size, the succession
list, each node's row of partition versions and its rack id. -/
structure NsClusterData where
  clusterSize : ℕ
  succession : ℕ → UInt64
  clusterVersions : ℕ → ℕ → AsPartitionVersion
  rackIds : ℕ → UInt32

/-- The fields as `exchange_data_commit` clears them. -/
def NsClusterData.cleared : NsClusterData :=
  ⟨0, fun _ => 0, fun _ _ => AsPartitionVersion.zero, fun _ => 0⟩

/-- The pid loop of `exchange_namespace_payload_commit_for_node`: the version
copied to each of `numPids` pids of the row. -/
def commitPids (vinfo : AsPartitionVersion) (row : ℕ → AsPartitionVersion) :
    ℕ → List UInt8 → Option (ℕ → AsPartitionVersion)
  | 0, _ => some row
  | n + 1, pids => do
    let pid ← leRead? pids 2
    if pid < asPartitions then commitPids vinfo (Function.update row pid vinfo) n (pids.drop 2)
    else none

/-- The vinfo loop of `exchange_namespace_payload_commit_for_node`. -/
def commitVinfos (row : ℕ → AsPartitionVersion) : ℕ → List UInt8 → Option (ℕ → AsPartitionVersion)
  | 0, _ => some row
  | n + 1, rest => do
    let word ← leRead? rest 8
    let numPids ← leRead? (rest.drop 8) 4
    let row ← commitPids ⟨word.toUInt64⟩ row numPids (rest.drop vinfoPayloadSize)
    commitVinfos row n (rest.drop (vinfoPayloadSize + numPids * 2))

/-- `exchange_namespace_payload_commit_for_node`: the node takes the next slot
of the succession list, with its versions and its rack id. -/
def exchangeNamespacePayloadCommitForNode (ns : NsClusterData) (node : UInt64)
    (partitionVersions : List UInt8) (rackId : UInt32) : Option NsClusterData :=
  let slIx := ns.clusterSize
  if slIx < asClusterSz then do
    let numVinfos ← leRead? partitionVersions 4
    let row ← commitVinfos (ns.clusterVersions slIx) numVinfos (partitionVersions.drop 4)
    some ⟨slIx + 1, Function.update ns.succession slIx node,
      Function.update ns.clusterVersions slIx row, Function.update ns.rackIds slIx rackId⟩
  else none

/-- `exchange_data_commit` for one namespace: the fields cleared, then each
node of the succession list that sent the namespace committed in order, with
its payload and rack id. -/
def exchangeDataCommitNamespace (received : List (UInt64 × Option (List UInt8 × UInt32))) :
    Option NsClusterData :=
  received.foldlM (fun ns nodeData => match nodeData.2 with
    | some (payload, rackId) => exchangeNamespacePayloadCommitForNode ns nodeData.1 payload rackId
    | none => some ns) NsClusterData.cleared

/-! ### The payload format -/

def encodePids (pids : List UInt16) : List UInt8 := (pids.map fun p => leBytes 2 p.toNat).flatten

/-- An `as_exchange_vinfo_payload`: the version's bytes, the pid count and the pids. -/
def encodeVinfoPayload (e : AsPartitionVersion × List UInt16) : List UInt8 :=
  leBytes 8 e.1.word.toNat ++ leBytes 4 e.2.length ++ encodePids e.2

/-- An `as_exchange_ns_vinfos_payload`: the count of versions, then each. -/
def encodeNsVinfosPayload (E : List (AsPartitionVersion × List UInt16)) : List UInt8 :=
  leBytes 4 E.length ++ (E.map encodeVinfoPayload).flatten

/-- What the check asks of the pids of one version: at most `AS_PARTITIONS`,
each below it. -/
def PidsWf (pids : List UInt16) : Prop :=
  pids.length ≤ asPartitions ∧ ∀ p ∈ pids, p.toNat < asPartitions

structure VinfosWf (E : List (AsPartitionVersion × List UInt16)) : Prop where
  length_le : E.length ≤ asPartitions
  pids_wf : ∀ e ∈ E, PidsWf e.2

@[simp] theorem encodePids_nil : encodePids [] = [] := rfl

@[simp] theorem encodePids_cons (p : UInt16) (ps : List UInt16) :
    encodePids (p :: ps) = leBytes 2 p.toNat ++ encodePids ps := rfl

@[simp] theorem length_encodePids (ps : List UInt16) : (encodePids ps).length = 2 * ps.length := by
  induction ps with
  | nil => rfl
  | cons p ps ih => simp [ih]; omega

theorem toNat_mod_of_lt_asPartitions {p : UInt16} (h : p.toNat < asPartitions) :
    p.toNat % 256 ^ 2 = p.toNat :=
  Nat.mod_eq_of_lt (by unfold asPartitions at h; omega)

theorem length_mod_of_le_asPartitions {n : ℕ} (h : n ≤ asPartitions) : n % 256 ^ 4 = n :=
  Nat.mod_eq_of_lt (by unfold asPartitions at h; omega)

section Layout

variable (e : AsPartitionVersion × List UInt16) (rest : List UInt8)

theorem length_encodeVinfoPayload :
    (encodeVinfoPayload e).length = vinfoPayloadSize + e.2.length * 2 := by
  simp [encodeVinfoPayload, vinfoPayloadSize]
  omega

theorem encodeVinfoPayload_drop_eight :
    (encodeVinfoPayload e ++ rest).drop 8 = leBytes 4 e.2.length ++ (encodePids e.2 ++ rest) := by
  simp [encodeVinfoPayload, List.drop_left']

theorem encodeVinfoPayload_drop_header :
    (encodeVinfoPayload e ++ rest).drop vinfoPayloadSize = encodePids e.2 ++ rest := by
  rw [show vinfoPayloadSize = 8 + 4 from rfl, ← List.drop_drop, encodeVinfoPayload_drop_eight,
    List.drop_left' (length_leBytes 4 _)]

theorem encodeVinfoPayload_drop_all :
    (encodeVinfoPayload e ++ rest).drop (vinfoPayloadSize + e.2.length * 2) = rest :=
  List.drop_left' (length_encodeVinfoPayload e)

theorem leRead?_encodeVinfoPayload :
    leRead? (encodeVinfoPayload e ++ rest) 8 = some e.1.word.toNat := by
  rw [encodeVinfoPayload, List.append_assoc, List.append_assoc, leRead?_leBytes_append,
    Nat.mod_eq_of_lt (by simpa using e.1.word.toNat_lt)]

end Layout

/-! ### The check -/

section Check

theorem pidsAreValid_encode (rest : List UInt8) :
    ∀ {ps : List UInt16}, (∀ p ∈ ps, p.toNat < asPartitions) →
      pidsAreValid ps.length (encodePids ps ++ rest) = some true
  | [], _ => rfl
  | p :: ps, h => by
    have hp := h p (List.mem_cons_self ..)
    simp only [List.length_cons, pidsAreValid, encodePids_cons, List.append_assoc,
      leRead?_leBytes_append, toNat_mod_of_lt_asPartitions hp, Option.bind_eq_bind, Option.bind_some]
    rw [if_neg (by omega), List.drop_left' (length_leBytes 2 _)]
    exact pidsAreValid_encode rest fun q hq => h q (List.mem_cons_of_mem p hq)

theorem pidsAreValid_isSome : ∀ (n : ℕ) {pids : List UInt8}, 2 * n ≤ pids.length →
    (pidsAreValid n pids).isSome
  | 0, _, _ => rfl
  | n + 1, pids, h => by
    simp only [pidsAreValid, leRead?_eq_some (by omega : 2 ≤ pids.length), Option.bind_eq_bind,
      Option.bind_some]
    split
    · rfl
    · exact pidsAreValid_isSome n (by simp; omega)

theorem pidsAreValid_eq_true : ∀ (n : ℕ) {pids : List UInt8}, pidsAreValid n pids = some true →
    ∃ ps : List UInt16, ps.length = n ∧ (∀ p ∈ ps, p.toNat < asPartitions) ∧
      pids = encodePids ps ++ pids.drop (2 * n)
  | 0, pids, _ => ⟨[], rfl, nofun, by simp⟩
  | n + 1, pids, h => by
    by_cases hlen : 2 ≤ pids.length
    · simp only [pidsAreValid, leRead?_eq_some hlen, Option.bind_eq_bind, Option.bind_some] at h
      split at h
      · cases h
      · rename_i hlt
        obtain ⟨ps, hps, hlt', htail⟩ := pidsAreValid_eq_true n h
        have hv := leValue_lt (pids.take 2)
        have hlen2 : (pids.take 2).length = 2 := by simp; omega
        rw [hlen2] at hv
        refine ⟨(leValue (pids.take 2)).toUInt16 :: ps, by simp [hps], ?_, ?_⟩
        · intro p hp
          rcases List.mem_cons.mp hp with rfl | hp
          · rw [UInt16.toNat_ofNat_of_lt' (by omega)]
            omega
          · exact hlt' p hp
        · have htake : leBytes 2 (leValue (pids.take 2)) = pids.take 2 := by
            simpa [hlen2] using leBytes_leValue (pids.take 2)
          rw [List.drop_drop] at htail
          rw [encodePids_cons, UInt16.toNat_ofNat_of_lt' (by omega), htake, List.append_assoc,
            show 2 * (n + 1) = 2 + 2 * n by omega, ← htail]
          exact (List.take_append_drop 2 pids).symm
    · simp [pidsAreValid, leRead?_eq_none (by omega : pids.length < 2)] at h

theorem vinfosAreValid_encode (rest : List UInt8) :
    ∀ {E : List (AsPartitionVersion × List UInt16)}, (∀ e ∈ E, PidsWf e.2) →
      vinfosAreValid E.length ((E.map encodeVinfoPayload).flatten ++ rest) = some rest.isEmpty
  | [], _ => by simp [vinfosAreValid]
  | e :: E, h => by
    obtain ⟨hle, hlt⟩ := h e (List.mem_cons_self ..)
    have hlen := length_encodeVinfoPayload e
    have hnot : ¬(encodeVinfoPayload e ++ ((E.map encodeVinfoPayload).flatten ++ rest)).length <
        vinfoPayloadSize + e.2.length * 2 := by simp only [List.length_append]; omega
    simp only [List.length_cons, List.map_cons, List.flatten_cons, List.append_assoc, vinfosAreValid]
    have hne : ¬(encodeVinfoPayload e ++ ((E.map encodeVinfoPayload).flatten ++ rest)).isEmpty := by
      rw [List.isEmpty_iff_length_eq_zero, List.length_append]
      simp only [vinfoPayloadSize] at hlen
      omega
    rw [if_neg hne, if_neg (by simp only [List.length_append, vinfoPayloadSize] at hnot ⊢; omega),
      encodeVinfoPayload_drop_eight,
      leRead?_leBytes_append, length_mod_of_le_asPartitions hle]
    simp only [Option.bind_eq_bind, Option.bind_some]
    rw [if_neg (by omega), if_neg hnot, encodeVinfoPayload_drop_header, pidsAreValid_encode _ hlt]
    simp only [Option.bind_some, Bool.not_true, Bool.false_eq_true, if_false]
    rw [encodeVinfoPayload_drop_all]
    exact vinfosAreValid_encode rest fun e' he' => h e' (List.mem_cons_of_mem e he')

theorem vinfosAreValid_isSome : ∀ (n : ℕ) (rest : List UInt8), (vinfosAreValid n rest).isSome
  | 0, _ => rfl
  | n + 1, rest => by
    have h12 : vinfoPayloadSize = 12 := rfl
    unfold vinfosAreValid
    split_ifs with hempty hshort
    · rfl
    · rfl
    · rw [leRead?_eq_some (by simp; omega)]
      simp only [Option.bind_eq_bind, Option.bind_some]
      split_ifs with hbig hfit
      · rfl
      · rfl
      · obtain ⟨ok, hok⟩ := Option.isSome_iff_exists.mp
          (pidsAreValid_isSome _ (by simp only [List.length_drop]; omega) :
            (pidsAreValid (leValue ((rest.drop 8).take 4)) (rest.drop vinfoPayloadSize)).isSome)
        rw [hok]
        cases ok
        · rfl
        · exact vinfosAreValid_isSome n _

theorem vinfosAreValid_eq_true : ∀ (n : ℕ) {rest : List UInt8}, vinfosAreValid n rest = some true →
    ∃ E : List (AsPartitionVersion × List UInt16), E.length = n ∧ (∀ e ∈ E, PidsWf e.2) ∧
      rest = (E.map encodeVinfoPayload).flatten
  | 0, rest, h => ⟨[], rfl, nofun, by simpa [vinfosAreValid] using h⟩
  | n + 1, rest, h => by
    have h12 : vinfoPayloadSize = 12 := rfl
    unfold vinfosAreValid at h
    split_ifs at h with hempty hshort
    · cases h
    · cases h
    rw [leRead?_eq_some (by simp; omega)] at h
    simp only [Option.bind_eq_bind, Option.bind_some] at h
    split_ifs at h with hbig hfit
    · cases h
    · cases h
    set numPids := leValue ((rest.drop 8).take 4) with hnum
    cases hok : pidsAreValid numPids (rest.drop vinfoPayloadSize) with
    | none => rw [hok] at h; cases h
    | some ok =>
      rw [hok] at h
      cases ok
      · cases h
      obtain ⟨ps, hps, hlt, hpids⟩ := pidsAreValid_eq_true numPids hok
      obtain ⟨E, hE, hwf, htail⟩ := vinfosAreValid_eq_true n (by simpa using h)
      have hword : (leValue (rest.take 8)).toUInt64.toNat = leValue (rest.take 8) := by
        have := leValue_lt (rest.take 8)
        rw [List.length_take_of_le (by omega)] at this
        exact UInt64.toNat_ofNat_of_lt' (by simpa using this)
      have h8 : leBytes 8 (leValue (rest.take 8)) = rest.take 8 := by
        simpa [List.length_take_of_le (by omega : 8 ≤ rest.length)] using
          leBytes_leValue (rest.take 8)
      have h4 : leBytes 4 numPids = (rest.drop 8).take 4 := by
        simpa [List.length_take_of_le (by simp; omega : 4 ≤ (rest.drop 8).length)] using
          leBytes_leValue ((rest.drop 8).take 4)
      refine ⟨(⟨(leValue (rest.take 8)).toUInt64⟩, ps) :: E, by simp [hE],
        fun e he => ?_, ?_⟩
      · rcases List.mem_cons.mp he with rfl | he
        · exact ⟨by rw [hps]; omega, hlt⟩
        · exact hwf e he
      · have hmid : encodePids ps ++ rest.drop (vinfoPayloadSize + numPids * 2) =
            rest.drop vinfoPayloadSize := by
          rw [hpids, List.drop_drop, Nat.mul_comm 2 numPids]
        have hsplit : rest.drop vinfoPayloadSize = (rest.drop 8).drop 4 := by
          rw [List.drop_drop, h12]
        rw [List.map_cons, List.flatten_cons, ← htail, encodeVinfoPayload]
        simp only [hword, h8, hps, h4]
        rw [List.append_assoc, List.append_assoc, hmid, hsplit, List.take_append_drop,
          List.take_append_drop]

theorem exchangeNamespacePayloadIsValid_isSome (nsPayload : List UInt8) :
    (exchangeNamespacePayloadIsValid nsPayload).isSome := by
  unfold exchangeNamespacePayloadIsValid
  split_ifs with hshort
  · rfl
  · rw [leRead?_eq_some (by omega)]
    simp only [Option.bind_eq_bind, Option.bind_some]
    split_ifs
    · rfl
    · exact vinfosAreValid_isSome _ _

theorem exchangeNamespacePayloadIsValid_encode {E : List (AsPartitionVersion × List UInt16)}
    (hwf : VinfosWf E) : exchangeNamespacePayloadIsValid (encodeNsVinfosPayload E) = some true := by
  have hlen : ¬(encodeNsVinfosPayload E).length < 4 := by simp [encodeNsVinfosPayload]
  unfold exchangeNamespacePayloadIsValid
  rw [if_neg hlen, encodeNsVinfosPayload, leRead?_leBytes_append,
    length_mod_of_le_asPartitions hwf.length_le]
  simp only [Option.bind_eq_bind, Option.bind_some]
  rw [if_neg (by have := hwf.length_le; omega), List.drop_left' (length_leBytes 4 _)]
  simpa using vinfosAreValid_encode [] hwf.pids_wf

theorem encode_of_exchangeNamespacePayloadIsValid {nsPayload : List UInt8}
    (h : exchangeNamespacePayloadIsValid nsPayload = some true) :
    ∃ E, VinfosWf E ∧ nsPayload = encodeNsVinfosPayload E := by
  unfold exchangeNamespacePayloadIsValid at h
  split_ifs at h with hshort
  · cases h
  rw [leRead?_eq_some (by omega)] at h
  simp only [Option.bind_eq_bind, Option.bind_some] at h
  split_ifs at h with hbig
  · cases h
  obtain ⟨E, hE, hwf, hrest⟩ := vinfosAreValid_eq_true _ h
  have h4 : leBytes 4 E.length = nsPayload.take 4 := by
    simpa [hE, List.length_take_of_le (by omega : 4 ≤ nsPayload.length)] using
      leBytes_leValue (nsPayload.take 4)
  refine ⟨E, ⟨by omega, hwf⟩, ?_⟩
  rw [encodeNsVinfosPayload, h4, ← hrest, List.take_append_drop]

/-- `exchange_namespace_payload_is_valid` never reads past the payload, and it
accepts exactly the payloads of at most `AS_PARTITIONS` versions, each with at
most `AS_PARTITIONS` pids below `AS_PARTITIONS`, with nothing after them. -/
theorem exchangeNamespacePayloadIsValid_spec (nsPayload : List UInt8) :
    (exchangeNamespacePayloadIsValid nsPayload).isSome ∧
      (exchangeNamespacePayloadIsValid nsPayload = some true ↔
        ∃ E, VinfosWf E ∧ nsPayload = encodeNsVinfosPayload E) := by
  refine ⟨exchangeNamespacePayloadIsValid_isSome nsPayload, encode_of_exchangeNamespacePayloadIsValid, ?_⟩
  rintro ⟨E, hwf, rfl⟩
  exact exchangeNamespacePayloadIsValid_encode hwf

end Check

/-! ### The commit -/

/-- The pairs of pid and version that a list of versions and their pids
writes, in order. -/
def pidVersions (E : List (AsPartitionVersion × List UInt16)) : List (ℕ × AsPartitionVersion) :=
  E.flatMap fun e => e.2.map fun p => (p.toNat, e.1)

def writeRow (row : ℕ → AsPartitionVersion) (pairs : List (ℕ × AsPartitionVersion)) :
    ℕ → AsPartitionVersion :=
  pairs.foldl (fun f q => Function.update f q.1 q.2) row

section Commit

theorem commitPids_encode (v : AsPartitionVersion) (rest : List UInt8) :
    ∀ {ps : List UInt16} (row : ℕ → AsPartitionVersion), (∀ p ∈ ps, p.toNat < asPartitions) →
      commitPids v row ps.length (encodePids ps ++ rest) =
        some (writeRow row (ps.map fun p => (p.toNat, v)))
  | [], _, _ => rfl
  | p :: ps, row, h => by
    have hp := h p (List.mem_cons_self ..)
    simp only [List.length_cons, commitPids, encodePids_cons, List.append_assoc,
      leRead?_leBytes_append, toNat_mod_of_lt_asPartitions hp, Option.bind_eq_bind, Option.bind_some]
    rw [if_pos hp, List.drop_left' (length_leBytes 2 _),
      commitPids_encode v rest _ fun q hq => h q (List.mem_cons_of_mem p hq)]
    rfl

theorem commitVinfos_encode (rest : List UInt8) :
    ∀ {E : List (AsPartitionVersion × List UInt16)} (row : ℕ → AsPartitionVersion),
      (∀ e ∈ E, PidsWf e.2) →
      commitVinfos row E.length ((E.map encodeVinfoPayload).flatten ++ rest) =
        some (writeRow row (pidVersions E))
  | [], _, _ => rfl
  | e :: E, row, h => by
    obtain ⟨hle, hlt⟩ := h e (List.mem_cons_self ..)
    simp only [List.length_cons, List.map_cons, List.flatten_cons, List.append_assoc, commitVinfos]
    rw [leRead?_encodeVinfoPayload, encodeVinfoPayload_drop_eight, leRead?_leBytes_append,
      length_mod_of_le_asPartitions hle]
    simp only [Option.bind_eq_bind, Option.bind_some]
    have hw : (⟨e.1.word.toNat.toUInt64⟩ : AsPartitionVersion) = e.1 :=
      congrArg AsPartitionVersion.mk UInt64.ofNat_toNat
    rw [encodeVinfoPayload_drop_header, hw, commitPids_encode _ _ _ hlt]
    simp only [Option.bind_some]
    rw [encodeVinfoPayload_drop_all,
      commitVinfos_encode rest _ fun e' he' => h e' (List.mem_cons_of_mem e he')]
    simp [writeRow, pidVersions, List.foldl_append]

theorem exchangeNamespacePayloadCommitForNode_encode (ns : NsClusterData) (node : UInt64)
    (rackId : UInt32) {E : List (AsPartitionVersion × List UInt16)} (hwf : VinfosWf E)
    (hsz : ns.clusterSize < asClusterSz) :
    exchangeNamespacePayloadCommitForNode ns node (encodeNsVinfosPayload E) rackId =
      some ⟨ns.clusterSize + 1, Function.update ns.succession ns.clusterSize node,
        Function.update ns.clusterVersions ns.clusterSize
          (writeRow (ns.clusterVersions ns.clusterSize) (pidVersions E)),
        Function.update ns.rackIds ns.clusterSize rackId⟩ := by
  unfold exchangeNamespacePayloadCommitForNode
  rw [if_pos hsz, encodeNsVinfosPayload, leRead?_leBytes_append,
    length_mod_of_le_asPartitions hwf.length_le]
  simp only [Option.bind_eq_bind, Option.bind_some]
  rw [List.drop_left' (length_leBytes 4 _)]
  have := commitVinfos_encode [] (ns.clusterVersions ns.clusterSize) hwf.pids_wf
  rw [List.append_nil] at this
  rw [this]
  rfl

theorem writeRow_of_le {E : List (AsPartitionVersion × List UInt16)} (hwf : VinfosWf E)
    (row : ℕ → AsPartitionVersion) {pid : ℕ} (hpid : asPartitions ≤ pid) :
    writeRow row (pidVersions E) pid = row pid := by
  have hl : (pidVersions E).reverse.lookup pid = none := by
    refine List.lookup_eq_none_iff.mpr fun q hq => ?_
    obtain ⟨e, he, hqe⟩ := List.mem_flatMap.mp (List.mem_reverse.mp hq)
    obtain ⟨p, hp, rfl⟩ := List.mem_map.mp hqe
    have := (hwf.pids_wf e he).2 p hp
    rw [bne_iff_ne]
    omega
  rw [writeRow, KeyList.foldl_update_apply, hl]
  rfl

/-- The commit of a payload the check accepts reads nothing past the payload
and writes nothing past the slot's row: the node takes the next slot, and of
all the rows only that slot's entries below `AS_PARTITIONS` change. -/
theorem exchangeNamespacePayloadCommitForNode_of_isValid {nsPayload : List UInt8}
    (hv : exchangeNamespacePayloadIsValid nsPayload = some true) {ns : NsClusterData}
    (hsz : ns.clusterSize < asClusterSz) (node : UInt64) (rackId : UInt32) :
    ∃ ns', exchangeNamespacePayloadCommitForNode ns node nsPayload rackId = some ns' ∧
      ns'.clusterSize = ns.clusterSize + 1 ∧ ns'.succession ns.clusterSize = node ∧
      ns'.rackIds ns.clusterSize = rackId ∧
      ∀ k pid, k ≠ ns.clusterSize ∨ asPartitions ≤ pid →
        ns'.clusterVersions k pid = ns.clusterVersions k pid := by
  obtain ⟨E, hwf, rfl⟩ := encode_of_exchangeNamespacePayloadIsValid hv
  refine ⟨_, exchangeNamespacePayloadCommitForNode_encode ns node rackId hwf hsz, rfl, by simp,
    by simp, fun k pid hk => ?_⟩
  rcases hk with hk | hpid
  · simp [Function.update_of_ne hk]
  · by_cases hks : k = ns.clusterSize
    · subst hks
      simp only [Function.update_self]
      exact writeRow_of_le hwf _ hpid
    · simp [Function.update_of_ne hks]

theorem exchangeNamespacePayloadCommitForNode_of_isValid_sample :
    exchangeNamespacePayloadIsValid [1, 0, 0, 0, 5, 0, 0, 0, 0, 0, 0, 0, 1, 0, 0, 0, 7, 0] = some true ∧
      NsClusterData.cleared.clusterSize < asClusterSz ∧
      ∃ ns', exchangeNamespacePayloadCommitForNode NsClusterData.cleared 3
          [1, 0, 0, 0, 5, 0, 0, 0, 0, 0, 0, 0, 1, 0, 0, 0, 7, 0] 0 = some ns' ∧
        ns'.clusterSize = NsClusterData.cleared.clusterSize + 1 ∧
        ns'.succession NsClusterData.cleared.clusterSize = 3 ∧
        ns'.rackIds NsClusterData.cleared.clusterSize = 0 ∧
        ∀ k pid, k ≠ NsClusterData.cleared.clusterSize ∨ asPartitions ≤ pid →
          ns'.clusterVersions k pid = NsClusterData.cleared.clusterVersions k pid :=
  ⟨by decide, by decide, exchangeNamespacePayloadCommitForNode_of_isValid (by decide) (by decide) 3 0⟩

end Commit

/-! ### The serializer -/

/-- The pids below `k` whose partition has version `v`, in order. -/
def pidsWithVersion (partitions : ℕ → AsPartitionVersion) (k : ℕ) (v : AsPartitionVersion) :
    List UInt16 :=
  ((List.range k).filter fun i => partitions i = v).map Nat.toUInt16

/-- The namespace hash after the first `k` partitions, as a map: each non-null
version that one of them has, with their pids in order. -/
def versionPids (partitions : ℕ → AsPartitionVersion) (k : ℕ) (v : AsPartitionVersion) :
    Option (List UInt16) :=
  if asPartitionVersionIsNull v = false ∧ pidsWithVersion partitions k v ≠ [] then
    some (pidsWithVersion partitions k v)
  else none

section Versions

variable (partitions : ℕ → AsPartitionVersion)

theorem pidsWithVersion_succ (k : ℕ) (v : AsPartitionVersion) :
    pidsWithVersion partitions (k + 1) v =
      pidsWithVersion partitions k v ++ if partitions k = v then [k.toUInt16] else [] := by
  unfold pidsWithVersion
  rw [List.range_succ, List.filter_append, List.map_append]
  split_ifs with h <;> simp [h]

theorem mem_pidsWithVersion {k : ℕ} {v : AsPartitionVersion} {p : UInt16} :
    p ∈ pidsWithVersion partitions k v ↔ ∃ i < k, partitions i = v ∧ i.toUInt16 = p := by
  simp [pidsWithVersion, and_assoc]

theorem length_pidsWithVersion_le (k : ℕ) (v : AsPartitionVersion) :
    (pidsWithVersion partitions k v).length ≤ k := by
  simpa [pidsWithVersion] using List.length_filter_le _ (List.range k)

theorem toNat_of_mem_pidsWithVersion {v : AsPartitionVersion} {p : UInt16}
    (hp : p ∈ pidsWithVersion partitions asPartitions v) :
    p.toNat < asPartitions ∧ partitions p.toNat = v := by
  obtain ⟨i, hi, hv, rfl⟩ := (mem_pidsWithVersion partitions).mp hp
  rw [UInt16.toNat_ofNat_of_lt' (lt_of_lt_of_le hi (by decide))]
  exact ⟨hi, hv⟩

theorem getD_versionPids {k : ℕ} {v : AsPartitionVersion} (hv : asPartitionVersionIsNull v = false) :
    (versionPids partitions k v).getD [] = pidsWithVersion partitions k v := by
  unfold versionPids
  by_cases h : pidsWithVersion partitions k v = []
  · rw [if_neg (by simp [h]), h]
    rfl
  · rw [if_pos ⟨hv, h⟩]
    rfl

theorem eq_of_versionPids {k : ℕ} {v : AsPartitionVersion} {ps : List UInt16}
    (h : versionPids partitions k v = some ps) :
    asPartitionVersionIsNull v = false ∧ ps = pidsWithVersion partitions k v ∧ ps ≠ [] := by
  unfold versionPids at h
  split_ifs at h with hc
  obtain rfl := Option.some.inj h
  exact ⟨hc.1, rfl, hc.2⟩

theorem versionPids_succ (k : ℕ) :
    versionPids partitions (k + 1) =
      if asPartitionVersionIsNull (partitions k) then versionPids partitions k
      else Function.update (versionPids partitions k) (partitions k)
        (some ((versionPids partitions k (partitions k)).getD [] ++ [k.toUInt16])) := by
  funext v
  split_ifs with hnull
  · unfold versionPids
    rw [pidsWithVersion_succ]
    by_cases hv : partitions k = v
    · subst hv
      simp [hnull]
    · simp [hv]
  · by_cases hv : v = partitions k
    · subst hv
      have hnull' : asPartitionVersionIsNull (partitions k) = false := by simpa using hnull
      rw [Function.update_self, getD_versionPids partitions hnull', versionPids, if_pos]
      · simp [pidsWithVersion_succ]
      · simp [pidsWithVersion_succ, hnull']
    · rw [Function.update_of_ne hv]
      unfold versionPids
      simp [pidsWithVersion_succ, Ne.symm hv]

end Versions

section Serialize

theorem encodePids_append (ps qs : List UInt16) :
    encodePids (ps ++ qs) = encodePids ps ++ encodePids qs := by
  simp [encodePids]

theorem serializePidsLoop (pids : List UInt16) (buf : List UInt8) : ∀ k ≤ pids.length,
    (List.range k).foldl (fun buf i => buf ++ leBytes 2 (pids.getD i 0).toNat) buf =
      buf ++ encodePids (pids.take k)
  | 0, _ => by simp
  | k + 1, hk => by
    rw [List.range_succ, List.foldl_append, serializePidsLoop pids buf k (by omega), List.take_add_one,
      List.getElem?_eq_getElem (by omega), Option.toList_some, encodePids_append]
    simp [List.getD_eq_getElem?_getD, List.getElem?_eq_getElem (by omega : k < pids.length)]

theorem exchangeNamespaceHashSerializeReduce_eq (buf : List UInt8)
    (e : AsPartitionVersion × List UInt16) (hlen : e.2.length < 2 ^ 32) :
    exchangeNamespaceHashSerializeReduce buf e.1 e.2 = (cfShashOk, buf ++ encodeVinfoPayload e) := by
  have hnum : e.2.length.toUInt32.toNat = e.2.length := UInt32.toNat_ofNat_of_lt' hlen
  simp only [exchangeNamespaceHashSerializeReduce, hnum, serializePidsLoop e.2 _ _ le_rfl,
    List.take_length, encodeVinfoPayload, List.append_assoc]

theorem foldl_serializeReduce : ∀ (E : List (AsPartitionVersion × List UInt16)) (buf : List UInt8),
    (∀ e ∈ E, e.2.length < 2 ^ 32) →
      E.foldl (fun u p => (exchangeNamespaceHashSerializeReduce u p.1 p.2).2) buf =
        buf ++ (E.map encodeVinfoPayload).flatten
  | [], buf, _ => by simp
  | e :: E, buf, h => by
    rw [List.foldl_cons, exchangeNamespaceHashSerializeReduce_eq buf e (h e (List.mem_cons_self ..)),
      foldl_serializeReduce E _ fun e' he' => h e' (List.mem_cons_of_mem e he')]
    simp

theorem exchangeNamespaceHashPidAdd_spec {nsHash : CfShash AsPartitionVersion (List UInt16)}
    (hOk : nsHash.Ok) (vinfo : AsPartitionVersion) (pid : UInt16) :
    (exchangeNamespaceHashPidAdd nsHash vinfo pid).Ok ∧
      (exchangeNamespaceHashPidAdd nsHash vinfo pid).toMap =
        if asPartitionVersionIsNull vinfo then nsHash.toMap
        else Function.update nsHash.toMap vinfo (some ((nsHash.toMap vinfo).getD [] ++ [pid])) := by
  unfold exchangeNamespaceHashPidAdd
  split_ifs with hnull
  · exact ⟨hOk, rfl⟩
  · cases hv : nsHash.toMap vinfo with
    | none =>
      obtain ⟨hOk₁, hmap₁⟩ := put_spec hOk vinfo []
      obtain ⟨hOk₂, hmap₂⟩ := put_spec hOk₁ vinfo ([] ++ [pid])
      simp only [get_spec hOk vinfo, hv]
      rw [if_pos (by decide)]
      refine ⟨hOk₂, ?_⟩
      rw [hmap₂, hmap₁, Function.update_idem]
      rfl
    | some ps =>
      obtain ⟨hOk₁, hmap₁⟩ := put_spec hOk vinfo (ps ++ [pid])
      simp only [get_spec hOk vinfo, hv]
      rw [if_neg (fun h => h rfl)]
      exact ⟨hOk₁, hmap₁⟩

theorem pidAddLoop_spec (partitions : ℕ → AsPartitionVersion)
    {nsHash : CfShash AsPartitionVersion (List UInt16)} (hOk : nsHash.Ok)
    (hmap : nsHash.toMap = fun _ => none) : ∀ k : ℕ,
    ((List.range k).foldl (fun nsHash i => exchangeNamespaceHashPidAdd nsHash (partitions i) i.toUInt16)
        nsHash).Ok ∧
      ((List.range k).foldl (fun nsHash i =>
        exchangeNamespaceHashPidAdd nsHash (partitions i) i.toUInt16) nsHash).toMap =
        versionPids partitions k
  | 0 => ⟨hOk, by
    simp only [List.range_zero, List.foldl_nil, hmap]
    funext v
    simp [versionPids, pidsWithVersion]⟩
  | k + 1 => by
    obtain ⟨hOk', hmap'⟩ := pidAddLoop_spec partitions hOk hmap k
    rw [List.range_succ, List.foldl_append, List.foldl_cons, List.foldl_nil]
    obtain ⟨hOk'', hmap''⟩ := exchangeNamespaceHashPidAdd_spec hOk' (partitions k) k.toUInt16
    exact ⟨hOk'', by rw [hmap'', hmap', versionPids_succ]⟩

/-- `exchange_data_namespace_payload_add` appends the payload of a list of
pairs that enumerates `versionPids`: each non-null version, once, with its
partitions' pids in order. -/
theorem exchangeDataNamespacePayloadAdd_eq (partitions : ℕ → AsPartitionVersion)
    (dynBuf : List UInt8) :
    ∃ E, exchangeDataNamespacePayloadAdd partitions dynBuf = some (dynBuf ++ encodeNsVinfosPayload E) ∧
      KeyList.Enumerates (versionPids partitions asPartitions) E := by
  obtain ⟨h₀, hc⟩ : ∃ h₀, cfShashCreate (V := List UInt16) exchangeVinfoShash
      asExchangeUniqueVinfoMaxSizeSoft = some h₀ := by
    rw [cfShashCreate, if_neg (by decide)]
    exact ⟨_, rfl⟩
  obtain ⟨hOk₀, hmap₀⟩ := cfShashCreate_ok hc
  obtain ⟨hOk, hmap⟩ := pidAddLoop_spec partitions hOk₀ hmap₀ asPartitions
  set nsHash := (List.range asPartitions).foldl
    (fun nsHash i => exchangeNamespaceHashPidAdd nsHash (partitions i) i.toUInt16) h₀
  have hE : KeyList.Enumerates (versionPids partitions asPartitions)
      (nsHash.table.map ShashBucket.entries).flatten := hmap ▸ hOk.enumerates
  refine ⟨_, ?_, hE⟩
  have hlen : ∀ e ∈ (nsHash.table.map ShashBucket.entries).flatten, e.2.length < 2 ^ 32 := by
    intro e he
    obtain ⟨-, hps, -⟩ := eq_of_versionPids partitions (hE.apply_of_mem he)
    have := length_pidsWithVersion_le partitions asPartitions e.1
    rw [hps]
    exact lt_of_le_of_lt this (by decide)
  have hsize : leBytes 4 (cfShashGetSize nsHash).toUInt32.toNat =
      leBytes 4 (nsHash.table.map ShashBucket.entries).flatten.length := by
    rw [UInt32.toNat_ofNat', show 2 ^ 32 = 256 ^ 4 by norm_num, leBytes_mod, cfShashGetSize,
      hOk.length_entries]
  unfold exchangeDataNamespacePayloadAdd
  rw [hc]
  simp only [Option.bind_eq_bind, Option.bind_some]
  rw [(reduce_spec hOk _ _).2.2.1, reducePairs_of_ok (fun _ _ _ => rfl), foldl_serializeReduce _ _ hlen,
    hsize, encodeNsVinfosPayload, List.append_assoc]

end Serialize

/-! ### Round trip -/

/-- The version a node's row holds for a pid after its payload is committed
over a cleared row: the partition's version, or zero for a null one. -/
def committedVersion (partitions : ℕ → AsPartitionVersion) (pid : ℕ) : AsPartitionVersion :=
  if pid < asPartitions ∧ asPartitionVersionIsNull (partitions pid) = false then partitions pid
  else AsPartitionVersion.zero

section RoundTrip

variable {partitions : ℕ → AsPartitionVersion} {E : List (AsPartitionVersion × List UInt16)}
  (hE : KeyList.Enumerates (versionPids partitions asPartitions) E)
include hE

theorem vinfosWf_of_enumerates : VinfosWf E := by
  have hpids : ∀ e ∈ E, e.2 = pidsWithVersion partitions asPartitions e.1 ∧ e.2 ≠ [] := fun e he =>
    (eq_of_versionPids partitions (hE.apply_of_mem he)).2
  refine ⟨?_, fun e he => ⟨?_, fun p hp => ?_⟩⟩
  · have hsub : E.map Prod.fst ⊆ (List.range asPartitions).map partitions := by
      intro v hv
      obtain ⟨e, he, rfl⟩ := List.mem_map.mp hv
      obtain ⟨hps, hne⟩ := hpids e he
      obtain ⟨p, hp⟩ := List.exists_mem_of_ne_nil _ hne
      rw [hps] at hp
      obtain ⟨hlt, hv⟩ := toNat_of_mem_pidsWithVersion partitions hp
      exact List.mem_map.mpr ⟨p.toNat, List.mem_range.mpr hlt, hv⟩
    simpa using List.Nodup.length_le_of_subset hE.1 hsub
  · rw [(hpids e he).1]
    exact length_pidsWithVersion_le partitions asPartitions e.1
  · rw [(hpids e he).1] at hp
    exact (toNat_of_mem_pidsWithVersion partitions hp).1

theorem mem_pidVersions (q : ℕ) (v : AsPartitionVersion) :
    (q, v) ∈ pidVersions E ↔
      q < asPartitions ∧ asPartitionVersionIsNull (partitions q) = false ∧ v = partitions q := by
  constructor
  · intro h
    obtain ⟨e, he, hq⟩ := List.mem_flatMap.mp h
    obtain ⟨p, hp, hpq⟩ := List.mem_map.mp hq
    obtain ⟨hnull, hps, -⟩ := eq_of_versionPids partitions (hE.apply_of_mem he)
    rw [hps] at hp
    obtain ⟨hlt, hv⟩ := toNat_of_mem_pidsWithVersion partitions hp
    obtain ⟨rfl, rfl⟩ := Prod.mk.inj hpq
    exact ⟨hlt, hv ▸ hnull, hv.symm⟩
  · rintro ⟨hlt, hnull, rfl⟩
    have hmem : q.toUInt16 ∈ pidsWithVersion partitions asPartitions (partitions q) :=
      (mem_pidsWithVersion partitions).mpr ⟨q, hlt, rfl, rfl⟩
    have hsome : versionPids partitions asPartitions (partitions q) =
        some (pidsWithVersion partitions asPartitions (partitions q)) := by
      rw [versionPids, if_pos ⟨hnull, List.ne_nil_of_mem hmem⟩]
    obtain ⟨l₁, l₂, hl, -⟩ := List.lookup_eq_some_iff.mp ((hE.2 _).trans hsome)
    have he : (partitions q, pidsWithVersion partitions asPartitions (partitions q)) ∈ E := by
      rw [hl]
      exact List.mem_append_right l₁ (List.mem_cons_self ..)
    have hq : q.toUInt16.toNat = q := by
      have h16 : asPartitions ≤ UInt16.size := by decide
      exact UInt16.toNat_ofNat_of_lt' (lt_of_lt_of_le hlt h16)
    have hmap : (q, partitions q) ∈
        (pidsWithVersion partitions asPartitions (partitions q)).map fun p => (p.toNat, partitions q) := by
      have := List.mem_map_of_mem (f := fun p : UInt16 => (p.toNat, partitions q)) hmem
      rwa [hq] at this
    rw [pidVersions, List.mem_flatMap]
    refine ⟨(partitions q, pidsWithVersion partitions asPartitions (partitions q)), he, ?_⟩
    dsimp only
    exact hmap

theorem writeRow_pidVersions (row : ℕ → AsPartitionVersion) (pid : ℕ) :
    writeRow row (pidVersions E) pid =
      if pid < asPartitions ∧ asPartitionVersionIsNull (partitions pid) = false then partitions pid
      else row pid := by
  rw [writeRow, KeyList.foldl_update_apply]
  split_ifs with hc
  · have hmem : (pid, partitions pid) ∈ (pidVersions E).reverse :=
      List.mem_reverse.mpr ((mem_pidVersions hE pid _).mpr ⟨hc.1, hc.2, rfl⟩)
    cases hl : (pidVersions E).reverse.lookup pid with
    | none =>
      have := List.lookup_eq_none_iff.mp hl _ hmem
      simp at this
    | some w =>
      obtain ⟨l₁, l₂, heq, -⟩ := List.lookup_eq_some_iff.mp hl
      have hw : (pid, w) ∈ pidVersions E :=
        List.mem_reverse.mp (heq ▸ List.mem_append_right l₁ (List.mem_cons_self ..))
      exact ((mem_pidVersions hE pid w).mp hw).2.2.symm ▸ rfl
  · have hl : (pidVersions E).reverse.lookup pid = none := by
      refine List.lookup_eq_none_iff.mpr fun q hq => ?_
      obtain ⟨hlt, hnull, -⟩ := (mem_pidVersions hE q.1 q.2).mp (List.mem_reverse.mp hq)
      rw [bne_iff_ne]
      rintro rfl
      exact hc ⟨hlt, hnull⟩
    rw [hl]
    rfl

end RoundTrip

/-- A node's payload, built by `exchange_data_namespace_payload_add`, passes the
check, and its commit gives the node the next slot with its rack id and, over
the slot's row, each partition's non-null version. -/
theorem exchangeNamespacePayloadCommitForNode_payloadAdd (partitions : ℕ → AsPartitionVersion)
    (ns : NsClusterData) (node : UInt64) (rackId : UInt32) (hsz : ns.clusterSize < asClusterSz) :
    ∃ payload, exchangeDataNamespacePayloadAdd partitions [] = some payload ∧
      exchangeNamespacePayloadIsValid payload = some true ∧
      exchangeNamespacePayloadCommitForNode ns node payload rackId =
        some ⟨ns.clusterSize + 1, Function.update ns.succession ns.clusterSize node,
          Function.update ns.clusterVersions ns.clusterSize fun pid =>
            if pid < asPartitions ∧ asPartitionVersionIsNull (partitions pid) = false then
              partitions pid
            else ns.clusterVersions ns.clusterSize pid,
          Function.update ns.rackIds ns.clusterSize rackId⟩ := by
  obtain ⟨E, hadd, hE⟩ := exchangeDataNamespacePayloadAdd_eq partitions []
  have hwf := vinfosWf_of_enumerates hE
  rw [List.nil_append] at hadd
  refine ⟨_, hadd, exchangeNamespacePayloadIsValid_encode hwf, ?_⟩
  rw [exchangeNamespacePayloadCommitForNode_encode ns node rackId hwf hsz]
  congr 3
  funext pid
  exact writeRow_pidVersions hE _ pid

/-! ### A round of the exchange -/

/-- What each node of the succession list sends for the namespace, where it
has it: the payload `exchange_data_namespace_payload_add` builds of its
partitions, and its rack id. -/
def sentPayloads (nodes : List (UInt64 × Option ((ℕ → AsPartitionVersion) × UInt32))) :
    List (UInt64 × Option (List UInt8 × UInt32)) :=
  nodes.map fun nd =>
    (nd.1, nd.2.bind fun d => (exchangeDataNamespacePayloadAdd d.1 []).map fun payload => (payload, d.2))

/-- The nodes that have the namespace, in succession order, with their
partitions and rack ids. -/
def namespaceSenders (nodes : List (UInt64 × Option ((ℕ → AsPartitionVersion) × UInt32))) :
    List (UInt64 × (ℕ → AsPartitionVersion) × UInt32) :=
  nodes.filterMap fun nd => nd.2.map fun d => (nd.1, d)

/-- Slot `k` of the namespace holds a sender: its node, its rack id and its
committed versions. -/
structure SlotHolds (ns : NsClusterData) (k : ℕ) (s : UInt64 × (ℕ → AsPartitionVersion) × UInt32) :
    Prop where
  succession : ns.succession k = s.1
  rackId : ns.rackIds k = s.2.2
  versions : ∀ pid, ns.clusterVersions k pid = committedVersion s.2.1 pid

/-- The namespace after the commits of a list of senders: one slot each, in
order, and the rows past them still cleared. -/
structure CommittedAs (ns : NsClusterData) (S : List (UInt64 × (ℕ → AsPartitionVersion) × UInt32)) :
    Prop where
  clusterSize : ns.clusterSize = S.length
  holds : ∀ k (hk : k < S.length), SlotHolds ns k S[k]
  cleared : ∀ k, S.length ≤ k → ns.clusterVersions k = fun _ => AsPartitionVersion.zero

section Round

theorem committedAs_cleared : CommittedAs NsClusterData.cleared [] :=
  ⟨rfl, fun _ hk => absurd hk (Nat.not_lt_zero _), fun _ _ => rfl⟩

theorem CommittedAs.commit {ns : NsClusterData} {S : List (UInt64 × (ℕ → AsPartitionVersion) × UInt32)}
    (h : CommittedAs ns S) (hlt : S.length < asClusterSz) (node : UInt64)
    (partitions : ℕ → AsPartitionVersion) (rackId : UInt32) :
    ∃ payload, exchangeDataNamespacePayloadAdd partitions [] = some payload ∧
      ∃ ns', exchangeNamespacePayloadCommitForNode ns node payload rackId = some ns' ∧
        CommittedAs ns' (S ++ [(node, partitions, rackId)]) := by
  obtain ⟨payload, hadd, -, hcommit⟩ :=
    exchangeNamespacePayloadCommitForNode_payloadAdd partitions ns node rackId (h.clusterSize ▸ hlt)
  have hcs := h.clusterSize
  refine ⟨payload, hadd, _, hcommit, ⟨by simp [hcs], fun k hk => ?_, fun k hk => ?_⟩⟩
  · rw [List.length_append, List.length_singleton] at hk
    rcases Nat.lt_succ_iff_lt_or_eq.mp hk with hk | rfl
    · have hne : k ≠ ns.clusterSize := by omega
      obtain ⟨h1, h2, h3⟩ := h.holds k hk
      rw [List.getElem_append_left hk]
      exact ⟨by simp [hne, h1], by simp [hne, h2], fun pid => by simp [hne, h3]⟩
    · have hrow := h.cleared S.length le_rfl
      rw [List.getElem_append_right (le_refl _)]
      refine ⟨by simp [h.clusterSize], by simp [h.clusterSize], fun pid => ?_⟩
      simp only [List.getElem_singleton, h.clusterSize, Function.update_self, hrow, committedVersion]
  · rw [List.length_append, List.length_singleton] at hk
    have hne : k ≠ ns.clusterSize := by omega
    simp only [Function.update_of_ne hne]
    exact h.cleared k (by omega)

theorem exchangeDataCommit_foldlM : ∀ (nodes : List (UInt64 × Option ((ℕ → AsPartitionVersion) × UInt32)))
    {ns : NsClusterData} {S : List (UInt64 × (ℕ → AsPartitionVersion) × UInt32)},
    CommittedAs ns S → S.length + (namespaceSenders nodes).length ≤ asClusterSz →
    ∃ ns', (sentPayloads nodes).foldlM (fun ns nodeData => match nodeData.2 with
        | some (payload, rackId) => exchangeNamespacePayloadCommitForNode ns nodeData.1 payload rackId
        | none => some ns) ns = some ns' ∧ CommittedAs ns' (S ++ namespaceSenders nodes)
  | [], ns, S, h, _ => ⟨ns, rfl, by simpa [namespaceSenders] using h⟩
  | nd :: nodes, ns, S, h, hlen => by
    obtain ⟨node, d⟩ := nd
    cases d with
    | none =>
      have := exchangeDataCommit_foldlM nodes h (by simpa [namespaceSenders] using hlen)
      simpa [sentPayloads, namespaceSenders] using this
    | some d =>
      obtain ⟨partitions, rackId⟩ := d
      have hlt : S.length < asClusterSz := by simp [namespaceSenders] at hlen; omega
      obtain ⟨payload, hadd, ns', hcommit, h'⟩ := h.commit hlt node partitions rackId
      obtain ⟨ns'', hrun, h''⟩ := exchangeDataCommit_foldlM nodes h'
        (by simp [namespaceSenders] at hlen ⊢; omega)
      refine ⟨ns'', ?_, by simpa [namespaceSenders] using h''⟩
      simp only [sentPayloads, List.map_cons, List.foldlM_cons, Option.bind_some, hadd,
        Option.map_some] at hrun ⊢
      rw [hcommit]
      exact hrun

/-- A round of the exchange for one namespace: every payload the nodes build
passes the receiver's check, and the commits in succession order give the
`k`-th node that has the namespace slot `k`, with its rack id and its
partitions' versions (null ones cleared), the rows past them left cleared. -/
theorem exchangeDataCommit_sentPayloads
    (nodes : List (UInt64 × Option ((ℕ → AsPartitionVersion) × UInt32)))
    (hlen : (namespaceSenders nodes).length ≤ asClusterSz) :
    (∀ nd ∈ sentPayloads nodes, ∀ d ∈ nd.2, exchangeNamespacePayloadIsValid d.1 = some true) ∧
      ∃ ns, exchangeDataCommitNamespace (sentPayloads nodes) = some ns ∧
        CommittedAs ns (namespaceSenders nodes) := by
  refine ⟨fun nd hnd d hd => ?_, ?_⟩
  · obtain ⟨⟨node, sent⟩, -, rfl⟩ := List.mem_map.mp hnd
    obtain ⟨⟨partitions, rackId⟩, -, hsent⟩ := Option.mem_bind_iff.mp hd
    obtain ⟨payload, hadd, rfl⟩ := Option.mem_map.mp hsent
    obtain ⟨E, hadd', hE⟩ := exchangeDataNamespacePayloadAdd_eq partitions []
    rw [hadd, List.nil_append] at hadd'
    rw [Option.some.inj hadd']
    exact exchangeNamespacePayloadIsValid_encode (vinfosWf_of_enumerates hE)
  · obtain ⟨ns, hrun, h⟩ := exchangeDataCommit_foldlM nodes committedAs_cleared (by simpa using hlen)
    exact ⟨ns, hrun, by simpa using h⟩

theorem exchangeDataCommit_sentPayloads_two :
    (namespaceSenders [(3, some (fun _ => ⟨5⟩, 0)), (4, none)]).length ≤ asClusterSz ∧
      (∀ nd ∈ sentPayloads [(3, some (fun _ => ⟨5⟩, 0)), (4, none)], ∀ d ∈ nd.2,
          exchangeNamespacePayloadIsValid d.1 = some true) ∧
        ∃ ns, exchangeDataCommitNamespace (sentPayloads [(3, some (fun _ => ⟨5⟩, 0)), (4, none)]) = some ns ∧
          CommittedAs ns (namespaceSenders [(3, some (fun _ => ⟨5⟩, 0)), (4, none)]) :=
  ⟨by decide, exchangeDataCommit_sentPayloads _ (by decide)⟩

end Round

end Aerospike.Exchange
