import BmxUpdate.JournalCodec

/-!
# The page of the local log

`DecodeRecord`, `EncodeRecord` and `ParsePage` (`update_local_log.cpp`), and the page
that `Append` builds in place over the one it loaded.

`pageOf` is the page of a history: a header, the last records with their ordinals,
zeros and a CRC.  `parsePage_pageOf` reads it back, and `appendRecord_pageOf` says that
the edits in place carry the page of a history to the page of the history with one
entry more.
-/

namespace BmxUpdate

namespace LocalLog

open Wire

def kUpdateLocalLogPageBytes : Nat := 4096

def kUpdateLocalLogRecordBytes : Nat := 32

def kUpdateLocalLogHeaderBytes : Nat := 32

def kUpdateLocalLogMaximumRecords : Nat :=
  (kUpdateLocalLogPageBytes - kUpdateLocalLogHeaderBytes - 4) / kUpdateLocalLogRecordBytes

def kLogFormatVersion : Nat := 1

def kLogCrcOffset : Nat := kUpdateLocalLogPageBytes - 4

/-- "BMXULOG" and a zero byte. -/
def kLogMagic : Bytes := [0x42, 0x4d, 0x58, 0x55, 0x4c, 0x4f, 0x47, 0]

inductive UpdateLocalLogScope where
  | online
  | bootRecovery
deriving DecidableEq, Repr

inductive UpdateLocalLogRecordKind where
  | invocation
  | state
  | progress
  | result
  | error
deriving DecidableEq, Repr

inductive UpdateLocalLogCode where
  | onlineRequested
  | onlineDiscoveryStarted
  | onlineDiscoveryAccepted
  | onlineInstallConfirmed
  | recoveryStarted
  | stateDiscovered
  | stateDownloaded
  | statePrepared
  | stateStaged
  | stateCandidatePending
  | stateCandidateHealthy
  | stateCommitting
  | stateCommitted
  | stateRollingBack
  | stateCandidateHealthEvaluated
  | progressBootInitializationMilestone
  | progressRecoveryPrecheck
  | progressTransactionStateRead
  | progressTransactionPayloadRead
  | progressTransactionCleanup
  | progressPreparedEvidenceRead
  | progressPreparedFileVerified
  | progressPreparedCleanup
  | progressCandidateFileHashed
  | progressCandidateJournalRead
  | progressInstallerFileHashed
  | progressInstallerFileCopied
  | progressInstallerJournalPersisted
  | progressInstallerCommitStep
  | progressInstallerRollbackStep
  | progressArchiveCleanup
  | resultOnlineCompleted
  | resultOnlineCanceled
  | resultRecoveryNoPending
  | resultRecoveryCompleted
  | resultRecoveryRejected
  | resultPreviousBootFailSafeRequested
  | errorPrecondition
  | errorNetwork
  | errorAuthentication
  | errorConfiguration
  | errorStorage
  | errorIntegrity
  | errorJournal
  | errorWatchdog
  | errorRecovery
  | errorInternal
  | errorCandidateRollbackDecision
  | errorOnlineInstallation
  | errorOnlineAuthorization
deriving DecidableEq, Repr

namespace UpdateLocalLogScope

def toByte : UpdateLocalLogScope → UInt8
  | online => 1
  | bootRecovery => 2

/-- The cast of a byte, with `ValidScope`. -/
def ofByte (byte : UInt8) : Option UpdateLocalLogScope :=
  [online, bootRecovery].find? (·.toByte = byte)

theorem ofByte_toByte (scope : UpdateLocalLogScope) : ofByte scope.toByte = some scope := by
  cases scope <;> rfl

end UpdateLocalLogScope

namespace UpdateLocalLogRecordKind

def toByte : UpdateLocalLogRecordKind → UInt8
  | invocation => 1
  | state => 2
  | progress => 3
  | result => 4
  | error => 5

end UpdateLocalLogRecordKind

namespace UpdateLocalLogCode

/-- The values of the on-disk format. -/
def value : UpdateLocalLogCode → Nat
  | onlineRequested => 0x0101
  | onlineDiscoveryStarted => 0x0102
  | onlineDiscoveryAccepted => 0x0103
  | onlineInstallConfirmed => 0x0104
  | recoveryStarted => 0x0110
  | stateDiscovered => 0x0201
  | stateDownloaded => 0x0202
  | statePrepared => 0x0203
  | stateStaged => 0x0204
  | stateCandidatePending => 0x0205
  | stateCandidateHealthy => 0x0206
  | stateCommitting => 0x0207
  | stateCommitted => 0x0208
  | stateRollingBack => 0x0209
  | stateCandidateHealthEvaluated => 0x020a
  | progressBootInitializationMilestone => 0x1001
  | progressRecoveryPrecheck => 0x1002
  | progressTransactionStateRead => 0x1003
  | progressTransactionPayloadRead => 0x1004
  | progressTransactionCleanup => 0x1005
  | progressPreparedEvidenceRead => 0x1006
  | progressPreparedFileVerified => 0x1007
  | progressPreparedCleanup => 0x1008
  | progressCandidateFileHashed => 0x1009
  | progressCandidateJournalRead => 0x100a
  | progressInstallerFileHashed => 0x100b
  | progressInstallerFileCopied => 0x100c
  | progressInstallerJournalPersisted => 0x100d
  | progressInstallerCommitStep => 0x100e
  | progressInstallerRollbackStep => 0x100f
  | progressArchiveCleanup => 0x1010
  | resultOnlineCompleted => 0x3001
  | resultOnlineCanceled => 0x3002
  | resultRecoveryNoPending => 0x3010
  | resultRecoveryCompleted => 0x3011
  | resultRecoveryRejected => 0x3012
  | resultPreviousBootFailSafeRequested => 0x3013
  | errorPrecondition => 0x4001
  | errorNetwork => 0x4002
  | errorAuthentication => 0x4003
  | errorConfiguration => 0x4004
  | errorStorage => 0x4005
  | errorIntegrity => 0x4006
  | errorJournal => 0x4007
  | errorWatchdog => 0x4008
  | errorRecovery => 0x4009
  | errorInternal => 0x400a
  | errorCandidateRollbackDecision => 0x400b
  | errorOnlineInstallation => 0x400c
  | errorOnlineAuthorization => 0x400d

/-- The named codes. -/
def all : List UpdateLocalLogCode :=
  [onlineRequested, onlineDiscoveryStarted, onlineDiscoveryAccepted, onlineInstallConfirmed,
   recoveryStarted, stateDiscovered, stateDownloaded, statePrepared, stateStaged,
   stateCandidatePending, stateCandidateHealthy, stateCommitting, stateCommitted,
   stateRollingBack, stateCandidateHealthEvaluated, progressBootInitializationMilestone,
   progressRecoveryPrecheck, progressTransactionStateRead, progressTransactionPayloadRead,
   progressTransactionCleanup, progressPreparedEvidenceRead, progressPreparedFileVerified,
   progressPreparedCleanup, progressCandidateFileHashed, progressCandidateJournalRead,
   progressInstallerFileHashed, progressInstallerFileCopied,
   progressInstallerJournalPersisted, progressInstallerCommitStep,
   progressInstallerRollbackStep, progressArchiveCleanup, resultOnlineCompleted,
   resultOnlineCanceled, resultRecoveryNoPending, resultRecoveryCompleted,
   resultRecoveryRejected, resultPreviousBootFailSafeRequested, errorPrecondition,
   errorNetwork, errorAuthentication, errorConfiguration, errorStorage, errorIntegrity,
   errorJournal, errorWatchdog, errorRecovery, errorInternal, errorCandidateRollbackDecision,
   errorOnlineInstallation, errorOnlineAuthorization]

/-- The cast of a stored value, nothing where `ClassifyCode` refuses it. -/
def ofValue (stored : Nat) : Option UpdateLocalLogCode := all.find? (·.value = stored)

theorem ofValue_value (code : UpdateLocalLogCode) : ofValue code.value = some code := by
  cases code <;> rfl

theorem value_lt (code : UpdateLocalLogCode) : code.value < 256 ^ 2 := by
  cases code <;> decide

end UpdateLocalLogCode

/-- `ClassifyCode` -/
def classifyCode : UpdateLocalLogCode → UpdateLocalLogRecordKind
  | .onlineRequested | .recoveryStarted => .invocation
  | .onlineDiscoveryStarted | .onlineDiscoveryAccepted | .onlineInstallConfirmed
  | .stateDiscovered | .stateDownloaded | .statePrepared | .stateStaged
  | .stateCandidatePending | .stateCandidateHealthy | .stateCommitting | .stateCommitted
  | .stateRollingBack | .stateCandidateHealthEvaluated => .state
  | .progressBootInitializationMilestone | .progressRecoveryPrecheck
  | .progressTransactionStateRead | .progressTransactionPayloadRead
  | .progressTransactionCleanup | .progressPreparedEvidenceRead
  | .progressPreparedFileVerified | .progressPreparedCleanup | .progressCandidateFileHashed
  | .progressCandidateJournalRead | .progressInstallerFileHashed
  | .progressInstallerFileCopied | .progressInstallerJournalPersisted
  | .progressInstallerCommitStep | .progressInstallerRollbackStep
  | .progressArchiveCleanup => .progress
  | .resultOnlineCompleted | .resultOnlineCanceled | .resultRecoveryNoPending
  | .resultRecoveryCompleted | .resultRecoveryRejected
  | .resultPreviousBootFailSafeRequested => .result
  | .errorPrecondition | .errorNetwork | .errorAuthentication | .errorConfiguration
  | .errorStorage | .errorIntegrity | .errorJournal | .errorWatchdog | .errorRecovery
  | .errorInternal | .errorCandidateRollbackDecision | .errorOnlineInstallation
  | .errorOnlineAuthorization => .error

structure UpdateLocalLogRecord where
  scope : UpdateLocalLogScope
  kind : UpdateLocalLogRecordKind
  code : UpdateLocalLogCode
  ordinal : UInt64
  completed : UInt64
  total : UInt64
deriving DecidableEq, Repr

/-- The progress that `Append` and `DecodeRecord` refuse. -/
def progressExceeds (kind : UpdateLocalLogRecordKind) (completed total : UInt64) : Bool :=
  kind = .progress && total ≠ 0 && total < completed

/-- `EncodeRecord` -/
def encodeRecord (record : UpdateLocalLogRecord) : Bytes :=
  [record.scope.toByte] ++ ([record.kind.toByte] ++ (encodeLe 2 record.code.value ++
    (List.replicate 4 0 ++ (encodeLe 8 record.ordinal.toNat ++
      (encodeLe 8 record.completed.toNat ++ encodeLe 8 record.total.toNat)))))

/-- `DecodeRecord` -/
def decodeRecord (encoded : Bytes) : Option UpdateLocalLogRecord :=
  if slice 6 2 encoded ≠ [0, 0] then none
  else
    match UpdateLocalLogScope.ofByte ((slice 0 1 encoded).headD 0),
        UpdateLocalLogCode.ofValue (decodeLe (slice 2 2 encoded)) with
    | some scope, some code =>
        let kind := classifyCode code
        let completed := UInt64.ofNat (decodeLe (slice 16 8 encoded))
        let total := UInt64.ofNat (decodeLe (slice 24 8 encoded))
        let ordinal := UInt64.ofNat (decodeLe (slice 8 8 encoded))
        if (slice 1 1 encoded).headD 0 ≠ kind.toByte ∨
            progressExceeds kind completed total = true then none
        else if ordinal = 0 then none
        else some ⟨scope, kind, code, ordinal, completed, total⟩
    | _, _ => none

/-- What `ParsePage` finds in a page. -/
structure PageInfo where
  generation : UInt64
  count : Nat
  crc : Nat
deriving DecidableEq, Repr

/-- The loop of `ParsePage` over the records: the last ordinal, if every record is valid
and they increase up to the generation. -/
def lastOrdinal (generation : UInt64) : Nat → UInt64 → Bytes → Option UInt64
  | 0, previous, _ => some previous
  | count + 1, previous, encoded =>
      match decodeRecord (encoded.take kUpdateLocalLogRecordBytes) with
      | none => none
      | some record =>
          if record.ordinal ≤ previous ∨ generation < record.ordinal then none
          else lastOrdinal generation count record.ordinal
            (encoded.drop kUpdateLocalLogRecordBytes)

/-- `ParsePage` -/
def parsePage (page : Bytes) : Option PageInfo :=
  if slice 0 8 page ≠ kLogMagic ∨ decodeLe (slice 8 2 page) ≠ kLogFormatVersion ∨
      decodeLe (slice 10 2 page) ≠ kUpdateLocalLogHeaderBytes ∨
      decodeLe (slice 12 2 page) ≠ kUpdateLocalLogRecordBytes then none
  else
    let count := decodeLe (slice 14 2 page)
    let generation := UInt64.ofNat (decodeLe (slice 16 8 page))
    if count = 0 ∨ kUpdateLocalLogMaximumRecords < count ∨ generation = 0 ∨
        slice 24 8 page ≠ List.replicate 8 0 then none
    else
      let crc := decodeLe (slice kLogCrcOffset 4 page)
      if crc ≠ calculateCrc32 (page.take kLogCrcOffset) then none
      else if lastOrdinal generation count 0 (page.drop kUpdateLocalLogHeaderBytes) ≠
          some generation then none
      else
        let unusedBegin := kUpdateLocalLogHeaderBytes + count * kUpdateLocalLogRecordBytes
        if (slice unusedBegin (kLogCrcOffset - unusedBegin) page).all (· = 0) then
          some ⟨generation, count, crc⟩
        else none

/-! ## Building a page in place -/

/-- `memcpy` and `memset` into the page. -/
def overwrite (offset : Nat) (bytes page : Bytes) : Bytes :=
  page.take offset ++ bytes ++ page.drop (offset + bytes.length)

/-- The loaded page with room for a record, and the number of records it keeps: zeros
where no page was selected, and without the oldest record where the page is full. -/
def makeRoom (selected : Bool) (count : Nat) (page : Bytes) : Bytes × Nat :=
  if selected = false then (List.replicate kUpdateLocalLogPageBytes 0, 0)
  else if count = kUpdateLocalLogMaximumRecords then
    (overwrite kUpdateLocalLogHeaderBytes
      (slice (kUpdateLocalLogHeaderBytes + kUpdateLocalLogRecordBytes)
        ((kUpdateLocalLogMaximumRecords - 1) * kUpdateLocalLogRecordBytes) page) page,
      count - 1)
  else (page, count)

/-- The header of a page. -/
def header (count : Nat) (generation : UInt64) : Bytes :=
  kLogMagic ++ (encodeLe 2 kLogFormatVersion ++ (encodeLe 2 kUpdateLocalLogHeaderBytes ++
    (encodeLe 2 kUpdateLocalLogRecordBytes ++ (encodeLe 2 count ++
      (encodeLe 8 generation.toNat ++ List.replicate 8 0)))))

/-- The writes of `Append`: the record after the `count` records there are, the header,
the zeros behind the records, and the CRC of all that. -/
def writeRecord (record : UpdateLocalLogRecord) (count : Nat) (page : Bytes) : Bytes :=
  let page := overwrite (kUpdateLocalLogHeaderBytes + count * kUpdateLocalLogRecordBytes)
    (encodeRecord record) page
  let count := count + 1
  let page := overwrite 0 (header count record.ordinal) page
  let unusedBegin := kUpdateLocalLogHeaderBytes + count * kUpdateLocalLogRecordBytes
  let page := overwrite unusedBegin (List.replicate (kLogCrcOffset - unusedBegin) 0) page
  overwrite kLogCrcOffset (encodeLe 4 (calculateCrc32 (page.take kLogCrcOffset))) page

/-! ## Records -/

@[simp] theorem length_encodeRecord (record : UpdateLocalLogRecord) :
    (encodeRecord record).length = kUpdateLocalLogRecordBytes := by
  simp [encodeRecord, kUpdateLocalLogRecordBytes]

theorem length_flatMap_encodeRecord (records : List UpdateLocalLogRecord) :
    (records.flatMap encodeRecord).length = records.length * kUpdateLocalLogRecordBytes := by
  induction records with
  | nil => rfl
  | cons record rest ih =>
      rw [List.flatMap_cons, List.length_append, ih, length_encodeRecord, List.length_cons,
        Nat.succ_mul, Nat.add_comm]

/-- What `DecodeRecord` asks of a record. -/
structure Recordable (record : UpdateLocalLogRecord) : Prop where
  kind : record.kind = classifyCode record.code
  progress : progressExceeds record.kind record.completed record.total = false
  ordinal : record.ordinal ≠ 0

theorem decodeRecord_encodeRecord {record : UpdateLocalLogRecord} (h : Recordable record) :
    decodeRecord (encodeRecord record) = some record := by
  have hscope : slice 0 1 (encodeRecord record) = [record.scope.toByte] := slice_head rfl
  have hkind : slice 1 1 (encodeRecord record) = [record.kind.toByte] := by
    unfold encodeRecord
    rw [slice_skip (by simp)]
    exact slice_head rfl
  have hcode : slice 2 2 (encodeRecord record) = encodeLe 2 record.code.value := by
    unfold encodeRecord
    rw [slice_skip (by simp), slice_skip (by simp)]
    exact slice_head (by simp)
  have hzero : slice 6 2 (encodeRecord record) = [0, 0] := by
    unfold encodeRecord
    rw [slice_skip (by simp), slice_skip (by simp), slice_skip (by simp)]
    simp [slice, List.replicate]
  have hordinal : slice 8 8 (encodeRecord record) = encodeLe 8 record.ordinal.toNat := by
    unfold encodeRecord
    rw [slice_skip (by simp), slice_skip (by simp), slice_skip (by simp), slice_skip (by simp)]
    exact slice_head (by simp)
  have hcompleted : slice 16 8 (encodeRecord record) = encodeLe 8 record.completed.toNat := by
    unfold encodeRecord
    rw [slice_skip (by simp), slice_skip (by simp), slice_skip (by simp), slice_skip (by simp),
      slice_skip (by simp)]
    exact slice_head (by simp)
  have htotal : slice 24 8 (encodeRecord record) = encodeLe 8 record.total.toNat := by
    unfold encodeRecord
    rw [slice_skip (by simp), slice_skip (by simp), slice_skip (by simp), slice_skip (by simp),
      slice_skip (by simp), slice_skip (by simp)]
    exact slice_all (by simp)
  unfold decodeRecord
  rw [hscope, hkind, hcode, hzero, hordinal, hcompleted, htotal, decodeLe_encodeLe_uint64,
    decodeLe_encodeLe_uint64, decodeLe_encodeLe_uint64, decodeLe_encodeLe record.code.value_lt,
    List.headD_cons, UpdateLocalLogScope.ofByte_toByte, UpdateLocalLogCode.ofValue_value]
  dsimp only
  rw [if_neg (fun h => h rfl), ← h.kind, List.headD_cons, h.progress, if_neg (by simp),
    if_neg h.ordinal]

/-- Records whose ordinals increase from above `previous`. -/
def Increasing (previous : UInt64) (records : List UpdateLocalLogRecord) : Prop :=
  (∀ record ∈ records, previous < record.ordinal) ∧
    records.Pairwise fun left right => left.ordinal < right.ordinal

theorem lastOrdinal_records {generation : UInt64} (records : List UpdateLocalLogRecord) :
    ∀ (previous : UInt64) (rest : Bytes), (∀ record ∈ records, Recordable record) →
      Increasing previous records → (∀ record ∈ records, record.ordinal ≤ generation) →
      lastOrdinal generation records.length previous (records.flatMap encodeRecord ++ rest) =
        some ((records.getLast?.map (·.ordinal)).getD previous) := by
  induction records with
  | nil => exact fun _ _ _ _ _ => rfl
  | cons record records ih =>
      intro previous rest hvalid hincreasing hbound
      have hfirst := hincreasing.1 record List.mem_cons_self
      have hpairs := List.pairwise_cons.mp hincreasing.2
      have htake : ((record :: records).flatMap encodeRecord ++ rest).take
          kUpdateLocalLogRecordBytes = encodeRecord record := by
        rw [List.flatMap_cons, List.append_assoc]
        exact List.take_left' (length_encodeRecord record)
      have hdrop : ((record :: records).flatMap encodeRecord ++ rest).drop
          kUpdateLocalLogRecordBytes = records.flatMap encodeRecord ++ rest := by
        rw [List.flatMap_cons, List.append_assoc]
        exact List.drop_left' (length_encodeRecord record)
      rw [List.length_cons, lastOrdinal, htake, hdrop,
        decodeRecord_encodeRecord (hvalid record List.mem_cons_self)]
      dsimp only
      rw [if_neg, ih record.ordinal rest
        (fun r hr => hvalid r (List.mem_cons_of_mem _ hr)) hpairs
        fun r hr => hbound r (List.mem_cons_of_mem _ hr)]
      · rw [List.getLast?_cons]
        cases records.getLast? <;> rfl
      · rintro (hle | hlt)
        · exact absurd hfirst (UInt64.not_lt.mpr hle)
        · exact absurd hlt (UInt64.not_lt.mpr (hbound record List.mem_cons_self))

/-! ## Pages -/

/-- The bytes of a page before its CRC. -/
def pageBody (records : List UpdateLocalLogRecord) (generation : UInt64) : Bytes :=
  header records.length generation ++ records.flatMap encodeRecord ++
    List.replicate (kLogCrcOffset -
      (kUpdateLocalLogHeaderBytes + records.length * kUpdateLocalLogRecordBytes)) 0

/-- The page of some records. -/
def pageWith (records : List UpdateLocalLogRecord) (generation : UInt64) : Bytes :=
  pageBody records generation ++ encodeLe 4 (calculateCrc32 (pageBody records generation))

variable {records : List UpdateLocalLogRecord} {generation : UInt64} {page : Bytes}

@[simp] theorem length_header (count : Nat) (generation : UInt64) :
    (header count generation).length = kUpdateLocalLogHeaderBytes := by
  simp [header, kLogMagic, kUpdateLocalLogHeaderBytes]

theorem length_pageBody (hcount : records.length ≤ kUpdateLocalLogMaximumRecords) :
    (pageBody records generation).length = kLogCrcOffset := by
  unfold pageBody
  rw [List.length_append, List.length_append, length_header, length_flatMap_encodeRecord,
    List.length_replicate]
  simp only [kUpdateLocalLogMaximumRecords, kUpdateLocalLogPageBytes,
    kUpdateLocalLogHeaderBytes, kUpdateLocalLogRecordBytes, kLogCrcOffset] at hcount ⊢
  omega

theorem length_pageWith (hcount : records.length ≤ kUpdateLocalLogMaximumRecords) :
    (pageWith records generation).length = kUpdateLocalLogPageBytes := by
  unfold pageWith
  rw [List.length_append, length_pageBody hcount, length_encodeLe]
  rfl

/-- What stands behind the header of a page. -/
theorem drop_pageWith :
    (pageWith records generation).drop kUpdateLocalLogHeaderBytes =
      records.flatMap encodeRecord ++ (List.replicate (kLogCrcOffset -
        (kUpdateLocalLogHeaderBytes + records.length * kUpdateLocalLogRecordBytes)) 0 ++
        encodeLe 4 (calculateCrc32 (pageBody records generation))) := by
  unfold pageWith
  conv_lhs => rw [pageBody]
  rw [List.append_assoc, List.append_assoc, List.append_assoc]
  exact List.drop_left' (length_header _ _)

/-- A page is read back. -/
theorem parsePage_pageWith (hne : records ≠ [])
    (hcount : records.length ≤ kUpdateLocalLogMaximumRecords)
    (hvalid : ∀ record ∈ records, Recordable record) (hincreasing : Increasing 0 records)
    (hbound : ∀ record ∈ records, record.ordinal ≤ generation)
    (hlast : records.getLast?.map (·.ordinal) = some generation) :
    parsePage (pageWith records generation) = some ⟨generation, records.length,
      calculateCrc32 (pageBody records generation)⟩ := by
  have hlength := @length_pageBody records generation hcount
  have hpage : pageWith records generation = kLogMagic ++ (encodeLe 2 kLogFormatVersion ++
      (encodeLe 2 kUpdateLocalLogHeaderBytes ++ (encodeLe 2 kUpdateLocalLogRecordBytes ++
        (encodeLe 2 records.length ++ (encodeLe 8 generation.toNat ++ (List.replicate 8 0 ++
          (pageWith records generation).drop kUpdateLocalLogHeaderBytes)))))) := by
    have hhead : (pageWith records generation).take kUpdateLocalLogHeaderBytes =
        header records.length generation := by
      unfold pageWith
      conv_lhs => rw [pageBody]
      rw [List.append_assoc, List.append_assoc]
      exact List.take_left' (length_header _ _)
    conv_lhs => rw [← List.take_append_drop kUpdateLocalLogHeaderBytes
      (pageWith records generation), hhead]
    simp only [header, List.append_assoc]
  have hmagicLength : kLogMagic.length = 8 := rfl
  have hmagic : slice 0 8 (pageWith records generation) = kLogMagic := by
    rw [hpage]
    exact slice_head rfl
  have hversion : slice 8 2 (pageWith records generation) = encodeLe 2 kLogFormatVersion := by
    rw [hpage, slice_skip (by decide)]
    exact slice_head (by simp)
  have hheader : slice 10 2 (pageWith records generation) =
      encodeLe 2 kUpdateLocalLogHeaderBytes := by
    rw [hpage, slice_skip (by decide), slice_skip (by decide)]
    exact slice_head (by simp)
  have hrecord : slice 12 2 (pageWith records generation) =
      encodeLe 2 kUpdateLocalLogRecordBytes := by
    rw [hpage, slice_skip (by decide), slice_skip (by decide), slice_skip (by decide)]
    exact slice_head (by simp)
  have hrecords : slice 14 2 (pageWith records generation) = encodeLe 2 records.length := by
    rw [hpage, slice_skip (by decide), slice_skip (by decide), slice_skip (by decide),
      slice_skip (by decide)]
    exact slice_head (by simp)
  have hgeneration : slice 16 8 (pageWith records generation) =
      encodeLe 8 generation.toNat := by
    rw [hpage, slice_skip (by decide), slice_skip (by decide), slice_skip (by decide),
      slice_skip (by decide), slice_skip (by simp [hmagicLength])]
    exact slice_head (by simp)
  have hzeros : slice 24 8 (pageWith records generation) = List.replicate 8 0 := by
    rw [hpage, slice_skip (by decide), slice_skip (by decide), slice_skip (by decide),
      slice_skip (by decide), slice_skip (by simp [hmagicLength]),
      slice_skip (by simp [hmagicLength])]
    exact slice_head (by simp)
  have hbody : (pageWith records generation).take kLogCrcOffset =
      pageBody records generation := List.take_left' hlength
  have hcrc : decodeLe (slice kLogCrcOffset 4 (pageWith records generation)) =
      calculateCrc32 (pageBody records generation) := by
    unfold pageWith
    rw [slice_skip hlength.le, hlength, Nat.sub_self, slice_all (by simp)]
    exact decodeLe_encodeLe (calculateCrc32_lt _)
  have hlimit : records.length < 256 ^ 2 := by
    simp only [kUpdateLocalLogMaximumRecords, kUpdateLocalLogPageBytes,
      kUpdateLocalLogHeaderBytes, kUpdateLocalLogRecordBytes] at hcount
    omega
  have hunused : (slice (kUpdateLocalLogHeaderBytes +
      records.length * kUpdateLocalLogRecordBytes) (kLogCrcOffset -
      (kUpdateLocalLogHeaderBytes + records.length * kUpdateLocalLogRecordBytes))
      (pageWith records generation)).all (· = 0) = true := by
    have hfront : (header records.length generation ++ records.flatMap encodeRecord).length =
        kUpdateLocalLogHeaderBytes + records.length * kUpdateLocalLogRecordBytes := by
      rw [List.length_append, length_header, length_flatMap_encodeRecord]
    unfold pageWith
    conv_lhs => rw [pageBody]
    rw [List.append_assoc, slice_skip hfront.le, hfront, Nat.sub_self,
      slice_head List.length_replicate, List.all_replicate]
    simp
  have hordinals : lastOrdinal generation records.length 0
      ((pageWith records generation).drop kUpdateLocalLogHeaderBytes) = some generation := by
    rw [drop_pageWith, lastOrdinal_records records 0 _ hvalid hincreasing hbound, hlast]
    rfl
  have hpositive : generation ≠ 0 := by
    obtain ⟨record, hmem, rfl⟩ := Option.map_eq_some_iff.mp hlast
    exact (hvalid record (List.mem_of_getLast? hmem)).ordinal
  unfold parsePage
  rw [hmagic, hversion, hheader, hrecord, hrecords, hgeneration, hzeros, hbody, hcrc,
    decodeLe_encodeLe hlimit, decodeLe_encodeLe_uint64, if_neg (by decide)]
  dsimp only
  rw [if_neg, if_neg (fun h => h rfl), if_neg (fun h => h hordinals), if_pos hunused]
  rintro (hzero | hmany | hnone | hbytes)
  · exact hne (List.length_eq_zero_iff.mp hzero)
  · omega
  · exact hpositive hnone
  · exact hbytes rfl

/-! ## The edits in place -/

theorem overwrite_append {front old new rest : Bytes} (h : new.length = old.length) :
    overwrite front.length new (front ++ old ++ rest) = front ++ new ++ rest := by
  unfold overwrite
  rw [h, ← List.length_append, List.drop_left, List.append_assoc front old rest, List.take_left]

/-- The writes of a record over a page that keeps `records` make the page of all. -/
theorem writeRecord_eq {record : UpdateLocalLogRecord} (hpage : page.length =
    kUpdateLocalLogPageBytes) (hcount : records.length < kUpdateLocalLogMaximumRecords)
    (hkept : slice kUpdateLocalLogHeaderBytes (records.length * kUpdateLocalLogRecordBytes)
      page = records.flatMap encodeRecord) :
    writeRecord record records.length page =
      pageWith (records ++ [record]) record.ordinal := by
  set front := page.take kUpdateLocalLogHeaderBytes with hfront
  set kept := records.flatMap encodeRecord with hkeptDef
  set tail := page.drop (kUpdateLocalLogHeaderBytes +
    records.length * kUpdateLocalLogRecordBytes) with htail
  simp only [kUpdateLocalLogMaximumRecords, kUpdateLocalLogPageBytes,
    kUpdateLocalLogHeaderBytes, kUpdateLocalLogRecordBytes] at hcount hpage
  have hfrontLength : front.length = kUpdateLocalLogHeaderBytes := by
    rw [hfront, List.length_take, hpage]
    rfl
  have hkeptLength : kept.length = records.length * kUpdateLocalLogRecordBytes :=
    length_flatMap_encodeRecord records
  have htailLength : tail.length = 4096 - (32 + records.length * 32) := by
    rw [htail, List.length_drop, hpage]
    rfl
  have hsplit : page = front ++ kept ++ tail := by
    rw [hfront, ← hkept, htail, slice, ← List.drop_drop, List.append_assoc,
      List.take_append_drop, List.take_append_drop]
  obtain ⟨old, rest, htails, holdLength⟩ : ∃ old rest, tail = old ++ rest ∧
      old.length = 32 :=
    ⟨tail.take 32, tail.drop 32, (List.take_append_drop 32 tail).symm, by
      rw [List.length_take]
      omega⟩
  have hrestLength : rest.length = 4096 - (32 + (records.length + 1) * 32) := by
    have := congrArg List.length htails
    rw [List.length_append] at this
    omega
  obtain ⟨unused, crc, hrests, hunusedLength⟩ : ∃ unused crc, rest = unused ++ crc ∧
      unused.length = 4092 - (32 + (records.length + 1) * 32) :=
    ⟨rest.take (4092 - (32 + (records.length + 1) * 32)), rest.drop _,
      (List.take_append_drop _ rest).symm, by
        rw [List.length_take]
        omega⟩
  have hcrcLength : crc.length = 4 := by
    have := congrArg List.length hrests
    rw [List.length_append] at this
    omega
  have hrecord : overwrite (kUpdateLocalLogHeaderBytes +
      records.length * kUpdateLocalLogRecordBytes) (encodeRecord record) page =
      front ++ (kept ++ encodeRecord record) ++ (unused ++ crc) := by
    have hedit := @overwrite_append (front ++ kept) old (encodeRecord record) (unused ++ crc)
      (by rw [length_encodeRecord, holdLength]; rfl)
    rw [List.length_append, hfrontLength, hkeptLength] at hedit
    rw [hsplit, htails, hrests, ← List.append_assoc (front ++ kept), hedit]
    simp only [List.append_assoc]
  have hheader : overwrite 0 (header (records.length + 1) record.ordinal)
      (front ++ (kept ++ encodeRecord record) ++ (unused ++ crc)) =
      header (records.length + 1) record.ordinal ++ (kept ++ encodeRecord record) ++
        (unused ++ crc) := by
    have hedit := @overwrite_append [] front (header (records.length + 1) record.ordinal)
      (kept ++ encodeRecord record ++ (unused ++ crc))
      (by rw [length_header, hfrontLength])
    simpa only [List.nil_append, List.append_assoc, List.length_nil] using hedit
  have hfull : (header (records.length + 1) record.ordinal ++
      (kept ++ encodeRecord record)).length = 32 + (records.length + 1) * 32 := by
    rw [List.length_append, List.length_append, length_header, hkeptLength,
      length_encodeRecord]
    simp only [kUpdateLocalLogHeaderBytes, kUpdateLocalLogRecordBytes]
    omega
  have hzeros : overwrite (kUpdateLocalLogHeaderBytes +
      (records.length + 1) * kUpdateLocalLogRecordBytes) (List.replicate (kLogCrcOffset -
        (kUpdateLocalLogHeaderBytes + (records.length + 1) * kUpdateLocalLogRecordBytes)) 0)
      (header (records.length + 1) record.ordinal ++ (kept ++ encodeRecord record) ++
        (unused ++ crc)) = pageBody (records ++ [record]) record.ordinal ++ crc := by
    have hedit := @overwrite_append (header (records.length + 1) record.ordinal ++
      (kept ++ encodeRecord record)) unused (List.replicate (kLogCrcOffset -
        (kUpdateLocalLogHeaderBytes + (records.length + 1) * kUpdateLocalLogRecordBytes)) 0)
      crc (by rw [List.length_replicate, hunusedLength]; rfl)
    rw [hfull] at hedit
    rw [← List.append_assoc _ unused crc]
    refine hedit.trans ?_
    unfold pageBody
    rw [List.length_append, List.length_singleton, List.flatMap_append,
      List.flatMap_singleton]
  have hbodyLength : (pageBody (records ++ [record]) record.ordinal).length =
      kLogCrcOffset := by
    refine length_pageBody ?_
    rw [List.length_append, List.length_singleton]
    exact hcount
  unfold writeRecord
  dsimp only
  rw [hrecord, hheader, hzeros]
  have hedit := @overwrite_append (pageBody (records ++ [record]) record.ordinal) crc
    (encodeLe 4 (calculateCrc32 (pageBody (records ++ [record]) record.ordinal))) []
    (by rw [length_encodeLe, hcrcLength])
  rw [hbodyLength, List.append_nil, List.append_nil] at hedit
  rw [List.take_left' hbodyLength, hedit]
  rfl

/-! ## Histories -/

/-- What `Append` is given. -/
structure Entry where
  scope : UpdateLocalLogScope
  code : UpdateLocalLogCode
  completed : UInt64
  total : UInt64
deriving DecidableEq, Repr

/-- An entry that `Append` does not refuse. -/
def Entry.Admissible (entry : Entry) : Prop :=
  progressExceeds (classifyCode entry.code) entry.completed entry.total = false

/-- The record of the entry at an index of the history. -/
def recordAt (index : Nat) (entry : Entry) : UpdateLocalLogRecord :=
  ⟨entry.scope, classifyCode entry.code, entry.code, UInt64.ofNat (index + 1),
    entry.completed, entry.total⟩

def numbered (history : List Entry) : List UpdateLocalLogRecord := history.mapIdx recordAt

/-- The records a log still has of a history: the last ones. -/
def keptRecords (history : List Entry) : List UpdateLocalLogRecord :=
  (numbered history).drop (history.length - kUpdateLocalLogMaximumRecords)

/-- The page of a history. -/
def pageOf (history : List Entry) : Bytes :=
  pageWith (keptRecords history) (UInt64.ofNat history.length)

/-- A history that fits the ordinals. -/
structure Countable (history : List Entry) : Prop where
  length : history.length < 2 ^ 64
  admissible : ∀ entry ∈ history, entry.Admissible

variable {history : List Entry} {entry : Entry}

@[simp] theorem length_numbered (history : List Entry) :
    (numbered history).length = history.length := List.length_mapIdx

theorem length_keptRecords (history : List Entry) :
    (keptRecords history).length = min history.length kUpdateLocalLogMaximumRecords := by
  unfold keptRecords
  rw [List.length_drop, length_numbered]
  omega

theorem length_keptRecords_le (history : List Entry) :
    (keptRecords history).length ≤ kUpdateLocalLogMaximumRecords := by
  rw [length_keptRecords]
  exact Nat.min_le_right _ _

theorem numbered_append (history : List Entry) (entry : Entry) :
    numbered (history ++ [entry]) = numbered history ++ [recordAt history.length entry] := by
  unfold numbered
  rw [List.mapIdx_append]
  simp

/-- One entry more drops the oldest record where the page is full. -/
theorem keptRecords_append (history : List Entry) (entry : Entry) :
    keptRecords (history ++ [entry]) =
      (keptRecords history).drop (if (keptRecords history).length =
        kUpdateLocalLogMaximumRecords then 1 else 0) ++ [recordAt history.length entry] := by
  have hlength := length_keptRecords history
  have hpositive : 0 < kUpdateLocalLogMaximumRecords := by decide
  have hdrop : (history ++ [entry]).length - kUpdateLocalLogMaximumRecords =
      history.length - kUpdateLocalLogMaximumRecords +
        (if (keptRecords history).length = kUpdateLocalLogMaximumRecords then 1 else 0) := by
    rw [List.length_append, List.length_singleton, hlength]
    generalize kUpdateLocalLogMaximumRecords = maximum at hpositive ⊢
    split <;> omega
  rw [keptRecords, hdrop, numbered_append, List.drop_append_of_le_length, ← List.drop_drop]
  · rfl
  · rw [length_numbered, hlength]
    generalize kUpdateLocalLogMaximumRecords = maximum at hpositive ⊢
    split <;> omega

theorem getElem_numbered {index : Nat} (h : index < (numbered history).length)
    (h' : index < history.length) :
    (numbered history)[index] = recordAt index history[index] :=
  List.getElem_mapIdx

theorem mem_numbered {record : UpdateLocalLogRecord} (h : record ∈ numbered history) :
    ∃ index entry, index < history.length ∧ entry ∈ history ∧ record = recordAt index entry := by
  obtain ⟨index, hindex, rfl⟩ := List.mem_iff_getElem.mp h
  have hindex' : index < history.length := by rwa [length_numbered] at hindex
  exact ⟨index, history[index], hindex', List.getElem_mem hindex', getElem_numbered _ _⟩

theorem toNat_ordinal {index : Nat} (h : index < history.length)
    (hlength : history.length < 2 ^ 64) :
    (recordAt index entry).ordinal.toNat = index + 1 := by
  unfold recordAt
  exact UInt64.toNat_ofNat_of_lt' (by show index + 1 < 2 ^ 64; omega)

theorem recordable_of_mem (h : Countable history) {record : UpdateLocalLogRecord}
    (hmem : record ∈ keptRecords history) : Recordable record := by
  obtain ⟨index, entry, hindex, hentry, rfl⟩ := mem_numbered (List.mem_of_mem_drop hmem)
  refine ⟨rfl, h.admissible entry hentry, fun hzero => ?_⟩
  have hnat := @toNat_ordinal history entry index hindex h.length
  rw [hzero] at hnat
  exact absurd hnat (by simp)

theorem increasing_keptRecords (h : Countable history) :
    Increasing 0 (keptRecords history) := by
  constructor
  · intro record hmem
    obtain ⟨index, entry, hindex, -, rfl⟩ := mem_numbered (List.mem_of_mem_drop hmem)
    rw [UInt64.lt_iff_toNat_lt, toNat_ordinal hindex h.length]
    exact Nat.succ_pos index
  · have hpairs : (numbered history).Pairwise fun left right => left.ordinal < right.ordinal := by
      rw [List.pairwise_iff_getElem]
      intro i j hi hj hij
      have hi' : i < history.length := by rwa [length_numbered] at hi
      have hj' : j < history.length := by rwa [length_numbered] at hj
      rw [getElem_numbered hi hi', getElem_numbered hj hj', UInt64.lt_iff_toNat_lt,
        toNat_ordinal hi' h.length, toNat_ordinal hj' h.length]
      omega
    exact hpairs.sublist (List.drop_sublist _ _)

theorem ordinal_le_of_mem (h : Countable history) {record : UpdateLocalLogRecord}
    (hmem : record ∈ keptRecords history) : record.ordinal ≤ UInt64.ofNat history.length := by
  obtain ⟨index, entry, hindex, -, rfl⟩ := mem_numbered (List.mem_of_mem_drop hmem)
  rw [UInt64.le_iff_toNat_le, toNat_ordinal hindex h.length,
    UInt64.toNat_ofNat_of_lt' h.length]
  exact hindex

/-- The last record of a log has the generation of the page. -/
theorem getLast?_keptRecords (hne : history ≠ []) :
    (keptRecords history).getLast?.map (·.ordinal) = some (UInt64.ofNat history.length) := by
  obtain ⟨front, entry, rfl⟩ := List.eq_nil_or_concat history |>.resolve_left hne
  rw [List.concat_eq_append, keptRecords_append, List.getLast?_concat, List.length_append]
  rfl

/-- The page of a history is read back. -/
theorem parsePage_pageOf (hne : history ≠ []) (h : Countable history) :
    parsePage (pageOf history) = some ⟨UInt64.ofNat history.length,
      (keptRecords history).length, calculateCrc32 (pageBody (keptRecords history)
        (UInt64.ofNat history.length))⟩ := by
  refine parsePage_pageWith (fun hnil => ?_) (length_keptRecords_le history)
    (fun _ => recordable_of_mem h) (increasing_keptRecords h) (fun _ => ordinal_le_of_mem h)
    (getLast?_keptRecords hne)
  have hlast := getLast?_keptRecords hne
  rw [hnil] at hlast
  cases hlast

theorem length_pageOf (history : List Entry) :
    (pageOf history).length = kUpdateLocalLogPageBytes :=
  length_pageWith (length_keptRecords_le history)

theorem slice_overwrite {offset : Nat} {bytes : Bytes} (h : offset ≤ page.length) :
    slice offset bytes.length (overwrite offset bytes page) = bytes := by
  have hfront : (page.take offset).length = offset := by
    rw [List.length_take]
    omega
  unfold overwrite
  rw [List.append_assoc, slice_skip hfront.le, hfront, Nat.sub_self, slice_head rfl]

theorem length_overwrite {offset : Nat} {bytes : Bytes}
    (h : offset + bytes.length ≤ page.length) :
    (overwrite offset bytes page).length = page.length := by
  unfold overwrite
  rw [List.length_append, List.length_append, List.length_take, List.length_drop]
  omega

/-- The records behind the first one. -/
theorem slice_pageOf {record : UpdateLocalLogRecord} {rest : List UpdateLocalLogRecord}
    (h : keptRecords history = record :: rest) :
    slice (kUpdateLocalLogHeaderBytes + kUpdateLocalLogRecordBytes)
      (rest.length * kUpdateLocalLogRecordBytes) (pageOf history) =
      rest.flatMap encodeRecord := by
  unfold slice pageOf
  rw [← List.drop_drop, drop_pageWith, h, List.flatMap_cons, List.append_assoc,
    List.drop_left' (length_encodeRecord record)]
  exact List.take_left' (length_flatMap_encodeRecord rest)

/-- The edits in place carry the page of a history to that of one entry more. -/
theorem writeRecord_pageOf (hlength : history ≠ [] → page = pageOf history) :
    let room := makeRoom (decide (history ≠ [])) (keptRecords history).length page
    writeRecord (recordAt history.length entry) room.2 room.1 = pageOf (history ++ [entry]) ∧
      room.2 + 1 = (keptRecords (history ++ [entry])).length := by
  have hpage : ∀ (room : Bytes) (kept : List UpdateLocalLogRecord),
      room.length = kUpdateLocalLogPageBytes → kept.length < kUpdateLocalLogMaximumRecords →
      slice kUpdateLocalLogHeaderBytes (kept.length * kUpdateLocalLogRecordBytes) room =
        kept.flatMap encodeRecord →
      keptRecords (history ++ [entry]) = kept ++ [recordAt history.length entry] →
      writeRecord (recordAt history.length entry) kept.length room = pageOf (history ++ [entry])
        ∧ kept.length + 1 = (keptRecords (history ++ [entry])).length := by
    intro room kept hroom hless hkept happend
    rw [writeRecord_eq hroom hless hkept, pageOf, happend, List.length_append,
      List.length_append, List.length_singleton, List.length_singleton]
    exact ⟨rfl, rfl⟩
  have happend := keptRecords_append history entry
  dsimp only
  unfold makeRoom
  split
  · rename_i hselected
    have hnil : history = [] := by simpa using hselected
    subst hnil
    refine hpage _ [] List.length_replicate (by decide) ?_ ?_
    · rw [List.length_nil, Nat.zero_mul]
      exact List.take_zero
    · rw [happend]
      rfl
  · rename_i hselected
    have hne : history ≠ [] := by simpa using hselected
    obtain rfl := hlength hne
    split
    · rename_i hfull
      rw [if_pos hfull] at happend
      obtain ⟨record, rest, hrecords⟩ : ∃ record rest, keptRecords history = record :: rest :=
        List.exists_cons_of_length_pos (by rw [hfull]; decide)
      have hrest : rest.length + 1 = kUpdateLocalLogMaximumRecords := by
        rw [← hfull, hrecords, List.length_cons]
      have hmoved : (kUpdateLocalLogMaximumRecords - 1) * kUpdateLocalLogRecordBytes =
          (rest.flatMap encodeRecord).length := by
        rw [length_flatMap_encodeRecord, ← hrest, Nat.add_sub_cancel]
      have hslice := slice_pageOf hrecords
      rw [← length_flatMap_encodeRecord rest, ← hmoved] at hslice
      rw [hslice, hfull, ← hrest, Nat.add_sub_cancel]
      refine hpage _ rest ?_ ?_ ?_ ?_
      · rw [length_overwrite, length_pageOf]
        rw [length_pageOf, ← hmoved]
        decide
      · omega
      · rw [← length_flatMap_encodeRecord rest]
        refine slice_overwrite ?_
        rw [length_pageOf]
        decide
      · rw [happend, hrecords]
        rfl
    · rename_i hroom
      rw [if_neg hroom, List.drop_zero] at happend
      dsimp only
      refine hpage (pageOf history) (keptRecords history) (length_pageOf history) ?_ ?_ happend
      · exact lt_of_le_of_ne (length_keptRecords_le history) hroom
      · unfold slice pageOf
        rw [drop_pageWith]
        exact List.take_left' (length_flatMap_encodeRecord _)

-- Unfolded, the number of records to drop is compared by counting it down.
attribute [irreducible] keptRecords

end LocalLog

end BmxUpdate
