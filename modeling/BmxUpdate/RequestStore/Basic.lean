import BmxUpdate.RequestStore.Record
import BmxUpdate.Installer.Basic

/-!
# The request store

`UpdateTransactionRequestStore` (`update_transaction_store.cpp`): the request of
a transaction as four payload files and a record, which goes by one of three
names.  `request-state.bin` activates the transaction at boot,
`committed-state.bin` keeps it after a commit, and `retiring-state.bin` marks
its removal.

A status other than `Ok` is an error of the program.  A root is spelled as it is
given; its files are below the root as FAT compares it.  Reading a file is one
operation, and so is a progress report.
-/

namespace BmxUpdate

open Crash Volumes Wire

/-- The statuses of `UpdateTransactionStoreStatus` but `Ok`. -/
inductive StoreFailure where
  | invalidArgument
  | invalidIdentity
  | durabilityUnsupported
  | notFound
  | conflict
  | workspaceTooSmall
  | fileSystemError
  | corrupt
  | hashMismatch
  | recoveryProgressFailed
deriving DecidableEq, Repr

/-- A call of the store. -/
abbrev StoreProc (α : Type) := Proc StoreFailure Unit Volume α

/-- What the store is run with: the hash function and the capabilities its file
system reports, `none` where it cannot. -/
structure UpdateTransactionRequestStore where
  sha256 : Content → Digest
  durability : Option UpdateDurabilityCapabilities

/-! ## Names -/

/-- The names a record goes by. -/
inductive RecordName where
  | active
  | committed
  | retiring
deriving DecidableEq, Repr

/-- `kStateName`, `kCommittedStateName` and `kRetiringStateName` -/
def RecordName.fileName : RecordName → String
  | .active => "request-state.bin"
  | .committed => "committed-state.bin"
  | .retiring => "retiring-state.bin"

/-- The files of a transaction. -/
inductive StoreFile where
  | record (name : RecordName)
  | payload (payload : Payload)
deriving DecidableEq, Repr

def StoreFile.fileName : StoreFile → String
  | .record name => name.fileName
  | .payload which => which.fileName

def kUpdateTransactionRoot : Path := [".bmx-update", "transaction"]

/-- `BoundedRoot` -/
def boundedRoot (root : Path) : Bool := validRelativePath root kInstallerMaximumPathBytes

/-- `Join` succeeds. -/
def joins (root : Path) (name : String) : Bool :=
  boundedRoot root && validRelativePath (root ++ [name]) kInstallerMaximumPathBytes

/-- The path `Join` builds. -/
def joined (root : Path) (name : String) : Path := root.map String.toLower ++ [name]

/-- The temporary name of a joined path fits its buffer. -/
def partFits (root : Path) (name : String) : Bool :=
  pathBytes (root ++ [name]) + ".part".length ≤ kInstallerMaximumPathBytes

abbrev filePath (root : Path) (file : StoreFile) : Path := joined root file.fileName

/-- The file of a record. -/
abbrev recordPath (root : Path) (name : RecordName) : Path := filePath root (.record name)

/-- The file of a payload. -/
abbrev payloadPath (root : Path) (payload : Payload) : Path := filePath root (.payload payload)

/-- The temporary file of a path. -/
abbrev partOf (path : Path) : Path := addSuffix path ".part"

namespace RequestStore

/-! ## Shared helpers -/

/-- `ReportUpdateRecoveryProgress` -/
def report : StoreProc Unit := Proc.orElse .recoveryProgressFailed barrier

/-- `EnsureParents` -/
def ensureParents (path : Path) : FsProc Unit Unit :=
  Proc.forIndexed (fun _ ancestor => do
    createDirectory ancestor
    syncContainingDirectory ancestor) 0 (properAncestors path)

/-- `Stat`, where a failure is `FileSystemError`. -/
def look (path : Path) : StoreProc UpdateFileStat := Proc.orElse .fileSystemError (stat path)

/-- Remove a file and pass the barrier of its directory. -/
def removeSynced (path : Path) : StoreProc Unit := do
  Proc.orElse .fileSystemError (removeFile path)
  Proc.orElse .fileSystemError (syncContainingDirectory path)

end RequestStore

open RequestStore

namespace UpdateTransactionRequestStore

variable (store : UpdateTransactionRequestStore)

/-- `DurabilitySupported` -/
def durabilitySupported : Bool :=
  match store.durability with
  | none => false
  | some c =>
      c.durableFileSync && (c.crashSafeFreshRename || c.powerLossRecoveryValidated) &&
        c.durableDirectoryUpdates

/-- `VerifyFile` -/
def verifyFile (path : Path) (expectedSize : Nat) (expectedHash : Digest) : StoreProc Unit := do
  Proc.check (expectedSize ≠ 0) .invalidArgument
  let found ← look path
  Proc.check (found.type ≠ .missing) .notFound
  Proc.check (found.type = .regularFile ∧ found.size = expectedSize) .conflict
  let content ← Proc.orElse .fileSystemError (readFile path)
  Proc.check (store.sha256 content = expectedHash) .hashMismatch

/-- The steps of `WriteFreshVerified` after which it removes its temporary. -/
def publishFresh (path : Path) (content : Content) : FsProc Unit Unit := do
  write (partOf path) content
  barrier
  barrier
  rename (partOf path) path false
  syncContainingDirectory path

/-- The part of `WriteFreshVerified` for a path where nothing is. -/
def writeFresh (root : Path) (name : String) (content : Content) (expectedHash : Digest) :
    StoreProc Unit := do
  let path := joined root name
  Proc.check (partFits root name) .fileSystemError
  Proc.orElse .fileSystemError (RequestStore.ensureParents path)
  Proc.orElse .fileSystemError (removeFile (partOf path))
  Proc.orElse .fileSystemError (createFileFresh (partOf path))
  Proc.orElse .fileSystemError
    (withCleanup (publishFresh path content) (removeFile (partOf path)))
  store.verifyFile path content.length expectedHash

/-- `WriteFreshVerified` -/
def writeFreshVerified (root : Path) (name : String) (content : Content)
    (expectedHash : Digest) : StoreProc Unit := do
  match ← Proc.attempt (store.verifyFile (joined root name) content.length expectedHash) with
  | .ok () => Proc.orElse .fileSystemError (syncContainingDirectory (joined root name))
  | .error .notFound => store.writeFresh root name content expectedHash
  | .error .hashMismatch => Proc.throw .conflict
  | .error failure => Proc.throw failure

/-! ## Saving -/

/-- `RequestValid` -/
def requestValid (request : AuthenticatedUpdateRequest) : Bool :=
  match request.release with
  | none => false
  | some release =>
      isKnownBoardFamily request.runningBoard && boundedRoot request.transactionRoot &&
        request.transactionId ≠ .zero 16 && request.oldBootGeneration ≠ 0 &&
        request.oldBootGeneration < request.newBootGeneration &&
        request.consentSha256 ≠ .zero 32 && request.resetRequired = request.resetApproved &&
        Payload.all.all fun payload =>
          release.payload payload ≠ [] && (release.payload payload).length ≤ payload.maximum

/-- The record `Save` writes. -/
def stateOf (request : AuthenticatedUpdateRequest) (release : ValidatedReleaseDownload) :
    RequestState where
  board := request.runningBoard
  size := fun payload => (release.payload payload).length
  oldBootGeneration := request.oldBootGeneration
  newBootGeneration := request.newBootGeneration
  transactionId := request.transactionId
  consentSha256 := request.consentSha256
  resetRequired := request.resetRequired
  resetApproved := request.resetApproved
  acquisitionMode := release.acquisitionMode
  sha256 := fun payload => store.sha256 (release.payload payload)
  rootSha256 := store.sha256 (rootPreimage request.transactionRoot)

/-- The turn of `Save` for one payload. -/
def savePayload (root : Path) (release : ValidatedReleaseDownload) (payload : Payload) :
    StoreProc Unit := do
  Proc.check (joins root payload.fileName) .invalidIdentity
  store.writeFreshVerified root payload.fileName (release.payload payload)
    (store.sha256 (release.payload payload))

/-- `Save` with a release. -/
def saveRelease (request : AuthenticatedUpdateRequest) (release : ValidatedReleaseDownload) :
    StoreProc Unit := do
  let root := request.transactionRoot
  Proc.check (joins root RecordName.committed.fileName) .fileSystemError
  Proc.check (joins root RecordName.retiring.fileName) .fileSystemError
  let committed ← look (recordPath root .committed)
  let retiring ← look (recordPath root .retiring)
  Proc.check (committed.type = .missing ∧ retiring.type = .missing)
    (if committed.type = .regularFile ∨ retiring.type = .regularFile then .conflict
      else .fileSystemError)
  Proc.forIndexed (fun _ payload => store.savePayload root release payload) 0 Payload.all
  Proc.check (joins root RecordName.active.fileName) .invalidIdentity
  let state := (store.stateOf request release).encode
  store.writeFreshVerified root RecordName.active.fileName state (store.sha256 state)

/-- `Save` -/
def save (request : AuthenticatedUpdateRequest) : StoreProc Unit := do
  Proc.check (requestValid request) .invalidArgument
  Proc.check store.durabilitySupported .durabilityUnsupported
  match request.release with
  | none => Proc.throw .invalidArgument
  | some release => store.saveRelease request release

/-! ## Loading -/

/-- `PersistedUpdateRequestBuffers`: the capacities, `none` for a null buffer. -/
abbrev PersistedUpdateRequestBuffers := Payload → Option Nat

/-- `ReadFile` of a record. -/
def readState (path : Path) : StoreProc Bytes := do
  let found ← Proc.orElse .corrupt (stat path)
  Proc.check (found.type = .regularFile ∧ found.size = kPersistedUpdateRequestStateBytes) .corrupt
  let encoded ← Proc.orElse .corrupt (readFile path)
  report
  return encoded

/-- `ReadVerifiedFile` -/
def readVerifiedFile (path : Path) (expectedSize : Nat) (expectedHash : Digest) :
    StoreProc Content := do
  let found ← look path
  Proc.check (found.type ≠ .missing) .notFound
  Proc.check (found.type = .regularFile ∧ found.size = expectedSize) .conflict
  let content ← Proc.orElse .fileSystemError (readFile path)
  report
  Proc.check (store.sha256 content = expectedHash) .hashMismatch
  return content

/-- The turn of `LoadNamed` for one payload. -/
def loadPayload (root : Path) (buffers : PersistedUpdateRequestBuffers) (state : RequestState)
    (payload : Payload) : StoreProc Content := do
  let size := state.size payload
  let capacity := (buffers payload).getD 0
  Proc.check (size ≠ 0 ∧ size ≤ payload.maximum ∧ size ≤ capacity)
    (if capacity < size then .workspaceTooSmall else .corrupt)
  Proc.check (joins root payload.fileName) .invalidIdentity
  store.readVerifiedFile (payloadPath root payload) size (state.sha256 payload)

/-- The request `LoadNamed` returns. -/
def loadedRequest (root : Path) (state : RequestState)
    (installed gitHub manifest signature : Bytes) : AuthenticatedUpdateRequest where
  release := some
    { acquisitionMode := state.acquisitionMode
      installedBuildInfo := installed
      githubResponse := gitHub
      manifest := manifest
      signature := signature }
  runningBoard := state.board
  transactionRoot := root
  transactionId := state.transactionId
  oldBootGeneration := state.oldBootGeneration
  newBootGeneration := state.newBootGeneration
  consentSha256 := state.consentSha256
  resetRequired := state.resetRequired
  resetApproved := state.resetApproved
  foregroundAuthorizationToken := 0

/-- `LoadNamed` with the fields of its record. -/
def loadState (root : Path) (buffers : PersistedUpdateRequestBuffers) (state : RequestState) :
    StoreProc AuthenticatedUpdateRequest := do
  Proc.check (store.sha256 (rootPreimage root) = state.rootSha256) .invalidIdentity
  let installed ← store.loadPayload root buffers state .installed
  let gitHub ← store.loadPayload root buffers state .gitHub
  let manifest ← store.loadPayload root buffers state .manifest
  let signature ← store.loadPayload root buffers state .signature
  Proc.check (state.oldBootGeneration ≠ 0 ∧ state.oldBootGeneration < state.newBootGeneration ∧
    state.transactionId ≠ .zero 16 ∧ state.consentSha256 ≠ .zero 32) .invalidIdentity
  return loadedRequest root state installed gitHub manifest signature

/-- `LoadNamed` -/
def loadNamed (root : Path) (name : RecordName) (expectedBoard : BoardFamily)
    (buffers : PersistedUpdateRequestBuffers) : StoreProc AuthenticatedUpdateRequest := do
  Proc.check (boundedRoot root ∧ name ≠ .retiring ∧ isKnownBoardFamily expectedBoard ∧
    Payload.all.all fun payload => (buffers payload).isSome) .invalidArgument
  Proc.check (joins root name.fileName) .invalidIdentity
  let found ← look (recordPath root name)
  Proc.check (found.type ≠ .missing) .notFound
  Proc.check (found.type = .regularFile ∧ found.size = kPersistedUpdateRequestStateBytes) .corrupt
  let encoded ← readState (recordPath root name)
  match RequestState.parse expectedBoard encoded with
  | none => Proc.throw .corrupt
  | some state => store.loadState root buffers state

/-- `Load` -/
def load (root : Path) (expectedBoard : BoardFamily) (buffers : PersistedUpdateRequestBuffers) :
    StoreProc AuthenticatedUpdateRequest :=
  store.loadNamed root .active expectedBoard buffers

/-- `LoadCommitted` -/
def loadCommitted (root : Path) (expectedBoard : BoardFamily)
    (buffers : PersistedUpdateRequestBuffers) : StoreProc AuthenticatedUpdateRequest :=
  store.loadNamed root .committed expectedBoard buffers

end UpdateTransactionRequestStore

namespace RequestStore

/-! ## Removing -/

/-- The turn of a removal for one payload. -/
def removePayload (root : Path) (payload : Payload) : StoreProc Unit := do
  Proc.check (joins root payload.fileName) .fileSystemError
  removeSynced (payloadPath root payload)
  report
  Proc.check (partFits root payload.fileName) .fileSystemError
  removeSynced (partOf (payloadPath root payload))
  report

/-- The payload loop of `DiscardNamed` and `DiscardCommitted`. -/
def removePayloads (root : Path) : StoreProc Unit :=
  Proc.forIndexed (fun _ payload => removePayload root payload) 0 Payload.all

/-- `DiscardNamed` of the active record, as `Discard` calls it. -/
def discard (root : Path) : StoreProc Unit := do
  Proc.check (boundedRoot root) .invalidArgument
  Proc.check (joins root RecordName.committed.fileName) .fileSystemError
  Proc.check (joins root RecordName.retiring.fileName) .fileSystemError
  let other ← look (recordPath root .committed)
  let retiring ← look (recordPath root .retiring)
  Proc.check (other.type = .missing ∧ retiring.type = .missing) .conflict
  Proc.check (joins root RecordName.active.fileName) .fileSystemError
  removeSynced (recordPath root .active)
  report
  removePayloads root

/-- A record file is there, and has the size of one. -/
def isRecord (found : UpdateFileStat) : Prop :=
  found.type = .regularFile ∧ found.size = kPersistedUpdateRequestStateBytes

instance (found : UpdateFileStat) : Decidable (isRecord found) :=
  inferInstanceAs (Decidable (_ ∧ _))

/-- The checks of `DiscardCommitted` that a transaction without records has no
payloads left. -/
def payloadsGone (root : Path) : StoreProc Unit :=
  Proc.forIndexed (fun _ (payload : Payload) => do
    Proc.check (joins root payload.fileName) .conflict
    let found ← Proc.orElse .conflict (stat (payloadPath root payload))
    Proc.check (found.type = .missing) .conflict
    Proc.check (partFits root payload.fileName) .conflict
    let temporary ← Proc.orElse .conflict (stat (partOf (payloadPath root payload)))
    Proc.check (temporary.type = .missing) .conflict) 0 Payload.all

/-- The end of `DiscardCommitted` once the retiring record is in place. -/
def finishRetiring (root : Path) : StoreProc Unit := do
  removePayloads root
  removeSynced (recordPath root .retiring)
  report

/-- `DiscardCommitted` -/
def discardCommitted (root : Path) : StoreProc Unit := do
  Proc.check (boundedRoot root) .invalidArgument
  Proc.check (joins root RecordName.active.fileName) .fileSystemError
  Proc.check (joins root RecordName.committed.fileName) .fileSystemError
  Proc.check (joins root RecordName.retiring.fileName) .fileSystemError
  let active ← look (recordPath root .active)
  let committed ← look (recordPath root .committed)
  let retiring ← look (recordPath root .retiring)
  Proc.check (active.type = .missing) .conflict
  if isRecord committed ∧ retiring.type = .missing then do
    Proc.orElse .fileSystemError
      (rename (recordPath root .committed) (recordPath root .retiring) false)
    Proc.orElse .fileSystemError (syncContainingDirectory (recordPath root .retiring))
    report
    finishRetiring root
  else if committed.type = .missing ∧ isRecord retiring then do
    Proc.orElse .fileSystemError (syncContainingDirectory (recordPath root .retiring))
    finishRetiring root
  else if committed.type = .missing ∧ retiring.type = .missing then payloadsGone root
  else Proc.throw .conflict

/-- `Deactivate` -/
def deactivate : StoreProc Unit := do
  Proc.check (boundedRoot kUpdateTransactionRoot) .invalidArgument
  Proc.check (joins kUpdateTransactionRoot RecordName.active.fileName) .fileSystemError
  removeSynced (recordPath kUpdateTransactionRoot .active)
  report

/-! ## The persistence interface -/

/-- The statuses of `UpdateRequestPersistenceStatus` but `Ok`, as
`RetainCommitted` returns them. -/
inductive PersistenceFailure where
  | failed
  | recoveryProgressFailed
deriving DecidableEq, Repr

/-- `RetainCommitted`, by the root of its binding. -/
def retainCommitted (root : Path) : Proc PersistenceFailure Unit Volume Unit := do
  Proc.check (boundedRoot root ∧ root = kUpdateTransactionRoot) .failed
  Proc.check (joins root RecordName.active.fileName) .failed
  Proc.check (joins root RecordName.committed.fileName) .failed
  Proc.check (joins root RecordName.retiring.fileName) .failed
  let active ← Proc.orElse .failed (stat (recordPath root .active))
  let committed ← Proc.orElse .failed (stat (recordPath root .committed))
  let retiring ← Proc.orElse .failed (stat (recordPath root .retiring))
  Proc.check (retiring.type = .missing) .failed
  if active.type = .missing ∧ isRecord committed then do
    Proc.orElse .failed (syncContainingDirectory (recordPath root .committed))
    Proc.orElse .recoveryProgressFailed barrier
  else do
    Proc.check (isRecord active ∧ committed.type = .missing) .failed
    Proc.orElse .failed (rename (recordPath root .active) (recordPath root .committed) false)
    Proc.orElse .failed (syncContainingDirectory (recordPath root .committed))
    let activeAfter ← Proc.orElse .failed (stat (recordPath root .active))
    let committedAfter ← Proc.orElse .failed (stat (recordPath root .committed))
    Proc.check (activeAfter.type = .missing ∧ isRecord committedAfter) .failed
    Proc.orElse .recoveryProgressFailed barrier

/-- The status of the persistence interface for a call of the store. -/
def persistenceStatus : Except StoreFailure Unit → UpdateRequestPersistenceStatus
  | .ok () => .ok
  | .error .recoveryProgressFailed => .recoveryProgressFailed
  | .error _ => .failed

end RequestStore

end BmxUpdate
