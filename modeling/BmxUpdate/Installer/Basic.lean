import BmxUpdate.JournalCodec
import BmxUpdate.Manifest
import BmxUpdate.UpdateTypes

/-!
# The installer engine

The state of one `UpdateInstaller` call (`Engine` in `update_installer.cpp`),
the request it works on, and the file helpers all its steps share.

A step either succeeds or returns one of the failing statuses, so the statuses
are split: `InstallerFailure` is what a step stops with, `InstallerSuccess`
what a call can return instead of failing.

Left out, because no step decides anything by it: the byte counts behind the
progress display and the sizes of its events.  A progress report is an
operation that may fail, and once one has failed all later ones do.
-/

namespace BmxUpdate

open Crash Volumes Wire

/-! ## Statuses -/

/-- The statuses of `InstallerStatus` that stop a call; the engine itself never
returns `retentionInventoryMissing` and `kernelCollision`. -/
inductive InstallerFailure where
  | invalidArgument
  | invalidPath
  | invalidManifest
  | retentionInventoryMissing
  | retentionConflict
  | invalidIdentity
  | workspaceTooSmall
  | archiveIo
  | archiveHashMismatch
  | archiveInvalid
  | inventoryMismatch
  | storageInsufficient
  | preparedConfigRequired
  | preparedConfigInvalid
  | configChangedSinceConsent
  | fileSystemDurabilityUnsupported
  | fileSystemError
  | unexpectedNodeType
  | kernelCollision
  | preserveChanged
  | fileHashMismatch
  | journalCorrupt
  | journalConflict
  | journalCodecError
  | journalTransitionDenied
  | wrongState
  | candidateBackendUnsupported
  | candidateBackendError
  | rollbackEvidenceMissing
  | recoveryProgressFailed
deriving DecidableEq, Repr

/-- The statuses of `InstallerStatus` a call ends with when it did not fail. -/
inductive InstallerSuccess where
  | ok
  | alreadyStaged
  | alreadyArmed
  | alreadyHealthy
  | alreadyCommitted
  | alreadyRetired
  | nothingToRollback
deriving DecidableEq, Repr

/-! ## The request -/

structure InstallerIdentity where
  transactionId : TransactionId
  sourceReleaseSequence : UInt64
  oldBootGeneration : UInt64
  newBootGeneration : UInt64
  manifestSha256 : Digest
  consentSha256 : Digest
  resetRequired : Bool
  resetApproved : Bool
deriving DecidableEq

/-- `PreparedConfigTemplate`; `content` is `none` where its source cannot be
read. -/
structure PreparedConfigTemplate where
  path : Path
  content : Option Content
  originalExisted : Bool
  originalSize : UInt64
  originalSha256 : Digest
  preparedSize : UInt64
  preparedSha256 : Digest
deriving DecidableEq

structure PreparedConfigSet where
  entries : List PreparedConfigTemplate
  manifestSha256 : Digest
  consentSha256 : Digest
  resetRequired : Bool
  resetApproved : Bool
deriving DecidableEq

/-- The verdicts of the ZIP reader the installer tells apart. -/
inductive ZipStatus where
  | ok
  | inventoryMismatch
  | rejected
deriving DecidableEq, Repr

/-- The downloaded archive as the installer sees it through its reader: its
bytes, the verdicts of `Open` and `BindAuthenticatedInventory`, and for each
member the bytes streamed to the sink, if its stream is accepted. -/
structure ZipArchive where
  bytes : Option Content
  openStatus : ZipStatus
  inventoryArchiveSize : Nat
  inventoryInstalledSize : Nat
  bindStatus : ZipStatus
  member : Path → Option Content

/-- What an update is to be installed from, and under which identity. -/
structure InstallerRequest where
  manifest : ReleaseManifest
  downloadedZip : Option ZipArchive
  transactionRoot : Path
  identity : InstallerIdentity
  preparedConfigs : Option PreparedConfigSet

/-- The capacities of an `InstallerWorkspace`; a null buffer has size zero. -/
structure InstallerWorkspace where
  zipEntryCapacity : Nat
  expectedFileCapacity : Nat
  expectedDirectoryCapacity : Nat
  ioBufferSize : Nat
deriving DecidableEq

def kInstallerMinimumIoBufferBytes : Nat := 4096

/-! ## The environment of a call -/

structure UpdateDurabilityCapabilities where
  durableFileSync : Bool
  crashSafeFreshRename : Bool
  crashSafeReplaceWithBackup : Bool
  durableDirectoryUpdates : Bool
  powerLossRecoveryValidated : Bool
deriving DecidableEq

/-- The capabilities the installer and the candidate backend ask for;
`GetDurabilityCapabilities` fails with `none`. -/
def durabilitySufficient : Option UpdateDurabilityCapabilities → Bool
  | none => false
  | some c =>
      c.durableFileSync &&
        (c.crashSafeFreshRename || c.powerLossRecoveryValidated) &&
        (c.crashSafeReplaceWithBackup || c.powerLossRecoveryValidated) &&
        c.durableDirectoryUpdates

/-- What the candidate backend is told of the transaction. -/
structure CandidateContext where
  transactionRoot : Path
  stagingRoot : Path
  asset : ManifestAsset
  board : BoardFamily
  sourceReleaseSequence : UInt64
  targetReleaseSequence : UInt64
  oldBootGeneration : UInt64
  newBootGeneration : UInt64
  transactionId : TransactionId

/-- `CandidateBackend`.  A backend sees the volume and has no access to the
state of the engine that calls it. -/
structure CandidateBackend where
  supported : Bool
  armCandidate : CandidateContext → FsProc Unit Unit
  commitCandidate : CandidateContext → FsProc Unit Unit
  disarmCandidate : CandidateContext → FsProc Unit Unit

/-- What the installer is run with: the hash function, the answers of the
volume's adapter, the backend, the request, and the workspace of the calls that
get one. -/
structure Env where
  sha256 : Content → Digest
  durability : Option UpdateDurabilityCapabilities
  volumeSize : Option Nat
  allocationUnit : Option Nat
  freeSpace : Volume → Option Nat
  backend : CandidateBackend
  request : InstallerRequest
  workspace : InstallerWorkspace

/-- The two files the journal is written to in turn. -/
inductive JournalSlot where
  | a
  | b
deriving DecidableEq, Repr

def JournalSlot.other : JournalSlot → JournalSlot
  | .a => .b
  | .b => .a

/-- The members of `Engine` that change during a call.  `journal` stands for
`have_journal_`, `record_` and `slot_`; `contentPlan` for the loaded plan's
no-op bitmap and whether it is the final plan. -/
structure EngineState where
  journal : Option (JournalRecord × JournalSlot)
  progressFailed : Bool
  contentPlan : Option (List Bool × Bool)

/-- The state a call starts in. -/
def EngineState.initial : EngineState := ⟨none, false, none⟩

/-- A step of the engine that can fail with a status. -/
abbrev EngineProc (α : Type) := Proc InstallerFailure EngineState Volume α

/-- A step of the engine that returns `false` when it fails. -/
abbrev EngineCheck (α : Type) := FsProc EngineState α

/-! ## Paths of a transaction -/

namespace Env

variable (env : Env)

/-- `request_.manifest->asset` -/
abbrev asset : ManifestAsset := env.request.manifest.asset

/-- `root_` -/
abbrev root : Path := env.request.transactionRoot

/-- `stage_root_` -/
def stageRoot : Path := env.root ++ ["stage"]

/-- `snapshot_root_` -/
def snapshotRoot : Path := env.root ++ ["snapshot"]

/-- `state_root_` -/
def stateRoot : Path := env.root ++ ["state"]

/-- `metadata_old_root_` -/
def metadataOldRoot : Path := env.root ++ ["metadata-old"]

/-- `journal_a_` and `journal_b_` -/
def journalPath : JournalSlot → Path
  | .a => env.root ++ ["journal.a"]
  | .b => env.root ++ ["journal.b"]

/-- `journal_temp_` -/
def journalTemp : Path := env.root ++ ["journal.tmp"]

/-- The staged copy of a manifest file. -/
def staged (file : ManifestFile) : Path := env.stageRoot ++ file.path

/-- The snapshot of a manifest file. -/
def snapshot (file : ManifestFile) : Path := env.snapshotRoot ++ file.path

/-- The rollback copy of a metadata file. -/
def metadataOld (file : ManifestFile) : Path := env.metadataOldRoot ++ file.path

/-- `MarkerPath` -/
def markerPath (directory : Bool) (index : Nat) : Path :=
  env.stateRoot ++ [(if directory then "dir-existed-" else "file-existed-") ++ toString index]

/-- `SnapshotEvidencePath` -/
def snapshotEvidencePath (index : Nat) : Path :=
  env.stateRoot ++ ["snapshot-" ++ toString index]

/-- `ContentPlanPath` -/
def contentPlanPath (finalPlan : Bool) : Path :=
  env.stateRoot ++ [if finalPlan then "content-plan" else "content-plan.prepared"]

/-- `PreparedConfig` -/
def preparedConfig (file : ManifestFile) : Option PreparedConfigTemplate :=
  if file.policy = .configTemplate then
    env.request.preparedConfigs.bind fun set => set.entries.find? (·.path = file.path)
  else none

/-- `EffectiveSize` -/
def effectiveSize (file : ManifestFile) : Nat :=
  match env.preparedConfig file with
  | none => file.size.toNat
  | some prepared => prepared.preparedSize.toNat

/-- `EffectiveDigest` -/
def effectiveDigest (file : ManifestFile) : Digest :=
  match env.preparedConfig file with
  | none => file.sha256
  | some prepared => prepared.preparedSha256

/-- `Candidate` -/
def candidate : CandidateContext where
  transactionRoot := env.root
  stagingRoot := env.stageRoot
  asset := env.asset
  board := env.asset.board
  sourceReleaseSequence := env.request.identity.sourceReleaseSequence
  targetReleaseSequence := env.request.manifest.releaseSequence
  oldBootGeneration := env.request.identity.oldBootGeneration
  newBootGeneration := env.request.identity.newBootGeneration
  transactionId := env.request.identity.transactionId

/-! ## Valid requests -/

/-- `DurabilitySupported` -/
def durabilitySupported : Bool := durabilitySufficient env.durability

/-- The identity checks of `BasicRequestValid`. -/
def identityValid : Bool :=
  let identity := env.request.identity
  isKnownBoardFamily env.asset.board && env.request.manifest.releaseSequence ≠ 0 &&
    identity.sourceReleaseSequence ≠ 0 &&
    identity.sourceReleaseSequence < env.request.manifest.releaseSequence &&
    identity.oldBootGeneration ≠ 0 && identity.newBootGeneration ≠ 0 &&
    identity.oldBootGeneration ≠ identity.newBootGeneration &&
    identity.transactionId ≠ .zero 16 && identity.manifestSha256 ≠ .zero 32 &&
    identity.consentSha256 ≠ .zero 32 && env.asset.sha256 ≠ .zero 32 &&
    identity.resetRequired = identity.resetApproved && env.asset.files ≠ []

/-- The checks `BasicRequestValid` makes of one manifest file. -/
def manifestFileValid (file : ManifestFile) : Bool :=
  validRelativePath file.path kMaximumManifestPathBytes && file.sha256 ≠ .zero 32

/-- The checks `BasicRequestValid` makes of one prepared configuration. -/
def preparedEntryValid (requireWorkspace : Bool) (prior : List PreparedConfigTemplate)
    (entry : PreparedConfigTemplate) : Bool :=
  (!requireWorkspace || entry.content.isSome) &&
    validRelativePath entry.path kMaximumManifestPathBytes &&
    entry.preparedSha256 ≠ .zero 32 &&
    (!entry.originalExisted || entry.originalSha256 ≠ .zero 32) &&
    (entry.originalExisted || (entry.originalSize = 0 && entry.originalSha256 = .zero 32)) &&
    env.asset.files.countP (fun file => file.policy = .configTemplate && file.path = entry.path) +
      prior.countP (fun earlier => earlier.path = entry.path) = 1

/-- The checks `BasicRequestValid` makes of the prepared configurations. -/
def checkPreparedConfigs (requireWorkspace requirePrepared : Bool) :
    Except InstallerFailure Unit :=
  let identity := env.request.identity
  let configCount := countPolicy (· = .configTemplate) env.asset.files
  if configCount ≠ 0 ∧ requirePrepared then
    match env.request.preparedConfigs with
    | none => .error .preparedConfigRequired
    | some set =>
        if set.entries.length ≠ configCount then .error .preparedConfigRequired
        else if set.manifestSha256 ≠ identity.manifestSha256 ∨
            set.consentSha256 ≠ identity.consentSha256 ∨
            set.resetRequired ≠ identity.resetRequired ∨
            set.resetApproved ≠ identity.resetApproved then .error .preparedConfigInvalid
        else if (List.range set.entries.length).all fun index =>
            (set.entries[index]?.map fun entry =>
              env.preparedEntryValid requireWorkspace (set.entries.take index) entry).getD true
          then .ok ()
        else .error .preparedConfigInvalid
  else if configCount = 0 ∧ (env.request.preparedConfigs.map (·.entries.length)).getD 0 ≠ 0 then
    .error .preparedConfigInvalid
  else .ok ()

/-- The workspace checks of `BasicRequestValid`. -/
def workspaceValid (requireWorkspace : Bool) (workspace : Option InstallerWorkspace) : Bool :=
  match workspace with
  | none => !requireWorkspace
  | some workspace =>
      kInstallerMinimumIoBufferBytes ≤ workspace.ioBufferSize &&
        (!requireWorkspace ||
          (env.asset.files.length + env.asset.directories.length ≤ workspace.zipEntryCapacity &&
            env.asset.files.length ≤ workspace.expectedFileCapacity &&
            env.asset.directories.length ≤ workspace.expectedDirectoryCapacity))

/-- `BasicRequestValid`, with the status it sets when it returns `false`. -/
def basicRequestValid (requireWorkspace : Bool) (workspace : Option InstallerWorkspace)
    (requirePrepared : Bool) : Except InstallerFailure Unit := do
  if !env.identityValid then throw .invalidIdentity
  if (buildStepLayout env.asset).isNone then throw .invalidManifest
  if !env.asset.files.all manifestFileValid then throw .invalidManifest
  env.checkPreparedConfigs requireWorkspace requirePrepared
  if !env.asset.directories.all
      (fun directory => validRelativePath directory.path kMaximumManifestPathBytes) then
    throw .invalidManifest
  if !env.workspaceValid requireWorkspace workspace then throw .workspaceTooSmall
  if !validRelativePath env.root kInstallerMaximumPathBytes then throw .invalidPath

end Env

/-! ## Shared helpers -/

/-- `Progress` -/
def progress : EngineCheck Unit := do
  let s ← Proc.get
  if s.progressFailed then Proc.throw ()
  else
    match ← Proc.attempt (barrier : EngineCheck Unit) with
    | .ok () => return ()
    | .error () => do
        Proc.modify fun s => { s with progressFailed := true }
        Proc.throw ()

/-- The progress reports of a read or copy loop: none for an empty file. -/
def progressFor (content : Content) : EngineCheck Unit :=
  if content = [] then return () else progress

/-- Run a step that cleans up after itself when it fails: the cleanup's own
result is ignored. -/
def withCleanup {σ : Type} (step cleanup : FsProc σ Unit) : FsProc σ Unit := do
  match ← Proc.attempt step with
  | .ok () => return ()
  | .error () => do
      let _ ← Proc.attempt (η := Unit) cleanup
      Proc.throw ()

/-- A step that cleans up keeps what both the step and the cleanup keep. -/
theorem keeps_withCleanup {σ : Type} {allow : Fault → Prop} {I : Volume → Prop}
    {E : Unit → Prop} {Q : Unit → σ → Volume → Prop} {step cleanup : FsProc σ Unit} {s : σ}
    {d : Volume} (hstep : keeps allow I E step Q s d)
    (hcleanup : ∀ s' d', I d' → keeps allow I anyError cleanup (fun _ _ d' => I d') s' d') :
    keeps allow I E (withCleanup step cleanup) Q s d := by
  refine keeps_bind (wp_attempt (wp_mono hstep ?_ ?_ fun _ h => h))
  · exact fun _ _ _ h => keeps_pure h
  · rintro e s' d' ⟨hI, he⟩
    refine wp_bind (wp_attempt (wp_mono (hcleanup s' d' hI) ?_ ?_ fun _ h => h))
    · exact fun _ _ _ h => wp_throw ⟨h, he⟩
    · exact fun _ _ _ h => wp_throw ⟨h.1, he⟩

/-- The proper ancestors of a path, from the top down. -/
def properAncestors (path : Path) : List Path :=
  (List.range (path.length - 1)).map fun n => path.take (n + 1)

theorem mem_properAncestors {p target : Path} :
    p ∈ properAncestors target ↔ p ≠ [] ∧ p <+: target ∧ p ≠ target := by
  simp only [properAncestors, List.mem_map, List.mem_range]
  constructor
  · rintro ⟨n, hn, rfl⟩
    have hlength : (target.take (n + 1)).length = n + 1 := by
      rw [List.length_take]
      omega
    refine ⟨?_, List.take_prefix _ _, ?_⟩
    · intro h
      simp [h] at hlength
    · intro h
      rw [h] at hlength
      omega
  · rintro ⟨hne, hpre, hproper⟩
    have hpos : 0 < p.length := List.length_pos_iff.mpr hne
    have hle := hpre.length_le
    have hlt : p.length ≠ target.length := fun h => hproper (hpre.eq_of_length h)
    refine ⟨p.length - 1, by omega, ?_⟩
    rw [Nat.sub_add_cancel hpos]
    exact (List.prefix_iff_eq_take.mp hpre).symm

/-- A suffix changes the last name only. -/
@[simp] theorem properAncestors_addSuffix (path : Path) (suffix : String) :
    properAncestors (addSuffix path suffix) = properAncestors path := by
  simp only [properAncestors, length_addSuffix]
  refine List.map_congr_left fun n hn => take_addSuffix ?_ suffix
  have := List.mem_range.mp hn
  omega

/-- `EnsureParents` -/
def ensureParents (path : Path) : EngineCheck Unit :=
  Proc.forIndexed (fun _ ancestor => do
    createDirectory ancestor
    syncContainingDirectory ancestor) 0 (properAncestors path)

/-- `RemoveIfPresent` -/
def removeIfPresent (path : Path) : EngineCheck Unit := do
  let found ← stat path
  match found.type with
  | .missing => syncContainingDirectory path
  | .directory => Proc.throw ()
  | .regularFile => do
      removeFile path
      syncContainingDirectory path

/-- `RemoveFileAndTemporary` -/
def removeFileAndTemporary (path : Path) : EngineCheck Unit := do
  removeIfPresent path
  removeIfPresent (addSuffix path ".part")
  removeIfPresent (addSuffix path ".rollback")

namespace Env

variable (env : Env)

/-- `EnsureTransactionDirectories` -/
def ensureTransactionDirectories : EngineCheck Unit :=
  Proc.forIndexed (fun _ path => do
    ensureParents path
    createDirectory path
    syncContainingDirectory path) 0
    [env.root, env.stageRoot, env.snapshotRoot, env.stateRoot, env.metadataOldRoot]

/-- `HashFile`: the digest and the size of a file. -/
def hashFile (path : Path) : EngineCheck (Digest × Nat) := do
  let content ← readFile path
  progressFor content
  return (env.sha256 content, content.length)

/-- `VerifyFile` -/
def verifyFile (path : Path) (expectedSize : Nat) (digest : Digest) : EngineProc Unit := do
  let found ← Proc.orElse .fileSystemError (stat path)
  Proc.check (found.type = .regularFile ∧ found.size = expectedSize) .fileHashMismatch
  let actual ← Proc.orElse .fileSystemError (env.hashFile path)
  Proc.check (actual.2 = expectedSize ∧ actual.1 = digest) .fileHashMismatch

/-- `VerifyFile` against what a manifest file must become. -/
def verifyEffective (path : Path) (file : ManifestFile) : EngineProc Unit :=
  env.verifyFile path (env.effectiveSize file) (env.effectiveDigest file)

/-- Fill a file just created at `temporary`, make it durable and move it to
`path`, where nothing may be. -/
def publish (temporary path : Path) (content : Content) : EngineCheck Unit := do
  write temporary content
  progressFor content
  barrier
  barrier
  rename temporary path false
  syncContainingDirectory path

/-- The copy loop `CopyFileAtomic` and `CopyFileAtomicExpected` share, once the
destination's parents are there: the content copied. -/
def copyFresh (source destination : Path) : EngineProc Content := do
  let temporary := addSuffix destination ".part"
  Proc.orElse .fileSystemError (removeIfPresent temporary)
  let content ← Proc.orElse .fileSystemError (copySource source temporary)
  Proc.orElse .fileSystemError (withCleanup (publish temporary destination content)
    (removeIfPresent temporary))
  return content
where
  /-- Open both ends of the copy. -/
  copySource (source temporary : Path) : EngineCheck Content := do
    match ← Proc.attempt (η := Unit) (openBoth source temporary) with
    | .ok content => return content
    | .error () => do
        let _ ← Proc.attempt (η := Unit) (removeIfPresent temporary)
        Proc.throw ()
  openBoth (source temporary : Path) : EngineCheck Content := do
    let content ← readFile source
    createFileFresh temporary
    return content

/-- `CopyFileAtomic`: the size and the digest of what was copied. -/
def copyFileAtomic (source destination : Path) : EngineProc (Nat × Digest) := do
  let sourceStat ← Proc.orElse .fileSystemError (stat source)
  let destinationStat ← Proc.orElse .fileSystemError (stat destination)
  Proc.check (sourceStat.type = .regularFile) .unexpectedNodeType
  match destinationStat.type with
  | .regularFile => do
      let sourceHash ← Proc.orElse .fileSystemError (env.hashFile source)
      let destinationHash ← Proc.orElse .fileSystemError (env.hashFile destination)
      Proc.check (sourceHash = destinationHash) .fileHashMismatch
      return (sourceHash.2, sourceHash.1)
  | .directory => Proc.throw .unexpectedNodeType
  | .missing => do
      Proc.orElse .unexpectedNodeType (ensureParents destination)
      let content ← copyFresh source destination
      env.verifyFile destination content.length (env.sha256 content)
      return (content.length, env.sha256 content)

/-- `CopyFileAtomicExpected` -/
def copyFileAtomicExpected (source destination : Path) (expectedSize : Nat)
    (expectedDigest : Digest) : EngineProc Unit := do
  let sourceStat ← Proc.orElse .fileSystemError (stat source)
  let destinationStat ← Proc.orElse .fileSystemError (stat destination)
  Proc.check (sourceStat.type = .regularFile ∧ sourceStat.size = expectedSize)
    .rollbackEvidenceMissing
  match destinationStat.type with
  | .regularFile =>
      Proc.orElse .rollbackEvidenceMissing
        (env.verifyFile destination expectedSize expectedDigest)
  | .directory => Proc.throw .unexpectedNodeType
  | .missing => do
      Proc.orElse .unexpectedNodeType (ensureParents destination)
      let _ ← copyFresh source destination
      Proc.orElse .rollbackEvidenceMissing
        (env.verifyFile destination expectedSize expectedDigest)

/-- `ReplaceWithCopy` -/
def replaceWithCopy (source destination : Path) : EngineProc Unit := do
  let temporary := addSuffix destination ".rollback"
  Proc.orElse .fileSystemError (removeIfPresent temporary)
  let _ ← env.copyFileAtomic source temporary
  Proc.orElse .fileSystemError do
    rename temporary destination true
    syncContainingDirectory destination

end Env

/-! ## Results -/

/-- What a call reports (`InstallerResult`). -/
structure InstallerResult where
  status : Except InstallerFailure InstallerSuccess
  journalSlot : Option JournalSlot
  journalState : JournalState
  completedSteps : Nat
  totalSteps : Nat

/-- `Result`: a failed progress report overrides every status. -/
def EngineState.result (s : EngineState) (status : Except InstallerFailure InstallerSuccess) :
    InstallerResult where
  status := if s.progressFailed then .error .recoveryProgressFailed else status
  journalSlot := s.journal.map (·.2)
  journalState := (s.journal.map (·.1.state)).getD .idle
  completedSteps := (s.journal.map (·.1.completedSteps)).getD 0
  totalSteps := (s.journal.map (·.1.totalSteps)).getD 0

/-- How a call of the installer ends. -/
inductive CallOutcome where
  | returned (result : InstallerResult) (volume : Volume)
  | cut (volume : Volume)

/-- The volume a call leaves behind. -/
def CallOutcome.volume : CallOutcome → Volume
  | .returned _ v => v
  | .cut v => v

/-- The result a call returned, if it was not cut. -/
def CallOutcome.result? : CallOutcome → Option InstallerResult
  | .returned result _ => some result
  | .cut _ => none

/-- Run one call on a volume, under the faults its operations meet. -/
def runCall (call : EngineProc InstallerSuccess) (v : Volume) (faults : List Fault) :
    CallOutcome :=
  match call .initial ⟨v, faults⟩ with
  | .done success s w => .returned (s.result (.ok success)) w.disk
  | .error failure s w => .returned (s.result (.error failure)) w.disk
  | .cut w => .cut w

end BmxUpdate
