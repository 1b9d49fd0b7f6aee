import BmxUpdate.Installer.Evidence
import BmxUpdate.StoragePreflight

/-!
# Staging

`Engine::Stage` and its steps: checking the archive and the prepared
configurations, the storage preflight, the snapshots, the staged files, and the
activation of directories and files.

The snapshots and staged files of one call are counted in memory and journalled
once, just before the first change of a live path; from there on every step is
journalled by itself.
-/

namespace BmxUpdate

open Crash Volumes Wire

namespace Env

variable (env : Env)

/-! ## Prepared configurations -/

/-- The bytes the prepared content yields when it is read to its stated size. -/
def preparedBytes (prepared : PreparedConfigTemplate) : Option Content :=
  prepared.content.bind fun content =>
    if prepared.preparedSize.toNat ≤ content.length then
      some (content.take prepared.preparedSize.toNat)
    else none

/-- The status of `ValidatePreparedConfigs` after a failed check of the live
file against its prepared content. -/
def consentFailure : InstallerFailure → InstallerFailure
  | .fileHashMismatch => .configChangedSinceConsent
  | failure => failure

/-- The part of `ValidatePreparedConfigs` that looks at the live file: it is
what consent was given for or, on a resumed transaction, already the result. -/
def validateLiveConfig (resumable : Bool) (file : ManifestFile)
    (prepared : PreparedConfigTemplate) : EngineProc Unit := do
  let current ← Proc.orElse .fileSystemError (stat file.path)
  if prepared.originalExisted then
    match ← Proc.attempt (env.verifyFile file.path prepared.originalSize.toNat
        prepared.originalSha256) with
    | .ok () => return ()
    | .error failure =>
        if resumable then
          Proc.mapError consentFailure
            (env.verifyFile file.path prepared.preparedSize.toNat prepared.preparedSha256)
        else Proc.throw (consentFailure failure)
  else if current.type = .missing then return ()
  else if resumable then
    Proc.orElse .configChangedSinceConsent
      (env.verifyFile file.path prepared.preparedSize.toNat prepared.preparedSha256)
  else Proc.throw .configChangedSinceConsent

/-- The part of `ValidatePreparedConfigs` that reads the prepared content. -/
def validatePreparedContent (prepared : PreparedConfigTemplate) : EngineProc Unit := do
  match prepared.content with
  | none => Proc.throw .preparedConfigInvalid
  | some content => do
      Proc.check (content.length = prepared.preparedSize.toNat) .preparedConfigInvalid
      Proc.orElse .preparedConfigInvalid barrier
      Proc.orElse .recoveryProgressFailed (progressFor content)
      Proc.check (env.sha256 content = prepared.preparedSha256) .preparedConfigInvalid

/-- Whether the loaded journal belongs to the request's own transaction; a
transaction of another request is a conflict. -/
def resumableJournal : EngineProc Bool := do
  let s ← Proc.get
  match s.journal with
  | none => return false
  | some (record, _) =>
      if record.state = .idle then return false
      else if env.identityMatches record then return true
      else Proc.throw .journalConflict

/-- `ValidatePreparedConfigs` -/
def validatePreparedConfigs : EngineProc Unit := do
  env.loadJournal true
  let resumable ← env.resumableJournal
  Proc.forIndexed (fun _ file =>
    if file.policy ≠ .configTemplate then pure ()
    else
      match env.preparedConfig file with
      | none => Proc.throw .preparedConfigRequired
      | some prepared => do
          env.validateLiveConfig resumable file prepared
          env.validatePreparedContent prepared) 0 env.asset.files

/-! ## The archive -/

/-- `PrepareArchive` -/
def prepareArchive : EngineProc ZipArchive := do
  match env.request.downloadedZip with
  | none => Proc.throw .invalidArgument
  | some zip =>
      match zip.bytes with
      | none => Proc.throw .archiveIo
      | some bytes => do
          Proc.check (bytes.length = env.asset.downloadSize) .archiveIo
          Proc.orElse .recoveryProgressFailed progress
          Proc.orElse .archiveIo barrier
          Proc.orElse .recoveryProgressFailed (progressFor bytes)
          Proc.check (env.sha256 bytes = env.asset.sha256) .archiveHashMismatch
          Proc.check (zip.openStatus = .ok) .archiveInvalid
          Proc.check (zip.inventoryArchiveSize = env.asset.downloadSize ∧
            zip.inventoryInstalledSize = env.asset.installedSize) .inventoryMismatch
          Proc.check (zip.bindStatus ≠ .inventoryMismatch) .inventoryMismatch
          Proc.check (zip.bindStatus = .ok) .archiveInvalid
          env.validatePreparedConfigs
          return zip

/-! ## Storage preflight -/

/-- The demand of one more staged or snapshot file. -/
def growDemand (largest bytes allocation : Nat) : Option (Nat × Nat) :=
  (checkedAdd bytes allocation).map fun sum => (sum, max largest allocation)

/-- Check an existing snapshot before it is reused: against its evidence where
there is some, else against the live file. -/
def checkSnapshot (index : Nat) (file : ManifestFile) (destination : UpdateFileStat) :
    EngineProc Unit := do
  match ← Proc.attempt (env.readSnapshotEvidence index) with
  | .ok old => do
      Proc.check (old.existed = true) .rollbackEvidenceMissing
      Proc.orElse .rollbackEvidenceMissing
        (env.verifyFile (env.snapshot file) old.size old.digest)
  | .error .rollbackEvidenceMissing => do
      Proc.check (destination.type = .regularFile) .rollbackEvidenceMissing
      let source ← Proc.orElse .fileSystemError (env.hashFile file.path)
      env.verifyFile (env.snapshot file) source.2 source.1
  | .error failure => Proc.throw failure

/-- The snapshot part of one turn of the loop of `PreflightStorage`. -/
def preflightSnapshot (resumable : Bool) (completedSteps snapshotStep allocationUnit : Nat)
    (index : Nat) (file : ManifestFile) (destination : UpdateFileStat)
    (demand : StorageDemand) : EngineProc StorageDemand := do
  let snapshotStat ← Proc.orElse .fileSystemError (stat (env.snapshot file))
  match snapshotStat.type with
  | .regularFile => do
      env.checkSnapshot index file destination
      return demand
  | .directory => Proc.throw .unexpectedNodeType
  | .missing =>
      if destination.type = .regularFile ∧ (!resumable ∨ completedSteps ≤ snapshotStep) then
        match (roundUpUpdateAllocation destination.size allocationUnit).bind
            (growDemand demand.largestTemporaryFileBytes demand.snapshotBytes) with
        | none => Proc.throw .storageInsufficient
        | some (bytes, largest) =>
            return { demand with snapshotBytes := bytes, largestTemporaryFileBytes := largest }
      else return demand

/-- The staging part of one turn of the loop of `PreflightStorage`. -/
def preflightStaged (resumable : Bool) (completedSteps stageStep effectiveAllocation : Nat)
    (file : ManifestFile) (destination : UpdateFileStat) (demand : StorageDemand) :
    EngineProc StorageDemand := do
  let stagedStat ← Proc.orElse .fileSystemError (stat (env.staged file))
  match stagedStat.type with
  | .directory => Proc.throw .unexpectedNodeType
  | .regularFile => do
      env.verifyEffective (env.staged file) file
      return demand
  | .missing =>
      if (!resumable ∨ completedSteps ≤ stageStep) ∧
          ¬(file.policy = .preserve ∧ destination.type = .regularFile) then
        match growDemand demand.largestTemporaryFileBytes demand.stagedFilesBytes
            effectiveAllocation with
        | none => Proc.throw .storageInsufficient
        | some (bytes, largest) =>
            return { demand with
              stagedFilesBytes := bytes, largestTemporaryFileBytes := largest }
      else return demand

/-- One turn of the loop of `PreflightStorage`: the next snapshot step and the
demand so far. -/
def preflightFile (resumable : Bool) (completedSteps allocationUnit : Nat)
    (layout : StepLayout) (index : Nat) (file : ManifestFile)
    (progress : Nat × StorageDemand) : EngineProc (Nat × StorageDemand) := do
  match roundUpUpdateAllocation (env.effectiveSize file) allocationUnit with
  | none => Proc.throw .storageInsufficient
  | some effectiveAllocation => do
      let destination ← Proc.orElse .fileSystemError (stat file.path)
      Proc.check (destination.type ≠ .directory) .unexpectedNodeType
      let unchanged ← env.isNoop index
      if unchanged then return progress
      else do
        let demand ← env.preflightStaged resumable completedSteps
          (layout.fileStageBegin + index) effectiveAllocation file destination progress.2
        if file.policy.isSnapshot then do
          let demand ← env.preflightSnapshot resumable completedSteps progress.1
            allocationUnit index file destination demand
          return (progress.1 + 1, demand)
        else return (progress.1, demand)

/-- The loop of `PreflightStorage`. -/
def preflightFiles (resumable : Bool) (completedSteps allocationUnit : Nat)
    (layout : StepLayout) :
    Nat → List ManifestFile → Nat × StorageDemand → EngineProc (Nat × StorageDemand)
  | _, [], progress => return progress
  | index, file :: rest, progress => do
      let next ← env.preflightFile resumable completedSteps allocationUnit layout index file
        progress
      preflightFiles resumable completedSteps allocationUnit layout (index + 1) rest next

/-- `PreflightStorage` -/
def preflightStorage : EngineProc Unit := do
  Proc.orElse .storageInsufficient barrier
  Proc.check (∃ size ∈ env.volumeSize, 512 * 1024 * 1024 ≤ size) .storageInsufficient
  Proc.orElse .fileSystemError barrier
  match env.allocationUnit with
  | none => Proc.throw .fileSystemError
  | some allocationUnit => do
      Proc.check (isSupportedUpdateAllocationUnit allocationUnit = true) .storageInsufficient
      env.loadJournal true
      let resumable ← env.resumableJournal
      env.buildContentPlan
      match buildStepLayout env.asset,
          calculateUpdateMetadataAllocationBytes env.asset.files.length
            env.asset.directories.length allocationUnit with
      | none, _ => Proc.throw .invalidManifest
      | some _, none => Proc.throw .storageInsufficient
      | some layout, some metadataBytes => do
          let s ← Proc.get
          let completedSteps := (s.journal.map (·.1.completedSteps)).getD 0
          let checked ← env.preflightFiles resumable completedSteps allocationUnit layout 0
            env.asset.files
            (layout.snapshotBegin,
              ⟨0, 0, 0, 0, metadataBytes, kMinimumUpdateSafetyReserveBytes, 0⟩)
          let free ← Proc.orElse .fileSystemError (Proc.observe env.freeSpace)
          Proc.check (evaluateStoragePreflight free checked.2 = .sufficient)
            .storageInsufficient

/-- The bytes one file of `InitializeStageWork` adds to the remaining work. -/
def stageWork (file : ManifestFile) (destination staged : UpdateFileStat)
    (snapshot : Option UpdateFileStat) (remaining : Nat) : Option Nat := do
  let snapshotWork ←
    match snapshot with
    | none => some 0
    | some snapshot =>
        if snapshot.type = .regularFile then some snapshot.size
        else if snapshot.type = .missing ∧ destination.type = .regularFile then
          if destination.size ≤ (2 ^ 64 - 1) / 3 then some (destination.size * 3) else none
        else some 0
  let snapshotWork ←
    if file.policy = .configTemplate ∧ destination.type = .regularFile then
      checkedAdd snapshotWork destination.size
    else some snapshotWork
  let remaining ← checkedAdd remaining snapshotWork
  if file.policy = .preserve ∧ destination.type = .regularFile then some remaining
  else do
    let size := env.effectiveSize file
    let staging ← if size ≤ (2 ^ 64 - 1) / 2 then
      some (if staged.type = .regularFile then size else size * 2) else none
    let remaining ← checkedAdd remaining staging
    if file.policy.isStageActivated then checkedAdd remaining size else some remaining

/-- The loop of `InitializeStageWork`. -/
def stageWorkFiles : Nat → List ManifestFile → Nat → EngineProc Nat
  | _, [], remaining => return remaining
  | index, file :: rest, remaining => do
      let unchanged ← env.isNoop index
      if unchanged then stageWorkFiles (index + 1) rest remaining
      else do
        let destination ← Proc.orElse .fileSystemError (stat file.path)
        let staged ← Proc.orElse .fileSystemError (stat (env.staged file))
        let snapshot ← Proc.whenOr (file.policy.isSnapshot = true) none do
          let found ← Proc.orElse .fileSystemError (stat (env.snapshot file))
          return some found
        match env.stageWork file destination staged snapshot remaining with
        | none => Proc.throw .storageInsufficient
        | some remaining => stageWorkFiles (index + 1) rest remaining

/-- `InitializeStageWork`; the total only feeds the progress display. -/
def initializeStageWork : EngineProc Unit := do
  let _ ← env.stageWorkFiles 0 env.asset.files 0
  Proc.orElse .recoveryProgressFailed progress

/-! ## Snapshots -/

/-- The check `SnapshotFile` makes of a configuration that is to be replaced. -/
def checkConsentedSource (file : ManifestFile) (source : UpdateFileStat) :
    EngineProc Unit := do
  if file.policy = .configTemplate then
    match env.preparedConfig file with
    | none => Proc.throw .preparedConfigRequired
    | some prepared =>
        if prepared.originalExisted then
          Proc.orElse .configChangedSinceConsent
            (env.verifyFile file.path prepared.originalSize.toNat prepared.originalSha256)
        else Proc.check (source.type = .missing) .configChangedSinceConsent
  else return ()

/-- `SnapshotFile` for a file whose old content is already on record. -/
def snapshotKnown (file : ManifestFile) (source target : UpdateFileStat) (old : OldFile) :
    EngineProc Unit := do
  if old.existed = false then
    Proc.check (source.type = .missing ∧ target.type = .missing) .rollbackEvidenceMissing
  else if target.type = .missing then
    env.copyFileAtomicExpected file.path (env.snapshot file) old.size old.digest
  else
    Proc.orElse .rollbackEvidenceMissing
      (env.verifyFile (env.snapshot file) old.size old.digest)

/-- `SnapshotFile` for a file nothing is on record of: the evidence is written
after the copy. -/
def snapshotUnknown (index : Nat) (file : ManifestFile) (source target : UpdateFileStat) :
    EngineProc Unit := do
  match source.type with
  | .missing => do
      Proc.check (target.type = .missing) .rollbackEvidenceMissing
      env.writeSnapshotEvidence index ⟨false, 0, .zero 32⟩
  | .directory => Proc.throw .unexpectedNodeType
  | .regularFile => do
      let copied ← env.copyFileAtomic file.path (env.snapshot file)
      Proc.check (copied.1 = source.size) .fileSystemError
      env.writeSnapshotEvidence index ⟨true, copied.1, copied.2⟩

/-- `SnapshotFile` -/
def snapshotFile (index : Nat) (file : ManifestFile) : EngineProc Unit := do
  let source ← Proc.orElse .fileSystemError (stat file.path)
  let target ← Proc.orElse .fileSystemError (stat (env.snapshot file))
  let unchanged ← env.isNoop index
  if unchanged then return ()
  else do
    env.checkConsentedSource file source
    match ← Proc.attempt (env.readSnapshotEvidence index) with
    | .ok old => env.snapshotKnown file source target old
    | .error .rollbackEvidenceMissing => env.snapshotUnknown index file source target
    | .error failure => Proc.throw failure

/-! ## Staged files -/

/-- The body of the temporary file of `StagePreparedConfig`. -/
def fillPrepared (prepared : PreparedConfigTemplate) (temporary staged : Path) :
    EngineCheck Unit := do
  match preparedBytes prepared with
  | none => Proc.throw ()
  | some content => do
      write temporary content
      progressFor content
      Proc.check (env.sha256 content = prepared.preparedSha256) ()
      barrier
      barrier
      rename temporary staged false
      syncContainingDirectory staged

/-- `StagePreparedConfig` -/
def stagePreparedConfig (file : ManifestFile) : EngineProc Unit := do
  match env.preparedConfig file with
  | none => Proc.throw .preparedConfigRequired
  | some prepared => do
      Proc.orElse .preparedConfigRequired (ensureParents (env.staged file))
      let temporary := addSuffix (env.staged file) ".part"
      Proc.orElse .fileSystemError (removeIfPresent temporary)
      Proc.orElse .fileSystemError (createFileFresh temporary)
      Proc.orElse .fileSystemError
        (withCleanup (env.fillPrepared prepared temporary (env.staged file))
          (removeIfPresent temporary))
      env.verifyFile (env.staged file) prepared.preparedSize.toNat prepared.preparedSha256

/-- `TransactionExtractSink::Write` and `CommitEntry` up to the barrier. -/
def fillExtracted (file : ManifestFile) (content : Content) (temporary staged : Path) :
    EngineCheck Unit := do
  write temporary content
  progressFor content
  Proc.check (content.length = file.size.toNat ∧ env.sha256 content = file.sha256) ()
  barrier
  barrier
  rename temporary staged false
  syncContainingDirectory staged

/-- `ZipReader::ExtractOne` into a `TransactionExtractSink`: the member is
streamed once to check it and once more into the sink. -/
def extractOne (zip : ZipArchive) (file : ManifestFile) : EngineProc Unit := do
  Proc.orElse .archiveInvalid barrier
  match zip.member file.path with
  | none => Proc.throw .archiveInvalid
  | some content => do
      Proc.orElse .recoveryProgressFailed barrier
      let temporary := addSuffix (env.staged file) ".part"
      Proc.orElse .archiveInvalid do
        ensureParents (env.staged file)
        removeIfPresent temporary
        createFileFresh temporary
      Proc.orElse .archiveInvalid
        (withCleanup (env.fillExtracted file content temporary (env.staged file))
          (removeIfPresent temporary))
      Proc.orElse .archiveInvalid
        (env.verifyFile (env.staged file) file.size.toNat file.sha256)

/-- `StageFile` -/
def stageFile (zip : ZipArchive) (index : Nat) (file : ManifestFile) : EngineProc Unit := do
  let unchanged ← env.isNoop index
  if unchanged then return ()
  else do
    let destination ← Proc.orElse .fileSystemError (stat file.path)
    let stagedStat ← Proc.orElse .fileSystemError (stat (env.staged file))
    Proc.check (destination.type ≠ .directory) .unexpectedNodeType
    Proc.when (file.policy = .preserve ∨ file.policy = .metadata)
      (env.ensureMarker false index (destination.type = .regularFile))
    if file.policy = .preserve ∧ destination.type = .regularFile then
      Proc.check (stagedStat.type = .missing) .journalConflict
    else
      match stagedStat.type with
      | .regularFile => env.verifyEffective (env.staged file) file
      | .directory => Proc.throw .unexpectedNodeType
      | .missing =>
          if file.policy = .configTemplate then env.stagePreparedConfig file
          else env.extractOne zip file

/-! ## Activation -/

/-- `ActivateDirectory` -/
def activateDirectory (index : Nat) (directory : ManifestDirectory) : EngineProc Unit := do
  let found ← Proc.orElse .fileSystemError (stat directory.path)
  match found.type with
  | .directory => do
      let markerStat ← Proc.orElse .fileSystemError (stat (env.markerPath true index))
      match markerStat.type with
      | .regularFile => do
          let _ ← Proc.orElse .rollbackEvidenceMissing (env.markerExists true index)
          return ()
      | .directory => Proc.throw .rollbackEvidenceMissing
      | .missing => env.ensureMarker true index true
  | .regularFile => Proc.throw .unexpectedNodeType
  | .missing => do
      env.ensureMarker true index false
      Proc.orElse .fileSystemError do
        ensureParents directory.path
        createDirectory directory.path
        syncContainingDirectory directory.path

/-- The end of `ActivateFile`: move a staged file to its live path. -/
def activateStaged (file : ManifestFile) (destination : UpdateFileStat) : EngineProc Unit := do
  Proc.orElse .unexpectedNodeType (ensureParents file.path)
  let replace := file.policy = .managedReplace ∨ file.policy = .configTemplate ∨
    file.policy = .kernel
  Proc.check (replace ∨ destination.type = .missing) .preserveChanged
  Proc.check (destination.type ≠ .directory) .unexpectedNodeType
  Proc.orElse .fileSystemError do
    rename (env.staged file) file.path replace
    syncContainingDirectory file.path
  env.verifyEffective file.path file

/-- `ActivateFile` -/
def activateFile (index : Nat) (file : ManifestFile) : EngineProc Unit := do
  let unchanged ← env.isNoop index
  if unchanged then return ()
  else do
    let destination ← Proc.orElse .fileSystemError (stat file.path)
    let stagedStat ← Proc.orElse .fileSystemError (stat (env.staged file))
    let existed ← Proc.whenOr (file.policy = .preserve) false
      (Proc.orElse .journalConflict (env.markerExists false index))
    if existed then
      Proc.check (destination.type = .regularFile ∧ stagedStat.type = .missing)
        .preserveChanged
    else
      match stagedStat.type with
      | .missing => env.verifyEffective file.path file
      | .directory => Proc.throw .unexpectedNodeType
      | .regularFile => env.activateStaged file destination

/-! ## The call -/

/-- The snapshot loop of `Stage`; the counter is the in-memory high-water mark,
`step` the number of the next snapshot. -/
def stageSnapshots : Nat → List ManifestFile → Nat → Nat → EngineProc Nat
  | _, [], _, highWater => return highWater
  | index, file :: rest, step, highWater =>
      if file.policy.isSnapshot then do
        Proc.check (step ≤ highWater) .journalConflict
        if highWater = step then do
          env.snapshotFile index file
          stageSnapshots (index + 1) rest (step + 1) (highWater + 1)
        else stageSnapshots (index + 1) rest (step + 1) highWater
      else stageSnapshots (index + 1) rest step highWater

/-- The staging loop of `Stage`. -/
def stageFiles (zip : ZipArchive) : Nat → List ManifestFile → Nat → Nat → EngineProc Nat
  | _, [], _, highWater => return highWater
  | index, file :: rest, step, highWater => do
      Proc.check (step ≤ highWater) .journalConflict
      if highWater = step then do
        env.stageFile zip index file
        stageFiles zip (index + 1) rest (step + 1) (highWater + 1)
      else stageFiles zip (index + 1) rest (step + 1) highWater

/-- Run the step with number `step` if it is the next one, and journal it. -/
def journalledStep (step : Nat) (action : EngineProc Unit) : EngineProc Unit := do
  let record ← currentRecord
  Proc.check (step ≤ record.completedSteps) .journalConflict
  if record.completedSteps = step then do
    action
    env.advancePrepared
  else return ()

/-- The directory loop of `Stage`. -/
def activateDirectories (layout : StepLayout) : EngineProc Unit :=
  Proc.forIndexed (fun index directory =>
    env.journalledStep (layout.directoryActivateBegin + index)
      (env.activateDirectory index directory)) 0 env.asset.directories

/-- The file loop of `Stage`, from the number of the next step. -/
def activateFiles : Nat → List ManifestFile → Nat → EngineProc Unit
  | _, [], _ => return ()
  | index, file :: rest, step =>
      if file.policy.isStageActivated then do
        env.journalledStep step (env.activateFile index file)
        activateFiles (index + 1) rest (step + 1)
      else activateFiles (index + 1) rest step

/-- `Stage` in a PREPARED transaction. -/
def stagePrepared (zip : ZipArchive) (layout : StepLayout) : EngineProc InstallerSuccess := do
  env.preflightStorage
  env.initializeStageWork
  Proc.orElse .recoveryProgressFailed progress
  let record ← currentRecord
  let snapshotted ← env.stageSnapshots 0 env.asset.files layout.snapshotBegin
    record.completedSteps
  env.finalizeContentPlan
  let highWater ← env.stageFiles zip 0 env.asset.files layout.fileStageBegin snapshotted
  Proc.when (record.completedSteps < layout.directoryActivateBegin) do
    Proc.check (highWater = layout.directoryActivateBegin) .journalConflict
    env.advancePreparedTo highWater
  env.activateDirectories layout
  env.activateFiles 0 env.asset.files layout.fileActivateBegin
  let record ← currentRecord
  Proc.check (record.completedSteps = layout.stageEnd) .journalConflict
  env.writeTransition
    { record with
      generation := record.generation + 1
      state := .staged
      flags := record.flags |||
        (JournalFlags.snapshotComplete ||| JournalFlags.stagingComplete) }
  Proc.orElse .recoveryProgressFailed progress
  return .ok

/-- Bring a DOWNLOADED transaction to PREPARED. -/
def enterPrepared (record : JournalRecord) : EngineProc Unit :=
  Proc.when (record.state = .downloaded)
    (env.writeTransition
      { record with generation := record.generation + 1, state := .prepared })

/-- Stop with the status of a check that failed. -/
def require (checked : Except InstallerFailure Unit) : EngineProc Unit :=
  match checked with
  | .ok () => return ()
  | .error failure => Proc.throw failure

/-- `Engine::Stage` -/
def stage : EngineProc InstallerSuccess := do
  require (env.basicRequestValid true (some env.workspace) true)
  Proc.check (env.durabilitySupported = true) .fileSystemDurabilityUnsupported
  let zip ← env.prepareArchive
  match buildStepLayout env.asset with
  | none => Proc.throw .invalidManifest
  | some layout => do
      Proc.orElse .fileSystemError env.ensureTransactionDirectories
      env.initializeJournal layout
      let record ← currentRecord
      if record.state = .staged then return .alreadyStaged
      else do
        Proc.check (record.state = .downloaded ∨ record.state = .prepared) .wrongState
        env.enterPrepared record
        env.stagePrepared zip layout

end Env

end BmxUpdate
