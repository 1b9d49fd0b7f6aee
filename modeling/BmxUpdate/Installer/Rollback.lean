import BmxUpdate.Installer.Commit

/-!
# Rollback and retirement

`Engine::Rollback` with its restore steps, and `Engine::RetireRolledBack` and
`Engine::RetireCommitted` with the removal of what a transaction leaves behind.
-/

namespace BmxUpdate

open Crash Volumes Wire

namespace Env

variable (env : Env)

/-! ## Restoring files -/

/-- The number of the step that activates the file at `index`, as `RestoreFile`
counts it. -/
def activationStep (layout : StepLayout) (index : Nat) (file : ManifestFile) : Nat :=
  if file.policy = .kernel then
    layout.kernelBegin + countPolicy (· = .kernel) (env.asset.files.take index)
  else layout.fileActivateBegin + countPolicy (·.isStageActivated) (env.asset.files.take index)

/-- The number of the step that swaps the metadata file at `index`, as
`RestoreMetadata` counts it. -/
def metadataStep (layout : StepLayout) (index : Nat) : Nat :=
  layout.metadataBegin + countPolicy (· = .metadata) (env.asset.files.take index)

/-- The end of `RestoreFile` and `RestoreMetadata` for a file that was not there
before: remove the new file, and nothing but the new file. -/
def removeNew (file : ManifestFile) (size : Nat) (digest : Digest) : EngineProc Unit := do
  let destination ← Proc.orElse .fileSystemError (stat file.path)
  match destination.type with
  | .missing => return ()
  | .directory => Proc.throw .unexpectedNodeType
  | .regularFile => do
      Proc.orElse .rollbackEvidenceMissing (env.verifyFile file.path size digest)
      Proc.orElse .fileSystemError do
        removeFile file.path
        syncContainingDirectory file.path

/-- Put a verified copy of the old file back. -/
def restoreCopy (source : Path) (file : ManifestFile) (old : OldFile) : EngineProc Unit := do
  Proc.orElse .rollbackEvidenceMissing (env.verifyFile source old.size old.digest)
  env.replaceWithCopy source file.path
  Proc.orElse .rollbackEvidenceMissing (env.verifyFile file.path old.size old.digest)

/-- `RestoreMetadata` when the plan has no digest of the old file. -/
def restoreUnrecorded (file : ManifestFile) (existed : Bool) (old : UpdateFileStat) :
    EngineProc Unit := do
  let destination ← Proc.orElse .fileSystemError (stat file.path)
  let stagedStat ← Proc.orElse .fileSystemError (stat (env.staged file))
  Proc.check (destination.type = (if existed then .regularFile else .missing) ∧
    stagedStat.type = .regularFile ∧ old.type = .missing) .rollbackEvidenceMissing

/-- `RestoreMetadata` when the rollback copy of an old file is not there: the
old file must still be live and the new one still staged. -/
def confirmUnswapped (file : ManifestFile) (old : OldFile) : EngineProc Unit := do
  let destination ← Proc.orElse .fileSystemError (stat file.path)
  let stagedStat ← Proc.orElse .fileSystemError (stat (env.staged file))
  Proc.check (destination.type = .regularFile ∧ stagedStat.type = .regularFile)
    .rollbackEvidenceMissing
  Proc.orElse .rollbackEvidenceMissing (env.verifyFile file.path old.size old.digest)

/-- `RestoreMetadata` -/
def restoreMetadata (layout : StepLayout) (index : Nat) (file : ManifestFile) :
    EngineProc Unit := do
  let record ← currentRecord
  if record.completedSteps < env.metadataStep layout index ∨
      (record.state ≠ .committing ∧ record.state ≠ .committed ∧
        record.state ≠ .rollingBack) then return ()
  else do
    let existed ← Proc.orElse .rollbackEvidenceMissing (env.markerExists false index)
    let oldStat ← Proc.orElse .fileSystemError (stat (env.metadataOld file))
    match ← Proc.attempt (env.readMetadataEvidence index) with
    | .error .rollbackEvidenceMissing => env.restoreUnrecorded file existed oldStat
    | .error _ => Proc.throw .rollbackEvidenceMissing
    | .ok old => do
        Proc.check (old.existed = existed) .rollbackEvidenceMissing
        if existed then
          if oldStat.type ≠ .regularFile then env.confirmUnswapped file old
          else env.restoreCopy (env.metadataOld file) file old
        else do
          Proc.check (oldStat.type = .missing) .journalConflict
          env.removeNew file file.size.toNat file.sha256

/-- The end of `RestoreFile`, once the file is known to have been activated. -/
def restoreActivated (index : Nat) (file : ManifestFile) : EngineProc Unit := do
  if file.policy.isSnapshot then do
    let old ← env.readSnapshotEvidence index
    if old.existed then env.restoreCopy (env.snapshot file) file old
    else env.removeNew file (env.effectiveSize file) (env.effectiveDigest file)
  else do
    let existed ← Proc.orElse .journalConflict (env.markerExists false index)
    if existed then return ()
    else env.removeNew file (env.effectiveSize file) (env.effectiveDigest file)

/-- `RestoreFile` at the step the journal names as the next one: whether the
file was activated all the same. -/
def activatedUnjournalled (index : Nat) (file : ManifestFile) : EngineProc Bool := do
  let stagedStat ← Proc.orElse .fileSystemError (stat (env.staged file))
  match stagedStat.type with
  | .regularFile => return false
  | .directory => Proc.throw .unexpectedNodeType
  | .missing =>
      if file.policy = .preserve then do
        let existed ← Proc.orElse .journalConflict (env.markerExists false index)
        return !existed
      else return true

/-- `RestoreFile` -/
def restoreFile (layout : StepLayout) (index : Nat) (file : ManifestFile) :
    EngineProc Unit := do
  let unchanged ← env.isNoop index
  if unchanged then return ()
  else if file.policy = .metadata then env.restoreMetadata layout index file
  else do
    let record ← currentRecord
    if record.completedSteps < env.activationStep layout index file then return ()
    else do
      let activated ← Proc.whenOr
        (record.completedSteps = env.activationStep layout index file) true
        (env.activatedUnjournalled index file)
      if activated then env.restoreActivated index file
      else return ()

/-! ## Removing directories -/

/-- Remove a directory the transaction created, if it is empty. -/
def removeCreatedDirectory (directory : ManifestDirectory) : EngineProc Unit := do
  let found ← Proc.orElse .fileSystemError (stat directory.path)
  Proc.orElse .recoveryProgressFailed progress
  match found.type with
  | .missing => return ()
  | .regularFile => Proc.throw .unexpectedNodeType
  | .directory => do
      -- A directory that is not empty stays, and the refusal is not an error.
      let _ ← Proc.attempt (removeDirectory directory.path)
      let _ ← Proc.attempt (syncContainingDirectory directory.path)
      return ()

/-- `RemoveCreatedDirectories` -/
def removeCreatedDirectories (layout : StepLayout) : EngineProc Unit :=
  Proc.forIndexedDown (fun index directory => do
    let record ← currentRecord
    if record.completedSteps < layout.directoryActivateBegin + index then return ()
    else do
      let markerStat ← Proc.orElse .fileSystemError (stat (env.markerPath true index))
      match markerStat.type with
      | .missing =>
          -- At equality the activation of this directory may not have begun.
          Proc.check (record.completedSteps = layout.directoryActivateBegin + index)
            .journalConflict
      | .directory => Proc.throw .journalConflict
      | .regularFile => do
          let existed ← Proc.orElse .journalConflict (env.markerExists true index)
          if existed then return ()
          else removeCreatedDirectory directory) 0 env.asset.directories

/-! ## The call -/

/-- The record that enters ROLLING BACK after `record`. -/
def rollingRecord (record : JournalRecord) : JournalRecord :=
  { record with
    generation := record.generation + 1
    state := .rollingBack
    flags := record.flags ||| JournalFlags.rollbackRequested }

/-- Write the Idle record that ends the transaction. -/
def writeIdle : EngineProc InstallerSuccess := do
  let record ← currentRecord
  env.writeTransition (makeIdleJournalRecord (record.generation + 1))
  return .ok

/-- The shortcut of `Rollback` for a transaction that has no content plan yet. -/
def rollbackUnplanned (record : JournalRecord) : EngineProc InstallerSuccess := do
  env.writeTransition (rollingRecord record)
  env.writeIdle

/-- `may_be_armed` -/
def mayBeArmed (record : JournalRecord) : Bool :=
  record.state = .candidatePending ∨ record.state = .candidateHealthy ∨
    record.state = .committing ∨ record.state = .committed ∨
    record.flags &&& JournalFlags.trybootArmed ≠ 0

/-- `Rollback` with a content plan. -/
def rollbackPlanned (record : JournalRecord) (layout : StepLayout) :
    EngineProc InstallerSuccess := do
  env.loadContentPlan (decide (layout.directoryActivateBegin ≤ record.completedSteps))
  Proc.check (mayBeArmed record = true → env.backend.supported = true)
    .candidateBackendUnsupported
  Proc.when (record.state ≠ .rollingBack) (env.writeTransition (rollingRecord record))
  Proc.when (mayBeArmed record = true) do
    Proc.orElse .candidateBackendError (env.callBackend env.backend.disarmCandidate)
    Proc.orElse .recoveryProgressFailed progress
  Proc.forIndexedDown (fun index file => do
    env.restoreFile layout index file
    Proc.orElse .recoveryProgressFailed progress) 0 env.asset.files
  env.removeCreatedDirectories layout
  env.writeIdle

/-- Whether neither form of the content plan exists. -/
def noContentPlan : EngineCheck Bool := do
  let finalStat ← stat (env.contentPlanPath true)
  let preparedStat ← stat (env.contentPlanPath false)
  return finalStat.type = .missing ∧ preparedStat.type = .missing

/-- `Rollback` in a transaction that is past DOWNLOADED. -/
def rollbackPrepared (record : JournalRecord) (layout : StepLayout) :
    EngineProc InstallerSuccess := do
  let unplanned ← Proc.whenOr
    (record.state = .prepared ∧ record.completedSteps = layout.snapshotBegin) false
    (Proc.orElse .fileSystemError env.noContentPlan)
  if unplanned then env.rollbackUnplanned record
  else env.rollbackPlanned record layout

/-- `Engine::Rollback` -/
def rollback : EngineProc InstallerSuccess := do
  env.beginCall (some env.workspace) true
  env.loadJournal false
  let record ← currentRecord
  if record.state = .idle then return .nothingToRollback
  else do
    Proc.check (env.identityMatches record = true) .journalConflict
    if record.state = .discovered ∨ record.state = .downloaded then env.writeIdle
    else
      match buildStepLayout env.asset with
      | none => Proc.throw .invalidManifest
      | some layout => env.rollbackPrepared record layout

/-! ## Retirement -/

/-- `RemoveTransactionFile` -/
def removeTransactionFile (base : Path) (relative : Path) : EngineCheck Unit := do
  removeFileAndTemporary (base ++ relative)
  progress

/-- `TryRemoveDerivedDirectories`: the directories above `base/relative` down to
`base` itself, from the bottom up; what is not empty stays. -/
def tryRemoveDerivedDirectories (base relative : Path) : EngineProc Unit :=
  Proc.forIndexedDown (fun _ depth => do
    let _ ← Proc.attempt (removeDirectory (base ++ relative.take depth))
    let _ ← Proc.attempt (syncContainingDirectory (base ++ relative.take depth))
    return ()) 0 (List.range relative.length)

/-- `RemoveAndVerifyDirectory` -/
def removeAndVerifyDirectory (path : Path) : EngineCheck Unit := do
  removeDirectory path
  syncContainingDirectory path
  let found ← stat path
  Proc.check (found.type = .missing) ()

/-- `kActiveExpectedRootEntries` and `kCommittedExpectedRootEntries` -/
def expectedRootEntries (activeRequest : Bool) : List String :=
  [if activeRequest then "request-state.bin" else "committed-state.bin", "journal.a",
    "journal.b", "journal.tmp", "request-installed.bin", "request-github.bin",
    "request-manifest.bin", "request-signature.bin"]

/-- The status of a failed removal: a failed progress report takes precedence. -/
def removalFailure : EngineProc InstallerFailure := do
  let s ← Proc.get
  return if s.progressFailed then .recoveryProgressFailed else .fileSystemError

/-- The removal of the staged, snapshot and rollback copies. -/
def removeTransactionFiles : EngineProc Unit :=
  Proc.forIndexed (fun _ file => do
    match ← Proc.attempt (η := InstallerFailure) (removeCopies file) with
    | .ok () => return ()
    | .error () => do
        let failure ← removalFailure
        Proc.throw failure) 0 env.asset.files
where
  /-- The three copies of one file. -/
  removeCopies (file : ManifestFile) : EngineCheck Unit := do
    removeTransactionFile env.stageRoot file.path
    removeTransactionFile env.snapshotRoot file.path
    removeTransactionFile env.metadataOldRoot file.path

/-- The removal of the files of the state directory. -/
def removeStateFiles : EngineProc Unit := do
  Proc.forIndexed (fun index _ => do
    Proc.orElse .fileSystemError (removeFileAndTemporary (env.markerPath false index))
    Proc.orElse .recoveryProgressFailed progress) 0 env.asset.files
  env.removeSnapshotEvidenceFiles
  Proc.orElse .fileSystemError do
    Proc.forIndexed (fun index _ => removeFileAndTemporary (env.markerPath true index)) 0
      env.asset.directories
    removeFileAndTemporary (env.contentPlanPath false)
    removeFileAndTemporary (env.contentPlanPath true)

/-- The removal of the private directories. -/
def removeTransactionDirectories : EngineProc Unit := do
  Proc.forIndexed (fun _ file => do
    tryRemoveDerivedDirectories env.stageRoot file.path
    tryRemoveDerivedDirectories env.snapshotRoot file.path
    tryRemoveDerivedDirectories env.metadataOldRoot file.path) 0 env.asset.files
  Proc.forIndexed (fun _ directory => do
    tryRemoveDerivedDirectories env.stageRoot directory.path
    tryRemoveDerivedDirectories env.snapshotRoot directory.path
    tryRemoveDerivedDirectories env.metadataOldRoot directory.path) 0
    env.asset.directories
  Proc.orElse .fileSystemError do
    removeAndVerifyDirectory env.stageRoot
    removeAndVerifyDirectory env.snapshotRoot
    removeAndVerifyDirectory env.stateRoot
    removeAndVerifyDirectory env.metadataOldRoot

/-- The removal of the journals, the selected one last. -/
def removeJournals : EngineProc Unit := do
  let s ← Proc.get
  let newer := (s.journal.map (·.2)).getD .b
  Proc.orElse .fileSystemError do
    removeIfPresent env.journalTemp
    removeIfPresent (env.journalPath newer.other)
    removeIfPresent (env.journalPath newer)
  Proc.modify fun s => { s with journal := none }

/-- `RemoveTransactionArtifacts` -/
def removeTransactionArtifacts (activeRequest : Bool) : EngineProc Unit := do
  env.removeTransactionFiles
  env.removeStateFiles
  env.removeTransactionDirectories
  let onlyExpected ← Proc.orElse .fileSystemError
    (directoryContainsOnly env.root (expectedRootEntries activeRequest))
  Proc.check (onlyExpected = true) .retentionConflict
  env.removeJournals

/-- `Engine::RetireRolledBack` -/
def retireRolledBack : EngineProc InstallerSuccess := do
  env.beginCall (some env.workspace) false
  env.loadJournal true
  let s ← Proc.get
  Proc.check (∀ journal ∈ s.journal, journal.1.state = .idle) .wrongState
  env.removeTransactionArtifacts true
  return if s.journal.isNone then .alreadyRetired else .ok

/-- `Engine::RetireCommitted` -/
def retireCommitted : EngineProc InstallerSuccess := do
  env.beginCall (some env.workspace) false
  match ← Proc.attempt (env.loadJournal false) with
  | .error failure => do
      let s ← Proc.get
      -- The last journal may be gone already.
      if failure = .wrongState ∧ s.journal.isNone then do
        env.removeTransactionArtifacts false
        return .alreadyRetired
      else Proc.throw failure
  | .ok () => do
      let record ← currentRecord
      Proc.check (record.state = .committed) .wrongState
      Proc.check (env.identityMatches record = true) .journalConflict
      env.removeTransactionArtifacts false
      return .ok

end Env

end BmxUpdate
