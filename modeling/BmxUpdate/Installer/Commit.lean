import BmxUpdate.Installer.Stage

/-!
# Arming, health and commit

`Engine::Arm`, `Engine::Healthy` and `Engine::Commit`.  Commit checks the whole
candidate once, enters COMMITTING, and from there on journals the kernels, the
metadata files and the selector step by step.
-/

namespace BmxUpdate

open Crash Volumes Wire

namespace Env

variable (env : Env)

/-- A call of the candidate backend, which keeps no part of the engine's state. -/
def callBackend (call : CandidateContext → FsProc Unit Unit) : EngineCheck Unit :=
  Proc.isolate () (call env.candidate)

/-- The checks all calls but `Stage` begin with: the journal must exist. -/
def beginCall (workspace : Option InstallerWorkspace) (requirePrepared : Bool) :
    EngineProc Unit := do
  require (env.basicRequestValid false workspace requirePrepared)
  Proc.check (env.durabilitySupported = true) .fileSystemDurabilityUnsupported

/-- `Engine::Arm` -/
def arm : EngineProc InstallerSuccess := do
  env.beginCall none true
  env.loadJournal false
  let record ← currentRecord
  Proc.check (env.identityMatches record = true) .journalConflict
  if record.state = .candidatePending then return .alreadyArmed
  else do
    Proc.check (record.state = .staged) .wrongState
    env.loadContentPlan true
    Proc.check (∃ layout ∈ buildStepLayout env.asset,
      record.completedSteps = layout.armStep ∧ record.totalSteps = layout.total)
      .journalConflict
    Proc.check (env.backend.supported = true) .candidateBackendUnsupported
    Proc.orElse .candidateBackendError (env.callBackend env.backend.armCandidate)
    env.writeTransition
      { record with
        generation := record.generation + 1
        state := .candidatePending
        flags := record.flags ||| JournalFlags.trybootArmed
        completedSteps := record.completedSteps + 1 }
    return .ok

/-- `Engine::Healthy` -/
def healthy : EngineProc InstallerSuccess := do
  env.beginCall none true
  env.loadJournal false
  let record ← currentRecord
  Proc.check (env.identityMatches record = true) .journalConflict
  if record.state = .candidateHealthy then return .alreadyHealthy
  else do
    Proc.check (record.state = .candidatePending) .wrongState
    Proc.check (env.backend.supported = true) .candidateBackendUnsupported
    Proc.check (∃ layout ∈ buildStepLayout env.asset,
      record.completedSteps = layout.healthStep) .journalConflict
    env.writeTransition
      { record with
        generation := record.generation + 1
        state := .candidateHealthy
        flags := record.flags ||| JournalFlags.candidateHealthy
        completedSteps := record.completedSteps + 1 }
    return .ok

/-! ## Commit -/

/-- The check `VerifyCandidateFiles` makes of one file. -/
def verifyCandidateFile (index : Nat) (file : ManifestFile) : EngineProc Unit := do
  let unchanged ← env.isNoop index
  if unchanged then env.verifyEffective file.path file
  else
    match file.policy with
    | .metadata | .kernel => env.verifyEffective (env.staged file) file
    | .preserve => do
        let existed ← Proc.orElse .journalConflict (env.markerExists false index)
        if existed then return ()
        else env.verifyFile file.path file.size.toNat file.sha256
    | .managedReplace | .configTemplate => env.verifyEffective file.path file

/-- `VerifyCandidateFiles`; the candidate selector names the temporary kernel
now and is left to the backend. -/
def verifyCandidateFiles : EngineProc Unit :=
  Proc.forIndexed (fun index file => do
    Proc.when (¬(file.policy = .configTemplate ∧ file.path = kCandidateSelectorPath))
      (env.verifyCandidateFile index file)
    Proc.orElse .recoveryProgressFailed progress) 0 env.asset.files

/-- `CommitMetadata` once the staged file is gone: the swap has been made. -/
def confirmMetadata (index : Nat) (file : ManifestFile) : EngineProc Unit := do
  let markerExisted ← Proc.orElse .rollbackEvidenceMissing (env.markerExists false index)
  let old ← Proc.orElse .rollbackEvidenceMissing (env.readMetadataEvidence index)
  Proc.check (markerExisted = old.existed) .rollbackEvidenceMissing
  Proc.when (old.existed = true) (Proc.orElse .rollbackEvidenceMissing
    (env.verifyFile (env.metadataOld file) old.size old.digest))
  env.verifyFile file.path file.size.toNat file.sha256

/-- The first rename of `CommitMetadata`: the type of the rollback copy after
the live file, if there is one, was moved to it. -/
def moveOldMetadata (file : ManifestFile) (existed : Bool)
    (destination old : UpdateFileStat) : EngineProc UpdateNodeType := do
  match destination.type with
  | .directory => Proc.throw .unexpectedNodeType
  | .missing => return old.type
  | .regularFile => do
      Proc.check (old.type = .missing) .journalConflict
      Proc.check (existed = true) .fileSystemError
      Proc.orElse .fileSystemError do
        ensureParents (env.metadataOld file)
        rename file.path (env.metadataOld file) false
        syncContainingDirectory (env.metadataOld file)
      return .regularFile

/-- `CommitMetadata` while the staged file is there. -/
def swapMetadata (index : Nat) (file : ManifestFile) (destination old : UpdateFileStat) :
    EngineProc Unit := do
  let existed ← Proc.orElse .journalConflict (env.markerExists false index)
  let evidence ← Proc.orElse .rollbackEvidenceMissing (env.readMetadataEvidence index)
  Proc.check (evidence.existed = existed) .rollbackEvidenceMissing
  Proc.when (existed = true) (Proc.orElse .rollbackEvidenceMissing
    (env.verifyFile (if old.type = .regularFile then env.metadataOld file else file.path)
      evidence.size evidence.digest))
  let oldType ← env.moveOldMetadata file existed destination old
  Proc.check (existed = true → oldType = .regularFile) .rollbackEvidenceMissing
  Proc.check (existed = false → oldType = .missing) .journalConflict
  Proc.orElse .fileSystemError do
    ensureParents file.path
    rename (env.staged file) file.path false
    syncContainingDirectory file.path
  env.verifyFile file.path file.size.toNat file.sha256

/-- `CommitMetadata` -/
def commitMetadata (index : Nat) (file : ManifestFile) : EngineProc Unit := do
  let unchanged ← env.isNoop index
  if unchanged then return ()
  else do
    let stageStat ← Proc.orElse .fileSystemError (stat (env.staged file))
    let destination ← Proc.orElse .fileSystemError (stat file.path)
    let old ← Proc.orElse .fileSystemError (stat (env.metadataOld file))
    match stageStat.type with
    | .missing => env.confirmMetadata index file
    | .directory => Proc.throw .unexpectedNodeType
    | .regularFile => env.swapMetadata index file destination old

/-- One journalled step of `Commit`: run the step with number `step` if it is
the next one and journal it. -/
def commitStep (step : Nat) (action : EngineProc Unit) : EngineProc Unit := do
  let record ← currentRecord
  Proc.check (step ≤ record.completedSteps) .journalConflict
  if record.completedSteps = step then do
    action
    let record ← currentRecord
    env.writeTransition
      { record with
        generation := record.generation + 1
        completedSteps := record.completedSteps + 1 }
    Proc.orElse .recoveryProgressFailed progress
  else return ()

/-- The loops of `Commit` over the files of one policy, from the number of the
next step. -/
def commitFiles (policy : ManifestFilePolicy)
    (action : Nat → ManifestFile → EngineProc Unit) :
    Nat → List ManifestFile → Nat → EngineProc Unit
  | _, [], _ => return ()
  | index, file :: rest, step =>
      if file.policy = policy then do
        env.commitStep step (action index file)
        commitFiles policy action (index + 1) rest (step + 1)
      else commitFiles policy action (index + 1) rest step

/-- The selector step of `Commit`. -/
def commitSelector (layout : StepLayout) : EngineProc Unit := do
  let record ← currentRecord
  if record.flags &&& JournalFlags.selectorCommitted = 0 then do
    Proc.check (record.completedSteps = layout.selectorStep) .journalConflict
    Proc.orElse .candidateBackendError (env.callBackend env.backend.commitCandidate)
    env.writeTransition
      { record with
        generation := record.generation + 1
        flags := record.flags ||| JournalFlags.selectorCommitted
        completedSteps := record.completedSteps + 1 }
    Proc.orElse .recoveryProgressFailed progress
  else Proc.check (record.completedSteps = layout.total) .journalConflict

/-- `Commit` from COMMITTING on. -/
def commitSteps (layout : StepLayout) : EngineProc InstallerSuccess := do
  env.commitFiles .kernel env.activateFile 0 env.asset.files layout.kernelBegin
  env.commitFiles .metadata env.commitMetadata 0 env.asset.files layout.metadataBegin
  env.commitSelector layout
  let record ← currentRecord
  Proc.check (record.completedSteps = layout.total) .journalConflict
  env.writeTransition
    { record with generation := record.generation + 1, state := .committed }
  return .ok

/-- Check the candidate and enter COMMITTING. -/
def enterCommitting (record : JournalRecord) : EngineProc Unit :=
  Proc.when (record.state = .candidateHealthy) do
    env.verifyCandidateFiles
    env.writeTransition
      { record with generation := record.generation + 1, state := .committing }

/-- `Engine::Commit` -/
def commit : EngineProc InstallerSuccess := do
  env.beginCall (some env.workspace) true
  env.loadJournal false
  let record ← currentRecord
  Proc.check (env.identityMatches record = true) .journalConflict
  if record.state = .committed then return .alreadyCommitted
  else do
    Proc.check (record.state = .candidateHealthy ∨ record.state = .committing) .wrongState
    env.loadContentPlan true
    Proc.check (env.backend.supported = true) .candidateBackendUnsupported
    match buildStepLayout env.asset with
    | none => Proc.throw .journalConflict
    | some layout => do
        Proc.check (record.totalSteps = layout.total) .journalConflict
        env.enterCommitting record
        env.commitSteps layout

end Env

end BmxUpdate
