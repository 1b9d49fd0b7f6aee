import BmxUpdate.Installer.Run
import BmxUpdate.Orchestrator.Validate

/-!
# The orchestrator

`UpdateOrchestrator::Start`, `ResumeAfterBoot` and `RetireCommitted` with their
cleanup helpers, as programs over the operations of their collaborators.

The result is carried along and returned, as the source fills it in.  A
collaborator that is null is only told from one that is not; the helpers that
run after the null checks do not repeat them.
-/

namespace BmxUpdate

open Wire Volumes Interaction

/-! ## Results -/

inductive UpdateOrchestratorPhase where
  | none
  | validate
  | inspectJournal
  | persistRequest
  | download
  | verifyStoredArchive
  | prepareConfiguration
  | stage
  | armCandidate
  | requestCandidateReboot
  | restoreConfiguration
  | probeHealth
  | markHealthy
  | commit
  | rollback
  | requestPreviousReboot
  | cleanup
  | retirePrevious
deriving DecidableEq, Repr

inductive UpdateOrchestratorStatus where
  | candidateRebootRequested
  | updateCommitted
  | rollbackRebootRequested
  | interruptedBeforeCandidateCleaned
  | invalidArgument
  | authenticatedOfferInvalid
  | identityInvalid
  | consentInvalid
  | authorizationDenied
  | platformUnsupported
  | workspaceTooSmall
  | readinessBlocked
  | readinessProbeFailed
  | storageBeginFailed
  | requestPersistenceFailed
  | downloadFailed
  | downloadCanceled
  | downloadVerificationFailed
  | storageFinishFailed
  | storageOpenFailed
  | storedArchiveVerificationFailed
  | storageCloseFailed
  | preparedConfigFailed
  | preparedConfigInvalid
  | installerStageFailed
  | installerArmFailed
  | candidateRebootFailed
  | healthProbeFailed
  | candidateUnhealthy
  | installerHealthTransitionFailed
  | installerCommitFailed
  | installerRollbackFailed
  | recoveryJournalInvalid
  | recoveryDeactivationFailed
  | previousRebootFailed
  | recoveryProgressFailed
  | previousRetentionFailed
  | previousRetired
  | cleanupFailed
deriving DecidableEq, Repr

structure UpdateOrchestratorResult where
  status : UpdateOrchestratorStatus
  phase : UpdateOrchestratorPhase
  fetchStatus : ArchiveFetchStatus
  storageStatus : ArchiveStorageStatus
  persistenceStatus : UpdateRequestPersistenceStatus
  preparedConfigStatus : PreparedConfigProviderStatus
  releaseValidation : AuthenticatedReleaseValidationStatus
  authorization : AuthorizationConsentStatus
  readinessStatus : InstallReadinessGateStatus
  ready : Bool
  healthStatus : CandidateHealthStatus
  rollbackTrigger : UpdateOrchestratorStatus
  installerResult : InstallerReport
  rollbackResult : InstallerReport
  rollbackCleanupResult : InstallerReport
  verifiedArchiveBytes : Nat
  rollbackAttempted : Bool
  previousBootFailsafeRequested : Bool

/-- `InvalidInstallerResult` -/
def invalidInstallerReport : InstallerReport where
  status := .error .invalidArgument
  journalSelection := .noJournal
  journalState := .idle

/-- `InitialResult` -/
def UpdateOrchestratorResult.initial : UpdateOrchestratorResult where
  status := .invalidArgument
  phase := .none
  fetchStatus := .failed
  storageStatus := .failed
  persistenceStatus := .failed
  preparedConfigStatus := .unsupported
  releaseValidation := .invalidArgument
  authorization := .invalidArgument
  readinessStatus := .probeFailed
  ready := true
  healthStatus := .journalUnavailable
  rollbackTrigger := .invalidArgument
  installerResult := invalidInstallerReport
  rollbackResult := invalidInstallerReport
  rollbackCleanupResult := invalidInstallerReport
  verifiedArchiveBytes := 0
  rollbackAttempted := false
  previousBootFailsafeRequested := false

/-- The status a rejected request ends with. -/
def RequestValidation.status : RequestValidation → UpdateOrchestratorStatus
  | .invalidArgument => .invalidArgument
  | .offerInvalid => .authenticatedOfferInvalid
  | .identityInvalid => .identityInvalid
  | .consentInvalid => .consentInvalid

/-- Which collaborators are there. -/
structure Collaborators where
  releaseValidator : Bool
  authorization : Bool
  readiness : Bool
  transport : Bool
  storage : Bool
  requestPersistence : Bool
  preparedConfigs : Bool
  installer : Bool
  health : Bool
  reboot : Bool
deriving DecidableEq

/-! ## Accepted statuses -/

abbrev InstallerStatus := Except InstallerFailure InstallerSuccess

/-- `StageAccepted` -/
def stageAccepted : InstallerStatus → Bool
  | .ok .ok | .ok .alreadyStaged => true
  | _ => false

/-- `ArmAccepted` -/
def armAccepted : InstallerStatus → Bool
  | .ok .ok | .ok .alreadyArmed => true
  | _ => false

/-- `HealthMarkAccepted` -/
def healthMarkAccepted : InstallerStatus → Bool
  | .ok .ok | .ok .alreadyHealthy => true
  | _ => false

/-- `CommitAccepted` -/
def commitAccepted : InstallerStatus → Bool
  | .ok .ok | .ok .alreadyCommitted => true
  | _ => false

/-- `RollbackAccepted` -/
def rollbackAccepted : InstallerStatus → Bool
  | .ok .ok | .ok .nothingToRollback => true
  | _ => false

/-- `RolledBackRetirementAccepted` -/
def rolledBackRetirementAccepted : InstallerStatus → Bool
  | .ok .ok | .ok .alreadyRetired => true
  | _ => false

/-- Whether a call stopped at a failed progress report. -/
def progressRefused : InstallerStatus → Bool
  | .error .recoveryProgressFailed => true
  | _ => false

/-- `InstallerProgressOr` -/
def installerProgressOr (status : InstallerStatus) (fallback : UpdateOrchestratorStatus) :
    UpdateOrchestratorStatus :=
  if progressRefused status then .recoveryProgressFailed else fallback

/-! ## Cleanup -/

/-- `ReportUpdateRecoveryProgress` -/
def reportProgress (workspace : UpdateOrchestratorWorkspace) (kind : UpdateRecoveryProgressKind) :
    Flow Bool :=
  if workspace.recoveryProgress then ask (.report kind) else return true

/-- `DiscardPersisted` at the end of a cleanup. -/
def discardRequest (binding : AuthenticatedUpdateBinding) (result : UpdateOrchestratorResult) :
    Flow (Bool × UpdateOrchestratorResult) := do
  let persistence ← ask (.discardPersisted binding)
  return (persistence = .ok, { result with persistenceStatus := persistence })

/-- `CleanupTransaction` -/
def cleanupTransaction (binding : AuthenticatedUpdateBinding)
    (result : UpdateOrchestratorResult) : Flow (Bool × UpdateOrchestratorResult) := do
  let storage ← ask (.discardArchive binding)
  let result := { result with storageStatus := storage }
  if storage ≠ .ok then return (false, result)
  else do
    let prepared ← ask (.discardPrepared binding)
    let result := { result with preparedConfigStatus := prepared }
    if prepared ≠ .ok then return (false, result)
    else discardRequest binding result

/-- `CleanupRolledBackTransaction` -/
def cleanupRolledBackTransaction (installerRequest : InstallerRequest)
    (binding : AuthenticatedUpdateBinding) (result : UpdateOrchestratorResult) :
    Flow (Bool × UpdateOrchestratorResult) := do
  let storage ← ask (.discardArchive binding)
  let result := { result with storageStatus := storage }
  if storage ≠ .ok then return (false, result)
  else do
    let prepared ← ask (.discardPrepared binding)
    let result := { result with preparedConfigStatus := prepared }
    if prepared ≠ .ok then return (false, result)
    else do
      let retired ← ask (.retireRolledBack installerRequest)
      let result := { result with rollbackCleanupResult := retired }
      if !rolledBackRetirementAccepted retired.status then return (false, result)
      else discardRequest binding result

/-- `RetainCommittedTransaction` -/
def retainCommittedTransaction (binding : AuthenticatedUpdateBinding)
    (result : UpdateOrchestratorResult) : Flow (Bool × UpdateOrchestratorResult) := do
  let storage ← ask (.discardArchive binding)
  let result := { result with storageStatus := storage }
  if storage ≠ .ok then return (false, result)
  else do
    let prepared ← ask (.discardPrepared binding)
    let result := { result with preparedConfigStatus := prepared }
    if prepared ≠ .ok then return (false, result)
    else do
      let persistence ← ask (.retainCommitted binding)
      return (persistence = .ok, { result with persistenceStatus := persistence })

/-- `DiscardDownloadedRequest` -/
def discardDownloadedRequest (binding : AuthenticatedUpdateBinding)
    (result : UpdateOrchestratorResult) : Flow (Bool × UpdateOrchestratorResult) := do
  let storage ← ask (.discardArchive binding)
  let result := { result with storageStatus := storage }
  if storage ≠ .ok then return (false, result)
  else discardRequest binding result

/-- `AbortDownloadAndDiscardRequest` -/
def abortDownloadAndDiscardRequest (binding : AuthenticatedUpdateBinding)
    (result : UpdateOrchestratorResult) : Flow (Bool × UpdateOrchestratorResult) := do
  let _ ← ask .abort
  discardRequest binding result

/-- `CleanupFailureStatus` -/
def cleanupFailureStatus (result : UpdateOrchestratorResult) : UpdateOrchestratorStatus :=
  if result.storageStatus ≠ .ok then
    if result.storageStatus = .recoveryProgressFailed then .recoveryProgressFailed
    else .cleanupFailed
  else if result.preparedConfigStatus ≠ .ok then
    if result.preparedConfigStatus = .recoveryProgressFailed then .recoveryProgressFailed
    else .cleanupFailed
  else if result.persistenceStatus ≠ .ok then
    if result.persistenceStatus = .recoveryProgressFailed then .recoveryProgressFailed
    else .cleanupFailed
  else .cleanupFailed

/-- `RolledBackCleanupFailureStatus` -/
def rolledBackCleanupFailureStatus (result : UpdateOrchestratorResult) :
    UpdateOrchestratorStatus :=
  if result.storageStatus ≠ .ok ∨ result.preparedConfigStatus ≠ .ok then
    cleanupFailureStatus result
  else if !rolledBackRetirementAccepted result.rollbackCleanupResult.status then
    if progressRefused result.rollbackCleanupResult.status then .recoveryProgressFailed
    else .cleanupFailed
  else cleanupFailureStatus result

/-- `DeactivatePendingRequest` -/
def deactivatePendingRequest (requestPersistence : Bool) (result : UpdateOrchestratorResult) :
    Flow (Bool × UpdateOrchestratorResult) := do
  let persistence ← if requestPersistence then ask .deactivatePersisted else pure .failed
  let result := { result with persistenceStatus := persistence }
  if persistence ≠ .ok then
    return (false,
      { result with
        status :=
          if persistence = .recoveryProgressFailed then .recoveryProgressFailed
          else .recoveryDeactivationFailed })
  else return (true, result)

/-- `RequestPreviousFailSafe` -/
def requestPreviousFailSafe (requestPersistence reboot : Bool)
    (trigger : UpdateOrchestratorStatus) (result : UpdateOrchestratorResult) :
    Flow UpdateOrchestratorResult := do
  let result := { result with rollbackTrigger := trigger, phase := .requestPreviousReboot }
  let (deactivated, result) ← deactivatePendingRequest requestPersistence result
  if !deactivated then return result
  else do
    let result := { result with previousBootFailsafeRequested := true }
    let requested ← if reboot then ask .requestPreviousBootFailSafe else pure false
    if !requested then return { result with status := .previousRebootFailed }
    else return { result with status := trigger }

/-! ## Start -/

/-- `HashingBodySink` (of a positive size) after the chunks handed to it: the
bytes it has accepted, `none` once it has failed. -/
def sinkChunks (exactSize : Nat) : Bytes → List Bytes → Flow (Option Bytes)
  | written, [] => return some written
  | written, chunk :: chunks =>
      if exactSize - written.length < chunk.length then return none
      else do
        let accepted ← ask (.write chunk)
        if accepted then sinkChunks exactSize (written ++ chunk) chunks else return none

/-- `HashingBodySink::Finish`: the digest of a complete stream. -/
def ReleasePolicy.streamedDigest (policy : ReleasePolicy) (binding : AuthenticatedUpdateBinding)
    (streamed : Option Bytes) : Option Digest :=
  (streamed.filter fun bytes => bytes.length = binding.archiveSize).map policy.sha256

/-- The reads of `RehashStoredArchive` from `offset` on; `fuel` bounds the turns
that are left.  The first component is the bytes, the second whether a progress
report was refused. -/
def rehashChunks (workspace : UpdateOrchestratorWorkspace) (size : Nat) :
    Nat → Nat → Bytes → Flow (Option Bytes × Bool)
  | 0, _, read => return (some read, false)
  | fuel + 1, offset, read =>
      if size ≤ offset then return (some read, false)
      else do
        let count := min (size - offset) workspace.verificationBufferSize
        let bytes ← ask (.readAt offset count)
        match bytes with
        | none => return (none, false)
        | some bytes => do
            let reported ← reportProgress workspace .storedArchiveHashed
            if !reported then return (none, true)
            else rehashChunks workspace size fuel (offset + count) (read ++ bytes)

/-- `RollbackAccepted` fails: the result with the status of the failed rollback. -/
def UpdateOrchestratorResult.rollbackFailed (result : UpdateOrchestratorResult) :
    UpdateOrchestratorResult :=
  { result with
    status := installerProgressOr result.rollbackResult.status .installerRollbackFailed }

/-- `MandatoryRollback`, recorded in the result. -/
def mandatoryRollback (installerRequest : InstallerRequest) (result : UpdateOrchestratorResult) :
    Flow UpdateOrchestratorResult := do
  let rollback ← ask (.rollback installerRequest)
  return { result with phase := .rollback, rollbackAttempted := true, rollbackResult := rollback }

section Start

variable (policy : ReleasePolicy) (workspace : UpdateOrchestratorWorkspace)

/-- `RehashStoredArchive`: whether the stored archive is the bound one, the size
it was verified with, and whether a progress report was refused. -/
def rehashStoredArchive (binding : AuthenticatedUpdateBinding) : Flow (Bool × Nat × Bool) := do
  let size ← ask .getSize
  if size ≠ some binding.archiveSize then return (false, 0, false)
  else do
    let (bytes, progressFailed) ← rehashChunks workspace binding.archiveSize binding.archiveSize 0 []
    if bytes.map policy.sha256 = some binding.archiveSha256 then
      return (true, binding.archiveSize, false)
    else return (false, 0, progressFailed)

/-- The ends of `Start` that roll back an armed candidate and ask for the
previous installation; `failure` is why. -/
def rollbackAndRequestPrevious (failure : UpdateOrchestratorStatus)
    (installerRequest : InstallerRequest) (binding : AuthenticatedUpdateBinding)
    (result : UpdateOrchestratorResult) : Flow UpdateOrchestratorResult := do
  let result ← mandatoryRollback installerRequest result
  if !rollbackAccepted result.rollbackResult.status then return result.rollbackFailed
  else do
    let (cleanupOk, result) ← cleanupRolledBackTransaction installerRequest binding result
    let result := { result with phase := .requestPreviousReboot }
    let (deactivated, result) ← deactivatePendingRequest true result
    if !deactivated then return result
    else do
      let requested ← ask (.requestReboot .previousInstallation binding)
      if !requested then return { result with status := .previousRebootFailed }
      else
        return { result with
          status := if cleanupOk then failure else rolledBackCleanupFailureStatus result }

/-- The two reports of `Start` between an armed candidate and its reboot. -/
def candidateCheckpoint : Flow Bool := do
  let staged ← reportProgress workspace .foregroundStageComplete
  if staged then reportProgress workspace .candidateRebootCheckpoint else return false

/-- `Start` from the armed candidate on. -/
def startArmed (installerRequest : InstallerRequest) (binding : AuthenticatedUpdateBinding)
    (result : UpdateOrchestratorResult) : Flow UpdateOrchestratorResult := do
  let result := { result with phase := .requestCandidateReboot }
  let checkpoint ← candidateCheckpoint workspace
  if !checkpoint then
    rollbackAndRequestPrevious .recoveryProgressFailed installerRequest binding result
  else do
    let requested ← ask (.requestReboot .oneShotCandidate binding)
    if !requested then
      rollbackAndRequestPrevious .candidateRebootFailed installerRequest binding result
    else return { result with status := .candidateRebootRequested }

/-- `Start` from `ArmCandidate` on. -/
def startArm (installerRequest : InstallerRequest) (binding : AuthenticatedUpdateBinding)
    (result : UpdateOrchestratorResult) : Flow UpdateOrchestratorResult := do
  let armed ← ask (.armCandidate installerRequest)
  let result := { result with phase := .armCandidate, installerResult := armed }
  if !armAccepted armed.status then
    rollbackAndRequestPrevious (installerProgressOr armed.status .installerArmFailed)
      installerRequest binding result
  else startArmed workspace installerRequest binding result

/-- The cleanup after a rejected `Stage`. -/
def cleanupRejected (installerRequest : InstallerRequest) (binding : AuthenticatedUpdateBinding)
    (result : UpdateOrchestratorResult) : Flow UpdateOrchestratorResult := do
  let (cleanupOk, result) ← cleanupRolledBackTransaction installerRequest binding result
  if cleanupOk then return result
  else return { result with status := rolledBackCleanupFailureStatus result }

/-- The end of `Start` after a rejected `Stage`. -/
def stageRejected (installerRequest : InstallerRequest) (binding : AuthenticatedUpdateBinding)
    (result : UpdateOrchestratorResult) : Flow UpdateOrchestratorResult := do
  let staged := result.installerResult
  let result := { result with status := installerProgressOr staged.status .installerStageFailed }
  if staged.hasTransactionJournal && staged.journalState ≠ .idle then do
    let result ← mandatoryRollback installerRequest result
    if !rollbackAccepted result.rollbackResult.status then return result.rollbackFailed
    else cleanupRejected installerRequest binding result
  else cleanupRejected installerRequest binding result

/-- The end of `Start` after an archive that could not be closed. -/
def closeFailed (installerRequest : InstallerRequest) (binding : AuthenticatedUpdateBinding)
    (result : UpdateOrchestratorResult) : Flow UpdateOrchestratorResult := do
  let result ← mandatoryRollback installerRequest result
  if !rollbackAccepted result.rollbackResult.status then return result.rollbackFailed
  else do
    let (cleanupOk, result) ← cleanupRolledBackTransaction installerRequest binding result
    return { result with
      status := if cleanupOk then .storageCloseFailed else rolledBackCleanupFailureStatus result }

/-- `Start` from `Stage` on. -/
def startStage (installerRequest : InstallerRequest) (binding : AuthenticatedUpdateBinding)
    (result : UpdateOrchestratorResult) : Flow UpdateOrchestratorResult := do
  let staged ← ask (.stage installerRequest)
  let closed ← ask .closeRead
  let result :=
    { result with phase := .stage, installerResult := staged, storageStatus := closed }
  if !stageAccepted staged.status then stageRejected installerRequest binding result
  else if closed ≠ .ok then closeFailed installerRequest binding result
  else startArm workspace installerRequest binding result

/-- The ends of `Start` that give up a prepared transaction; `failure` is why. -/
def closeAndCleanup (failure : UpdateOrchestratorStatus) (binding : AuthenticatedUpdateBinding)
    (result : UpdateOrchestratorResult) : Flow UpdateOrchestratorResult := do
  let closed ← ask .closeRead
  let (cleanupOk, result) ← cleanupTransaction binding { result with storageStatus := closed }
  return { result with status := if cleanupOk then failure else cleanupFailureStatus result }

/-- `Start` from the preparation of the configuration on. -/
def startPrepare (offer : ReleaseOffer) (binding : AuthenticatedUpdateBinding)
    (archive : ZipArchive) (result : UpdateOrchestratorResult) :
    Flow UpdateOrchestratorResult := do
  let (status, prepared) ← ask (.prepareForStage binding offer.manifest archive)
  let result := { result with phase := .prepareConfiguration, preparedConfigStatus := status }
  if status ≠ .ok then
    closeAndCleanup
      (if status = .recoveryProgressFailed then .recoveryProgressFailed else .preparedConfigFailed)
      binding result
  else if !preparedSetValid prepared binding offer.manifest true then
    closeAndCleanup .preparedConfigInvalid binding result
  else
    startStage workspace (buildInstallerRequest offer binding (some archive) prepared) binding
      result

/-- The ends of `Start` that give up a stored archive; `failure` is why. -/
def discardStored (failure : UpdateOrchestratorStatus) (binding : AuthenticatedUpdateBinding)
    (result : UpdateOrchestratorResult) : Flow UpdateOrchestratorResult := do
  let (cleanupOk, result) ← discardDownloadedRequest binding result
  return { result with status := if cleanupOk then failure else .cleanupFailed }

/-- `Start` from the stored archive on. -/
def startVerify (offer : ReleaseOffer) (binding : AuthenticatedUpdateBinding)
    (result : UpdateOrchestratorResult) : Flow UpdateOrchestratorResult := do
  let (status, archive) ← ask (.openRead binding)
  let result := { result with phase := .verifyStoredArchive, storageStatus := status }
  match status, archive with
  | .ok, some archive => do
      let (verified, size, progressFailed) ← rehashStoredArchive policy workspace binding
      let result := { result with verifiedArchiveBytes := size }
      if !verified then do
        let closed ← ask .closeRead
        discardStored
          (if progressFailed then .recoveryProgressFailed else .storedArchiveVerificationFailed)
          binding { result with storageStatus := closed }
      else startPrepare workspace offer binding archive result
  | _, _ => discardStored .storageOpenFailed binding result

/-- The ends of `Start` that give up a download; `failure` is why. -/
def abortDownload (failure : UpdateOrchestratorStatus) (binding : AuthenticatedUpdateBinding)
    (result : UpdateOrchestratorResult) : Flow UpdateOrchestratorResult := do
  let (cleanupOk, result) ← abortDownloadAndDiscardRequest binding result
  return { result with status := if cleanupOk then failure else .cleanupFailed }

/-- `Start` from the persisted request on. -/
def startDownload (offer : ReleaseOffer) (binding : AuthenticatedUpdateBinding)
    (result : UpdateOrchestratorResult) : Flow UpdateOrchestratorResult := do
  let (fetched, chunks) ← ask (.fetch binding.archiveUrl binding.archiveSize)
  let streamed ← sinkChunks binding.archiveSize [] chunks
  let result := { result with phase := .download, fetchStatus := fetched }
  if fetched ≠ .ok then
    abortDownload (if fetched = .canceled then .downloadCanceled else .downloadFailed) binding
      result
  else if policy.streamedDigest binding streamed ≠ some binding.archiveSha256 then
    abortDownload .downloadVerificationFailed binding result
  else do
    let finished ← ask .finish
    let result := { result with storageStatus := finished }
    if finished ≠ .ok then abortDownload .storageFinishFailed binding result
    else startVerify policy workspace offer binding result

/-- `Start` from the last check before it changes anything on. -/
def startPersist (request : AuthenticatedUpdateRequest) (offer : ReleaseOffer)
    (binding : AuthenticatedUpdateBinding) (result : UpdateOrchestratorResult) :
    Flow UpdateOrchestratorResult := do
  let result := { result with phase := .download }
  let checkpoint ← reportProgress workspace .foregroundDownloadMutationCheckpoint
  if !checkpoint then return { result with status := .recoveryProgressFailed }
  else do
    let begun ← ask (.begin binding)
    let result := { result with storageStatus := begun }
    if begun ≠ .ok then return { result with status := .storageBeginFailed }
    else do
      let persisted ← ask (.persist request)
      let result := { result with phase := .persistRequest, persistenceStatus := persisted }
      if persisted ≠ .ok then abortDownload .requestPersistenceFailed binding result
      else startDownload policy workspace offer binding result

/-- `Start` with a validated request. -/
def startAuthorize (request : AuthenticatedUpdateRequest) (offer : ReleaseOffer)
    (manifestDigest : Digest) (result : UpdateOrchestratorResult) :
    Flow UpdateOrchestratorResult := do
  let supported ← ask .oneShotRecoverySupported
  if !supported then return { result with status := .platformUnsupported }
  else if !workspaceFitsManifest workspace offer.manifest then
    return { result with status := .workspaceTooSmall }
  else do
    let (authorization, sealedAuthorization) ← ask (.authorizeAndSeal request offer)
    let result := { result with authorization := authorization }
    if authorization ≠ .ok ∨ sealedAuthorization.consentSha256 = .zero 32 ∨
        sealedAuthorization.resetRequired ≠ request.resetRequired ∨
        sealedAuthorization.resetApproved ≠ request.resetApproved then
      return { result with status := .authorizationDenied }
    else do
      let binding := buildBinding request offer manifestDigest sealedAuthorization
      let (readiness, ready) ← ask (.probe binding offer.manifest)
      let result := { result with readinessStatus := readiness, ready := ready }
      if readiness ≠ .ready ∨ ready = false then
        return { result with
          status :=
            if readiness = .probeFailed then .readinessProbeFailed else .readinessBlocked }
      else startPersist policy workspace request offer binding result

/-- `UpdateOrchestrator::Start` -/
def start (collaborators : Collaborators) (request : AuthenticatedUpdateRequest) :
    Flow UpdateOrchestratorResult :=
  let result := { UpdateOrchestratorResult.initial with phase := .validate }
  if collaborators ≠ ⟨true, true, true, true, true, true, true, true, true, true⟩ ∨
      workspaceValid workspace true = false then return result
  else
    match request.release with
    | none => return result
    | some download => do
        let (validation, offer) ← ask (.revalidate download request.runningBoard)
        let result := { result with releaseValidation := validation }
        if validation ≠ .ok then return { result with status := .authenticatedOfferInvalid }
        else
          match policy.validateAuthenticatedRequest request offer with
          | .error rejected => return { result with status := rejected.status }
          | .ok manifestDigest =>
              startAuthorize policy workspace request offer manifestDigest result

end Start

/-! ## Resuming -/

section Resume

variable (policy : ReleasePolicy) (workspace : UpdateOrchestratorWorkspace)

/-- The end of `ResumeAfterBoot` for a transaction without a live journal, and
for one that never reached a candidate. -/
def cleanupInterrupted (installerRequest : InstallerRequest)
    (binding : AuthenticatedUpdateBinding) (result : UpdateOrchestratorResult) :
    Flow UpdateOrchestratorResult := do
  let (cleanupOk, result) ←
    cleanupRolledBackTransaction installerRequest binding { result with phase := .cleanup }
  return { result with
    status :=
      if cleanupOk then .interruptedBeforeCandidateCleaned
      else rolledBackCleanupFailureStatus result }

/-- The end of `ResumeAfterBoot` for a committed transaction. -/
def retainCommitted (binding : AuthenticatedUpdateBinding) (result : UpdateOrchestratorResult) :
    Flow UpdateOrchestratorResult := do
  let (cleanupOk, result) ← retainCommittedTransaction binding { result with phase := .cleanup }
  return { result with
    status :=
      if cleanupOk then .updateCommitted
      else if cleanupFailureStatus result = .recoveryProgressFailed then .recoveryProgressFailed
      else .previousRetentionFailed }

/-- `MandatoryRollback` of `ResumeAfterBoot`, then `next` if it was accepted. -/
def resumeRollback (installerRequest : InstallerRequest) (result : UpdateOrchestratorResult)
    (next : UpdateOrchestratorResult → Flow UpdateOrchestratorResult) :
    Flow UpdateOrchestratorResult := do
  let result ← mandatoryRollback installerRequest result
  if progressRefused result.rollbackResult.status then
    return { result with status := .recoveryProgressFailed }
  else if !rollbackAccepted result.rollbackResult.status then
    return { result with status := .installerRollbackFailed }
  else next result

/-- `ResumeAfterBoot` after the accepted rollback of a candidate. -/
def resumePrevious (installerRequest : InstallerRequest) (binding : AuthenticatedUpdateBinding)
    (result : UpdateOrchestratorResult) : Flow UpdateOrchestratorResult := do
  let (cleanupOk, result) ←
    cleanupRolledBackTransaction installerRequest binding { result with phase := .cleanup }
  if !cleanupOk && rolledBackCleanupFailureStatus result = .recoveryProgressFailed then
    return { result with status := .recoveryProgressFailed }
  else do
    let result := { result with phase := .requestPreviousReboot }
    let (deactivated, result) ← deactivatePendingRequest true result
    if !deactivated then return result
    else do
      let reported ← reportProgress workspace .candidateRollbackComplete
      if !reported then return { result with status := .recoveryProgressFailed }
      else do
        let requested ← ask (.requestReboot .previousInstallation binding)
        if !requested then return { result with status := .previousRebootFailed }
        else if !cleanupOk then return { result with status := .cleanupFailed }
        else return { result with status := .rollbackRebootRequested }

/-- `ResumeAfterBoot` from the decision to roll back on; `trigger` is why. -/
def resumeUnhealthy (trigger : UpdateOrchestratorStatus) (installerRequest : InstallerRequest)
    (binding : AuthenticatedUpdateBinding) (result : UpdateOrchestratorResult) :
    Flow UpdateOrchestratorResult := do
  let result := { result with phase := .rollback, rollbackTrigger := trigger }
  let reported ← reportProgress workspace .candidateRollbackDecision
  if !reported then return { result with status := .recoveryProgressFailed }
  else
    resumeRollback installerRequest result
      (resumePrevious workspace installerRequest binding)

/-- `ResumeAfterBoot` of a healthy candidate. -/
def resumeHealthy (installerRequest : InstallerRequest) (binding : AuthenticatedUpdateBinding)
    (result : UpdateOrchestratorResult) : Flow UpdateOrchestratorResult := do
  let marked ← ask (.markCandidateHealthy installerRequest)
  let result := { result with phase := .markHealthy, installerResult := marked }
  if progressRefused marked.status then
    return { result with status := .recoveryProgressFailed }
  else if !healthMarkAccepted marked.status then
    resumeUnhealthy workspace .installerHealthTransitionFailed installerRequest binding result
  else do
    let committed ← ask (.commit installerRequest)
    let result := { result with phase := .commit, installerResult := committed }
    if progressRefused committed.status then
      return { result with status := .recoveryProgressFailed }
    else if !commitAccepted committed.status then
      resumeUnhealthy workspace .installerCommitFailed installerRequest binding result
    else retainCommitted binding result

/-- `ResumeAfterBoot` from the health probe on. -/
def resumeProbe (offer : ReleaseOffer) (installerRequest : InstallerRequest)
    (binding : AuthenticatedUpdateBinding) (result : UpdateOrchestratorResult) :
    Flow UpdateOrchestratorResult := do
  let (available, evidence) ← ask (.collect binding offer.manifest)
  let result :=
    { result with
      phase := .probeHealth
      healthStatus :=
        if available && healthEvidenceBound evidence offer.manifest then
          evaluateCandidateHealth evidence
        else .journalUnavailable }
  let reported ← reportProgress workspace .candidateHealthEvaluated
  if !reported then return { result with status := .recoveryProgressFailed }
  else if !available then
    resumeUnhealthy workspace .healthProbeFailed installerRequest binding result
  else if result.healthStatus = .healthy then
    resumeHealthy workspace installerRequest binding result
  else resumeUnhealthy workspace .candidateUnhealthy installerRequest binding result

/-- `ResumeAfterBoot` from the restored configuration on. -/
def resumeRestore (collaborators : Collaborators) (offer : ReleaseOffer)
    (binding : AuthenticatedUpdateBinding) (journal : JournalRecord)
    (result : UpdateOrchestratorResult) : Flow UpdateOrchestratorResult := do
  let (status, prepared) ← ask (.restoreForResume binding offer.manifest)
  let result := { result with phase := .restoreConfiguration, preparedConfigStatus := status }
  if status = .recoveryProgressFailed then
    return { result with status := .recoveryProgressFailed }
  else if status ≠ .ok then
    requestPreviousFailSafe collaborators.requestPersistence collaborators.reboot
      .preparedConfigFailed result
  else if !preparedSetValid prepared binding offer.manifest false then
    requestPreviousFailSafe collaborators.requestPersistence collaborators.reboot
      .preparedConfigInvalid result
  else
    let installerRequest := buildInstallerRequest offer binding none prepared
    if journal.state = .discovered ∨ journal.state = .downloaded then
      resumeRollback installerRequest result (cleanupInterrupted installerRequest binding)
    else resumeProbe workspace offer installerRequest binding result

/-- `ResumeAfterBoot` from the journal on. -/
def resumeJournal (collaborators : Collaborators) (offer : ReleaseOffer)
    (binding : AuthenticatedUpdateBinding) (result : UpdateOrchestratorResult) :
    Flow UpdateOrchestratorResult := do
  let (report, journal) ← ask (.readJournal binding.transactionRoot)
  let result := { result with phase := .inspectJournal, installerResult := report }
  let noJournal := report.status = .error .wrongState ∧ report.journalSelection = .noJournal
  if noJournal ∨ report.status = .ok .ok ∧ journal.state = .idle then
    cleanupInterrupted (buildInstallerRequest offer binding none none) binding result
  else if report.status ≠ .ok .ok ∨ journalBoundToTransaction journal binding = false then
    requestPreviousFailSafe collaborators.requestPersistence collaborators.reboot
      .recoveryJournalInvalid result
  else if journal.state = .committed then retainCommitted binding result
  else do
    let supported ←
      if collaborators.reboot then ask .oneShotRecoverySupported else pure false
    if !supported then
      requestPreviousFailSafe collaborators.requestPersistence collaborators.reboot
        .platformUnsupported result
    else resumeRestore workspace collaborators offer binding journal result

/-- `UpdateOrchestrator::ResumeAfterBoot` -/
def resumeAfterBoot (collaborators : Collaborators) (request : AuthenticatedUpdateRequest) :
    Flow UpdateOrchestratorResult :=
  let result := { UpdateOrchestratorResult.initial with phase := .validate }
  let failSafe := requestPreviousFailSafe collaborators.requestPersistence collaborators.reboot
  if !(collaborators.releaseValidator && collaborators.storage &&
      collaborators.requestPersistence && collaborators.preparedConfigs &&
      collaborators.installer && collaborators.health && workspaceValid workspace false) then
    failSafe .invalidArgument result
  else
    match request.release with
    | none => failSafe .invalidArgument result
    | some download => do
        let (validation, offer) ← ask (.revalidate download request.runningBoard)
        let result := { result with releaseValidation := validation }
        if validation ≠ .ok then failSafe .authenticatedOfferInvalid result
        else
          match policy.validateAuthenticatedRequest request offer with
          | .error rejected => failSafe rejected.status result
          | .ok manifestDigest =>
              let persisted : SealedUpdateAuthorization :=
                ⟨request.consentSha256, request.resetRequired, request.resetApproved⟩
              resumeJournal workspace collaborators offer
                (buildBinding request offer manifestDigest persisted) result

/-- `UpdateOrchestrator::RetireCommitted` -/
def retireCommitted (collaborators : Collaborators) (request : AuthenticatedUpdateRequest) :
    Flow UpdateOrchestratorResult :=
  let result := { UpdateOrchestratorResult.initial with phase := .validate }
  if !(collaborators.releaseValidator && collaborators.requestPersistence &&
      collaborators.installer && workspaceValid workspace true) then return result
  else
    match request.release with
    | none => return result
    | some download => do
        let (validation, offer) ← ask (.revalidate download request.runningBoard)
        let result := { result with releaseValidation := validation }
        if validation ≠ .ok then return { result with status := .authenticatedOfferInvalid }
        else
          match policy.validateAuthenticatedRequest request offer with
          | .error rejected => return { result with status := rejected.status }
          | .ok manifestDigest =>
              retire (buildBinding request offer manifestDigest
                ⟨request.consentSha256, request.resetRequired, request.resetApproved⟩) offer
                { result with phase := .retirePrevious }
where
  /-- The part after the validation. -/
  retire (binding : AuthenticatedUpdateBinding) (offer : ReleaseOffer)
      (result : UpdateOrchestratorResult) : Flow UpdateOrchestratorResult := do
    let checkpoint ← reportProgress workspace .foregroundRetireMutationCheckpoint
    if !checkpoint then return { result with status := .recoveryProgressFailed }
    else do
      let retired ← ask (.retireCommitted (buildInstallerRequest offer binding none none))
      let result := { result with installerResult := retired }
      if !rolledBackRetirementAccepted retired.status then
        return { result with
          status := installerProgressOr retired.status .previousRetentionFailed }
      else do
        let persistence ← ask (.discardRetainedCommitted binding)
        let result := { result with persistenceStatus := persistence }
        if persistence ≠ .ok then
          return { result with
            status :=
              if persistence = .recoveryProgressFailed then .recoveryProgressFailed
              else .previousRetentionFailed }
        else return { result with status := .previousRetired }

end Resume

/-! ## A small release -/

/-- The functions of other components, agreeable to small releases. -/
def smallPolicy : ReleasePolicy where
  sha256 := BmxUpdate.sha256
  urlAuthorized := fun _ _ => true
  findRequiredAssets := fun _ _ _ _ => some ⟨some 0, some 1, some 2⟩

/-- The offer of a release with one file. -/
def smallOffer : ReleaseOffer where
  installed := ⟨1, 1, .pi5Pi500, 1⟩
  github := ⟨"v2", false, false, [⟨"BMX-RELEASE.json", 1, "m", "m"⟩, ⟨"BMX-RELEASE.sig", 1, "s", "s"⟩,
    ⟨"bmx.zip", 3, "z", "z"⟩]⟩
  manifest :=
    { (smallRequest [⟨["a.txt"], .managedReplace, [1]⟩] []).manifest with
      version := "2"
      tag := "v2"
      releaseEpoch := 1
      minimumUpdaterAbi := 1
      maximumUpdaterAbi := 1
      archiveFilename := "bmx.zip" }
  assets := ⟨some 0, some 1, some 2⟩
  releaseDecision := .updateAvailable
  configurationStatus := .compatible
  resetAreas := []

def smallWorkspace : UpdateOrchestratorWorkspace :=
  ⟨⟨16, 16, 16, 4096⟩, true, true, true, true, true, 4096, false⟩

def everyCollaborator : Collaborators :=
  ⟨true, true, true, true, true, true, true, true, true, true⟩

/-- Collaborators that agree to everything: the archive is there, and the configuration is
prepared for the binding. -/
def obliging (offer : ReleaseOffer) (archive : ZipArchive) (entries : List PreparedConfigTemplate) :
    (op : Operation) → Answer op
  | .revalidate .. => (.ok, offer)
  | .authorizeAndSeal request _ =>
      (.ok, ⟨request.consentSha256, request.resetRequired, request.resetApproved⟩)
  | .probe .. => (.ready, true)
  | .report .. => true
  | .begin .. => .ok
  | .fetch .. => (.ok, archive.bytes.toList)
  | .write .. => true
  | .finish => .ok
  | .abort => ()
  | .openRead .. => (.ok, some archive)
  | .getSize => archive.bytes.map List.length
  | .readAt offset count => archive.bytes.map fun bytes => (bytes.drop offset).take count
  | .closeRead => .ok
  | .discardArchive .. => .ok
  | .persist .. => .ok
  | .discardPersisted .. => .ok
  | .deactivatePersisted => .ok
  | .retainCommitted .. => .ok
  | .discardRetainedCommitted .. => .ok
  | .prepareForStage binding _ _ | .restoreForResume binding _ =>
      (.ok, some ⟨entries, binding.manifestSha256, binding.consentSha256, binding.resetRequired,
        binding.resetApproved⟩)
  | .discardPrepared .. => .ok
  | .readJournal .. => (⟨.ok .ok, .noJournal, .idle⟩, makeIdleJournalRecord 0)
  | .stage .. => ⟨.ok .ok, .selectedA, .staged⟩
  | .armCandidate .. => ⟨.ok .ok, .selectedA, .candidatePending⟩
  | .markCandidateHealthy .. => ⟨.ok .ok, .selectedA, .candidateHealthy⟩
  | .commit .. => ⟨.ok .ok, .selectedA, .committed⟩
  | .rollback .. => ⟨.ok .ok, .selectedA, .rollingBack⟩
  | .retireRolledBack .. => ⟨.ok .ok, .noJournal, .idle⟩
  | .retireCommitted .. => ⟨.ok .ok, .noJournal, .idle⟩
  | .collect .. => (false, ⟨false, false, .unknown, .unknown, 0, 0, 0, 0, false, false, false, false,
      false, false, false, false, false⟩)
  | .oneShotRecoverySupported => true
  | .requestReboot .. => true
  | .requestPreviousBootFailSafe => true

/-- What `n` answers leave of a run, and its history. -/
def answered (answers : (op : Operation) → Answer op) (n : Nat)
    (flow : Flow UpdateOrchestratorResult) :
    Flow UpdateOrchestratorResult × History Operation Answer :=
  follow (fun past op => (answers op, ⟨op, answers op⟩ :: past)) n flow []

/-- After `n` answers a run stands before the operation computed. -/
theorem answered_asks {answers : (op : Operation) → Answer op} {n : Nat}
    {flow : Flow UpdateOrchestratorResult} {f : Operation → Bool}
    (h : (answered answers n flow).1.next?.any f = true) :
    ∃ op next past, Reaches recording (some flow, []) (some (.call op next), past) ∧ f op = true := by
  have hreaches : Reaches recording (some flow, [])
      (some (answered answers n flow).1, (answered answers n flow).2) :=
    reaches_follow (fun _ _ => rfl) n flow []
  obtain ⟨op, next, hnext, hop⟩ := Program.exists_call h
  rw [hnext] at hreaches
  exact ⟨op, next, _, hreaches, hop⟩

end BmxUpdate
