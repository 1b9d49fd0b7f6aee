import BmxUpdate.Installer.Basic
import BmxUpdate.Library.Interaction
import BmxUpdate.UpdateTypes

/-!
# The data of the orchestrator

The inputs, bindings and results of `UpdateOrchestrator`
(`update_orchestrator.h`) and the operations it asks its collaborators for.

A text is the string before its terminator; one that is not terminated within
its array is a string at least as long as the array.  A null view is empty, and
a null transaction root is the path without names.  A pointer into the assets
of a release is an index, `none` where it points elsewhere.

Left out: the readiness details behind `ready()`, the fetch's redirects, the
offer cached in a download, and the calls that bracket a mandatory operation,
which return nothing.
-/

namespace BmxUpdate

open Crash Volumes Wire Interaction

/-! ## Releases -/

structure GitHubReleaseAsset where
  name : String
  size : Nat
  browserDownloadUrl : String
  apiDownloadUrl : String
deriving DecidableEq, Repr

/-- `GitHubAssetDownloadUrl` -/
def GitHubReleaseAsset.downloadUrl (asset : GitHubReleaseAsset) : GitHubReleaseKind → String
  | .preparedDraft => asset.apiDownloadUrl
  | .publishedStable => asset.browserDownloadUrl

structure GitHubLatestRelease where
  tagName : String
  draft : Bool
  prerelease : Bool
  assets : List GitHubReleaseAsset
deriving DecidableEq, Repr

/-- `RequiredGitHubReleaseAssets`, each as its index in the release. -/
structure RequiredGitHubReleaseAssets where
  manifest : Option Nat
  signature : Option Nat
  boardZip : Option Nat
deriving DecidableEq, Repr

structure InstalledBuildInfo where
  releaseSequence : UInt64
  releaseEpoch : UInt64
  board : BoardFamily
  updaterAbi : UInt32
deriving DecidableEq

/-- The manifest of an offer: what the installer works from, and what the
orchestrator checks besides. -/
structure OfferManifest extends ReleaseManifest where
  version : String
  tag : String
  releaseEpoch : UInt64
  minimumUpdaterAbi : UInt32
  maximumUpdaterAbi : UInt32
  archiveFilename : String
deriving DecidableEq

/-- A release the user can be asked about. -/
structure ReleaseOffer where
  installed : InstalledBuildInfo
  github : GitHubLatestRelease
  manifest : OfferManifest
  assets : RequiredGitHubReleaseAssets
  releaseDecision : ReleaseDecision
  configurationStatus : OfferConfigurationStatus
  resetAreas : List ConfigArea
deriving DecidableEq

/-- `ValidatedReleaseDownload` without its cached offer. -/
structure ValidatedReleaseDownload where
  acquisitionMode : ReleaseAcquisitionMode
  installedBuildInfo : Bytes
  githubResponse : Bytes
  manifest : Bytes
  signature : Bytes
deriving DecidableEq

/-! ## Requests and bindings -/

/-- A request whose documents have been authenticated. -/
structure AuthenticatedUpdateRequest where
  release : Option ValidatedReleaseDownload
  runningBoard : BoardFamily
  transactionRoot : Path
  transactionId : TransactionId
  oldBootGeneration : UInt64
  newBootGeneration : UInt64
  consentSha256 : Digest
  resetRequired : Bool
  resetApproved : Bool
  foregroundAuthorizationToken : UInt64
deriving DecidableEq

structure AuthenticatedUpdateBinding where
  archiveUrl : String
  archiveFilename : String
  transactionRoot : Path
  board : BoardFamily
  sourceReleaseSequence : UInt64
  targetReleaseSequence : UInt64
  oldBootGeneration : UInt64
  newBootGeneration : UInt64
  archiveSize : Nat
  transactionId : TransactionId
  archiveSha256 : Digest
  manifestSha256 : Digest
  consentSha256 : Digest
  resetRequired : Bool
  resetApproved : Bool
deriving DecidableEq

/-- The consent an installation is bound to. -/
structure SealedUpdateAuthorization where
  consentSha256 : Digest
  resetRequired : Bool
  resetApproved : Bool
deriving DecidableEq

/-! ## What the collaborators answer -/

inductive AuthenticatedReleaseValidationStatus where
  | ok
  | invalidArgument
  | authenticationRejected
deriving DecidableEq, Repr

inductive AuthorizationConsentStatus where
  | ok
  | invalidArgument
  | notExplicitUserAction
  | networkFeatureDisabled
  | networkNotReady
  | configRevalidationFailed
  | configBlocked
  | consentMismatch
  | resetDecisionMismatch
deriving DecidableEq, Repr

inductive InstallReadinessGateStatus where
  | ready
  | blocked
  | probeFailed
deriving DecidableEq, Repr

inductive ArchiveFetchStatus where
  | ok
  | failed
  | canceled
deriving DecidableEq, Repr

inductive UpdateRequestPersistenceStatus where
  | ok
  | failed
  | recoveryProgressFailed
deriving DecidableEq, Repr

inductive PreparedConfigProviderStatus where
  | ok
  | invalidBinding
  | sourceChanged
  | ioError
  | unsupported
  | recoveryProgressFailed
deriving DecidableEq, Repr

/-- What the orchestrator reads of an `InstallerResult`. -/
structure InstallerReport where
  status : Except InstallerFailure InstallerSuccess
  journalSelection : JournalSelectionStatus
  journalState : JournalState

/-- The report of a call of the installer. -/
def InstallerResult.report (result : InstallerResult) : InstallerReport where
  status := result.status
  journalSelection :=
    match result.journalSlot with
    | none => .noJournal
    | some .a => .selectedA
    | some .b => .selectedB
  journalState := result.journalState

inductive CandidateHealthStatus where
  | healthy
  | notCandidateBoot
  | boardMismatch
  | releaseSequenceMismatch
  | updaterAbiMismatch
  | manifestUntrusted
  | candidateSelectorInvalid
  | criticalFileInvalid
  | configurationInvalid
  | journalUnavailable
  | coreSubsystemUnavailable
  | watchdogUnavailable
deriving DecidableEq, Repr

structure CandidateHealthEvidence where
  candidateBootExpected : Bool
  firmwareReportsTryboot : Bool
  runningBoard : BoardFamily
  manifestBoard : BoardFamily
  targetReleaseSequence : UInt64
  runningUpdaterAbi : UInt32
  minimumUpdaterAbi : UInt32
  maximumUpdaterAbi : UInt32
  localManifestTrusted : Bool
  candidateSelectorValid : Bool
  criticalFileHashesValid : Bool
  configurationValid : Bool
  journalReadWriteVerified : Bool
  filesystemReady : Bool
  menuCoreReady : Bool
  safeRebootReady : Bool
  hardwareWatchdogReady : Bool
deriving DecidableEq

inductive UpdateRebootTarget where
  | oneShotCandidate
  | previousInstallation
deriving DecidableEq, Repr

/-- The progress events the orchestrator itself reports. -/
inductive UpdateRecoveryProgressKind where
  | storedArchiveHashed
  | candidateRebootCheckpoint
  | foregroundDownloadMutationCheckpoint
  | foregroundRetireMutationCheckpoint
  | candidateHealthEvaluated
  | candidateRollbackDecision
  | foregroundStageComplete
  | candidateRollbackComplete
deriving DecidableEq, Repr

/-! ## Operations -/

/-- The calls of the orchestrator's collaborators. -/
inductive Operation where
  /-- `AuthenticatedReleaseValidator::Revalidate` -/
  | revalidate (download : ValidatedReleaseDownload) (runningBoard : BoardFamily)
  /-- `AuthorizationConsentGate::AuthorizeAndSeal` -/
  | authorizeAndSeal (request : AuthenticatedUpdateRequest) (freshOffer : ReleaseOffer)
  /-- `InstallReadinessGate::Probe` -/
  | probe (binding : AuthenticatedUpdateBinding) (manifest : OfferManifest)
  /-- `UpdateRecoveryProgress::Report` -/
  | report (kind : UpdateRecoveryProgressKind)
  /-- `UpdateArchiveStorage::Begin` -/
  | begin (binding : AuthenticatedUpdateBinding)
  /-- `UpdateArchiveTransport::Fetch` -/
  | fetch (authenticatedUrl : String) (maximumBodyBytes : Nat)
  /-- `UpdateArchiveStorage::Write` -/
  | write (data : Bytes)
  /-- `UpdateArchiveStorage::Finish` -/
  | finish
  /-- `UpdateArchiveStorage::Abort` -/
  | abort
  /-- `UpdateArchiveStorage::OpenRead` -/
  | openRead (binding : AuthenticatedUpdateBinding)
  /-- `SeekableZipSource::GetSize` -/
  | getSize
  /-- `SeekableZipSource::ReadAt` -/
  | readAt (offset count : Nat)
  /-- `UpdateArchiveStorage::CloseRead` -/
  | closeRead
  /-- `UpdateArchiveStorage::Discard` -/
  | discardArchive (binding : AuthenticatedUpdateBinding)
  /-- `UpdateRequestPersistence::Persist` -/
  | persist (request : AuthenticatedUpdateRequest)
  /-- `UpdateRequestPersistence::DiscardPersisted` -/
  | discardPersisted (binding : AuthenticatedUpdateBinding)
  /-- `UpdateRequestPersistence::DeactivatePersisted` -/
  | deactivatePersisted
  /-- `UpdateRequestPersistence::RetainCommitted` -/
  | retainCommitted (binding : AuthenticatedUpdateBinding)
  /-- `UpdateRequestPersistence::DiscardRetainedCommitted` -/
  | discardRetainedCommitted (binding : AuthenticatedUpdateBinding)
  /-- `PreparedConfigProvider::PrepareForStage` -/
  | prepareForStage (binding : AuthenticatedUpdateBinding) (manifest : OfferManifest)
      (archive : ZipArchive)
  /-- `PreparedConfigProvider::RestoreForResume` -/
  | restoreForResume (binding : AuthenticatedUpdateBinding) (manifest : OfferManifest)
  /-- `PreparedConfigProvider::Discard` -/
  | discardPrepared (binding : AuthenticatedUpdateBinding)
  /-- `UpdateInstallOperations::ReadJournal` -/
  | readJournal (transactionRoot : Path)
  /-- `UpdateInstallOperations::Stage` -/
  | stage (request : InstallerRequest)
  /-- `UpdateInstallOperations::ArmCandidate` -/
  | armCandidate (request : InstallerRequest)
  /-- `UpdateInstallOperations::MarkCandidateHealthy` -/
  | markCandidateHealthy (request : InstallerRequest)
  /-- `UpdateInstallOperations::Commit` -/
  | commit (request : InstallerRequest)
  /-- `UpdateInstallOperations::Rollback` -/
  | rollback (request : InstallerRequest)
  /-- `UpdateInstallOperations::RetireRolledBack` -/
  | retireRolledBack (request : InstallerRequest)
  /-- `UpdateInstallOperations::RetireCommitted` -/
  | retireCommitted (request : InstallerRequest)
  /-- `CandidateHealthProbe::Collect` -/
  | collect (binding : AuthenticatedUpdateBinding) (manifest : OfferManifest)
  /-- `UpdateRebootControl::OneShotRecoverySupported` -/
  | oneShotRecoverySupported
  /-- `UpdateRebootControl::RequestReboot` -/
  | requestReboot (target : UpdateRebootTarget) (binding : AuthenticatedUpdateBinding)
  /-- `UpdateRebootControl::RequestPreviousBootFailSafe` -/
  | requestPreviousBootFailSafe

/-- What an operation is answered.  A transport answers with its status and the
chunks it has handed to its sink. -/
abbrev Answer : Operation → Type
  | .revalidate .. => AuthenticatedReleaseValidationStatus × ReleaseOffer
  | .authorizeAndSeal .. => AuthorizationConsentStatus × SealedUpdateAuthorization
  | .probe .. => InstallReadinessGateStatus × Bool
  | .report .. => Bool
  | .begin .. => ArchiveStorageStatus
  | .fetch .. => ArchiveFetchStatus × List Bytes
  | .write .. => Bool
  | .finish => ArchiveStorageStatus
  | .abort => Unit
  | .openRead .. => ArchiveStorageStatus × Option ZipArchive
  | .getSize => Option Nat
  | .readAt .. => Option Bytes
  | .closeRead => ArchiveStorageStatus
  | .discardArchive .. => ArchiveStorageStatus
  | .persist .. => UpdateRequestPersistenceStatus
  | .discardPersisted .. => UpdateRequestPersistenceStatus
  | .deactivatePersisted => UpdateRequestPersistenceStatus
  | .retainCommitted .. => UpdateRequestPersistenceStatus
  | .discardRetainedCommitted .. => UpdateRequestPersistenceStatus
  | .prepareForStage .. => PreparedConfigProviderStatus × Option PreparedConfigSet
  | .restoreForResume .. => PreparedConfigProviderStatus × Option PreparedConfigSet
  | .discardPrepared .. => PreparedConfigProviderStatus
  | .readJournal .. => InstallerReport × JournalRecord
  | .stage .. => InstallerReport
  | .armCandidate .. => InstallerReport
  | .markCandidateHealthy .. => InstallerReport
  | .commit .. => InstallerReport
  | .rollback .. => InstallerReport
  | .retireRolledBack .. => InstallerReport
  | .retireCommitted .. => InstallerReport
  | .collect .. => Bool × CandidateHealthEvidence
  | .oneShotRecoverySupported => Bool
  | .requestReboot .. => Bool
  | .requestPreviousBootFailSafe => Bool

/-- A part of the orchestrator. -/
abbrev Flow (α : Type) := Program Operation Answer α

/-- Ask a collaborator. -/
abbrev ask (op : Operation) : Flow (Answer op) := Program.ask op

end BmxUpdate
