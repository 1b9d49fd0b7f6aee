import BmxUpdate.Orchestrator.Types

/-!
# The orchestrator's checks

The pure functions of `update_orchestrator.cpp`: what is accepted as a request,
an offer, a workspace, a prepared configuration, a journal and a health
evidence, and the binding every later operation receives.

`ReleasePolicy` stands for the three functions of other components the checks
call: the hash function, the URL policy, and the selection of the assets of a
release.
-/

namespace BmxUpdate

open Wire Volumes

/-- The functions of other components the orchestrator calls. -/
structure ReleasePolicy where
  sha256 : Bytes → Digest
  /-- `ParseAndAuthorizeUpdateUrl` returns `Ok`. -/
  urlAuthorized : String → UpdateUrlPurpose → Bool
  /-- `FindRequiredAssetsForKind`, `none` unless it returns `Ok`. -/
  findRequiredAssets : GitHubLatestRelease → GitHubReleaseKind → String → String →
    Option RequiredGitHubReleaseAssets

/-! ## Bounds -/

def kMinimumOrchestratorBufferBytes : Nat := 4096

def kMaximumGitHubReleaseAssets : Nat := 64

def kMaximumGitHubReleaseResponseBytes : Nat := 131072

/-! ## Offers -/

/-- `NonEmptyTerminatedWithin` -/
def nonEmptyTerminatedWithin (text : String) (capacity : Nat) : Bool :=
  text ≠ "" && text.length < capacity

/-- `ReleaseKind` -/
def ReleaseAcquisitionMode.releaseKind : ReleaseAcquisitionMode → GitHubReleaseKind
  | .preparedDraft => .preparedDraft
  | .publishedStable => .publishedStable

/-- The purpose `AssetStringsValid` asks the URL policy about. -/
def ReleaseAcquisitionMode.assetPurpose : ReleaseAcquisitionMode → UpdateUrlPurpose
  | .preparedDraft => .authenticatedReleaseAsset
  | .publishedStable => .releaseAsset

/-- `AssetBelongsToRelease` -/
def assetBelongsToRelease (release : GitHubLatestRelease) (candidate : Option Nat) :
    Option GitHubReleaseAsset :=
  if release.assets.length ≤ kMaximumGitHubReleaseAssets then
    candidate.bind fun index => release.assets[index]?
  else none

/-- `OfferConfigurationAdvisoryValid` -/
def offerConfigurationAdvisoryValid (offer : ReleaseOffer) : Bool :=
  offer.resetAreas.length ≤ kMaximumConfigAreas &&
    match offer.configurationStatus with
    | .compatible => offer.resetAreas = []
    | .resetConfirmationRequired =>
        offer.resetAreas ≠ [] && offer.resetAreas.all isKnownConfigArea && offer.resetAreas.Nodup
    | .blockedIncompatible => offer.resetAreas.all isKnownConfigArea && offer.resetAreas.Nodup

/-- The failures of `RequestValidation`. -/
inductive RequestValidation where
  | invalidArgument
  | offerInvalid
  | identityInvalid
  | consentInvalid
deriving DecidableEq, Repr

namespace ReleasePolicy

variable (policy : ReleasePolicy)

/-- `AssetStringsValid` -/
def assetStringsValid (asset : GitHubReleaseAsset) (mode : ReleaseAcquisitionMode) : Bool :=
  nonEmptyTerminatedWithin asset.name 161 && asset.downloadUrl mode.releaseKind ≠ "" &&
    asset.size ≠ 0 && policy.urlAuthorized (asset.downloadUrl mode.releaseKind) mode.assetPurpose

/-- The checks `ValidateAuthenticatedRequest` makes of the raw inputs. -/
def downloadValid (download : ValidatedReleaseDownload) : Bool :=
  download.installedBuildInfo ≠ [] &&
    download.installedBuildInfo.length ≤ kMaximumBuildInfoBytes &&
    download.githubResponse ≠ [] &&
    download.githubResponse.length ≤ kMaximumGitHubReleaseResponseBytes &&
    download.manifest ≠ [] && download.manifest.length ≤ kMaximumReleaseManifestBytes &&
    download.signature ≠ [] && download.signature.length ≤ kMaximumSignatureEnvelopeBytes

/-- The checks `ValidateAuthenticatedRequest` makes of the offer's fields. -/
def offerFieldsValid (request : AuthenticatedUpdateRequest) (mode : ReleaseAcquisitionMode)
    (offer : ReleaseOffer) : Bool :=
  let manifest := offer.manifest
  offer.releaseDecision = .updateAvailable &&
    offer.github.draft = (mode = .preparedDraft) && !offer.github.prerelease &&
    nonEmptyTerminatedWithin offer.github.tagName 129 &&
    nonEmptyTerminatedWithin manifest.tag 129 && nonEmptyTerminatedWithin manifest.version 65 &&
    nonEmptyTerminatedWithin manifest.archiveFilename 161 &&
    offer.github.tagName = manifest.tag && offer.installed.board = request.runningBoard &&
    manifest.asset.board = request.runningBoard && offer.installed.releaseSequence ≠ 0 &&
    offer.installed.releaseSequence < manifest.releaseSequence &&
    offer.installed.updaterAbi ≠ 0 && manifest.minimumUpdaterAbi ≠ 0 &&
    manifest.minimumUpdaterAbi ≤ manifest.maximumUpdaterAbi &&
    manifest.minimumUpdaterAbi ≤ offer.installed.updaterAbi &&
    offer.installed.updaterAbi ≤ manifest.maximumUpdaterAbi &&
    offer.installed.releaseEpoch ≤ manifest.releaseEpoch && manifest.asset.downloadSize ≠ 0 &&
    manifest.asset.sha256 ≠ .zero 32 && manifest.asset.files ≠ [] &&
    manifest.asset.files.length ≤ kMaximumManifestFiles &&
    manifest.asset.directories.length ≤ kMaximumManifestDirectories

/-- The checks `ValidateAuthenticatedRequest` makes of the offer's assets. -/
def offerAssetsValid (download : ValidatedReleaseDownload) (offer : ReleaseOffer) : Bool :=
  let release := offer.github
  let assets := offer.assets
  match assetBelongsToRelease release assets.manifest,
      assetBelongsToRelease release assets.signature,
      assetBelongsToRelease release assets.boardZip with
  | some manifest, some signature, some archive =>
      assets.manifest ≠ assets.signature && assets.manifest ≠ assets.boardZip &&
        assets.signature ≠ assets.boardZip &&
        policy.assetStringsValid manifest download.acquisitionMode &&
        policy.assetStringsValid signature download.acquisitionMode &&
        policy.assetStringsValid archive download.acquisitionMode &&
        manifest.name = "BMX-RELEASE.json" && signature.name = "BMX-RELEASE.sig" &&
        manifest.size = download.manifest.length && signature.size = download.signature.length &&
        archive.size = offer.manifest.asset.downloadSize &&
        archive.name = offer.manifest.archiveFilename &&
        policy.findRequiredAssets release download.acquisitionMode.releaseKind offer.manifest.tag
          offer.manifest.archiveFilename = some assets
  | _, _, _ => false

/-- The checks `ValidateAuthenticatedRequest` makes of the local identity. -/
def identityValid (request : AuthenticatedUpdateRequest) : Bool :=
  validRelativePath request.transactionRoot kInstallerMaximumPathBytes &&
    pathBytes request.transactionRoot + 1 + "metadata-old".length + 1 + kMaximumManifestPathBytes ≤
      kInstallerMaximumPathBytes &&
    request.transactionId ≠ .zero 16 && request.oldBootGeneration ≠ 0 &&
    request.oldBootGeneration < request.newBootGeneration

/-- `ValidateAuthenticatedRequest`: the digest of the raw manifest. -/
def validateAuthenticatedRequest (request : AuthenticatedUpdateRequest) (offer : ReleaseOffer) :
    Except RequestValidation Digest :=
  match request.release with
  | none => .error .invalidArgument
  | some download =>
      if !isKnownBoardFamily request.runningBoard || request.transactionRoot = [] then
        .error .invalidArgument
      else if !downloadValid download then .error .offerInvalid
      else if !offerFieldsValid request download.acquisitionMode offer then .error .offerInvalid
      else if !policy.offerAssetsValid download offer then .error .offerInvalid
      else if !identityValid request then .error .identityInvalid
      else if request.consentSha256 = .zero 32 then .error .consentInvalid
      else if !offerConfigurationAdvisoryValid offer then .error .offerInvalid
      else if request.resetRequired ≠ request.resetApproved then .error .consentInvalid
      else .ok (policy.sha256 download.manifest)

end ReleasePolicy

/-! ## Bindings -/

/-- `BuildBinding` -/
def buildBinding (request : AuthenticatedUpdateRequest) (offer : ReleaseOffer)
    (manifestDigest : Digest) (authorization : SealedUpdateAuthorization) :
    AuthenticatedUpdateBinding where
  archiveUrl := ((assetBelongsToRelease offer.github offer.assets.boardZip).bind fun asset =>
    request.release.map fun release =>
      asset.downloadUrl release.acquisitionMode.releaseKind).getD ""
  archiveFilename := offer.manifest.archiveFilename
  transactionRoot := request.transactionRoot
  board := request.runningBoard
  sourceReleaseSequence := offer.installed.releaseSequence
  targetReleaseSequence := offer.manifest.releaseSequence
  oldBootGeneration := request.oldBootGeneration
  newBootGeneration := request.newBootGeneration
  archiveSize := offer.manifest.asset.downloadSize
  transactionId := request.transactionId
  archiveSha256 := offer.manifest.asset.sha256
  manifestSha256 := manifestDigest
  consentSha256 := authorization.consentSha256
  resetRequired := authorization.resetRequired
  resetApproved := authorization.resetApproved

/-- `BuildInstallerRequest` -/
def buildInstallerRequest (offer : ReleaseOffer) (binding : AuthenticatedUpdateBinding)
    (archive : Option ZipArchive) (prepared : Option PreparedConfigSet) : InstallerRequest where
  manifest := offer.manifest.toReleaseManifest
  downloadedZip := archive
  transactionRoot := binding.transactionRoot
  identity :=
    { transactionId := binding.transactionId
      sourceReleaseSequence := binding.sourceReleaseSequence
      oldBootGeneration := binding.oldBootGeneration
      newBootGeneration := binding.newBootGeneration
      manifestSha256 := binding.manifestSha256
      consentSha256 := binding.consentSha256
      resetRequired := binding.resetRequired
      resetApproved := binding.resetApproved }
  preparedConfigs := prepared

/-! ## Prepared configurations -/

/-- `ConfigTemplateCount` -/
def configTemplateCount (manifest : OfferManifest) : Nat :=
  manifest.asset.files.countP (·.policy = .configTemplate)

/-- The checks `PreparedSetValid` makes of one entry by itself. -/
def preparedTemplateValid (manifest : OfferManifest) (requireContent : Bool)
    (entry : PreparedConfigTemplate) : Bool :=
  0 < pathBytes entry.path && pathBytes entry.path ≤ kMaximumManifestPathBytes &&
    (!requireContent || entry.content.isSome) && entry.preparedSha256 ≠ .zero 32 &&
    (!entry.originalExisted || entry.originalSha256 ≠ .zero 32) &&
    (entry.originalExisted || (entry.originalSize = 0 && entry.originalSha256 = .zero 32)) &&
    manifest.asset.files.countP (fun file =>
      file.policy = .configTemplate && entry.path = file.path) = 1

/-- `PreparedSetValid` -/
def preparedSetValid (set : Option PreparedConfigSet) (binding : AuthenticatedUpdateBinding)
    (manifest : OfferManifest) (requireContent : Bool) : Bool :=
  match set with
  | none => false
  | some set =>
      set.manifestSha256 = binding.manifestSha256 && set.consentSha256 = binding.consentSha256 &&
        set.resetRequired = binding.resetRequired && set.resetApproved = binding.resetApproved &&
        set.entries.length = configTemplateCount manifest &&
        set.entries.all (preparedTemplateValid manifest requireContent) &&
        (set.entries.map (·.path)).Nodup

/-! ## Workspaces -/

/-- What the orchestrator needs of its caller: the capacities of the installer's
workspace, which of the pointers are set, the size of the verification buffer
(zero for a null one), and whether there is a progress callback. -/
structure UpdateOrchestratorWorkspace where
  installer : InstallerWorkspace
  zipEntries : Bool
  expectedFiles : Bool
  expectedDirectories : Bool
  zipWorkspace : Bool
  releaseOffer : Bool
  verificationBufferSize : Nat
  recoveryProgress : Bool
deriving DecidableEq

/-- `WorkspaceValid` -/
def workspaceValid (workspace : UpdateOrchestratorWorkspace) (startPhase : Bool) : Bool :=
  workspace.releaseOffer && kMinimumOrchestratorBufferBytes ≤ workspace.verificationBufferSize &&
    kInstallerMinimumIoBufferBytes ≤ workspace.installer.ioBufferSize &&
    if startPhase then workspace.zipEntries && workspace.expectedFiles && workspace.zipWorkspace
    else workspace.recoveryProgress

/-- `WorkspaceFitsManifest` -/
def workspaceFitsManifest (workspace : UpdateOrchestratorWorkspace) (manifest : OfferManifest) :
    Bool :=
  let files := manifest.asset.files.length
  let directories := manifest.asset.directories.length
  files ≤ kZipMaximumEntries && directories ≤ kZipMaximumEntries - files &&
    files + directories ≤ workspace.installer.zipEntryCapacity &&
    files ≤ workspace.installer.expectedFileCapacity &&
    (directories = 0 || (workspace.expectedDirectories &&
      directories ≤ workspace.installer.expectedDirectoryCapacity))

/-! ## Journals and health -/

/-- `HasTransactionJournal` -/
def InstallerReport.hasTransactionJournal (report : InstallerReport) : Bool :=
  report.journalSelection = .selectedA || report.journalSelection = .selectedB ||
    report.journalSelection = .selectedEquivalentCopies

/-- `JournalBoundToTransaction` -/
def journalBoundToTransaction (record : JournalRecord) (binding : AuthenticatedUpdateBinding) :
    Bool :=
  record.state = .idle ||
    (record.transactionId = binding.transactionId &&
      record.sourceReleaseSequence = binding.sourceReleaseSequence &&
      record.targetReleaseSequence = binding.targetReleaseSequence &&
      record.board = binding.board && record.manifestSha256 = binding.manifestSha256 &&
      record.zipSha256 = binding.archiveSha256 && record.consentSha256 = binding.consentSha256 &&
      record.oldBootGeneration = binding.oldBootGeneration &&
      record.newBootGeneration = binding.newBootGeneration &&
      decide (record.flags &&& JournalFlags.resetRequired ≠ 0) = binding.resetRequired &&
      decide (record.flags &&& JournalFlags.resetApproved ≠ 0) = binding.resetApproved)

/-- `EvaluateCandidateHealth` -/
def evaluateCandidateHealth (evidence : CandidateHealthEvidence) : CandidateHealthStatus :=
  if !evidence.candidateBootExpected || !evidence.firmwareReportsTryboot then .notCandidateBoot
  else if !isKnownBoardFamily evidence.runningBoard ||
      evidence.runningBoard ≠ evidence.manifestBoard then .boardMismatch
  else if evidence.targetReleaseSequence = 0 then .releaseSequenceMismatch
  else if evidence.runningUpdaterAbi = 0 ∨ evidence.minimumUpdaterAbi = 0 ∨
      evidence.maximumUpdaterAbi < evidence.minimumUpdaterAbi ∨
      evidence.runningUpdaterAbi < evidence.minimumUpdaterAbi ∨
      evidence.maximumUpdaterAbi < evidence.runningUpdaterAbi then .updaterAbiMismatch
  else if !evidence.localManifestTrusted then .manifestUntrusted
  else if !evidence.candidateSelectorValid then .candidateSelectorInvalid
  else if !evidence.criticalFileHashesValid then .criticalFileInvalid
  else if !evidence.configurationValid then .configurationInvalid
  else if !evidence.journalReadWriteVerified then .journalUnavailable
  else if !evidence.filesystemReady || !evidence.menuCoreReady || !evidence.safeRebootReady then
    .coreSubsystemUnavailable
  else if !evidence.hardwareWatchdogReady then .watchdogUnavailable
  else .healthy

/-- `HealthEvidenceBound` -/
def healthEvidenceBound (evidence : CandidateHealthEvidence) (manifest : OfferManifest) : Bool :=
  evidence.manifestBoard = manifest.asset.board &&
    evidence.targetReleaseSequence = manifest.releaseSequence &&
    evidence.minimumUpdaterAbi = manifest.minimumUpdaterAbi &&
    evidence.maximumUpdaterAbi = manifest.maximumUpdaterAbi

end BmxUpdate
