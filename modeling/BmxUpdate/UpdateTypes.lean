/-!
# Shared enumerations and limits

How a release is acquired and judged (`release_offer.h`, `update_policy.h`), the
areas of the configuration (`config_schema.h`), the phases of an update
(`update_foreground_progress.h`), what a URL is used for (`url_policy.h`) and how the
archive storage answers (`update_orchestrator.h`), and the limits that several components
check.
-/

namespace BmxUpdate

/-! ## Limits -/

def kMaximumBuildInfoBytes : Nat := 64 * 1024
def kMaximumReleaseManifestBytes : Nat := 128 * 1024
def kMaximumSignatureEnvelopeBytes : Nat := 4096
def kMaximumConfigAreas : Nat := 16
def kMaximumConfigFileBytes : Nat := 512 * 1024
def kZipMaximumEntries : Nat := 2048
def kInstallerMaximumPathBytes : Nat := 512

/-! ## Enumerations -/

inductive ReleaseAcquisitionMode where
  | publishedStable
  | preparedDraft
deriving DecidableEq, Repr

inductive GitHubReleaseKind where
  | publishedStable
  | preparedDraft
deriving DecidableEq, Repr

inductive ReleaseDecision where
  | updateAvailable
  | legacyInstallation
  | invalidInstalledMetadata
  | unsupportedSource
  | notStable
  | invalidCandidateMetadata
  | boardMismatch
  | updaterAbiMismatch
  | alreadyCurrent
  | downgradeDenied
deriving DecidableEq, Repr

inductive OfferConfigurationStatus where
  | compatible
  | resetConfirmationRequired
  | blockedIncompatible
deriving DecidableEq, Repr

inductive ConfigArea where
  | unknown
  | machines
  | configManagedBlock
  | cmdlineManagedKeys
  | network
  | settings
  | updateState
deriving DecidableEq, Repr

inductive UpdateForegroundPhase where
  | discovery
  | manifest
  | zip
  | hash
  | stage
  | reboot
deriving DecidableEq, Repr

inductive UpdateUrlPurpose where
  | discovery
  | releaseAsset
  | redirect
  | preparedDraftDiscovery
  | authenticatedReleaseAsset
  | gitHubDeviceAuthorization
deriving DecidableEq, Repr

inductive ArchiveStorageStatus where
  | ok
  | failed
  | notFound
  | busy
  | recoveryProgressFailed
deriving DecidableEq, Repr

/-- `IsKnownConfigArea` -/
def isKnownConfigArea : ConfigArea → Bool
  | .unknown => false
  | _ => true

end BmxUpdate
