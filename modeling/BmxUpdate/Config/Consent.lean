import BmxUpdate.Config.Assess
import BmxUpdate.Orchestrator.Types
import BmxUpdate.Release.ManifestTypes

/-!
# The consent digest

`SerializeConsentDigestInput` (`consent_digest_input.cpp`) and the two places that
compute the digest from the files of the boot partition: `ReReadAndCompute`
(`update_authorization_adapters.cpp`) when the offer is confirmed, and
`AssessAndBindConfig` (`fatfs_prepared_config.cpp`) when the new configuration is
prepared.
-/

namespace BmxUpdate

namespace Config

open Wire Http

def kConsentHeaderEncodedBytes : Nat := 56

def kConsentItemEncodedBytes : Nat := 44

def kMaximumConsentEncodedBytes : Nat :=
  kConsentHeaderEncodedBytes + kMaximumConfigAreas * kConsentItemEncodedBytes

structure ConsentConfigItem where
  area : ConfigArea
  classification : ConfigClassification
  sourceSchemaVersion : Nat
  targetSchemaVersion : Nat
  sourceContentSha256 : Digest
deriving DecidableEq

/-- What the consent digest is computed from. -/
structure ConsentDigestInput where
  board : BoardFamily
  targetReleaseSequence : UInt64
  manifestSha256 : Digest
  items : List ConsentConfigItem
deriving DecidableEq

inductive ConsentInputStatus where
  | invalidInput | duplicateConfigArea | outputTooSmall
deriving DecidableEq, Repr

/-- `BytesAreNonZero` -/
def bytesAreNonZero (digest : Digest) : Bool := digest.bytes.any (· ≠ 0)

/-- `IsConsentClassification` -/
def isConsentClassification : ConfigClassification → Bool
  | .compatible | .losslessMigration | .resetRequired => true
  | _ => false

/-- The loop over the items, with the areas seen. -/
def checkConsentItems : List ConfigArea → List ConsentConfigItem → Except ConsentInputStatus Unit
  | _, [] => .ok ()
  | seen, item :: rest =>
      if isKnownConfigArea item.area = false ∨
          isConsentClassification item.classification = false ∨ item.targetSchemaVersion = 0 ∨
          (item.sourceSchemaVersion = 0 ∧ item.classification ≠ .compatible) ∨
          bytesAreNonZero item.sourceContentSha256 = false then
        .error .invalidInput
      else if item.area ∈ seen then .error .duplicateConfigArea
      else checkConsentItems (seen ++ [item.area]) rest

/-- `ValidateAndSort` -/
def validateAndSort (input : ConsentDigestInput) :
    Except ConsentInputStatus (List ConsentConfigItem) :=
  if isKnownBoardFamily input.board = false ∨ input.targetReleaseSequence = 0 ∨
      bytesAreNonZero input.manifestSha256 = false ∨ input.items = [] ∨
      kMaximumConfigAreas < input.items.length then
    .error .invalidInput
  else
    match checkConsentItems [] input.items with
    | .error status => .error status
    | .ok _ =>
        .ok (input.items.insertionSort fun left right =>
          areaNumber left.area ≤ areaNumber right.area)

/-- The number of a classification in the encoding. -/
def classificationNumber : ConfigClassification → Nat
  | .compatible => 0
  | .losslessMigration => 1
  | .resetRequired => 2
  | .unknownOrCorrupt => 3
  | .newerThanTarget => 4
  | .invalidRule => 5

def encodeConsentItem (item : ConsentConfigItem) : Bytes :=
  [UInt8.ofNat (areaNumber item.area), UInt8.ofNat (classificationNumber item.classification),
      0, 0] ++
    encodeLe 4 item.sourceSchemaVersion ++ encodeLe 4 item.targetSchemaVersion ++
    item.sourceContentSha256.bytes

/-- The header of the encoding, 56 bytes. -/
def encodeConsentHeader (input : ConsentDigestInput) (required : Nat) : Bytes :=
  bytesOf "BMXCNS1" ++ [0] ++ encodeLe 2 1 ++ encodeLe 2 required ++
    [input.board.toByte, UInt8.ofNat input.items.length, 0, 0] ++
    encodeLe 8 input.targetReleaseSequence.toNat ++ input.manifestSha256.bytes

/-- `SerializeConsentDigestInput` into a buffer of a size. -/
def serializeConsentDigestInput (input : ConsentDigestInput) (outputSize : Nat) :
    Except ConsentInputStatus Bytes :=
  match validateAndSort input with
  | .error status => .error status
  | .ok sorted =>
      let required := kConsentHeaderEncodedBytes + input.items.length * kConsentItemEncodedBytes
      if outputSize < required ∨ 65535 < required then .error .outputTooSmall
      else .ok (encodeConsentHeader input required ++ sorted.flatMap encodeConsentItem)

/-! ## The plan of a manifest -/

/-- The schemas of a manifest as requirements. -/
def schemaRequirements (manifest : Release.ReleaseManifest) : List ConfigSchemaRequirement :=
  manifest.schemas.map fun schema =>
    ⟨schema.area, schema.targetVersion.toNat, schema.acceptedVersions.map UInt32.toNat⟩

/-- The migrations of a manifest as declarations. -/
def declaredMigrations (manifest : Release.ReleaseManifest) : List DeclaredConfigMigration :=
  manifest.migrations.map fun migration =>
    ⟨migration.id, migration.area, migration.fromVersion.toNat, migration.toVersion.toNat,
      migration.lossy⟩

/-- The item of an assessed area. -/
def consentItem (area : ConfigAreaAssessment) : ConsentConfigItem :=
  ⟨area.area, area.classification, area.sourceVersion, area.targetVersion,
    area.sourceContentSha256⟩

/-- `PlanIsInstallable` -/
def planIsInstallable (plan : ConfigMigrationPlan) : Bool :=
  let compatible := plan.areas.countP (·.classification = .compatible)
  let migrations := plan.areas.countP (·.classification = .losslessMigration)
  let resets := plan.areas.countP (·.classification = .resetRequired)
  plan.areas.length = kConfigMigrationAreaCount && plan.blockedCount = 0 &&
    (plan.areas.all fun area => isConsentClassification area.classification) &&
    compatible = plan.compatibleCount && migrations = plan.migrationCount &&
    resets = plan.resetCount && compatible + migrations + resets = plan.areas.length &&
    decide (plan.decision =
      if resets ≠ 0 then .resetConfirmationRequired
      else if migrations ≠ 0 then .losslessMigration
      else .compatible)

/-! ## When the offer is confirmed -/

inductive CurrentConfigConsentStatus where
  | readFailed | invalidOrBlocked | digestFailed
deriving DecidableEq, Repr

structure CurrentConfigConsentEvidence where
  consentSha256 : Digest
  configurationStatus : OfferConfigurationStatus
deriving DecidableEq

/-- What `ReReadAndCompute` reads of the fresh offer. -/
structure FreshOffer where
  releaseDecision : ReleaseDecision
  installedBoard : BoardFamily
  manifest : Release.ReleaseManifest

/-- The input of the digest for a plan. -/
def consentDigestInput (board : BoardFamily) (sequence : UInt64) (manifestSha256 : Digest)
    (plan : ConfigMigrationPlan) : ConsentDigestInput :=
  ⟨board, sequence, manifestSha256, plan.areas.map consentItem⟩

/-- `ReReadAndCompute`; `loaded` is what the snapshot loads from `volume`, none where
that fails. -/
def reReadAndCompute (hash : Bytes → Digest) (volume : Bytes) (loaded : Option ConfigSnapshot)
    (freshOffer : FreshOffer) (runningBoard : BoardFamily)
    (authenticatedManifestSha256 : Digest) :
    Except CurrentConfigConsentStatus CurrentConfigConsentEvidence :=
  let manifest := freshOffer.manifest
  if volume = [] ∨ isKnownBoardFamily runningBoard = false ∨
      freshOffer.releaseDecision ≠ .updateAvailable ∨
      freshOffer.installedBoard ≠ runningBoard ∨ manifest.asset.board ≠ runningBoard ∨
      manifest.releaseSequence = 0 ∨ manifest.schemas.length ≠ kConfigMigrationAreaCount ∨
      kMaximumDeclaredConfigMigrations < manifest.migrations.length ∨
      bytesAreNonZero authenticatedManifestSha256 = false then
    .error .invalidOrBlocked
  else
    match loaded with
    | none => .error .readFailed
    | some snapshot =>
        match assessConfigSnapshot hash snapshot (schemaRequirements manifest)
            (declaredMigrations manifest) with
        | .error status =>
            .error (if status = .hashFailed then .digestFailed else .invalidOrBlocked)
        | .ok plan =>
            if planIsInstallable plan = false then .error .invalidOrBlocked
            else
              match serializeConsentDigestInput
                  (consentDigestInput runningBoard manifest.releaseSequence
                    authenticatedManifestSha256 plan)
                  kMaximumConsentEncodedBytes with
              | .error _ => .error .digestFailed
              | .ok encoded =>
                  if bytesAreNonZero (hash encoded) = false then .error .digestFailed
                  else
                    .ok ⟨hash encoded,
                      if plan.resetCount = 0 then .compatible else .resetConfirmationRequired⟩

/-! ## When the configuration is prepared -/

/-- `AssessAndBindConfig`; `loaded` as above. -/
def assessAndBindConfig (hash : Bytes → Digest) (loaded : Option ConfigSnapshot)
    (binding : AuthenticatedUpdateBinding) (manifest : Release.ReleaseManifest) :
    Except PreparedConfigProviderStatus ConfigMigrationPlan :=
  match loaded with
  | none => .error .ioError
  | some snapshot =>
      match assessConfigSnapshot hash snapshot (schemaRequirements manifest)
          (declaredMigrations manifest) with
      | .error _ => .error .sourceChanged
      | .ok plan =>
          if plan.areas.length ≠ kConfigMigrationAreaCount ∨ plan.blockedCount ≠ 0 ∨
              plan.decision = .blockedUnknownOrCorrupt ∨ plan.decision = .blockedNewerThanTarget ∨
              plan.decision = .invalidInput then
            .error .sourceChanged
          else if (plan.areas.all fun area => isConsentClassification area.classification) =
              false then
            .error .sourceChanged
          else
            match serializeConsentDigestInput
                (consentDigestInput binding.board binding.targetReleaseSequence
                  binding.manifestSha256 plan)
                kMaximumConsentEncodedBytes with
            | .error _ => .error .invalidBinding
            | .ok encoded =>
                if hash encoded ≠ binding.consentSha256 then .error .sourceChanged
                else if binding.resetRequired ≠ (decide (plan.resetCount ≠ 0)) ∨
                    binding.resetApproved ≠ (decide (plan.resetCount ≠ 0)) then
                  .error .invalidBinding
                else .ok plan

end Config

end BmxUpdate
