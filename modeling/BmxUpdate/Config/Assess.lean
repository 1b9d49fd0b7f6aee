import BmxUpdate.Config.Snapshot

/-!
# Assessing a snapshot

The compiled migrations, `ValidateConfigMigrationDeclarations` and
`AssessConfigSnapshot` (`config_migration.cpp`): how each area of a snapshot stands
to the schemas and migrations of a release.
-/

namespace BmxUpdate

namespace Config

open Wire Http

def kMaximumDeclaredConfigMigrations : Nat := 64

def kMaximumConfigMigrationIdBytes : Nat := 64

structure ConfigSchemaRequirement where
  area : ConfigArea
  targetVersion : Nat
  acceptedVersions : List Nat
deriving DecidableEq, Repr

/-- A migration, as a release declares it and as it is compiled in. -/
structure DeclaredConfigMigration where
  id : Bytes
  area : ConfigArea
  fromVersion : Nat
  toVersion : Nat
  lossy : Bool
deriving DecidableEq, Repr

/-- The tuples of `kCompiledMigrations`. -/
def kCompiledMigrations : List DeclaredConfigMigration :=
  [⟨bytesOf "machines-v1-to-v2-header", .machines, 1, 2, false⟩,
   ⟨bytesOf "config-managed-v1-to-v2-header", .configManagedBlock, 1, 2, false⟩,
   ⟨bytesOf "cmdline-managed-v1-to-v2-marker", .cmdlineManagedKeys, 1, 2, false⟩,
   ⟨bytesOf "network-v1-to-v2-marker", .network, 1, 2, false⟩,
   ⟨bytesOf "settings-v1-to-v2-header", .settings, 1, 2, false⟩,
   ⟨bytesOf "machines-v1-to-v2-reset", .machines, 1, 2, true⟩,
   ⟨bytesOf "config-managed-v1-to-v2-reset", .configManagedBlock, 1, 2, true⟩,
   ⟨bytesOf "cmdline-managed-v1-to-v2-reset", .cmdlineManagedKeys, 1, 2, true⟩,
   ⟨bytesOf "network-v1-to-v2-reset", .network, 1, 2, true⟩,
   ⟨bytesOf "settings-v1-to-v2-reset", .settings, 1, 2, true⟩,
   ⟨bytesOf "update-state-v1-to-v2-reset", .updateState, 1, 2, true⟩]

inductive ConfigMigrationRegistryStatus where
  | valid | invalidInput | duplicateDeclaration | unknownMigration | declarationMismatch
  | schemaMismatch
deriving DecidableEq, Repr

/-- `FindCompiledMigration` -/
def findCompiledMigration (id : Bytes) : Option DeclaredConfigMigration :=
  if id = [] ∨ kMaximumConfigMigrationIdBytes < id.length then none
  else kCompiledMigrations.find? (·.id = id)

/-- `RequirementIsValid` -/
def requirementIsValid (requirement : ConfigSchemaRequirement) : Bool :=
  isKnownConfigArea requirement.area && requirement.targetVersion ≠ 0 &&
    requirement.acceptedVersions ≠ [] && requirement.acceptedVersions.length ≤ 32 &&
    decide requirement.acceptedVersions.Nodup &&
    requirement.acceptedVersions.contains requirement.targetVersion

/-- `FindRequirement` -/
def findRequirement (requirements : List ConfigSchemaRequirement) (area : ConfigArea) :
    Option ConfigSchemaRequirement :=
  requirements.find? (·.area = area)

/-- `VersionIsAccepted` -/
def versionIsAccepted (requirement : ConfigSchemaRequirement) (version : Nat) : Bool :=
  requirement.acceptedVersions.contains version

/-- The loop over the requirements, with the areas seen. -/
def requirementsValid : List ConfigArea → List ConfigSchemaRequirement → Bool
  | _, [] => true
  | seen, requirement :: rest =>
      requirementIsValid requirement && !seen.contains requirement.area &&
        requirementsValid (seen ++ [requirement.area]) rest

/-- The loop over the declarations, with those before. -/
def declarationsStatus (requirements : List ConfigSchemaRequirement) :
    List DeclaredConfigMigration → List DeclaredConfigMigration → ConfigMigrationRegistryStatus
  | _, [] => .valid
  | prior, declaration :: rest =>
      if declaration.id = [] ∨ kMaximumConfigMigrationIdBytes < declaration.id.length ∨
          isKnownConfigArea declaration.area = false ∨ declaration.fromVersion = 0 ∨
          declaration.toVersion = 0 ∨ declaration.fromVersion = declaration.toVersion then
        .invalidInput
      else if prior.any fun other => other.id = declaration.id ||
          (other.area = declaration.area && other.fromVersion = declaration.fromVersion &&
            other.toVersion = declaration.toVersion) then
        .duplicateDeclaration
      else
        match findCompiledMigration declaration.id with
        | none => .unknownMigration
        | some compiled =>
            if compiled.area ≠ declaration.area ∨
                compiled.fromVersion ≠ declaration.fromVersion ∨
                compiled.toVersion ≠ declaration.toVersion ∨
                compiled.lossy ≠ declaration.lossy then
              .declarationMismatch
            else
              match findRequirement requirements declaration.area with
              | none => .schemaMismatch
              | some requirement =>
                  if requirement.targetVersion ≠ declaration.toVersion ∨
                      versionIsAccepted requirement declaration.fromVersion = true then
                    .schemaMismatch
                  else declarationsStatus requirements (prior ++ [declaration]) rest

/-- `ValidateConfigMigrationDeclarations` -/
def validateConfigMigrationDeclarations (requirements : List ConfigSchemaRequirement)
    (migrations : List DeclaredConfigMigration) : ConfigMigrationRegistryStatus :=
  if requirements.length ≠ kConfigMigrationAreaCount ∨
      kMaximumDeclaredConfigMigrations < migrations.length then
    .invalidInput
  else if requirementsValid [] requirements = false then .invalidInput
  else declarationsStatus requirements [] migrations

inductive ConfigClassification where
  | compatible | losslessMigration | resetRequired | unknownOrCorrupt | newerThanTarget
  | invalidRule
deriving DecidableEq, Repr

inductive ConfigPlanDecision where
  | compatible | losslessMigration | resetConfirmationRequired | blockedUnknownOrCorrupt
  | blockedNewerThanTarget | invalidInput
deriving DecidableEq, Repr

/-- How an area stands to the release. -/
structure ConfigAreaAssessment where
  area : ConfigArea
  detection : ConfigDetectionDetail
  sourceVersion : Nat
  targetVersion : Nat
  classification : ConfigClassification
  migrationId : Bytes
  sourceContentSha256 : Digest
deriving DecidableEq

/-- How all areas stand to the release, and what follows for the update. -/
structure ConfigMigrationPlan where
  areas : List ConfigAreaAssessment
  decision : ConfigPlanDecision
  compatibleCount : Nat
  migrationCount : Nat
  resetCount : Nat
  blockedCount : Nat
deriving DecidableEq

/-- One area in the loop of `RecomputePlanDecision`. -/
def countArea (plan : ConfigMigrationPlan) (area : ConfigAreaAssessment) : ConfigMigrationPlan :=
  match area.classification with
  | .compatible => { plan with compatibleCount := plan.compatibleCount + 1 }
  | .losslessMigration =>
      { plan with
        migrationCount := plan.migrationCount + 1
        decision := if plan.decision = .compatible then .losslessMigration else plan.decision }
  | .resetRequired =>
      { plan with
        resetCount := plan.resetCount + 1
        decision :=
          if plan.decision ≠ .blockedUnknownOrCorrupt ∧ plan.decision ≠ .blockedNewerThanTarget then
            .resetConfirmationRequired
          else plan.decision }
  | .unknownOrCorrupt =>
      { plan with
        blockedCount := plan.blockedCount + 1
        decision :=
          if plan.decision ≠ .blockedNewerThanTarget then .blockedUnknownOrCorrupt
          else plan.decision }
  | .newerThanTarget =>
      { plan with blockedCount := plan.blockedCount + 1, decision := .blockedNewerThanTarget }
  | .invalidRule =>
      { plan with blockedCount := plan.blockedCount + 1, decision := .invalidInput }

/-- `RecomputePlanDecision` -/
def recomputePlanDecision (areas : List ConfigAreaAssessment) : ConfigMigrationPlan :=
  areas.foldl countArea ⟨areas, .compatible, 0, 0, 0, 0⟩

inductive ConfigAssessmentStatus where
  | invalidInput | registryRejected | hashFailed
deriving DecidableEq, Repr

/-- `FindDeclaredMigration` -/
def findDeclaredMigration (migrations : List DeclaredConfigMigration) (area : ConfigArea)
    (fromVersion toVersion : Nat) : Option DeclaredConfigMigration :=
  migrations.find? fun m =>
    m.area = area && m.fromVersion = fromVersion && m.toVersion = toVersion

/-- The classification of an area, and the migration it names. -/
def classify (requirement : ConfigSchemaRequirement) (migrations : List DeclaredConfigMigration)
    (detection : DetectionResult) : ConfigClassification × Bytes :=
  if detection.detail = .valid ∨ detection.detail = .missing then
    if requirement.targetVersion < detection.version then (.newerThanTarget, [])
    else if versionIsAccepted requirement detection.version then (.compatible, [])
    else
      match findDeclaredMigration migrations requirement.area detection.version
          requirement.targetVersion with
      | none => (.unknownOrCorrupt, [])
      | some migration =>
          (if migration.lossy then .resetRequired else .losslessMigration, migration.id)
  else (.unknownOrCorrupt, [])

/-- The assessment of one area against its requirement. -/
def assessArea (hash : Bytes → Digest) (requirement : ConfigSchemaRequirement)
    (migrations : List DeclaredConfigMigration) (source : ConfigAreaSnapshot) :
    ConfigAreaAssessment :=
  let detection := detectArea source
  let (classification, migrationId) := classify requirement migrations detection
  { area := source.area
    detection := detection.detail
    sourceVersion := detection.version
    targetVersion := requirement.targetVersion
    classification := classification
    migrationId := migrationId
    sourceContentSha256 := hashAreaSnapshot hash source }

/-- The loop over the areas by number. -/
def assessAreas (hash : Bytes → Digest) (snapshot : ConfigSnapshot)
    (requirements : List ConfigSchemaRequirement) (migrations : List DeclaredConfigMigration) :
    List ConfigArea → Except ConfigAssessmentStatus (List ConfigAreaAssessment)
  | [] => .ok []
  | area :: rest =>
      match findArea snapshot area, findRequirement requirements area with
      | some source, some requirement =>
          match assessAreas hash snapshot requirements migrations rest with
          | .error status => .error status
          | .ok assessments => .ok (assessArea hash requirement migrations source :: assessments)
      | _, _ => .error .invalidInput

/-- `AssessConfigSnapshot` -/
def assessConfigSnapshot (hash : Bytes → Digest) (snapshot : ConfigSnapshot)
    (requirements : List ConfigSchemaRequirement) (migrations : List DeclaredConfigMigration) :
    Except ConfigAssessmentStatus ConfigMigrationPlan :=
  if validateFullSnapshot snapshot = false then .error .invalidInput
  else if validateConfigMigrationDeclarations requirements migrations ≠ .valid then
    .error .registryRejected
  else
    match assessAreas hash snapshot requirements migrations knownAreas with
    | .error status => .error status
    | .ok areas => .ok (recomputePlanDecision areas)

end Config

end BmxUpdate
