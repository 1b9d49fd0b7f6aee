import BmxUpdate.Config.Assess
import BmxUpdate.Json.Reader
import BmxUpdate.Library.Checks
import BmxUpdate.Release.BuildInfo
import BmxUpdate.Release.ManifestTypes
import BmxUpdate.Release.PathPolicy
import BmxUpdate.Release.SignatureEnvelope

/-!
# The release manifest

`ParseReleaseManifest` (`release_manifest.cpp`): the JSON text of a manifest, token by token,
into what the updater works from.  A text is the bytes before its NUL; the loops over the
children of an array go by ordinal, as the source's do.
-/

namespace BmxUpdate

namespace Release

open Wire Http Json Checks Config

def kMaximumManifestSchemas : Nat := 32
def kMaximumManifestMigrations : Nat := 64
def kMaximumManifestLossyChanges : Nat := 64
def kMaximumAssetBytes : Nat := 512 * 1024 * 1024
def kMaximumFileBytes : Nat := 128 * 1024 * 1024
def kSafetyReserveBytes : Nat := 16 * 1024 * 1024

def int32Max : Nat := 2 ^ 31 - 1
def int64Max : Nat := 2 ^ 63 - 1
def uint64Max : Nat := 2 ^ 64 - 1

inductive ManifestParseStatus where
  | invalidArgument | invalidSize | jsonInvalid | unsupportedVersion | wrongType | unknownField
  | invalidValue | limitExceeded | unsupportedConfiguration | targetAssetMissing
  | duplicateAsset | inventoryMismatch | storageTooSmall
deriving DecidableEq, Repr

/-- The capacities of the caller's storage. -/
structure ManifestParseStorage where
  tokenCapacity : Nat
  fileCapacity : Nat
  directoryCapacity : Nat

/-! ## Texts -/

/-- `IsTag` -/
def isTag (value : Bytes) : Bool :=
  value ≠ [] && value.length ≤ 128 && value.head?.all isAsciiAlphaNumeric &&
    value.all fun c =>
      isAsciiAlphaNumeric c || c = 0x2e || c = 0x5f || c = 0x2b || c = 0x2d

def hexValue (c : UInt8) : Nat := if c ≤ 0x39 then c.toNat - 0x30 else c.toNat - 0x61 + 10

/-- The bytes of pairs of hexadecimal digits. -/
def hexBytes : Bytes → Bytes
  | high :: low :: rest => UInt8.ofNat (hexValue high * 16 + hexValue low) :: hexBytes rest
  | _ => []

/-- `ParseSha256` -/
def parseSha256 (value : Bytes) : Option Digest :=
  if value.length ≠ 64 ∨ value.all isLowerHex = false then none
  else some (Block.ofBytes _ (hexBytes value))

/-- `IsDisplaySafeDescription` -/
def isDisplaySafeDescription (value : Bytes) : Bool :=
  value ≠ [] && value.all fun c => 0x20 ≤ c && c ≤ 0x7e

/-- `ParseConfigArea` -/
def parseConfigArea (value : Bytes) : ConfigArea :=
  if value = bytesOf "machines" then .machines
  else if value = bytesOf "config_managed_block" then .configManagedBlock
  else if value = bytesOf "cmdline_managed" then .cmdlineManagedKeys
  else if value = bytesOf "network" then .network
  else if value = bytesOf "settings" then .settings
  else if value = bytesOf "update_state" then .updateState
  else .unknown

/-- `RegistryStatusToManifestStatus` of what is not valid. -/
def registryStatusToManifestStatus : ConfigMigrationRegistryStatus → ManifestParseStatus
  | .duplicateDeclaration | .schemaMismatch => .invalidValue
  | _ => .unsupportedConfiguration

/-- `strcmp(previous, value) >= 0`, where there is a previous text. -/
def notAfter (previous : Option Bytes) (value : Bytes) : Bool :=
  previous.any fun previous => ¬ previous < value

/-! ## Loops over children

The tokens of a manifest are read through the accessors of `Parser` alone, so its parts are
written over any reader. -/

section Parts

variable {ι : Type} (doc : Reader ι)

/-- A loop over the direct children of an array. -/
def overChildren {σ : Type} (array : ι) (step : σ → ι → Except ManifestParseStatus σ)
    (initial : σ) : Except ManifestParseStatus σ :=
  (doc.elements array).foldlM step initial

/-! ## The release -/

def releaseFields : List String :=
  ["version", "release_sequence", "release_epoch", "tag", "channel", "source_commit",
    "minimum_updater_abi", "maximum_updater_abi", "signing_key_ids"]

/-- A turn of the loop over the signing keys. -/
def parseSigningKey (keys : List Bytes) (child : ι) :
    Except ManifestParseStatus (List Bytes) := do
  let some key := doc.copyString child 65 | .error .invalidValue
  reject (¬ isIdentifier key) .invalidValue
  reject (notAfter keys.getLast? key = true) .invalidValue
  return keys ++ [key]

/-- `ParseRelease` -/
def parseRelease (index : ι) (manifest : ReleaseManifest) :
    Except ManifestParseStatus ReleaseManifest := do
  reject (¬ doc.exactObject index releaseFields) .unknownField
  let some version := doc.copyString (doc.member index "version") 65 | .error .invalidValue
  reject (¬ isVersion version) .invalidValue
  let some tag := doc.copyString (doc.member index "tag") 129 | .error .invalidValue
  reject (¬ isTag tag) .invalidValue
  let some channel := doc.copyString (doc.member index "channel") 16 | .error .invalidValue
  reject (channel ≠ bytesOf "stable") .invalidValue
  let some sourceCommit := doc.copyString (doc.member index "source_commit") 65
    | .error .invalidValue
  reject (¬ isCommit sourceCommit) .invalidValue
  let some sequence := doc.uint64 (doc.member index "release_sequence") 1 int32Max
    | .error .invalidValue
  let some epoch := doc.uint64 (doc.member index "release_epoch") 1 int64Max
    | .error .invalidValue
  let some minimum := doc.uint64 (doc.member index "minimum_updater_abi") 1 int32Max
    | .error .invalidValue
  let some maximum := doc.uint64 (doc.member index "maximum_updater_abi") 1 int32Max
    | .error .invalidValue
  reject (maximum < minimum) .invalidValue
  let keys := doc.member index "signing_key_ids"
  let keyCount := doc.directChildren keys
  reject (keyCount = 0 ∨ 4 < keyCount) .limitExceeded
  let signingKeyIds ← overChildren doc keys (parseSigningKey doc) []
  return { manifest with
    version, tag, sourceCommit, signingKeyIds
    releaseSequence := UInt64.ofNat sequence
    releaseEpoch := UInt64.ofNat epoch
    minimumUpdaterAbi := UInt32.ofNat minimum
    maximumUpdaterAbi := UInt32.ofNat maximum }

/-! ## The configuration -/

def configurationFields : List String := ["schemas", "migrations", "lossy_changes"]

def schemaFields : List String := ["id", "target_version", "accepted_versions"]

def migrationFields : List String := ["area", "from_version", "id", "lossy", "to_version"]

def lossyFields : List String := ["area", "description"]

/-- A turn of the loop over the accepted versions of a schema. -/
def parseAcceptedVersion (versions : List Nat) (child : ι) :
    Except ManifestParseStatus (List Nat) := do
  let some version := doc.uint64 child 0 int32Max | .error .invalidValue
  reject (versions.getLast?.any (version ≤ ·) = true) .invalidValue
  return versions ++ [version]

/-- A turn of the loop over the schemas, with the ids before. -/
def parseSchema (schemas : List (Bytes × ManifestConfigSchema))
    (schema : ι) : Except ManifestParseStatus (List (Bytes × ManifestConfigSchema)) := do
  reject (¬ doc.exactObject schema schemaFields) .unknownField
  let some id := doc.copyString (doc.member schema "id") 65 | .error .invalidValue
  reject (¬ isIdentifier id) .invalidValue
  reject (notAfter (schemas.getLast?.map (·.1)) id = true) .invalidValue
  let area := parseConfigArea id
  reject (¬ isKnownConfigArea area ∨ area ∈ schemas.map (·.2.area)) .unsupportedConfiguration
  let some target := doc.uint64 (doc.member schema "target_version") 0 int32Max
    | .error .unsupportedConfiguration
  let accepted := doc.member schema "accepted_versions"
  reject (¬ doc.hasType accepted .array) .wrongType
  let acceptedCount := doc.directChildren accepted
  reject (acceptedCount = 0 ∨ 32 < acceptedCount) .limitExceeded
  let versions ← overChildren doc accepted (parseAcceptedVersion doc) []
  reject (target ∉ versions) .invalidValue
  return schemas ++ [(id, ⟨area, UInt32.ofNat target, versions.map UInt32.ofNat⟩)]

/-- A turn of the loop over the migrations. -/
def parseMigration (migrations : List ManifestMigration)
    (migration : ι) : Except ManifestParseStatus (List ManifestMigration) := do
  reject (¬ doc.exactObject migration migrationFields) .unknownField
  let some id := doc.copyString (doc.member migration "id") 65 | .error .invalidValue
  reject (¬ isIdentifier id) .invalidValue
  reject (notAfter (migrations.getLast?.map (·.id)) id = true) .invalidValue
  let some area := doc.copyString (doc.member migration "area") 65 | .error .invalidValue
  reject (¬ isIdentifier area) .invalidValue
  let some fromVersion := doc.uint64 (doc.member migration "from_version") 0 int32Max
    | .error .invalidValue
  let some toVersion := doc.uint64 (doc.member migration "to_version") 0 int32Max
    | .error .invalidValue
  let some lossy := doc.bool (doc.member migration "lossy") | .error .invalidValue
  reject (¬ isKnownConfigArea (parseConfigArea area)) .unsupportedConfiguration
  return migrations ++
    [⟨id, parseConfigArea area, UInt32.ofNat fromVersion, UInt32.ofNat toVersion, lossy⟩]

/-- A turn of the loop over the lossy changes, with the areas' names before. -/
def parseLossyChange (changes : List (Bytes × ManifestLossyChange))
    (change : ι) : Except ManifestParseStatus (List (Bytes × ManifestLossyChange)) := do
  reject (¬ doc.exactObject change lossyFields) .unknownField
  let some area := doc.copyString (doc.member change "area") 65 | .error .invalidValue
  reject (¬ isIdentifier area) .invalidValue
  let some description := doc.copyString (doc.member change "description") 257
    | .error .invalidValue
  reject (¬ isDisplaySafeDescription description) .invalidValue
  reject (¬ isKnownConfigArea (parseConfigArea area)) .unsupportedConfiguration
  reject (notAfter (changes.getLast?.map (·.1)) area = true) .invalidValue
  return changes ++ [(area, ⟨parseConfigArea area, description⟩)]

/-- `ParseConfiguration` -/
def parseConfiguration (index : ι) (manifest : ReleaseManifest) :
    Except ManifestParseStatus ReleaseManifest := do
  reject (¬ doc.exactObject index configurationFields) .unknownField
  let schemasIndex := doc.member index "schemas"
  reject (¬ doc.hasType schemasIndex .array) .wrongType
  let schemaCount := doc.directChildren schemasIndex
  reject (schemaCount ≠ 6 ∨ kMaximumManifestSchemas < schemaCount) .unsupportedConfiguration
  let schemas : List (Bytes × ManifestConfigSchema) ←
    overChildren doc schemasIndex (parseSchema doc) []
  let manifest : ReleaseManifest := { manifest with schemas := schemas.map Prod.snd }
  let migrationsIndex := doc.member index "migrations"
  reject (¬ doc.hasType migrationsIndex .array) .wrongType
  reject (kMaximumManifestMigrations < doc.directChildren migrationsIndex) .limitExceeded
  let migrations : List ManifestMigration ←
    overChildren doc migrationsIndex (parseMigration doc) []
  let manifest : ReleaseManifest := { manifest with migrations }
  reject (manifest.schemas.length ≠ kConfigMigrationAreaCount) .unsupportedConfiguration
  let registryStatus := validateConfigMigrationDeclarations
    (manifest.schemas.map fun schema =>
      ⟨schema.area, schema.targetVersion.toNat, schema.acceptedVersions.map UInt32.toNat⟩)
    (manifest.migrations.map fun migration =>
      ⟨migration.id, migration.area, migration.fromVersion.toNat, migration.toVersion.toNat,
        migration.lossy⟩)
  reject (registryStatus ≠ .valid) (registryStatusToManifestStatus registryStatus)
  let lossyIndex := doc.member index "lossy_changes"
  reject (¬ doc.hasType lossyIndex .array) .wrongType
  let lossyCount := doc.directChildren lossyIndex
  reject (kConfigMigrationAreaCount < lossyCount ∨ kMaximumManifestLossyChanges < lossyCount)
    .limitExceeded
  let changes : List (Bytes × ManifestLossyChange) ←
    overChildren doc lossyIndex (parseLossyChange doc) []
  let manifest : ReleaseManifest := { manifest with lossyChanges := changes.map Prod.snd }
  reject (¬ manifest.lossyChanges.all fun change =>
    manifest.migrations.any fun migration => migration.lossy && migration.area = change.area)
    .unsupportedConfiguration
  reject (¬ manifest.migrations.all fun migration => !migration.lossy ||
    manifest.lossyChanges.any fun change => change.area = migration.area) .unsupportedConfiguration
  return manifest

/-! ## The assets -/

def fileFields : List String := ["path", "size", "sha256", "policy", "compression"]

def assetFields : List String :=
  ["board_family", "supported_models", "filename", "download_size", "sha256", "installed_size",
    "required_peak_bytes", "zip_profile", "directories", "files"]

/-- A turn of the loop over the directories. -/
def parseDirectory (directories : List Bytes) (child : ι) :
    Except ManifestParseStatus (List Bytes) := do
  let some path := doc.copyString child (kMaximumManifestPathBytes + 1) | .error .invalidValue
  reject (¬ isSafeManifestPath path) .invalidValue
  reject (notAfter directories.getLast? path = true) .invalidValue
  reject (¬ isAllowedUpdateDirectory path) .inventoryMismatch
  return directories ++ [path]

/-- `ParseDirectories` -/
def parseDirectories (index : ι) (store : Option ManifestParseStorage) :
    Except ManifestParseStatus (List Bytes) := do
  reject (¬ doc.hasType index .array) .wrongType
  let count := doc.directChildren index
  reject (kMaximumManifestDirectories < count) .limitExceeded
  reject (store.any (·.directoryCapacity < count) = true) .storageTooSmall
  overChildren doc index (parseDirectory doc) []

def parsePolicy (policy : Bytes) : Option ManifestFilePolicy :=
  if policy = bytesOf "kernel" then some .kernel
  else if policy = bytesOf "managed-replace" then some .managedReplace
  else if policy = bytesOf "config-template" then some .configTemplate
  else if policy = bytesOf "preserve" then some .preserve
  else if policy = bytesOf "metadata" then some .metadata
  else none

def parseCompression (compression : Bytes) : Option ManifestCompression :=
  if compression = bytesOf "store" then some .store
  else if compression = bytesOf "deflate" then some .deflate
  else none

/-- The kernel base of a board, and that of the other. -/
def boardKernels (board : BoardFamily) : String × String :=
  if board = .pi4Pi400 then ("kernel7l.img", "kernel_2712.img")
  else ("kernel_2712.img", "kernel7l.img")

/-- What the loop over the files keeps. -/
structure FileScan where
  files : List ManifestFile
  installedSize : Nat
  /-- The bits of `required_machine_kernels`, by machine. -/
  requiredMachineKernels : List Nat
  requiredConfig : Bool
  requiredTryboot : Bool
  requiredActiveSelector : Bool
  requiredCandidateSelector : Bool

def FileScan.start : FileScan := ⟨[], 0, [], false, false, false, false⟩

/-- The kernel checks of a path: the machines of required kernels afterwards. -/
def checkKernelPath (board : BoardFamily) (path : Bytes) (required : List Nat) :
    Except ManifestParseStatus (List Nat) := do
  let (boardKernel, otherBoardKernel) := boardKernels board
  reject (startsWith path otherBoardKernel = true) .inventoryMismatch
  reject (path = bytesOf boardKernel) .inventoryMismatch
  match kernelSuffix boardKernel path with
  | none => return required
  | some suffix =>
      match parseMachineKernelSuffix suffix with
      | none => .error .inventoryMismatch
      | some machine =>
          if machine < kRequiredKernelMachineCount then do
            reject (machine ∈ required) .inventoryMismatch
            return machine :: required
          else return required

/-- A turn of the loop over the files. -/
def parseFile (board : BoardFamily) (scan : FileScan) (entry : ι) :
    Except ManifestParseStatus FileScan := do
  reject (¬ doc.exactObject entry fileFields) .unknownField
  let some path := doc.copyString (doc.member entry "path") (kMaximumManifestPathBytes + 1)
    | .error .invalidValue
  reject (¬ isSafeManifestPath path) .invalidValue
  reject (notAfter (scan.files.getLast?.map (·.path)) path = true) .invalidValue
  let some size := doc.uint64 (doc.member entry "size") 0 kMaximumFileBytes | .error .invalidValue
  let some sha := doc.copyString (doc.member entry "sha256") 65 | .error .invalidValue
  let some sha256 := parseSha256 sha | .error .invalidValue
  let some policyText := doc.copyString (doc.member entry "policy") 32 | .error .invalidValue
  let some compressionText := doc.copyString (doc.member entry "compression") 16
    | .error .invalidValue
  let some expectedPolicy := classifyKnownPath path | .error .inventoryMismatch
  let some policy := parsePolicy policyText | .error .invalidValue
  reject (policy ≠ expectedPolicy) .inventoryMismatch
  let some compression := parseCompression compressionText | .error .invalidValue
  reject (kMaximumAssetBytes - size < scan.installedSize) .limitExceeded
  let requiredMachineKernels ← checkKernelPath board path scan.requiredMachineKernels
  return {
    files := scan.files ++ [⟨path, size, sha256, policy, compression⟩]
    installedSize := scan.installedSize + size
    requiredMachineKernels
    requiredConfig := scan.requiredConfig || path = bytesOf "config.txt"
    requiredTryboot := scan.requiredTryboot || path = bytesOf "tryboot.txt"
    requiredActiveSelector := scan.requiredActiveSelector || path = bytesOf "bmx-active-kernel.txt"
    requiredCandidateSelector :=
      scan.requiredCandidateSelector || path = bytesOf "bmx-tryboot-kernel.txt" }

/-- `ParseFiles` -/
def parseFiles (index : ι) (store : Option ManifestParseStorage)
    (board : BoardFamily) (installedSize : Nat) : Except ManifestParseStatus (List ManifestFile) := do
  reject (¬ doc.hasType index .array) .wrongType
  let count := doc.directChildren index
  reject (count = 0 ∨ kMaximumManifestFiles < count) .limitExceeded
  reject (store.any (·.fileCapacity < count) = true) .storageTooSmall
  let scan : FileScan ← overChildren doc index (parseFile doc board) .start
  reject (¬ (∀ machine < kRequiredKernelMachineCount, machine ∈ scan.requiredMachineKernels) ∨
    scan.requiredConfig = false ∨ scan.requiredTryboot = false ∨
    scan.requiredActiveSelector = false ∨ scan.requiredCandidateSelector = false ∨
    scan.installedSize ≠ installedSize) .inventoryMismatch
  return scan.files

/-- The models of a board, in order. -/
def boardModels : BoardFamily → String × String
  | .pi4Pi400 => ("Raspberry Pi 4", "Raspberry Pi 400")
  | _ => ("Raspberry Pi 5", "Raspberry Pi 500")

def expectedFilename (version : Bytes) (board : BoardFamily) : Bytes :=
  bytesOf "bmx-" ++ version ++ bytesOf "-" ++
    bytesOf (if board = .pi4Pi400 then "pi4-pi400" else "pi5-pi500") ++ bytesOf "-boot.zip"

def parseBoard (board : Bytes) : Option BoardFamily :=
  if board = bytesOf "pi4" then some .pi4Pi400
  else if board = bytesOf "pi5" then some .pi5Pi500
  else none

/-- `ParseAsset`; without storage the directories and files are checked and not kept. -/
def parseAsset (version : Bytes) (index : ι)
    (store : Option ManifestParseStorage) : Except ManifestParseStatus ManifestAsset := do
  reject (¬ doc.exactObject index assetFields) .unknownField
  let some boardText := doc.copyString (doc.member index "board_family") 8 | .error .invalidValue
  let some board := parseBoard boardText | .error .invalidValue
  let models := doc.member index "supported_models"
  reject (¬ doc.hasType models .array ∨ doc.directChildren models ≠ 2) .invalidValue
  let some firstModel := doc.copyString (doc.directChild models 0) 32 | .error .invalidValue
  let some secondModel := doc.copyString (doc.directChild models 1) 32 | .error .invalidValue
  reject (firstModel ≠ bytesOf (boardModels board).1 ∨ secondModel ≠ bytesOf (boardModels board).2)
    .invalidValue
  let some filename := doc.copyString (doc.member index "filename") 161 | .error .invalidValue
  let some downloadSize := doc.uint64 (doc.member index "download_size") 1 kMaximumAssetBytes
    | .error .invalidValue
  let some sha := doc.copyString (doc.member index "sha256") 65 | .error .invalidValue
  let some sha256 := parseSha256 sha | .error .invalidValue
  let some installedSize := doc.uint64 (doc.member index "installed_size") 1 kMaximumAssetBytes
    | .error .invalidValue
  let some requiredPeakBytes := doc.uint64 (doc.member index "required_peak_bytes") 1 int64Max
    | .error .invalidValue
  let some zipProfile := doc.copyString (doc.member index "zip_profile") 32
    | .error .invalidValue
  reject (zipProfile ≠ bytesOf "bmx-zip32-v1") .invalidValue
  let expected := expectedFilename version board
  reject (161 ≤ expected.length ∨ filename ≠ expected) .invalidValue
  reject (uint64Max - installedSize < downloadSize ∨
    uint64Max - kSafetyReserveBytes < downloadSize + installedSize ∨
    requiredPeakBytes < downloadSize + installedSize + kSafetyReserveBytes) .invalidValue
  let directories ← parseDirectories doc (doc.member index "directories") store
  let files ← parseFiles doc (doc.member index "files") store board installedSize
  return { board, filename, downloadSize, sha256, installedSize, requiredPeakBytes
           files := if store.isSome then files else []
           directories := if store.isSome then directories else [] }

/-- `AsciiCaseEqual` -/
def asciiCaseEqual (left right : Bytes) : Bool :=
  left.map FatPath.asciiLower = right.map FatPath.asciiLower

/-- The number of a board. -/
def boardNumber : BoardFamily → Nat
  | .unknown => 0
  | .pi4Pi400 => 1
  | .pi5Pi500 => 2

/-- What the loop over the assets keeps: the boards so far and the target's asset. -/
structure AssetScan where
  boards : List BoardFamily
  target : Option ManifestAsset

/-- A turn of the loop over the assets. -/
def parseAssetEntry (version : Bytes) (targetBoard : BoardFamily)
    (storage : ManifestParseStorage) (scan : AssetScan) (index : ι) :
    Except ManifestParseStatus AssetScan := do
  let parsed ← parseAsset doc version index none
  reject (scan.boards.getLast?.any (fun previous =>
    previous ≠ .unknown && boardNumber parsed.board ≤ boardNumber previous) = true) .duplicateAsset
  if parsed.board = targetBoard then do
    reject (scan.target.isSome = true) .duplicateAsset
    let asset ← parseAsset doc version index (some storage)
    return ⟨scan.boards ++ [parsed.board], some asset⟩
  else return ⟨scan.boards ++ [parsed.board], scan.target⟩

/-- The collision checks at the end of `ParseAssets`. -/
def pathsCollide (files : List ManifestFile) (directories : List Bytes) : Bool :=
  !(files.Pairwise fun left right => asciiCaseEqual left.path right.path = false) ||
    (files.any fun file => directories.any (asciiCaseEqual file.path ·)) ||
    !(directories.Pairwise fun left right => asciiCaseEqual left right = false)

/-- `ParseAssets` -/
def parseAssets (index : ι) (targetBoard : BoardFamily)
    (storage : ManifestParseStorage) (manifest : ReleaseManifest) :
    Except ManifestParseStatus ReleaseManifest := do
  reject (¬ doc.hasType index .array) .wrongType
  reject (doc.directChildren index ≠ 2) .limitExceeded
  let scan : AssetScan ← overChildren doc index
    (parseAssetEntry doc manifest.version targetBoard storage) ⟨[], none⟩
  reject (.pi4Pi400 ∉ scan.boards ∨ .pi5Pi500 ∉ scan.boards) .duplicateAsset
  let some asset := scan.target | .error .targetAssetMissing
  reject (pathsCollide asset.files asset.directories = true) .inventoryMismatch
  return { manifest with asset }

/-! ## The manifest -/

def rootFields : List String := ["manifest_version", "release", "configuration", "assets"]

/-- The manifest after `memset`. -/
def emptyManifest : ReleaseManifest where
  version := []
  tag := []
  sourceCommit := []
  releaseSequence := 0
  releaseEpoch := 0
  minimumUpdaterAbi := 0
  maximumUpdaterAbi := 0
  signingKeyIds := []
  schemas := []
  migrations := []
  lossyChanges := []
  asset :=
    { board := .unknown, filename := [], downloadSize := 0, sha256 := Block.ofBytes _ []
      installedSize := 0, requiredPeakBytes := 0, files := [], directories := [] }

/-- `Parser::Parse` -/
def parseDocument (root : ι) (targetBoard : BoardFamily) (storage : ManifestParseStorage) :
    Except ManifestParseStatus ReleaseManifest := do
  reject (¬ doc.hasType root .object) .wrongType
  reject (¬ doc.exactObject root rootFields) .unknownField
  reject (doc.uint64 (doc.member root "manifest_version") 2 2 = none) .unsupportedVersion
  let manifest ← parseRelease doc (doc.member root "release") emptyManifest
  let manifest ← parseConfiguration doc (doc.member root "configuration") manifest
  parseAssets doc (doc.member root "assets") targetBoard storage manifest

end Parts

/-- `ParseReleaseManifest` -/
def parseReleaseManifest (encoded : Bytes) (targetBoard : BoardFamily)
    (storage : ManifestParseStorage) : Except ManifestParseStatus ReleaseManifest := do
  reject (storage.tokenCapacity = 0 ∨ storage.fileCapacity = 0 ∨ storage.directoryCapacity = 0 ∨
    targetBoard = .unknown) .invalidArgument
  reject (encoded.length < 3 ∨ kMaximumReleaseManifestBytes < encoded.length ∨
    encoded.head? ≠ some 0x7b ∨ encoded.getLast? ≠ some 0x0a ∨
    encoded.dropLast.getLast? ≠ some 0x7d) .invalidSize
  reject (0x0d ∈ encoded) .jsonInvalid
  let (result, tokens) := parseJson (some encoded) storage.tokenCapacity 32
  match result.error with
  | some error => .error (if error = .tokenLimit then .storageTooSmall else .jsonInvalid)
  | none =>
      parseDocument (Document.mk encoded tokens).reader (some 0) targetBoard storage

end Release

end BmxUpdate
