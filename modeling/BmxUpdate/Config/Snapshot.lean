import BmxUpdate.Config.Detect
import Mathlib.Data.List.Lex
import Mathlib.Data.List.Sort

/-!
# Snapshots of the configuration

`ValidateFullSnapshot` and `HashAreaSnapshot` (`config_migration.cpp`): every area
once, each with files of its own, and the digest of an area over the paths, lengths
and bytes of its files in the order of their paths.
-/

namespace BmxUpdate

namespace Config

open Wire Http

def kConfigMigrationAreaCount : Nat := 6

def kMaximumConfigFilesPerArea : Nat := 16

def kMaximumConfigPathBytes : Nat := 127

def kMaximumConfigAreaBytes : Nat := 2 * 1024 * 1024

/-- The number of an area in the encodings. -/
def areaNumber : ConfigArea → Nat
  | .unknown => 0
  | .machines => 1
  | .configManagedBlock => 2
  | .cmdlineManagedKeys => 3
  | .network => 4
  | .settings => 5
  | .updateState => 6

/-- The areas in the order of their numbers. -/
def knownAreas : List ConfigArea :=
  [.machines, .configManagedBlock, .cmdlineManagedKeys, .network, .settings, .updateState]

abbrev ConfigSnapshot := List ConfigAreaSnapshot

/-- `IsSafeRelativePath` -/
def isSafeRelativePath (path : Bytes) : Bool :=
  path ≠ [] && path.length ≤ kMaximumConfigPathBytes && path.head? ≠ some 0x2f &&
    path.getLast? ≠ some 0x2f &&
    (path.all fun value => value = 0x2f || (0x20 ≤ value && value ≤ 0x7e && value ≠ 0x5c)) &&
    (path.splitOn 0x2f).all fun component =>
      component ≠ [] && component ≠ [0x2e] && component ≠ [0x2e, 0x2e]

/-- `IsSettingsPath` -/
def isSettingsPath (path : Bytes) : Bool :=
  let first := bytesOf "settings"
  let last := bytesOf ".txt"
  first.length + last.length ≤ path.length && first.isPrefixOf path && last.isSuffixOf path &&
    ((path.drop first.length).take (path.length - first.length - last.length)).all fun value =>
      (0x61 ≤ value && value ≤ 0x7a) || (0x41 ≤ value && value ≤ 0x5a) ||
        (0x30 ≤ value && value ≤ 0x39) || value = 0x2d || value = 0x5f

/-- `PathBelongsToArea` -/
def pathBelongsToArea (area : ConfigArea) (path : Bytes) : Bool :=
  isSafeRelativePath path &&
    match area with
    | .machines =>
        path = bytesOf "machines.ini" || path = bytesOf "machines.defaults.ini" ||
          path = bytesOf "machines.local.ini"
    | .configManagedBlock => path = bytesOf "config.txt"
    | .cmdlineManagedKeys | .network => path = bytesOf "cmdline.txt"
    | .settings => isSettingsPath path
    | .updateState => path = buildInfoPath || path = journalPathA || path = journalPathB
    | .unknown => false

/-- The loop over the files: the paths so far and the bytes so far. -/
def filesValid (area : ConfigArea) : List Bytes → Nat → List ConfigFileView → Bool
  | _, _, [] => true
  | paths, total, file :: rest =>
      pathBelongsToArea area file.path && file.content.length ≤ kMaximumConfigFileBytes &&
        total ≤ kMaximumConfigAreaBytes - file.content.length && !paths.contains file.path &&
        filesValid area (paths ++ [file.path]) (total + file.content.length) rest

/-- `ValidateAreaSnapshotShape` -/
def validateAreaSnapshotShape (area : ConfigAreaSnapshot) : Bool :=
  isKnownConfigArea area.area && area.files.length ≤ kMaximumConfigFilesPerArea &&
    filesValid area.area [] 0 area.files

/-- The loop over the areas, with the areas seen. -/
def areasValid : List ConfigArea → ConfigSnapshot → Bool
  | _, [] => true
  | seen, area :: rest =>
      area.area ≠ .unknown && !seen.contains area.area && validateAreaSnapshotShape area &&
        areasValid (seen ++ [area.area]) rest

/-- `ValidateFullSnapshot` -/
def validateFullSnapshot (snapshot : ConfigSnapshot) : Bool :=
  snapshot.length = kConfigMigrationAreaCount && areasValid [] snapshot &&
    knownAreas.all fun area => snapshot.any (·.area = area)

/-- `FindArea` -/
def findArea (snapshot : ConfigSnapshot) (area : ConfigArea) : Option ConfigAreaSnapshot :=
  snapshot.find? (·.area = area)

/-- The files of an area of a snapshot, each its path and its bytes. -/
def areaFiles (snapshot : ConfigSnapshot) (area : ConfigArea) : List ConfigFileView :=
  ((findArea snapshot area).map (·.files)).getD []

theorem areaFiles_eq {snapshot : ConfigSnapshot} {area : ConfigArea} {source : ConfigAreaSnapshot}
    (h : findArea snapshot area = some source) : areaFiles snapshot area = source.files := by
  simp [areaFiles, h]

/-! ## The digest of an area -/

/-- `strcmp`: the order of texts without NUL. -/
def pathOrder (left right : ConfigFileView) : Bool :=
  decide (left.path.map UInt8.toNat ≤ right.path.map UInt8.toNat)

/-- The files by path: the insertion sort of `HashAreaSnapshot`. -/
def sortedFiles (files : List ConfigFileView) : List ConfigFileView :=
  files.insertionSort fun left right => pathOrder left right = true

/-- What is hashed of one file. -/
def encodeFile (file : ConfigFileView) : Bytes :=
  encodeBe 2 (file.path.length % 2 ^ 16) ++ file.path ++
    (encodeBe 8 (file.content.length % 2 ^ 64) ++ file.content)

/-- What is hashed of an area. -/
def encodeArea (area : ConfigAreaSnapshot) : Bytes :=
  bytesOf "BMX-CFG-AREA-V1" ++ [0] ++ [UInt8.ofNat (areaNumber area.area)] ++
    [UInt8.ofNat area.files.length] ++ (sortedFiles area.files).flatMap encodeFile

/-- `HashAreaSnapshot` -/
def hashAreaSnapshot (hash : Bytes → Digest) (area : ConfigAreaSnapshot) : Digest :=
  hash (encodeArea area)

end Config

end BmxUpdate
