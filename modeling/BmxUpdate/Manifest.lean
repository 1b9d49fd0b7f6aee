import Mathlib.Data.List.Induction
import BmxUpdate.Journal
import BmxUpdate.FileSystem

/-!
# Manifests and the step layout

The part of a parsed release manifest the installer works from
(`release_manifest.h`), the FAT path rules its paths obey
(`fat_path_policy.cpp`), and the numbering of an installation's steps
(`BuildStepLayout`).

Every journalled step of an installation has a fixed number: first the
snapshots, then one staging step a file, the directories, the files that are
activated while staging, arming, health, the kernels, the metadata files, and
the selector.
-/

namespace BmxUpdate

open Volumes

/-! ## FAT paths -/

/-- `IsForbidden`, and the separator, which no component holds. -/
def forbiddenPathCharacters : List Char := ['"', '*', ':', '<', '>', '?', '\\', '|', '/']

/-- `IsReservedStem` -/
def isReservedStem (component : List Char) : Bool :=
  let stem := (component.takeWhile (· ≠ '.')).map Char.toLower
  stem ∈ ["con".toList, "prn".toList, "aux".toList, "nul".toList] ||
    (stem.length == 4 && (stem.take 3 ∈ ["com".toList, "lpt".toList]) &&
      (stem.drop 3).all fun c => '1' ≤ c && c ≤ '9')

/-- The checks `ValidateFatRelativePathBytes` makes of one component. -/
def fatComponentValid (name : String) : Bool :=
  let component := name.toList
  component ≠ [] && component.length ≤ 255 &&
    (component.all fun c => ' ' ≤ c && c ≤ '~' && c ∉ forbiddenPathCharacters) &&
    component.head? ≠ some ' ' && component.getLast? ≠ some ' ' &&
    component.getLast? ≠ some '.' && !isReservedStem component

/-- The bytes of a path with its separators. -/
def pathBytes (path : Path) : Nat := (path.map String.length).sum + (path.length - 1)

/-- `ValidateFatRelativePath` returns `Ok`. -/
def validRelativePath (path : Path) (maximumPathBytes : Nat) : Bool :=
  path ≠ [] && pathBytes path ≤ maximumPathBytes && path.all fatComponentValid

/-- `AddSuffix`: the suffix goes to the last name. -/
def addSuffix (path : Path) (suffix : String) : Path :=
  path.dropLast ++ (path.getLast?.map (· ++ suffix)).toList

@[simp] theorem addSuffix_concat (front : Path) (last suffix : String) :
    addSuffix (front ++ [last]) suffix = front ++ [last ++ suffix] := by
  simp [addSuffix]

@[simp] theorem length_addSuffix (path : Path) (suffix : String) :
    (addSuffix path suffix).length = path.length := by
  cases path using List.reverseRecOn <;> simp [addSuffix]

@[simp] theorem dropLast_addSuffix (path : Path) (suffix : String) :
    (addSuffix path suffix).dropLast = path.dropLast := by
  cases path using List.reverseRecOn <;> simp [addSuffix]

theorem addSuffix_ne {path : Path} {suffix : String} (hpath : path ≠ []) (hsuffix : suffix ≠ "") :
    addSuffix path suffix ≠ path := by
  cases path using List.reverseRecOn with
  | nil => exact absurd rfl hpath
  | append_singleton front last =>
      rw [addSuffix_concat]
      intro h
      have hname : last ++ suffix = last := by simpa using h
      have hlength := congrArg String.length hname
      rw [String.length_append] at hlength
      exact hsuffix (by simpa using hlength)

theorem take_addSuffix {path : Path} {n : Nat} (hn : n < path.length) (suffix : String) :
    (addSuffix path suffix).take n = path.take n := by
  cases path using List.reverseRecOn with
  | nil => simp at hn
  | append_singleton front last =>
      have hle : n ≤ front.length := by simpa [Nat.lt_succ_iff] using hn
      simp [List.take_append_of_le_length hle]

/-! ## Manifests -/

inductive ManifestFilePolicy where
  | kernel
  | managedReplace
  | configTemplate
  | preserve
  | metadata
deriving DecidableEq, Repr

/-- A file of the inventory. -/
structure ManifestFile where
  path : Path
  size : UInt64
  sha256 : Digest
  policy : ManifestFilePolicy
deriving DecidableEq

structure ManifestDirectory where
  path : Path
deriving DecidableEq

/-- A board's archive and its inventory. -/
structure ManifestAsset where
  board : BoardFamily
  downloadSize : Nat
  sha256 : Digest
  installedSize : Nat
  files : List ManifestFile
  directories : List ManifestDirectory
deriving DecidableEq

/-- The part of a manifest the installer works from. -/
structure ReleaseManifest where
  releaseSequence : UInt64
  asset : ManifestAsset
deriving DecidableEq

def kMaximumManifestFiles : Nat := 2048

def kMaximumManifestDirectories : Nat := 2048

def kMaximumManifestPathBytes : Nat := 240

def kCandidateSelectorPath : Path := ["bmx-tryboot-kernel.txt"]

/-! ## Steps -/

/-- The policies whose old file is copied to the snapshot tree. -/
def ManifestFilePolicy.isSnapshot : ManifestFilePolicy → Bool
  | .kernel | .managedReplace | .configTemplate => true
  | .preserve | .metadata => false

/-- The policies whose file is activated while staging. -/
def ManifestFilePolicy.isStageActivated : ManifestFilePolicy → Bool
  | .kernel | .metadata => false
  | .managedReplace | .configTemplate | .preserve => true

/-- How many of the files have a policy that `p` holds of. -/
def countPolicy (p : ManifestFilePolicy → Bool) (files : List ManifestFile) : Nat :=
  files.countP fun file => p file.policy

/-- Where the ranges of the steps begin. -/
structure StepLayout where
  snapshotBegin : Nat
  fileStageBegin : Nat
  directoryActivateBegin : Nat
  fileActivateBegin : Nat
  stageEnd : Nat
  armStep : Nat
  healthStep : Nat
  kernelBegin : Nat
  metadataBegin : Nat
  selectorStep : Nat
  total : Nat
deriving DecidableEq, Repr

/-- The layout `BuildStepLayout` computes before its bounds are checked. -/
def stepLayout (asset : ManifestAsset) : StepLayout :=
  let snapshots := countPolicy (·.isSnapshot) asset.files
  let kernels := countPolicy (· = .kernel) asset.files
  let metadata := countPolicy (· = .metadata) asset.files
  let nonMetadata := countPolicy (·.isStageActivated) asset.files
  let fileStageBegin := snapshots
  let directoryActivateBegin := fileStageBegin + asset.files.length
  let fileActivateBegin := directoryActivateBegin + asset.directories.length
  let stageEnd := fileActivateBegin + nonMetadata
  { snapshotBegin := 0
    fileStageBegin := fileStageBegin
    directoryActivateBegin := directoryActivateBegin
    fileActivateBegin := fileActivateBegin
    stageEnd := stageEnd
    armStep := stageEnd
    healthStep := stageEnd + 1
    kernelBegin := stageEnd + 2
    metadataBegin := stageEnd + 2 + kernels
    selectorStep := stageEnd + 2 + kernels + metadata
    total := stageEnd + 2 + kernels + metadata + 1 }

/-- `BuildStepLayout` -/
def buildStepLayout (asset : ManifestAsset) : Option StepLayout :=
  if asset.files.length ≤ kMaximumManifestFiles ∧
      asset.directories.length ≤ kMaximumManifestDirectories ∧
      (stepLayout asset).stageEnd ≤ kMaximumJournalSteps ∧
      (stepLayout asset).total ≤ kMaximumJournalSteps then
    some (stepLayout asset)
  else none

/-- Whatever the policies of its files, an inventory within its bounds has steps enough. -/
theorem buildStepLayout_eq_stepLayout {asset : ManifestAsset} :
    buildStepLayout asset = some (stepLayout asset) ↔
      asset.files.length ≤ kMaximumManifestFiles ∧
        asset.directories.length ≤ kMaximumManifestDirectories := by
  have hcount : ∀ p, countPolicy p asset.files ≤ asset.files.length :=
    fun _ => List.countP_le_length
  have hsnapshots := hcount (·.isSnapshot)
  have hkernels := hcount (· = .kernel)
  have hmetadata := hcount (· = .metadata)
  have hactivated := hcount (·.isStageActivated)
  have hsteps : asset.files.length ≤ kMaximumManifestFiles →
      asset.directories.length ≤ kMaximumManifestDirectories →
      (stepLayout asset).stageEnd ≤ kMaximumJournalSteps ∧
        (stepLayout asset).total ≤ kMaximumJournalSteps := by
    unfold kMaximumManifestFiles kMaximumManifestDirectories kMaximumJournalSteps
    intro hfiles hdirectories
    simp only [stepLayout]
    omega
  unfold buildStepLayout
  constructor
  · intro h
    split at h
    case isTrue hbounds => exact ⟨hbounds.1, hbounds.2.1⟩
    case isFalse => cases h
  · rintro ⟨hfiles, hdirectories⟩
    exact if_pos ⟨hfiles, hdirectories, hsteps hfiles hdirectories⟩

theorem buildStepLayout_eq_some {asset : ManifestAsset} {layout : StepLayout}
    (h : buildStepLayout asset = some layout) :
    layout = stepLayout asset ∧ layout.total ≤ kMaximumJournalSteps := by
  unfold buildStepLayout at h
  split at h
  case isTrue hbounds =>
    cases h
    exact ⟨rfl, hbounds.2.2.2⟩
  case isFalse => cases h

end BmxUpdate
