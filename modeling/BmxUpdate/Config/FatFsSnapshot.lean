import BmxUpdate.Config.Snapshot
import BmxUpdate.FatPathPolicy
import BmxUpdate.Library.Crash

/-!
# Reading the configuration from the card

`FatFsConfigSnapshot` (`fatfs_config_snapshot.cpp`): the files that the program reads
its configuration from, copied from the card and sorted into the areas of a
`ConfigSnapshot`.

A card is what FatFs shows of it.  `f_readdir` lists the root in some order with the
spelling each name was stored with; `f_stat` and `f_open` look a name up ignoring
ASCII case.  Every call can fail.
-/

namespace BmxUpdate

namespace Config

open Wire Http Crash

/-- What a directory entry stands for. -/
inductive CardNode where
  | file (content : Bytes)
  | directory (entries : List (Bytes × CardNode))

namespace CardNode

def isDirectory : CardNode → Bool
  | file _ => false
  | directory _ => true

end CardNode

/-- A volume: the entries of its root, in the order of `f_readdir`. -/
structure Card where
  root : List (Bytes × CardNode)
  named : ∀ entry ∈ root, entry.1 ≠ [] ∧ (0 : UInt8) ∉ entry.1
  distinct : root.Pairwise fun left right =>
    ¬FatPath.equalsAsciiIgnoreCase left.1 right.1 = true

/-- FatFs finds a name ignoring ASCII case. -/
def lookUp (entries : List (Bytes × CardNode)) (name : Bytes) : Option CardNode :=
  (entries.find? fun entry => FatPath.equalsAsciiIgnoreCase entry.1 name).map (·.2)

/-- The node at the end of a path of names. -/
def descend : List (Bytes × CardNode) → List Bytes → Option CardNode
  | _, [] => none
  | entries, [name] => lookUp entries name
  | entries, name :: rest =>
      match lookUp entries name with
      | some (.directory below) => descend below rest
      | _ => none

/-- The node at a path relative to the root. -/
def Card.nodeAt (card : Card) (path : Bytes) : Option CardNode :=
  descend card.root (path.splitOn 0x2f)

/-- The statuses other than `Ok`. -/
inductive FatFsConfigSnapshotStatus where
  | invalidArgument
  | tooManyFiles
  | pathInvalid
  | fileTooLarge
  | areaTooLarge
  | allocationFailed
  | directoryReadFailed
  | statFailed
  | openFailed
  | readFailed
  | closeFailed
deriving DecidableEq, Repr

structure OwnedFile where
  path : Bytes
  bytes : Bytes
deriving DecidableEq, Repr

/-- The object: the files it owns, the views of every area, the snapshot it gives out. -/
structure FatFsConfigSnapshot where
  owned : List OwnedFile
  views : ConfigArea → List ConfigFileView
  snapshot : ConfigSnapshot

/-- What `Reset` leaves: no file, no view and no area. -/
def FatFsConfigSnapshot.empty : FatFsConfigSnapshot := ⟨[], fun _ => [], []⟩

def kMaximumOwnedFiles : Nat := 24

/-- A method of the object. -/
abbrev SnapshotProc (α : Type) := Proc FatFsConfigSnapshotStatus FatFsConfigSnapshot Card α

/-- `isalnum`, in the locale of the program. -/
def isAlphanumeric (value : UInt8) : Bool :=
  (0x61 ≤ value && value ≤ 0x7a) || (0x41 ≤ value && value ≤ 0x5a) ||
    (0x30 ≤ value && value ≤ 0x39)

/-- `ValidVolume` -/
def validVolume (volume : Bytes) : Bool :=
  2 ≤ volume.length && volume.length ≤ 12 && volume.getLast? = some 0x3a &&
    volume.dropLast.all fun value => isAlphanumeric value || value = 0x5f || value = 0x2d

/-- `ValidSimpleName` -/
def validSimpleName (name : Bytes) : Bool :=
  name ≠ [] && name.length ≤ kMaximumConfigPathBytes &&
    (name.all fun value =>
      0x20 ≤ value && value ≤ 0x7e && value ≠ 0x2f && value ≠ 0x5c && value ≠ 0x3a) &&
    name ≠ [0x2e] && name ≠ [0x2e, 0x2e]

/-- `ValidRelativePath` -/
def validRelativePath (path : Bytes) : Bool :=
  path ≠ [] && path.length ≤ kMaximumConfigPathBytes && path.head? ≠ some 0x2f &&
    path.getLast? ≠ some 0x2f &&
    (path.all fun value => value = 0x2f ||
      (0x20 ≤ value && value ≤ 0x7e && value ≠ 0x5c && value ≠ 0x3a)) &&
    (path.splitOn 0x2f).all fun component =>
      component ≠ [] && component ≠ [0x2e] && component ≠ [0x2e, 0x2e]

/-- A character between `settings` and `.txt`. -/
def settingsCharacter (value : UInt8) : Bool :=
  isAlphanumeric value || value = 0x2d || value = 0x5f

/-- `IsSettingsName` -/
def isSettingsName (name : Bytes) : Bool :=
  let first := bytesOf "settings"
  let last := bytesOf ".txt"
  validSimpleName name && first.length + last.length ≤ name.length &&
    first.isPrefixOf name && last.isSuffixOf name &&
    ((name.drop first.length).take (name.length - first.length - last.length)).all
      settingsCharacter

/-! ## The calls of FatFs -/

/-- `f_stat`: nothing for `FR_NO_FILE` and `FR_NO_PATH`. -/
def fStat (path : Bytes) : Proc Unit FatFsConfigSnapshot Card (Option CardNode) :=
  Proc.observe fun card => some (card.nodeAt path)

/-- The file a path names, for the calls that need one. -/
def Card.contentAt (card : Card) (path : Bytes) : Option Bytes :=
  match card.nodeAt path with
  | some (.file content) => some content
  | _ => none

/-- `f_open`, with the size of the file it opens. -/
def fOpen (path : Bytes) : Proc Unit FatFsConfigSnapshot Card Nat :=
  Proc.observe fun card => (card.contentAt path).map List.length

/-- `f_read` at an offset. -/
def fRead (path : Bytes) (offset request : Nat) :
    Proc Unit FatFsConfigSnapshot Card Bytes :=
  Proc.observe fun card => (card.contentAt path).map fun content =>
    (content.drop offset).take request

/-- A call that yields nothing but its success: `new`, `f_close`, `f_closedir`, and
`f_readdir`, whose entry the listing has. -/
def call : Proc Unit FatFsConfigSnapshot Card Unit := Proc.observe fun _ => some ()

/-- `f_opendir` of the root: what `f_readdir` will return. -/
def fOpendir : Proc Unit FatFsConfigSnapshot Card (List (Bytes × CardNode)) :=
  Proc.observe fun card => some card.root

/-! ## The methods -/

/-- Close the file or the directory, whatever comes of it, and stop. -/
def closeAndStop {α : Type} (status : FatFsConfigSnapshotStatus) : SnapshotProc α := do
  let _ ← Proc.attempt (η := FatFsConfigSnapshotStatus) call
  Proc.throw status

/-- The loop of `f_read`, for a file of `size` bytes of which `bytes` are read.  Every
turn reads a byte at least, so `size` turns are enough. -/
def readRest (path : Bytes) (size : Nat) : Nat → Bytes → SnapshotProc Bytes
  | 0, bytes => return bytes
  | turns + 1, bytes =>
      if bytes.length < size then do
        let request := min (size - bytes.length) 16384
        match ← Proc.attempt (fRead path bytes.length request) with
        | .error _ => closeAndStop .readFailed
        | .ok amount =>
            if amount.length ≠ request then closeAndStop .readFailed
            else readRest path size turns (bytes ++ amount)
      else return bytes

/-- `f_open`, the loop and `f_close`, for a file that `f_stat` gave `size` bytes. -/
def readFile (path : Bytes) (size : Nat) : SnapshotProc Bytes := do
  let opened ← Proc.orElse .openFailed (fOpen path)
  let bytes ← readRest path size size []
  if opened ≠ size then closeAndStop .readFailed
  else do
    Proc.orElse .closeFailed call
    return bytes

/-- `ReadOptional`: the index of the file among those the object owns, or nothing where
there is no file. -/
def readOptional (volume relativePath : Bytes) : SnapshotProc (Option Nat) := do
  Proc.check (validVolume volume = true ∧ validRelativePath relativePath = true)
    .invalidArgument
  Proc.check ((volume ++ [0x2f] ++ relativePath).length < kMaximumConfigPathBytes + 32)
    .pathInvalid
  match ← Proc.orElse .statFailed (fStat relativePath) with
  | none => return none
  | some (.directory _) => Proc.throw .pathInvalid
  | some (.file content) => do
      Proc.check (content.length ≤ kMaximumConfigFileBytes) .fileTooLarge
      let object ← Proc.get
      Proc.check (object.owned.length < kMaximumOwnedFiles) .tooManyFiles
      Proc.orElse .allocationFailed call
      let bytes ← readFile relativePath content.length
      match ← Proc.orElse .readFailed (fStat relativePath) with
      | some (.file after) => do
          Proc.check (after.length = content.length) .readFailed
          Proc.modify fun object =>
            { object with owned := object.owned ++ [⟨relativePath, bytes⟩] }
          return some object.owned.length
      | _ => Proc.throw .readFailed

/-- The loop of `AddView` over the views of the area, from the bytes so far. -/
def aggregateFits : Nat → List ConfigFileView → Bool
  | _, [] => true
  | aggregate, view :: rest =>
      aggregate ≤ kMaximumConfigAreaBytes - view.content.length &&
        aggregateFits (aggregate + view.content.length) rest

/-- `AddView` -/
def addView (area : ConfigArea) (ownedIndex : Nat) : SnapshotProc Unit := do
  let object ← Proc.get
  match object.owned[ownedIndex]? with
  | none => Proc.throw .invalidArgument
  | some owned => do
      Proc.check (isKnownConfigArea area = true) .invalidArgument
      Proc.check ((object.views area).length < kMaximumConfigFilesPerArea) .tooManyFiles
      Proc.check (aggregateFits owned.bytes.length (object.views area) = true) .areaTooLarge
      Proc.modify fun object =>
        { object with
          views := fun other =>
            if other = area then object.views area ++ [⟨owned.path, owned.bytes⟩]
            else object.views other }

/-- The table `fixed` of `Load`. -/
def fixedFiles : List (ConfigArea × Bytes) :=
  [(.machines, bytesOf "machines.ini"),
   (.machines, bytesOf "machines.defaults.ini"),
   (.machines, bytesOf "machines.local.ini"),
   (.configManagedBlock, bytesOf "config.txt"),
   (.updateState, bytesOf "BMX-BUILD.json"),
   (.updateState, bytesOf ".bmx-update/transaction/journal.a"),
   (.updateState, bytesOf ".bmx-update/transaction/journal.b")]

/-- One turn of the loop over the table. -/
def loadFixed (volume : Bytes) (file : ConfigArea × Bytes) : SnapshotProc Unit := do
  match ← readOptional volume file.2 with
  | none => return ()
  | some owned => addView file.1 owned

/-- `cmdline.txt`, which two areas share. -/
def loadCmdline (volume : Bytes) : SnapshotProc Unit := do
  match ← readOptional volume (bytesOf "cmdline.txt") with
  | none => return ()
  | some owned => do
      addView .cmdlineManagedKeys owned
      addView .network owned

/-- The loop of `f_readdir`: the entries to come and the names collected. -/
def collectSettings : List (Bytes × CardNode) → List Bytes → SnapshotProc (List Bytes)
  | [], settings => do
      match ← Proc.attempt call with
      | .error _ => closeAndStop .directoryReadFailed
      | .ok _ => return settings
  | (name, node) :: rest, settings => do
      match ← Proc.attempt call with
      | .error _ => closeAndStop .directoryReadFailed
      | .ok _ =>
          if node.isDirectory || !isSettingsName name then collectSettings rest settings
          else if kMaximumConfigFilesPerArea ≤ settings.length then closeAndStop .tooManyFiles
          else collectSettings rest (settings ++ [name])

/-- The insertion sort by `strcmp`. -/
def sortedNames (settings : List Bytes) : List Bytes :=
  settings.insertionSort fun left right => left.map UInt8.toNat ≤ right.map UInt8.toNat

/-- One turn of the loop over the settings. -/
def loadSettings (volume name : Bytes) : SnapshotProc Unit := do
  match ← readOptional volume name with
  | none => Proc.throw .statFailed
  | some owned => addView .settings owned

/-- What `Load` does once the volume is accepted. -/
def loadAreas (volume : Bytes) : SnapshotProc Unit := do
  Proc.forIndexed (fun _ => loadFixed volume) 0 fixedFiles
  loadCmdline volume
  Proc.check ((volume ++ [0x2f]).length < 16) .pathInvalid
  let listing ← Proc.orElse .directoryReadFailed fOpendir
  let settings ← collectSettings listing []
  Proc.orElse .directoryReadFailed call
  Proc.forIndexed (fun _ => loadSettings volume) 0 (sortedNames settings)
  Proc.modify fun object =>
    { object with snapshot := knownAreas.map fun area => ⟨area, object.views area⟩ }

/-- `Load`: every exit but the last one resets the object. -/
def load (volume : Bytes) : SnapshotProc Unit := do
  Proc.modify fun _ => FatFsConfigSnapshot.empty
  Proc.check (validVolume volume = true) .invalidArgument
  match ← Proc.attempt (loadAreas volume) with
  | .ok _ => return ()
  | .error status => do
      Proc.modify fun _ => FatFsConfigSnapshot.empty
      Proc.throw status

end Config

end BmxUpdate
