import BmxUpdate.FileSystem
import BmxUpdate.LocalLog.Page

/-!
# The local log

`UpdateLocalLog` (`update_local_log.cpp`): two slots and a temporary file.  `Append`
loads the newest page into the one buffer, edits it there, writes it to the temporary
file, and renames that over the slot it did not load.

An error of a `LogProc` is the result `false` of the function it models.
-/

namespace BmxUpdate

namespace LocalLog

open Wire Crash Volumes

/-- The object, with the page of its workspace. -/
structure UpdateLocalLog where
  page : Bytes
  lastRecordPersisted : Bool

abbrev LogProc (α : Type) := FsProc UpdateLocalLog α

def kUpdateLocalLogRoot : Path := [".bmx-update"]

def kUpdateLocalLogPathA : Path := [".bmx-update", "log.a"]

def kUpdateLocalLogPathB : Path := [".bmx-update", "log.b"]

def kUpdateLocalLogTemporaryPath : Path := [".bmx-update", "log.next"]

/-- The two files a log is written to in turn. -/
inductive Slot where
  | a
  | b
deriving DecidableEq, Repr

namespace Slot

def path : Slot → Path
  | a => kUpdateLocalLogPathA
  | b => kUpdateLocalLogPathB

def other : Slot → Slot
  | a => b
  | b => a

end Slot

/-- What `InspectSlot` finds; a valid slot has a page. -/
structure SlotInfo where
  present : Bool := false
  ioError : Bool := false
  page : Option PageInfo := none
deriving DecidableEq, Repr

/-- What an inspection of both slots finds: the one with the newest page, if it can tell. -/
structure CurrentLog where
  selected : Option Slot := none
  anyPresent : Bool := false
  ioError : Bool := false
  ambiguous : Bool := false
  generation : UInt64 := 0
  count : Nat := 0
deriving DecidableEq, Repr

/-- `InspectSlot` -/
def inspectSlot (path : Path) : LogProc SlotInfo := do
  match ← Proc.attempt (η := Unit) (stat path) with
  | .error _ => return { ioError := true }
  | .ok found =>
      if found.type = .missing then return {}
      else if found.type ≠ .regularFile ∨ found.size ≠ kUpdateLocalLogPageBytes then
        return { present := true }
      else do
        match ← Proc.attempt (η := Unit) (readFile path) with
        | .error _ => return { present := true, ioError := true }
        | .ok content =>
            if content.length ≠ kUpdateLocalLogPageBytes then
              return { present := true, ioError := true }
            else do
              Proc.modify fun log => { log with page := content }
              return { present := true, page := parsePage content }

/-- The end of `LoadCurrent`: the page of the selected slot, read once more. -/
def loadSelected (anyPresent : Bool) (slot : Slot) : LogProc CurrentLog := do
  let selected ← inspectSlot slot.path
  match selected.page with
  | some page =>
      if selected.ioError then return { anyPresent, ioError := true }
      else return { selected := some slot, anyPresent, generation := page.generation,
                    count := page.count }
  | none => return { anyPresent, ioError := true }

/-- What `LoadCurrent` makes of the two slots. -/
def selectSlot (a b : SlotInfo) : LogProc CurrentLog :=
  let anyPresent := a.present || b.present
  if a.ioError || b.ioError then return { anyPresent, ioError := true }
  else
    match a.page, b.page with
    | some pageA, some pageB =>
        if pageA.generation = pageB.generation then
          if pageA.crc ≠ pageB.crc then
            return { anyPresent, ambiguous := true, generation := pageA.generation }
          else loadSelected anyPresent .a
        else if pageB.generation < pageA.generation then loadSelected anyPresent .a
        else loadSelected anyPresent .b
    | some _, none => loadSelected anyPresent .a
    | none, some _ => loadSelected anyPresent .b
    | none, none => return { anyPresent }

/-- `LoadCurrent` -/
def loadCurrent : LogProc CurrentLog := do
  let a ← inspectSlot kUpdateLocalLogPathA
  let b ← inspectSlot kUpdateLocalLogPathB
  selectSlot a b

/-- `EnsureRoot` -/
def ensureRoot : LogProc Unit := do
  let root ← stat kUpdateLocalLogRoot
  if root.type = .directory then return ()
  else do
    Proc.check (root.type = .missing) ()
    createDirectory kUpdateLocalLogRoot
    syncContainingDirectory kUpdateLocalLogRoot

/-- `PageMatches` -/
def pageMatches (path : Path) (expected : PageInfo) : LogProc Bool := do
  let info ← inspectSlot path
  return !info.ioError && info.page = some expected

/-- `PersistPage` up to the rename: the page in the temporary file, read back, and the
target removed. -/
def stagePage (target : Slot) (expected : PageInfo) : LogProc Unit := do
  removeFile kUpdateLocalLogTemporaryPath
  syncContainingDirectory kUpdateLocalLogTemporaryPath
  createFileFresh kUpdateLocalLogTemporaryPath
  let log ← Proc.get
  let written ← Proc.attempt (η := Unit) do
    write kUpdateLocalLogTemporaryPath log.page
    barrier
  let closed ← Proc.attempt (η := Unit) barrier
  let verified ←
    match written, closed with
    | .ok _, .ok _ => pageMatches kUpdateLocalLogTemporaryPath expected
    | _, _ => pure false
  if verified = false then do
    let _ ← Proc.attempt (η := Unit) (removeFile kUpdateLocalLogTemporaryPath)
    Proc.throw ()
  else do
    removeFile target.path
    syncContainingDirectory target.path

/-- What `Append` hands to `PersistPage`. -/
structure Prepared where
  current : CurrentLog
  target : Slot
  page : PageInfo

/-- `Append` up to `PersistPage`: the checks, and the new page in the buffer. -/
def preparePage (entry : Entry) : LogProc Prepared := do
  Proc.check (progressExceeds (classifyCode entry.code) entry.completed entry.total = false) ()
  ensureRoot
  let current ← loadCurrent
  Proc.check (current.ioError = false ∧ current.generation ≠ 0xffffffffffffffff) ()
  let log ← Proc.get
  let room := makeRoom current.selected.isSome current.count log.page
  let record : UpdateLocalLogRecord :=
    ⟨entry.scope, classifyCode entry.code, entry.code, current.generation + 1,
      entry.completed, entry.total⟩
  let page := writeRecord record room.2 room.1
  Proc.modify fun log => { log with page := page }
  return { current,
           target := if current.selected = some .a then .b else .a,
           page := ⟨record.ordinal, room.2 + 1, calculateCrc32 (page.take kLogCrcOffset)⟩ }

/-- `Append` up to the rename. -/
def stageRecord (entry : Entry) : LogProc Prepared := do
  let prepared ← preparePage entry
  stagePage prepared.target prepared.page
  return prepared

/-- The rename of `PersistPage`. -/
def publish (target : Slot) : LogProc Unit :=
  rename kUpdateLocalLogTemporaryPath target.path false

/-- `Append` from the rename on. -/
def settle (prepared : Prepared) : LogProc Unit := do
  syncContainingDirectory prepared.target.path
  let verified ← pageMatches prepared.target.path prepared.page
  Proc.check (verified = true) ()
  if prepared.current.selected = none ∧ prepared.current.generation = 0 ∧
      prepared.current.anyPresent = true then do
    removeFile prepared.target.other.path
    syncContainingDirectory prepared.target.other.path
  else return ()

/-- `Append` -/
def append (entry : Entry) : LogProc Unit := do
  let prepared ← stageRecord entry
  publish prepared.target
  settle prepared

/-- `Record` -/
def record (entry : Entry) : LogProc Unit := do
  let result ← Proc.attempt (η := Unit) (append entry)
  Proc.modify fun log => { log with lastRecordPersisted := result.isOk }

inductive UpdateLocalLogReadStatus where
  | ok
  | noLog
  | bufferTooSmall
  | corrupt
  | ioError
deriving DecidableEq, Repr

/-- What `Read` gives back. -/
structure ReadResult where
  status : UpdateLocalLogReadStatus
  count : Nat := 0
  generation : UInt64 := 0
  records : List UpdateLocalLogRecord := []
deriving DecidableEq, Repr

/-- The loop of `Read`. -/
def decodeRecords : Nat → Bytes → Option (List UpdateLocalLogRecord)
  | 0, _ => some []
  | count + 1, encoded => do
      let record ← decodeRecord (encoded.take kUpdateLocalLogRecordBytes)
      let records ← decodeRecords count (encoded.drop kUpdateLocalLogRecordBytes)
      return record :: records

/-- `Read`, into a buffer of `capacity` records. -/
def read (capacity : Nat) : LogProc ReadResult := do
  let current ← loadCurrent
  if current.ioError then return ⟨.ioError, 0, 0, []⟩
  else if current.selected = none then
    if current.anyPresent || current.ambiguous then return ⟨.corrupt, 0, 0, []⟩
    else return ⟨.noLog, 0, 0, []⟩
  else if capacity < current.count then
    return ⟨.bufferTooSmall, current.count, current.generation, []⟩
  else do
    let log ← Proc.get
    match decodeRecords current.count (log.page.drop kUpdateLocalLogHeaderBytes) with
    | none => return ⟨.corrupt, 0, 0, []⟩
    | some records => return ⟨.ok, current.count, current.generation, records⟩

end LocalLog

end BmxUpdate
