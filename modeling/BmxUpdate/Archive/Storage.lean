import BmxUpdate.Archive.Binding

/-!
# The storage of a download

`FatFsDownloadSink` (`fatfs_update_storage.cpp`) over one open part file, and
`FatFsUpdateArchiveStorage` (`fatfs_update_archive.cpp`) over the sink.  A call takes the
object as it was and returns its answer and the object after it; on a cut only the volume
is left.

The fields of a sink that is not open are never read, so it is `none`.  The bytes that the
streaming hash was given stand for its state and, by their number, for `bytes_written_`.
The last FatFs status, which only tests read, is left out.
-/

namespace BmxUpdate

namespace Archive

open Wire Crash Volumes FatPath

/-- A step that has no state but the volume. -/
abbrev StepProc (α : Type) := FatFsProc Unit α

/-! ## The sink -/

/-- `FatFsDownloadSink` while `open_` holds. -/
structure FatFsDownloadSink where
  expectedSize : Nat
  expectedSha256 : Digest
  accepted : Bytes
  partPath : Bytes
  finalPath : Bytes
deriving DecidableEq

/-- `EndsWith` -/
def endsWith (text ending : Bytes) : Prop := ending <:+ text

instance (text ending : Bytes) : Decidable (endsWith text ending) :=
  inferInstanceAs (Decidable (_ <:+ _))

/-- `SameVolume`, of validated paths. -/
def sameVolume (left right : Bytes) : Prop :=
  (left.takeWhile (· ≠ 0x3a)).map asciiLower = (right.takeWhile (· ≠ 0x3a)).map asciiLower

instance (left right : Bytes) : Decidable (sameVolume left right) :=
  inferInstanceAs (Decidable (_ = _))

namespace FatFsDownloadSink

/-- `Start` -/
def start (current : Option FatFsDownloadSink) (partPath finalPath : Bytes) (expectedSize : Nat)
    (expectedSha256 : Digest) : StepProc FatFsDownloadSink := do
  Proc.check (current = none) .busy
  validated partPath
  validated finalPath
  Proc.check (endsWith partPath (bytesOf ".part") ∧ partPath ≠ finalPath ∧
    sameVolume partPath finalPath) .invalidPath
  let finalInfo ← fatFsStatPath finalPath
  Proc.check (finalInfo.type = .missing) .alreadyExists
  fatFsRemoveFileIfPresent partPath
  ensureParentDirectories partPath
  Proc.orElse .openFailed (createFileFresh (nodePath partPath))
  return ⟨expectedSize, expectedSha256, [], partPath, finalPath⟩

/-- `Write` -/
def write (sink : FatFsDownloadSink) (data : Bytes) : StepProc FatFsDownloadSink := do
  Proc.check (data.length ≤ sink.expectedSize - sink.accepted.length) .limitExceeded
  -- Nothing is written where there is nothing to write.
  Proc.when (data ≠ []) (Proc.orElse .writeFailed (fWrite (nodePath sink.partPath) data))
  return { sink with accepted := sink.accepted ++ data }

/-- `Finish` from the rename on. -/
def publish (sink : FatFsDownloadSink) : StepProc Unit := do
  let finalInfo ← fatFsStatPath sink.finalPath
  Proc.check (finalInfo.type = .missing) .alreadyExists
  Proc.orElse .renameFailed (rename (nodePath sink.partPath) (nodePath sink.finalPath) false)
  let final ← Proc.orElse .verifyAfterWriteFailed (hashFile sink.finalPath sink.expectedSize)
  Proc.check (final.1 = sink.expectedSize ∧ final.2 = sink.expectedSha256)
    .verifyAfterWriteFailed

/-- `Finish`.  The sink is not open afterwards, however it ends. -/
def finish (sink : FatFsDownloadSink) : StepProc Unit :=
  if sink.accepted.length ≠ sink.expectedSize then
    Proc.inSpite (Proc.throw .sizeMismatch)
      (Proc.orElse .closeFailed (fFlush (nodePath sink.partPath)))
  else do
    Proc.inSpite (Proc.orElse .syncFailed (fFlush (nodePath sink.partPath)))
      (Proc.orElse .closeFailed (fFlush (nodePath sink.partPath)))
    Proc.check (sha256 sink.accepted = sink.expectedSha256) .hashMismatch
    let disk ← hashFile sink.partPath sink.expectedSize
    Proc.check (disk.1 = sink.expectedSize ∧ disk.2 = sink.expectedSha256 ∧
      disk.2 = sha256 sink.accepted) .verifyAfterWriteFailed
    publish sink

/-- `Abort(false)` -/
def abort : Option FatFsDownloadSink → Proc Empty Unit Volume Unit
  | none => return ()
  | some sink => do
      let _ ← Proc.attempt (fFlush (nodePath sink.partPath))
      return ()

end FatFsDownloadSink

/-! ## The storage -/

/-- `MapStorageStatus` of a failure. -/
def mapStorageStatus : FatFsStorageStatus → ArchiveStorageStatus
  | .notFound => .notFound
  | .busy => .busy
  | _ => .failed

inductive State where
  | idle | writing | completed | reading | cleanupPending
deriving DecidableEq, Repr

/-- What the callback answers after each removal; without a callback, `true`. -/
structure RecoveryProgress where
  afterPart : Bool
  afterFinal : Bool
deriving DecidableEq

def RecoveryProgress.absent : RecoveryProgress := ⟨true, true⟩

/-- How the removal of an abandoned archive ends. -/
inductive Cleanup where
  | done | failed | progressFailed
deriving DecidableEq

/-- The storage object; it has a volume where `configured_` holds. -/
structure FatFsUpdateArchiveStorage where
  volume : Option Bytes
  download : Option FatFsDownloadSink
  sourceOpen : Bool
  activePaths : Option FatFsUpdateArchivePaths
  state : State
  failedFinishMayHaveFinal : Bool
deriving DecidableEq

/-- A call of the storage: it always returns, unless it is cut. -/
abbrev StorageProc := Proc Empty Unit Volume

namespace FatFsUpdateArchiveStorage

/-- The constructor. -/
def new (volume : Bytes) : FatFsUpdateArchiveStorage where
  volume := (normalizeVolume volume).toOption
  download := none
  sourceOpen := false
  activePaths := none
  state := .idle
  failedFinishMayHaveFinal := false

/-- `BindingMatches` -/
def bindingMatches (s : FatFsUpdateArchiveStorage) (paths : FatFsUpdateArchivePaths) : Prop :=
  s.activePaths = some paths

instance (s : FatFsUpdateArchiveStorage) (paths : FatFsUpdateArchivePaths) :
    Decidable (s.bindingMatches paths) :=
  inferInstanceAs (Decidable (_ = _))

/-- `Remember` -/
def remember (s : FatFsUpdateArchiveStorage) (paths : FatFsUpdateArchivePaths) :
    FatFsUpdateArchiveStorage :=
  { s with activePaths := some paths }

/-- `ClearRemembered` -/
def clearRemembered (s : FatFsUpdateArchiveStorage) : FatFsUpdateArchiveStorage :=
  { s with activePaths := none, failedFinishMayHaveFinal := false }

/-- `CleanupRemembered` -/
def cleanupRemembered (s : FatFsUpdateArchiveStorage) (removeFinal : Bool)
    (progress : RecoveryProgress) : StorageProc Cleanup :=
  match s.activePaths with
  | none => return .done
  | some paths => do
      let part ← Proc.attempt (fatFsRemoveFileIfPresent paths.partPath)
      if part.isOk ∧ progress.afterPart = false then return .progressFailed
      else if removeFinal = false then return (if part.isOk then .done else .failed)
      else do
        let final ← Proc.attempt (fatFsRemoveFileIfPresent paths.finalPath)
        if final.isOk ∧ progress.afterFinal = false then return .progressFailed
        else return (if part.isOk ∧ final.isOk then .done else .failed)

/-- `Begin` -/
def begin (s : FatFsUpdateArchiveStorage) (binding : AuthenticatedUpdateBinding) :
    StorageProc (ArchiveStorageStatus × FatFsUpdateArchiveStorage) :=
  match s.volume with
  | none => return (.failed, s)
  | some volume =>
      if s.state ≠ .idle then return (.busy, s)
      else
        match buildFatFsUpdateArchivePaths volume binding with
        | .error status => return (mapStorageStatus status, s)
        | .ok paths => do
            let started ← Proc.attempt (FatFsDownloadSink.start s.download paths.partPath
              paths.finalPath binding.archiveSize.toNat binding.archiveSha256)
            match started with
            | .error status => return (mapStorageStatus status, s)
            | .ok sink =>
                return (.ok, { s.remember paths with
                  download := some sink, failedFinishMayHaveFinal := false, state := .writing })

/-- `Write` -/
def write (s : FatFsUpdateArchiveStorage) (data : Bytes) :
    StorageProc (Bool × FatFsUpdateArchiveStorage) :=
  if s.state ≠ .writing then return (false, s)
  else
    match s.download with
    | none => return (false, s)
    | some sink => do
        let written ← Proc.attempt (sink.write data)
        match written with
        | .error _ => return (false, s)
        | .ok sink => return (true, { s with download := some sink })

/-- `Finish` -/
def finish (s : FatFsUpdateArchiveStorage) :
    StorageProc (ArchiveStorageStatus × FatFsUpdateArchiveStorage) :=
  if s.state ≠ .writing then return (.failed, s)
  else
    match s.download with
    | none =>
        return (.failed, { s with failedFinishMayHaveFinal := true, state := .cleanupPending })
    | some sink => do
        let finished ← Proc.attempt sink.finish
        match finished with
        | .error status =>
            return (mapStorageStatus status, { s with
              download := none, failedFinishMayHaveFinal := true, state := .cleanupPending })
        | .ok () =>
            return (.ok, { s with
              download := none, failedFinishMayHaveFinal := false, state := .completed })

/-- `Abort` -/
def abort (s : FatFsUpdateArchiveStorage) :
    StorageProc (Unit × FatFsUpdateArchiveStorage) :=
  if s.state ≠ .writing ∧ s.state ≠ .cleanupPending then return ((), s)
  else do
    FatFsDownloadSink.abort s.download
    let closed := { s with download := none }
    let cleanup ← closed.cleanupRemembered s.failedFinishMayHaveFinal .absent
    if cleanup = .done then return ((), { closed.clearRemembered with state := .idle })
    else return ((), { closed with state := .cleanupPending })

/-- `FatFsZipSource::Open`; whether one is open is checked first. -/
def openSource (sourceOpen : Bool) (path : Bytes) : StepProc Unit := do
  Proc.check (sourceOpen = false) .busy
  let info ← fatFsStatPath path
  Proc.check (info.type ≠ .missing) .notFound
  Proc.check (info.type ≠ .directory) .isDirectory
  Proc.orElse .openFailed barrier

/-- `OpenRead` -/
def openRead (s : FatFsUpdateArchiveStorage) (binding : AuthenticatedUpdateBinding) :
    StorageProc (ArchiveStorageStatus × FatFsUpdateArchiveStorage) :=
  match s.volume with
  | none => return (.failed, s)
  | some volume =>
      if s.state = .writing ∨ s.state = .reading ∨ s.state = .cleanupPending then return (.busy, s)
      else
        match buildFatFsUpdateArchivePaths volume binding with
        | .error status => return (mapStorageStatus status, s)
        | .ok paths =>
            if s.state = .completed ∧ ¬s.bindingMatches paths then return (.failed, s)
            else do
              let opened ← Proc.attempt (openSource s.sourceOpen paths.finalPath)
              match opened with
              | .error status => return (mapStorageStatus status, s)
              | .ok () =>
                  return (.ok, { s.remember paths with sourceOpen := true, state := .reading })

/-- `CloseRead` -/
def closeRead (s : FatFsUpdateArchiveStorage) :
    StorageProc (ArchiveStorageStatus × FatFsUpdateArchiveStorage) :=
  if s.state = .writing ∨ s.state = .cleanupPending then return (.busy, s)
  else if s.state ≠ .reading then return (.ok, s)
  else do
    let closed ← Proc.attempt (Proc.when (s.sourceOpen = true) barrier)
    let next := { s with sourceOpen := false, state := .completed }
    match closed with
    | .error () => return (mapStorageStatus .closeFailed, next)
    | .ok () => return (.ok, next)

/-- `Discard` -/
def discard (s : FatFsUpdateArchiveStorage) (binding : AuthenticatedUpdateBinding)
    (progress : RecoveryProgress) :
    StorageProc (ArchiveStorageStatus × FatFsUpdateArchiveStorage) :=
  match s.volume with
  | none => return (.failed, s)
  | some volume =>
      if s.state = .writing ∨ s.state = .reading then return (.busy, s)
      else
        match buildFatFsUpdateArchivePaths volume binding with
        | .error status => return (mapStorageStatus status, s)
        | .ok paths =>
            if s.activePaths ≠ none ∧ ¬s.bindingMatches paths then return (.failed, s)
            else do
              FatFsDownloadSink.abort s.download
              let held := { s.remember paths with download := none }
              let cleanup ← held.cleanupRemembered true progress
              match cleanup with
              | .done => return (.ok, { held.clearRemembered with state := .idle })
              | .failed => return (.failed, { held with
                  state := .cleanupPending, failedFinishMayHaveFinal := true })
              | .progressFailed => return (.recoveryProgressFailed, { held with
                  state := .cleanupPending, failedFinishMayHaveFinal := true })

end FatFsUpdateArchiveStorage

end Archive

end BmxUpdate
