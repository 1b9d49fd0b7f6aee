import BmxUpdate.ContentPlan
import BmxUpdate.Installer.JournalStore

/-!
# Markers, snapshot evidence and the content plan on the volume

Reading and writing the files of the transaction's state directory
(`Engine::ReadEvidence` to `Engine::ReadMetadataEvidence`, and
`Engine::LoadContentPlan` to `Engine::FinalizeContentPlan`).
-/

namespace BmxUpdate

open Crash Volumes Wire

/-- `ReadEvidence`: the bytes of a file of a known size, `none` where it is
missing. -/
def readEvidence (path : Path) (size : Nat) : EngineProc (Option Bytes) := do
  let found ← Proc.orElse .fileSystemError (stat path)
  if found.type = .missing then return none
  else do
    Proc.check (found.type = .regularFile ∧ found.size = size) .rollbackEvidenceMissing
    let bytes ← Proc.orElse .fileSystemError (readFile path)
    return some bytes

/-- The checks that read an evidence file back. -/
def confirmEvidence (path : Path) (bytes : Bytes) : EngineProc Unit := do
  let reread ← Proc.orElse .rollbackEvidenceMissing (readEvidence path bytes.length)
  Proc.check (reread = some bytes) .rollbackEvidenceMissing

/-- `WriteFreshEvidence` -/
def writeFreshEvidence (path : Path) (bytes : Bytes) : EngineProc Unit := do
  let found ← Proc.orElse .fileSystemError (stat path)
  match found.type with
  | .regularFile => do
      Proc.check (found.size = bytes.length) .rollbackEvidenceMissing
      confirmEvidence path bytes
  | .directory => Proc.throw .rollbackEvidenceMissing
  | .missing => do
      let temporary := addSuffix path ".part"
      Proc.orElse .fileSystemError (removeIfPresent temporary)
      Proc.orElse .fileSystemError (createFileFresh temporary)
      Proc.orElse .fileSystemError
        (withCleanup (publishEvidence temporary path bytes) (removeIfPresent temporary))
      confirmEvidence path bytes
where
  /-- Write, sync, close and move into place. -/
  publishEvidence (temporary path : Path) (bytes : Bytes) : EngineCheck Unit := do
    write temporary bytes
    barrier
    barrier
    rename temporary path false
    syncContainingDirectory path

namespace Env

variable (env : Env)

/-! ## Markers -/

/-- `EnsureMarker` -/
def ensureMarker (directory : Bool) (index : Nat) (existed : Bool) : EngineProc Unit :=
  writeFreshEvidence (env.markerPath directory index) (markerContent directory existed index)

/-- `MarkerExists`: what a valid marker says existed. -/
def markerExists (directory : Bool) (index : Nat) : EngineCheck Bool := do
  let encoded ← Proc.orElse () (readEvidence (env.markerPath directory index)
    kExistenceEvidenceBytes)
  match encoded.bind (parseMarker directory index) with
  | none => Proc.throw ()
  | some existed => return existed

/-! ## Loading the content plan -/

/-- `LoadContentPlan` -/
def loadContentPlan (requireFinal : Bool) : EngineProc Unit := do
  let finalStat ← Proc.orElse .fileSystemError (stat (env.contentPlanPath true))
  let preparedStat ← Proc.orElse .fileSystemError (stat (env.contentPlanPath false))
  Proc.check (finalStat.type ≠ .directory ∧ preparedStat.type ≠ .directory)
    .rollbackEvidenceMissing
  let useFinal : Bool := finalStat.type = .regularFile
  Proc.check (useFinal ∨ (requireFinal = false ∧ preparedStat.type = .regularFile))
    .rollbackEvidenceMissing
  Proc.check ((if useFinal then finalStat else preparedStat).size = env.contentPlanSize)
    .rollbackEvidenceMissing
  let encoded ← Proc.orElse .fileSystemError (readFile (env.contentPlanPath useFinal))
  Proc.orElse .rollbackEvidenceMissing barrier
  match env.parseContentPlan useFinal encoded with
  | none => Proc.throw .rollbackEvidenceMissing
  | some records =>
      Proc.modify fun s => { s with contentPlan := some (records.map (·.noop), useFinal) }

/-- The loaded plan, which is loaded first if there is none. -/
def loadedContentPlan : EngineProc (List Bool × Bool) := do
  let s ← Proc.get
  match s.contentPlan with
  | some plan => return plan
  | none => do
      env.loadContentPlan false
      let s ← Proc.get
      match s.contentPlan with
      | some plan => return plan
      | none => Proc.throw .rollbackEvidenceMissing

/-- `IsNoop` -/
def isNoop (index : Nat) : EngineProc Bool := do
  Proc.check (index < env.asset.files.length) .invalidArgument
  let plan ← env.loadedContentPlan
  return plan.1.getD index false

/-- `ReadContentPlanRecord` -/
def readContentPlanRecord (index : Nat) : EngineProc ContentPlanRecord := do
  Proc.check (index < env.asset.files.length) .invalidArgument
  let plan ← env.loadedContentPlan
  let encoded ← Proc.orElse .fileSystemError (readFile (env.contentPlanPath plan.2))
  Proc.check (kContentPlanHeaderBytes + (index + 1) * kContentPlanRecordBytes ≤ encoded.length)
    .fileSystemError
  match decodeContentPlanRecord index (contentPlanRecordSlice index encoded) with
  | none => Proc.throw .rollbackEvidenceMissing
  | some record => return record

/-! ## What is known of the old files -/

/-- `WriteSnapshotEvidence` -/
def writeSnapshotEvidence (index : Nat) (old : OldFile) : EngineProc Unit :=
  writeFreshEvidence (env.snapshotEvidencePath index) (snapshotEvidenceContent old)

/-- `ReadSnapshotEvidence` -/
def readSnapshotEvidence (index : Nat) : EngineProc OldFile := do
  let record ← env.readContentPlanRecord index
  if record.sourceExisted = false then return ⟨false, 0, .zero 32⟩
  else if record.oldDigestValid then return ⟨true, record.oldSize, record.oldDigest⟩
  else do
    let plan ← env.loadedContentPlan
    Proc.check (plan.2 = false) .rollbackEvidenceMissing
    let encoded ← readEvidence (env.snapshotEvidencePath index) kSnapshotEvidenceBytes
    match encoded.bind parseSnapshotEvidence with
    | none => Proc.throw .rollbackEvidenceMissing
    | some old => return old

/-- `ReadMetadataEvidence` -/
def readMetadataEvidence (index : Nat) : EngineProc OldFile := do
  let record ← env.readContentPlanRecord index
  Proc.check (record.sourceExisted = true → record.oldDigestValid = true)
    .rollbackEvidenceMissing
  if record.sourceExisted then return ⟨true, record.oldSize, record.oldDigest⟩
  else return ⟨false, 0, .zero 32⟩

/-! ## Writing the content plan -/

/-- The record of a file whose old content is known by its size, and by its
digest where that is valid: a no-op is an old file that is the new one. -/
def classifyRecord (file : ManifestFile) (sourceSize oldSize : Nat) (digest : Option Digest) :
    ContentPlanRecord where
  noop := file.policy ≠ .preserve && sourceSize = env.effectiveSize file &&
    digest = some (env.effectiveDigest file)
  sourceExisted := true
  oldDigestValid := digest.isSome
  oldSize := oldSize
  oldDigest := digest.getD (.zero 32)

/-- The record of the prepared plan for one file. -/
def preparedPlanRecord (file : ManifestFile) : EngineProc ContentPlanRecord := do
  let source ← Proc.orElse .fileSystemError (stat file.path)
  match source.type with
  | .directory => Proc.throw .fileSystemError
  | .missing => return ⟨false, false, false, 0, .zero 32⟩
  | .regularFile =>
      match (env.preparedConfig file).filter (·.originalExisted) with
      | some prepared =>
          return env.classifyRecord file source.size prepared.originalSize.toNat
            (some prepared.originalSha256)
      | none =>
          if file.policy = .metadata ∨
              (file.policy ≠ .preserve ∧ source.size = env.effectiveSize file) then do
            let hashed ← Proc.orElse .fileSystemError (env.hashFile file.path)
            Proc.check (hashed.2 = source.size) .fileSystemError
            return env.classifyRecord file source.size source.size (some hashed.1)
          else return env.classifyRecord file source.size source.size none

/-- The record of the final plan for one file: the prepared record, with the
digest from the snapshot evidence where it had none. -/
def finalPlanRecord (index : Nat) (file : ManifestFile) : EngineProc ContentPlanRecord := do
  let record ← env.readContentPlanRecord index
  if file.policy.isSnapshot && record.sourceExisted && !record.oldDigestValid then do
    let old ← env.readSnapshotEvidence index
    Proc.check (old.existed = true) .rollbackEvidenceMissing
    return { record with oldDigestValid := true, oldSize := old.size, oldDigest := old.digest }
  else return record

/-- Collect the plan's records and write them to the temporary file. -/
def fillContentPlan (finalPlan : Bool) (temporary : Path) : EngineProc Unit := do
  let records ← Proc.mapIndexed
    (fun index file =>
      if finalPlan then env.finalPlanRecord index file else env.preparedPlanRecord file)
    0 env.asset.files
  match env.contentPlanContent finalPlan records with
  | none => Proc.throw .fileSystemError
  | some content => do
      Proc.orElse .fileSystemError (write temporary content)
      Proc.orElse .fileSystemError barrier
      Proc.orElse .fileSystemError barrier

/-- `WriteContentPlanFile` -/
def writeContentPlanFile (finalPlan : Bool) : EngineProc Unit := do
  let path := env.contentPlanPath finalPlan
  let temporary := addSuffix path ".part"
  Proc.orElse .fileSystemError (removeIfPresent temporary)
  let existing ← Proc.orElse .fileSystemError (stat path)
  match existing.type with
  | .regularFile => do
      Proc.modify fun s => { s with contentPlan := none }
      env.loadContentPlan finalPlan
  | .directory => Proc.throw .rollbackEvidenceMissing
  | .missing => do
      Proc.orElse .fileSystemError (createFileFresh temporary)
      Proc.orElse .fileSystemError (withCleanup (publishPlan path temporary)
        (removeIfPresent temporary))
      Proc.orElse .fileSystemError (syncContainingDirectory path)
      Proc.modify fun s => { s with contentPlan := none }
      env.loadContentPlan finalPlan
where
  /-- Fill the temporary file and move it into place. -/
  publishPlan (path temporary : Path) : EngineCheck Unit := do
    Proc.orElse () (env.fillContentPlan finalPlan temporary)
    rename temporary path false

/-- `BuildContentPlan` -/
def buildContentPlan : EngineProc Unit := do
  let finalStat ← Proc.orElse .fileSystemError (stat (env.contentPlanPath true))
  let preparedStat ← Proc.orElse .fileSystemError (stat (env.contentPlanPath false))
  if finalStat.type = .regularFile ∨ preparedStat.type = .regularFile then
    env.loadContentPlan false
  else do
    Proc.check (finalStat.type = .missing ∧ preparedStat.type = .missing)
      .rollbackEvidenceMissing
    env.writeContentPlanFile false

/-- `RemoveSnapshotEvidenceFiles` -/
def removeSnapshotEvidenceFiles : EngineProc Unit :=
  Proc.forIndexed (fun index _ => do
    let path := env.snapshotEvidencePath index
    let pathStat ← Proc.orElse .fileSystemError (stat path)
    let partStat ← Proc.orElse .fileSystemError (stat (addSuffix path ".part"))
    let rollbackStat ← Proc.orElse .fileSystemError (stat (addSuffix path ".rollback"))
    if pathStat.type = .missing ∧ partStat.type = .missing ∧ rollbackStat.type = .missing then
      return ()
    else Proc.orElse .fileSystemError (removeFileAndTemporary path)) 0 env.asset.files

/-- `FinalizeContentPlan` -/
def finalizeContentPlan : EngineProc Unit := do
  env.loadContentPlan false
  let plan ← env.loadedContentPlan
  Proc.when (plan.2 = false) (env.writeContentPlanFile true)
  Proc.orElse .fileSystemError (removeIfPresent (env.contentPlanPath false))
  env.removeSnapshotEvidenceFiles

end Env

end BmxUpdate
