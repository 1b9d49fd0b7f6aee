import BmxUpdate.Installer.Basic

/-!
# The two journal files

Reading, selecting and writing the transaction's journal
(`Engine::ReadJournalFile` to `Engine::AdvancePreparedTo`).

A transaction keeps two journal files.  A write goes to a temporary file and is
moved over the file that does not hold the newest record, so the newest record
stays readable until the next one is complete.
-/

namespace BmxUpdate

open Crash Volumes Wire

/-- The bytes of a journal file that has the wrong size or is no file: a
copy that is present and that nothing parses. -/
def unreadableJournal : Bytes := List.replicate kJournalEncodedSize 0

/-- `ReadJournalFile`: the bytes of the copy, `none` where it is missing. -/
def readJournalFile (path : Path) : EngineProc (Option Bytes) := do
  let found ← Proc.orElse .fileSystemError (stat path)
  if found.type = .missing then return none
  else if found.type ≠ .regularFile ∨ found.size ≠ kJournalEncodedSize then
    return some unreadableJournal
  else do
    let bytes ← Proc.orElse .fileSystemError (readFile path)
    Proc.orElse .recoveryProgressFailed progress
    return some bytes

namespace Env

variable (env : Env)

/-- `LoadJournal` -/
def loadJournal (allowMissing : Bool) : EngineProc Unit := do
  let copyA ← readJournalFile (env.journalPath .a)
  let copyB ← readJournalFile (env.journalPath .b)
  let selection := selectJournalCopy copyA copyB
  match selection.status, selection.record with
  | .noJournal, _ => do
      Proc.modify fun s => { s with journal := none }
      if allowMissing then return () else Proc.throw .wrongState
  | .noValidCopy, _ => Proc.throw .journalCorrupt
  | .ambiguousSameGeneration, _ => Proc.throw .journalConflict
  | .selectedB, some r => Proc.modify fun s => { s with journal := some (r, .b) }
  | _, some r => Proc.modify fun s => { s with journal := some (r, .a) }
  | _, none => Proc.throw .journalCorrupt

/-- The part of `WriteJournalBytes` up to the directory barrier. -/
def publishJournal (encoded : Bytes) (path : Path) : EngineCheck Unit := do
  write env.journalTemp encoded
  barrier
  barrier
  rename env.journalTemp path true
  syncContainingDirectory path

/-- `WriteJournalBytes` -/
def writeJournalBytes (next : JournalRecord) (destination : JournalSlot) : EngineProc Unit := do
  match serializeJournal next with
  | none => Proc.throw .journalCodecError
  | some encoded => do
      Proc.orElse .fileSystemError (removeIfPresent env.journalTemp)
      Proc.orElse .fileSystemError (createFileFresh env.journalTemp)
      Proc.orElse .fileSystemError
        (withCleanup (env.publishJournal encoded (env.journalPath destination))
          (removeIfPresent env.journalTemp))
      let reread ← Proc.orElse .journalCodecError
        (readJournalFile (env.journalPath destination))
      Proc.check (reread.map parseJournal = some (.ok next)) .journalCodecError
      Proc.modify fun s => { s with journal := some (next, destination) }
      Proc.orElse .recoveryProgressFailed progress

/-- `WriteInitialJournal` -/
def writeInitialJournal (record : JournalRecord) : EngineProc Unit := do
  let s ← Proc.get
  Proc.check s.journal.isNone .journalConflict
  env.writeJournalBytes record .a

/-- `WriteTransition` -/
def writeTransition (next : JournalRecord) : EngineProc Unit := do
  let s ← Proc.get
  match s.journal with
  | none => Proc.throw .journalTransitionDenied
  | some (record, slot) => do
      Proc.check (validateJournalTransition record next = .allowed) .journalTransitionDenied
      env.writeJournalBytes next slot.other

/-- `IdentityMatches` -/
def identityMatches (record : JournalRecord) : Bool :=
  let identity := env.request.identity
  record.sourceReleaseSequence = identity.sourceReleaseSequence ∧
    record.targetReleaseSequence = env.request.manifest.releaseSequence ∧
    record.board = env.asset.board ∧
    record.oldBootGeneration = identity.oldBootGeneration ∧
    record.newBootGeneration = identity.newBootGeneration ∧
    record.transactionId = identity.transactionId ∧
    record.manifestSha256 = identity.manifestSha256 ∧
    record.zipSha256 = env.asset.sha256 ∧
    record.consentSha256 = identity.consentSha256

/-- The Discovered record `InitializeJournal` writes after `record`. -/
def discoveredRecord (record : JournalRecord) (layout : StepLayout) : JournalRecord where
  generation := record.generation + 1
  transactionId := env.request.identity.transactionId
  state := .discovered
  substate := 0
  flags := if env.request.identity.resetRequired then JournalFlags.resetRequired else 0
  sourceReleaseSequence := env.request.identity.sourceReleaseSequence
  targetReleaseSequence := env.request.manifest.releaseSequence
  board := env.asset.board
  manifestSha256 := env.request.identity.manifestSha256
  zipSha256 := env.asset.sha256
  consentSha256 := env.request.identity.consentSha256
  oldBootGeneration := env.request.identity.oldBootGeneration
  newBootGeneration := env.request.identity.newBootGeneration
  completedSteps := 0
  totalSteps := layout.total

/-- The Downloaded record `InitializeJournal` writes after `record`. -/
def downloadedRecord (record : JournalRecord) : JournalRecord :=
  { record with
    generation := record.generation + 1
    state := .downloaded
    flags := record.flags |||
      (JournalFlags.userApproved ||| JournalFlags.downloadVerified) |||
      (if env.request.identity.resetRequired then JournalFlags.resetApproved else 0) }

/-- The newest record the engine has loaded or written; the steps that ask for
it run only after a journal was found. -/
def currentRecord : EngineProc JournalRecord := do
  let s ← Proc.get
  match s.journal with
  | none => Proc.throw .wrongState
  | some (record, _) => return record

/-- Write the Downloaded record after the current one. -/
def writeDownloaded : EngineProc Unit := do
  let record ← currentRecord
  env.writeTransition (env.downloadedRecord record)

/-- Write the Discovered record after the current one, then the Downloaded one. -/
def writeDiscovered (layout : StepLayout) : EngineProc Unit := do
  let record ← currentRecord
  env.writeTransition (env.discoveredRecord record layout)
  env.writeDownloaded

/-- `InitializeJournal` -/
def initializeJournal (layout : StepLayout) : EngineProc Unit := do
  env.loadJournal true
  let s ← Proc.get
  match s.journal with
  | none => do
      env.writeInitialJournal (makeIdleJournalRecord 1)
      env.writeDiscovered layout
  | some (record, _) =>
      if record.state = .idle then do
        -- A later Idle record ends a transaction; its root is not reused.
        Proc.check (record.generation = 1) .journalConflict
        env.writeDiscovered layout
      else do
        Proc.check (env.identityMatches record ∧ record.totalSteps = layout.total)
          .journalConflict
        if record.state ≠ .discovered then return ()
        else env.writeDownloaded

/-- `AdvancePreparedTo` -/
def advancePreparedTo (completedSteps : Nat) : EngineProc Unit := do
  let s ← Proc.get
  match s.journal with
  | none => Proc.throw .journalConflict
  | some (record, _) => do
      Proc.check (record.state = .prepared ∧ record.completedSteps ≤ completedSteps ∧
        completedSteps ≤ record.totalSteps) .journalConflict
      if completedSteps = record.completedSteps then return ()
      else
        env.writeTransition
          { record with generation := record.generation + 1, completedSteps := completedSteps }

/-- `AdvancePrepared` -/
def advancePrepared : EngineProc Unit := do
  let record ← currentRecord
  env.advancePreparedTo (record.completedSteps + 1)

end Env

end BmxUpdate
