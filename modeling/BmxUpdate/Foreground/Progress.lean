import Mathlib.Algebra.Group.Nat.Defs
import Mathlib.Data.List.Basic
import BmxUpdate.UpdateTypes

/-!
# The progress of a foreground update

`UpdateForegroundProgress` (`update_foreground_progress.cpp`): the object between the
menu and the update that runs under it.  It maps the reports of the installer and the
orchestrator onto six phases, keeps two high-water marks, and turns the user's request
to cancel into one refused report or checkpoint.

What the user interface answers during a call stands in the call: whether it began,
and whether it read a request to cancel.  A call yields its result, the events it
presents and the object after it.
-/

namespace BmxUpdate

namespace Foreground

inductive UpdateRecoveryProgressKind where
  | bootInitializationMilestone
  | recoveryPrecheck
  | transactionStateRead
  | transactionPayloadRead
  | transactionCleanup
  | preparedEvidenceRead
  | preparedFileVerified
  | preparedCleanup
  | candidateFileHashed
  | candidateJournalRead
  | installerFileHashed
  | installerFileCopied
  | installerJournalPersisted
  | installerCommitStep
  | installerRollbackStep
  | archiveCleanup
  | storedArchiveHashed
  | candidateRebootCheckpoint
  | foregroundDownloadMutationCheckpoint
  | foregroundRetireMutationCheckpoint
  | preparedArchiveInitialHashed
  | preparedArchiveFinalHashed
  | installerArchiveHashed
  | candidateEvidenceRead
  | candidateHealthEvaluated
  | candidateRollbackDecision
  | foregroundStageComplete
  | candidateRollbackComplete
  | installerStageOverall
  | installerContentPlanSummary
deriving DecidableEq

structure UpdateRecoveryProgressEvent where
  kind : UpdateRecoveryProgressKind
  completedBytes : UInt64
  totalBytes : UInt64

inductive UpdateForegroundCancelBehavior where
  | cancelAtCheckpoint
  | mandatoryCompletion
deriving DecidableEq

structure UpdateForegroundUiEvent where
  phase : UpdateForegroundPhase
  progressPerMille : UInt16
  determinate : Bool
  cancelEnabled : Bool
  cancelPending : Bool
deriving DecidableEq

def kStoredArchiveHashEndPerMille : UInt16 := 160
def kPreparedInitialHashEndPerMille : UInt16 := 320
def kPreparedFinalHashEndPerMille : UInt16 := 480
def kInstallerArchiveHashEndPerMille : UInt16 := 1000

/-- `RatioPerMille` -/
def ratioPerMille (completedBytes totalBytes : UInt64) : UInt16 :=
  if totalBytes = 0 then 0
  else if totalBytes ≤ completedBytes then 1000
  else
    let whole := completedBytes / totalBytes
    let remainder := completedBytes % totalBytes
    let scaled := whole * 1000
    let scaled :=
      if remainder ≤ 0xffffffffffffffff / 1000 then scaled + remainder * 1000 / totalBytes
      else scaled + remainder / (totalBytes / 1000 + 1)
    (if 1000 < scaled then 1000 else scaled).toUInt16

/-- `HashPhaseSpan` -/
def hashPhaseSpan : UpdateRecoveryProgressKind → Option (UInt16 × UInt16)
  | .storedArchiveHashed => some (0, kStoredArchiveHashEndPerMille)
  | .preparedArchiveInitialHashed =>
      some (kStoredArchiveHashEndPerMille, kPreparedInitialHashEndPerMille)
  | .preparedArchiveFinalHashed =>
      some (kPreparedInitialHashEndPerMille, kPreparedFinalHashEndPerMille)
  | .installerArchiveHashed =>
      some (kPreparedFinalHashEndPerMille, kInstallerArchiveHashEndPerMille)
  | _ => none

/-- `HashPhasePerMille` -/
def hashPhasePerMille (event : UpdateRecoveryProgressEvent) (start stop : UInt16) : UInt16 :=
  let ratio := ratioPerMille event.completedBytes event.totalBytes
  let span := stop - start
  (start.toUInt32 + ratio.toUInt32 * span.toUInt32 / 1000).toUInt16

/-- `IsMandatoryProgress` -/
def isMandatoryProgress : UpdateRecoveryProgressKind → Bool
  | .installerCommitStep | .installerRollbackStep | .archiveCleanup | .preparedCleanup
  | .transactionCleanup => true
  | _ => false

/-- `MapProgressPhase` -/
def mapProgressPhase (kind : UpdateRecoveryProgressKind) (current : UpdateForegroundPhase) :
    UpdateForegroundPhase :=
  match kind with
  | .foregroundDownloadMutationCheckpoint => .zip
  | .foregroundRetireMutationCheckpoint => .stage
  | .storedArchiveHashed | .preparedArchiveInitialHashed | .preparedArchiveFinalHashed
  | .installerArchiveHashed => .hash
  | .foregroundStageComplete | .installerStageOverall | .installerContentPlanSummary => .stage
  | .candidateRebootCheckpoint => .reboot
  | .installerFileHashed => if current = .stage then .stage else .hash
  | .installerFileCopied | .installerJournalPersisted | .installerCommitStep
  | .installerRollbackStep | .preparedFileVerified | .preparedCleanup | .archiveCleanup => .stage
  | _ => current

/-- The class `UpdateForegroundProgress`; `ui` says that `ui_` is not null. -/
structure UpdateForegroundProgress where
  ui : Bool
  phase : UpdateForegroundPhase
  active : Bool
  cancelRequested : Bool
  cancelDeferred : Bool
  hashProgressPerMille : UInt16
  hashContentsComplete : Bool
  stageProgressPerMille : UInt16
  mandatoryOperationDepth : UInt32
  mandatoryOperationOverflowed : Bool
  stopSignaled : Bool
deriving DecidableEq

/-- What a call yields; a call without a result yields true. -/
structure Outcome where
  result : Bool
  presented : List UpdateForegroundUiEvent
  object : UpdateForegroundProgress

namespace UpdateForegroundProgress

/-- The constructor. -/
def new (ui : Bool) : UpdateForegroundProgress where
  ui
  phase := .discovery
  active := false
  cancelRequested := false
  cancelDeferred := false
  hashProgressPerMille := 0
  hashContentsComplete := false
  stageProgressPerMille := 0
  mandatoryOperationDepth := 0
  mandatoryOperationOverflowed := false
  stopSignaled := false

def mandatoryOperationActive (object : UpdateForegroundProgress) : Bool :=
  object.mandatoryOperationDepth != 0 || object.mandatoryOperationOverflowed

/-- `BuildEvent` -/
def buildEvent (object : UpdateForegroundProgress) (phase : UpdateForegroundPhase)
    (completedBytes totalBytes : UInt64) (behavior : UpdateForegroundCancelBehavior) :
    UpdateForegroundUiEvent where
  phase
  progressPerMille := if totalBytes ≠ 0 then ratioPerMille completedBytes totalBytes else 0
  determinate := totalBytes ≠ 0
  cancelEnabled := behavior = .cancelAtCheckpoint
  cancelPending := object.cancelRequested

/-- The behavior of a checkpoint: none can be refused inside a mandatory operation, nor after one
that was. -/
def effectiveBehavior (object : UpdateForegroundProgress)
    (behavior : UpdateForegroundCancelBehavior) : UpdateForegroundCancelBehavior :=
  if object.mandatoryOperationActive || object.stopSignaled then .mandatoryCompletion
  else behavior

/-- `Checkpoint`; `pumped` is the answer of `PumpAndReadCancel`. -/
def checkpoint (object : UpdateForegroundProgress) (phase : UpdateForegroundPhase)
    (completedBytes totalBytes : UInt64) (behavior : UpdateForegroundCancelBehavior)
    (pumped : Bool) : Outcome :=
  if object.active = false then ⟨true, [], object⟩
  else if object.ui = false then ⟨false, [], object⟩
  else
    let behavior := object.effectiveBehavior behavior
    let mandatory : Bool := behavior = .mandatoryCompletion
    let event := object.buildEvent phase completedBytes totalBytes behavior
    let cancelRequested := object.cancelRequested || pumped
    let again := if cancelRequested then [{ event with cancelPending := true }] else []
    let mayContinue := !cancelRequested || mandatory
    ⟨mayContinue, event :: again,
      { object with
        phase
        cancelRequested
        cancelDeferred := object.cancelDeferred || (cancelRequested && mandatory)
        stopSignaled := object.stopSignaled || !mayContinue }⟩

/-- The assignments of `BeginExplicit`. -/
def opened (object : UpdateForegroundProgress) : UpdateForegroundProgress :=
  { object with
    phase := .discovery
    active := true
    cancelRequested := false
    cancelDeferred := false
    hashProgressPerMille := 0
    hashContentsComplete := false
    stageProgressPerMille := 0
    mandatoryOperationDepth := 0
    mandatoryOperationOverflowed := false
    stopSignaled := false }

/-- `BeginExplicit`; `begun` and `pumped` are the answers of `Begin` and `PumpAndReadCancel`. -/
def beginExplicit (object : UpdateForegroundProgress) (begun pumped : Bool) : Outcome :=
  if object.active || !object.ui || !begun then ⟨false, [], object⟩
  else
    -- The result of the checkpoint is thrown away.
    { object.opened.checkpoint .discovery 0 0 .cancelAtCheckpoint pumped with result := true }

/-- `EndExplicit` -/
def endExplicit (object : UpdateForegroundProgress) : Outcome :=
  ⟨true, [], { object with
    active := false
    mandatoryOperationDepth := 0
    mandatoryOperationOverflowed := false }⟩

/-- `BeginMandatoryOperation` -/
def beginMandatoryOperation (object : UpdateForegroundProgress) : Outcome :=
  if object.active = false then ⟨true, [], object⟩
  else if object.mandatoryOperationOverflowed then ⟨true, [], object⟩
  else if object.mandatoryOperationDepth = 0xffffffff then
    ⟨true, [], { object with mandatoryOperationOverflowed := true }⟩
  else
    ⟨true, [], { object with mandatoryOperationDepth := object.mandatoryOperationDepth + 1 }⟩

/-- `EndMandatoryOperation` -/
def endMandatoryOperation (object : UpdateForegroundProgress) : Outcome :=
  if object.mandatoryOperationOverflowed then ⟨true, [], object⟩
  else if object.mandatoryOperationDepth ≠ 0 then
    ⟨true, [], { object with mandatoryOperationDepth := object.mandatoryOperationDepth - 1 }⟩
  else ⟨true, [], object⟩

/-- The phase `Report` shows an event in. -/
def reportPhase (object : UpdateForegroundProgress) (event : UpdateRecoveryProgressEvent) :
    UpdateForegroundPhase :=
  if event.kind = .installerFileHashed ∧ object.hashContentsComplete then .stage
  else mapProgressPhase event.kind object.phase

/-- What `Report` raises the mark of the Stage phase to. -/
def stageCandidate (object : UpdateForegroundProgress) (event : UpdateRecoveryProgressEvent) :
    UInt16 :=
  if event.kind = .installerStageOverall ∧ event.totalBytes ≠ 0 then
    ratioPerMille event.completedBytes event.totalBytes
  else if event.kind = .foregroundStageComplete then 1000
  else object.stageProgressPerMille

/-- The behavior of a report. -/
def reportBehavior (object : UpdateForegroundProgress) (kind : UpdateRecoveryProgressKind) :
    UpdateForegroundCancelBehavior :=
  if object.mandatoryOperationActive || object.stopSignaled || isMandatoryProgress kind then
    .mandatoryCompletion
  else .cancelAtCheckpoint

/-- A high-water mark. -/
def raise (mark candidate : UInt16) : UInt16 := if mark < candidate then candidate else mark

/-- `Report` -/
def report (object : UpdateForegroundProgress) (event : UpdateRecoveryProgressEvent)
    (pumped : Bool) : Outcome :=
  if object.active = false then ⟨true, [], object⟩
  else
    let behavior := object.reportBehavior event.kind
    match object.reportPhase event, hashPhaseSpan event.kind with
    | .hash, some (start, stop) =>
        let mark := raise object.hashProgressPerMille (hashPhasePerMille event start stop)
        let outcome :=
          { object with hashProgressPerMille := mark }.checkpoint .hash mark.toUInt64 1000
            behavior pumped
        let complete : Bool :=
          outcome.result ∧ event.kind = .installerArchiveHashed ∧ event.totalBytes ≠ 0 ∧
            event.totalBytes ≤ event.completedBytes
        { outcome with
          object := { outcome.object with
            hashContentsComplete := outcome.object.hashContentsComplete || complete } }
    | mapped, _ =>
        if object.hashContentsComplete = false ∧ object.phase = .hash ∧
            event.kind = .preparedFileVerified then
          object.checkpoint .hash object.hashProgressPerMille.toUInt64 1000 behavior pumped
        else if mapped = .stage then
          let mark := raise object.stageProgressPerMille (object.stageCandidate event)
          { object with stageProgressPerMille := mark }.checkpoint .stage mark.toUInt64 1000
            behavior pumped
        else
          object.checkpoint mapped event.completedBytes event.totalBytes behavior pumped

end UpdateForegroundProgress

/-! ## Calls -/

/-- The calls of the progress object, with what the UI answers. -/
inductive Call where
  | beginExplicit (begun pumped : Bool)
  | endExplicit
  | beginMandatoryOperation
  | endMandatoryOperation
  | report (event : UpdateRecoveryProgressEvent) (pumped : Bool)
  | checkpoint (phase : UpdateForegroundPhase) (completedBytes totalBytes : UInt64)
      (behavior : UpdateForegroundCancelBehavior) (pumped : Bool)

namespace UpdateForegroundProgress

def step (object : UpdateForegroundProgress) : Call → Outcome
  | .beginExplicit begun pumped => object.beginExplicit begun pumped
  | .endExplicit => object.endExplicit
  | .beginMandatoryOperation => object.beginMandatoryOperation
  | .endMandatoryOperation => object.endMandatoryOperation
  | .report event pumped => object.report event pumped
  | .checkpoint phase completedBytes totalBytes behavior pumped =>
      object.checkpoint phase completedBytes totalBytes behavior pumped

/-- The object after calls in turn. -/
def after (object : UpdateForegroundProgress) (calls : List Call) : UpdateForegroundProgress :=
  calls.foldl (fun object call => (object.step call).object) object

/-- The events presented by calls in turn. -/
def presented (object : UpdateForegroundProgress) : List Call → List UpdateForegroundUiEvent
  | [] => []
  | call :: calls => (object.step call).presented ++ presented (object.step call).object calls

end UpdateForegroundProgress

end Foreground

end BmxUpdate
