import BmxUpdate.Orchestrator.Installation
import BmxUpdate.Orchestrator.PendingRequest

/-!
# The boot executor

`UpdateRecoveryExecutor::Run` (`update_recovery_executor.cpp`): load the active
request, resume with it, or discard what was rejected.

`Load` of an intact request makes a fixed number of operations, all of them
reads and progress reports.  A read that fails has the statuses of a corrupt
request, so `Run` discards the request it could not read.
-/

namespace BmxUpdate

open Crash Volumes Wire Interaction RequestStore

inductive UpdateRecoveryExecutorStatus where
  | noPendingTransaction
  | resumeFinished
  | rejectedStateDiscarded
  | previousBootFailSafeRequested
  | invalidArgument
  | alreadyRun
  | loadFailed
  | loadWorkspaceTooSmall
  | discardFailed
  | previousBootFailSafeFailed
  | recoveryProgressFailed
deriving DecidableEq, Repr

/-- `UpdateRecoveryExecutorResult`; the statuses of the store are `Ok` or a
failure. -/
structure UpdateRecoveryExecutorResult where
  status : UpdateRecoveryExecutorStatus
  loadStatus : Except StoreFailure Unit
  discardStatus : Except StoreFailure Unit
  resumeStatus : UpdateOrchestratorStatus
  resumePhase : UpdateOrchestratorPhase
  resumeCalled : Bool
  discardAttempted : Bool
  candidateBoot : Bool
  previousBootFailsafeRequested : Bool

/-- `InitialResult` -/
def UpdateRecoveryExecutorResult.initial : UpdateRecoveryExecutorResult where
  status := .invalidArgument
  loadStatus := .error .invalidArgument
  discardStatus := .error .invalidArgument
  resumeStatus := .invalidArgument
  resumePhase := .none
  resumeCalled := false
  discardAttempted := false
  candidateBoot := false
  previousBootFailsafeRequested := false

/-- A call on the volume that returns, or is cut. -/
abbrev BootProc (σ α : Type) := Proc Empty σ Volume α

/-- What the executor is built with, `none` for a null pointer: the store, the
`ResumeAfterBoot` of the orchestrator, the answer of `RequestPreviousBootFailSafe`
and that of the candidate probe, and whether there is room for the release. -/
structure UpdateRecoveryExecutor where
  requestStore : Option UpdateTransactionRequestStore
  orchestrator : Option (AuthenticatedUpdateRequest → UpdateOrchestratorWorkspace →
    BootProc Unit UpdateOrchestratorResult)
  reboot : Option Bool
  runningBoard : BoardFamily
  requestBuffers : UpdateTransactionRequestStore.PersistedUpdateRequestBuffers
  orchestratorWorkspace : UpdateOrchestratorWorkspace
  releaseDownload : Bool
  candidateBootProbe : Option Bool

namespace UpdateRecoveryExecutor

/-- `BuffersValid` -/
def buffersValid (buffers : UpdateTransactionRequestStore.PersistedUpdateRequestBuffers) : Bool :=
  Payload.all.all fun payload => (buffers payload).getD 0 ≠ 0

/-- `WorkspaceValid` -/
def workspaceValid (workspace : UpdateOrchestratorWorkspace) : Bool :=
  workspace.releaseOffer && kInstallerMinimumIoBufferBytes ≤ workspace.installer.ioBufferSize &&
    4096 ≤ workspace.verificationBufferSize && workspace.recoveryProgress

/-- `MustDeactivate` -/
def mustDeactivate : StoreFailure → Bool
  | .invalidIdentity | .conflict | .fileSystemError | .corrupt | .hashMismatch => true
  | _ => false

variable (executor : UpdateRecoveryExecutor)

/-- `Run` after a `Load` that was rejected for good. -/
def discardRejected (reboot probe : Bool) (result : UpdateRecoveryExecutorResult) :
    BootProc Unit UpdateRecoveryExecutorResult := do
  let discarded ← Proc.attempt (RequestStore.discard kUpdateTransactionRoot)
  let result := { result with discardAttempted := true, discardStatus := discarded }
  match discarded with
  | .error .recoveryProgressFailed => return { result with status := .recoveryProgressFailed }
  | .error _ => return { result with status := .discardFailed }
  | .ok () =>
      let result := { result with candidateBoot := probe }
      if !probe then return { result with status := .rejectedStateDiscarded }
      else
        let result := { result with previousBootFailsafeRequested := true }
        return { result with
          status := if reboot then .previousBootFailSafeRequested else .previousBootFailSafeFailed }

/-- `Run` by the status of `Load`: the request to resume with, or how `Run` ends
without it. -/
def afterLoad (reboot probe : Bool) (loaded : Except StoreFailure AuthenticatedUpdateRequest) :
    BootProc Unit (AuthenticatedUpdateRequest ⊕ UpdateRecoveryExecutorResult) :=
  let result :=
    { UpdateRecoveryExecutorResult.initial with loadStatus := loaded.map fun _ => () }
  match loaded with
  | .ok request => return .inl request
  | .error .notFound => return .inr { result with status := .noPendingTransaction }
  | .error .recoveryProgressFailed => return .inr { result with status := .recoveryProgressFailed }
  | .error .workspaceTooSmall => return .inr { result with status := .loadWorkspaceTooSmall }
  | .error failure =>
      if !mustDeactivate failure then return .inr { result with status := .loadFailed }
      else do
        let ended ← discardRejected reboot probe result
        return .inr ended

/-- `Run` up to the call of `ResumeAfterBoot`. -/
def loadOrDiscard (store : UpdateTransactionRequestStore) (reboot probe : Bool) :
    BootProc Unit (AuthenticatedUpdateRequest ⊕ UpdateRecoveryExecutorResult) := do
  let loaded ← Proc.attempt
    (store.load kUpdateTransactionRoot executor.runningBoard executor.requestBuffers)
  afterLoad reboot probe loaded

/-- `Run` with the request it has loaded. -/
def resume (resumeAfterBoot : AuthenticatedUpdateRequest → UpdateOrchestratorWorkspace →
      BootProc Unit UpdateOrchestratorResult) (request : AuthenticatedUpdateRequest) :
    BootProc Unit UpdateRecoveryExecutorResult := do
  let resumed ← resumeAfterBoot request executor.orchestratorWorkspace
  return { UpdateRecoveryExecutorResult.initial with
    status := .resumeFinished
    loadStatus := .ok ()
    resumeStatus := resumed.status
    resumePhase := resumed.phase
    resumeCalled := true
    previousBootFailsafeRequested := resumed.previousBootFailsafeRequested }

/-- `UpdateRecoveryExecutor::Run`; the private state is `has_run_`. -/
def run : BootProc Bool UpdateRecoveryExecutorResult := do
  let hasRun ← Proc.get
  if hasRun then return { UpdateRecoveryExecutorResult.initial with status := .alreadyRun }
  else do
    Proc.modify fun _ => true
    match executor.requestStore, executor.orchestrator, executor.reboot,
        executor.candidateBootProbe with
    | some store, some resumeAfterBoot, some reboot, some probe =>
        if !(isKnownBoardFamily executor.runningBoard && buffersValid executor.requestBuffers &&
            workspaceValid executor.orchestratorWorkspace && executor.releaseDownload) then
          return .initial
        else
          Proc.isolate () do
            match ← executor.loadOrDiscard store reboot probe with
            | .inl request => executor.resume resumeAfterBoot request
            | .inr ended => return ended
    | _, _, _, _ => return .initial

end UpdateRecoveryExecutor

namespace RecoveryExecutor

open UpdateTransactionRequestStore PendingRequest

/-! ## Load, operation by operation -/

/-- What `Load` of an intact request stops with if the operation it has come to
fails: the reads of the record and its progress report, and those of each
payload. -/
def loadErrors : List StoreFailure :=
  [.fileSystemError, .corrupt, .corrupt, .recoveryProgressFailed] ++
    Payload.all.flatMap fun _ => [.fileSystemError, .fileSystemError, .recoveryProgressFailed]

section Load

variable {store : UpdateTransactionRequestStore} {request : AuthenticatedUpdateRequest}
  {release : ValidatedReleaseDownload} {buffers : PersistedUpdateRequestBuffers} {root path : Path}
  {d : Volume}

theorem observes_look : Observes (look path) () d [.fileSystemError] (statOf (d.nodeAt path)) :=
  Observes.orElse StoreFailure.fileSystemError observes_stat

theorem observes_report : Observes report () d [.recoveryProgressFailed] () :=
  Observes.orElse StoreFailure.recoveryProgressFailed observes_barrier

theorem observes_loadPayload {state : RequestState} {which : Payload} {content : Content}
    (hsize : state.size which ≠ 0 ∧ state.size which ≤ which.maximum ∧
      state.size which ≤ (buffers which).getD 0)
    (hjoins : joins root which.fileName = true)
    (hpayload : d.nodeAt (payloadPath root which) = some (.file content))
    (hlength : content.length = state.size which)
    (hhash : store.sha256 content = state.sha256 which) :
    Observes (store.loadPayload root buffers state which) () d
      [.fileSystemError, .fileSystemError, .recoveryProgressFailed] content := by
  have hfile := Volume.fileAt_eq_some_iff.mpr hpayload
  refine (Observes.check hsize).bind ((Observes.check hjoins).bind ?_)
  have hlook : Observes (look (payloadPath root which)) () d _ _ := observes_look
  rw [hpayload] at hlook
  refine hlook.bind ((Observes.check nofun).bind ((Observes.check ⟨rfl, hlength⟩).bind ?_))
  refine ((observes_readFile hfile).orElse StoreFailure.fileSystemError).bind (observes_report.bind ?_)
  exact (Observes.check hhash).bind (Observes.pure content)

/-- `Load` of an intact request. -/
theorem observes_load (hrelease : request.release = some release)
    (haccepted : Accepted request) (hfits : Fits release buffers)
    (hsaved : store.Saved request release d) :
    Observes (store.load request.transactionRoot request.runningBoard buffers) () d loadErrors
      (withoutToken request) := by
  have hpayload := payload_of_requestValid hrelease haccepted.valid
  obtain ⟨hboard, hroot, hid, hold, hnew, hconsent, hreset⟩ :=
    identity_of_requestValid hrelease haccepted.valid
  have hsize : ∀ which, (store.stateOf request release).size which < 2 ^ 32 := fun which =>
    Nat.lt_of_le_of_lt (hpayload which).2 (maximum_lt which)
  have hparse : RequestState.parse request.runningBoard (store.stateOf request release).encode =
      some (store.stateOf request release) := RequestState.parse_encode hsize hreset rfl
  have hfile := Volume.fileAt_eq_some_iff.mpr hsaved.record
  have hlength := RequestState.length_encode (store.stateOf request release)
  have hlook : Observes (look (recordPath request.transactionRoot .active)) () d _ _ :=
    observes_look
  have hstat : Observes (Proc.orElse StoreFailure.corrupt
      (stat (recordPath request.transactionRoot .active))) () d [.corrupt] _ :=
    observes_stat.orElse StoreFailure.corrupt
  rw [hsaved.record] at hlook hstat
  have hread : Observes (readState (recordPath request.transactionRoot .active)) () d
      [.corrupt, .corrupt, .recoveryProgressFailed] (store.stateOf request release).encode :=
    hstat.bind ((Observes.check ⟨rfl, hlength⟩).bind
      (((observes_readFile hfile).orElse StoreFailure.corrupt).bind (observes_report.bind (Observes.pure _))))
  have hturn : ∀ which, Observes (store.loadPayload request.transactionRoot buffers
      (store.stateOf request release) which) () d
        [.fileSystemError, .fileSystemError, .recoveryProgressFailed] (release.payload which) := by
    intro which
    obtain ⟨hne, hmaximum⟩ := hpayload which
    obtain ⟨capacity, hcapacity, hle⟩ := hfits which
    have hnonzero : (release.payload which).length ≠ 0 :=
      fun hzero => hne (List.eq_nil_of_length_eq_zero hzero)
    have hroom : (release.payload which).length ≤ (buffers which).getD 0 := by
      rw [hcapacity]
      exact hle
    exact observes_loadPayload ⟨hnonzero, hmaximum, hroom⟩ (haccepted.joined.2 which)
      (hsaved.payload which) rfl rfl
  have hstate : Observes (store.loadState request.transactionRoot buffers
      (store.stateOf request release)) () d
        (Payload.all.flatMap fun _ => [.fileSystemError, .fileSystemError, .recoveryProgressFailed])
        (withoutToken request) := by
    have hsame : loadedRequest request.transactionRoot (store.stateOf request release)
        release.installedBuildInfo release.githubResponse release.manifest release.signature =
          withoutToken request := by
      cases request
      cases hrelease
      rfl
    rw [← hsame]
    refine (Observes.check rfl).bind ((hturn .installed).bind ((hturn .gitHub).bind ?_))
    refine (hturn .manifest).bind ((hturn .signature).bind ?_)
    exact (Observes.check ⟨hold, hnew, hid, hconsent⟩).bind (Observes.pure _)
  refine (Observes.check ⟨hroot, nofun, hboard, hfits.all_isSome⟩).bind ?_
  refine (Observes.check (haccepted.joined.1 .active)).bind (hlook.bind ?_)
  refine (Observes.check nofun).bind ((Observes.check ⟨rfl, hlength⟩).bind (hread.bind ?_))
  rw [hparse]
  exact hstate

end Load

/-! ## Run without ResumeAfterBoot -/

/-- An operation of `Load` other than a progress report fails, and the `Discard`
that follows removes the record: no other one is beside it, and no operation up
to the removal fails or is cut. -/
def Orphans (v : Volume) (faults : List Fault) : Prop :=
  ∃ failure rest, firstFailure loadErrors faults = some (failure, rest) ∧
    failure ≠ .recoveryProgressFailed ∧ OnlyActive kUpdateTransactionRoot v ∧ ¬Spares rest

/-- What is on the volume of a boot: an intact request, and an executor with
everything it needs to resume it. -/
structure Bootable (executor : UpdateRecoveryExecutor) (store : UpdateTransactionRequestStore)
    (resumeAfterBoot : AuthenticatedUpdateRequest → UpdateOrchestratorWorkspace →
      BootProc Unit UpdateOrchestratorResult) (reboot probe : Bool)
    (request : AuthenticatedUpdateRequest) (release : ValidatedReleaseDownload) : Prop where
  requestStore : executor.requestStore = some store
  orchestrator : executor.orchestrator = some resumeAfterBoot
  reboot : executor.reboot = some reboot
  probe : executor.candidateBootProbe = some probe
  workspace : UpdateRecoveryExecutor.workspaceValid executor.orchestratorWorkspace = true
  download : executor.releaseDownload = true
  buffers : Fits release executor.requestBuffers
  board : request.runningBoard = executor.runningBoard
  root : request.transactionRoot = kUpdateTransactionRoot
  release : request.release = some release
  accepted : Accepted request

section Run

variable {executor : UpdateRecoveryExecutor} {store : UpdateTransactionRequestStore}
  {resumeAfterBoot : AuthenticatedUpdateRequest → UpdateOrchestratorWorkspace →
    BootProc Unit UpdateOrchestratorResult} {reboot probe : Bool}
  {request : AuthenticatedUpdateRequest} {release : ValidatedReleaseDownload} {v w : Volume}
  {faults : List Fault}

/-- `Run` ends, or is cut, without a call of `ResumeAfterBoot`. -/
def EndsWithout (executor : UpdateRecoveryExecutor) (store : UpdateTransactionRequestStore)
    (reboot probe : Bool) (v : Volume) (faults : List Fault) : Prop :=
  ∀ request,
    (executor.loadOrDiscard store reboot probe () ⟨v, faults⟩).result ≠ some (.inl request)

/-- The volume after `Discard` is the one after a rejected `Load`. -/
theorem disk_discardRejected (result : UpdateRecoveryExecutorResult) :
    (UpdateRecoveryExecutor.discardRejected reboot probe result () ⟨v, faults⟩).disk =
      (RequestStore.discard kUpdateTransactionRoot () ⟨v, faults⟩).disk := by
  unfold UpdateRecoveryExecutor.discardRejected
  change (Proc.bind (Proc.attempt _) _ () _).disk = _
  unfold Proc.bind Proc.attempt
  cases RequestStore.discard kUpdateTransactionRoot () ⟨v, faults⟩ with
  | done a s w =>
      dsimp only
      cases probe <;> rfl
  | error e s w => cases e <;> rfl
  | cut d => rfl

/-- A failed operation of `Load` other than a progress report has the request
discarded, and `ResumeAfterBoot` is not called. -/
theorem run_afterLoad {failure : StoreFailure} {rest : List Fault}
    (hfirst : firstFailure loadErrors faults = some (failure, rest)) :
    ((UpdateRecoveryExecutor.afterLoad reboot probe (.error failure) () ⟨v, rest⟩).disk =
      if failure = .recoveryProgressFailed then v
      else (RequestStore.discard kUpdateTransactionRoot () ⟨v, rest⟩).disk) ∧
    ∀ request, (UpdateRecoveryExecutor.afterLoad reboot probe (.error failure) ()
      ⟨v, rest⟩).result ≠ some (.inl request) := by
  have herrors : ∀ e ∈ loadErrors, e = .recoveryProgressFailed ∨ e = .fileSystemError ∨
      e = .corrupt := by decide
  have hdiscard : ∀ result : UpdateRecoveryExecutorResult,
      let ended : BootProc Unit (AuthenticatedUpdateRequest ⊕ UpdateRecoveryExecutorResult) :=
        UpdateRecoveryExecutor.discardRejected reboot probe result >>= fun ended =>
          return Sum.inr ended
      (ended () ⟨v, rest⟩).disk = (RequestStore.discard kUpdateTransactionRoot () ⟨v, rest⟩).disk ∧
        ∀ request, (ended () ⟨v, rest⟩).result ≠ some (.inl request) := by
    intro result
    rw [← @disk_discardRejected reboot probe v rest result]
    change (Proc.bind _ _ () _).disk = _ ∧ ∀ request, (Proc.bind _ _ () _).result ≠ _
    unfold Proc.bind
    cases UpdateRecoveryExecutor.discardRejected reboot probe result () ⟨v, rest⟩ with
    | done ended s w => exact ⟨rfl, nofun⟩
    | error e s w => exact e.elim
    | cut d => exact ⟨rfl, nofun⟩
  rcases herrors failure (mem_of_firstFailure hfirst) with rfl | rfl | rfl
  · exact ⟨rfl, nofun⟩
  · exact hdiscard _
  · exact hdiscard _

/-- `Load` at boot. -/
theorem observes_bootLoad
    (hboot : Bootable executor store resumeAfterBoot reboot probe request release)
    (hsaved : store.Saved request release v) :
    Observes (store.load kUpdateTransactionRoot executor.runningBoard executor.requestBuffers) () v
      loadErrors (withoutToken request) := by
  rw [← hboot.root, ← hboot.board]
  exact observes_load hboot.release hboot.accepted hboot.buffers hsaved

/-- `Run` of an executor with everything it needs. -/
theorem run_eq (hboot : Bootable executor store resumeAfterBoot reboot probe request release) :
    executor.run false ⟨v, faults⟩ =
      Proc.isolate () (executor.loadOrDiscard store reboot probe >>= fun ended =>
        match ended with
        | .inl request => executor.resume resumeAfterBoot request
        | .inr ended => return ended) true ⟨v, faults⟩ := by
  obtain ⟨hboard, -⟩ := identity_of_requestValid hboot.release hboot.accepted.valid
  have hbuffers : UpdateRecoveryExecutor.buffersValid executor.requestBuffers = true := by
    refine List.all_eq_true.mpr fun which _ => decide_eq_true ?_
    obtain ⟨hne, -⟩ := payload_of_requestValid hboot.release hboot.accepted.valid which
    obtain ⟨capacity, hcapacity, hle⟩ := hboot.buffers which
    have hpos := List.length_pos_of_ne_nil hne
    rw [hcapacity]
    dsimp only [Option.getD_some]
    omega
  have hvalid : (!(isKnownBoardFamily executor.runningBoard &&
      UpdateRecoveryExecutor.buffersValid executor.requestBuffers &&
      UpdateRecoveryExecutor.workspaceValid executor.orchestratorWorkspace &&
      executor.releaseDownload)) = false := by
    rw [← hboot.board, hboard, hbuffers, hboot.workspace, hboot.download]
    rfl
  unfold UpdateRecoveryExecutor.run
  rw [hboot.requestStore, hboot.orchestrator, hboot.reboot, hboot.probe, hvalid]
  rfl

/-- How the part of `Run` without `ResumeAfterBoot` goes: the request is loaded,
or power is lost, or an operation of `Load` fails and decides. -/
theorem loadOrDiscard_cases
    (hboot : Bootable executor store resumeAfterBoot reboot probe request release)
    (hsaved : store.Saved request release v) (faults : List Fault) :
    (firstFailure loadErrors faults = none ∧
      (executor.loadOrDiscard store reboot probe () ⟨v, faults⟩).disk = v) ∨
    ∃ failure rest, firstFailure loadErrors faults = some (failure, rest) ∧
      (executor.loadOrDiscard store reboot probe () ⟨v, faults⟩).disk =
        (if failure = .recoveryProgressFailed then v
          else (RequestStore.discard kUpdateTransactionRoot () ⟨v, rest⟩).disk) ∧
      EndsWithout executor store reboot probe v faults := by
  have hload := observes_bootLoad hboot hsaved faults
  unfold EndsWithout UpdateRecoveryExecutor.loadOrDiscard
  rw [Proc.attempt_bind, hload]
  rcases observed_cases () v loadErrors (withoutToken request) faults with
    ⟨failure, rest, hfirst, hend⟩ | ⟨hfirst, ⟨rest, hend⟩ | hend⟩
  · refine Or.inr ⟨failure, rest, hfirst, ?_⟩
    rw [hend]
    exact run_afterLoad hfirst
  · rw [hend]
    exact Or.inl ⟨hfirst, rfl⟩
  · rw [hend]
    exact Or.inl ⟨hfirst, rfl⟩

/-- The volume after a `Run` without `ResumeAfterBoot`. -/
theorem disk_run (hboot : Bootable executor store resumeAfterBoot reboot probe request release)
    (hends : EndsWithout executor store reboot probe v faults) :
    (executor.run false ⟨v, faults⟩).disk =
      (executor.loadOrDiscard store reboot probe () ⟨v, faults⟩).disk := by
  rw [run_eq hboot]
  change (Proc.isolate () (Proc.bind _ _) true _).disk = _
  unfold Proc.isolate Proc.bind
  unfold EndsWithout at hends
  cases hout : executor.loadOrDiscard store reboot probe () ⟨v, faults⟩ with
  | done ended s w =>
      cases ended with
      | inl request =>
          rw [hout] at hends
          exact absurd rfl (hends request)
      | inr ended => rfl
  | error e s w => exact e.elim
  | cut d => rfl

/-- The second volume comes after the first in a series of boots in which `Run`
ends without `ResumeAfterBoot`, each under its own faults, none of which orphan
the request. -/
inductive FailingBoots (executor : UpdateRecoveryExecutor) (store : UpdateTransactionRequestStore)
    (reboot probe : Bool) (v : Volume) : Volume → Prop
  | refl : FailingBoots executor store reboot probe v v
  | boot {w : Volume} (faults : List Fault) (h : FailingBoots executor store reboot probe v w)
      (hends : EndsWithout executor store reboot probe w faults) (hspared : ¬Orphans w faults) :
      FailingBoots executor store reboot probe v (executor.run false ⟨w, faults⟩).disk

/-- What `Run` without `ResumeAfterBoot` makes of the volume of an intact
request. -/
theorem run_decides (hboot : Bootable executor store resumeAfterBoot reboot probe request release)
    (hsaved : store.Saved request release v)
    (hends : EndsWithout executor store reboot probe v faults) :
    ¬Orphans v faults ∧ (executor.run false ⟨v, faults⟩).disk = v ∨
      Orphans v faults ∧ (executor.run false ⟨v, faults⟩).disk.nodeAt
        (recordPath kUpdateTransactionRoot .active) = none := by
  obtain ⟨-, hbounded, -⟩ := identity_of_requestValid hboot.release hboot.accepted.valid
  have hroot : Discardable kUpdateTransactionRoot := by
    rw [← hboot.root]
    exact ⟨hbounded, hboot.accepted.joined.1⟩
  have hfile : v.fileAt (recordPath kUpdateTransactionRoot .active) =
      some (store.stateOf request release).encode := by
    rw [Volume.fileAt_eq_some_iff, ← hboot.root]
    exact hsaved.record
  rw [disk_run hboot hends]
  rcases loadOrDiscard_cases hboot hsaved faults with
    ⟨hfirst, hdisk⟩ | ⟨failure, rest, hfirst, hdisk, -⟩
  · refine Or.inl ⟨?_, hdisk⟩
    rintro ⟨failure, rest, hsome, -⟩
    rw [hfirst] at hsome
    cases hsome
  rw [hdisk]
  have horphans : Orphans v faults ↔ failure ≠ .recoveryProgressFailed ∧
      OnlyActive kUpdateTransactionRoot v ∧ ¬Spares rest := by
    constructor
    · rintro ⟨failure', rest', hfirst', hcond⟩
      rw [hfirst] at hfirst'
      cases hfirst'
      exact hcond
    · exact fun hcond => ⟨failure, rest, hfirst, hcond⟩
  rw [horphans]
  by_cases hread : failure = .recoveryProgressFailed
  · rw [if_pos hread]
    exact Or.inl ⟨fun hcond => hcond.1 hread, rfl⟩
  rw [if_neg hread]
  by_cases honly : OnlyActive kUpdateTransactionRoot v
  · rcases discard_decides hroot honly hfile rest with ⟨hspares, hsame⟩ | ⟨hspares, hgone⟩
    · exact Or.inl ⟨fun hcond => hcond.2.2 hspares, hsame⟩
    · exact Or.inr ⟨⟨hread, honly, hspares⟩, hgone⟩
  · exact Or.inl ⟨fun hcond => honly hcond.2.1, discard_conflict hroot honly rest⟩

/-- With an intact request on the volume, `Run` on its own path leaves the record
as it is exactly when its faults do not orphan the request.  After any number of
such boots the volume is as it was, and a boot in which the reads of `Load`
succeed resumes with the request. -/
theorem run_keeps_pending_iff
    (hboot : Bootable executor store resumeAfterBoot reboot probe request release)
    (hsaved : store.Saved request release v) :
    (∀ faults, (EndsWithout executor store reboot probe v faults →
        (executor.run false ⟨v, faults⟩).disk.nodeAt (recordPath kUpdateTransactionRoot .active) =
          v.nodeAt (recordPath kUpdateTransactionRoot .active)) ↔ ¬Orphans v faults) ∧
      ∀ w, FailingBoots executor store reboot probe v w → w = v ∧
        ∀ faults, (∀ f ∈ faults.take loadErrors.length, f = .ok) →
          executor.run false ⟨w, faults⟩ =
            Proc.isolate () (executor.resume resumeAfterBoot (withoutToken request)) true
              ⟨w, faults.drop loadErrors.length⟩ := by
  refine ⟨fun faults => ⟨fun hkept horphans => ?_, fun hspared hends => ?_⟩, fun w hboots => ?_⟩
  · have hends : EndsWithout executor store reboot probe v faults := by
      rcases loadOrDiscard_cases hboot hsaved faults with
        ⟨hfirst, -⟩ | ⟨-, -, -, -, hends⟩
      · obtain ⟨failure, rest, hsome, -⟩ := horphans
        rw [hfirst] at hsome
        cases hsome
      · exact hends
    rcases run_decides hboot hsaved hends with ⟨hspared, -⟩ | ⟨-, hgone⟩
    · exact hspared horphans
    · have hrecord := hsaved.record
      rw [hboot.root] at hrecord
      exact absurd ((hgone.symm.trans (hkept hends)).trans hrecord) nofun
  · rcases run_decides hboot hsaved hends with ⟨-, hsame⟩ | ⟨horphans, -⟩
    · rw [hsame]
    · exact absurd horphans hspared
  · have hsame : w = v := by
      induction hboots with
      | refl => rfl
      | boot faults _ hends hspared ih =>
          subst ih
          rcases run_decides hboot hsaved hends with ⟨-, hsame⟩ | ⟨horphans, -⟩
          · exact hsame
          · exact absurd horphans hspared
    refine ⟨hsame, fun faults hok => ?_⟩
    subst hsame
    rw [run_eq hboot]
    change Proc.isolate () (Proc.bind _ _) true _ = _
    have hload := observes_bootLoad hboot hsaved faults
    rw [observed_of_ok hok] at hload
    unfold Proc.isolate Proc.bind UpdateRecoveryExecutor.loadOrDiscard
    rw [Proc.attempt_bind, hload]
    rfl

end Run

/-! ## A small boot -/

open UpdateTransactionRequestStore (updaterStore smallStoreRequest)

/-- An executor on the board of the small request, for a boot that is no
candidate. -/
def smallExecutor : UpdateRecoveryExecutor where
  requestStore := some updaterStore
  orchestrator := some fun _ _ => return .initial
  reboot := some true
  runningBoard := .pi5Pi500
  requestBuffers := fun _ => some 1
  orchestratorWorkspace := { smallWorkspace with recoveryProgress := true }
  releaseDownload := true
  candidateBootProbe := some false

theorem bootable_smallExecutor : Bootable smallExecutor updaterStore (fun _ _ => return .initial)
    true false smallStoreRequest smallDownload where
  requestStore := rfl
  orchestrator := rfl
  reboot := rfl
  probe := rfl
  workspace := rfl
  download := rfl
  buffers := fun which => ⟨1, rfl, by cases which <;> decide⟩
  board := rfl
  root := rfl
  release := rfl
  accepted := saved_pendingVolume.2

/-- A boot whose `Load` and `Discard` both fail at their first `Stat` leaves the volume as it is,
and the boot after it resumes with the small request. -/
theorem run_keeps_pending_iff_small :
    smallExecutor.run false ⟨(smallExecutor.run false ⟨pendingVolume, [.fail 0, .fail 0]⟩).disk,
        []⟩ =
      Proc.isolate () (smallExecutor.resume (fun _ _ => return .initial)
        (withoutToken smallStoreRequest)) true
        ⟨(smallExecutor.run false ⟨pendingVolume, [.fail 0, .fail 0]⟩).disk, []⟩ := by
  have hends : EndsWithout smallExecutor updaterStore true false pendingVolume
      [.fail 0, .fail 0] := by
    rcases loadOrDiscard_cases bootable_smallExecutor saved_pendingVolume.1 [.fail 0, .fail 0] with
      ⟨hfirst, -⟩ | ⟨-, -, -, -, hends⟩
    · cases hfirst
    · exact hends
  have hspared : ¬Orphans pendingVolume [.fail 0, .fail 0] := by
    rintro ⟨failure, rest, hfirst, -, -, hrest⟩
    cases hfirst
    exact hrest trivial
  exact ((run_keeps_pending_iff bootable_smallExecutor saved_pendingVolume.1).2 _
    (.boot _ .refl hends hspared)).2 [] nofun

def smallFiles : List SmallFile := [⟨["a.txt"], .managedReplace, [1]⟩]

/-- The installer of the small file. -/
def smallInstallation : Env := smallEnv smallFiles [] idleBackend

/-- The store and the installer on the volume. -/
abbrev storeAndInstaller : Component Operation Answer Volume :=
  (requestStore updaterStore).beside (installer smallInstallation)

/-- A `Start` that stages the small request and arms its candidate. -/
def armedStart : Option (UpdateOrchestratorResult × Volume × Past) :=
  runOnDisk storeAndInstaller (fun _ => []) (obliging smallOffer (smallArchive smallFiles) [])
    (start smallPolicy smallWorkspace everyCollaborator smallStoreRequest) .empty []

/-- What the boot after it finds and does, if its first `Stat` fails. -/
def OrphanedBy (v : Volume) : Prop :=
  v.nodeAt (recordPath kUpdateTransactionRoot .active) =
      some (.file (updaterStore.stateOf smallStoreRequest smallDownload).encode) ∧
    (∀ which ∈ Payload.all, v.nodeAt (payloadPath kUpdateTransactionRoot which) =
      some (.file (smallDownload.payload which))) ∧
    (smallInstallation.readJournal () ⟨v, []⟩).result.map (fun read =>
        (read.1.status, read.2.transactionId, read.2.state)) =
      some (.ok .ok, smallStoreRequest.transactionId, .candidatePending) ∧
    (smallExecutor.run false ⟨v, [.fail 0]⟩).disk.nodeAt
      (recordPath kUpdateTransactionRoot .active) = none ∧
    (smallExecutor.run false ⟨(smallExecutor.run false ⟨v, [.fail 0]⟩).disk, []⟩).result.map
      (·.status) = some .noPendingTransaction

instance (v : Volume) : Decidable (OrphanedBy v) := inferInstanceAs (Decidable (_ ∧ _))

/-- `Start` arms a candidate; at the next boot one `Stat` fails, and `Run` removes
the record of the transaction whose journal says CANDIDATE_PENDING.  No later
boot finds it. -/
theorem run_orphans_armed :
    ∃ result v past,
      Reaches (onDisk storeAndInstaller (fun _ => [])
          fun _ => LeavesFiles kUpdateTransactionRoot)
        (some (start smallPolicy smallWorkspace everyCollaborator smallStoreRequest), (.empty, []))
        (some (.pure result), (v, past)) ∧
      result.status = .candidateRebootRequested ∧
      updaterStore.Saved smallStoreRequest smallDownload v ∧ OrphanedBy v := by
  have hend : armedStart.any (fun run =>
      decide (run.1.status = .candidateRebootRequested ∧ OrphanedBy run.2.1)) = true := by
    decide +kernel
  rw [Option.any_eq_true] at hend
  obtain ⟨⟨result, v, past⟩, hrun, hfacts⟩ := hend
  obtain ⟨hstatus, horphaned⟩ := of_decide_eq_true hfacts
  refine ⟨result, v, past, ?_, hstatus, ⟨fun which => ?_, horphaned.1⟩, horphaned⟩
  · exact reaches_runOnDisk (fun _ v => FrameRel.refl v) hrun
  · exact horphaned.2.1 which (Payload.mem_all which)

end RecoveryExecutor

end BmxUpdate
