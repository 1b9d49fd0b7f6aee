import BmxUpdate.Orchestrator.Flow
import BmxUpdate.RequestStore.RoundTrip

/-!
# When the orchestrator reboots and commits

Over any collaborators, `Start` and `ResumeAfterBoot` ask for a reboot and for a
commit only in the histories `Permitted` describes: the previous installation
after the persisted request is off the boot path, the candidate in `Start` after
it was persisted, staged and armed, a commit of a candidate proved healthy, and
no reboot after an accepted one or after a rollback that was not accepted.

Every step of the two functions that is none of a persist, a stage, a rollback, a
reboot request or a commit is `Plain`, and plain steps keep all that is known of a
history.
-/

namespace BmxUpdate

open Wire Volumes Interaction

namespace RebootSafety

/-! ## Events -/

/-- A call and its answer. -/
abbrev Call := Event Operation Answer

/-- The calls of a run so far, newest first. -/
abbrev Past := History Operation Answer

def IsPersist : Call → Prop
  | ⟨.persist _, _⟩ => True
  | _ => False

def IsRollback : Call → Prop
  | ⟨.rollback _, _⟩ => True
  | _ => False

/-- The request was persisted. -/
def Persists : Call → Prop
  | ⟨.persist _, status⟩ => status = UpdateRequestPersistenceStatus.ok
  | _ => False

/-- The persisted request was taken off the boot path. -/
def Withdraws : Call → Prop
  | ⟨.deactivatePersisted, status⟩ => status = UpdateRequestPersistenceStatus.ok
  | ⟨.discardPersisted _, status⟩ => status = UpdateRequestPersistenceStatus.ok
  | _ => False

def Stages : Call → Prop
  | ⟨.stage _, report⟩ => stageAccepted (InstallerReport.status report) = true
  | _ => False

def Arms : Call → Prop
  | ⟨.armCandidate _, report⟩ => armAccepted (InstallerReport.status report) = true
  | _ => False

/-- A rollback that was not accepted. -/
def FailsRollback : Call → Prop
  | ⟨.rollback _, report⟩ => rollbackAccepted (InstallerReport.status report) = false
  | _ => False

/-- Whether a call is an accepted reboot request. -/
def rebootAccepted : Call → Bool
  | ⟨.requestReboot _ _, accepted⟩ => accepted
  | ⟨.requestPreviousBootFailSafe, accepted⟩ => accepted
  | _ => false

/-- The release was revalidated, with this manifest. -/
def Revalidates (manifest : OfferManifest) : Call → Prop
  | ⟨.revalidate _ _, (status, offer)⟩ => status = .ok ∧ offer.manifest = manifest
  | _ => False

/-- The health probe found the candidate of this manifest healthy. -/
def ProvesHealthy (manifest : OfferManifest) : Call → Prop
  | ⟨.collect _ asked, (available, evidence)⟩ =>
      asked = manifest ∧ available = true ∧ healthEvidenceBound evidence manifest = true ∧
        evaluateCandidateHealth evidence = .healthy
  | _ => False

/-- `MarkCandidateHealthy` of this request was accepted. -/
def MarksHealthy (request : InstallerRequest) : Call → Prop
  | ⟨.markCandidateHealthy asked, report⟩ =>
      asked = request ∧ healthMarkAccepted (InstallerReport.status report) = true
  | _ => False

/-! ## Histories -/

/-- The request was withdrawn and no persist came after that. -/
def RequestWithdrawn : Past → Prop :=
  Since (fun call => ¬IsPersist call) fun call _ => Withdraws call

/-- The request was persisted, with no rollback since. -/
def CandidatePersisted : Past → Prop :=
  Since (fun call => ¬IsRollback call) fun call _ => Persists call

/-- The candidate was persisted and then staged, with no rollback since. -/
def CandidateStaged : Past → Prop :=
  Since (fun call => ¬IsRollback call) fun call past => Stages call ∧ CandidatePersisted past

/-- The candidate was persisted, staged and armed, with no rollback since. -/
def CandidateArmed : Past → Prop :=
  Since (fun call => ¬IsRollback call) fun call past => Arms call ∧ CandidateStaged past

def ManifestRevalidated (manifest : OfferManifest) : Past → Prop :=
  Once fun call _ => Revalidates manifest call

/-- The candidate was found healthy by evidence bound to the revalidated
manifest. -/
def CandidateHealthy (manifest : OfferManifest) : Past → Prop :=
  Once fun call past => ProvesHealthy manifest call ∧ ManifestRevalidated manifest past

/-- The candidate of this request was found healthy and then marked healthy. -/
def CandidateCertified (request : InstallerRequest) : Past → Prop :=
  Once fun call past => MarksHealthy request call ∧
    ∃ manifest : OfferManifest, request.manifest = manifest.toReleaseManifest ∧
      CandidateHealthy manifest past

/-- No reboot was accepted and every rollback was. -/
structure RebootOpen (past : Past) : Prop where
  notRebooted : ¬Once (fun call _ => rebootAccepted call = true) past
  notRefused : ¬Once (fun call _ => FailsRollback call) past

/-- The two entry points that reboot. -/
inductive Entry where
  | start
  | resumeAfterBoot
deriving DecidableEq, Repr

/-- What must have happened in a run before it may perform an operation. -/
def Permitted (entry : Entry) (past : Past) : Operation → Prop
  | .requestReboot .previousInstallation _ => RequestWithdrawn past ∧ RebootOpen past
  | .requestPreviousBootFailSafe => RequestWithdrawn past ∧ RebootOpen past
  | .requestReboot .oneShotCandidate _ =>
      entry = .start ∧ CandidateArmed past ∧ RebootOpen past
  | .commit request => CandidateCertified request past
  | _ => True

/-- A part of the orchestrator that performs permitted operations only. -/
abbrev Safe {α : Type} (entry : Entry) (flow : Flow α) (past : Past) : Prop :=
  flow.Guarded recording (Permitted entry) (fun _ _ => True) past

/-! ## Plain operations -/

/-- Neither a persist, a stage, a rollback, a reboot request nor a commit. -/
def Plain : Operation → Prop
  | .persist _ | .stage _ | .rollback _ | .requestReboot _ _ | .requestPreviousBootFailSafe
  | .commit _ => False
  | _ => True

section Plain

variable {entry : Entry} {op : Operation} {call : Call} {past past' : Past} {α : Type}

theorem permitted_of_plain (past : Past) (op : Operation) (hop : Plain op) :
    Permitted entry past op := by
  cases op <;> first | exact hop.elim | exact trivial

theorem not_isPersist_of_plain (call : Call) (hop : Plain call.op) : ¬IsPersist call := by
  obtain ⟨op, answer⟩ := call
  cases op <;> first | exact hop.elim | exact id

theorem not_isRollback_of_plain (call : Call) (hop : Plain call.op) : ¬IsRollback call := by
  obtain ⟨op, answer⟩ := call
  cases op <;> first | exact hop.elim | exact id

theorem not_rebootAccepted_of_plain (call : Call) (_ : Past) (hop : Plain call.op) :
    ¬rebootAccepted call = true := by
  obtain ⟨op, answer⟩ := call
  cases op <;> first | exact hop.elim | exact Bool.false_ne_true

theorem not_failsRollback_of_plain (call : Call) (_ : Past) (hop : Plain call.op) :
    ¬FailsRollback call := by
  obtain ⟨op, answer⟩ := call
  cases op <;> first | exact hop.elim | exact id

/-! Plain operations keep what is known of a history. -/

theorem RebootOpen.plain (hopen : RebootOpen past) (hext : Extends Plain past past') :
    RebootOpen past' where
  notRebooted := hext.not_once not_rebootAccepted_of_plain hopen.notRebooted
  notRefused := hext.not_once not_failsRollback_of_plain hopen.notRefused

theorem RequestWithdrawn.plain (h : RequestWithdrawn past) (hext : Extends Plain past past') :
    RequestWithdrawn past' := hext.since not_isPersist_of_plain h

theorem CandidatePersisted.plain (h : CandidatePersisted past)
    (hext : Extends Plain past past') : CandidatePersisted past' :=
  hext.since not_isRollback_of_plain h

theorem CandidateStaged.plain (h : CandidateStaged past) (hext : Extends Plain past past') :
    CandidateStaged past' := hext.since not_isRollback_of_plain h

theorem CandidateArmed.plain (h : CandidateArmed past) (hext : Extends Plain past past') :
    CandidateArmed past' := hext.since not_isRollback_of_plain h

theorem ManifestRevalidated.plain {manifest : OfferManifest}
    (h : ManifestRevalidated manifest past) (hext : Extends Plain past past') :
    ManifestRevalidated manifest past' := hext.since (fun _ _ => trivial) h

theorem CandidateHealthy.plain {manifest : OfferManifest} (h : CandidateHealthy manifest past)
    (hext : Extends Plain past past') : CandidateHealthy manifest past' :=
  hext.since (fun _ _ => trivial) h

theorem RebootOpen.nil : RebootOpen [] where
  notRebooted := id
  notRefused := id

/-- A call that neither reboots nor fails a rollback leaves reboots open. -/
theorem RebootOpen.cons (hopen : RebootOpen past) (hreboots : ¬rebootAccepted call = true)
    (hfails : ¬FailsRollback call) : RebootOpen (call :: past) where
  notRebooted := not_once_cons hreboots hopen.notRebooted
  notRefused := not_once_cons hfails hopen.notRefused

theorem extends_ask (op : Operation) (hop : Plain op) (answer : Answer op) (past : Past) :
    Extends Plain past (⟨op, answer⟩ :: past) :=
  .cons hop (.refl _)

/-! ## Steps -/

/-- One call, then the rest. -/
theorem safe_ask (op : Operation) {k : Answer op → Flow α} (hop : Permitted entry past op)
    (hk : ∀ answer, Safe entry (k answer) (⟨op, answer⟩ :: past)) :
    Safe entry (ask op >>= k) past := by
  refine Program.guarded_ask hop ?_
  rintro answer _ rfl
  exact hk answer

/-- A program of plain operations, then the rest. -/
theorem safe_plain {β : Type} {p : Flow β} {k : β → Flow α} (hp : p.Only Plain)
    (hk : ∀ b past', Extends Plain past past' → Safe entry (k b) past') :
    Safe entry (p >>= k) past :=
  Program.guarded_bind (Program.guarded_of_only hp permitted_of_plain hk)

/-- A program of plain operations to the end. -/
theorem safe_of_only {p : Flow α} (hp : p.Only Plain) : Safe entry p past :=
  Program.guarded_of_only hp permitted_of_plain fun _ _ _ => trivial

theorem safe_return (a : α) : Safe entry (pure a : Flow α) past := trivial

end Plain

/-! ## Plain parts -/

section PlainParts

variable {workspace : UpdateOrchestratorWorkspace}

theorem only_report (kind : UpdateRecoveryProgressKind) :
    (reportProgress workspace kind).Only Plain := by
  unfold reportProgress
  split
  · exact Program.only_ask trivial
  · exact Program.only_pure true

theorem only_candidateCheckpoint : (candidateCheckpoint workspace).Only Plain := by
  refine Program.only_bind (only_report _) fun staged => ?_
  split
  · exact only_report _
  · exact Program.only_pure _

theorem only_discardRequest (binding : AuthenticatedUpdateBinding)
    (result : UpdateOrchestratorResult) : (discardRequest binding result).Only Plain :=
  Program.only_bind (Program.only_ask trivial) fun _ => Program.only_pure _

theorem only_cleanupRolledBackTransaction (installerRequest : InstallerRequest)
    (binding : AuthenticatedUpdateBinding) (result : UpdateOrchestratorResult) :
    (cleanupRolledBackTransaction installerRequest binding result).Only Plain := by
  refine Program.only_bind (Program.only_ask trivial) fun storage => ?_
  split
  · exact Program.only_pure _
  refine Program.only_bind (Program.only_ask trivial) fun prepared => ?_
  split
  · exact Program.only_pure _
  refine Program.only_bind (Program.only_ask trivial) fun retired => ?_
  split
  · exact Program.only_pure _
  · exact only_discardRequest _ _

theorem only_cleanupTransaction (binding : AuthenticatedUpdateBinding)
    (result : UpdateOrchestratorResult) : (cleanupTransaction binding result).Only Plain := by
  refine Program.only_bind (Program.only_ask trivial) fun storage => ?_
  split
  · exact Program.only_pure _
  refine Program.only_bind (Program.only_ask trivial) fun prepared => ?_
  split
  · exact Program.only_pure _
  · exact only_discardRequest _ _

theorem only_retainCommittedTransaction (binding : AuthenticatedUpdateBinding)
    (result : UpdateOrchestratorResult) :
    (retainCommittedTransaction binding result).Only Plain := by
  refine Program.only_bind (Program.only_ask trivial) fun storage => ?_
  split
  · exact Program.only_pure _
  refine Program.only_bind (Program.only_ask trivial) fun prepared => ?_
  split
  · exact Program.only_pure _
  · exact Program.only_bind (Program.only_ask trivial) fun _ => Program.only_pure _

theorem only_discardDownloadedRequest (binding : AuthenticatedUpdateBinding)
    (result : UpdateOrchestratorResult) :
    (discardDownloadedRequest binding result).Only Plain := by
  refine Program.only_bind (Program.only_ask trivial) fun storage => ?_
  split
  · exact Program.only_pure _
  · exact only_discardRequest _ _

theorem only_abortDownload (failure : UpdateOrchestratorStatus)
    (binding : AuthenticatedUpdateBinding) (result : UpdateOrchestratorResult) :
    (abortDownload failure binding result).Only Plain :=
  Program.only_bind
    (Program.only_bind (Program.only_ask trivial) fun _ => only_discardRequest _ _)
    fun _ => Program.only_pure _

theorem only_discardStored (failure : UpdateOrchestratorStatus)
    (binding : AuthenticatedUpdateBinding) (result : UpdateOrchestratorResult) :
    (discardStored failure binding result).Only Plain :=
  Program.only_bind (only_discardDownloadedRequest _ _) fun _ => Program.only_pure _

theorem only_closeAndCleanup (failure : UpdateOrchestratorStatus)
    (binding : AuthenticatedUpdateBinding) (result : UpdateOrchestratorResult) :
    (closeAndCleanup failure binding result).Only Plain :=
  Program.only_bind (Program.only_ask trivial) fun _ =>
    Program.only_bind (only_cleanupTransaction _ _) fun _ => Program.only_pure _

theorem only_cleanupRejected (installerRequest : InstallerRequest)
    (binding : AuthenticatedUpdateBinding) (result : UpdateOrchestratorResult) :
    (cleanupRejected installerRequest binding result).Only Plain := by
  refine Program.only_bind (only_cleanupRolledBackTransaction _ _ _) fun cleaned => ?_
  dsimp only
  split <;> exact Program.only_pure _

theorem only_cleanupInterrupted (installerRequest : InstallerRequest)
    (binding : AuthenticatedUpdateBinding) (result : UpdateOrchestratorResult) :
    (cleanupInterrupted installerRequest binding result).Only Plain :=
  Program.only_bind (only_cleanupRolledBackTransaction _ _ _) fun _ => Program.only_pure _

theorem only_retainCommitted (binding : AuthenticatedUpdateBinding)
    (result : UpdateOrchestratorResult) : (retainCommitted binding result).Only Plain :=
  Program.only_bind (only_retainCommittedTransaction _ _) fun _ => Program.only_pure _

/-- The writes of a sink, chunk after chunk. -/
theorem only_sinkChunks (exactSize : Nat) (written : Bytes) (chunks : List Bytes) :
    (sinkChunks exactSize written chunks).Only Plain := by
  induction chunks generalizing written with
  | nil => exact Program.only_pure _
  | cons chunk chunks ih =>
      unfold sinkChunks
      split
      · exact Program.only_pure _
      · refine Program.only_bind (Program.only_ask trivial) fun accepted => ?_
        split
        · exact ih _
        · exact Program.only_pure _

/-- The reads of a stored archive, turn after turn. -/
theorem only_rehashChunks (size fuel offset : Nat) (read : Bytes) :
    (rehashChunks workspace size fuel offset read).Only Plain := by
  induction fuel generalizing offset read with
  | zero => exact Program.only_pure _
  | succ fuel ih =>
      unfold rehashChunks
      split
      · exact Program.only_pure _
      · refine Program.only_bind (Program.only_ask trivial) fun bytes => ?_
        split
        · exact Program.only_pure _
        · refine Program.only_bind (only_report _) fun reported => ?_
          split
          · exact Program.only_pure _
          · exact ih _ _

theorem only_rehashStoredArchive (policy : ReleasePolicy)
    (binding : AuthenticatedUpdateBinding) :
    (rehashStoredArchive policy workspace binding).Only Plain := by
  refine Program.only_bind (Program.only_ask trivial) fun size => ?_
  split
  · exact Program.only_pure _
  · refine Program.only_bind (only_rehashChunks _ _ _ _) fun read => ?_
    dsimp only
    split <;> exact Program.only_pure _

end PlainParts

/-! ## Requests for the previous installation -/

section Previous

variable {entry : Entry} {past : Past} {α : Type}

/-- The persisted request is deactivated, or the rest is told it is not. -/
theorem safe_deactivatePendingRequest {requestPersistence : Bool}
    {result : UpdateOrchestratorResult}
    {k : Bool × UpdateOrchestratorResult → Flow α} (hopen : RebootOpen past)
    (hk : ∀ deactivated past', RebootOpen past' →
      (deactivated.1 = true → RequestWithdrawn past') → Safe entry (k deactivated) past') :
    Safe entry (deactivatePendingRequest requestPersistence result >>= k) past := by
  refine Program.guarded_bind ?_
  cases requestPersistence with
  | false => exact hk _ _ hopen (by rintro ⟨⟩)
  | true =>
      refine Program.guarded_ask trivial ?_
      rintro status _ rfl
      have hlater := hopen.plain (extends_ask .deactivatePersisted trivial status past)
      dsimp only
      split
      · exact hk _ _ hlater (by rintro ⟨⟩)
      · next hstatus => exact hk _ _ hlater fun _ => since_now (not_not.mp hstatus)

theorem safe_requestPreviousFailSafe {requestPersistence reboot : Bool}
    {trigger : UpdateOrchestratorStatus} {result : UpdateOrchestratorResult}
    (hopen : RebootOpen past) :
    Safe entry (requestPreviousFailSafe requestPersistence reboot trigger result) past := by
  refine safe_deactivatePendingRequest hopen fun deactivated past' hopen' hwithdrawn => ?_
  obtain ⟨deactivated, result'⟩ := deactivated
  cases deactivated with
  | false => exact safe_return _
  | true =>
      cases reboot with
      | false => exact safe_return _
      | true =>
          refine safe_ask .requestPreviousBootFailSafe ⟨hwithdrawn rfl, hopen'⟩
            fun requested => ?_
          dsimp only
          split <;> exact safe_return _

/-- A rollback, then the rest: reboots stay open if it was accepted. -/
theorem safe_mandatoryRollback {installerRequest : InstallerRequest}
    {result : UpdateOrchestratorResult} {k : UpdateOrchestratorResult → Flow α}
    (hopen : RebootOpen past)
    (hk : ∀ result' past',
      (rollbackAccepted result'.rollbackResult.status = true → RebootOpen past') →
      Safe entry (k result') past') :
    Safe entry (mandatoryRollback installerRequest result >>= k) past := by
  refine Program.guarded_bind (Program.guarded_ask trivial ?_)
  rintro report _ rfl
  refine hk _ _ fun haccepted => hopen.cons Bool.false_ne_true ?_
  intro hfails
  exact Bool.noConfusion (haccepted.symm.trans hfails)

end Previous

/-! ## Start -/

section Start

variable {policy : ReleasePolicy} {workspace : UpdateOrchestratorWorkspace} {past : Past}

theorem safe_rollbackAndRequestPrevious {entry : Entry} {failure : UpdateOrchestratorStatus}
    {installerRequest : InstallerRequest} {binding : AuthenticatedUpdateBinding}
    {result : UpdateOrchestratorResult} (hopen : RebootOpen past) :
    Safe entry (rollbackAndRequestPrevious failure installerRequest binding result) past := by
  refine safe_mandatoryRollback hopen fun rolledBack past₁ hopen₁ => ?_
  split
  · exact safe_return _
  next haccepted =>
  have hopen₁ := hopen₁ (by simpa using haccepted)
  refine safe_plain (only_cleanupRolledBackTransaction _ _ _) fun cleaned past₂ hext => ?_
  refine safe_deactivatePendingRequest (hopen₁.plain hext) fun deactivated past₃ hopen₃ hw => ?_
  obtain ⟨deactivated, result'⟩ := deactivated
  cases deactivated with
  | false => exact safe_return _
  | true =>
      refine safe_ask (.requestReboot .previousInstallation binding) ⟨hw rfl, hopen₃⟩
        fun requested => ?_
      split <;> exact safe_return _

theorem safe_startArmed {installerRequest : InstallerRequest}
    {binding : AuthenticatedUpdateBinding} {result : UpdateOrchestratorResult}
    (hopen : RebootOpen past) (harmed : CandidateArmed past) :
    Safe .start (startArmed workspace installerRequest binding result) past := by
  refine safe_plain only_candidateCheckpoint fun checkpoint past' hext => ?_
  have hopen' := hopen.plain hext
  split
  · exact safe_rollbackAndRequestPrevious hopen'
  refine safe_ask (.requestReboot .oneShotCandidate binding)
    ⟨rfl, harmed.plain hext, hopen'⟩ fun requested => ?_
  cases requested with
  | false => exact safe_rollbackAndRequestPrevious (hopen'.cons (by rintro ⟨⟩) id)
  | true => exact safe_return _

theorem safe_startArm {installerRequest : InstallerRequest}
    {binding : AuthenticatedUpdateBinding} {result : UpdateOrchestratorResult}
    (hopen : RebootOpen past) (hstaged : CandidateStaged past) :
    Safe .start (startArm workspace installerRequest binding result) past := by
  refine safe_ask (.armCandidate installerRequest) trivial fun armed => ?_
  have hopen' := hopen.plain (extends_ask (.armCandidate installerRequest) trivial armed past)
  dsimp only
  split
  · exact safe_rollbackAndRequestPrevious hopen'
  · next haccepted =>
    exact safe_startArmed hopen' (since_now ⟨by simpa [Arms] using haccepted, hstaged⟩)

theorem safe_stageRejected {installerRequest : InstallerRequest}
    {binding : AuthenticatedUpdateBinding} {result : UpdateOrchestratorResult}
    (hopen : RebootOpen past) :
    Safe .start (stageRejected installerRequest binding result) past := by
  unfold stageRejected
  dsimp only
  split
  · refine safe_mandatoryRollback hopen fun rolledBack past₁ hopen₁ => ?_
    split
    · exact safe_return _
    · exact safe_of_only (only_cleanupRejected _ _ _)
  · exact safe_of_only (only_cleanupRejected _ _ _)

theorem safe_closeFailed {installerRequest : InstallerRequest}
    {binding : AuthenticatedUpdateBinding} {result : UpdateOrchestratorResult}
    (hopen : RebootOpen past) :
    Safe .start (closeFailed installerRequest binding result) past := by
  refine safe_mandatoryRollback hopen fun rolledBack past₁ hopen₁ => ?_
  split
  · exact safe_return _
  · exact safe_plain (only_cleanupRolledBackTransaction _ _ _) fun _ _ _ => safe_return _

theorem safe_startStage {installerRequest : InstallerRequest}
    {binding : AuthenticatedUpdateBinding} {result : UpdateOrchestratorResult}
    (hopen : RebootOpen past) (hpersisted : CandidatePersisted past) :
    Safe .start (startStage workspace installerRequest binding result) past := by
  refine safe_ask (.stage installerRequest) trivial fun staged => ?_
  have hopen' : RebootOpen (⟨.stage installerRequest, staged⟩ :: past) :=
    hopen.cons Bool.false_ne_true id
  refine safe_ask .closeRead trivial fun closed => ?_
  have hext := extends_ask .closeRead trivial closed (⟨.stage installerRequest, staged⟩ :: past)
  have hopen'' := hopen'.plain hext
  dsimp only
  split
  · exact safe_stageRejected hopen''
  next haccepted =>
  have hstaged : CandidateStaged (⟨.stage installerRequest, staged⟩ :: past) :=
    since_now ⟨by simpa [Stages] using haccepted, hpersisted⟩
  split
  · exact safe_closeFailed hopen''
  · exact safe_startArm hopen'' (hstaged.plain hext)

theorem safe_startPrepare {offer : ReleaseOffer} {binding : AuthenticatedUpdateBinding}
    {archive : ZipArchive} {result : UpdateOrchestratorResult} (hopen : RebootOpen past)
    (hpersisted : CandidatePersisted past) :
    Safe .start (startPrepare workspace offer binding archive result) past := by
  refine safe_ask (.prepareForStage binding offer.manifest archive) trivial
    fun prepared => ?_
  have hext := extends_ask (.prepareForStage binding offer.manifest archive) trivial
    prepared past
  obtain ⟨status, prepared⟩ := prepared
  dsimp only
  split
  · exact safe_of_only (only_closeAndCleanup _ _ _)
  split
  · exact safe_of_only (only_closeAndCleanup _ _ _)
  · exact safe_startStage (hopen.plain hext) (hpersisted.plain hext)

theorem safe_startVerify {offer : ReleaseOffer} {binding : AuthenticatedUpdateBinding}
    {result : UpdateOrchestratorResult} (hopen : RebootOpen past)
    (hpersisted : CandidatePersisted past) :
    Safe .start (startVerify policy workspace offer binding result) past := by
  refine safe_ask (.openRead binding) trivial fun opened => ?_
  have hext := extends_ask (.openRead binding) trivial opened past
  obtain ⟨status, archive⟩ := opened
  dsimp only
  split
  · refine safe_plain (only_rehashStoredArchive _ _) fun verified past' hext' => ?_
    split
    · exact safe_ask .closeRead trivial fun closed => safe_of_only (only_discardStored _ _ _)
    · exact safe_startPrepare ((hopen.plain hext).plain hext') ((hpersisted.plain hext).plain hext')
  · exact safe_of_only (only_discardStored _ _ _)

theorem safe_startDownload {offer : ReleaseOffer} {binding : AuthenticatedUpdateBinding}
    {result : UpdateOrchestratorResult} (hopen : RebootOpen past)
    (hpersisted : CandidatePersisted past) :
    Safe .start (startDownload policy workspace offer binding result) past := by
  let op : Operation := .fetch binding.archiveUrl binding.archiveSize
  refine safe_ask op trivial fun fetched => ?_
  have hext := extends_ask op trivial fetched past
  refine safe_plain (only_sinkChunks _ _ _) fun streamed past₁ hext₁ => ?_
  dsimp only
  split
  · exact safe_of_only (only_abortDownload _ _ _)
  split
  · exact safe_of_only (only_abortDownload _ _ _)
  refine safe_ask .finish trivial fun finished => ?_
  have hext₂ := extends_ask .finish trivial finished past₁
  split
  · exact safe_of_only (only_abortDownload _ _ _)
  · exact safe_startVerify (((hopen.plain hext).plain hext₁).plain hext₂)
      (((hpersisted.plain hext).plain hext₁).plain hext₂)

theorem safe_startPersist {request : AuthenticatedUpdateRequest} {offer : ReleaseOffer}
    {binding : AuthenticatedUpdateBinding} {result : UpdateOrchestratorResult}
    (hopen : RebootOpen past) :
    Safe .start (startPersist policy workspace request offer binding result) past := by
  refine safe_plain (only_report _) fun checkpoint past₁ hext₁ => ?_
  split
  · exact safe_return _
  refine safe_ask (.begin binding) trivial fun begun => ?_
  have hext₂ := extends_ask (.begin binding) trivial begun past₁
  split
  · exact safe_return _
  refine safe_ask (.persist request) trivial fun persisted => ?_
  split
  · exact safe_of_only (only_abortDownload _ _ _)
  · next haccepted =>
    have hopen₂ := (hopen.plain hext₁).plain hext₂
    exact safe_startDownload (hopen₂.cons Bool.false_ne_true id) (since_now (not_not.mp haccepted))

theorem safe_startAuthorize {request : AuthenticatedUpdateRequest} {offer : ReleaseOffer}
    {manifestDigest : Digest} {result : UpdateOrchestratorResult} (hopen : RebootOpen past) :
    Safe .start (startAuthorize policy workspace request offer manifestDigest result) past := by
  refine safe_ask .oneShotRecoverySupported trivial fun supported => ?_
  have hext₁ := extends_ask .oneShotRecoverySupported trivial supported past
  dsimp only
  split
  · exact safe_return _
  split
  · exact safe_return _
  refine safe_ask (.authorizeAndSeal request offer) trivial fun authorized => ?_
  have hext₂ := extends_ask (.authorizeAndSeal request offer) trivial authorized
    (⟨.oneShotRecoverySupported, supported⟩ :: past)
  split
  · exact safe_return _
  let binding := buildBinding request offer manifestDigest authorized.2
  refine safe_ask (.probe binding offer.manifest) trivial fun ready => ?_
  have hext₃ := extends_ask (.probe binding offer.manifest) trivial ready
    (⟨.authorizeAndSeal request offer, authorized⟩ :: ⟨.oneShotRecoverySupported, supported⟩ :: past)
  split
  · exact safe_return _
  · exact safe_startPersist (((hopen.plain hext₁).plain hext₂).plain hext₃)

/-- `Start` performs permitted operations only. -/
theorem safe_start (collaborators : Collaborators) (request : AuthenticatedUpdateRequest) :
    Safe .start (start policy workspace collaborators request) [] := by
  unfold start
  dsimp only
  split
  · exact safe_return _
  split
  · exact safe_return _
  · next download _ =>
    let op : Operation := .revalidate download request.runningBoard
    refine safe_ask op trivial fun validated => ?_
    have hopen := RebootOpen.nil.plain (extends_ask op trivial validated [])
    split
    · exact safe_return _
    split
    · exact safe_return _
    · exact safe_startAuthorize hopen

end Start

/-! ## Resuming -/

section Resume

variable {policy : ReleasePolicy} {workspace : UpdateOrchestratorWorkspace} {past : Past}
  {installerRequest : InstallerRequest} {binding : AuthenticatedUpdateBinding}
  {result : UpdateOrchestratorResult}

theorem safe_resumeRollback {next : UpdateOrchestratorResult → Flow UpdateOrchestratorResult}
    (hopen : RebootOpen past)
    (hnext : ∀ result' past', RebootOpen past' → Safe .resumeAfterBoot (next result') past') :
    Safe .resumeAfterBoot (resumeRollback installerRequest result next) past := by
  refine safe_mandatoryRollback hopen fun rolledBack past' hopen' => ?_
  split
  · exact safe_return _
  split
  · exact safe_return _
  · next haccepted => exact hnext _ _ (hopen' (by simpa using haccepted))

theorem safe_resumePrevious (hopen : RebootOpen past) :
    Safe .resumeAfterBoot (resumePrevious workspace installerRequest binding result) past := by
  refine safe_plain (only_cleanupRolledBackTransaction _ _ _) fun cleaned past₁ hext₁ => ?_
  obtain ⟨cleanupOk, cleaned⟩ := cleaned
  dsimp only
  split
  · exact safe_return _
  refine safe_deactivatePendingRequest (hopen.plain hext₁) fun deactivated past₂ hopen₂ hw => ?_
  obtain ⟨deactivated, result'⟩ := deactivated
  cases deactivated with
  | false => exact safe_return _
  | true =>
      refine safe_plain (only_report _) fun reported past₃ hext₃ => ?_
      split
      · exact safe_return _
      refine safe_ask (.requestReboot .previousInstallation binding)
        ⟨(hw rfl).plain hext₃, hopen₂.plain hext₃⟩ fun requested => ?_
      split
      · exact safe_return _
      split <;> exact safe_return _

theorem safe_resumeUnhealthy {trigger : UpdateOrchestratorStatus} (hopen : RebootOpen past) :
    Safe .resumeAfterBoot
      (resumeUnhealthy workspace trigger installerRequest binding result) past := by
  refine safe_plain (only_report _) fun reported past' hext => ?_
  split
  · exact safe_return _
  · exact safe_resumeRollback (hopen.plain hext) fun _ _ hopen' => safe_resumePrevious hopen'

theorem safe_resumeHealthy {manifest : OfferManifest} (hopen : RebootOpen past)
    (hmanifest : installerRequest.manifest = manifest.toReleaseManifest)
    (hhealthy : CandidateHealthy manifest past) :
    Safe .resumeAfterBoot (resumeHealthy workspace installerRequest binding result) past := by
  refine safe_ask (.markCandidateHealthy installerRequest) trivial fun marked => ?_
  have hopen₁ := hopen.plain
    (extends_ask (.markCandidateHealthy installerRequest) trivial marked past)
  dsimp only
  split
  · exact safe_return _
  split
  · exact safe_resumeUnhealthy hopen₁
  next haccepted =>
  have hcertified : CandidateCertified installerRequest
      (⟨.markCandidateHealthy installerRequest, marked⟩ :: past) :=
    Or.inl ⟨⟨rfl, by simpa using haccepted⟩, manifest, hmanifest, hhealthy⟩
  refine safe_ask (.commit installerRequest) hcertified fun committed => ?_
  split
  · exact safe_return _
  split
  · exact safe_resumeUnhealthy (hopen₁.cons Bool.false_ne_true id)
  · exact safe_of_only (only_retainCommitted _ _)

theorem provesHealthy_of_status {manifest : OfferManifest} {available : Bool}
    {evidence : CandidateHealthEvidence}
    (hstatus : (if available && healthEvidenceBound evidence manifest then
        evaluateCandidateHealth evidence
      else .journalUnavailable) = .healthy) :
    ProvesHealthy manifest ⟨.collect binding manifest, (available, evidence)⟩ := by
  split at hstatus
  · next hbound =>
    simp only [Bool.and_eq_true] at hbound
    exact ⟨rfl, hbound.1, hbound.2, hstatus⟩
  · cases hstatus

theorem safe_resumeProbe {offer : ReleaseOffer} (hopen : RebootOpen past)
    (hmanifest : installerRequest.manifest = offer.manifest.toReleaseManifest)
    (hrevalidated : ManifestRevalidated offer.manifest past) :
    Safe .resumeAfterBoot
      (resumeProbe workspace offer installerRequest binding result) past := by
  refine safe_ask (.collect binding offer.manifest) trivial fun probed => ?_
  have hext₁ := extends_ask (.collect binding offer.manifest) trivial probed past
  obtain ⟨available, evidence⟩ := probed
  dsimp only
  refine safe_plain (only_report _) fun reported past' hext₂ => ?_
  have hopen' := (hopen.plain hext₁).plain hext₂
  split
  · exact safe_return _
  split
  · exact safe_resumeUnhealthy hopen'
  by_cases hstatus :
      (if available && healthEvidenceBound evidence offer.manifest then
        evaluateCandidateHealth evidence
      else .journalUnavailable) = .healthy
  · rw [if_pos hstatus]
    have hhealthy : CandidateHealthy offer.manifest
        (⟨.collect binding offer.manifest, (available, evidence)⟩ :: past) :=
      Or.inl ⟨provesHealthy_of_status hstatus, hrevalidated⟩
    exact safe_resumeHealthy hopen' hmanifest (hhealthy.plain hext₂)
  · rw [if_neg hstatus]
    exact safe_resumeUnhealthy hopen'

theorem safe_resumeRestore {collaborators : Collaborators} {offer : ReleaseOffer}
    {journal : JournalRecord} (hopen : RebootOpen past)
    (hrevalidated : ManifestRevalidated offer.manifest past) :
    Safe .resumeAfterBoot
      (resumeRestore workspace collaborators offer binding journal result) past := by
  refine safe_ask (.restoreForResume binding offer.manifest) trivial fun restored => ?_
  have hext := extends_ask (.restoreForResume binding offer.manifest) trivial restored past
  have hopen' := hopen.plain hext
  dsimp only
  split
  · exact safe_return _
  split
  · exact safe_requestPreviousFailSafe hopen'
  split
  · exact safe_requestPreviousFailSafe hopen'
  split
  · exact safe_resumeRollback hopen' fun _ _ _ => safe_of_only (only_cleanupInterrupted _ _ _)
  · exact safe_resumeProbe hopen' rfl (hrevalidated.plain hext)

theorem safe_resumeJournal {collaborators : Collaborators} {offer : ReleaseOffer}
    (hopen : RebootOpen past) (hrevalidated : ManifestRevalidated offer.manifest past) :
    Safe .resumeAfterBoot (resumeJournal workspace collaborators offer binding result) past := by
  let op : Operation := .readJournal binding.transactionRoot
  refine safe_ask op trivial fun read => ?_
  have hext := extends_ask op trivial read past
  have hopen' := hopen.plain hext
  obtain ⟨report, journal⟩ := read
  dsimp only
  split
  · exact safe_of_only (only_cleanupInterrupted _ _ _)
  split
  · exact safe_requestPreviousFailSafe hopen'
  split
  · exact safe_of_only (only_retainCommitted _ _)
  split
  · refine safe_ask .oneShotRecoverySupported trivial fun supported => ?_
    have hext' := extends_ask .oneShotRecoverySupported trivial supported
      (⟨op, (report, journal)⟩ :: past)
    split
    · exact safe_requestPreviousFailSafe (hopen'.plain hext')
    · exact safe_resumeRestore (hopen'.plain hext') ((hrevalidated.plain hext).plain hext')
  · exact safe_requestPreviousFailSafe hopen'

/-- `ResumeAfterBoot` performs permitted operations only. -/
theorem safe_resumeAfterBoot (collaborators : Collaborators)
    (request : AuthenticatedUpdateRequest) :
    Safe .resumeAfterBoot (resumeAfterBoot policy workspace collaborators request) [] := by
  unfold resumeAfterBoot
  dsimp only
  split
  · exact safe_requestPreviousFailSafe .nil
  split
  · exact safe_requestPreviousFailSafe .nil
  · next download _ =>
    let op : Operation := .revalidate download request.runningBoard
    refine safe_ask op trivial fun validated => ?_
    have hopen := RebootOpen.nil.plain (extends_ask op trivial validated [])
    split
    · exact safe_requestPreviousFailSafe hopen
    next hok =>
    split
    · exact safe_requestPreviousFailSafe hopen
    · exact safe_resumeJournal hopen (Or.inl ⟨not_not.mp hok, rfl⟩)

end Resume

/-! ## Runs -/

section Runs

open UpdateTransactionRequestStore (smallStoreRequest)

variable {policy : ReleasePolicy} {workspace : UpdateOrchestratorWorkspace}
  {collaborators : Collaborators} {request : AuthenticatedUpdateRequest} {entry : Entry}
  {op : Operation} {past : Past}

/-- The run an entry point starts. -/
def Entry.flow (policy : ReleasePolicy) (workspace : UpdateOrchestratorWorkspace)
    (collaborators : Collaborators) (request : AuthenticatedUpdateRequest) :
    Entry → Flow UpdateOrchestratorResult
  | .start => BmxUpdate.start policy workspace collaborators request
  | .resumeAfterBoot => BmxUpdate.resumeAfterBoot policy workspace collaborators request

theorem safe_flow (entry : Entry) :
    Safe entry (entry.flow policy workspace collaborators request) [] := by
  cases entry with
  | start => exact safe_start collaborators request
  | resumeAfterBoot => exact safe_resumeAfterBoot collaborators request

/-- An accepted reboot request was permitted, so reboots were open. -/
theorem rebootOpen_of_rebootAccepted {answer : Answer op} (hop : Permitted entry past op)
    (haccepted : rebootAccepted ⟨op, answer⟩ = true) : RebootOpen past := by
  cases op with
  | requestReboot target binding =>
      cases target with
      | oneShotCandidate => exact hop.2.2
      | previousInstallation => exact hop.2
  | requestPreviousBootFailSafe => exact hop.2
  | _ => exact absurd haccepted Bool.false_ne_true

theorem countP_rebootAccepted (hopen : RebootOpen past) : past.countP rebootAccepted = 0 := by
  have hnone := hopen.notRebooted
  clear hopen
  induction past with
  | nil => rfl
  | cons call past ih =>
      have hcall : ¬rebootAccepted call = true := fun haccepted => hnone (since_now haccepted)
      rw [List.countP_cons_of_neg hcall]
      exact ih fun hlater => hnone (since_later trivial hlater)

/-- A permitted call adds the first accepted reboot at most. -/
theorem countP_rebootAccepted_cons {answer : Answer op} (hop : Permitted entry past op)
    (hcount : past.countP rebootAccepted ≤ 1) :
    List.countP rebootAccepted (⟨op, answer⟩ :: past) ≤ 1 := by
  by_cases haccepted : rebootAccepted ⟨op, answer⟩ = true
  · have hzero := countP_rebootAccepted (rebootOpen_of_rebootAccepted hop haccepted)
    rw [List.countP_cons_of_pos haccepted, hzero]
  · rw [List.countP_cons_of_neg haccepted]
    exact hcount

/-- In every run of `Start` and of `ResumeAfterBoot`, whatever the collaborators
answer, the next operation is permitted and at most one reboot request has been
accepted. -/
theorem reboots_and_commits_permitted {program : Option (Flow UpdateOrchestratorResult)}
    (hrun : Reaches recording
      (some (entry.flow policy workspace collaborators request), []) (program, past)) :
    (∀ op next, program = some (.call op next) → Permitted entry past op) ∧
      past.countP rebootAccepted ≤ 1 := by
  have hpermitted : ∀ {op next past}, Reaches recording
      (some (entry.flow policy workspace collaborators request), [])
      (some (.call op next), past) → Permitted entry past op :=
    fun hreaches => (Program.guarded_of_reaches (safe_flow entry) hreaches).1
  refine ⟨fun op next hprogram => hpermitted (hprogram ▸ hrun), ?_⟩
  generalize hstart :
    (some (entry.flow policy workspace collaborators request), ([] : Past)) = begin at hrun
  generalize hend : (program, past) = reached at hrun
  induction hrun generalizing program past with
  | refl =>
      subst hstart
      cases hend
      exact Nat.zero_le 1
  | answer hreaches hanswer ih =>
      cases hend
      subst hstart
      rw [hanswer]
      exact countP_rebootAccepted_cons (hpermitted hreaches) (ih rfl)
  | halt _ hhalt => exact hhalt.elim

/-- The operation is the reboot into the candidate. -/
def isCandidateReboot : Operation → Bool
  | .requestReboot .oneShotCandidate _ => true
  | _ => false

theorem eq_of_isCandidateReboot (h : isCandidateReboot op = true) :
    ∃ binding, op = .requestReboot .oneShotCandidate binding := by
  unfold isCandidateReboot at h
  split at h
  · exact ⟨_, rfl⟩
  · cases h

/-- Among obliging collaborators `Start` comes to the reboot into the candidate. -/
theorem reboots_and_commits_permitted_candidate : ∃ binding next past,
    Reaches recording
      (some (Entry.start.flow smallPolicy smallWorkspace everyCollaborator smallStoreRequest), [])
      (some (.call (.requestReboot .oneShotCandidate binding) next), past) ∧
    Permitted .start past (.requestReboot .oneShotCandidate binding) := by
  have hasked : (answered (obliging smallOffer (smallArchive []) []) 16
      (Entry.start.flow smallPolicy smallWorkspace everyCollaborator smallStoreRequest)).1.next?.any
        isCandidateReboot = true := by decide
  obtain ⟨op, next, past, hrun, hop⟩ := answered_asks hasked
  obtain ⟨binding, rfl⟩ := eq_of_isCandidateReboot hop
  exact ⟨binding, next, past, hrun, (reboots_and_commits_permitted hrun).1 _ _ rfl⟩

end Runs

end RebootSafety

end BmxUpdate
