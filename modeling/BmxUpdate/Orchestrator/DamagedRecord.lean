import BmxUpdate.Library.Uninterrupted
import BmxUpdate.Orchestrator.RecoveryExecutor
import BmxUpdate.RequestStore.Lifetime

/-!
# A damaged activation record

What one boot makes of a record and payloads that are damaged in any way: `Run` without
faults, from any volume where the record is a file.

- `Sound`, `Wedging`: what `LoadNamed` makes of one payload.
- `Wedged`: the first payload that is not sound is missing, or larger than the store
  allows.  Its statuses are those of no record at all and of a small workspace.
- `released_iff`: any other record is resumed or removed.
-/

namespace BmxUpdate

open Crash Volumes Wire RequestStore

namespace RecoveryExecutor

open UpdateTransactionRequestStore PendingRequest

/-- An executor with everything `Run` asks for, and buffers of the maximum sizes. -/
structure Configured (executor : UpdateRecoveryExecutor) (store : UpdateTransactionRequestStore)
    (resumeAfterBoot : AuthenticatedUpdateRequest → UpdateOrchestratorWorkspace →
      BootProc Unit UpdateOrchestratorResult) (reboot probe : Bool) : Prop where
  requestStore : executor.requestStore = some store
  orchestrator : executor.orchestrator = some resumeAfterBoot
  reboot : executor.reboot = some reboot
  probe : executor.candidateBootProbe = some probe
  board : isKnownBoardFamily executor.runningBoard = true
  workspace : UpdateRecoveryExecutor.workspaceValid executor.orchestratorWorkspace = true
  download : executor.releaseDownload = true
  buffers : ∀ payload, executor.requestBuffers payload = some payload.maximum

/-- A transaction root with a record and no other one, whose payloads and their temporaries can
be removed. -/
structure Damaged (v : Volume) : Prop where
  record : ∃ encoded, v.nodeAt (recordPath kUpdateTransactionRoot .active) = some (.file encoded)
  alone : OnlyActive kUpdateTransactionRoot v
  payloads : ∀ payload, v.nodeAt (payloadPath kUpdateTransactionRoot payload) ≠ some .directory
  parts : ∀ payload,
    v.nodeAt (partOf (payloadPath kUpdateTransactionRoot payload)) ≠ some .directory

section Payloads

variable {store : UpdateTransactionRequestStore} {state : RequestState} {v : Volume}
  {buffers : PersistedUpdateRequestBuffers}

/-- The payload is the one its record declares. -/
def Sound (store : UpdateTransactionRequestStore) (state : RequestState) (v : Volume)
    (payload : Payload) : Prop :=
  state.size payload ≠ 0 ∧ state.size payload ≤ payload.maximum ∧
    ∃ content, v.nodeAt (payloadPath kUpdateTransactionRoot payload) = some (.file content) ∧
      content.length = state.size payload ∧ store.sha256 content = state.sha256 payload

/-- The payload is larger than the store allows, or missing. -/
def Wedging (state : RequestState) (v : Volume) (payload : Payload) : Prop :=
  payload.maximum < state.size payload ∨
    state.size payload ≠ 0 ∧ v.nodeAt (payloadPath kUpdateTransactionRoot payload) = none

/-- The first payload that is not sound is one of those. -/
def WedgedAt (store : UpdateTransactionRequestStore) (state : RequestState) (v : Volume) :
    List Payload → Prop
  | [] => False
  | payload :: payloads =>
      Wedging state v payload ∨ Sound store state v payload ∧ WedgedAt store state v payloads

/-- The record is in order, for the board and the root, and its payloads are so. -/
def Wedged (store : UpdateTransactionRequestStore) (board : BoardFamily) (v : Volume) : Prop :=
  ∃ encoded state,
    v.nodeAt (recordPath kUpdateTransactionRoot .active) = some (.file encoded) ∧
      encoded.length = kPersistedUpdateRequestStateBytes ∧
      RequestState.parse board encoded = some state ∧
      store.sha256 (rootPreimage kUpdateTransactionRoot) = state.rootSha256 ∧
      WedgedAt store state v Payload.all

theorem Sound.not_wedging {payload : Payload} (h : Sound store state v payload) :
    ¬Wedging state v payload := by
  obtain ⟨-, hmaximum, content, hfile, -⟩ := h
  intro hbad
  cases hbad with
  | inl hlarge => omega
  | inr hmissing =>
      rw [hfile] at hmissing
      cases hmissing.2

/-! ## Load -/

/-- How a part of `Load` ends: where the request is wedged, with a status that `Run` does not
discard for, and else with the request or with a status that it does. -/
structure Judges (stuck : Prop) (v : Volume) (m : StoreProc AuthenticatedUpdateRequest) :
    Prop where
  wedged : stuck → ∃ failure, (failure = .notFound ∨ failure = .workspaceTooSmall) ∧
    Ends m () v (.error failure) v
  free : ¬stuck → (∃ request, Ends m () v (.ok request) v) ∨
    ∃ failure, UpdateRecoveryExecutor.mustDeactivate failure = true ∧
      Ends m () v (.error failure) v

theorem Judges.rejected {stuck : Prop} {m : StoreProc AuthenticatedUpdateRequest}
    {failure : StoreFailure} (hfree : ¬stuck)
    (hstatus : UpdateRecoveryExecutor.mustDeactivate failure = true)
    (hends : Ends m () v (.error failure) v) : Judges stuck v m :=
  ⟨fun hwedged => absurd hwedged hfree, fun _ => .inr ⟨failure, hstatus, hends⟩⟩

/-- Steps before it that succeed change nothing. -/
theorem Judges.before {stuck stuck' : Prop} {m m' : StoreProc AuthenticatedUpdateRequest}
    (h : Judges stuck v m) (hstuck : stuck' ↔ stuck)
    (hsteps : ∀ r, Ends m () v r v → Ends m' () v r v) : Judges stuck' v m' := by
  constructor
  · intro hbad
    obtain ⟨failure, hstatus, hends⟩ := h.wedged (hstuck.mp hbad)
    exact ⟨failure, hstatus, hsteps _ hends⟩
  · intro hfree
    cases h.free (fun hbad => hfree (hstuck.mpr hbad)) with
    | inl hok =>
        obtain ⟨request, hends⟩ := hok
        exact .inl ⟨request, hsteps _ hends⟩
    | inr hbad =>
        obtain ⟨failure, hstatus, hends⟩ := hbad
        exact .inr ⟨failure, hstatus, hsteps _ hends⟩

theorem ends_look {path : Path} : Ends (look path) () v (.ok (statOf (v.nodeAt path))) v := by
  have h : Ends (stat path) () v (.ok (statOf (v.nodeAt path))) v := Ends.observe rfl
  exact h.orElse

theorem ends_report : Ends report () v (.ok ()) v := by
  have h : Ends barrier () v (.ok ()) v := Ends.observe rfl
  exact h.orElse

theorem ends_readFile {path : Path} {content : Content} {e : StoreFailure}
    (hfile : v.nodeAt path = some (.file content)) :
    Ends (Proc.orElse e (readFile path)) () v (.ok content) v := by
  have h : Ends (readFile path) () v (.ok content) v :=
    Ends.observe (Volume.fileAt_eq_some_iff.mpr hfile)
  exact h.orElse

/-- What one turn of the payload loop ends with. -/
theorem ends_loadPayload (hbuffers : ∀ payload, buffers payload = some payload.maximum)
    (payload : Payload)
    (hfile : v.nodeAt (payloadPath kUpdateTransactionRoot payload) ≠ some .directory) :
    (∃ content, Sound store state v payload ∧
      Ends (store.loadPayload kUpdateTransactionRoot buffers state payload) () v (.ok content) v) ∨
    (∃ failure, (failure = .notFound ∨ failure = .workspaceTooSmall) ∧
      Wedging state v payload ∧
      Ends (store.loadPayload kUpdateTransactionRoot buffers state payload) () v
        (.error failure) v) ∨
    ∃ failure, UpdateRecoveryExecutor.mustDeactivate failure = true ∧
      (¬Wedging state v payload ∧ ¬Sound store state v payload) ∧
      Ends (store.loadPayload kUpdateTransactionRoot buffers state payload) () v
        (.error failure) v := by
  have hcapacity : (buffers payload).getD 0 = payload.maximum := by rw [hbuffers]; rfl
  have hjoins : joins kUpdateTransactionRoot payload.fileName = true :=
    (payloadsFit_updateTransactionRoot payload).1
  unfold UpdateTransactionRequestStore.loadPayload
  dsimp only
  rw [hcapacity]
  by_cases hsize : state.size payload ≠ 0 ∧ state.size payload ≤ payload.maximum
  · have hchecks : state.size payload ≠ 0 ∧ state.size payload ≤ payload.maximum ∧
        state.size payload ≤ payload.maximum := ⟨hsize.1, hsize.2, hsize.2⟩
    unfold UpdateTransactionRequestStore.readVerifiedFile
    cases hnode : v.nodeAt (payloadPath kUpdateTransactionRoot payload) with
    | none =>
        refine .inr (.inl ⟨.notFound, .inl rfl, .inr ⟨hsize.1, hnode⟩, ?_⟩)
        refine (Ends.check hchecks).bind ((Ends.check hjoins).bind (ends_look.bind ?_))
        rw [hnode]
        exact (Ends.check_error (by simp [statOf])).bind_error
    | some node =>
        have hpresent : ¬Wedging state v payload := by
          rintro (hlarge | ⟨-, hmissing⟩)
          · omega
          · rw [hnode] at hmissing
            cases hmissing
        cases node with
        | directory => exact absurd hnode hfile
        | file content =>
            by_cases hlength : content.length = state.size payload
            · by_cases hhash : store.sha256 content = state.sha256 payload
              · refine .inl ⟨content, ⟨hsize.1, hsize.2, content, hnode, hlength, hhash⟩, ?_⟩
                refine (Ends.check hchecks).bind ((Ends.check hjoins).bind (ends_look.bind ?_))
                rw [hnode]
                refine (Ends.check (by rintro ⟨⟩)).bind ((Ends.check ⟨rfl, hlength⟩).bind ?_)
                refine (ends_readFile hnode).bind (ends_report.bind ?_)
                exact (Ends.check hhash).bind (Ends.pure content)
              · refine .inr (.inr ⟨.hashMismatch, rfl, ⟨hpresent, ?_⟩, ?_⟩)
                · rintro ⟨-, -, other, hother, -, hsame⟩
                  rw [hnode] at hother
                  cases hother
                  exact hhash hsame
                · refine (Ends.check hchecks).bind ((Ends.check hjoins).bind (ends_look.bind ?_))
                  rw [hnode]
                  refine (Ends.check (by rintro ⟨⟩)).bind ((Ends.check ⟨rfl, hlength⟩).bind ?_)
                  refine (ends_readFile hnode).bind (ends_report.bind ?_)
                  exact (Ends.check_error hhash).bind_error
            · refine .inr (.inr ⟨.conflict, rfl, ⟨hpresent, ?_⟩, ?_⟩)
              · rintro ⟨-, -, other, hother, hsame, -⟩
                rw [hnode] at hother
                cases hother
                exact hlength hsame
              · refine (Ends.check hchecks).bind ((Ends.check hjoins).bind (ends_look.bind ?_))
                rw [hnode]
                refine (Ends.check (by rintro ⟨⟩)).bind ?_
                exact (Ends.check_error fun h => hlength h.2).bind_error
  · have hrejected : ¬(state.size payload ≠ 0 ∧ state.size payload ≤ payload.maximum ∧
        state.size payload ≤ payload.maximum) := fun h => hsize ⟨h.1, h.2.1⟩
    have hends := Ends.bind_error (s := ()) (d := v) (k := fun _ =>
      Proc.check (joins kUpdateTransactionRoot payload.fileName) StoreFailure.invalidIdentity >>=
        fun _ => store.readVerifiedFile (payloadPath kUpdateTransactionRoot payload)
          (state.size payload) (state.sha256 payload))
      (Ends.check_error (e := if payload.maximum < state.size payload then .workspaceTooSmall
        else .corrupt) hrejected)
    by_cases hlarge : payload.maximum < state.size payload
    · rw [if_pos hlarge] at hends ⊢
      exact .inr (.inl ⟨.workspaceTooSmall, .inr rfl, .inl hlarge, hends⟩)
    · rw [if_neg hlarge] at hends ⊢
      refine .inr (.inr ⟨.corrupt, rfl, ⟨?_, ?_⟩, hends⟩)
      · rintro (h | ⟨hne, -⟩)
        · exact hlarge h
        · exact hsize ⟨hne, by omega⟩
      · rintro ⟨hne, hle, -⟩
        exact hsize ⟨hne, hle⟩

theorem judges_turn {payload : Payload} {payloads : List Payload}
    {k : Content → StoreProc AuthenticatedUpdateRequest}
    (hbuffers : ∀ payload, buffers payload = some payload.maximum)
    (hfile : v.nodeAt (payloadPath kUpdateTransactionRoot payload) ≠ some .directory)
    (hk : ∀ content, Judges (WedgedAt store state v payloads) v (k content)) :
    Judges (WedgedAt store state v (payload :: payloads)) v
      (store.loadPayload kUpdateTransactionRoot buffers state payload >>= k) := by
  rcases ends_loadPayload hbuffers payload hfile with
    ⟨content, hsound, hends⟩ | ⟨failure, hstatus, hwedging, hends⟩ |
      ⟨failure, hstatus, ⟨hpresent, hunsound⟩, hends⟩
  · refine (hk content).before ?_ fun _ hrest => hends.bind hrest
    constructor
    · intro hwedged
      exact (hwedged.resolve_left hsound.not_wedging).2
    · intro hrest
      exact .inr ⟨hsound, hrest⟩
  · exact ⟨fun _ => ⟨failure, hstatus, hends.bind_error⟩, fun hfree =>
      absurd (.inl hwedging) hfree⟩
  · refine .rejected ?_ hstatus hends.bind_error
    intro hwedged
    cases hwedged with
    | inl h => exact hpresent h
    | inr h => exact hunsound h.1

/-- `LoadNamed` once the record is parsed and its root is the right one. -/
theorem judges_loadState (hbuffers : ∀ payload, buffers payload = some payload.maximum)
    (hfiles : ∀ payload, v.nodeAt (payloadPath kUpdateTransactionRoot payload) ≠ some .directory)
    (hroot : store.sha256 (rootPreimage kUpdateTransactionRoot) = state.rootSha256) :
    Judges (WedgedAt store state v Payload.all) v
      (store.loadState kUpdateTransactionRoot buffers state) := by
  unfold UpdateTransactionRequestStore.loadState
  rw [Proc.check_bind hroot]
  refine judges_turn hbuffers (hfiles .installed) fun installed => ?_
  refine judges_turn hbuffers (hfiles .gitHub) fun gitHub => ?_
  refine judges_turn hbuffers (hfiles .manifest) fun manifest => ?_
  refine judges_turn hbuffers (hfiles .signature) fun signature => ?_
  constructor
  · exact False.elim
  · intro _
    by_cases hidentity : state.oldBootGeneration ≠ 0 ∧
        state.oldBootGeneration < state.newBootGeneration ∧ state.transactionId ≠ .zero 16 ∧
        state.consentSha256 ≠ .zero 32
    · exact .inl ⟨_, (Ends.check hidentity).bind (Ends.pure _)⟩
    · exact .inr ⟨.invalidIdentity, rfl, (Ends.check_error hidentity).bind_error⟩

/-- How `Load` of a record ends. -/
theorem judges_load {board : BoardFamily}
    (hbuffers : ∀ payload, buffers payload = some payload.maximum)
    (hboard : isKnownBoardFamily board = true) (hv : Damaged v) :
    Judges (Wedged store board v) v (store.load kUpdateTransactionRoot board buffers) := by
  obtain ⟨encoded, hrecord⟩ := hv.record
  have harguments : boundedRoot kUpdateTransactionRoot = true ∧ RecordName.active ≠ .retiring ∧
      isKnownBoardFamily board = true ∧
        (Payload.all.all fun payload => (buffers payload).isSome) = true := by
    refine ⟨by decide, nofun, hboard, List.all_eq_true.mpr fun payload _ => ?_⟩
    rw [hbuffers]
    rfl
  have hlook : Ends (look (recordPath kUpdateTransactionRoot .active)) () v
      (.ok (statOf (some (.file encoded)))) v := by
    rw [← hrecord]
    exact ends_look
  unfold UpdateTransactionRequestStore.load UpdateTransactionRequestStore.loadNamed
  rw [Proc.check_bind harguments, Proc.check_bind (joins_updateTransactionRoot .active)]
  -- What wedges the request is that record.
  have hsame : ∀ {other : Content}, v.nodeAt (recordPath kUpdateTransactionRoot .active) =
      some (.file other) → other = encoded := by
    intro other hother
    rw [hrecord] at hother
    cases hother
    rfl
  by_cases hlength : encoded.length = kPersistedUpdateRequestStateBytes
  · have hread : Ends (readState (recordPath kUpdateTransactionRoot .active)) () v
        (.ok encoded) v := by
      have hstat : Ends (stat (recordPath kUpdateTransactionRoot .active)) () v
          (.ok (statOf (some (.file encoded)))) v := by
        rw [← hrecord]
        exact Ends.observe rfl
      refine hstat.orElse.bind ((Ends.check ⟨rfl, hlength⟩).bind ?_)
      exact (ends_readFile hrecord).bind (ends_report.bind (Ends.pure encoded))
    have hsteps : ∀ {m : StoreProc AuthenticatedUpdateRequest}
        {k : Bytes → StoreProc AuthenticatedUpdateRequest}, k encoded = m → ∀ r,
        Ends m () v r v → Ends (look (recordPath kUpdateTransactionRoot .active) >>= fun found =>
          Proc.check (found.type ≠ .missing) StoreFailure.notFound >>= fun _ =>
          Proc.check (found.type = .regularFile ∧ found.size = kPersistedUpdateRequestStateBytes)
            StoreFailure.corrupt >>= fun _ =>
          readState (recordPath kUpdateTransactionRoot .active) >>= k) () v r v := by
      rintro m k rfl r h
      exact hlook.bind ((Ends.check (by rintro ⟨⟩)).bind ((Ends.check ⟨rfl, hlength⟩).bind (hread.bind h)))
    cases hparse : RequestState.parse board encoded with
    | none =>
        refine .rejected ?_ rfl (hsteps (by rw [hparse]) _ (Ends.throw StoreFailure.corrupt))
        rintro ⟨other, state, hother, -, hstate, -⟩
        rw [hsame hother, hparse] at hstate
        cases hstate
    | some state =>
        by_cases hroot : store.sha256 (rootPreimage kUpdateTransactionRoot) = state.rootSha256
        · refine (judges_loadState hbuffers hv.payloads hroot).before ?_ (hsteps (by rw [hparse]))
          constructor
          · rintro ⟨other, state', hother, -, hstate, -, hat⟩
            rw [hsame hother, hparse] at hstate
            cases hstate
            exact hat
          · intro hat
            exact ⟨encoded, state, hrecord, hlength, hparse, hroot, hat⟩
        · have hends : Ends (store.loadState kUpdateTransactionRoot buffers state) () v
              (.error .invalidIdentity) v := (Ends.check_error hroot).bind_error
          refine .rejected ?_ rfl (hsteps (by rw [hparse]) _ hends)
          rintro ⟨other, state', hother, -, hstate, hidentity, -⟩
          rw [hsame hother, hparse] at hstate
          cases hstate
          exact hroot hidentity
  · refine .rejected ?_ rfl (?_ : Ends _ () v (.error .corrupt) v)
    · rintro ⟨other, state, hother, hsize, -⟩
      rw [hsame hother] at hsize
      exact hlength hsize
    · exact hlook.bind ((Ends.check (by rintro ⟨⟩)).bind (Ends.check_error fun h => hlength h.2).bind_error)

end Payloads

/-! ## Discard -/

/-- `Discard` of a record that is alone removes it. -/
theorem discard_removes {v : Volume} (hv : Damaged v) :
    ∃ world, RequestStore.discard kUpdateTransactionRoot () ⟨v, []⟩ = .done () () world ∧
      world.disk.nodeAt (recordPath kUpdateTransactionRoot .active) = none := by
  have hkeeps : keeps noFault (fun _ => True) noError (RequestStore.discard kUpdateTransactionRoot)
      (fun _ _ w => w.nodeAt (recordPath kUpdateTransactionRoot .active) = none) () v := by
    rw [discard_eq ⟨by decide, joins_updateTransactionRoot⟩]
    refine keeps_bind (keeps_look trivial (keeps_bind (keeps_look trivial ?_)))
    refine keeps_bind (keeps_check (fun hother => ?_) fun _ => ?_)
    · rw [statOf_type_eq_missing, statOf_type_eq_missing] at hother
      exact absurd hv.alone hother
    · obtain ⟨encoded, hrecord⟩ := hv.record
      refine keeps_bind (keeps_removeSynced trivial (fun hbad => ?_) fun w hupdate => ?_)
      · rw [hrecord] at hbad
        cases hbad
      · refine ⟨trivial, keeps_bind (keeps_report trivial ?_)⟩
        have hgone : w.nodeAt (recordPath kUpdateTransactionRoot .active) = none := by
          rw [hupdate, if_pos rfl]
        refine keeps_removePayloads payloadsFit_updateTransactionRoot ?_ ?_ fun x _ hsame => ?_
        · intro payload
          rw [hupdate]
          split
          · exact nofun
          · exact hv.payloads payload
        · intro payload
          rw [hupdate]
          split
          · exact nofun
          · exact hv.parts payload
        · exact (hsame .active).trans hgone
  obtain ⟨⟨⟩, ⟨⟩, world, hrun, hgone⟩ := keeps_uninterrupted hkeeps
  exact ⟨world, hrun, hgone⟩

/-! ## Run -/

section Run

variable {executor : UpdateRecoveryExecutor} {store : UpdateTransactionRequestStore}
  {resumeAfterBoot : AuthenticatedUpdateRequest → UpdateOrchestratorWorkspace →
    BootProc Unit UpdateOrchestratorResult} {reboot probe : Bool} {v : Volume}

/-- What a boot makes of a damaged record: `Run` resumes with the request that `Load` returns, or
ends with the record removed and asks for the previous boot exactly for a candidate; and it
reports no pending transaction only without a record. -/
structure Released (executor : UpdateRecoveryExecutor) (store : UpdateTransactionRequestStore)
    (resumeAfterBoot : AuthenticatedUpdateRequest → UpdateOrchestratorWorkspace →
      BootProc Unit UpdateOrchestratorResult) (probe : Bool) (v : Volume) : Prop where
  settled :
    (∃ request,
      store.load kUpdateTransactionRoot executor.runningBoard executor.requestBuffers () ⟨v, []⟩ =
          .done request () ⟨v, []⟩ ∧
        executor.run false ⟨v, []⟩ =
          Proc.isolate () (executor.resume resumeAfterBoot request) true ⟨v, []⟩) ∨
      ∃ ended world, executor.run false ⟨v, []⟩ = .done ended true world ∧
        world.disk.nodeAt (recordPath kUpdateTransactionRoot .active) = none ∧
        ended.previousBootFailsafeRequested = probe ∧ ended.candidateBoot = probe
  pending : ∀ ended s world, executor.run false ⟨v, []⟩ = .done ended s world →
    ended.status = .noPendingTransaction →
    world.disk.nodeAt (recordPath kUpdateTransactionRoot .active) = none

/-- `Run` of a configured executor. -/
theorem run_configured (h : Configured executor store resumeAfterBoot reboot probe) :
    executor.run false ⟨v, []⟩ =
      Proc.isolate () (executor.loadOrDiscard store reboot probe >>= fun ended =>
        match ended with
        | .inl request => executor.resume resumeAfterBoot request
        | .inr ended => return ended) true ⟨v, []⟩ := by
  have hbuffers : UpdateRecoveryExecutor.buffersValid executor.requestBuffers = true := by
    refine List.all_eq_true.mpr fun payload _ => decide_eq_true ?_
    rw [h.buffers]
    cases payload <;> decide
  have hvalid : (!(isKnownBoardFamily executor.runningBoard &&
      UpdateRecoveryExecutor.buffersValid executor.requestBuffers &&
      UpdateRecoveryExecutor.workspaceValid executor.orchestratorWorkspace &&
      executor.releaseDownload)) = false := by
    rw [h.board, hbuffers, h.workspace, h.download]
    rfl
  unfold UpdateRecoveryExecutor.run
  rw [h.requestStore, h.orchestrator, h.reboot, h.probe, hvalid]
  rfl

/-- `Run` by what `Load` ends with. -/
theorem run_loaded (h : Configured executor store resumeAfterBoot reboot probe)
    {loaded : Except StoreFailure AuthenticatedUpdateRequest}
    (hload : Ends (store.load kUpdateTransactionRoot executor.runningBoard executor.requestBuffers)
      () v loaded v) :
    executor.run false ⟨v, []⟩ =
      Proc.isolate () (UpdateRecoveryExecutor.afterLoad reboot probe loaded >>= fun ended =>
        match ended with
        | .inl request => executor.resume resumeAfterBoot request
        | .inr ended => return ended) true ⟨v, []⟩ := by
  rw [run_configured h]
  unfold UpdateRecoveryExecutor.loadOrDiscard
  rw [Proc.bind_assoc]
  unfold Proc.isolate
  rw [Proc.attempt_bind, hload]
  cases loaded <;> rfl

/-- `Run` once the record is removed. -/
theorem discardRejected_ends {result : UpdateRecoveryExecutorResult} {world : World Volume}
    (hresult : result.previousBootFailsafeRequested = false)
    (hdiscard : RequestStore.discard kUpdateTransactionRoot () ⟨v, []⟩ = .done () () world) :
    ∃ ended, UpdateRecoveryExecutor.discardRejected reboot probe result () ⟨v, []⟩ =
        .done ended () world ∧
      ended.previousBootFailsafeRequested = probe ∧ ended.candidateBoot = probe := by
  unfold UpdateRecoveryExecutor.discardRejected
  rw [Proc.attempt_bind, hdiscard]
  cases probe with
  | false => exact ⟨_, rfl, hresult, rfl⟩
  | true => exact ⟨_, rfl, rfl, rfl⟩

theorem run_rejected (h : Configured executor store resumeAfterBoot reboot probe) (hv : Damaged v)
    {failure : StoreFailure} (hstatus : UpdateRecoveryExecutor.mustDeactivate failure = true)
    (hload : Ends (store.load kUpdateTransactionRoot executor.runningBoard executor.requestBuffers)
      () v (.error failure) v) :
    ∃ ended world, executor.run false ⟨v, []⟩ = .done ended true world ∧
      world.disk.nodeAt (recordPath kUpdateTransactionRoot .active) = none ∧
      ended.previousBootFailsafeRequested = probe ∧ ended.candidateBoot = probe := by
  obtain ⟨world, hdiscard, hgone⟩ := discard_removes hv
  have hafter : UpdateRecoveryExecutor.afterLoad reboot probe (.error failure) =
      UpdateRecoveryExecutor.discardRejected reboot probe
        { UpdateRecoveryExecutorResult.initial with loadStatus := .error failure } >>=
          fun ended => return Sum.inr ended := by
    cases failure <;> first | rfl | cases hstatus
  have hended : ∃ ended, UpdateRecoveryExecutor.discardRejected reboot probe
      { UpdateRecoveryExecutorResult.initial with loadStatus := .error failure } () ⟨v, []⟩ =
        .done ended () world ∧
      ended.previousBootFailsafeRequested = probe ∧ ended.candidateBoot = probe :=
    discardRejected_ends rfl hdiscard
  obtain ⟨ended, hrun, hprobe⟩ := hended
  refine ⟨ended, world, ?_, hgone, hprobe⟩
  rw [run_loaded h hload, hafter, Proc.bind_assoc]
  have hbind : ∀ k : UpdateRecoveryExecutorResult → BootProc Unit UpdateRecoveryExecutorResult,
      (UpdateRecoveryExecutor.discardRejected reboot probe
        { UpdateRecoveryExecutorResult.initial with loadStatus := .error failure } >>= k) ()
          ⟨v, []⟩ = k ended () world := by
    intro k
    show Proc.bind _ k () _ = _
    unfold Proc.bind
    rw [hrun]
  unfold Proc.isolate
  rw [hbind]
  rfl

/-- `Run` with the request `Load` returned. -/
theorem run_resumed (h : Configured executor store resumeAfterBoot reboot probe)
    {request : AuthenticatedUpdateRequest}
    (hload : Ends (store.load kUpdateTransactionRoot executor.runningBoard executor.requestBuffers)
      () v (.ok request) v) :
    executor.run false ⟨v, []⟩ =
      Proc.isolate () (executor.resume resumeAfterBoot request) true ⟨v, []⟩ :=
  run_loaded h hload

theorem status_resume {request : AuthenticatedUpdateRequest} {ended : UpdateRecoveryExecutorResult}
    {s : Bool} {world : World Volume}
    (hrun : Proc.isolate () (executor.resume resumeAfterBoot request) true ⟨v, []⟩ =
      .done ended s world) : ended.status = .resumeFinished := by
  have hresume : ∀ a s' w, executor.resume resumeAfterBoot request () ⟨v, []⟩ = .done a s' w →
      a.status = .resumeFinished := by
    intro a s' w hdone
    change Proc.bind _ _ () _ = _ at hdone
    unfold Proc.bind at hdone
    cases hout : resumeAfterBoot request executor.orchestratorWorkspace () ⟨v, []⟩ with
    | done b s'' w' =>
        rw [hout] at hdone
        cases hdone
        rfl
    | error e s'' w' => exact e.elim
    | cut d =>
        rw [hout] at hdone
        cases hdone
  unfold Proc.isolate at hrun
  cases hout : executor.resume resumeAfterBoot request () ⟨v, []⟩ with
  | done a s' w =>
      rw [hout] at hrun
      cases hrun
      exact hresume _ _ _ hout
  | error e s' w => exact e.elim
  | cut d =>
      rw [hout] at hrun
      cases hrun

/-- A boot settles a damaged record exactly when the record is not wedged: where it is in order
and the first payload that is not the one it declares is missing or too large, `Run` leaves it in
place, and without the payload reports that no transaction is pending. -/
theorem released_iff (h : Configured executor store resumeAfterBoot reboot probe)
    (hv : Damaged v) :
    Released executor store resumeAfterBoot probe v ↔ ¬Wedged store executor.runningBoard v := by
  have hjudges : Judges (Wedged store executor.runningBoard v) v
      (store.load kUpdateTransactionRoot executor.runningBoard executor.requestBuffers) :=
    judges_load h.buffers h.board hv
  constructor
  · intro hreleased hwedged
    obtain ⟨failure, hstatus, hload⟩ := hjudges.wedged hwedged
    obtain ⟨encoded, hrecord⟩ := hv.record
    have hrun : ∃ ended : UpdateRecoveryExecutorResult,
        executor.run false ⟨v, []⟩ = .done ended true ⟨v, []⟩ := by
      rw [run_loaded h hload]
      rcases hstatus with rfl | rfl
      · exact ⟨_, rfl⟩
      · exact ⟨_, rfl⟩
    obtain ⟨ended, hrun⟩ := hrun
    rcases hreleased.settled with ⟨request, hload', -⟩ | ⟨ended', world, hrun', hgone, -⟩
    · rw [hload] at hload'
      cases hload'
    · rw [hrun] at hrun'
      cases hrun'
      rw [hrecord] at hgone
      cases hgone
  · intro hfree
    rcases hjudges.free hfree with ⟨request, hload⟩ | ⟨failure, hstatus, hload⟩
    · refine ⟨.inl ⟨request, hload, run_resumed h hload⟩, ?_⟩
      intro ended s world hrun hpending
      rw [run_resumed h hload] at hrun
      rw [status_resume hrun] at hpending
      cases hpending
    · have hend := run_rejected h hv hstatus hload
      refine ⟨.inr hend, ?_⟩
      intro ended s world hrun _
      obtain ⟨ended', world', hrun', hgone, -⟩ := hend
      rw [hrun'] at hrun
      cases hrun
      exact hgone

end Run

/-! ## A damaged small request -/

open UpdateTransactionRequestStore (updaterStore smallStoreRequest)

/-- The executor with buffers of the maximum sizes, for a candidate boot. -/
def roomyExecutor : UpdateRecoveryExecutor :=
  { smallExecutor with
    requestBuffers := fun payload => some payload.maximum, candidateBootProbe := some true }

theorem configured_roomyExecutor :
    Configured roomyExecutor updaterStore (fun _ _ => return .initial) true true where
  requestStore := rfl
  orchestrator := rfl
  reboot := rfl
  probe := rfl
  board := rfl
  workspace := rfl
  download := rfl
  buffers _ := rfl

/-- A transaction root with a record and some payloads. -/
def damagedVolume (encoded : Content) (payloads : List (Payload × Content)) : Volume :=
  volumeOf ((recordPath kUpdateTransactionRoot .active, encoded) ::
    payloads.map fun entry => (payloadPath kUpdateTransactionRoot entry.1, entry.2))
    [kUpdateTransactionRoot]

/-- A boot removes a truncated record, and asks for the previous boot. -/
theorem released_iff_truncated :
    Released roomyExecutor updaterStore (fun _ _ => return .initial) true
      (damagedVolume [0x42, 0x4d] [(.installed, [1])]) := by
  have hrecord : (damagedVolume [0x42, 0x4d] [(.installed, [1])]).nodeAt
      (recordPath kUpdateTransactionRoot .active) = some (.file [0x42, 0x4d]) := by
    decide +kernel
  have halone : OnlyActive kUpdateTransactionRoot
      (damagedVolume [0x42, 0x4d] [(.installed, [1])]) := ⟨by decide +kernel, by decide +kernel⟩
  refine (released_iff configured_roomyExecutor ⟨⟨_, hrecord⟩, halone, ?_, ?_⟩).mpr ?_
  · intro payload
    cases payload <;> decide +kernel
  · intro payload
    cases payload <;> decide +kernel
  · rintro ⟨encoded, state, hencoded, hlength, -⟩
    rw [hrecord] at hencoded
    cases hencoded
    exact absurd hlength (by decide)

/-- The record of the small request without its manifest. -/
def unmannedVolume : Volume :=
  damagedVolume (updaterStore.stateOf smallStoreRequest smallDownload).encode
    [(.installed, [1]), (.gitHub, [2]), (.signature, [4])]

/-- Whether a boot reported that no transaction is pending and left the record. -/
def leavesRecord : Outcome Empty Bool Volume UpdateRecoveryExecutorResult → Bool
  | .done ended _ world => decide (ended.status = .noPendingTransaction ∧
      world.disk.nodeAt (recordPath kUpdateTransactionRoot .active) ≠ none)
  | _ => false

/-- A boot reports that no transaction is pending, and the record stays. -/
theorem released_fails : Damaged unmannedVolume ∧
    ¬Released roomyExecutor updaterStore (fun _ _ => return .initial) true unmannedVolume := by
  constructor
  · refine ⟨⟨(updaterStore.stateOf smallStoreRequest smallDownload).encode, by decide +kernel⟩,
      ⟨by decide +kernel, by decide +kernel⟩, ?_, ?_⟩
    · intro payload
      cases payload <;> decide +kernel
    · intro payload
      cases payload <;> decide +kernel
  · intro h
    have hrun : leavesRecord (roomyExecutor.run false ⟨unmannedVolume, []⟩) = true := by
      decide +kernel
    cases hout : roomyExecutor.run false ⟨unmannedVolume, []⟩ with
    | done ended s world =>
        rw [hout] at hrun
        obtain ⟨hpending, hpresent⟩ := of_decide_eq_true hrun
        exact hpresent (h.pending ended s world hout hpending)
    | error e s world => exact e.elim
    | cut d =>
        rw [hout] at hrun
        cases hrun

end RecoveryExecutor

end BmxUpdate
