import BmxUpdate.Library.Components
import BmxUpdate.Orchestrator.Flow
import BmxUpdate.Installer.Run
import BmxUpdate.RequestStore.RoundTrip

/-!
# A pending request of another transaction

`Start` on a transaction root that holds the record of an earlier request, with
the request store on the volume and any other collaborators.  `Save` leaves such
a root alone and never returns `Ok`; the cleanup that follows a refused
`Persist` discards whatever the root holds.  So the earlier request survives a
failed `Start` exactly when that cleanup is not reached, or cannot remove the
record (`Discard`'s own checks, `Spares`).
-/

namespace BmxUpdate

open Crash Volumes Wire Interaction RequestStore

namespace PendingRequest

/-- A call and its answer. -/
abbrev Call := Event Operation Answer

/-- The calls of a run so far, newest first. -/
abbrev Past := History Operation Answer

/-! ## The store as a collaborator -/

/-- The status of `Persist`. -/
def persistStatus : Except StoreFailure Unit → UpdateRequestPersistenceStatus
  | .ok () => .ok
  | .error _ => .failed

/-- The status of `RetainCommitted`. -/
def retainStatus : Except PersistenceFailure Unit → UpdateRequestPersistenceStatus
  | .ok () => .ok
  | .error .failed => .failed
  | .error .recoveryProgressFailed => .recoveryProgressFailed

/-- Run a call and give its status back. -/
def withStatus {ε : Type} (status : Except ε Unit → UpdateRequestPersistenceStatus)
    (m : Proc ε Unit Volume Unit) : FsProc Unit UpdateRequestPersistenceStatus := do
  let returned ← Proc.attempt m
  return status returned

/-- The operations the request store serves. -/
def requestStore (store : UpdateTransactionRequestStore) : Component Operation Answer Volume
  | .persist request => some (withStatus persistStatus (store.save request))
  | .discardPersisted binding =>
      some (if binding.transactionRoot = [] then return .failed
        else withStatus persistenceStatus (discard binding.transactionRoot))
  | .deactivatePersisted => some (withStatus persistenceStatus deactivate)
  | .retainCommitted binding =>
      some (withStatus retainStatus (RequestStore.retainCommitted binding.transactionRoot))
  | .discardRetainedCommitted binding =>
      some (if binding.transactionRoot = kUpdateTransactionRoot then
          withStatus persistenceStatus (discardCommitted binding.transactionRoot)
        else return .failed)
  | _ => none

/-- The files of the store are as they were. -/
def LeavesFiles (root : Path) (v w : Volume) : Prop :=
  ∀ file, w.nodeAt (filePath root file) = v.nodeAt (filePath root file)

instance (root : Path) : FrameRel (LeavesFiles root) where
  refl _ _ := rfl
  trans hab hbc file := (hbc file).trans (hab file)

/-- The surroundings of a run: the store on a volume, and collaborators that
answer anything and leave its files alone. -/
abbrev around (store : UpdateTransactionRequestStore) (root : Path)
    (faults : Schedules Operation Answer) : Surroundings Operation Answer (Volume × Past) :=
  onDisk (requestStore store) faults fun _ => LeavesFiles root

/-! ## Save where another record is -/

section Save

variable {store : UpdateTransactionRequestStore} {request : AuthenticatedUpdateRequest}
  {root : Path} {d d₀ : Volume} {encoded : Content} {allow : Fault → Prop}

/-- A file that is there stays as it is through a fresh write. -/
theorem LeavesFiles.fresh {file : StoreFile} {content : Content}
    (hfresh : Fresh root file content d₀ d) (hpresent : d₀.nodeAt (filePath root file) ≠ none) :
    LeavesFiles root d₀ d := by
  intro other
  by_cases hother : other = file
  · subst hother
    rcases hfresh.here with hsame | ⟨hnone, -⟩
    · exact hsame
    · exact absurd hnone hpresent
  · exact hfresh.other_eq hother

/-- Files that are there and the store wants are verified, or the write fails. -/
theorem keeps_writeFreshVerified_present (file : StoreFile) {content : Content} {hash : Digest}
    (hd : LeavesFiles root d₀ d) (hpresent : d₀.nodeAt (filePath root file) ≠ none)
    {Q : Unit → Unit → Volume → Prop}
    (h : ∀ d', LeavesFiles root d₀ d' →
      store.Verified d' (filePath root file) content.length hash → Q () () d') :
    keeps allow (LeavesFiles root d₀) anyError
      (store.writeFreshVerified root file.fileName content hash) Q () d := by
  have hpresent' : d.nodeAt (filePath root file) ≠ none := hd file ▸ hpresent
  refine keeps_mono (keeps_writeFreshVerified file content
    (FrameRel.refl d) fun d' hfresh hverified => ?_) (fun d' hfresh => ?_) (fun _ h => h)
    fun _ _ _ h => h
  · exact h d' (FrameRel.trans hd (LeavesFiles.fresh hfresh hpresent')) hverified
  · exact FrameRel.trans hd (LeavesFiles.fresh hfresh hpresent')

/-- `Save` where the record of another request and payloads are: nothing of it
changes, and it does not return. -/
theorem keeps_save_pending
    (hrecord : d.nodeAt (recordPath request.transactionRoot .active) = some (.file encoded))
    (hpayload : ∀ which, d.nodeAt (payloadPath request.transactionRoot which) ≠ none)
    (hother : ∀ release, request.release = some release →
      store.sha256 encoded ≠ store.sha256 (store.stateOf request release).encode) :
    keeps allow (LeavesFiles request.transactionRoot d) anyError (store.save request)
      (fun _ _ _ => False) () d := by
  have hd : LeavesFiles request.transactionRoot d d := FrameRel.refl d
  refine keeps_bind (keeps_check (fun _ => ⟨hd, trivial⟩) fun _ => ?_)
  refine keeps_bind (keeps_check (fun _ => ⟨hd, trivial⟩) fun _ => ?_)
  cases hrelease : request.release with
  | none => exact keeps_throw hd trivial
  | some release =>
  refine keeps_bind (keeps_check (fun _ => ⟨hd, trivial⟩) fun _ => ?_)
  refine keeps_bind (keeps_check (fun _ => ⟨hd, trivial⟩) fun _ => ?_)
  refine keeps_bind (keeps_look hd (keeps_bind (keeps_look hd ?_)))
  refine keeps_bind (keeps_check (fun _ => ⟨hd, trivial⟩) fun _ => ?_)
  refine keeps_bind (keeps_forIndexed (fun _ _ => LeavesFiles request.transactionRoot d) ?_ hd ?_)
  · intro _ which _ v _ hv
    refine keeps_bind (keeps_check (fun _ => ⟨hv, trivial⟩) fun _ => ?_)
    exact keeps_writeFreshVerified_present (.payload which) hv (hpayload which)
      fun _ h _ => h
  · intro _ v hv
    refine keeps_bind (keeps_check (fun _ => ⟨hv, trivial⟩) fun _ => ?_)
    refine keeps_writeFreshVerified_present (.record .active) hv ?_
      fun w hw hverified => ?_
    · rw [hrecord]
      exact nofun
    · obtain ⟨content, hfile, -, hhash⟩ := hverified
      rw [Volume.fileAt_eq_some_iff, hw (.record .active), hrecord] at hfile
      obtain rfl : encoded = content := by simpa using hfile
      exact hother release hrelease hhash

/-- So `Persist` is refused, whatever the faults. -/
theorem save_pending
    (hrecord : d.nodeAt (recordPath request.transactionRoot .active) = some (.file encoded))
    (hpayload : ∀ which, d.nodeAt (payloadPath request.transactionRoot which) ≠ none)
    (hother : ∀ release, request.release = some release →
      store.sha256 encoded ≠ store.sha256 (store.stateOf request release).encode)
    (faults : List Fault) :
    LeavesFiles request.transactionRoot d (store.save request () ⟨d, faults⟩).disk ∧
      ∀ returned, (store.save request () ⟨d, faults⟩).returned = some returned →
        persistStatus returned = .failed := by
  have hkeeps : keeps anyFault _ _ _ _ _ _ := keeps_save_pending hrecord hpayload hother
  have hrun := hkeeps faults fun _ _ => trivial
  cases hout : store.save request () ⟨d, faults⟩ with
  | done a s w =>
      rw [hout] at hrun
      exact hrun.1.elim
  | error e s w =>
      rw [hout] at hrun
      refine ⟨hrun.1.1, fun returned hreturned => ?_⟩
      obtain rfl := Option.some.inj hreturned
      rfl
  | cut w =>
      rw [hout] at hrun
      exact ⟨hrun.1, nofun⟩

end Save

/-! ## Discard, operation by operation -/

/-- `Discard` ends before the record is removed: at one of its two `Stat` calls,
or at its `RemoveFile` without effect. -/
def Spares : List Fault → Prop
  | .fail _ :: _ | .cut _ :: _ => True
  | .ok :: .fail _ :: _ | .ok :: .cut _ :: _ => True
  | .ok :: .ok :: .fail 0 :: _ | .ok :: .ok :: .cut 0 :: _ => True
  | _ => False

/-- No record is beside the active one. -/
def OnlyActive (root : Path) (v : Volume) : Prop :=
  v.nodeAt (recordPath root .committed) = none ∧ v.nodeAt (recordPath root .retiring) = none

/-- `Discard` is given a root it can work on. -/
def Discardable (root : Path) : Prop :=
  boundedRoot root = true ∧ ∀ name : RecordName, joins root name.fileName = true

section Discard

variable {root path : Path} {d : Volume} {content : Content} {α : Type}

theorem run_look {k : UpdateFileStat → StoreProc α} (faults : List Fault) :
    (look path >>= k) () ⟨d, faults⟩ =
      match faults with
      | [] => k (statOf (d.nodeAt path)) () ⟨d, []⟩
      | .ok :: rest => k (statOf (d.nodeAt path)) () ⟨d, rest⟩
      | .fail _ :: rest => .error .fileSystemError () ⟨d, rest⟩
      | .cut _ :: _ => .cut d := by
  rcases faults with _ | ⟨_ | _ | _, _⟩ <;> rfl

theorem run_removeFile {k : Unit → StoreProc α} (hfile : d.fileAt path = some content) :
    ∃ w, Updates d path none w ∧ ∀ faults,
      (Proc.orElse .fileSystemError (removeFile path) >>= k) () ⟨d, faults⟩ =
        match faults with
        | [] => k () () ⟨w, []⟩
        | .ok :: rest => k () () ⟨w, rest⟩
        | .fail 0 :: rest => .error .fileSystemError () ⟨d, rest⟩
        | .fail (_ + 1) :: rest => .error .fileSystemError () ⟨w, rest⟩
        | .cut 0 :: _ => .cut d
        | .cut (_ + 1) :: _ => .cut w := by
  obtain ⟨w, hw, hupdate⟩ := Volume.removeFile_eq_some hfile
  refine ⟨w, hupdate, fun faults => ?_⟩
  rw [Volume.fileAt_eq_some_iff] at hfile
  change Proc.bind _ k _ _ = _
  unfold Proc.bind Proc.orElse Proc.mapError removeFile Proc.act
  dsimp only
  rw [hfile]
  dsimp only
  rw [hw]
  rcases faults with _ | ⟨_ | n | n, rest⟩
  · rfl
  · rfl
  · cases n <;> rfl
  · cases n <;> rfl

/-- What `Discard` does once its arguments are checked. -/
theorem discard_eq (hroot : Discardable root) :
    RequestStore.discard root = (do
      let other ← look (recordPath root .committed)
      let retiring ← look (recordPath root .retiring)
      Proc.check (other.type = .missing ∧ retiring.type = .missing) .conflict
      removeSynced (recordPath root .active)
      report
      removePayloads root) := by
  unfold RequestStore.discard
  rw [Proc.check_bind hroot.1, Proc.check_bind (hroot.2 .committed),
    Proc.check_bind (hroot.2 .retiring)]
  simp only [Proc.check_bind (hroot.2 .active)]

/-- A removed file does not come back. -/
theorem keeps_removePayloads_none {allow : Fault → Prop} (hd : d.nodeAt path = none) :
    keeps allow (fun v => v.nodeAt path = none) anyError (removePayloads root)
      (fun _ _ v => v.nodeAt path = none) () d := by
  have hnone : ∀ {v w p}, v.nodeAt path = none → Updates v p none w → w.nodeAt path = none := by
    intro v w p hv hupdate
    rw [hupdate]
    split
    · rfl
    · exact hv
  refine keeps_forIndexed (fun _ _ v => v.nodeAt path = none) ?_ hd fun _ _ h => h
  intro _ which _ v _ hv
  refine keeps_bind (keeps_check (fun _ => ⟨hv, trivial⟩) fun _ => ?_)
  refine keeps_bind (keeps_removeSynced hv (fun _ => trivial) fun w hupdate => ?_)
  have hw := hnone hv hupdate
  refine ⟨hw, keeps_bind (keeps_report hw ?_)⟩
  refine keeps_bind (keeps_check (fun _ => ⟨hw, trivial⟩) fun _ => ?_)
  refine keeps_bind (keeps_removeSynced hw (fun _ => trivial) fun x hupdate' => ?_)
  have hx := hnone hw hupdate'
  exact ⟨hx, keeps_report hx hx⟩

/-- Beside another record `Discard` changes nothing. -/
theorem discard_conflict (hroot : Discardable root) (hother : ¬OnlyActive root d)
    (faults : List Fault) : (RequestStore.discard root () ⟨d, faults⟩).disk = d := by
  have hkeeps : keeps anyFault (· = d) anyError (RequestStore.discard root) (fun _ _ => (· = d)) ()
      d := by
    rw [discard_eq hroot]
    refine keeps_bind (keeps_look rfl (keeps_bind (keeps_look rfl ?_)))
    refine keeps_bind (keeps_check (fun _ => ⟨rfl, trivial⟩) fun hmissing => ?_)
    rw [statOf_type_eq_missing, statOf_type_eq_missing] at hmissing
    exact absurd hmissing hother
  exact keeps_disk hkeeps fun _ _ => trivial

/-- How `Discard` of the active record ends: with nothing changed, or with the
record gone. -/
def Decides (root : Path) (d : Volume) (spared : Prop)
    (outcome : Outcome StoreFailure Unit Volume Unit) : Prop :=
  spared ∧ outcome.disk = d ∨ ¬spared ∧ outcome.disk.nodeAt (recordPath root .active) = none

/-- The end of `Discard`, from the removal of the record on. -/
theorem decides_remove (hfile : d.fileAt (recordPath root .active) = some content)
    (faults : List Fault) :
    Decides root d (Spares (.ok :: .ok :: faults))
      ((removeSynced (recordPath root .active) >>= fun _ =>
        report >>= fun _ => removePayloads root) () ⟨d, faults⟩) := by
  unfold removeSynced
  rw [Proc.bind_assoc]
  obtain ⟨w, hupdate, hrun⟩ := run_removeFile (k := fun _ =>
    Proc.orElse .fileSystemError (syncContainingDirectory (recordPath root .active)) >>= fun _ =>
      report >>= fun _ => removePayloads root) hfile
  have hnone : w.nodeAt (recordPath root .active) = none := by rw [hupdate, if_pos rfl]
  have hrest : ∀ faults, ((Proc.orElse .fileSystemError
      (syncContainingDirectory (recordPath root .active)) >>= fun _ =>
        report >>= fun _ => removePayloads root) () ⟨w, faults⟩).disk.nodeAt
          (recordPath root .active) = none := by
    intro faults
    have hkeeps : keeps anyFault (fun v => v.nodeAt (recordPath root .active) = none) anyError
        (Proc.orElse .fileSystemError (syncContainingDirectory (recordPath root .active)) >>=
          fun _ => report >>= fun _ => removePayloads root)
        (fun _ _ v => v.nodeAt (recordPath root .active) = none) () w :=
      keeps_bind (keeps_syncOr hnone (keeps_bind (keeps_report hnone
        (keeps_removePayloads_none hnone))))
    exact keeps_disk hkeeps fun _ _ => trivial
  rw [hrun]
  rcases faults with _ | ⟨_ | n | n, rest⟩
  · exact Or.inr ⟨id, hrest []⟩
  · exact Or.inr ⟨id, hrest rest⟩
  · cases n with
    | zero => exact Or.inl ⟨trivial, rfl⟩
    | succ n => exact Or.inr ⟨id, hnone⟩
  · cases n with
    | zero => exact Or.inl ⟨trivial, rfl⟩
    | succ n => exact Or.inr ⟨id, hnone⟩

/-- Where the active record is the only one, `Discard` removes it unless its
first operations fail. -/
theorem discard_decides (hroot : Discardable root) (honly : OnlyActive root d)
    (hfile : d.fileAt (recordPath root .active) = some content) (faults : List Fault) :
    Decides root d (Spares faults) (RequestStore.discard root () ⟨d, faults⟩) := by
  have hmissing : (statOf (d.nodeAt (recordPath root .committed))).type = .missing ∧
      (statOf (d.nodeAt (recordPath root .retiring))).type = .missing := by
    rw [statOf_type_eq_missing, statOf_type_eq_missing]
    exact honly
  have hsecond : ∀ faults, Decides root d (Spares (.ok :: faults))
      ((look (recordPath root .retiring) >>= fun retiring =>
        Proc.check ((statOf (d.nodeAt (recordPath root .committed))).type = .missing ∧
          retiring.type = .missing) .conflict >>= fun _ =>
        removeSynced (recordPath root .active) >>= fun _ =>
        report >>= fun _ => removePayloads root) () ⟨d, faults⟩) := by
    intro faults
    rw [run_look]
    rcases faults with _ | ⟨_ | n | n, rest⟩
    · dsimp only
      rw [Proc.check_bind hmissing]
      exact decides_remove hfile []
    · dsimp only
      rw [Proc.check_bind hmissing]
      exact decides_remove hfile rest
    · exact Or.inl ⟨trivial, rfl⟩
    · exact Or.inl ⟨trivial, rfl⟩
  rw [discard_eq hroot, run_look]
  rcases faults with _ | ⟨_ | n | n, rest⟩
  · exact hsecond []
  · exact hsecond rest
  · exact Or.inl ⟨trivial, rfl⟩
  · exact Or.inl ⟨trivial, rfl⟩

end Discard

/-! ## Start -/

/-- The archive storage began a transaction. -/
def Begins : Call → Prop
  | ⟨.begin _, status⟩ => status = ArchiveStorageStatus.ok
  | _ => False

/-- The cleanup after a refused `Persist` is not reached, or cannot remove the
record. -/
def Spared (root : Path) (v : Volume) (faults : Schedules Operation Answer) (past : Past) : Prop :=
  ¬Once (fun call _ => Begins call) past ∨ ¬OnlyActive root v ∨ Spares (faults past.tail)

section Start

variable {store : UpdateTransactionRequestStore} {faults : Schedules Operation Answer}
  {policy : ReleasePolicy} {workspace : UpdateOrchestratorWorkspace}
  {request : AuthenticatedUpdateRequest} {offer : ReleaseOffer}
  {binding : AuthenticatedUpdateBinding} {result : UpdateOrchestratorResult}
  {v w : Volume} {past : Past} {encoded : Content}

/-- A run of `Start` up to `Begin`: the files of the store are as they were. -/
structure Idle (root : Path) (v w : Volume) (past : Past) : Prop where
  leaves : LeavesFiles root v w
  notBegun : ¬Once (fun call _ => Begins call) past

/-- The end of a run of `Start`. -/
def Settled (root : Path) (v : Volume) (faults : Schedules Operation Answer)
    (result : UpdateOrchestratorResult) (w : Volume × Past) : Prop :=
  result.status ≠ .candidateRebootRequested ∧
    (Spared root v faults w.2 ∧ LeavesFiles root v w.1 ∨
      ¬Spared root v faults w.2 ∧ w.1.nodeAt (recordPath root .active) = none)

/-- Every run of a part of `Start` ends settled. -/
abbrev Settles (store : UpdateTransactionRequestStore) (root : Path) (v : Volume)
    (faults : Schedules Operation Answer) (flow : Flow UpdateOrchestratorResult) (w : Volume)
    (past : Past) : Prop :=
  flow.Guarded (around store root faults) (fun _ _ => True) (Settled root v faults) (w, past)

/-- A run that ends before `Begin`. -/
theorem Idle.settles {root : Path} (h : Idle root v w past)
    (hstatus : result.status ≠ .candidateRebootRequested) :
    Settles store root v faults (return result) w past :=
  Program.guarded_pure ⟨hstatus, Or.inl ⟨Or.inl h.notBegun, h.leaves⟩⟩

/-- A call of a collaborator before `Begin`. -/
theorem settles_ask {root : Path} (op : Operation)
    {k : Answer op → Flow UpdateOrchestratorResult}
    (hserved : requestStore store op = none) (hbegins : ∀ x, ¬Begins ⟨op, x⟩)
    (h : Idle root v w past)
    (hk : ∀ x w', Idle root v w' (⟨op, x⟩ :: past) →
      Settles store root v faults (k x) w' (⟨op, x⟩ :: past)) :
    Settles store root v faults (ask op >>= k) w past := by
  refine Program.guarded_unserved hserved trivial fun x w' hleaves => ?_
  exact hk x w' ⟨FrameRel.trans h.leaves hleaves, not_once_cons (hbegins x) h.notBegun⟩

/-- What a call of the store has answered. -/
theorem withStatus_result {ε : Type} {status : Except ε Unit → UpdateRequestPersistenceStatus}
    {m : Proc ε Unit Volume Unit} {d : Volume} {schedule : List Fault}
    {x : UpdateRequestPersistenceStatus}
    (h : (withStatus status m () ⟨d, schedule⟩).result = some x) :
    (∃ returned, (m () ⟨d, schedule⟩).returned = some returned ∧ x = status returned) ∧
      (withStatus status m () ⟨d, schedule⟩).disk = (m () ⟨d, schedule⟩).disk := by
  change (Proc.bind (Proc.attempt m) _ () _).result = some x at h
  change _ ∧ (Proc.bind (Proc.attempt m) _ () _).disk = _
  unfold Proc.bind Proc.attempt at h ⊢
  cases hrun : m () ⟨d, schedule⟩ with
  | done a s w =>
      rw [hrun] at h
      exact ⟨⟨_, rfl, (Option.some.inj h).symm⟩, rfl⟩
  | error e s w =>
      rw [hrun] at h
      exact ⟨⟨_, rfl, (Option.some.inj h).symm⟩, rfl⟩
  | cut d' =>
      rw [hrun] at h
      cases h

/-- The cleanup after a refused `Persist`. -/
theorem settles_abortDownload {failure : UpdateOrchestratorStatus}
    (hfailure : failure ≠ .candidateRebootRequested)
    (hroot : Discardable binding.transactionRoot) (hne : binding.transactionRoot ≠ [])
    (hrecord : v.nodeAt (recordPath binding.transactionRoot .active) = some (.file encoded))
    (hleaves : LeavesFiles binding.transactionRoot v w)
    (hbegun : Once (fun call _ => Begins call) past) :
    Settles store binding.transactionRoot v faults (abortDownload failure binding result) w
      past := by
  refine Program.guarded_bind ?_
  refine Program.guarded_unserved rfl trivial fun _ w₁ hleaves₁ => ?_
  have hleaves₁ := FrameRel.trans hleaves hleaves₁
  refine Program.guarded_served rfl trivial fun x hresult => ?_
  rw [if_neg hne] at hresult ⊢
  obtain ⟨-, hdisk⟩ := withStatus_result hresult
  have hfile : w₁.fileAt (recordPath binding.transactionRoot .active) = some encoded := by
    rw [Volume.fileAt_eq_some_iff, hleaves₁ (.record .active)]
    exact hrecord
  have honly : OnlyActive binding.transactionRoot w₁ ↔ OnlyActive binding.transactionRoot v := by
    unfold OnlyActive
    rw [hleaves₁ (.record .committed), hleaves₁ (.record .retiring)]
  have hbegun' := since_later (P := fun _ : Call => True) (e := ⟨.discardPersisted binding, x⟩)
    trivial (since_later (P := fun _ : Call => True) (e := ⟨.abort, ()⟩) trivial hbegun)
  refine Program.guarded_pure ⟨?_, ?_⟩
  · change (if decide (x = .ok) then failure else UpdateOrchestratorStatus.cleanupFailed) ≠ _
    split
    · exact hfailure
    · exact nofun
  unfold Spared
  rw [hdisk]
  by_cases hactive : OnlyActive binding.transactionRoot w₁
  · rcases discard_decides hroot hactive hfile (faults (⟨.abort, ()⟩ :: past)) with
      ⟨hspares, hsame⟩ | ⟨hspares, hgone⟩
    · refine Or.inl ⟨Or.inr (Or.inr hspares), ?_⟩
      rw [hsame]
      exact hleaves₁
    · refine Or.inr ⟨?_, hgone⟩
      rintro (hnone | hother | hspared)
      · exact hnone hbegun'
      · exact hother (honly.mp hactive)
      · exact hspares hspared
  · refine Or.inl ⟨Or.inr (Or.inl (mt honly.mpr hactive)), ?_⟩
    rw [discard_conflict hroot hactive]
    exact hleaves₁

/-- `Start` from the last check before it changes anything on. -/
theorem settles_startPersist (hroot : Discardable request.transactionRoot)
    (hbinding : binding.transactionRoot = request.transactionRoot)
    (hrecord : v.nodeAt (recordPath request.transactionRoot .active) = some (.file encoded))
    (hpayload : ∀ which, v.nodeAt (payloadPath request.transactionRoot which) ≠ none)
    (hother : ∀ release, request.release = some release →
      store.sha256 encoded ≠ store.sha256 (store.stateOf request release).encode)
    (h : Idle request.transactionRoot v w past) :
    Settles store request.transactionRoot v faults
      (startPersist policy workspace request offer binding result) w past := by
  have hne : request.transactionRoot ≠ [] := by
    intro hnil
    have hbounded := hroot.1
    rw [hnil] at hbounded
    revert hbounded
    decide
  have hcontinue : ∀ {w past}, Idle request.transactionRoot v w past →
      Settles store request.transactionRoot v faults (do
        let begun ← ask (.begin binding)
        let result := { { result with phase := .download } with storageStatus := begun }
        if begun ≠ .ok then return { result with status := .storageBeginFailed }
        else do
          let persisted ← ask (.persist request)
          let result := { result with phase := .persistRequest, persistenceStatus := persisted }
          if persisted ≠ .ok then abortDownload .requestPersistenceFailed binding result
          else startDownload policy workspace offer binding result) w past := by
    intro w past h
    refine Program.guarded_unserved rfl trivial fun begun w₁ hleaves => ?_
    have hleaves := FrameRel.trans h.leaves hleaves
    dsimp only
    split
    · next hrefused =>
      exact Idle.settles ⟨hleaves, not_once_cons hrefused h.notBegun⟩ nofun
    · next hbegun =>
      have hbegun : begun = .ok := not_not.mp hbegun
      refine Program.guarded_served rfl trivial fun persisted hresult => ?_
      obtain ⟨⟨returned, hreturned, rfl⟩, hdisk⟩ := withStatus_result hresult
      have hrecord₁ := (hleaves (.record .active)).trans hrecord
      have hpayload₁ : ∀ which,
          w₁.nodeAt (payloadPath request.transactionRoot which) ≠ none := fun which =>
        hleaves (.payload which) ▸ hpayload which
      obtain ⟨hsave, hfailed⟩ := save_pending hrecord₁ hpayload₁ hother
        (faults (⟨.begin binding, begun⟩ :: past))
      rw [hdisk, hfailed returned hreturned]
      have hrefused : UpdateRequestPersistenceStatus.failed ≠ .ok := nofun
      rw [if_pos hrefused]
      have hbegun' : Once (fun call _ => Begins call)
          (⟨.persist request, UpdateRequestPersistenceStatus.failed⟩ ::
            ⟨.begin binding, begun⟩ :: past) := since_later trivial (since_now hbegun)
      rw [← hbinding] at hroot hne hrecord hsave hleaves ⊢
      exact settles_abortDownload nofun hroot hne hrecord (FrameRel.trans hleaves hsave) hbegun'
  unfold startPersist reportProgress
  dsimp only
  split
  · refine settles_ask _ rfl (fun _ => id) h fun checkpoint w' h' => ?_
    split
    · exact h'.settles nofun
    · exact hcontinue h'
  · exact hcontinue h

/-- `Start` with a validated request. -/
theorem settles_startAuthorize {digest : Digest} (hroot : Discardable request.transactionRoot)
    (hrecord : v.nodeAt (recordPath request.transactionRoot .active) = some (.file encoded))
    (hpayload : ∀ which, v.nodeAt (payloadPath request.transactionRoot which) ≠ none)
    (hother : ∀ release, request.release = some release →
      store.sha256 encoded ≠ store.sha256 (store.stateOf request release).encode)
    (h : Idle request.transactionRoot v w past) :
    Settles store request.transactionRoot v faults
      (startAuthorize policy workspace request offer digest result) w past := by
  unfold startAuthorize
  refine settles_ask _ rfl (fun _ => id) h fun supported w₁ h₁ => ?_
  split
  · exact h₁.settles nofun
  split
  · exact h₁.settles nofun
  refine settles_ask _ rfl (fun _ => id) h₁ fun authorized w₂ h₂ => ?_
  dsimp only
  split
  · exact h₂.settles nofun
  refine settles_ask _ rfl (fun _ => id) h₂ fun probed w₃ h₃ => ?_
  split
  · refine h₃.settles ?_
    dsimp only
    split <;> nofun
  · exact settles_startPersist hroot rfl hrecord hpayload hother h₃

/-- `Start` on a root with the record of another request. -/
theorem settles_start {collaborators : Collaborators}
    (hroot : Discardable request.transactionRoot)
    (hrecord : v.nodeAt (recordPath request.transactionRoot .active) = some (.file encoded))
    (hpayload : ∀ which, v.nodeAt (payloadPath request.transactionRoot which) ≠ none)
    (hother : ∀ release, request.release = some release →
      store.sha256 encoded ≠ store.sha256 (store.stateOf request release).encode) :
    Settles store request.transactionRoot v faults (start policy workspace collaborators request)
      v [] := by
  have h : Idle request.transactionRoot v v [] := ⟨FrameRel.refl v, id⟩
  unfold start
  dsimp only
  split
  · exact h.settles nofun
  split
  · exact h.settles nofun
  refine settles_ask _ rfl (fun _ => id) h fun revalidated w₁ h₁ => ?_
  split
  · exact h₁.settles nofun
  split
  · next rejected _ =>
    refine h₁.settles ?_
    cases rejected <;> nofun
  · exact settles_startAuthorize hroot hrecord hpayload hother h₁

/-- The earlier request is as it was, and loaded. -/
structure StillPending (store : UpdateTransactionRequestStore)
    (earlier : AuthenticatedUpdateRequest) (release : ValidatedReleaseDownload)
    (v w : Volume) : Prop where
  record : w.nodeAt (recordPath earlier.transactionRoot .active) =
    v.nodeAt (recordPath earlier.transactionRoot .active)
  payload : ∀ which, w.nodeAt (payloadPath earlier.transactionRoot which) =
    v.nodeAt (payloadPath earlier.transactionRoot which)
  loads : ∀ buffers, UpdateTransactionRequestStore.Fits release buffers →
    (store.load earlier.transactionRoot earlier.runningBoard buffers () ⟨w, []⟩).returned =
      some (.ok (UpdateTransactionRequestStore.withoutToken earlier))

/-- A run of `Start` on a root where an earlier request is persisted, for a
request with another record, does not arm a candidate; it leaves the earlier
request pending exactly when the cleanup after its own refused `Persist` is not
reached or cannot remove the record. -/
theorem start_keeps_pending_iff {collaborators : Collaborators}
    {earlier : AuthenticatedUpdateRequest} {release : ValidatedReleaseDownload}
    (hrelease : earlier.release = some release)
    (haccepted : UpdateTransactionRequestStore.Accepted earlier)
    (hsaved : store.Saved earlier release v)
    (hroot : request.transactionRoot = earlier.transactionRoot)
    (hdifferent : ∀ release', request.release = some release' →
      (store.stateOf request release').encode ≠ (store.stateOf earlier release).encode)
    (hcollision : ∀ release', request.release = some release' →
      store.sha256 (store.stateOf earlier release).encode =
          store.sha256 (store.stateOf request release').encode →
        (store.stateOf earlier release).encode = (store.stateOf request release').encode)
    (hrun : Reaches (around store request.transactionRoot faults)
      (some (start policy workspace collaborators request), (v, []))
      (some (.pure result), (w, past))) :
    result.status ≠ .candidateRebootRequested ∧
      (StillPending store earlier release v w ↔ Spared earlier.transactionRoot v faults past) := by
  obtain ⟨-, hbounded, -⟩ :=
    UpdateTransactionRequestStore.identity_of_requestValid hrelease haccepted.valid
  have hdiscardable : Discardable earlier.transactionRoot := ⟨hbounded, haccepted.joined.1⟩
  have hother : ∀ release', request.release = some release' →
      store.sha256 (store.stateOf earlier release).encode ≠
        store.sha256 (store.stateOf request release').encode := fun release' hrelease' hhash =>
    hdifferent release' hrelease' (hcollision release' hrelease' hhash).symm
  have hpresent : ∀ which, v.nodeAt (payloadPath earlier.transactionRoot which) ≠ none := by
    intro which
    rw [hsaved.payload which]
    exact nofun
  rw [← hroot] at hdiscardable hpresent
  have hrecord := hsaved.record
  rw [← hroot] at hrecord
  obtain ⟨hstatus, hsettled⟩ := Program.guarded_of_reaches
    (settles_start hdiscardable hrecord hpresent hother) hrun
  refine ⟨hstatus, fun hpending => ?_, fun hspared => ?_⟩
  · rw [hroot] at hsettled
    rcases hsettled with ⟨hspared, -⟩ | ⟨-, hgone⟩
    · exact hspared
    · have hkept := hpending.record
      rw [hsaved.record] at hkept
      exact absurd (hkept.symm.trans hgone) nofun
  · rw [hroot] at hsettled
    rcases hsettled with ⟨-, hleaves⟩ | ⟨hspared', -⟩
    · refine ⟨hleaves (.record .active), fun which => hleaves (.payload which),
        fun buffers hfits => ?_⟩
      have hsaved' : store.Saved earlier release w :=
        ⟨fun which => (hleaves (.payload which)).trans (hsaved.payload which),
          (hleaves (.record .active)).trans hsaved.record⟩
      exact UpdateTransactionRequestStore.load_saved hrelease hsaved' haccepted.valid
        haccepted.joined hfits
    · exact absurd hspared hspared'

end Start

/-! ## A small run -/

/-- The release of the small requests. -/
def smallDownload : ValidatedReleaseDownload := ⟨.publishedStable, [1], [2], [3], [4]⟩

/-- The small request under another transaction. -/
def laterRequest : AuthenticatedUpdateRequest :=
  { UpdateTransactionRequestStore.smallStoreRequest with transactionId := .ofBytes 16 [2] }

open UpdateTransactionRequestStore (updaterStore smallStoreRequest)

/-- The volume on which the small request was saved. -/
def pendingVolume : Volume := (updaterStore.save smallStoreRequest () ⟨.empty, []⟩).disk

/-- The run of `Start` for the later request. -/
def laterStart (faults : Schedules Operation Answer) :
    Option (UpdateOrchestratorResult × Volume × Past) :=
  runOnDisk (requestStore updaterStore) faults (obliging smallOffer (smallArchive []) [])
    (start smallPolicy smallWorkspace everyCollaborator laterRequest) pendingVolume []

theorem saved_pendingVolume : updaterStore.Saved smallStoreRequest smallDownload pendingVolume ∧
    UpdateTransactionRequestStore.Accepted smallStoreRequest :=
  UpdateTransactionRequestStore.saved_of_save rfl UpdateTransactionRequestStore.noCollision_empty
    (by decide +kernel)

/-- A `Start` for the later request ends with a failed persist, and the earlier
request is not found any more. -/
theorem start_discards_pending :
    updaterStore.Saved smallStoreRequest smallDownload pendingVolume ∧
      ∃ result w past,
        Reaches (around updaterStore kUpdateTransactionRoot fun _ => [])
          (some (start smallPolicy smallWorkspace everyCollaborator laterRequest),
            (pendingVolume, [])) (some (.pure result), (w, past)) ∧
        result.status = .requestPersistenceFailed ∧
        ¬StillPending updaterStore smallStoreRequest smallDownload pendingVolume w := by
  have hend : (laterStart fun _ => []).map (fun run =>
      (run.1.status, run.2.1.nodeAt (recordPath kUpdateTransactionRoot .active))) =
        some (.requestPersistenceFailed, none) := by decide +kernel
  obtain ⟨⟨result, w, past⟩, hrun, hsame⟩ := Option.map_eq_some_iff.mp hend
  obtain ⟨hstatus, hgone⟩ := Prod.mk.inj hsame
  refine ⟨saved_pendingVolume.1, result, w, past, ?_, hstatus, fun hpending => ?_⟩
  · exact reaches_runOnDisk (fun _ v => FrameRel.refl v) hrun
  · have hkept := hpending.record.trans saved_pendingVolume.1.record
    exact absurd (hgone.symm.trans hkept) nofun

/-- Where the first `Stat` of the cleanup fails, the earlier request stays. -/
theorem start_keeps_pending_iff_small :
    ∃ result w past,
      laterStart (fun past => if past.length = 7 then [.fail 0] else []) =
        some (result, w, past) ∧
      StillPending updaterStore smallStoreRequest smallDownload pendingVolume w := by
  let faults : Schedules Operation Answer :=
    fun past => if past.length = 7 then [.fail 0] else []
  have hend : (laterStart faults).map (fun run => run.2.2.tail.length) = some 7 := by
    decide +kernel
  obtain ⟨⟨result, w, past⟩, hrun, hlength⟩ := Option.map_eq_some_iff.mp hend
  have hspares : Spares (faults past.tail) := by
    dsimp only [faults] at hlength ⊢
    rw [if_pos hlength]
    trivial
  have hdigests : updaterStore.sha256 (updaterStore.stateOf smallStoreRequest smallDownload).encode ≠
      updaterStore.sha256 (updaterStore.stateOf laterRequest smallDownload).encode := by
    decide +kernel
  have hreaches : Reaches (around updaterStore laterRequest.transactionRoot faults)
      (some (start smallPolicy smallWorkspace everyCollaborator laterRequest), (pendingVolume, []))
      (some (.pure result), (w, past)) := reaches_runOnDisk (fun _ v => FrameRel.refl v) hrun
  have hdifferent : ∀ release, laterRequest.release = some release →
      (updaterStore.stateOf laterRequest release).encode ≠
        (updaterStore.stateOf smallStoreRequest smallDownload).encode := by
    intro release hrelease hsame
    obtain rfl : smallDownload = release := Option.some.inj hrelease
    exact hdigests (congrArg updaterStore.sha256 hsame.symm)
  have hcollision : ∀ release, laterRequest.release = some release →
      updaterStore.sha256 (updaterStore.stateOf smallStoreRequest smallDownload).encode =
          updaterStore.sha256 (updaterStore.stateOf laterRequest release).encode →
        (updaterStore.stateOf smallStoreRequest smallDownload).encode =
          (updaterStore.stateOf laterRequest release).encode := by
    intro release hrelease hsame
    obtain rfl : smallDownload = release := Option.some.inj hrelease
    exact absurd hsame hdigests
  obtain ⟨hsaved, haccepted⟩ := saved_pendingVolume
  have hroot : laterRequest.transactionRoot = smallStoreRequest.transactionRoot := rfl
  have hpending := start_keeps_pending_iff rfl haccepted hsaved hroot hdifferent hcollision
    hreaches
  exact ⟨result, w, past, hrun, hpending.2.mpr (Or.inr (Or.inr hspares))⟩

end PendingRequest

end BmxUpdate
