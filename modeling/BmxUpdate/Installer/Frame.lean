import BmxUpdate.Installer.Footprint

/-!
# The footprint of the installer

`Env.footprint owned restores` lists every path a call of the installer may change: the
private files below the transaction root with their temporaries, the journals,
the live files and directories of the manifest, the temporaries of a restored
live file, and the paths `owned` by the candidate backend.  Every call stays
within it, whatever it starts from and however it ends.
-/

namespace BmxUpdate

open Crash Volumes Wire

namespace Env

variable (env : Env)

/-! ## The footprint -/

/-- The files the installer keeps below the transaction root, but for the
journals. -/
inductive PrivateFile : Path → Prop
  | staged {file : ManifestFile} (h : file ∈ env.asset.files) : PrivateFile (env.staged file)
  | snapshot {file : ManifestFile} (h : file ∈ env.asset.files) :
      PrivateFile (env.snapshot file)
  | metadataOld {file : ManifestFile} (h : file ∈ env.asset.files) :
      PrivateFile (env.metadataOld file)
  | fileMarker {index : Nat} (h : index < env.asset.files.length) :
      PrivateFile (env.markerPath false index)
  | directoryMarker {index : Nat} (h : index < env.asset.directories.length) :
      PrivateFile (env.markerPath true index)
  | evidence {index : Nat} (h : index < env.asset.files.length) :
      PrivateFile (env.snapshotEvidencePath index)
  | plan (finalPlan : Bool) : PrivateFile (env.contentPlanPath finalPlan)

/-- The files through which the old content of a live file is put back. -/
def RollbackTemporary (live p : Path) : Prop :=
  p = addSuffix live ".rollback" ∨ p = addSuffix (addSuffix live ".rollback") ".part"

/-- A manifest file that a rollback may put a copy back for. -/
def Restorable (file : ManifestFile) : Prop := file.policy ≠ .preserve

/-- The paths where the installer makes files; the temporaries of a rollback are
among them for the calls that restore. -/
inductive FilePlace (restores : Prop) : Path → Prop
  | kept {file p : Path} (h : env.PrivateFile file) (hp : WithTemporaries file p) :
      FilePlace restores p
  | journal (slot : JournalSlot) : FilePlace restores (env.journalPath slot)
  | journalTemp : FilePlace restores env.journalTemp
  | live {file : ManifestFile} (h : file ∈ env.asset.files) : FilePlace restores file.path
  | rollback {file : ManifestFile} {p : Path} (hrestores : restores)
      (h : file ∈ env.asset.files) (hrestorable : Restorable file)
      (hp : RollbackTemporary file.path p) : FilePlace restores p

/-- The private directories. -/
def privateRoots : List Path :=
  [env.root, env.stageRoot, env.snapshotRoot, env.stateRoot, env.metadataOldRoot]

/-- The paths the installer makes the parents of. -/
inductive Target : Path → Prop
  | privateRoot {p : Path} (h : p ∈ env.privateRoots) : Target p
  | directory {directory : ManifestDirectory} (h : directory ∈ env.asset.directories) :
      Target directory.path
  | live {file : ManifestFile} (h : file ∈ env.asset.files) : Target file.path
  | kept {p : Path} (h : env.PrivateFile p) : Target p

/-- The paths where the installer makes directories. -/
inductive DirectoryPlace : Path → Prop
  | privateRoot {p : Path} (h : p ∈ env.privateRoots) : DirectoryPlace p
  | directory {directory : ManifestDirectory} (h : directory ∈ env.asset.directories) :
      DirectoryPlace directory.path
  | parent {target p : Path} (h : env.Target target) (hp : p ∈ properAncestors target) :
      DirectoryPlace p

/-- The three trees of copies below the transaction root. -/
def copyRoots : List Path := [env.stageRoot, env.snapshotRoot, env.metadataOldRoot]

/-- The manifest's paths, of files and directories. -/
def ManifestPath (p : Path) : Prop :=
  (∃ file ∈ env.asset.files, p = file.path) ∨
    ∃ directory ∈ env.asset.directories, p = directory.path

/-- The paths where the installer removes directories. -/
inductive RemovedDirectory : Path → Prop
  | created {directory : ManifestDirectory} (h : directory ∈ env.asset.directories) :
      RemovedDirectory directory.path
  | derived {base relative : Path} (hbase : base ∈ env.copyRoots)
      (hrelative : env.ManifestPath relative) (depth : Nat) :
      RemovedDirectory (base ++ relative.take depth)
  | privateRoot {p : Path} (h : p ∈ env.privateRoots) : RemovedDirectory p

/-- The paths a call of the installer may change, `owned` being those of the
candidate backend and `restores` saying whether the call may be a rollback. -/
def footprint (owned : Path → Prop) (restores : Prop) : Footprint where
  file p := owned p ∨ env.FilePlace restores p
  appear p := owned p ∨ env.DirectoryPlace p
  vanish p := owned p ∨ env.RemovedDirectory p

/-- A footprint with the paths a call may change, journals, backend and restored
files apart. -/
class Covers (fp : Footprint) : Prop where
  kept : ∀ {file p : Path}, env.PrivateFile file → WithTemporaries file p → fp.file p
  live : ∀ {file : ManifestFile}, file ∈ env.asset.files → fp.file file.path
  directory : ∀ {p : Path}, env.DirectoryPlace p → fp.appear p
  removed : ∀ {p : Path}, env.RemovedDirectory p → fp.vanish p

/-- A footprint with the temporaries of the restored files as well. -/
class CoversRestores (fp : Footprint) : Prop extends env.Covers fp where
  rollback : ∀ {file : ManifestFile} {p : Path}, file ∈ env.asset.files → Restorable file →
    RollbackTemporary file.path p → fp.file p

/-- The candidate backend changes nothing but the paths it owns. -/
structure BackendOwns (owned : Path → Prop) : Prop where
  arm : Preserves (AgreeOff owned) (env.backend.armCandidate env.candidate)
  commit : Preserves (AgreeOff owned) (env.backend.commitCandidate env.candidate)
  disarm : Preserves (AgreeOff owned) (env.backend.disarmCandidate env.candidate)

variable {env} {owned : Path → Prop} {restores : Prop}

instance : env.Covers (env.footprint owned restores) where
  kept h hp := Or.inr (.kept h hp)
  live h := Or.inr (.live h)
  directory h := Or.inr h
  removed h := Or.inr h

instance : env.CoversRestores (env.footprint owned True) where
  rollback h hrestorable hp := Or.inr (.rollback trivial h hrestorable hp)

section Covers

variable {fp : Footprint} [env.Covers fp]

theorem PrivateFile.self {file : Path} (h : env.PrivateFile file) : fp.file file :=
  Covers.kept h (Or.inl rfl)

theorem PrivateFile.part {file : Path} (h : env.PrivateFile file) :
    fp.file (addSuffix file ".part") :=
  Covers.kept h (Or.inr (Or.inl rfl))

theorem PrivateFile.publishes {file : Path} (h : env.PrivateFile file) : Publishes fp file where
  file := h.self
  part := h.part
  ancestors := fun _ ha => Covers.directory (.parent (.kept h) ha)

end Covers

theorem prefix_of_mem_privateRoots {p : Path} (h : p ∈ env.privateRoots) : env.root <+: p := by
  simp only [privateRoots, stageRoot, snapshotRoot, stateRoot, metadataOldRoot, List.mem_cons,
    List.not_mem_nil, or_false] at h
  rcases h with rfl | rfl | rfl | rfl | rfl <;> simp

/-- A private file lies properly below the root. -/
theorem PrivateFile.below {p : Path} (h : env.PrivateFile p) :
    ∃ rest, rest ≠ [] ∧ p = env.root ++ rest := by
  cases h with
  | @staged file _ => exact ⟨"stage" :: file.path, by simp, by simp [Env.staged, stageRoot]⟩
  | @snapshot file _ =>
      exact ⟨"snapshot" :: file.path, by simp, by simp [Env.snapshot, snapshotRoot]⟩
  | @metadataOld file _ =>
      exact ⟨"metadata-old" :: file.path, by simp, by simp [Env.metadataOld, metadataOldRoot]⟩
  | fileMarker _ => exact ⟨["state", _], by simp, by simp [markerPath, stateRoot]; rfl⟩
  | directoryMarker _ => exact ⟨["state", _], by simp, by simp [markerPath, stateRoot]; rfl⟩
  | evidence _ =>
      exact ⟨["state", _], by simp, by simp [snapshotEvidencePath, stateRoot]; rfl⟩
  | plan _ => exact ⟨["state", _], by simp, by simp [contentPlanPath, stateRoot]; rfl⟩

theorem PrivateFile.root_le {p : Path} (h : env.PrivateFile p) : env.root <+: p := by
  obtain ⟨rest, -, rfl⟩ := h.below
  exact List.prefix_append _ _

theorem prefix_addSuffix {front rest : Path} (hrest : rest ≠ []) (suffix : String) :
    front <+: addSuffix (front ++ rest) suffix := by
  cases rest using List.reverseRecOn with
  | nil => exact absurd rfl hrest
  | append_singleton middle last =>
      rw [← List.append_assoc, addSuffix_concat, List.append_assoc]
      exact List.prefix_append _ _

/-- The temporaries of a private file lie below the root as well. -/
theorem prefix_of_withTemporaries {file p : Path} (h : env.PrivateFile file)
    (hp : WithTemporaries file p) : env.root <+: p := by
  obtain ⟨rest, hrest, rfl⟩ := h.below
  rcases hp with rfl | rfl | rfl
  · exact List.prefix_append _ _
  · exact prefix_addSuffix hrest _
  · exact prefix_addSuffix hrest _

theorem root_le_journalPath (slot : JournalSlot) : env.root <+: env.journalPath slot := by
  cases slot <;> simp [journalPath]

theorem prefix_of_mem_copyRoots {p : Path} (h : p ∈ env.copyRoots) : env.root <+: p :=
  prefix_of_mem_privateRoots (by
    simp only [copyRoots, List.mem_cons, List.not_mem_nil, or_false] at h
    rcases h with rfl | rfl | rfl <;> simp [privateRoots])

/-- What the backend does within its own paths is within the footprint. -/
theorem within_of_agreeOff {v w : Volume} (h : AgreeOff owned v w) :
    Within (env.footprint owned restores) v w := by
  intro p
  by_cases hp : owned p
  · exact Or.inr ⟨fun _ => Or.inl hp, fun _ => Or.inl hp, fun _ => Or.inl hp⟩
  · exact Or.inl (h p hp)

variable (env) {S : EngineState → EngineState → Prop} [Quiet S] {fp : Footprint} [env.Covers fp]

/-- What the backend does within its own paths is within the footprint. -/
theorem preserves_backend {call : CandidateContext → FsProc Unit Unit}
    (hcall : Preserves (AgreeOff owned) (call env.candidate)) :
    Preserves (Within (env.footprint owned restores)) (call env.candidate) := fun allow s d =>
  wp_mono (hcall allow s d) (fun _ _ _ => within_of_agreeOff) (fun _ _ _ => within_of_agreeOff)
    fun _ => within_of_agreeOff

omit [env.Covers fp] in
theorem respects_callBackend {call : CandidateContext → FsProc Unit Unit}
    (hcall : Preserves (Within fp) (call env.candidate)) :
    Respects S (Within fp) (env.callBackend call) :=
  .isolate hcall

theorem respects_ensureTransactionDirectories :
    Respects S (Within fp) env.ensureTransactionDirectories := by
  refine .forIndexed fun _ path hpath => ?_
  have hroot : path ∈ env.privateRoots := List.mem_of_getElem? hpath
  exact .bind (respects_ensureParents fun _ ha =>
      Covers.directory (.parent (.privateRoot hroot) ha)) fun _ =>
    .bind (respects_createDirectory (Covers.directory (.privateRoot hroot))) fun _ =>
    respects_syncContainingDirectory _

/-! ## The journal -/

theorem respects_writeJournalBytes (next : JournalRecord) (destination : JournalSlot) :
    Respects AnyState (Within (env.footprint owned restores))
      (env.writeJournalBytes next destination) := by
  have htemp : (env.footprint owned restores).file env.journalTemp := Or.inr .journalTemp
  have hslot : (env.footprint owned restores).file (env.journalPath destination) :=
    Or.inr (.journal destination)
  unfold writeJournalBytes
  split
  · exact .throw _
  · refine .bind (.orElse _ (respects_removeIfPresent htemp)) fun _ =>
      .bind (.orElse _ (respects_createFileFresh htemp)) fun _ =>
      .bind (.orElse _ (respects_withCleanup ?_ (respects_removeIfPresent htemp))) fun _ =>
      .bind (.orElse _ (respects_readJournalFile _)) fun _ =>
      .bind (.check _ _) fun _ => .bind (.modify fun _ => trivial) fun _ =>
      .orElse _ respects_progress
    exact .bind (respects_write htemp _) fun _ => .bind respects_barrier fun _ =>
      .bind respects_barrier fun _ => .bind (respects_rename htemp hslot) fun _ =>
      respects_syncContainingDirectory _

theorem respects_writeInitialJournal (record : JournalRecord) :
    Respects AnyState (Within (env.footprint owned restores)) (env.writeInitialJournal record) :=
  .bind .get fun _ => .bind (.check _ _) fun _ => env.respects_writeJournalBytes _ _

theorem respects_writeTransition (next : JournalRecord) :
    Respects AnyState (Within (env.footprint owned restores)) (env.writeTransition next) := by
  refine .bind .get fun s => ?_
  split
  · exact .throw _
  · exact .bind (.check _ _) fun _ => env.respects_writeJournalBytes _ _

theorem respects_writeDownloaded :
    Respects AnyState (Within (env.footprint owned restores)) env.writeDownloaded :=
  .bind respects_currentRecord fun _ => env.respects_writeTransition _

theorem respects_writeDiscovered (layout : StepLayout) :
    Respects AnyState (Within (env.footprint owned restores)) (env.writeDiscovered layout) :=
  .bind respects_currentRecord fun _ =>
    .bind (env.respects_writeTransition _) fun _ => env.respects_writeDownloaded

theorem respects_initializeJournal (layout : StepLayout) :
    Respects AnyState (Within (env.footprint owned restores)) (env.initializeJournal layout) := by
  refine .bind (env.respects_loadJournal true) fun _ => .bind .get fun s => ?_
  split
  · exact .bind (env.respects_writeInitialJournal _) fun _ => env.respects_writeDiscovered _
  split
  · exact .bind (.check _ _) fun _ => env.respects_writeDiscovered _
  refine .bind (.check _ _) fun _ => ?_
  split
  · exact .pure ()
  · exact env.respects_writeDownloaded

theorem respects_advancePreparedTo (completedSteps : Nat) :
    Respects AnyState (Within (env.footprint owned restores))
      (env.advancePreparedTo completedSteps) := by
  refine .bind .get fun s => ?_
  split
  · exact .throw _
  refine .bind (.check _ _) fun _ => ?_
  split
  · exact .pure ()
  · exact env.respects_writeTransition _

theorem respects_advancePrepared :
    Respects AnyState (Within (env.footprint owned restores)) env.advancePrepared :=
  .bind respects_currentRecord fun _ => env.respects_advancePreparedTo _

/-! ## Markers, evidence and the content plan -/

theorem respects_ensureMarker {directory : Bool} {index : Nat} (existed : Bool)
    (h : env.PrivateFile (env.markerPath directory index)) :
    Respects S (Within fp) (env.ensureMarker directory index existed) :=
  respects_writeFreshEvidence h.self h.part

theorem respects_writeSnapshotEvidence {index : Nat} (old : OldFile)
    (h : index < env.asset.files.length) :
    Respects S (Within fp) (env.writeSnapshotEvidence index old) :=
  respects_writeFreshEvidence (PrivateFile.evidence h).self (PrivateFile.evidence h).part

omit [env.Covers fp] in
theorem respects_fillContentPlan (finalPlan : Bool) {temporary : Path}
    (h : fp.file temporary) :
    Respects S (Within fp) (env.fillContentPlan finalPlan temporary) := by
  refine .bind (.mapIndexed fun index file _ => ?_) fun records => ?_
  · split
    · exact env.respects_finalPlanRecord _ _
    · exact env.respects_preparedPlanRecord _
  · split
    · exact .throw _
    · exact .bind (.orElse _ (respects_write h _)) fun _ =>
        .bind (.orElse _ respects_barrier) fun _ => .orElse _ respects_barrier

theorem respects_writeContentPlanFile (finalPlan : Bool) :
    Respects S (Within fp) (env.writeContentPlanFile finalPlan) := by
  have hplan : env.PrivateFile (env.contentPlanPath finalPlan) := .plan finalPlan
  unfold writeContentPlanFile
  refine .bind (.orElse _ (respects_removeIfPresent hplan.part)) fun _ =>
    .bind (.orElse _ (respects_stat _)) fun existing => ?_
  split
  · exact .bind (.modify fun s => Quiet.contentPlan s _) fun _ => env.respects_loadContentPlan _
  · exact .throw _
  · refine .bind (.orElse _ (respects_createFileFresh hplan.part)) fun _ =>
      .bind (.orElse _ (respects_withCleanup ?_ (respects_removeIfPresent hplan.part))) fun _ =>
      .bind (.orElse _ (respects_syncContainingDirectory _)) fun _ =>
      .bind (.modify fun s => Quiet.contentPlan s _) fun _ =>
      env.respects_loadContentPlan _
    exact .bind (.orElse _ (env.respects_fillContentPlan _ hplan.part)) fun _ =>
      respects_rename hplan.part hplan.self

theorem respects_buildContentPlan :
    Respects S (Within fp) env.buildContentPlan := by
  refine .bind (.orElse _ (respects_stat _)) fun finalStat =>
    .bind (.orElse _ (respects_stat _)) fun preparedStat => ?_
  split
  · exact env.respects_loadContentPlan _
  · exact .bind (.check _ _) fun _ => env.respects_writeContentPlanFile _

theorem respects_removeSnapshotEvidenceFiles :
    Respects S (Within fp) env.removeSnapshotEvidenceFiles := by
  refine .forIndexed fun index file h => .bind (.orElse _ (respects_stat _)) fun _ =>
    .bind (.orElse _ (respects_stat _)) fun _ =>
    .bind (.orElse _ (respects_stat _)) fun _ => ?_
  rw [Nat.zero_add]
  split
  · exact .pure ()
  · have hevidence : env.PrivateFile (env.snapshotEvidencePath index) :=
      .evidence (List.getElem?_eq_some_iff.mp h).1
    exact .orElse _ (respects_removeFileAndTemporary fun _ => Covers.kept hevidence)

theorem respects_finalizeContentPlan :
    Respects S (Within fp) env.finalizeContentPlan :=
  .bind (env.respects_loadContentPlan _) fun _ =>
    .bind env.respects_loadedContentPlan fun _ =>
    .bind (.when (env.respects_writeContentPlanFile _)) fun _ =>
    .bind (.orElse _ (respects_removeIfPresent (PrivateFile.plan false).self)) fun _ =>
    env.respects_removeSnapshotEvidenceFiles

/-! ## Staging -/

theorem respects_preflightStorage :
    Respects AnyState (Within (env.footprint owned restores)) env.preflightStorage := by
  refine .bind (.orElse _ respects_barrier) fun _ => .bind (.check _ _) fun _ =>
    .bind (.orElse _ respects_barrier) fun _ => ?_
  split
  · exact .throw _
  refine .bind (.check _ _) fun _ => .bind (env.respects_loadJournal _) fun _ =>
    .bind env.respects_resumableJournal fun _ =>
    .bind env.respects_buildContentPlan fun _ => ?_
  split
  · exact .throw _
  · exact .throw _
  · exact .bind .get fun _ => .bind (env.respects_preflightFiles _ _ _ _ _ _ _) fun _ =>
      .bind (.orElse _ (.observe _)) fun _ => .check _ _

theorem respects_snapshotKnown {file : ManifestFile} (h : file ∈ env.asset.files)
    (source target : UpdateFileStat) (old : OldFile) :
    Respects S (Within fp) (env.snapshotKnown file source target old) := by
  unfold snapshotKnown
  split
  · exact .check _ _
  split
  · exact env.respects_copyFileAtomicExpected (PrivateFile.snapshot h).publishes
  · exact .orElse _ (env.respects_verifyFile _ _ _)

theorem respects_snapshotUnknown {index : Nat} {file : ManifestFile}
    (h : env.asset.files[index]? = some file) (source target : UpdateFileStat) :
    Respects S (Within fp) (env.snapshotUnknown index file source target) := by
  have hindex := (List.getElem?_eq_some_iff.mp h).1
  unfold snapshotUnknown
  split
  · exact .bind (.check _ _) fun _ => env.respects_writeSnapshotEvidence _ hindex
  · exact .throw _
  · exact .bind (env.respects_copyFileAtomic
      (PrivateFile.snapshot (List.mem_of_getElem? h)).publishes) fun _ =>
      .bind (.check _ _) fun _ => env.respects_writeSnapshotEvidence _ hindex

theorem respects_snapshotFile {index : Nat} {file : ManifestFile}
    (h : env.asset.files[index]? = some file) :
    Respects S (Within fp) (env.snapshotFile index file) := by
  refine .bind (.orElse _ (respects_stat _)) fun source =>
    .bind (.orElse _ (respects_stat _)) fun target =>
    .bind (env.respects_isNoop _) fun unchanged => ?_
  split
  · exact .pure ()
  refine .bind (env.respects_checkConsentedSource _ _) fun _ =>
    .bind (.attempt (env.respects_readSnapshotEvidence _)) fun evidence => ?_
  split
  · exact env.respects_snapshotKnown (List.mem_of_getElem? h) _ _ _
  · exact env.respects_snapshotUnknown h _ _
  · exact .throw _

omit [env.Covers fp] in
theorem respects_fillPrepared {prepared : PreparedConfigTemplate} {temporary staged : Path}
    (htemporary : fp.file temporary)
    (hstaged : fp.file staged) :
    Respects S (Within fp) (env.fillPrepared prepared temporary staged) := by
  unfold fillPrepared
  split
  · exact .throw _
  · exact .bind (respects_write htemporary _) fun _ =>
      .bind (respects_progressFor _) fun _ => .bind (.check _ _) fun _ =>
      .bind respects_barrier fun _ => .bind respects_barrier fun _ =>
      .bind (respects_rename htemporary hstaged) fun _ => respects_syncContainingDirectory _

theorem respects_stagePreparedConfig {file : ManifestFile} (h : file ∈ env.asset.files) :
    Respects S (Within fp) (env.stagePreparedConfig file) := by
  have hstaged : env.PrivateFile (env.staged file) := .staged h
  unfold stagePreparedConfig
  split
  · exact .throw _
  · exact .bind (.orElse _ (respects_ensureParents hstaged.publishes.ancestors)) fun _ =>
      .bind (.orElse _ (respects_removeIfPresent hstaged.part)) fun _ =>
      .bind (.orElse _ (respects_createFileFresh hstaged.part)) fun _ =>
      .bind (.orElse _ (respects_withCleanup (env.respects_fillPrepared hstaged.part
        hstaged.self) (respects_removeIfPresent hstaged.part))) fun _ =>
      env.respects_verifyFile _ _ _

omit [env.Covers fp] in
theorem respects_fillExtracted {file : ManifestFile} {content : Content}
    {temporary staged : Path} (htemporary : fp.file temporary)
    (hstaged : fp.file staged) :
    Respects S (Within fp)
      (env.fillExtracted file content temporary staged) :=
  .bind (respects_write htemporary _) fun _ =>
    .bind (respects_progressFor _) fun _ => .bind (.check _ _) fun _ =>
    .bind respects_barrier fun _ => .bind respects_barrier fun _ =>
    .bind (respects_rename htemporary hstaged) fun _ => respects_syncContainingDirectory _

theorem respects_extractOne (zip : ZipArchive) {file : ManifestFile}
    (h : file ∈ env.asset.files) :
    Respects S (Within fp) (env.extractOne zip file) := by
  have hstaged : env.PrivateFile (env.staged file) := .staged h
  refine .bind (.orElse _ respects_barrier) fun _ => ?_
  split
  · exact .throw _
  · refine .bind (.orElse _ respects_barrier) fun _ => .bind (.orElse _ ?_) fun _ =>
      .bind (.orElse _ (respects_withCleanup (env.respects_fillExtracted hstaged.part
        hstaged.self) (respects_removeIfPresent hstaged.part))) fun _ =>
      .orElse _ (env.respects_verifyFile _ _ _)
    exact .bind (respects_ensureParents hstaged.publishes.ancestors) fun _ =>
      .bind (respects_removeIfPresent hstaged.part) fun _ =>
      respects_createFileFresh hstaged.part

theorem respects_stageFile (zip : ZipArchive) {index : Nat} {file : ManifestFile}
    (h : env.asset.files[index]? = some file) :
    Respects S (Within fp) (env.stageFile zip index file) := by
  have hmem : file ∈ env.asset.files := List.mem_of_getElem? h
  refine .bind (env.respects_isNoop _) fun unchanged => ?_
  split
  · exact .pure ()
  refine .bind (.orElse _ (respects_stat _)) fun destination =>
    .bind (.orElse _ (respects_stat _)) fun stagedStat => .bind (.check _ _) fun _ =>
    .bind (.when (env.respects_ensureMarker _
      (.fileMarker (List.getElem?_eq_some_iff.mp h).1))) fun _ => ?_
  split
  · exact .check _ _
  split
  · exact env.respects_verifyEffective _ _
  · exact .throw _
  split
  · exact env.respects_stagePreparedConfig hmem
  · exact env.respects_extractOne zip hmem

theorem respects_activateDirectory {index : Nat} {directory : ManifestDirectory}
    (h : env.asset.directories[index]? = some directory) :
    Respects S (Within fp) (env.activateDirectory index directory) := by
  have hmem : directory ∈ env.asset.directories := List.mem_of_getElem? h
  have hmarker : env.PrivateFile (env.markerPath true index) :=
    .directoryMarker (List.getElem?_eq_some_iff.mp h).1
  refine .bind (.orElse _ (respects_stat _)) fun found => ?_
  split
  · refine .bind (.orElse _ (respects_stat _)) fun markerStat => ?_
    split
    · exact .bind (.orElse _ (env.respects_markerExists _ _)) fun _ => .pure ()
    · exact .throw _
    · exact env.respects_ensureMarker _ hmarker
  · exact .throw _
  · exact .bind (env.respects_ensureMarker _ hmarker) fun _ => .orElse _
      (.bind (respects_ensureParents fun _ ha =>
          Covers.directory (.parent (.directory hmem) ha)) fun _ =>
        .bind (respects_createDirectory (Covers.directory (.directory hmem))) fun _ =>
        respects_syncContainingDirectory _)

theorem respects_ensureLiveParents {file : ManifestFile} (h : file ∈ env.asset.files) :
    Respects S (Within fp) (ensureParents file.path) :=
  respects_ensureParents fun _ ha => Covers.directory (.parent (.live h) ha)

theorem respects_activateStaged {file : ManifestFile} (h : file ∈ env.asset.files)
    (destination : UpdateFileStat) :
    Respects S (Within fp) (env.activateStaged file destination) :=
  .bind (.orElse _ (env.respects_ensureLiveParents h)) fun _ => .bind (.check _ _) fun _ =>
    .bind (.check _ _) fun _ => .bind (.orElse _ (.bind (respects_rename
      (PrivateFile.staged h).self (Covers.live h)) fun _ =>
      respects_syncContainingDirectory _)) fun _ => env.respects_verifyEffective _ _

theorem respects_activateFile {index : Nat} {file : ManifestFile}
    (h : env.asset.files[index]? = some file) :
    Respects S (Within fp) (env.activateFile index file) := by
  refine .bind (env.respects_isNoop _) fun unchanged => ?_
  split
  · exact .pure ()
  refine .bind (.orElse _ (respects_stat _)) fun destination =>
    .bind (.orElse _ (respects_stat _)) fun stagedStat =>
    .bind (.whenOr _ (.orElse _ (env.respects_markerExists _ _))) fun existed => ?_
  split
  · exact .check _ _
  split
  · exact env.respects_verifyEffective _ _
  · exact .throw _
  · exact env.respects_activateStaged (List.mem_of_getElem? h) _

/-- The files of a loop that has reached `index`. -/
def FilesFrom (index : Nat) (rest : List ManifestFile) : Prop :=
  ∀ (j : Nat) (file : ManifestFile), rest[j]? = some file →
    env.asset.files[index + j]? = some file

variable {env}

theorem filesFrom_zero : env.FilesFrom 0 env.asset.files := fun j file h => by
  rwa [Nat.zero_add]

theorem FilesFrom.head {index : Nat} {file : ManifestFile} {rest : List ManifestFile}
    (h : env.FilesFrom index (file :: rest)) : env.asset.files[index]? = some file :=
  h 0 file rfl

theorem FilesFrom.tail {index : Nat} {file : ManifestFile} {rest : List ManifestFile}
    (h : env.FilesFrom index (file :: rest)) : env.FilesFrom (index + 1) rest := by
  intro j other hj
  have := h (j + 1) other (by simpa using hj)
  rwa [show index + 1 + j = index + (j + 1) by omega]

variable (env)

theorem respects_stageSnapshots {index : Nat} {files : List ManifestFile}
    (h : env.FilesFrom index files) (step highWater : Nat) :
    Respects S (Within fp) (env.stageSnapshots index files step highWater) := by
  induction files generalizing index step highWater with
  | nil => exact .pure _
  | cons file rest ih =>
      unfold stageSnapshots
      split
      · refine .bind (.check _ _) fun _ => ?_
        split
        · exact .bind (env.respects_snapshotFile h.head) fun _ => ih h.tail _ _
        · exact ih h.tail _ _
      · exact ih h.tail _ _

theorem respects_stageFiles (zip : ZipArchive) {index : Nat} {files : List ManifestFile}
    (h : env.FilesFrom index files) (step highWater : Nat) :
    Respects S (Within fp) (env.stageFiles zip index files step highWater) := by
  induction files generalizing index step highWater with
  | nil => exact .pure _
  | cons file rest ih =>
      refine .bind (.check _ _) fun _ => ?_
      split
      · exact .bind (env.respects_stageFile zip h.head) fun _ => ih h.tail _ _
      · exact ih h.tail _ _

theorem respects_journalledStep {step : Nat} {action : EngineProc Unit}
    (haction : Respects AnyState (Within (env.footprint owned restores)) action) :
    Respects AnyState (Within (env.footprint owned restores)) (env.journalledStep step action) := by
  refine .bind respects_currentRecord fun record => .bind (.check _ _) fun _ => ?_
  split
  · exact .bind haction fun _ => env.respects_advancePrepared
  · exact .pure ()

theorem respects_activateDirectories (layout : StepLayout) :
    Respects AnyState (Within (env.footprint owned restores)) (env.activateDirectories layout) :=
  .forIndexed fun _ directory h =>
    env.respects_journalledStep (env.respects_activateDirectory (by rwa [Nat.zero_add]))

theorem respects_activateFiles {index : Nat} {files : List ManifestFile}
    (h : env.FilesFrom index files) (step : Nat) :
    Respects AnyState (Within (env.footprint owned restores))
      (env.activateFiles index files step) := by
  induction files generalizing index step with
  | nil => exact .pure _
  | cons file rest ih =>
      unfold activateFiles
      split
      · exact .bind (env.respects_journalledStep (env.respects_activateFile h.head)) fun _ =>
          ih h.tail _
      · exact ih h.tail _

theorem respects_stagePrepared (zip : ZipArchive) (layout : StepLayout) :
    Respects AnyState (Within (env.footprint owned restores)) (env.stagePrepared zip layout) :=
  .bind env.respects_preflightStorage fun _ =>
    .bind env.respects_initializeStageWork fun _ =>
    .bind (.orElse _ respects_progress) fun _ =>
    .bind respects_currentRecord fun _ =>
    .bind (env.respects_stageSnapshots filesFrom_zero _ _) fun _ =>
    .bind env.respects_finalizeContentPlan fun _ =>
    .bind (env.respects_stageFiles zip filesFrom_zero _ _) fun _ =>
    .bind (.when (.bind (.check _ _) fun _ => env.respects_advancePreparedTo _)) fun _ =>
    .bind (env.respects_activateDirectories layout) fun _ =>
    .bind (env.respects_activateFiles filesFrom_zero _) fun _ =>
    .bind respects_currentRecord fun _ => .bind (.check _ _) fun _ =>
    .bind (env.respects_writeTransition _) fun _ =>
    .bind (.orElse _ respects_progress) fun _ => .pure _

theorem respects_stage : Respects AnyState (Within (env.footprint owned restores)) env.stage := by
  refine .bind (respects_require _) fun _ => .bind (.check _ _) fun _ =>
    .bind env.respects_prepareArchive fun zip => ?_
  split
  · exact .throw _
  refine .bind (.orElse _ env.respects_ensureTransactionDirectories) fun _ =>
    .bind (env.respects_initializeJournal _) fun _ =>
    .bind respects_currentRecord fun record => ?_
  split
  · exact .pure _
  · exact .bind (.check _ _) fun _ => .bind (.when (env.respects_writeTransition _)) fun _ =>
      env.respects_stagePrepared zip _

/-! ## Arming, health and commit -/

variable (hbackend : env.BackendOwns owned)
include hbackend

theorem respects_arm : Respects AnyState (Within (env.footprint owned restores)) env.arm := by
  refine .bind (env.respects_beginCall _ _) fun _ =>
    .bind (env.respects_loadJournal _) fun _ =>
    .bind respects_currentRecord fun record => .bind (.check _ _) fun _ => ?_
  split
  · exact .pure _
  · exact .bind (.check _ _) fun _ => .bind (env.respects_loadContentPlan _) fun _ =>
      .bind (.check _ _) fun _ => .bind (.check _ _) fun _ =>
      .bind (.orElse _ (env.respects_callBackend (env.preserves_backend hbackend.arm))) fun _ =>
      .bind (env.respects_writeTransition _) fun _ => .pure _

omit hbackend

theorem respects_healthy :
    Respects AnyState (Within (env.footprint owned restores)) env.healthy := by
  refine .bind (env.respects_beginCall _ _) fun _ =>
    .bind (env.respects_loadJournal _) fun _ =>
    .bind respects_currentRecord fun record => .bind (.check _ _) fun _ => ?_
  split
  · exact .pure _
  · exact .bind (.check _ _) fun _ => .bind (.check _ _) fun _ => .bind (.check _ _) fun _ =>
      .bind (env.respects_writeTransition _) fun _ => .pure _

theorem respects_moveOldMetadata {file : ManifestFile} (h : file ∈ env.asset.files)
    (existed : Bool) (destination old : UpdateFileStat) :
    Respects S (Within fp) (env.moveOldMetadata file existed destination old) := by
  have hold : env.PrivateFile (env.metadataOld file) := .metadataOld h
  unfold moveOldMetadata
  split
  · exact .throw _
  · exact .pure _
  · exact .bind (.check _ _) fun _ => .bind (.check _ _) fun _ =>
      .bind (.orElse _ (.bind (respects_ensureParents hold.publishes.ancestors) fun _ =>
        .bind (respects_rename (Covers.live h) hold.self) fun _ =>
        respects_syncContainingDirectory _)) fun _ => .pure _

theorem respects_swapMetadata {index : Nat} {file : ManifestFile} (h : file ∈ env.asset.files)
    (destination old : UpdateFileStat) :
    Respects S (Within fp) (env.swapMetadata index file destination old) :=
  .bind (.orElse _ (env.respects_markerExists _ _)) fun _ =>
    .bind (.orElse _ (env.respects_readMetadataEvidence _)) fun _ =>
    .bind (.check _ _) fun _ =>
    .bind (.when (.orElse _ (env.respects_verifyFile _ _ _))) fun _ =>
    .bind (env.respects_moveOldMetadata h _ _ _) fun _ => .bind (.check _ _) fun _ =>
    .bind (.check _ _) fun _ => .bind (.orElse _ (.bind (env.respects_ensureLiveParents h) fun _ =>
      .bind (respects_rename (PrivateFile.staged h).self (Covers.live h)) fun _ =>
      respects_syncContainingDirectory _)) fun _ => env.respects_verifyFile _ _ _

theorem respects_commitMetadata {index : Nat} {file : ManifestFile}
    (h : env.asset.files[index]? = some file) :
    Respects S (Within fp) (env.commitMetadata index file) := by
  refine .bind (env.respects_isNoop _) fun unchanged => ?_
  split
  · exact .pure ()
  refine .bind (.orElse _ (respects_stat _)) fun stageStat =>
    .bind (.orElse _ (respects_stat _)) fun destination =>
    .bind (.orElse _ (respects_stat _)) fun old => ?_
  split
  · exact env.respects_confirmMetadata _ _
  · exact .throw _
  · exact env.respects_swapMetadata (List.mem_of_getElem? h) _ _

theorem respects_commitStep {step : Nat} {action : EngineProc Unit}
    (haction : Respects AnyState (Within (env.footprint owned restores)) action) :
    Respects AnyState (Within (env.footprint owned restores)) (env.commitStep step action) := by
  refine .bind respects_currentRecord fun record => .bind (.check _ _) fun _ => ?_
  split
  · exact .bind haction fun _ => .bind respects_currentRecord fun _ =>
      .bind (env.respects_writeTransition _) fun _ => .orElse _ respects_progress
  · exact .pure ()

theorem respects_commitFiles {policy : ManifestFilePolicy}
    {action : Nat → ManifestFile → EngineProc Unit}
    (haction : ∀ (index : Nat) (file : ManifestFile), env.asset.files[index]? = some file →
      Respects AnyState (Within (env.footprint owned restores)) (action index file))
    {index : Nat} {files : List ManifestFile} (h : env.FilesFrom index files) (step : Nat) :
    Respects AnyState (Within (env.footprint owned restores))
      (env.commitFiles policy action index files step) := by
  induction files generalizing index step with
  | nil => exact .pure _
  | cons file rest ih =>
      unfold commitFiles
      split
      · exact .bind (env.respects_commitStep (haction _ _ h.head)) fun _ => ih h.tail _
      · exact ih h.tail _

include hbackend

theorem respects_commitSelector (layout : StepLayout) :
    Respects AnyState (Within (env.footprint owned restores)) (env.commitSelector layout) := by
  refine .bind respects_currentRecord fun record => ?_
  split
  · exact .bind (.check _ _) fun _ =>
      .bind (.orElse _ (env.respects_callBackend (env.preserves_backend hbackend.commit))) fun _ =>
      .bind (env.respects_writeTransition _) fun _ => .orElse _ respects_progress
  · exact .check _ _

theorem respects_commitSteps (layout : StepLayout) :
    Respects AnyState (Within (env.footprint owned restores)) (env.commitSteps layout) :=
  .bind (env.respects_commitFiles (fun _ _ h => env.respects_activateFile h)
      filesFrom_zero _) fun _ =>
    .bind (env.respects_commitFiles (fun _ _ h => env.respects_commitMetadata h)
      filesFrom_zero _) fun _ => .bind (env.respects_commitSelector hbackend layout) fun _ =>
    .bind respects_currentRecord fun _ => .bind (.check _ _) fun _ =>
    .bind (env.respects_writeTransition _) fun _ => .pure _

theorem respects_commit : Respects AnyState (Within (env.footprint owned restores)) env.commit := by
  refine .bind (env.respects_beginCall _ _) fun _ =>
    .bind (env.respects_loadJournal _) fun _ =>
    .bind respects_currentRecord fun record => .bind (.check _ _) fun _ => ?_
  split
  · exact .pure _
  refine .bind (.check _ _) fun _ => .bind (env.respects_loadContentPlan _) fun _ =>
    .bind (.check _ _) fun _ => ?_
  split
  · exact .throw _
  · exact .bind (.check _ _) fun _ => .bind (.when (.bind
      env.respects_verifyCandidateFiles fun _ => env.respects_writeTransition _))
      fun _ => env.respects_commitSteps hbackend _

omit hbackend

/-! ## Rollback -/

theorem respects_removeNew {file : ManifestFile} (h : file ∈ env.asset.files) (size : Nat)
    (digest : Digest) :
    Respects S (Within fp) (env.removeNew file size digest) := by
  refine .bind (.orElse _ (respects_stat _)) fun destination => ?_
  split
  · exact .pure ()
  · exact .throw _
  · exact .bind (.orElse _ (env.respects_verifyFile _ _ _)) fun _ =>
      .orElse _ (.bind (respects_removeFile (Covers.live h)) fun _ =>
        respects_syncContainingDirectory _)

section Restores

omit [env.Covers fp]

variable [env.CoversRestores fp]

theorem respects_restoreCopy {source : Path} {file : ManifestFile}
    (h : file ∈ env.asset.files) (hrestorable : Restorable file) (old : OldFile) :
    Respects S (Within fp) (env.restoreCopy source file old) := by
  refine .bind (.orElse _ (env.respects_verifyFile _ _ _)) fun _ =>
    .bind (env.respects_replaceWithCopy (Covers.live h) ?_) fun _ =>
    .orElse _ (env.respects_verifyFile _ _ _)
  exact
    { file := CoversRestores.rollback h hrestorable (Or.inl rfl)
      part := CoversRestores.rollback h hrestorable (Or.inr rfl)
      ancestors := fun _ ha => Covers.directory (.parent (.live h) (by simpa using ha)) }

theorem respects_restoreMetadata (layout : StepLayout) {index : Nat} {file : ManifestFile}
    (h : file ∈ env.asset.files) (hrestorable : Restorable file) :
    Respects S (Within fp) (env.restoreMetadata layout index file) := by
  refine .bind respects_currentRecord fun record => ?_
  split
  · exact .pure ()
  refine .bind (.orElse _ (env.respects_markerExists _ _)) fun existed =>
    .bind (.orElse _ (respects_stat _)) fun oldStat =>
    .bind (.attempt (env.respects_readMetadataEvidence _)) fun evidence => ?_
  split
  · exact env.respects_restoreUnrecorded _ _ _
  · exact .throw _
  refine .bind (.check _ _) fun _ => ?_
  split
  · split
    · exact env.respects_confirmUnswapped _ _
    · exact env.respects_restoreCopy h hrestorable _
  · exact .bind (.check _ _) fun _ => env.respects_removeNew h _ _

theorem respects_restoreActivated {index : Nat} {file : ManifestFile}
    (h : file ∈ env.asset.files) :
    Respects S (Within fp) (env.restoreActivated index file) := by
  unfold restoreActivated
  split
  case isTrue hsnapshot =>
    refine .bind (env.respects_readSnapshotEvidence _) fun old => ?_
    split
    · refine env.respects_restoreCopy h ?_ _
      intro hpreserve
      simp [hpreserve, ManifestFilePolicy.isSnapshot] at hsnapshot
    · exact env.respects_removeNew h _ _
  case isFalse =>
    refine .bind (.orElse _ (env.respects_markerExists _ _)) fun existed => ?_
    split
    · exact .pure ()
    · exact env.respects_removeNew h _ _

theorem respects_restoreFile (layout : StepLayout) {index : Nat} {file : ManifestFile}
    (h : file ∈ env.asset.files) :
    Respects S (Within fp) (env.restoreFile layout index file) := by
  refine .bind (env.respects_isNoop _) fun unchanged => ?_
  split
  · exact .pure ()
  split
  case isTrue hmetadata =>
    exact env.respects_restoreMetadata layout h (by simp [Restorable, hmetadata])
  refine .bind respects_currentRecord fun record => ?_
  split
  · exact .pure ()
  refine .bind (.whenOr _ (env.respects_activatedUnjournalled _ _)) fun activated => ?_
  split
  · exact env.respects_restoreActivated h
  · exact .pure ()

end Restores

theorem respects_removeCreatedDirectory {directory : ManifestDirectory}
    (h : directory ∈ env.asset.directories) :
    Respects S (Within fp) (removeCreatedDirectory directory) := by
  refine .bind (.orElse _ (respects_stat _)) fun found =>
    .bind (.orElse _ respects_progress) fun _ => ?_
  split
  · exact .pure ()
  · exact .throw _
  · exact .bind (.attempt (respects_removeDirectory (Covers.removed (.created h)))) fun _ =>
      .bind (.attempt (respects_syncContainingDirectory _)) fun _ => .pure ()

theorem respects_removeCreatedDirectories (layout : StepLayout) :
    Respects S (Within fp) (env.removeCreatedDirectories layout) := by
  refine .forIndexedDown fun index directory h =>
    .bind respects_currentRecord fun record => ?_
  split
  · exact .pure ()
  refine .bind (.orElse _ (respects_stat _)) fun markerStat => ?_
  split
  · exact .check _ _
  · exact .throw _
  refine .bind (.orElse _ (env.respects_markerExists _ _)) fun existed => ?_
  split
  · exact .pure ()
  · exact env.respects_removeCreatedDirectory (List.mem_of_getElem? h)

theorem respects_writeIdle :
    Respects AnyState (Within (env.footprint owned restores)) env.writeIdle :=
  .bind respects_currentRecord fun _ => .bind (env.respects_writeTransition _) fun _ =>
    .pure _

include hbackend

theorem respects_rollbackPlanned (record : JournalRecord) (layout : StepLayout) :
    Respects AnyState (Within (env.footprint owned True)) (env.rollbackPlanned record layout) :=
  .bind (env.respects_loadContentPlan _) fun _ => .bind (.check _ _) fun _ =>
    .bind (.when (env.respects_writeTransition _)) fun _ =>
    .bind (.when (.bind (.orElse _ (env.respects_callBackend
      (env.preserves_backend hbackend.disarm))) fun _ =>
      .orElse _ respects_progress)) fun _ =>
    .bind (.forIndexedDown fun _ _ h => .bind (env.respects_restoreFile layout
      (List.mem_of_getElem? h)) fun _ => .orElse _ respects_progress) fun _ =>
    .bind (env.respects_removeCreatedDirectories layout) fun _ => env.respects_writeIdle

theorem respects_rollback : Respects AnyState (Within (env.footprint owned True)) env.rollback := by
  refine .bind (env.respects_beginCall _ _) fun _ =>
    .bind (env.respects_loadJournal _) fun _ =>
    .bind respects_currentRecord fun record => ?_
  split
  · exact .pure _
  refine .bind (.check _ _) fun _ => ?_
  split
  · exact env.respects_writeIdle
  split
  · exact .throw _
  refine .bind (.whenOr _ (.orElse _ env.respects_noContentPlan)) fun unplanned => ?_
  split
  · exact .bind (env.respects_writeTransition _) fun _ => env.respects_writeIdle
  · exact env.respects_rollbackPlanned hbackend _ _

omit hbackend

/-! ## Retirement -/

theorem respects_removeTransactionFiles :
    Respects S (Within fp) env.removeTransactionFiles := by
  refine .forIndexed fun _ file h => ?_
  have hmem : file ∈ env.asset.files := List.mem_of_getElem? h
  have hremove : ∀ base, env.PrivateFile (base ++ file.path) →
      Respects S (Within fp) (removeTransactionFile base file.path) :=
    fun base hbase => .bind (respects_removeFileAndTemporary fun _ => Covers.kept hbase) fun _ =>
      respects_progress
  refine .bind (.attempt (.bind (hremove _ (.staged hmem)) fun _ =>
    .bind (hremove _ (.snapshot hmem)) fun _ => hremove _ (.metadataOld hmem))) fun result => ?_
  cases result with
  | ok _ => exact .pure ()
  | error _ => exact .bind respects_removalFailure fun _ => .throw _

theorem respects_removeStateFiles :
    Respects S (Within fp) env.removeStateFiles := by
  refine .bind (.forIndexed fun index file h => ?_) fun _ =>
    .bind env.respects_removeSnapshotEvidenceFiles fun _ => .orElse _
    (.bind (.forIndexed fun index directory h => ?_) fun _ =>
      .bind (respects_removeFileAndTemporary fun _ => Covers.kept (.plan false)) fun _ =>
      respects_removeFileAndTemporary fun _ => Covers.kept (.plan true))
  · rw [Nat.zero_add]
    have hmarker : env.PrivateFile (env.markerPath false index) :=
      .fileMarker (List.getElem?_eq_some_iff.mp h).1
    exact .bind (.orElse _ (respects_removeFileAndTemporary fun _ => Covers.kept hmarker)) fun _ =>
      .orElse _ respects_progress
  · rw [Nat.zero_add]
    have hmarker : env.PrivateFile (env.markerPath true index) :=
      .directoryMarker (List.getElem?_eq_some_iff.mp h).1
    exact respects_removeFileAndTemporary fun _ => Covers.kept hmarker

theorem respects_tryRemoveDerivedDirectories {base relative : Path}
    (hbase : base ∈ env.copyRoots) (hrelative : env.ManifestPath relative) :
    Respects S (Within fp) (tryRemoveDerivedDirectories base relative) :=
  .forIndexedDown fun _ depth _ =>
    .bind (.attempt (respects_removeDirectory (Covers.removed (.derived hbase hrelative depth))))
      fun _ => .bind (.attempt (respects_syncContainingDirectory _)) fun _ => .pure ()

theorem respects_removeAndVerifyDirectory {p : Path} (h : p ∈ env.privateRoots) :
    Respects S (Within fp) (removeAndVerifyDirectory p) :=
  .bind (respects_removeDirectory (Covers.removed (.privateRoot h))) fun _ =>
    .bind (respects_syncContainingDirectory _) fun _ => .bind (respects_stat _) fun _ =>
    .check _ _

theorem respects_removeTransactionDirectories :
    Respects S (Within fp) env.removeTransactionDirectories := by
  have hderived : ∀ relative, env.ManifestPath relative →
      Respects S (Within fp) (do
        tryRemoveDerivedDirectories env.stageRoot relative
        tryRemoveDerivedDirectories env.snapshotRoot relative
        tryRemoveDerivedDirectories env.metadataOldRoot relative) :=
    fun relative h =>
      .bind (env.respects_tryRemoveDerivedDirectories (by simp [copyRoots]) h) fun _ =>
      .bind (env.respects_tryRemoveDerivedDirectories (by simp [copyRoots]) h) fun _ =>
      env.respects_tryRemoveDerivedDirectories (by simp [copyRoots]) h
  exact .bind (.forIndexed fun _ file h => hderived _
      (Or.inl ⟨file, List.mem_of_getElem? h, rfl⟩)) fun _ =>
    .bind (.forIndexed fun _ directory h => hderived _
      (Or.inr ⟨directory, List.mem_of_getElem? h, rfl⟩)) fun _ =>
    .orElse _ (.bind (env.respects_removeAndVerifyDirectory (by simp [privateRoots])) fun _ =>
      .bind (env.respects_removeAndVerifyDirectory (by simp [privateRoots])) fun _ =>
      .bind (env.respects_removeAndVerifyDirectory (by simp [privateRoots])) fun _ =>
      env.respects_removeAndVerifyDirectory (by simp [privateRoots]))

theorem respects_removeJournals :
    Respects AnyState (Within (env.footprint owned restores)) env.removeJournals :=
  .bind .get fun _ => .bind (.orElse _
    (.bind (respects_removeIfPresent (Or.inr .journalTemp)) fun _ =>
      .bind (respects_removeIfPresent (Or.inr (.journal _))) fun _ =>
      respects_removeIfPresent (Or.inr (.journal _)))) fun _ => .modify fun _ => trivial

theorem respects_removeTransactionArtifacts (activeRequest : Bool) :
    Respects AnyState (Within (env.footprint owned restores))
      (env.removeTransactionArtifacts activeRequest) :=
  .bind env.respects_removeTransactionFiles fun _ =>
    .bind env.respects_removeStateFiles fun _ =>
    .bind env.respects_removeTransactionDirectories fun _ =>
    .bind (.orElse _ (respects_directoryContainsOnly _ _)) fun _ => .bind (.check _ _) fun _ =>
    env.respects_removeJournals

theorem respects_retireRolledBack :
    Respects AnyState (Within (env.footprint owned restores)) env.retireRolledBack :=
  .bind (env.respects_beginCall _ _) fun _ =>
    .bind (env.respects_loadJournal _) fun _ => .bind .get fun _ =>
    .bind (.check _ _) fun _ => .bind (env.respects_removeTransactionArtifacts _) fun _ =>
    .pure _

theorem respects_retireCommitted :
    Respects AnyState (Within (env.footprint owned restores)) env.retireCommitted := by
  refine .bind (env.respects_beginCall _ _) fun _ =>
    .bind (.attempt (env.respects_loadJournal _)) fun result => ?_
  cases result with
  | error failure =>
      refine .bind .get fun s => ?_
      split
      · exact .bind (env.respects_removeTransactionArtifacts _) fun _ => .pure _
      · exact .throw _
  | ok _ =>
      exact .bind respects_currentRecord fun _ => .bind (.check _ _) fun _ =>
        .bind (.check _ _) fun _ => .bind (env.respects_removeTransactionArtifacts _) fun _ =>
        .pure _

end Env

end BmxUpdate
