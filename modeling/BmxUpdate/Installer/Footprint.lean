import BmxUpdate.Installer.Rollback
import BmxUpdate.Installer.Helpers

/-!
# What the installer's steps can touch

Every step, whatever its faults, stays within a footprint: first the steps that
only look, then the shared helpers, then the steps of the calls.  The footprint
of a helper is stated by what it must contain, so that one lemma serves every
caller.  Of the engine's members a step changes the failure of a progress report
and the loaded plan; only a load and a journal write change the current record.
-/

namespace BmxUpdate

open Crash Volumes Wire

/-! ## The engine's members -/

/-- A relation on the engine's members that steps without a journal keep to. -/
class Quiet (S : EngineState → EngineState → Prop) : Prop extends FrameRel S where
  progressFailed : ∀ s : EngineState, S s { s with progressFailed := true }
  contentPlan : ∀ (s : EngineState) (plan : Option (List Bool × Bool)),
    S s { s with contentPlan := plan }

/-- A relation on the engine's members that progress reports keep to. -/
class Reports (S : EngineState → EngineState → Prop) : Prop extends FrameRel S where
  reported : ∀ s : EngineState, S s { s with progressFailed := true }

instance {S : EngineState → EngineState → Prop} [Quiet S] : Reports S where
  reported := Quiet.progressFailed

/-- The members may change in any way. -/
abbrev AnyState : EngineState → EngineState → Prop := fun _ _ => True

instance : Quiet AnyState where
  progressFailed _ := trivial
  contentPlan _ _ := trivial

/-- The current record stays. -/
def SameJournal (s s' : EngineState) : Prop := s'.journal = s.journal

instance : Quiet SameJournal where
  refl _ := rfl
  trans h h' := Eq.trans h' h
  progressFailed _ := rfl
  contentPlan _ _ := rfl

/-! ## Steps that only look -/

section Looks

variable {S : EngineState → EngineState → Prop} [Reports S] {R : Volume → Volume → Prop}
  [FrameRel R]

theorem respects_progress : Respects S R progress := by
  refine .bind .get fun s => ?_
  split
  · exact .throw ()
  · refine .bind (.attempt respects_barrier) fun result => ?_
    cases result with
    | ok _ => exact .pure ()
    | error _ => exact .bind (.modify Reports.reported) fun _ => .throw ()

theorem respects_progressFor (content : Content) : Respects S R (progressFor content) := by
  unfold progressFor
  split
  · exact .pure ()
  · exact respects_progress

theorem respects_currentRecord : Respects S R Env.currentRecord := by
  refine .bind .get fun s => ?_
  split
  · exact .throw _
  · exact .pure _

theorem respects_readJournalFile (path : Path) : Respects S R (readJournalFile path) := by
  refine .bind (.orElse _ (respects_stat path)) fun found => ?_
  split
  · exact .pure _
  split
  · exact .pure _
  · exact .bind (.orElse _ (respects_readFile path)) fun _ =>
      .bind (.orElse _ respects_progress) fun _ => .pure _

theorem respects_readEvidence (path : Path) (size : Nat) :
    Respects S R (readEvidence path size) := by
  refine .bind (.orElse _ (respects_stat path)) fun found => ?_
  split
  · exact .pure _
  · exact .bind (.check _ _) fun _ => .bind (.orElse _ (respects_readFile path)) fun _ =>
      .pure _

theorem respects_confirmEvidence (path : Path) (bytes : Bytes) :
    Respects S R (confirmEvidence path bytes) :=
  .bind (.orElse _ (respects_readEvidence _ _)) fun _ => .check _ _

namespace Env

variable (env : Env)

theorem respects_require (checked : Except InstallerFailure Unit) :
    Respects S R (require checked) := by
  cases checked with
  | ok _ => exact .pure ()
  | error failure => exact .throw failure

theorem respects_hashFile (path : Path) : Respects S R (env.hashFile path) :=
  .bind (respects_readFile path) fun content => .bind (respects_progressFor content) fun _ =>
    .pure _

theorem respects_verifyFile (path : Path) (size : Nat) (digest : Digest) :
    Respects S R (env.verifyFile path size digest) :=
  .bind (.orElse _ (respects_stat path)) fun _ => .bind (.check _ _) fun _ =>
    .bind (.orElse _ (env.respects_hashFile path)) fun _ => .check _ _

theorem respects_verifyEffective (path : Path) (file : ManifestFile) :
    Respects S R (env.verifyEffective path file) :=
  env.respects_verifyFile _ _ _

theorem respects_loadJournal (allowMissing : Bool) :
    Respects AnyState R (env.loadJournal allowMissing) := by
  refine .bind (respects_readJournalFile _) fun copyA =>
    .bind (respects_readJournalFile _) fun copyB => ?_
  dsimp only
  split
  · refine .bind (.modify fun _ => trivial) fun _ => ?_
    split
    · exact .pure ()
    · exact .throw _
  · exact .throw _
  · exact .throw _
  · exact .modify fun _ => trivial
  · exact .modify fun _ => trivial
  · exact .throw _

theorem respects_markerExists (directory : Bool) (index : Nat) :
    Respects S R (env.markerExists directory index) := by
  refine .bind (.orElse _ (respects_readEvidence _ _)) fun encoded => ?_
  split
  · exact .throw ()
  · exact .pure _

end Env

end Looks

section Plans

variable {S : EngineState → EngineState → Prop} [Quiet S] {R : Volume → Volume → Prop} [FrameRel R]

namespace Env

variable (env : Env)

theorem respects_loadContentPlan (requireFinal : Bool) :
    Respects S R (env.loadContentPlan requireFinal) := by
  refine .bind (.orElse _ (respects_stat _)) fun finalStat =>
    .bind (.orElse _ (respects_stat _)) fun preparedStat => .bind (.check _ _) fun _ => ?_
  dsimp only
  refine .bind (.check _ _) fun _ => .bind (.check _ _) fun _ =>
    .bind (.orElse _ (respects_readFile _)) fun _ =>
    .bind (.orElse _ respects_barrier) fun _ => ?_
  split
  · exact .throw _
  · exact .modify fun s => Quiet.contentPlan s _

theorem respects_loadedContentPlan_of_quiet : Respects S R env.loadedContentPlan := by
  refine .bind .get fun s => ?_
  split
  · exact .pure _
  · refine .bind (env.respects_loadContentPlan false) fun _ => .bind .get fun s' => ?_
    split
    · exact .pure _
    · exact .throw _

end Env

end Plans

/-- A relation on the engine's members that looking at the plan keeps to. -/
class Loads (S : EngineState → EngineState → Prop) : Prop extends Reports S where
  loaded : ∀ (env : Env) (allow : Fault → Prop), Steady allow S env.loadedContentPlan

instance {S : EngineState → EngineState → Prop} [Quiet S] : Loads S where
  loaded env := (env.respects_loadedContentPlan_of_quiet (R := fun _ _ => True)).steady

/-- A plan that is loaded stays. -/
def PlanStays (s s' : EngineState) : Prop :=
  ∀ plan, s.contentPlan = some plan → s'.contentPlan = some plan

instance : Reports PlanStays where
  refl _ _ h := h
  trans h h' plan hplan := h' plan (h plan hplan)
  reported _ _ h := h

instance : Loads PlanStays where
  loaded env allow s d := by
    cases hs : s.contentPlan with
    | none =>
        have hany := (env.respects_loadedContentPlan_of_quiet (S := AnyState)
          (R := fun _ _ => True)).steady allow s d
        refine wp_mono hany ?_ ?_ fun _ _ => trivial
        · intro _ s' _ _ plan hplan
          rw [hs] at hplan
          cases hplan
        · intro _ s' _ _ plan hplan
          rw [hs] at hplan
          cases hplan
    | some plan =>
        refine wp_bind (wp_get ?_)
        dsimp only [Post.before]
        rw [hs]
        exact wp_pure fun _ h => h

section Looks

variable {S : EngineState → EngineState → Prop} [Loads S] {R : Volume → Volume → Prop} [FrameRel R]

namespace Env

variable (env : Env)

theorem respects_loadedContentPlan : Respects S R env.loadedContentPlan :=
  ⟨(env.respects_loadedContentPlan_of_quiet (S := AnyState)).preserves, Loads.loaded env⟩

theorem respects_isNoop (index : Nat) : Respects S R (env.isNoop index) :=
  .bind (.check _ _) fun _ => .bind env.respects_loadedContentPlan fun _ => .pure _

theorem respects_readContentPlanRecord (index : Nat) :
    Respects S R (env.readContentPlanRecord index) := by
  refine .bind (.check _ _) fun _ => .bind env.respects_loadedContentPlan fun plan =>
    .bind (.orElse _ (respects_readFile _)) fun encoded => .bind (.check _ _) fun _ => ?_
  split
  · exact .throw _
  · exact .pure _

theorem respects_readSnapshotEvidence (index : Nat) :
    Respects S R (env.readSnapshotEvidence index) := by
  refine .bind (env.respects_readContentPlanRecord index) fun record => ?_
  split
  · exact .pure _
  split
  · exact .pure _
  refine .bind env.respects_loadedContentPlan fun plan => .bind (.check _ _) fun _ =>
    .bind (respects_readEvidence _ _) fun encoded => ?_
  split
  · exact .throw _
  · exact .pure _

theorem respects_readMetadataEvidence (index : Nat) :
    Respects S R (env.readMetadataEvidence index) := by
  refine .bind (env.respects_readContentPlanRecord index) fun record =>
    .bind (.check _ _) fun _ => ?_
  split
  · exact .pure _
  · exact .pure _

theorem respects_preparedPlanRecord (file : ManifestFile) :
    Respects S R (env.preparedPlanRecord file) := by
  refine .bind (.orElse _ (respects_stat _)) fun source => ?_
  split
  · exact .throw _
  · exact .pure _
  split
  · exact .pure _
  split
  · exact .bind (.orElse _ (env.respects_hashFile _)) fun _ => .bind (.check _ _) fun _ =>
      .pure _
  · exact .pure _

theorem respects_finalPlanRecord (index : Nat) (file : ManifestFile) :
    Respects S R (env.finalPlanRecord index file) := by
  refine .bind (env.respects_readContentPlanRecord index) fun record => ?_
  split
  · exact .bind (env.respects_readSnapshotEvidence index) fun _ => .bind (.check _ _) fun _ =>
      .pure _
  · exact .pure _

/-! ### Checks of the request and the archive -/

theorem respects_validateLiveConfig (resumable : Bool) (file : ManifestFile)
    (prepared : PreparedConfigTemplate) :
    Respects S R (env.validateLiveConfig resumable file prepared) := by
  refine .bind (.orElse _ (respects_stat _)) fun current => ?_
  split
  · refine .bind (.attempt (env.respects_verifyFile _ _ _)) fun result => ?_
    cases result with
    | ok _ => exact .pure ()
    | error failure =>
        dsimp only
        split
        · exact .mapError _ (env.respects_verifyFile _ _ _)
        · exact .throw _
  split
  · exact .pure ()
  split
  · exact .orElse _ (env.respects_verifyFile _ _ _)
  · exact .throw _

theorem respects_validatePreparedContent (prepared : PreparedConfigTemplate) :
    Respects S R (env.validatePreparedContent prepared) := by
  unfold validatePreparedContent
  split
  · exact .throw _
  · exact .bind (.check _ _) fun _ => .bind (.orElse _ respects_barrier) fun _ =>
      .bind (.orElse _ (respects_progressFor _)) fun _ => .check _ _

theorem respects_resumableJournal : Respects S R env.resumableJournal := by
  refine .bind .get fun s => ?_
  split
  · exact .pure _
  split
  · exact .pure _
  split
  · exact .pure _
  · exact .throw _

theorem respects_validatePreparedConfigs : Respects AnyState R env.validatePreparedConfigs := by
  refine .bind (env.respects_loadJournal true) fun _ =>
    .bind env.respects_resumableJournal fun resumable => .forIndexed fun _ file _ => ?_
  split
  · exact .pure ()
  split
  · exact .throw _
  · exact .bind (env.respects_validateLiveConfig _ _ _) fun _ =>
      env.respects_validatePreparedContent _

theorem respects_prepareArchive : Respects AnyState R env.prepareArchive := by
  unfold prepareArchive
  split
  · exact .throw _
  split
  · exact .throw _
  exact .bind (.check _ _) fun _ => .bind (.orElse _ respects_progress) fun _ =>
    .bind (.orElse _ respects_barrier) fun _ =>
    .bind (.orElse _ (respects_progressFor _)) fun _ => .bind (.check _ _) fun _ =>
    .bind (.check _ _) fun _ => .bind (.check _ _) fun _ => .bind (.check _ _) fun _ =>
    .bind (.check _ _) fun _ => .bind env.respects_validatePreparedConfigs fun _ => .pure _

theorem respects_beginCall (workspace : Option InstallerWorkspace) (requirePrepared : Bool) :
    Respects S R (env.beginCall workspace requirePrepared) :=
  .bind (respects_require _) fun _ => .check _ _

/-! ### The storage preflight -/

theorem respects_checkSnapshot (index : Nat) (file : ManifestFile)
    (destination : UpdateFileStat) : Respects S R (env.checkSnapshot index file destination) := by
  refine .bind (.attempt (env.respects_readSnapshotEvidence index)) fun result => ?_
  split
  · exact .bind (.check _ _) fun _ => .orElse _ (env.respects_verifyFile _ _ _)
  · exact .bind (.check _ _) fun _ => .bind (.orElse _ (env.respects_hashFile _)) fun _ =>
      env.respects_verifyFile _ _ _
  · exact .throw _

theorem respects_preflightSnapshot (resumable : Bool)
    (completedSteps snapshotStep allocationUnit index : Nat) (file : ManifestFile)
    (destination : UpdateFileStat) (demand : StorageDemand) :
    Respects S R (env.preflightSnapshot resumable completedSteps snapshotStep allocationUnit
      index file destination demand) := by
  refine .bind (.orElse _ (respects_stat _)) fun snapshotStat => ?_
  split
  · exact .bind (env.respects_checkSnapshot _ _ _) fun _ => .pure _
  · exact .throw _
  split
  · split
    · exact .throw _
    · exact .pure _
  · exact .pure _

theorem respects_preflightStaged (resumable : Bool)
    (completedSteps stageStep effectiveAllocation : Nat) (file : ManifestFile)
    (destination : UpdateFileStat) (demand : StorageDemand) :
    Respects S R (env.preflightStaged resumable completedSteps stageStep effectiveAllocation file
      destination demand) := by
  refine .bind (.orElse _ (respects_stat _)) fun stagedStat => ?_
  split
  · exact .throw _
  · exact .bind (env.respects_verifyEffective _ _) fun _ => .pure _
  split
  · split
    · exact .throw _
    · exact .pure _
  · exact .pure _

theorem respects_preflightFile (resumable : Bool) (completedSteps allocationUnit : Nat)
    (layout : StepLayout) (index : Nat) (file : ManifestFile)
    (progress : Nat × StorageDemand) :
    Respects S R (env.preflightFile resumable completedSteps allocationUnit layout index file
      progress) := by
  unfold preflightFile
  split
  · exact .throw _
  refine .bind (.orElse _ (respects_stat _)) fun destination => .bind (.check _ _) fun _ =>
    .bind (env.respects_isNoop index) fun unchanged => ?_
  split
  · exact .pure _
  refine .bind (env.respects_preflightStaged _ _ _ _ _ _ _) fun demand => ?_
  split
  · exact .bind (env.respects_preflightSnapshot _ _ _ _ _ _ _ _) fun _ => .pure _
  · exact .pure _

theorem respects_preflightFiles (resumable : Bool) (completedSteps allocationUnit : Nat)
    (layout : StepLayout) (index : Nat) (files : List ManifestFile)
    (progress : Nat × StorageDemand) :
    Respects S R (env.preflightFiles resumable completedSteps allocationUnit layout index files
      progress) := by
  induction files generalizing index progress with
  | nil => exact .pure _
  | cons file rest ih =>
      exact .bind (env.respects_preflightFile _ _ _ _ _ _ _) fun next => ih _ next

theorem respects_stageWorkFiles (index : Nat) (files : List ManifestFile) (remaining : Nat) :
    Respects S R (env.stageWorkFiles index files remaining) := by
  induction files generalizing index remaining with
  | nil => exact .pure _
  | cons file rest ih =>
      refine .bind (env.respects_isNoop index) fun unchanged => ?_
      split
      · exact ih _ _
      refine .bind (.orElse _ (respects_stat _)) fun destination =>
        .bind (.orElse _ (respects_stat _)) fun staged =>
        .bind (.whenOr _ (.bind (.orElse _ (respects_stat _)) fun _ => .pure _))
          fun snapshot => ?_
      split
      · exact .throw _
      · exact ih _ _

theorem respects_initializeStageWork : Respects S R env.initializeStageWork :=
  .bind (env.respects_stageWorkFiles _ _ _) fun _ => .orElse _ respects_progress

/-! ### Checks of the live files -/

theorem respects_checkConsentedSource (file : ManifestFile) (source : UpdateFileStat) :
    Respects S R (env.checkConsentedSource file source) := by
  unfold checkConsentedSource
  split
  · split
    · exact .throw _
    split
    · exact .orElse _ (env.respects_verifyFile _ _ _)
    · exact .check _ _
  · exact .pure ()

theorem respects_verifyCandidateFile (index : Nat) (file : ManifestFile) :
    Respects S R (env.verifyCandidateFile index file) := by
  refine .bind (env.respects_isNoop index) fun unchanged => ?_
  split
  · exact env.respects_verifyEffective _ _
  split
  · exact env.respects_verifyEffective _ _
  · exact env.respects_verifyEffective _ _
  · refine .bind (.orElse _ (env.respects_markerExists _ _)) fun existed => ?_
    split
    · exact .pure ()
    · exact env.respects_verifyFile _ _ _
  · exact env.respects_verifyEffective _ _
  · exact env.respects_verifyEffective _ _

theorem respects_verifyCandidateFiles : Respects S R env.verifyCandidateFiles :=
  .forIndexed fun _ file _ => .bind (.when (env.respects_verifyCandidateFile _ file))
    fun _ => .orElse _ respects_progress

theorem respects_confirmMetadata (index : Nat) (file : ManifestFile) :
    Respects S R (env.confirmMetadata index file) :=
  .bind (.orElse _ (env.respects_markerExists _ _)) fun _ =>
    .bind (.orElse _ (env.respects_readMetadataEvidence _)) fun _ => .bind (.check _ _) fun _ =>
    .bind (.when (.orElse _ (env.respects_verifyFile _ _ _))) fun _ =>
    env.respects_verifyFile _ _ _

theorem respects_restoreUnrecorded (file : ManifestFile) (existed : Bool)
    (old : UpdateFileStat) : Respects S R (env.restoreUnrecorded file existed old) :=
  .bind (.orElse _ (respects_stat _)) fun _ => .bind (.orElse _ (respects_stat _)) fun _ =>
    .check _ _

theorem respects_confirmUnswapped (file : ManifestFile) (old : OldFile) :
    Respects S R (env.confirmUnswapped file old) :=
  .bind (.orElse _ (respects_stat _)) fun _ => .bind (.orElse _ (respects_stat _)) fun _ =>
    .bind (.check _ _) fun _ => .orElse _ (env.respects_verifyFile _ _ _)

theorem respects_activatedUnjournalled (index : Nat) (file : ManifestFile) :
    Respects S R (env.activatedUnjournalled index file) := by
  refine .bind (.orElse _ (respects_stat _)) fun stagedStat => ?_
  split
  · exact .pure _
  · exact .throw _
  split
  · exact .bind (.orElse _ (env.respects_markerExists _ _)) fun _ => .pure _
  · exact .pure _

theorem respects_noContentPlan : Respects S R env.noContentPlan :=
  .bind (respects_stat _) fun _ => .bind (respects_stat _) fun _ => .pure _

theorem respects_removalFailure : Respects S R removalFailure :=
  .bind .get fun _ => .pure _

end Env

end Looks

/-! ## The shared helpers -/

section Helpers

variable {σ : Type} {S : σ → σ → Prop} [FrameRel S] {R : Volume → Volume → Prop} [FrameRel R]
  {fp : Footprint}

theorem respects_withCleanup {step cleanup : FsProc σ Unit} (hstep : Respects S R step)
    (hcleanup : Respects S R cleanup) : Respects S R (withCleanup step cleanup) := by
  refine .bind (.attempt hstep) fun result => ?_
  cases result with
  | ok _ => exact .pure ()
  | error _ => exact .bind (.attempt hcleanup) fun _ => .throw ()

section Engine

variable {S : EngineState → EngineState → Prop} [Reports S]

theorem respects_ensureParents {path : Path}
    (hparents : ∀ ancestor ∈ properAncestors path, fp.appear ancestor) :
    Respects S (Within fp) (ensureParents path) :=
  .forIndexed fun _ ancestor h =>
    .bind (respects_createDirectory (hparents ancestor (List.mem_of_getElem? h))) fun _ =>
      respects_syncContainingDirectory _

theorem respects_removeIfPresent {path : Path} (hpath : fp.file path) :
    Respects S (Within fp) (removeIfPresent path) := by
  refine .bind (respects_stat path) fun found => ?_
  split
  · exact respects_syncContainingDirectory _
  · exact .throw ()
  · exact .bind (respects_removeFile hpath) fun _ => respects_syncContainingDirectory _

theorem respects_removeFileAndTemporary {path : Path}
    (h : ∀ p, WithTemporaries path p → fp.file p) :
    Respects S (Within fp) (removeFileAndTemporary path) :=
  .bind (respects_removeIfPresent (h _ (Or.inl rfl))) fun _ =>
    .bind (respects_removeIfPresent (h _ (Or.inr (Or.inl rfl)))) fun _ =>
    respects_removeIfPresent (h _ (Or.inr (Or.inr rfl)))

/-- What a step that publishes a file needs: the file, its temporary, and the
directories above it. -/
structure Publishes (fp : Footprint) (path : Path) : Prop where
  file : fp.file path
  part : fp.file (addSuffix path ".part")
  ancestors : ∀ ancestor ∈ properAncestors path, fp.appear ancestor

theorem respects_publish {temporary path : Path} (htemporary : fp.file temporary)
    (hpath : fp.file path) (content : Content) :
    Respects S (Within fp) (Env.publish temporary path content) :=
  .bind (respects_write htemporary content) fun _ =>
    .bind (respects_progressFor content) fun _ => .bind respects_barrier fun _ =>
    .bind respects_barrier fun _ => .bind (respects_rename htemporary hpath) fun _ =>
    respects_syncContainingDirectory _

theorem respects_copySource {source temporary : Path} (htemporary : fp.file temporary) :
    Respects S (Within fp) (Env.copyFresh.copySource source temporary) := by
  refine .bind (.attempt ?_) fun result => ?_
  · exact .bind (respects_readFile source) fun _ =>
      .bind (respects_createFileFresh htemporary) fun _ => .pure _
  · cases result with
    | ok content => exact .pure content
    | error _ =>
        exact .bind (.attempt (respects_removeIfPresent htemporary)) fun _ => .throw ()

theorem respects_copyFresh {source destination : Path} (h : fp.file destination)
    (hpart : fp.file (addSuffix destination ".part")) :
    Respects S (Within fp) (Env.copyFresh source destination) :=
  .bind (.orElse _ (respects_removeIfPresent hpart)) fun _ =>
    .bind (.orElse _ (respects_copySource hpart)) fun content =>
    .bind (.orElse _ (respects_withCleanup (respects_publish hpart h content)
      (respects_removeIfPresent hpart))) fun _ => .pure _

theorem respects_writeFreshEvidence {path : Path} {bytes : Bytes} (hpath : fp.file path)
    (hpart : fp.file (addSuffix path ".part")) :
    Respects S (Within fp) (writeFreshEvidence path bytes) := by
  refine .bind (.orElse _ (respects_stat path)) fun found => ?_
  split
  · exact .bind (.check _ _) fun _ => respects_confirmEvidence _ _
  · exact .throw _
  · refine .bind (.orElse _ (respects_removeIfPresent hpart)) fun _ =>
      .bind (.orElse _ (respects_createFileFresh hpart)) fun _ =>
      .bind (.orElse _ (respects_withCleanup ?_ (respects_removeIfPresent hpart))) fun _ =>
      respects_confirmEvidence _ _
    exact .bind (respects_write hpart bytes) fun _ => .bind respects_barrier fun _ =>
      .bind respects_barrier fun _ => .bind (respects_rename hpart hpath) fun _ =>
      respects_syncContainingDirectory _

end Engine

end Helpers

namespace Env

variable (env : Env) {S : EngineState → EngineState → Prop} [Reports S] {fp : Footprint}

theorem respects_copyFileAtomic {source destination : Path} (h : Publishes fp destination) :
    Respects S (Within fp) (env.copyFileAtomic source destination) := by
  refine .bind (.orElse _ (respects_stat _)) fun sourceStat =>
    .bind (.orElse _ (respects_stat _)) fun destinationStat => .bind (.check _ _) fun _ => ?_
  split
  · exact .bind (.orElse _ (env.respects_hashFile _)) fun _ =>
      .bind (.orElse _ (env.respects_hashFile _)) fun _ => .bind (.check _ _) fun _ =>
      .pure _
  · exact .throw _
  · exact .bind (.orElse _ (respects_ensureParents h.ancestors)) fun _ =>
      .bind (respects_copyFresh h.file h.part) fun _ =>
      .bind (env.respects_verifyFile _ _ _) fun _ => .pure _

theorem respects_copyFileAtomicExpected {source destination : Path} {size : Nat}
    {digest : Digest} (h : Publishes fp destination) :
    Respects S (Within fp) (env.copyFileAtomicExpected source destination size digest) := by
  refine .bind (.orElse _ (respects_stat _)) fun sourceStat =>
    .bind (.orElse _ (respects_stat _)) fun destinationStat => .bind (.check _ _) fun _ => ?_
  split
  · exact .orElse _ (env.respects_verifyFile _ _ _)
  · exact .throw _
  · exact .bind (.orElse _ (respects_ensureParents h.ancestors)) fun _ =>
      .bind (respects_copyFresh h.file h.part) fun _ =>
      .orElse _ (env.respects_verifyFile _ _ _)

theorem respects_replaceWithCopy {source destination : Path} (h : fp.file destination)
    (htemporary : Publishes fp (addSuffix destination ".rollback")) :
    Respects S (Within fp) (env.replaceWithCopy source destination) :=
  .bind (.orElse _ (respects_removeIfPresent htemporary.file)) fun _ =>
    .bind (env.respects_copyFileAtomic htemporary) fun _ =>
    .orElse _ (.bind (respects_rename htemporary.file h) fun _ =>
      respects_syncContainingDirectory _)

end Env

end BmxUpdate
