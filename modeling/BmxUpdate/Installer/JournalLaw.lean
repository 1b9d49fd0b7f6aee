import BmxUpdate.Installer.RetirementLaw
import Mathlib.Logic.Relation

/-!
# The journal as one record

The calls of the installer keep two journal files that are written in turn, and
any of their operations may be cut or fail.  Seen through a load the two files
are one record, or none, and `JournalStep` says what each call may do to it:

- `Call.advances`: the states a call may go on from and to,
- `JournalStep`: Stage begins a transaction where there is no journal, every
  write follows the record before it, and a retirement ends with no journal,
- `leads_call`: a call takes the record through steps of its own only,
- `journal_refines`: so does a run, whatever became of its calls,
- `commit_law`: a COMMITTED record was written by Commit with all steps done, and
  stays but for a rollback or its retirement.
-/

namespace BmxUpdate

open Crash Volumes Wire

/-- The states of the record before and after a journal write of a call. -/
def Call.advances : Call → JournalState → JournalState → Bool
  | .stage, .idle, .discovered | .stage, .discovered, .downloaded
  | .stage, .downloaded, .prepared | .stage, .prepared, .prepared
  | .stage, .prepared, .staged => true
  | .armCandidate, .staged, .candidatePending => true
  | .markCandidateHealthy, .candidatePending, .candidateHealthy => true
  | .commit, .candidateHealthy, .committing | .commit, .committing, .committing
  | .commit, .committing, .committed => true
  | .rollback, .discovered, .idle | .rollback, .downloaded, .idle
  | .rollback, .rollingBack, .idle => true
  | .rollback, .prepared, .rollingBack | .rollback, .staged, .rollingBack
  | .rollback, .candidatePending, .rollingBack | .rollback, .candidateHealthy, .rollingBack
  | .rollback, .committing, .rollingBack | .rollback, .committed, .rollingBack => true
  | _, _, _ => false

namespace Env

variable (env : Env)

/-- What a call may do to the newest record. -/
inductive JournalStep : Call → Option JournalRecord → Option JournalRecord → Prop
  | begin : JournalStep .stage none (some (makeIdleJournalRecord 1))
  | write {c : Call} {r next : JournalRecord}
      (hallowed : validateJournalTransition r next = .allowed)
      (hadvances : c.advances r.state next.state = true)
      (hfirst : r.state = .idle → r.generation = 1)
      (hidentity : r.state ≠ .idle → env.identityMatches r = true)
      (hnext : next.state ≠ .idle → env.identityMatches next = true)
      (hcomplete : next.state = .committed → next.completedSteps = next.totalSteps) :
      JournalStep c (some r) (some next)
  | retireRolledBack {r : JournalRecord} (hidle : r.state = .idle) :
      JournalStep .retireRolledBack (some r) none
  | retireCommitted {r : JournalRecord} (hcommitted : r.state = .committed)
      (hidentity : env.identityMatches r = true) : JournalStep .retireCommitted (some r) none

/-- The engine's current record is the newest on the volume, and `P` holds of
it. -/
def JournalAt (P : Option JournalRecord → Prop) (s : EngineState) (d : Volume) : Prop :=
  env.JournalPair d s.journal ∧ P (s.journal.map Prod.fst)

/-- A load finds a record, or none, that satisfies `P`. -/
def JournalHeld (P : Option JournalRecord → Prop) (d : Volume) : Prop :=
  ∃ cur, env.JournalPair d cur ∧ P (cur.map Prod.fst)

/-- A record of the request's transaction in a state. -/
def Own (state : JournalState) (o : Option JournalRecord) : Prop :=
  ∃ r, o = some r ∧ r.state = state ∧ env.identityMatches r = true

variable {env} {P Q R : Option JournalRecord → Prop}

/-- What follows a record of a transaction is of that transaction. -/
theorem identityMatches_of_continues {r next : JournalRecord} (h : Continues r next)
    (hr : env.identityMatches r = true) : env.identityMatches next = true := by
  obtain ⟨h1, h2, h3, h4, h5, h6, h7, h8⟩ := h.immutable
  have htransaction : r.transactionId = next.transactionId := h.transaction
  unfold identityMatches at hr ⊢
  rwa [← h1, ← h2, ← h3, ← h4, ← h5, ← h6, ← h7, ← h8, ← htransaction]

/-- A write after a record of the request's transaction. -/
theorem JournalStep.follow {c : Call} {r next : JournalRecord} {state : JournalState}
    (hallowed : validateJournalTransition r next = .allowed)
    (hidentity : env.identityMatches r = true) (hstate : r.state = state) (hstart : state ≠ .idle)
    (hadvances : c.advances state next.state = true)
    (hcomplete : next.state = .committed → next.completedSteps = next.totalSteps) :
    env.JournalStep c (some r) (some next) := by
  subst hstate
  have hlaw := validateJournalTransition_eq_allowed_iff.mp hallowed
  exact .write hallowed hadvances (fun h => absurd h hstart) (fun _ => hidentity)
    (fun hidle => identityMatches_of_continues (hlaw.continues hstart hidle) hidentity) hcomplete

theorem JournalAt.held {s : EngineState} {d : Volume} (h : env.JournalAt P s d) :
    env.JournalHeld P d :=
  ⟨s.journal, h⟩

theorem JournalAt.mono {s : EngineState} {d : Volume} (h : env.JournalAt P s d)
    (hPQ : ∀ o, P o → Q o) : env.JournalAt Q s d :=
  ⟨h.1, hPQ _ h.2⟩

theorem JournalHeld.mono {d : Volume} (h : env.JournalHeld P d) (hPQ : ∀ o, P o → Q o) :
    env.JournalHeld Q d := by
  obtain ⟨cur, hpair, hP⟩ := h
  exact ⟨cur, hpair, hPQ _ hP⟩

/-! ## Steps that are no journal writes -/

section Steps

variable (hPR : ∀ o, P o → R o)
include hPR

theorem leads_of_respects {ε α : Type} {m : Proc ε EngineState Volume α}
    (hm : Respects SameJournal (Within env.offJournals) m) :
    Leads (env.JournalHeld R) (env.JournalAt P) (env.JournalAt P) m := by
  refine .of_respects hm ?_ fun s d h => (h.mono hPR).held
  intro s s' d d' hjournal hwithin h
  have hsame : s'.journal = s.journal := hjournal
  unfold JournalAt
  rw [hsame]
  exact ⟨h.1.of_nodeAt (nodeAt_of_offJournals hwithin), h.2⟩

/-- What works on the current record knows it. -/
theorem leads_currentRecord {α : Type} {K : EngineState → Volume → Prop}
    {k : JournalRecord → EngineProc α}
    (hk : ∀ r, P (some r) → Leads (env.JournalHeld R) (env.JournalAt (· = some r)) K (k r)) :
    Leads (env.JournalHeld R) (env.JournalAt P) K (currentRecord >>= k) := by
  intro s d h
  refine keeps_bind (keeps_bind (keeps_get ?_))
  cases hjournal : s.journal with
  | none => exact keeps_throw (h.mono hPR).held trivial
  | some current =>
      have hcurrent := h.2
      rw [hjournal] at hcurrent
      refine keeps_pure (hk current.1 hcurrent s d ⟨h.1, ?_⟩)
      rw [hjournal]
      rfl

/-- A write follows the record that is current. -/
theorem leads_writeTransition {next : JournalRecord}
    (hnext : ∀ r, P (some r) → validateJournalTransition r next = .allowed →
      R (some next) ∧ Q (some next)) :
    Leads (env.JournalHeld R) (env.JournalAt P) (env.JournalAt Q) (env.writeTransition next) := by
  intro s d h
  have hheld := (h.mono hPR).held
  refine keeps_bind (keeps_get ?_)
  cases hjournal : s.journal with
  | none => exact keeps_throw hheld trivial
  | some current =>
      obtain ⟨r, slot⟩ := current
      have hpair := h.1
      have hcurrent := h.2
      rw [hjournal] at hpair hcurrent
      refine keeps_bind (keeps_check (fun _ => ⟨hheld, trivial⟩) fun hallowed => ?_)
      obtain ⟨hR, hQ⟩ := hnext r hcurrent hallowed
      have hlt := generation_lt_of_allowed hallowed
      refine keeps_writeJournalBytes (fun _ => mayFail_anyFault) (fun _ _ => trivial)
        (fun d' hwriting => ?_) fun d' hvalid hwritten => ?_
      · rcases hpair.torn hlt hwriting.torn with hkept | hnew
        · exact ⟨_, hkept, hPR _ hcurrent⟩
        · exact ⟨_, hnew, hR⟩
      · refine ⟨hpair.written hvalid ?_ rfl hwritten, hQ⟩
        intro r' slot' hsome
        cases hsome
        exact hlt

end Steps

/-- The first write of a transaction. -/
theorem leads_writeInitialJournal {next : JournalRecord} (hnone : R none)
    (hnext : R (some next)) :
    Leads (env.JournalHeld R) (env.JournalAt (· = none)) (env.JournalAt (· = some next))
      (env.writeInitialJournal next) := by
  intro s d h
  obtain ⟨hpair, hjournal⟩ := h
  rw [Option.map_eq_none_iff] at hjournal
  rw [hjournal] at hpair
  refine keeps_bind (keeps_get (keeps_bind (keeps_check (fun hsome => ?_) fun _ => ?_)))
  · exact absurd (by rw [hjournal]; rfl) hsome
  refine keeps_writeJournalBytes (fun _ => mayFail_anyFault) (fun _ _ => trivial)
    (fun d' hwriting => ?_) fun d' hvalid hwritten => ?_
  · have hother := hwriting.torn.other
    rcases hwriting.destination with hsame | ⟨hvalid, hnew⟩
    · refine ⟨none, fun slot => ?_, hnone⟩
      cases slot with
      | a => exact hsame.trans (hpair .a)
      | b => exact hother.trans (hpair .b)
    · refine ⟨some (next, .a), ⟨recordAt_recordNode hvalid hnew, fun r' hr' => ?_⟩, hnext⟩
      rw [recordAt_missing (hother.trans (hpair .b))] at hr'
      cases hr'
  · refine ⟨hpair.written hvalid ?_ rfl hwritten, rfl⟩
    intro r' slot' hsome
    cases hsome

/-- A load makes what the journal holds current. -/
theorem leads_loadJournal (allowMissing : Bool) :
    Leads (env.JournalHeld R) (fun _ => env.JournalHeld R) (env.JournalAt R)
      (env.loadJournal allowMissing) := by
  intro s d h
  refine keeps_mono (keeps_loadJournal_any allowMissing fun _ => mayFail_anyFault) ?_
    (fun _ _ => trivial) ?_
  · intro d' hd'
    rw [hd']
    exact h
  · intro _ s' d' hend
    obtain ⟨rfl, cur, hpair, rfl⟩ := hend
    obtain ⟨cur', hpair', hR⟩ := h
    rw [hpair'.unique hpair] at hR
    exact ⟨hpair, hR⟩

/-- A second load changes nothing. -/
theorem leads_reloadJournal (hPR : ∀ o, P o → R o) (allowMissing : Bool) :
    Leads (env.JournalHeld R) (env.JournalAt P) (env.JournalAt P)
      (env.loadJournal allowMissing) := by
  intro s d h
  refine keeps_mono (leads_loadJournal (R := P) allowMissing s d h.held) ?_ (fun _ h => h)
    fun _ _ _ h => h
  exact fun d' hd' => hd'.mono hPR

/-- What a call does before it loads the journal. -/
theorem leads_before {ε α : Type} {m : Proc ε EngineState Volume α}
    (hm : Preserves (Within env.offJournals) m) :
    Leads (env.JournalHeld R) (fun _ => env.JournalHeld R) (fun _ => env.JournalHeld R) m := by
  intro s d h
  have hheld : ∀ d', Within env.offJournals d d' → env.JournalHeld R d' := by
    intro d' hwithin
    obtain ⟨cur, hpair, hR⟩ := h
    exact ⟨cur, hpair.of_nodeAt (nodeAt_of_offJournals hwithin), hR⟩
  refine wp_mono (hm anyFault s d) (fun _ _ => hheld) ?_ ?_
  · exact fun _ _ d' hwithin => ⟨hheld d' hwithin, Or.inl trivial⟩
  · exact fun d' hwithin => ⟨hheld d' hwithin, 0, trivial⟩

/-! ## Stage -/

/-- A record of the request's transaction in a state, one of those `R` holds of. -/
def HeldIn (env : Env) (R : Option JournalRecord → Prop) (state : JournalState)
    (o : Option JournalRecord) : Prop :=
  R o ∧ env.Own state o

theorem JournalAt.held_of_heldIn {state : JournalState} {s : EngineState} {d : Volume}
    (h : env.JournalAt (env.HeldIn R state) s d) : env.JournalHeld R d :=
  (h.mono fun _ ho => ho.1).held

theorem leads_in {ε α : Type} {state : JournalState} {m : Proc ε EngineState Volume α}
    (hm : Respects SameJournal (Within env.offJournals) m) :
    Leads (env.JournalHeld R) (env.JournalAt (env.HeldIn R state))
      (env.JournalAt (env.HeldIn R state)) m :=
  leads_of_respects (fun _ ho => ho.1) hm

section Stage

variable (happart : env.Apart) (hR : ∀ a b, env.JournalStep .stage a b → R a → R b)
include hR

theorem leads_writeDownloaded {r : JournalRecord} (hr : R (some r))
    (hstate : r.state = .discovered) (hidentity : env.identityMatches r = true) :
    Leads (env.JournalHeld R) (env.JournalAt (· = some r))
      (env.JournalAt (env.HeldIn R .downloaded)) env.writeDownloaded := by
  have hheld : ∀ o, o = some r → R o := fun o ho => ho ▸ hr
  refine leads_currentRecord hheld fun r' hr' => ?_
  obtain rfl := Option.some.inj hr'
  refine leads_writeTransition hheld fun r' hr'' hallowed => ?_
  obtain rfl := Option.some.inj hr''
  have hnext : R (some (env.downloadedRecord r')) :=
    hR _ _ (.follow hallowed hidentity hstate (by decide) rfl fun h => by cases h) hr
  exact ⟨hnext, hnext, _, rfl, rfl, hidentity⟩

theorem leads_writeDiscovered {r : JournalRecord} (hr : R (some r)) (hidle : r.state = .idle)
    (hfirst : r.generation = 1) (layout : StepLayout) :
    Leads (env.JournalHeld R) (env.JournalAt (· = some r))
      (env.JournalAt (env.HeldIn R .downloaded)) (env.writeDiscovered layout) := by
  have hheld : ∀ o, o = some r → R o := fun o ho => ho ▸ hr
  refine leads_currentRecord hheld fun r' hr' => ?_
  obtain rfl := Option.some.inj hr'
  have hidentity : env.identityMatches (env.discoveredRecord r' layout) = true := by
    simp [identityMatches, discoveredRecord]
  refine .bind (K := env.JournalAt fun o => R o ∧ o = some (env.discoveredRecord r' layout)) ?_
    fun _ => ?_
  · refine leads_writeTransition hheld fun r' hr'' hallowed => ?_
    obtain rfl := Option.some.inj hr''
    have hnext : R (some (env.discoveredRecord r' layout)) := by
      refine hR _ _ (.write hallowed ?_ (fun _ => hfirst) (fun h => absurd hidle h)
        (fun _ => hidentity) fun h => by cases h) hr
      rw [hidle]
      rfl
    exact ⟨hnext, hnext, rfl⟩
  · intro s d h
    have hnext : R (some (env.discoveredRecord r' layout)) := by
      rw [← h.2.2]
      exact h.2.1
    exact leads_writeDownloaded hR hnext rfl hidentity s d (h.mono fun _ ho => ho.2)

/-- After `InitializeJournal` the newest record is one of the request's
transaction. -/
theorem leads_initializeJournal (layout : StepLayout) :
    Leads (env.JournalHeld R) (fun _ => env.JournalHeld R)
      (env.JournalAt fun o => ∃ state, env.HeldIn R state o) (env.initializeJournal layout) := by
  refine .bind (leads_loadJournal true) fun _ s d h => keeps_bind (keeps_get ?_)
  have hdownloaded : ∀ s' d', env.JournalAt (env.HeldIn R .downloaded) s' d' →
      env.JournalAt (fun o => ∃ state, env.HeldIn R state o) s' d' :=
    fun _ _ h' => h'.mono fun _ ho => ⟨_, ho⟩
  have hheld := h.held
  obtain ⟨hpair, hcurrent⟩ := h
  cases hjournal : s.journal with
  | none =>
      rw [hjournal] at hcurrent
      have hinitial : R (some (makeIdleJournalRecord 1)) := hR _ _ .begin hcurrent
      have hat : env.JournalAt (· = none) s d := ⟨hpair, by rw [hjournal]; rfl⟩
      have hwrite := (leads_writeInitialJournal hcurrent hinitial).bind fun _ =>
        (leads_writeDiscovered hR hinitial rfl rfl layout).weaken (fun _ _ h => h) hdownloaded
      exact hwrite s d hat
  | some current =>
      obtain ⟨r, slot⟩ := current
      rw [hjournal] at hcurrent
      have hat : env.JournalAt (· = some r) s d := ⟨hpair, by rw [hjournal]; rfl⟩
      dsimp only
      refine keeps_ite (fun hidle => ?_) fun _ => ?_
      · refine keeps_bind (keeps_check (fun _ => ⟨hheld, trivial⟩) fun hfirst => ?_)
        exact (leads_writeDiscovered hR hcurrent hidle hfirst layout).weaken
          (fun _ _ h => h) hdownloaded s d hat
      · refine keeps_bind (keeps_check (fun _ => ⟨hheld, trivial⟩) fun hmatches => ?_)
        refine keeps_ite (fun _ => keeps_pure ⟨hpair, r.state, ?_⟩) fun hdiscovered => ?_
        · rw [hjournal]
          exact ⟨hcurrent, r, rfl, rfl, hmatches.1⟩
        · exact (leads_writeDownloaded hR hcurrent (not_not.mp hdiscovered) hmatches.1).weaken
            (fun _ _ h => h) hdownloaded s d hat

/-- A write in PREPARED. -/
theorem leads_advancePreparedTo (completedSteps : Nat) :
    Leads (env.JournalHeld R) (env.JournalAt (env.HeldIn R .prepared))
      (env.JournalAt (env.HeldIn R .prepared)) (env.advancePreparedTo completedSteps) := by
  intro s d h
  have hheld := h.held_of_heldIn
  refine keeps_bind (keeps_get ?_)
  cases hjournal : s.journal with
  | none => exact keeps_throw hheld trivial
  | some current =>
      obtain ⟨r, slot⟩ := current
      have hcurrent := h.2
      rw [hjournal] at hcurrent
      obtain ⟨hr, r', hsome, hstate, hidentity⟩ := hcurrent
      obtain rfl := Option.some.inj hsome
      refine keeps_bind (keeps_check (fun _ => ⟨hheld, trivial⟩) fun _ => ?_)
      refine keeps_ite (fun _ => keeps_pure h) fun _ => ?_
      refine leads_writeTransition (P := (· = some r)) (fun o ho => ho ▸ hr) ?_ s d
        ⟨h.1, by rw [hjournal]; rfl⟩
      intro r' hr' hallowed
      obtain rfl := Option.some.inj hr'
      have hprepared : r'.state = .prepared := hstate
      have hnext := hR _ _ (.follow hallowed hidentity hprepared (by decide) ?_ ?_) hr
      · exact ⟨hnext, hnext, _, rfl, hstate, hidentity⟩
      · show Call.advances .stage .prepared r'.state = true
        rw [hprepared]
        rfl
      · intro hcommitted
        rw [show r'.state = .committed from hcommitted] at hprepared
        cases hprepared

theorem leads_advancePrepared :
    Leads (env.JournalHeld R) (env.JournalAt (env.HeldIn R .prepared))
      (env.JournalAt (env.HeldIn R .prepared)) env.advancePrepared := by
  refine leads_currentRecord (fun _ ho => ho.1) fun r hr => ?_
  refine (leads_advancePreparedTo hR _).weaken (fun _ _ h => h.mono ?_) fun _ _ h => h
  exact fun o ho => ho ▸ hr

theorem leads_journalledStep {step : Nat} {action : EngineProc Unit}
    (haction : Respects SameJournal (Within env.offJournals) action) :
    Leads (env.JournalHeld R) (env.JournalAt (env.HeldIn R .prepared))
      (env.JournalAt (env.HeldIn R .prepared)) (env.journalledStep step action) := by
  refine leads_currentRecord (fun _ ho => ho.1) fun r hr => ?_
  have hexact : ∀ o, o = some r → env.HeldIn R .prepared o := fun o ho => ho ▸ hr
  refine .weaken (J := env.JournalAt (env.HeldIn R .prepared)) ?_ (fun _ _ h => h.mono hexact)
    fun _ _ h => h
  refine .check (fun _ _ h => h.held_of_heldIn) fun _ => .ite (fun _ => ?_) fun _ => .pure ()
  exact .bind (leads_in haction) fun _ => leads_advancePrepared hR

include happart

theorem leads_activateDirectories (layout : StepLayout) :
    Leads (env.JournalHeld R) (env.JournalAt (env.HeldIn R .prepared))
      (env.JournalAt (env.HeldIn R .prepared)) (env.activateDirectories layout) := by
  have := happart.covers
  refine .forIndexed fun index directory h => ?_
  exact leads_journalledStep hR (env.respects_activateDirectory (by rwa [Nat.zero_add]))

theorem leads_activateFiles {index : Nat} {files : List ManifestFile}
    (h : env.FilesFrom index files) (step : Nat) :
    Leads (env.JournalHeld R) (env.JournalAt (env.HeldIn R .prepared))
      (env.JournalAt (env.HeldIn R .prepared)) (env.activateFiles index files step) := by
  have := happart.covers
  induction files generalizing index step with
  | nil => exact .pure ()
  | cons file rest ih =>
      unfold activateFiles
      refine .ite (fun _ => ?_) fun _ => ih h.tail _
      exact .bind (leads_journalledStep hR (env.respects_activateFile h.head)) fun _ =>
        ih h.tail _

omit hR in
/-- `PreflightStorage` loads the journal once more. -/
theorem leads_preflightStorage :
    Leads (env.JournalHeld R) (env.JournalAt (env.HeldIn R .prepared))
      (env.JournalAt (env.HeldIn R .prepared)) env.preflightStorage := by
  have := happart.covers
  have hheld : ∀ (s : EngineState) d, env.JournalAt (env.HeldIn R .prepared) s d →
      env.JournalHeld R d := fun _ _ h => h.held_of_heldIn
  refine .bind (leads_in (.orElse _ respects_barrier)) fun _ => .check hheld fun _ =>
    .bind (leads_in (.orElse _ respects_barrier)) fun _ => ?_
  cases env.allocationUnit with
  | none => exact .throw _ hheld
  | some allocationUnit =>
      refine .check hheld fun _ =>
        .bind (leads_reloadJournal (fun _ ho => ho.1) true) fun _ =>
        .bind (leads_in env.respects_resumableJournal) fun resumable =>
        .bind (leads_in env.respects_buildContentPlan) fun _ => ?_
      split
      · exact .throw _ hheld
      · exact .throw _ hheld
      · exact .bind (leads_in .get) fun _ =>
          .bind (leads_in (env.respects_preflightFiles _ _ _ _ _ _ _)) fun _ =>
          .bind (leads_in (.orElse _ (.observe _))) fun _ => leads_in (.check _ _)

/-- `Stage` in PREPARED, up to its last write. -/
theorem leads_stagePrepared (zip : ZipArchive) (layout : StepLayout) :
    Leads (env.JournalHeld R) (env.JournalAt (env.HeldIn R .prepared)) (env.JournalAt R)
      (env.stagePrepared zip layout) := by
  have := happart.covers
  refine .bind (leads_preflightStorage happart) fun _ =>
    .bind (leads_in env.respects_initializeStageWork) fun _ =>
    .bind (leads_in (.orElse _ respects_progress)) fun _ => ?_
  refine .bind (leads_in respects_currentRecord) fun record =>
    .bind (leads_in (env.respects_stageSnapshots filesFrom_zero _ _)) fun snapshotted =>
    .bind (leads_in env.respects_finalizeContentPlan) fun _ =>
    .bind (leads_in (env.respects_stageFiles zip filesFrom_zero _ _)) fun highWater =>
    .bind (.when (fun _ => .check (fun _ _ h => h.held_of_heldIn) fun _ =>
      leads_advancePreparedTo hR _) fun _ _ _ h => h) fun _ =>
    .bind (leads_activateDirectories happart hR layout) fun _ =>
    .bind (leads_activateFiles happart hR filesFrom_zero _) fun _ => ?_
  refine leads_currentRecord (fun _ ho => ho.1) fun r hr => ?_
  obtain ⟨hr, r', hsome, hstate, hidentity⟩ := hr
  obtain rfl := Option.some.inj hsome
  have hexact : ∀ o, o = some r → R o := fun o ho => ho ▸ hr
  refine .check (fun _ _ h => (h.mono hexact).held) fun _ => .bind (K := env.JournalAt R) ?_
    fun _ => .bind (leads_of_respects (fun _ ho => ho) (.orElse _ respects_progress)) fun _ =>
    .pure _
  refine leads_writeTransition hexact fun r' hr' hallowed => and_self_iff.mpr ?_
  obtain rfl := Option.some.inj hr'
  exact hR _ _ (.follow hallowed hidentity hstate (by decide) rfl fun h => by cases h) hr

theorem leads_stage :
    Leads (env.JournalHeld R) (fun _ => env.JournalHeld R) (fun _ => env.JournalHeld R)
      env.stage := by
  have := happart.covers
  have hback : ∀ (s : EngineState) d, env.JournalAt R s d → env.JournalHeld R d :=
    fun _ _ h => h.held
  refine .bind (leads_before (respects_require (S := AnyState) _).preserves) fun _ =>
    .check (fun _ _ h => h) fun _ =>
    .bind (leads_before env.respects_prepareArchive.preserves) fun zip => ?_
  cases buildStepLayout env.asset with
  | none => exact .throw _ fun _ _ h => h
  | some layout =>
      refine .bind (leads_before (Respects.orElse _
        (env.respects_ensureTransactionDirectories (S := AnyState))).preserves) fun _ =>
        .bind (leads_initializeJournal hR layout) fun _ =>
        leads_currentRecord (fun _ ho => ho.elim fun _ ho => ho.1) fun r hr => ?_
      obtain ⟨state, hr, r', hsome, -, hidentity⟩ := hr
      obtain rfl := Option.some.inj hsome
      have hexact : ∀ o, o = some r → R o := fun o ho => ho ▸ hr
      have hheld : ∀ (s : EngineState) d, env.JournalAt (· = some r) s d →
          env.JournalHeld R d := fun _ _ h => (h.mono hexact).held
      refine .ite (fun _ => (Leads.pure _).weaken (fun _ _ h => h) hheld) fun _ =>
        .check hheld fun hentered => .bind (K := env.JournalAt (env.HeldIn R .prepared)) ?_
          fun _ => (leads_stagePrepared happart hR zip layout).weaken (fun _ _ h => h) hback
      refine .when (fun hdownloaded => ?_) fun hprepared s d h => ?_
      · refine leads_writeTransition hexact fun r' hr' hallowed => ?_
        obtain rfl := Option.some.inj hr'
        have hnext := hR _ _ (.follow hallowed hidentity hdownloaded (by decide) rfl
          fun h => by cases h) hr
        exact ⟨hnext, hnext, _, rfl, rfl, hidentity⟩
      · exact h.mono fun o ho => ho ▸ ⟨hr, r, rfl, hentered.resolve_left hprepared, hidentity⟩

end Stage

/-! ## Arming and health -/

/-- The journal paths are not the backend's. -/
theorem within_offJournals {owned : Path → Prop} (howned : ∀ slot, ¬owned (env.journalPath slot))
    {v w : Volume} (h : AgreeOff owned v w) : Within env.offJournals v w := by
  intro p
  by_cases hp : ∃ slot, p = env.journalPath slot
  · obtain ⟨slot, rfl⟩ := hp
    exact Or.inl (h _ (howned slot))
  · have hoff : ∀ slot, p ≠ env.journalPath slot := fun slot hslot => hp ⟨slot, hslot⟩
    exact Or.inr ⟨fun _ => hoff, fun _ => hoff, fun _ => hoff⟩

theorem respects_backend_offJournals {owned : Path → Prop}
    (howned : ∀ slot, ¬owned (env.journalPath slot))
    {call : CandidateContext → FsProc Unit Unit}
    (hcall : Preserves (AgreeOff owned) (call env.candidate)) :
    Respects SameJournal (Within env.offJournals) (env.callBackend call) := by
  refine env.respects_callBackend fun allow s d => ?_
  exact wp_mono (hcall allow s d) (fun _ _ _ => within_offJournals howned)
    (fun _ _ _ => within_offJournals howned) fun _ => within_offJournals howned

/-- The begin of a call that asks for a journal. -/
theorem leads_beginCall {workspace : Option InstallerWorkspace} {requirePrepared : Bool}
    {α : Type} {K : EngineState → Volume → Prop} {k : JournalRecord → EngineProc α}
    (hk : ∀ r, R (some r) → Leads (env.JournalHeld R) (env.JournalAt (· = some r)) K (k r)) :
    Leads (env.JournalHeld R) (fun _ => env.JournalHeld R) K (do
      env.beginCall workspace requirePrepared
      env.loadJournal false
      let record ← currentRecord
      k record) :=
  .bind (leads_before (env.respects_beginCall (S := AnyState) _ _).preserves) fun _ =>
    .bind (leads_loadJournal false) fun _ => leads_currentRecord (fun _ ho => ho) hk

/-- A write after a record of the request's transaction, the last of a call. -/
theorem leads_lastWrite {c : Call} (hR : ∀ a b, env.JournalStep c a b → R a → R b)
    {r next : JournalRecord} {state : JournalState} (hr : R (some r))
    (hidentity : env.identityMatches r = true) (hstate : r.state = state) (hstart : state ≠ .idle)
    (hadvances : c.advances state next.state = true)
    (hcomplete : next.state = .committed → next.completedSteps = next.totalSteps)
    (success : InstallerSuccess) :
    Leads (env.JournalHeld R) (env.JournalAt (· = some r)) (fun _ => env.JournalHeld R) (do
      env.writeTransition next
      return success) := by
  refine .bind (K := env.JournalAt R) ?_ fun _ =>
    (Leads.pure _).weaken (fun _ _ h => h) fun _ _ h => h.held
  refine leads_writeTransition (fun o ho => ho ▸ hr) fun r' hr' hallowed => and_self_iff.mpr ?_
  obtain rfl := Option.some.inj hr'
  exact hR _ _ (.follow hallowed hidentity hstate hstart hadvances hcomplete) hr

section Backend

variable {owned : Path → Prop} (happart : env.Apart) (hbackend : env.BackendOwns owned)
  (howned : ∀ slot, ¬owned (env.journalPath slot))

include hbackend howned in
theorem leads_arm (hR : ∀ a b, env.JournalStep .armCandidate a b → R a → R b) :
    Leads (env.JournalHeld R) (fun _ => env.JournalHeld R) (fun _ => env.JournalHeld R)
      env.arm := by
  refine leads_beginCall fun r hr => ?_
  have hexact : ∀ o, o = some r → R o := fun o ho => ho ▸ hr
  have hheld : ∀ (s : EngineState) d, env.JournalAt (· = some r) s d → env.JournalHeld R d :=
    fun _ _ h => (h.mono hexact).held
  refine .check hheld fun hidentity => .ite (fun _ => ?_) fun _ => ?_
  · exact (Leads.pure _).weaken (fun _ _ h => h) hheld
  refine .check hheld fun hstaged =>
    .bind (leads_of_respects hexact (env.respects_loadContentPlan _)) fun _ =>
    .check hheld fun _ => .check hheld fun _ =>
    .bind (leads_of_respects hexact
      (.orElse _ (respects_backend_offJournals howned hbackend.arm))) fun _ => ?_
  exact leads_lastWrite hR hr hidentity hstaged (by decide) rfl (fun h => by cases h) _

theorem leads_healthy (hR : ∀ a b, env.JournalStep .markCandidateHealthy a b → R a → R b) :
    Leads (env.JournalHeld R) (fun _ => env.JournalHeld R) (fun _ => env.JournalHeld R)
      env.healthy := by
  refine leads_beginCall fun r hr => ?_
  have hheld : ∀ (s : EngineState) d, env.JournalAt (· = some r) s d → env.JournalHeld R d :=
    fun _ _ h => (h.mono fun o ho => ho ▸ hr).held
  refine .check hheld fun hidentity => .ite (fun _ => ?_) fun _ => ?_
  · exact (Leads.pure _).weaken (fun _ _ h => h) hheld
  refine .check hheld fun hpending => .check hheld fun _ => .check hheld fun _ => ?_
  exact leads_lastWrite hR hr hidentity hpending (by decide) rfl (fun h => by cases h) _

/-! ## Commit -/

/-- A COMMITTING record of the request's transaction, one of those `R` holds of. -/
def Committing (env : Env) (R : Option JournalRecord → Prop) (layout : StepLayout)
    (o : Option JournalRecord) : Prop :=
  R o ∧ ∃ r, o = some r ∧ r.state = .committing ∧ env.identityMatches r = true ∧
    r.totalSteps = layout.total

section Commit

variable {layout : StepLayout} (hR : ∀ a b, env.JournalStep .commit a b → R a → R b)
include hR

/-- A journal write of a step of Commit. -/
theorem leads_writeStep {r next : JournalRecord} (hr : env.Committing R layout (some r))
    (hstate : next.state = r.state) (htotal : next.totalSteps = r.totalSteps)
    (hidentity : env.identityMatches next = env.identityMatches r) :
    Leads (env.JournalHeld R) (env.JournalAt (· = some r))
      (env.JournalAt (env.Committing R layout)) (env.writeTransition next) := by
  obtain ⟨hr, r', hsome, hcommitting, hmatches, hlayout⟩ := hr
  obtain rfl := Option.some.inj hsome
  rw [hcommitting] at hstate
  refine leads_writeTransition (fun o ho => ho ▸ hr) fun r' hr' hallowed => ?_
  obtain rfl := Option.some.inj hr'
  have hnext : R (some next) := by
    refine hR _ _ (.follow hallowed hmatches hcommitting (by decide) (by rw [hstate]; rfl) ?_) hr
    · intro hcommitted
      rw [hstate] at hcommitted
      cases hcommitted
  exact ⟨hnext, hnext, next, rfl, hstate, hidentity.trans hmatches, htotal.trans hlayout⟩

theorem leads_commitStep {step : Nat} {action : EngineProc Unit}
    (haction : Respects SameJournal (Within env.offJournals) action) :
    Leads (env.JournalHeld R) (env.JournalAt (env.Committing R layout))
      (env.JournalAt (env.Committing R layout)) (env.commitStep step action) := by
  have hPR : ∀ o, env.Committing R layout o → R o := fun _ ho => ho.1
  refine leads_currentRecord hPR fun r hr => ?_
  have hexact : ∀ o, o = some r → env.Committing R layout o := fun o ho => ho ▸ hr
  refine .weaken (J := env.JournalAt (env.Committing R layout)) ?_ (fun _ _ h => h.mono hexact)
    fun _ _ h => h
  refine .check (fun _ _ h => (h.mono hPR).held) fun _ => .ite (fun _ => ?_) fun _ => .pure ()
  refine .bind (leads_of_respects hPR haction) fun _ => leads_currentRecord hPR fun r hr => ?_
  exact .bind (leads_writeStep hR hr rfl rfl rfl) fun _ =>
    leads_of_respects hPR (.orElse _ respects_progress)

theorem leads_commitFiles {policy : ManifestFilePolicy}
    {action : Nat → ManifestFile → EngineProc Unit}
    (haction : ∀ (index : Nat) (file : ManifestFile), env.asset.files[index]? = some file →
      Respects SameJournal (Within env.offJournals) (action index file))
    {index : Nat} {files : List ManifestFile} (h : env.FilesFrom index files) (step : Nat) :
    Leads (env.JournalHeld R) (env.JournalAt (env.Committing R layout))
      (env.JournalAt (env.Committing R layout))
      (env.commitFiles policy action index files step) := by
  induction files generalizing index step with
  | nil => exact .pure ()
  | cons file rest ih =>
      unfold commitFiles
      refine .ite (fun _ => ?_) fun _ => ih h.tail _
      exact .bind (leads_commitStep hR (haction _ _ h.head)) fun _ => ih h.tail _

include hbackend howned in
theorem leads_commitSelector :
    Leads (env.JournalHeld R) (env.JournalAt (env.Committing R layout))
      (env.JournalAt (env.Committing R layout)) (env.commitSelector layout) := by
  have hPR : ∀ o, env.Committing R layout o → R o := fun _ ho => ho.1
  refine leads_currentRecord hPR fun r hr => ?_
  have hexact : ∀ o, o = some r → R o := fun o ho => ho ▸ hr.1
  refine .ite (fun _ => .check (fun _ _ h => (h.mono hexact).held) fun _ => ?_) fun _ => ?_
  · exact .bind (leads_of_respects hexact
        (.orElse _ (respects_backend_offJournals howned hbackend.commit))) fun _ =>
      .bind (leads_writeStep hR hr rfl rfl rfl) fun _ =>
      leads_of_respects hPR (.orElse _ respects_progress)
  · exact (leads_of_respects hexact (.check _ _)).weaken (fun _ _ h => h)
      fun _ _ h => h.mono fun o ho => ho ▸ hr

/-- COMMITTED is written with all steps done. -/
theorem leads_commitSteps (happart : env.Apart) (hbackend : env.BackendOwns owned)
    (howned : ∀ slot, ¬owned (env.journalPath slot)) :
    Leads (env.JournalHeld R) (env.JournalAt (env.Committing R layout))
      (fun _ => env.JournalHeld R) (env.commitSteps layout) := by
  have := happart.covers
  refine .bind (leads_commitFiles hR (fun _ _ h => env.respects_activateFile h)
      filesFrom_zero _) fun _ =>
    .bind (leads_commitFiles hR (fun _ _ h => env.respects_commitMetadata h)
      filesFrom_zero _) fun _ =>
    .bind (leads_commitSelector hbackend howned hR) fun _ =>
    leads_currentRecord (fun _ ho => ho.1) fun r hr => ?_
  obtain ⟨hr, r', hsome, hcommitting, hmatches, hlayout⟩ := hr
  obtain rfl := Option.some.inj hsome
  refine .check (fun _ _ h => (h.mono fun o ho => ho ▸ hr).held) fun hsteps => ?_
  refine leads_lastWrite hR hr hmatches hcommitting (by decide) rfl ?_ _
  intro _
  exact hsteps.trans hlayout.symm

theorem leads_commit (happart : env.Apart) (hbackend : env.BackendOwns owned)
    (howned : ∀ slot, ¬owned (env.journalPath slot)) :
    Leads (env.JournalHeld R) (fun _ => env.JournalHeld R) (fun _ => env.JournalHeld R)
      env.commit := by
  refine leads_beginCall fun r hr => ?_
  have hexact : ∀ o, o = some r → R o := fun o ho => ho ▸ hr
  have hheld : ∀ (s : EngineState) d, env.JournalAt (· = some r) s d → env.JournalHeld R d :=
    fun _ _ h => (h.mono hexact).held
  refine .check hheld fun hidentity => .ite (fun _ => ?_) fun _ => ?_
  · exact (Leads.pure _).weaken (fun _ _ h => h) hheld
  refine .check hheld fun hentered =>
    .bind (leads_of_respects hexact (env.respects_loadContentPlan _)) fun _ =>
    .check hheld fun _ => ?_
  cases buildStepLayout env.asset with
  | none => exact .throw _ hheld
  | some layout =>
      refine .check hheld fun htotal => .bind (K := env.JournalAt (env.Committing R layout)) ?_
        fun _ => leads_commitSteps hR happart hbackend howned
      refine .when (fun hhealthy => ?_) fun hcommitting s d h => ?_
      · refine .bind (leads_of_respects hexact env.respects_verifyCandidateFiles) fun _ =>
          leads_writeTransition hexact fun r' hr' hallowed => ?_
        obtain rfl := Option.some.inj hr'
        have hnext := hR _ _ (.follow hallowed hidentity hhealthy (by decide) rfl
          fun h => by cases h) hr
        exact ⟨hnext, hnext, _, rfl, rfl, hidentity, htotal⟩
      · exact h.mono fun o ho =>
          ho ▸ ⟨hr, r, rfl, hentered.resolve_left hcommitting, hidentity, htotal⟩

end Commit

/-! ## Rollback -/

section Rollback

variable (hR : ∀ a b, env.JournalStep .rollback a b → R a → R b)
include hR

/-- The write that ends a transaction. -/
theorem leads_writeIdle {state : JournalState} (hstart : state ≠ .idle)
    (hadvances : Call.advances .rollback state .idle = true) :
    Leads (env.JournalHeld R) (env.JournalAt (env.HeldIn R state))
      (fun _ => env.JournalHeld R) env.writeIdle := by
  refine leads_currentRecord (fun _ ho => ho.1) fun r hr => ?_
  obtain ⟨hr, r', hsome, rfl, hidentity⟩ := hr
  obtain rfl := Option.some.inj hsome
  exact leads_lastWrite hR hr hidentity rfl hstart hadvances (fun h => by cases h) _

/-- The write that enters ROLLING BACK. -/
theorem leads_writeRolling {r : JournalRecord} (hr : R (some r))
    (hidentity : env.identityMatches r = true) (hstart : r.state ≠ .idle)
    (hadvances : Call.advances .rollback r.state .rollingBack = true) :
    Leads (env.JournalHeld R) (env.JournalAt (· = some r))
      (env.JournalAt (env.HeldIn R .rollingBack)) (env.writeTransition (rollingRecord r)) := by
  refine leads_writeTransition (fun o ho => ho ▸ hr) fun r' hr' hallowed => ?_
  obtain rfl := Option.some.inj hr'
  have hnext := hR _ _ (.follow hallowed hidentity rfl hstart hadvances fun h => by cases h) hr
  exact ⟨hnext, hnext, _, rfl, rfl, hidentity⟩

theorem leads_rollbackPlanned (happart : env.Apart) (hbackend : env.BackendOwns owned)
    (howned : ∀ slot, ¬owned (env.journalPath slot)) {r : JournalRecord} (hr : R (some r))
    (hidentity : env.identityMatches r = true) (hstart : r.state ≠ .idle)
    (hstate : r.state = .rollingBack ∨ Call.advances .rollback r.state .rollingBack = true)
    (layout : StepLayout) :
    Leads (env.JournalHeld R) (env.JournalAt (· = some r)) (fun _ => env.JournalHeld R)
      (env.rollbackPlanned r layout) := by
  have := happart.covers
  have hexact : ∀ o, o = some r → R o := fun o ho => ho ▸ hr
  refine .bind (leads_of_respects hexact (env.respects_loadContentPlan _)) fun _ =>
    .check (fun _ _ h => (h.mono hexact).held) fun _ =>
    .bind (K := env.JournalAt (env.HeldIn R .rollingBack)) ?_ fun _ => ?_
  · refine .when (fun hentered => ?_) fun hrolling s d h => ?_
    · exact leads_writeRolling hR hr hidentity hstart (hstate.resolve_left hentered)
    · exact h.mono fun o ho => ho ▸ ⟨hr, r, rfl, not_not.mp hrolling, hidentity⟩
  · refine .bind (leads_in (.when (.bind (.orElse _
        (respects_backend_offJournals howned hbackend.disarm)) fun _ =>
        .orElse _ respects_progress))) fun _ =>
      .bind (leads_in (.forIndexedDown fun _ _ h => .bind (env.respects_restoreFile layout
        (List.mem_of_getElem? h)) fun _ => .orElse _ respects_progress)) fun _ =>
      .bind (leads_in (env.respects_removeCreatedDirectories layout)) fun _ => ?_
    exact leads_writeIdle hR (by decide) rfl

theorem leads_rollback (happart : env.Apart) (hbackend : env.BackendOwns owned)
    (howned : ∀ slot, ¬owned (env.journalPath slot)) :
    Leads (env.JournalHeld R) (fun _ => env.JournalHeld R) (fun _ => env.JournalHeld R)
      env.rollback := by
  refine leads_beginCall fun r hr => ?_
  have hexact : ∀ o, o = some r → R o := fun o ho => ho ▸ hr
  have hheld : ∀ (s : EngineState) d, env.JournalAt (· = some r) s d → env.JournalHeld R d :=
    fun _ _ h => (h.mono hexact).held
  refine .ite (fun _ => (Leads.pure _).weaken (fun _ _ h => h) hheld) fun hidle =>
    .check hheld fun hidentity => .ite (fun hearly => ?_) fun hearly => ?_
  · have hadvances : Call.advances .rollback r.state .idle = true := by
      rcases hearly with h | h <;> rw [h] <;> rfl
    exact (leads_writeIdle hR hidle hadvances).weaken
      (fun _ _ h => h.mono fun o ho => ho ▸ ⟨hr, r, rfl, rfl, hidentity⟩) fun _ _ h => h
  have hstate : r.state = .rollingBack ∨
      Call.advances .rollback r.state .rollingBack = true := by
    cases hstate : r.state <;> simp_all [Call.advances]
  cases buildStepLayout env.asset with
  | none => exact .throw _ hheld
  | some layout =>
      intro s d h
      have hplanned := leads_rollbackPlanned hR happart hbackend howned hr hidentity hidle hstate
        layout
      refine keeps_bind (keeps_whenOr (fun hprepared => ?_) fun _ => ?_)
      · refine keeps_done (leads_of_respects hexact (.orElse _ env.respects_noContentPlan) s d h)
          fun unplanned s' d' h' => ?_
        refine keeps_ite (fun _ => ?_) fun _ => hplanned s' d' h'
        have hrolling := leads_writeRolling hR hr hidentity hidle (by rw [hprepared.1]; rfl)
        exact (hrolling.bind fun _ => leads_writeIdle hR (by decide) rfl) s' d' h'
      · exact hplanned s d h

end Rollback

end Backend

/-! ## Retirement -/

section Retirement

variable (hpaths : env.NonemptyPaths)
include hpaths

/-- A removal keeps the newest record until there is none. -/
theorem leads_removeTransactionArtifacts (hPR : ∀ o, P o → R o)
    (hnone : ∀ r, P (some r) → R none) (activeRequest : Bool) :
    Leads (env.JournalHeld R) (env.JournalAt P) (fun _ => env.JournalHeld R)
      (env.removeTransactionArtifacts activeRequest) := by
  intro s d h
  obtain ⟨hpair, hP⟩ := h
  have hkeeps : ∀ slot, (∀ r slot', s.journal = some (r, slot') → slot' = slot) →
      keeps anyFault (env.Retiring activeRequest slot d) anyError
        (env.removeTransactionArtifacts activeRequest)
        (fun _ s' d' => Fine anyFault s' ∧ env.Retiring activeRequest slot d d' ∧
          env.Retired activeRequest d d') s d :=
    fun slot hslot => keeps_removeTransactionArtifacts hpaths (fun _ => mayFail_anyFault)
      ⟨FrameRel.refl d, Or.inl fun _ => rfl⟩ hpair hslot fun _ _ => trivial
  cases hjournal : s.journal with
  | none =>
      rw [hjournal] at hpair hP
      have hheld : ∀ d', env.Retiring activeRequest .a d d' → env.JournalHeld R d' :=
        fun d' hd' => ⟨none, fun slot => hd'.retires.eq_none (hpair slot), hPR _ hP⟩
      refine keeps_mono (hkeeps .a fun r slot' hsome => ?_) hheld (fun _ h => h)
        fun _ _ d' h => hheld d' h.2.1
      rw [hjournal] at hsome
      cases hsome
  | some current =>
      obtain ⟨r, slot⟩ := current
      rw [hjournal] at hpair hP
      have hheld : ∀ d', env.Retiring activeRequest slot d d' → env.JournalHeld R d' := by
        intro d' hd'
        rcases hd'.pair hpair with hkept | ⟨hgone, -⟩
        · exact ⟨_, hkept, hPR _ hP⟩
        · exact ⟨_, hgone, hnone r hP⟩
      refine keeps_mono (hkeeps slot fun r' slot' hsome => ?_) hheld (fun _ h => h)
        fun _ _ d' h => hheld d' h.2.1
      rw [hjournal] at hsome
      cases hsome
      rfl

theorem leads_retireRolledBack
    (hR : ∀ a b, env.JournalStep .retireRolledBack a b → R a → R b) :
    Leads (env.JournalHeld R) (fun _ => env.JournalHeld R) (fun _ => env.JournalHeld R)
      env.retireRolledBack := by
  refine .bind (leads_before (env.respects_beginCall (S := AnyState) _ _).preserves) fun _ =>
    .bind (leads_loadJournal true) fun _ s d h => keeps_bind (keeps_get ?_)
  refine keeps_bind (keeps_check (fun _ => ⟨h.held, trivial⟩) fun hidle => ?_)
  have hat : env.JournalAt (fun o => R o ∧ ∀ r, o = some r → r.state = .idle) s d := by
    refine ⟨h.1, h.2, fun r hr => ?_⟩
    obtain ⟨current, hcurrent, rfl⟩ := Option.map_eq_some_iff.mp hr
    exact hidle current hcurrent
  have hremove := leads_removeTransactionArtifacts hpaths (fun _ ho => ho.1)
    (fun r ho => hR _ _ (.retireRolledBack (ho.2 r rfl)) ho.1) true s d hat
  exact keeps_bind (keeps_done hremove fun _ s' d' h' => keeps_pure h')

theorem leads_retireCommitted (hR : ∀ a b, env.JournalStep .retireCommitted a b → R a → R b) :
    Leads (env.JournalHeld R) (fun _ => env.JournalHeld R) (fun _ => env.JournalHeld R)
      env.retireCommitted := by
  refine .bind (leads_before (env.respects_beginCall (S := AnyState) _ _).preserves) fun _ s d h =>
    ?_
  have hheld := h
  obtain ⟨cur, hpair, hcur⟩ := h
  have hremoved : ∀ {s' : EngineState} (success : InstallerSuccess) {P : Option JournalRecord → Prop},
      env.JournalAt P s' d → (∀ o, P o → R o) → (∀ r, P (some r) → R none) →
      keeps anyFault (env.JournalHeld R) anyError (do
        env.removeTransactionArtifacts false
        return success) (fun _ _ => env.JournalHeld R) s' d :=
    fun success P hat hPR hnone => keeps_bind (keeps_done
      (leads_removeTransactionArtifacts hpaths hPR hnone false _ d hat)
      fun _ s' d' h' => keeps_pure h')
  refine wp_bind (wp_attempt (wp_mono
    (wp_loadJournal_required (fun _ => mayFail_anyFault) hpair) ?_ ?_ ?_))
  · intro _ s' d' hloaded
    obtain ⟨rfl, hpresent, rfl⟩ := hloaded
    obtain ⟨⟨r, slot⟩, rfl⟩ := Option.ne_none_iff_exists'.mp hpresent
    refine keeps_bind (keeps_bind (keeps_get (keeps_pure ?_)))
    refine keeps_bind (keeps_check (fun _ => ⟨hheld, trivial⟩) fun hcommitted => ?_)
    refine keeps_bind (keeps_check (fun _ => ⟨hheld, trivial⟩) fun hidentity => ?_)
    refine hremoved (P := (· = some r)) .ok ⟨hpair, rfl⟩ (fun o ho => ho ▸ hcur) fun r' hr' => ?_
    obtain rfl := Option.some.inj hr'
    exact hR _ _ (.retireCommitted hcommitted hidentity) hcur
  · intro e s' d' hfailed
    obtain ⟨rfl, ⟨rfl, rfl, rfl⟩ | ⟨hother, hfail⟩⟩ := hfailed
    · refine keeps_bind (keeps_get ?_)
      rw [if_pos ⟨rfl, rfl⟩]
      refine hremoved (P := (· = none)) .alreadyRetired ⟨hpair, rfl⟩ (fun o ho => ho ▸ hcur)
        fun r hr => ?_
      cases hr
    · refine keeps_bind (keeps_get ?_)
      rw [if_neg fun h => hother h.1]
      exact keeps_throw hheld trivial
  · intro d' hcut
    obtain ⟨rfl, hcut⟩ := hcut
    exact ⟨hheld, hcut⟩

end Retirement

/-! ## Calls and runs -/

section Run

variable {owned : Path → Prop} (happart : env.Apart) (hbackend : env.BackendOwns owned)
  (howned : ∀ slot, ¬owned (env.journalPath slot))
include happart hbackend howned

/-- However a call ends, the journal has taken steps of that call. -/
theorem leads_call (c : Call) (hR : ∀ a b, env.JournalStep c a b → R a → R b) :
    Leads (env.JournalHeld R) (fun _ => env.JournalHeld R) (fun _ => env.JournalHeld R)
      (env.call c) := by
  cases c with
  | stage => exact leads_stage happart hR
  | armCandidate => exact leads_arm hbackend howned hR
  | markCandidateHealthy => exact leads_healthy hR
  | commit => exact leads_commit hR happart hbackend howned
  | rollback => exact leads_rollback hR happart hbackend howned
  | retireRolledBack => exact leads_retireRolledBack happart.nonempty hR
  | retireCommitted => exact leads_retireCommitted happart.nonempty hR

/-- A run under any faults takes the one record a load finds through steps of its
calls, so the two files that are written in turn stand for one record that is
written whole. -/
theorem journal_refines {calls : Call → Prop} {v w : Volume}
    {cur : Option (JournalRecord × JournalSlot)} (hpair : env.JournalPair v cur)
    (hrun : env.Runs calls anyFault v w) :
    ∃ cur', env.JournalPair w cur' ∧
      Relation.ReflTransGen (fun a b => ∃ c, calls c ∧ env.JournalStep c a b)
        (cur.map Prod.fst) (cur'.map Prod.fst) := by
  refine hrun.invariant (I := env.JournalHeld (Relation.ReflTransGen
    (fun a b => ∃ c, calls c ∧ env.JournalStep c a b) (cur.map Prod.fst))) ?_ ⟨cur, hpair, .refl⟩
  intro c hcall d hd
  refine wp_mono (leads_call happart hbackend howned c ?_ _ d hd) (fun _ _ _ h => h)
    (fun _ _ _ h => h.1) fun _ h => h.1
  exact fun a b hstep hreached => hreached.tail ⟨c, hcall, hstep⟩

/-- What every record of a transaction that began without a journal is like. -/
def Sound (env : Env) (o : Option JournalRecord) : Prop :=
  ∀ r, o = some r → RecordIsValid r ∧ (r.state ≠ .idle → env.identityMatches r = true) ∧
    (r.state = .committed → r.completedSteps = r.totalSteps)

omit happart hbackend howned in
theorem Sound.step {c : Call} {a b : Option JournalRecord} (h : env.Sound a)
    (hstep : env.JournalStep c a b) : env.Sound b := by
  intro r hr
  cases hstep with
  | begin =>
      obtain rfl := Option.some.inj hr
      refine ⟨by decide, fun hidle => absurd rfl hidle, fun hcommitted => ?_⟩
      cases hcommitted
  | write hallowed hadvances hfirst hidentity hnext hcomplete =>
      obtain rfl := Option.some.inj hr
      have hlaw := validateJournalTransition_eq_allowed_iff.mp hallowed
      exact ⟨hlaw.next_valid, hnext, hcomplete⟩
  | retireRolledBack hidle => cases hr
  | retireCommitted hcommitted hidentity => cases hr

omit happart hbackend howned in
theorem sound_of_steps {calls : Call → Prop} {a b : Option JournalRecord} (h : env.Sound a)
    (hsteps : Relation.ReflTransGen (fun a b => ∃ c, calls c ∧ env.JournalStep c a b) a b) :
    env.Sound b := by
  induction hsteps with
  | refl => exact h
  | tail _ hlast ih =>
      obtain ⟨c, -, hstep⟩ := hlast
      exact ih.step hstep

omit happart hbackend howned in
/-- Only Commit writes a COMMITTED record. -/
theorem commit_of_steps {calls : Call → Prop} {a b : Option JournalRecord}
    (ha : ∀ r, a = some r → r.state ≠ .committed)
    (hsteps : Relation.ReflTransGen (fun a b => ∃ c, calls c ∧ env.JournalStep c a b) a b)
    {r : JournalRecord} (hb : b = some r) (hcommitted : r.state = .committed) : calls .commit := by
  induction hsteps generalizing r with
  | refl => exact absurd hcommitted (ha r hb)
  | tail _ hlast ih =>
      obtain ⟨c, hcall, hstep⟩ := hlast
      cases hstep with
      | begin =>
          obtain rfl := Option.some.inj hb
          cases hcommitted
      | @write _ before next hallowed hadvances hfirst hidentity hnext hcomplete =>
          obtain rfl := Option.some.inj hb
          rw [hcommitted] at hadvances
          have hcommit : c = .commit := by
            cases c <;> cases hbefore : before.state <;> rw [hbefore] at hadvances <;>
              first | rfl | cases hadvances
          exact hcommit ▸ hcall
      | retireRolledBack hidle => cases hb
      | retireCommitted hcommitted hidentity => cases hb

omit happart hbackend howned in
/-- Only a rollback and a retirement take a COMMITTED record away. -/
theorem committed_stays {calls : Call → Prop} (hrollback : ¬calls .rollback)
    (hretire : ¬calls .retireCommitted) {r : JournalRecord} (hcommitted : r.state = .committed)
    {b : Option JournalRecord}
    (hsteps : Relation.ReflTransGen (fun a b => ∃ c, calls c ∧ env.JournalStep c a b)
      (some r) b) : b = some r := by
  induction hsteps with
  | refl => rfl
  | tail _ hlast ih =>
      obtain ⟨c, hcall, hstep⟩ := hlast
      subst ih
      cases hstep with
      | write hallowed hadvances hfirst hidentity hnext hcomplete =>
          rw [hcommitted] at hadvances
          cases c <;> first | exact absurd hcall hrollback | cases hadvances
      | retireRolledBack hidle =>
          rw [hcommitted] at hidle
          cases hidle
      | retireCommitted _ hidentity => exact absurd hcall hretire

/-- A transaction that began without a journal.  Where its newest record is
COMMITTED, Commit wrote it, for this request and with all steps done, and as long as
no rollback and no retirement is called it is the newest, whatever else is. -/
theorem commit_law {calls : Call → Prop} {v w : Volume} (hnone : env.JournalPair v none)
    (hrun : env.Runs calls anyFault v w) {r : JournalRecord} {slot : JournalSlot}
    (hpair : env.JournalPair w (some (r, slot))) (hcommitted : r.state = .committed) :
    calls .commit ∧ env.identityMatches r = true ∧ r.completedSteps = r.totalSteps ∧
      r.flags.Has (requiredFlagsForState .committed) ∧
      ∀ w', env.Runs (fun c => c ≠ .rollback ∧ c ≠ .retireCommitted) anyFault w w' →
        ∃ slot', env.JournalPair w' (some (r, slot')) := by
  obtain ⟨cur, hcur, hsteps⟩ := journal_refines happart hbackend howned hnone hrun
  obtain rfl := hcur.unique hpair
  have hbegan : env.Sound none := fun r hr => by cases hr
  obtain ⟨hvalid, hidentity, hcomplete⟩ := sound_of_steps hbegan hsteps r rfl
  have hcommit := commit_of_steps (fun r hr => by cases hr) hsteps rfl hcommitted
  refine ⟨hcommit, hidentity (by simp [hcommitted]), hcomplete hcommitted, ?_, ?_⟩
  · have htransaction := hvalid.2
    rw [if_neg (by simp [hcommitted])] at htransaction
    obtain ⟨-, -, -, -, -, -, -, -, -, -, -, hflags, -⟩ := htransaction
    rwa [hcommitted] at hflags
  · intro w' hrun'
    obtain ⟨cur', hcur', hsteps'⟩ := journal_refines happart hbackend howned hpair hrun'
    have hstays := committed_stays (fun h => h.1 rfl) (fun h => h.2 rfl) hcommitted hsteps'
    obtain ⟨⟨r', slot'⟩, rfl, hr'⟩ := Option.map_eq_some_iff.mp hstays
    obtain rfl : r' = r := hr'
    exact ⟨slot', hcur'⟩

end Run

end Env

/-! ## A committed installation -/

/-- The calls of an installation, the first Commit of which is cut. -/
def managedCalls : List (Call × List Fault) :=
  [(.stage, []), (.armCandidate, []), (.markCandidateHealthy, []),
    (.commit, List.replicate 25 .ok ++ [.cut 1]), (.commit, [])]

def managedCommitted : Volume := managedEnv.runCalls managedVolume managedCalls

theorem managedVolume_unjournalled : managedEnv.JournalPair managedVolume none := by
  intro slot
  cases slot <;> decide

theorem journal_refines_managed :
    ∃ cur, managedEnv.JournalPair managedCommitted cur ∧
      Relation.ReflTransGen (fun a b => ∃ c, True ∧ managedEnv.JournalStep c a b) none
        (cur.map Prod.fst) :=
  have hrun : managedEnv.Runs (fun _ => True) anyFault managedVolume managedCommitted :=
    Env.runs_runCalls .refl (by simp [anyFault])
  Env.journal_refines managedEnv_apart managedEnv_backendOwns (fun _ h => h)
    managedVolume_unjournalled hrun

end BmxUpdate
