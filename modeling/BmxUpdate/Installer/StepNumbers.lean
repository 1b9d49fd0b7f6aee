import BmxUpdate.Installer.Rollback
import BmxUpdate.Installer.Run

/-!
# The numbers of the steps

Three places number the steps of an installation: `BuildStepLayout` from totals,
the loops of `Stage` and `Commit` with running counters, and the rollback by
counting the files before an index again.  `Step` names every step once, with its
number (`Step.number`).

* The numbers below the total are the numbers of exactly one step each
  (`exists_unique_step`), in contiguous ranges.
* A loop that changes live paths does so where the journal stands at the number of
  the file's step: to check that before each change makes no difference
  (`activateFiles_eq`, `commitFiles_eq`).
* The rollback counts the same numbers (`stepNumbering`).
-/

namespace BmxUpdate

open Crash Volumes Wire

/-! ## Ranks

The rank of an element of a list is how many of those before it are marked. -/

section Rank

variable {α : Type} (p : α → Bool)

def Marked (xs : List α) (i : Nat) : Prop := ∃ a, xs[i]? = some a ∧ p a = true

def rank (xs : List α) (i : Nat) : Nat := (xs.take i).countP p

variable {p}

theorem rank_lt {xs : List α} {i : Nat} (h : Marked p xs i) : rank p xs i < xs.countP p := by
  obtain ⟨a, ha, hp⟩ := h
  obtain ⟨hi, rfl⟩ := List.getElem?_eq_some_iff.mp ha
  have hsplit : xs.countP p = rank p xs i + (xs.drop i).countP p := by
    rw [rank, ← List.countP_append, List.take_append_drop]
  rw [hsplit, List.drop_eq_getElem_cons hi, List.countP_cons_of_pos hp]
  omega

/-- A marked element is the only one of its rank. -/
theorem rank_injective {xs : List α} {i j : Nat} (hi : Marked p xs i) (hj : Marked p xs j)
    (h : rank p xs i = rank p xs j) : i = j := by
  have hlt : ∀ {i j : Nat}, Marked p xs i → i < j → rank p xs i < rank p xs j := by
    intro i j hi hij
    have hmarked : Marked p (xs.take j) i := by
      obtain ⟨a, ha, hp⟩ := hi
      exact ⟨a, by rw [List.getElem?_take_of_lt hij, ha], hp⟩
    have hrank := rank_lt hmarked
    rwa [rank, List.take_take, Nat.min_eq_left hij.le] at hrank
  rcases Nat.lt_trichotomy i j with hij | hij | hij
  · exact absurd h (hlt hi hij).ne
  · exact hij
  · exact absurd h (hlt hj hij).ne'

/-- Every rank below the number of marked elements is taken. -/
theorem exists_rank {xs : List α} {n : Nat} (h : n < xs.countP p) :
    ∃ i, Marked p xs i ∧ rank p xs i = n := by
  induction xs generalizing n with
  | nil => simp at h
  | cons a xs ih =>
      cases hp : p a with
      | false =>
          rw [List.countP_cons_of_neg (by simp [hp])] at h
          obtain ⟨i, ⟨b, hb, hpb⟩, hrank⟩ := ih h
          refine ⟨i + 1, ⟨b, by simpa using hb, hpb⟩, ?_⟩
          rw [← hrank, rank, List.take_succ_cons, List.countP_cons_of_neg (by simp [hp]), rank]
      | true =>
          cases n with
          | zero => exact ⟨0, ⟨a, rfl, hp⟩, rfl⟩
          | succ n =>
              rw [List.countP_cons_of_pos hp] at h
              obtain ⟨i, ⟨b, hb, hpb⟩, hrank⟩ := ih (n := n) (by omega)
              refine ⟨i + 1, ⟨b, by simpa using hb, hpb⟩, ?_⟩
              rw [← hrank, rank, List.take_succ_cons, List.countP_cons_of_pos hp, rank]

end Rank

/-! ## Steps -/

/-- A step of an installation; an index is that of a file or directory of the asset. -/
inductive Step where
  | snapshot (index : Nat)
  | stageFile (index : Nat)
  | activateDirectory (index : Nat)
  | activateFile (index : Nat)
  | arm
  | health
  | commitKernel (index : Nat)
  | commitMetadata (index : Nat)
  | commitSelector
deriving DecidableEq, Repr

namespace Step

/-- The file at an index has a policy that `p` holds of. -/
abbrev HasPolicy (asset : ManifestAsset) (p : ManifestFilePolicy → Bool) (index : Nat) : Prop :=
  Marked (fun file : ManifestFile => p file.policy) asset.files index

/-- The installation of this asset has the step. -/
def Of (asset : ManifestAsset) : Step → Prop
  | snapshot index => HasPolicy asset (·.isSnapshot) index
  | stageFile index => index < asset.files.length
  | activateDirectory index => index < asset.directories.length
  | activateFile index => HasPolicy asset (·.isStageActivated) index
  | commitKernel index => HasPolicy asset (· = .kernel) index
  | commitMetadata index => HasPolicy asset (· = .metadata) index
  | arm | health | commitSelector => True

/-- The number of a step: `completed_steps` when it is the next one. -/
def number (asset : ManifestAsset) (layout : StepLayout) : Step → Nat
  | snapshot index => layout.snapshotBegin + countPolicy (·.isSnapshot) (asset.files.take index)
  | stageFile index => layout.fileStageBegin + index
  | activateDirectory index => layout.directoryActivateBegin + index
  | activateFile index =>
      layout.fileActivateBegin + countPolicy (·.isStageActivated) (asset.files.take index)
  | arm => layout.armStep
  | health => layout.healthStep
  | commitKernel index => layout.kernelBegin + countPolicy (· = .kernel) (asset.files.take index)
  | commitMetadata index =>
      layout.metadataBegin + countPolicy (· = .metadata) (asset.files.take index)
  | commitSelector => layout.selectorStep

/-- The kinds of steps, in the order they are made. -/
def ordinal : Step → Nat
  | snapshot _ => 0
  | stageFile _ => 1
  | activateDirectory _ => 2
  | activateFile _ => 3
  | arm => 4
  | health => 5
  | commitKernel _ => 6
  | commitMetadata _ => 7
  | commitSelector => 8

end Step

/-- Where the range of a kind of steps begins; the last kind ends at the total. -/
def StepLayout.bound (layout : StepLayout) : Nat → Nat
  | 0 => layout.snapshotBegin
  | 1 => layout.fileStageBegin
  | 2 => layout.directoryActivateBegin
  | 3 => layout.fileActivateBegin
  | 4 => layout.armStep
  | 5 => layout.healthStep
  | 6 => layout.kernelBegin
  | 7 => layout.metadataBegin
  | 8 => layout.selectorStep
  | _ => layout.total

section Ranges

variable {asset : ManifestAsset}

theorem bound_le_bound_succ (k : Nat) :
    (stepLayout asset).bound k ≤ (stepLayout asset).bound (k + 1) := by
  rcases k with _ | _ | _ | _ | _ | _ | _ | _ | _ | k <;>
    simp only [StepLayout.bound, stepLayout] <;> omega

theorem bound_monotone : Monotone (stepLayout asset).bound :=
  monotone_nat_of_le_succ bound_le_bound_succ

/-- The number of a step is in the range of its kind. -/
theorem Step.bound_le_number (step : Step) :
    (stepLayout asset).bound step.ordinal ≤ step.number asset (stepLayout asset) := by
  cases step <;> simp [StepLayout.bound, Step.ordinal, Step.number]

theorem Step.number_lt_bound {step : Step} (h : step.Of asset) :
    step.number asset (stepLayout asset) < (stepLayout asset).bound (step.ordinal + 1) := by
  cases step with
  | snapshot index | activateFile index | commitKernel index | commitMetadata index =>
      have hrank := rank_lt h
      simp only [StepLayout.bound, Step.ordinal, Step.number, stepLayout, countPolicy, rank] at *
      omega
  | stageFile index | activateDirectory index =>
      have hindex : index < _ := h
      simp only [StepLayout.bound, Step.ordinal, Step.number, stepLayout]
      omega
  | arm | health | commitSelector =>
      simp [StepLayout.bound, Step.ordinal, Step.number, stepLayout]

/-- A kind has all its numbers before those of the next. -/
theorem Step.number_lt_of_ordinal_lt {s t : Step} (hs : s.Of asset)
    (h : s.ordinal < t.ordinal) :
    s.number asset (stepLayout asset) < t.number asset (stepLayout asset) :=
  calc s.number asset (stepLayout asset)
      < (stepLayout asset).bound (s.ordinal + 1) := s.number_lt_bound hs
    _ ≤ (stepLayout asset).bound t.ordinal := bound_monotone h
    _ ≤ t.number asset (stepLayout asset) := t.bound_le_number

theorem Step.eq_of_number_eq {s t : Step} (hs : s.Of asset) (ht : t.Of asset)
    (hkind : s.ordinal = t.ordinal)
    (h : s.number asset (stepLayout asset) = t.number asset (stepLayout asset)) : s = t := by
  cases s <;> cases t <;> cases hkind
  case snapshot.snapshot.refl | activateFile.activateFile.refl |
      commitKernel.commitKernel.refl | commitMetadata.commitMetadata.refl =>
    exact congrArg _ (rank_injective hs ht (Nat.add_left_cancel h))
  case stageFile.stageFile.refl | activateDirectory.activateDirectory.refl =>
    exact congrArg _ (Nat.add_left_cancel h)
  case arm.arm.refl | health.health.refl | commitSelector.commitSelector.refl => rfl

theorem Step.number_injective {s t : Step} (hs : s.Of asset) (ht : t.Of asset)
    (h : s.number asset (stepLayout asset) = t.number asset (stepLayout asset)) : s = t := by
  rcases Nat.lt_trichotomy s.ordinal t.ordinal with hlt | hkind | hlt
  · exact absurd h (Step.number_lt_of_ordinal_lt hs hlt).ne
  · exact Step.eq_of_number_eq hs ht hkind h
  · exact absurd h (Step.number_lt_of_ordinal_lt ht hlt).ne'

theorem exists_step_of_bound {k m : Nat} (hk : k ≤ 8)
    (h : (stepLayout asset).bound k + m < (stepLayout asset).bound (k + 1)) :
    ∃ step : Step, step.Of asset ∧
      step.number asset (stepLayout asset) = (stepLayout asset).bound k + m := by
  have hranked : ∀ {p : ManifestFilePolicy → Bool}, m < countPolicy p asset.files →
      ∃ i, Step.HasPolicy asset p i ∧ countPolicy p (asset.files.take i) = m :=
    fun hm => exists_rank hm
  match k, hk with
  | 0, _ =>
      have hm : m < countPolicy (·.isSnapshot) asset.files := by
        simpa [StepLayout.bound, stepLayout] using h
      obtain ⟨i, hi, hrank⟩ := hranked hm
      exact ⟨.snapshot i, hi, congrArg _ hrank⟩
  | 1, _ => exact ⟨.stageFile m, Nat.lt_of_add_lt_add_left h, rfl⟩
  | 2, _ => exact ⟨.activateDirectory m, Nat.lt_of_add_lt_add_left h, rfl⟩
  | 3, _ =>
      obtain ⟨i, hi, hrank⟩ := hranked (p := (·.isStageActivated)) (Nat.lt_of_add_lt_add_left h)
      exact ⟨.activateFile i, hi, congrArg _ hrank⟩
  | 4, _ =>
      have hm : m < 1 := Nat.lt_of_add_lt_add_left h
      exact ⟨.arm, trivial, by simp [StepLayout.bound, Step.number, Nat.lt_one_iff.mp hm]⟩
  | 5, _ =>
      have hm : m < 1 := Nat.lt_of_add_lt_add_left h
      exact ⟨.health, trivial, by simp [StepLayout.bound, Step.number, Nat.lt_one_iff.mp hm]⟩
  | 6, _ =>
      obtain ⟨i, hi, hrank⟩ := hranked (p := (· = .kernel)) (Nat.lt_of_add_lt_add_left h)
      exact ⟨.commitKernel i, hi, congrArg _ hrank⟩
  | 7, _ =>
      obtain ⟨i, hi, hrank⟩ := hranked (p := (· = .metadata)) (Nat.lt_of_add_lt_add_left h)
      exact ⟨.commitMetadata i, hi, congrArg _ hrank⟩
  | 8, _ =>
      have hm : m < 1 := Nat.lt_of_add_lt_add_left h
      exact ⟨.commitSelector, trivial,
        by simp [StepLayout.bound, Step.number, Nat.lt_one_iff.mp hm]⟩

/-- The numbers below the total are those of the steps. -/
theorem exists_step {n : Nat} (h : n < (stepLayout asset).total) :
    ∃ step : Step, step.Of asset ∧ step.number asset (stepLayout asset) = n := by
  have hexists : ∃ k, n < (stepLayout asset).bound (k + 1) := ⟨8, h⟩
  have hlower : (stepLayout asset).bound (Nat.find hexists) ≤ n := by
    cases hk : Nat.find hexists with
    | zero => exact Nat.zero_le n
    | succ k => exact Nat.le_of_not_lt (Nat.find_min hexists (by omega))
  obtain ⟨m, hm⟩ := Nat.exists_eq_add_of_le hlower
  rw [hm]
  exact exists_step_of_bound (Nat.find_min' hexists h) (hm ▸ Nat.find_spec hexists)

theorem exists_unique_step {n : Nat} :
    n < (stepLayout asset).total ↔
      ∃! step : Step, step.Of asset ∧ step.number asset (stepLayout asset) = n := by
  constructor
  · intro h
    obtain ⟨step, hof, hnumber⟩ := exists_step h
    exact ⟨step, ⟨hof, hnumber⟩, fun other ⟨hother, heq⟩ =>
      Step.number_injective hother hof (heq.trans hnumber.symm)⟩
  · rintro ⟨step, ⟨hof, rfl⟩, -⟩
    refine lt_of_lt_of_le (step.number_lt_bound hof) ?_
    exact bound_monotone (b := 9) (by cases step <;> simp [Step.ordinal])

end Ranges

/-! ## The loops -/

namespace Env

variable (env : Env)

/-- Check that the journal stands at a step, then make it. -/
def expectStep (step : Nat) (failure : InstallerFailure) (action : EngineProc Unit) :
    EngineProc Unit := do
  let record ← currentRecord
  Proc.check (record.completedSteps = step) failure
  action

theorem currentRecord_bind {β : Type} (k : JournalRecord → EngineProc β) (s : EngineState)
    (w : World Volume) :
    (currentRecord >>= k) s w =
      match s.journal with
      | none => .error .wrongState s w
      | some (record, _) => k record s w := by
  show Proc.bind currentRecord k s w = _
  have hrecord : currentRecord s w =
      match s.journal with
      | none => .error .wrongState s w
      | some (record, _) => .done record s w := by
    unfold currentRecord
    simp only [bind, Proc.bind, Proc.get]
    cases s.journal <;> rfl
  unfold Proc.bind
  rw [hrecord]
  cases s.journal <;> rfl

/-- Where the journal stands at the step, the check makes no difference. -/
theorem expectStep_eq {step : Nat} (failure : InstallerFailure) (action : EngineProc Unit)
    {record : JournalRecord} {slot : JournalSlot} {s : EngineState} (w : World Volume)
    (hjournal : s.journal = some (record, slot)) (hstep : record.completedSteps = step) :
    expectStep step failure action s w = action s w := by
  unfold expectStep
  rw [currentRecord_bind, hjournal]
  show (Proc.check (record.completedSteps = step) failure >>= fun _ => action) s w = action s w
  rw [Proc.check_bind hstep]

/-- A step that runs where the journal stands at its number may check that it does. -/
theorem run_at_step (step : Nat) (failure : InstallerFailure) (action rest : EngineProc Unit) :
    (do
      let record ← currentRecord
      Proc.check (step ≤ record.completedSteps) .journalConflict
      if record.completedSteps = step then do
        action
        rest
      else return ()) =
    (do
      let record ← currentRecord
      Proc.check (step ≤ record.completedSteps) .journalConflict
      if record.completedSteps = step then do
        expectStep step failure action
        rest
      else return ()) := by
  funext s w
  rw [currentRecord_bind, currentRecord_bind]
  cases hjournal : s.journal with
  | none => rfl
  | some entry =>
      obtain ⟨record, slot⟩ := entry
      by_cases hstep : record.completedSteps = step
      · simp only [hstep, Nat.le_refl, Proc.check_bind, if_true]
        show Proc.bind action _ s w = Proc.bind _ _ s w
        unfold Proc.bind
        rw [expectStep_eq failure action w hjournal hstep]
      · simp only [hstep, if_false]

theorem journalledStep_eq (step : Nat) (failure : InstallerFailure) (action : EngineProc Unit) :
    env.journalledStep step action = env.journalledStep step (expectStep step failure action) :=
  run_at_step step failure action env.advancePrepared

theorem commitStep_eq (step : Nat) (failure : InstallerFailure) (action : EngineProc Unit) :
    env.commitStep step action = env.commitStep step (expectStep step failure action) :=
  run_at_step step failure action _

/-- A loop over the files that counts the ones it runs a step for. -/
def countedLoop (p : ManifestFilePolicy → Bool)
    (run : Nat → Nat → ManifestFile → EngineProc Unit) :
    Nat → List ManifestFile → Nat → EngineProc Unit
  | _, [], _ => return ()
  | index, file :: rest, step =>
      if p file.policy then do
        run step index file
        countedLoop p run (index + 1) rest (step + 1)
      else countedLoop p run (index + 1) rest step

/-- The running counter is the number of such files before the index. -/
theorem countedLoop_eq {p : ManifestFilePolicy → Bool}
    {run : Nat → Nat → ManifestFile → EngineProc Unit} {files front rest : List ManifestFile}
    (first : Nat) (hfiles : files = front ++ rest) :
    countedLoop p run front.length rest (first + countPolicy p front) =
      Proc.forIndexed (fun index file =>
        if p file.policy then run (first + countPolicy p (files.take index)) index file
        else return ()) front.length rest := by
  induction rest generalizing front with
  | nil => rfl
  | cons file rest ih =>
      have htake : files.take front.length = front := by rw [hfiles, List.take_left]
      have hnext := @ih (front ++ [file]) (by rw [hfiles, List.append_cons])
      rw [List.length_append, List.length_singleton] at hnext
      rw [countedLoop, Proc.forIndexed, htake]
      cases hp : p file.policy with
      | true =>
          have hcount : countPolicy p (front ++ [file]) = countPolicy p front + 1 := by
            simp [countPolicy, hp]
          rw [hcount, ← Nat.add_assoc] at hnext
          rw [if_pos rfl, if_pos rfl, hnext]
      | false =>
          have hcount : countPolicy p (front ++ [file]) = countPolicy p front := by
            simp [countPolicy, hp]
          rw [hcount] at hnext
          rw [if_neg Bool.false_ne_true, if_neg Bool.false_ne_true, hnext]
          rfl

theorem activateFiles_eq_countedLoop (index : Nat) (files : List ManifestFile) (step : Nat) :
    env.activateFiles index files step =
      countedLoop (·.isStageActivated)
        (fun step index file => env.journalledStep step (env.activateFile index file))
        index files step := by
  induction files generalizing index step with
  | nil => rfl
  | cons file rest ih => rw [activateFiles, countedLoop, ih, ih]

theorem commitFiles_eq_countedLoop (policy : ManifestFilePolicy)
    (action : Nat → ManifestFile → EngineProc Unit) (index : Nat) (files : List ManifestFile)
    (step : Nat) :
    env.commitFiles policy action index files step =
      countedLoop (· = policy)
        (fun step index file => env.commitStep step (action index file)) index files step := by
  induction files generalizing index step with
  | nil => rfl
  | cons file rest ih =>
      rw [commitFiles, countedLoop, ih, ih]
      simp only [decide_eq_true_eq]

/-! ## The three numberings -/

/-- The step that changes the live path of the file at an index. -/
def liveStep (index : Nat) (file : ManifestFile) : Step :=
  match file.policy with
  | .kernel => .commitKernel index
  | .metadata => .commitMetadata index
  | .managedReplace | .configTemplate | .preserve => .activateFile index

theorem liveStep_of_isStageActivated {index : Nat} {file : ManifestFile}
    (h : file.policy.isStageActivated = true) : liveStep index file = .activateFile index := by
  cases hpolicy : file.policy <;> simp_all [liveStep, ManifestFilePolicy.isStageActivated]

/-- One turn of the loop of `RemoveCreatedDirectories`, for the directory whose step has the
number `step`. -/
def removeDirectoryFrom (step index : Nat) (directory : ManifestDirectory) :
    EngineProc Unit := do
  let record ← currentRecord
  if record.completedSteps < step then return ()
  else do
    let markerStat ← Proc.orElse .fileSystemError (stat (env.markerPath true index))
    match markerStat.type with
    | .missing => Proc.check (record.completedSteps = step) .journalConflict
    | .directory => Proc.throw .journalConflict
    | .regularFile => do
        let existed ← Proc.orElse .journalConflict (env.markerExists true index)
        if existed then return ()
        else removeCreatedDirectory directory

/-- The totals, the running counters and the counts of the rollback agree. -/
structure StepNumbering (layout : StepLayout) : Prop where
  /-- The ranges follow one another from 0 to the total. -/
  first : layout.bound 0 = 0
  contiguous : Monotone layout.bound
  last : layout.bound 9 = layout.total
  total : layout.total ≤ kMaximumJournalSteps
  /-- Each kind of step has its numbers in its range. -/
  range : ∀ step : Step, step.Of env.asset →
    layout.bound step.ordinal ≤ step.number env.asset layout ∧
      step.number env.asset layout < layout.bound (step.ordinal + 1)
  /-- Every number below the total is that of one step. -/
  covered : ∀ n, n < layout.total ↔
    ∃! step : Step, step.Of env.asset ∧ step.number env.asset layout = n
  /-- `Stage` changes a live directory where the journal stands at its step. -/
  directories : ∀ failure, env.activateDirectories layout =
    Proc.forIndexed (fun index directory =>
      env.journalledStep ((Step.activateDirectory index).number env.asset layout)
        (expectStep ((Step.activateDirectory index).number env.asset layout) failure
          (env.activateDirectory index directory))) 0 env.asset.directories
  /-- `Stage` changes a live file where the journal stands at its step. -/
  files : ∀ failure, env.activateFiles 0 env.asset.files layout.fileActivateBegin =
    Proc.forIndexed (fun index file =>
      if file.policy.isStageActivated then
        env.journalledStep ((liveStep index file).number env.asset layout)
          (expectStep ((liveStep index file).number env.asset layout) failure
            (env.activateFile index file))
      else return ()) 0 env.asset.files
  /-- So does `Commit`, with the kernels and the metadata. -/
  commit : ∀ failure action (policy : ManifestFilePolicy),
    policy = .kernel ∨ policy = .metadata →
    env.commitFiles policy action 0 env.asset.files
        (if policy = .kernel then layout.kernelBegin else layout.metadataBegin) =
      Proc.forIndexed (fun index file =>
        if file.policy = policy then
          env.commitStep ((liveStep index file).number env.asset layout)
            (expectStep ((liveStep index file).number env.asset layout) failure
              (action index file))
        else return ()) 0 env.asset.files
  /-- The rollback counts the same numbers. -/
  restoreFile : ∀ index (file : ManifestFile), file.policy ≠ .metadata →
    env.activationStep layout index file = (liveStep index file).number env.asset layout
  restoreMetadata : ∀ index (file : ManifestFile), file.policy = .metadata →
    env.metadataStep layout index = (liveStep index file).number env.asset layout
  removeDirectories : env.removeCreatedDirectories layout =
    Proc.forIndexedDown (fun index directory =>
      env.removeDirectoryFrom ((Step.activateDirectory index).number env.asset layout) index
        directory) 0 env.asset.directories

theorem activateFiles_eq (failure : InstallerFailure) :
    env.activateFiles 0 env.asset.files (stepLayout env.asset).fileActivateBegin =
      Proc.forIndexed (fun index file =>
        if file.policy.isStageActivated then
          env.journalledStep ((liveStep index file).number env.asset (stepLayout env.asset))
            (expectStep ((liveStep index file).number env.asset (stepLayout env.asset)) failure
              (env.activateFile index file))
        else return ()) 0 env.asset.files := by
  rw [activateFiles_eq_countedLoop]
  refine (@countedLoop_eq _ _ env.asset.files [] _ _ rfl).trans ?_
  congr 1
  funext index file
  split
  · next h =>
      rw [liveStep_of_isStageActivated h, ← journalledStep_eq]
      rfl
  · rfl

theorem commitFiles_eq (failure : InstallerFailure)
    (action : Nat → ManifestFile → EngineProc Unit) {policy : ManifestFilePolicy} (first : Nat)
    (hnumber : ∀ index file, file.policy = policy →
      (liveStep index file).number env.asset (stepLayout env.asset) =
        first + countPolicy (· = policy) (env.asset.files.take index)) :
    env.commitFiles policy action 0 env.asset.files first =
      Proc.forIndexed (fun index file =>
        if file.policy = policy then
          env.commitStep ((liveStep index file).number env.asset (stepLayout env.asset))
            (expectStep ((liveStep index file).number env.asset (stepLayout env.asset)) failure
              (action index file))
        else return ()) 0 env.asset.files := by
  rw [commitFiles_eq_countedLoop]
  refine (@countedLoop_eq _ _ env.asset.files [] _ first rfl).trans ?_
  congr 1
  funext index file
  simp only [decide_eq_true_eq]
  split
  · next h => rw [hnumber index file h, ← commitStep_eq]
  · rfl

theorem activateDirectories_eq (failure : InstallerFailure) (layout : StepLayout) :
    env.activateDirectories layout =
      Proc.forIndexed (fun index directory =>
        env.journalledStep ((Step.activateDirectory index).number env.asset layout)
          (expectStep ((Step.activateDirectory index).number env.asset layout) failure
            (env.activateDirectory index directory))) 0 env.asset.directories := by
  unfold activateDirectories
  congr 1
  funext index directory
  rw [← journalledStep_eq]
  rfl

theorem activationStep_eq (index : Nat) {file : ManifestFile} (h : file.policy ≠ .metadata) :
    env.activationStep (stepLayout env.asset) index file =
      (liveStep index file).number env.asset (stepLayout env.asset) := by
  unfold activationStep liveStep
  cases hpolicy : file.policy with
  | kernel | managedReplace | configTemplate | preserve => rfl
  | metadata => exact absurd hpolicy h

/-- For every asset, `BuildStepLayout`, the loops of `Stage` and `Commit` and the rollback
number the steps alike, and the ranges of the layout tile the steps. -/
theorem stepNumbering :
    match buildStepLayout env.asset with
    | none => True
    | some layout => StepNumbering env layout := by
  split
  · trivial
  · next layout hlayout =>
      obtain ⟨rfl, htotal⟩ := buildStepLayout_eq_some hlayout
      exact {
        first := rfl
        contiguous := bound_monotone
        last := rfl
        total := htotal
        range := fun step hof => ⟨step.bound_le_number, step.number_lt_bound hof⟩
        covered := fun n => exists_unique_step
        directories := fun failure => env.activateDirectories_eq failure _
        files := env.activateFiles_eq
        commit := by
          intro failure action policy hpolicy
          rcases hpolicy with rfl | rfl
          · refine env.commitFiles_eq failure action _ fun index file h => ?_
            rw [liveStep, h]
            rfl
          · refine env.commitFiles_eq failure action _ fun index file h => ?_
            rw [liveStep, h]
            rfl
        restoreFile := fun index file h => env.activationStep_eq index h
        restoreMetadata := by
          intro index file h
          rw [liveStep, h]
          rfl
        removeDirectories := rfl }

end Env

/-- The steps of the small installation are numbered. -/
theorem stepNumbering_managed :
    Env.StepNumbering managedEnv (stepLayout managedEnv.asset) := by
  have hbounded := buildStepLayout_eq_stepLayout.mpr
    (⟨by decide, by decide⟩ : managedEnv.asset.files.length ≤ kMaximumManifestFiles ∧
      managedEnv.asset.directories.length ≤ kMaximumManifestDirectories)
  have hnumbers := managedEnv.stepNumbering
  rw [hbounded] at hnumbers
  exact hnumbers

end BmxUpdate
