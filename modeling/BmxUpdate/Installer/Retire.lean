import BmxUpdate.Installer.JournalPair
import BmxUpdate.Installer.Run

/-!
# Retirement

A retirement removes everything the installer keeps below the transaction root:
first the files of the four private trees, then their directories, and when the
root holds nothing but the journals and the request, the journals, the newest
record's last.  It may be cut anywhere and repeated.

Removing a file is refused where a directory has its name, and that is the one
thing that can stop a retirement for good: the name `<file>.part` of a
temporary may be the name of a directory another manifest file lies in.
-/

namespace BmxUpdate

open Crash Volumes Wire

namespace Env

variable {env : Env} {allow : Fault → Prop} {s : EngineState} {d₀ d : Volume}

/-! ## What is removed -/

/-- The roots of the four private trees. -/
def artifactRoots (env : Env) : List Path :=
  [env.stageRoot, env.snapshotRoot, env.stateRoot, env.metadataOldRoot]

/-- A path in one of the private trees. -/
def Artifact (env : Env) (p : Path) : Prop := ∃ base ∈ env.artifactRoots, base <+: p

/-- A file the retirement removes from the private trees. -/
def KeptFile (env : Env) (p : Path) : Prop := ∃ file, env.PrivateFile file ∧ WithTemporaries file p

/-- No manifest file has the empty path. -/
def NonemptyPaths (env : Env) : Prop := ∀ file ∈ env.asset.files, file.path ≠ []

theorem PrivateFile.artifact {file : Path} (h : env.PrivateFile file)
    (hpaths : env.NonemptyPaths) :
    ∃ base ∈ env.artifactRoots, ∃ rest, rest ≠ [] ∧ file = base ++ rest := by
  have hstate : ∀ name : String, ∃ base ∈ env.artifactRoots, ∃ rest, rest ≠ [] ∧
      env.stateRoot ++ [name] = base ++ rest :=
    fun name => ⟨env.stateRoot, by simp [artifactRoots], [name], by simp, rfl⟩
  cases h with
  | @staged file h =>
      exact ⟨env.stageRoot, by simp [artifactRoots], file.path, hpaths _ h, rfl⟩
  | @snapshot file h =>
      exact ⟨env.snapshotRoot, by simp [artifactRoots], file.path, hpaths _ h, rfl⟩
  | @metadataOld file h =>
      exact ⟨env.metadataOldRoot, by simp [artifactRoots], file.path, hpaths _ h, rfl⟩
  | fileMarker _ => exact hstate _
  | directoryMarker _ => exact hstate _
  | evidence _ => exact hstate _
  | plan _ => exact hstate _

theorem PrivateFile.artifact_temporaries {file p : Path} (h : env.PrivateFile file)
    (hpaths : env.NonemptyPaths) (hp : WithTemporaries file p) : env.Artifact p := by
  obtain ⟨base, hbase, rest, hrest, rfl⟩ := h.artifact hpaths
  refine ⟨base, hbase, ?_⟩
  rcases hp with rfl | rfl | rfl
  · exact List.prefix_append _ _
  · exact prefix_addSuffix hrest _
  · exact prefix_addSuffix hrest _

/-! ## Removing the files -/

/-- The files at `P` are gone, and none of them was a directory. -/
structure Emptied (env : Env) (P : Path → Prop) (d₀ d : Volume) : Prop where
  clears : Clears env.Artifact (fun _ => False) d₀ d
  gone : ∀ p, P p → d.nodeAt p = none ∧ d₀.nodeAt p ≠ some .directory

theorem Emptied.refl (env : Env) (d₀ : Volume) : env.Emptied (fun _ => False) d₀ d₀ :=
  ⟨FrameRel.refl d₀, fun _ h => h.elim⟩

theorem Emptied.mono {P P' : Path → Prop} (h : env.Emptied P d₀ d) (hP : ∀ p, P' p → P p) :
    env.Emptied P' d₀ d :=
  ⟨h.clears, fun p hp => h.gone p (hP p hp)⟩

/-- One more file and its temporaries. -/
theorem keeps_removeFile_emptied {E : Unit → Prop} {P : Path → Prop} {file : Path}
    (hpaths : env.NonemptyPaths) (hfile : env.PrivateFile file) (hd : env.Emptied P d₀ d)
    (hrefused : (∃ p, env.KeptFile p ∧ d₀.nodeAt p = some .directory) → E ()) :
    keeps allow (Clears env.Artifact (fun _ => False) d₀) E (removeFileAndTemporary file)
      (fun _ s' d' => s' = s ∧ env.Emptied (fun p => P p ∨ WithTemporaries file p) d₀ d')
      s d := by
  refine keeps_removeFileAndTemporary (fun p hp => hfile.artifact_temporaries hpaths hp) hd.clears ?_ ?_
  · rintro ⟨p, hp, hnode⟩
    exact hrefused ⟨p, ⟨file, hfile, hp⟩, hd.clears.of_some hnode⟩
  · intro d' hd' hclears hgone
    refine ⟨rfl, hd', fun p hp => ?_⟩
    rcases hp with hp | hp
    · exact ⟨hclears.eq_none (hd.gone p hp).1, (hd.gone p hp).2⟩
    · refine ⟨(hgone p hp).1, fun hnode => ?_⟩
      rcases hd.clears p with hsame | ⟨-, ⟨hisFile, -⟩ | ⟨-, hfalse⟩⟩
      · exact (hgone p hp).2 (hsame.trans hnode)
      · rw [hnode] at hisFile
        exact hisFile
      · exact hfalse

/-- A loop in which step `i` removes the files at `step i`. -/
theorem keeps_forIndexed_emptied {ε α : Type} {E : ε → Prop} {P : Path → Prop}
    {f : Nat → α → Proc ε EngineState Volume Unit} {xs : List α} (step : Nat → Path → Prop)
    (hstep : ∀ i a P d, xs[i]? = some a → env.Emptied P d₀ d →
      keeps allow (Clears env.Artifact (fun _ => False) d₀) E (f i a)
        (fun _ s' d' => s' = s ∧ env.Emptied (fun p => P p ∨ step i p) d₀ d') s d)
    (hd : env.Emptied P d₀ d) :
    keeps allow (Clears env.Artifact (fun _ => False) d₀) E (Proc.forIndexed f 0 xs)
      (fun _ s' d' => s' = s ∧
        env.Emptied (fun p => P p ∨ ∃ i < xs.length, step i p) d₀ d') s d := by
  refine keeps_forIndexed (fun n s' d' => s' = s ∧
    env.Emptied (fun p => P p ∨ ∃ i < n, step i p) d₀ d') ?_ ?_ ?_
  · rintro j a s' d' ha ⟨rfl, hd'⟩
    rw [Nat.zero_add] at hd' ⊢
    refine keeps_done (hstep j a _ d' ha hd') ?_
    rintro _ s'' d'' ⟨rfl, hd''⟩
    refine ⟨rfl, hd''.mono fun p hp => ?_⟩
    rcases hp with hp | ⟨i, hi, hp⟩
    · exact Or.inl (Or.inl hp)
    · rcases Nat.lt_succ_iff_lt_or_eq.mp hi with hi | rfl
      · exact Or.inl (Or.inr ⟨i, hi, hp⟩)
      · exact Or.inr hp
  · refine ⟨rfl, hd.mono fun p hp => ?_⟩
    rcases hp with hp | ⟨i, hi, -⟩
    · exact hp
    · exact absurd hi (Nat.not_lt_zero i)
  · rintro s' d' ⟨rfl, hd'⟩
    rw [Nat.zero_add] at hd'
    exact ⟨rfl, hd'⟩

/-- The files of one manifest file in the three trees of copies. -/
inductive CopyOf (env : Env) (file : ManifestFile) : Path → Prop
  | staged {p : Path} (h : WithTemporaries (env.staged file) p) : CopyOf env file p
  | snapshot {p : Path} (h : WithTemporaries (env.snapshot file) p) : CopyOf env file p
  | metadataOld {p : Path} (h : WithTemporaries (env.metadataOld file) p) : CopyOf env file p

/-- The files of the state directory. -/
inductive StateFile (env : Env) : Path → Prop
  | fileMarker {index : Nat} (h : index < env.asset.files.length) :
      StateFile env (env.markerPath false index)
  | directoryMarker {index : Nat} (h : index < env.asset.directories.length) :
      StateFile env (env.markerPath true index)
  | evidence {index : Nat} (h : index < env.asset.files.length) :
      StateFile env (env.snapshotEvidencePath index)
  | plan (finalPlan : Bool) : StateFile env (env.contentPlanPath finalPlan)

theorem keeps_removeCopies {P : Path → Prop} {file : ManifestFile} (hpaths : env.NonemptyPaths)
    (hfile : file ∈ env.asset.files) (hfine : Fine allow s) (hd : env.Emptied P d₀ d) {E}
    (hrefused : (∃ p, env.KeptFile p ∧ d₀.nodeAt p = some .directory) → E ()) :
    keeps allow (Clears env.Artifact (fun _ => False) d₀) E
      (removeTransactionFiles.removeCopies env file)
      (fun _ s' d' => s' = s ∧ env.Emptied (fun p => P p ∨ env.CopyOf file p) d₀ d') s d := by
  have hone : ∀ {P base d}, env.PrivateFile (base ++ file.path) → env.Emptied P d₀ d →
      keeps allow (Clears env.Artifact (fun _ => False) d₀) E
        (removeTransactionFile base file.path)
        (fun _ s' d' => s' = s ∧
          env.Emptied (fun p => P p ∨ WithTemporaries (base ++ file.path) p) d₀ d') s d := by
    intro P base d hprivate hd
    refine keeps_bind (keeps_done (keeps_removeFile_emptied hpaths hprivate hd hrefused) ?_)
    rintro _ _ d' ⟨rfl, hd'⟩
    exact keeps_progress hd'.clears hfine ⟨rfl, hd'⟩
  refine keeps_bind (keeps_done (hone (.staged hfile) hd) ?_)
  rintro _ _ d₁ ⟨rfl, hd₁⟩
  refine keeps_bind (keeps_done (hone (.snapshot hfile) hd₁) ?_)
  rintro _ _ d₂ ⟨rfl, hd₂⟩
  refine keeps_done (hone (.metadataOld hfile) hd₂) ?_
  rintro _ _ d₃ ⟨rfl, hd₃⟩
  refine ⟨rfl, hd₃.mono fun p hp => ?_⟩
  rcases hp with hp | (hp | hp | hp)
  · exact Or.inl (Or.inl (Or.inl hp))
  · exact Or.inl (Or.inl (Or.inr hp))
  · exact Or.inl (Or.inr hp)
  · exact Or.inr hp

theorem keeps_removeTransactionFiles (hpaths : env.NonemptyPaths) (hfine : Fine allow s) {E}
    (hrefused : (∃ p, env.KeptFile p ∧ d.nodeAt p = some .directory) → ∀ e, E e) :
    keeps allow (Clears env.Artifact (fun _ => False) d) E env.removeTransactionFiles
      (fun _ s' d' => s' = s ∧
        env.Emptied (fun p => ∃ file ∈ env.asset.files, env.CopyOf file p) d d') s d := by
  refine keeps_done (keeps_forIndexed_emptied
    (fun i p => ∃ file, env.asset.files[i]? = some file ∧ env.CopyOf file p) ?_
    (Emptied.refl env d)) ?_
  · intro i file P d₁ hfile hd₁
    refine keeps_bind (wp_attempt (wp_mono (keeps_removeCopies (E := fun _ => ∃ p,
      env.KeptFile p ∧ d.nodeAt p = some .directory) hpaths (List.mem_of_getElem? hfile) hfine hd₁ id)
      ?_ ?_ fun _ h => h))
    · rintro _ s' d' ⟨rfl, hd'⟩
      refine keeps_pure ⟨rfl, hd'.mono fun p hp => hp.imp id ?_⟩
      rintro ⟨other, hother, hp⟩
      rw [hfile] at hother
      exact Option.some.inj hother ▸ hp
    · rintro _ s' d' ⟨hd', hcause⟩
      refine wp_bind (wp_bind (wp_get (wp_pure (wp_throw ⟨hd', ?_⟩))))
      exact hcause.imp (hrefused · _) id
  · rintro _ s' d' ⟨rfl, hd'⟩
    refine ⟨rfl, hd'.mono ?_⟩
    rintro p ⟨file, hfile, hp⟩
    obtain ⟨i, hi, rfl⟩ := List.mem_iff_getElem.mp hfile
    exact Or.inr ⟨i, hi, _, List.getElem?_eq_getElem hi, hp⟩

theorem keeps_removeSnapshotEvidenceFiles {P : Path → Prop} {E} (hpaths : env.NonemptyPaths)
    (hd : env.Emptied P d₀ d)
    (hrefused : (∃ p, env.KeptFile p ∧ d₀.nodeAt p = some .directory) → ∀ e, E e) :
    keeps allow (Clears env.Artifact (fun _ => False) d₀) E env.removeSnapshotEvidenceFiles
      (fun _ s' d' => s' = s ∧ env.Emptied (fun p => P p ∨ ∃ i < env.asset.files.length,
        WithTemporaries (env.snapshotEvidencePath i) p) d₀ d') s d := by
  refine keeps_forIndexed_emptied (fun i p => WithTemporaries (env.snapshotEvidencePath i) p)
    ?_ hd
  intro i file P d₁ hfile hd₁
  have hI := hd₁.clears
  refine keeps_bind (keeps_orElse (E := noError) (keeps_stat hI ?_) fun _ h => h.elim)
  refine keeps_bind (keeps_orElse (E := noError) (keeps_stat hI ?_) fun _ h => h.elim)
  refine keeps_bind (keeps_orElse (E := noError) (keeps_stat hI ?_) fun _ h => h.elim)
  simp only [statOf_type_eq_missing]
  split
  case isTrue hmissing =>
      obtain ⟨hself, hpart, hrollback⟩ := hmissing
      refine keeps_pure ⟨rfl, hd₁.clears, fun p hp => ?_⟩
      rcases hp with hp | hp
      · exact hd₁.gone p hp
      have hnone : d₁.nodeAt p = none := by rcases hp with rfl | rfl | rfl <;> assumption
      refine ⟨hnone, fun hnode => ?_⟩
      rcases hd₁.clears p with hsame | ⟨-, ⟨hisFile, -⟩ | ⟨-, hfalse⟩⟩
      · rw [← hsame, hnone] at hnode
        cases hnode
      · rw [hnode] at hisFile
        exact hisFile
      · exact hfalse
  case isFalse =>
      exact keeps_orElse (keeps_removeFile_emptied hpaths
        (.evidence (List.getElem?_eq_some_iff.mp hfile).1) hd₁ (E := fun _ => ∃ p,
          env.KeptFile p ∧ d₀.nodeAt p = some .directory) id) fun _ h => hrefused h _

theorem keeps_removeStateFiles {P : Path → Prop} {E} (hpaths : env.NonemptyPaths)
    (hfine : Fine allow s) (hd : env.Emptied P d₀ d)
    (hrefused : (∃ p, env.KeptFile p ∧ d₀.nodeAt p = some .directory) → ∀ e, E e) :
    keeps allow (Clears env.Artifact (fun _ => False) d₀) E env.removeStateFiles
      (fun _ s' d' => s' = s ∧ env.Emptied (fun p => P p ∨
        ∃ file, env.StateFile file ∧ WithTemporaries file p) d₀ d') s d := by
  have hone : ∀ {P file d}, env.PrivateFile file → env.Emptied P d₀ d →
      keeps allow (Clears env.Artifact (fun _ => False) d₀)
        (fun _ => ∃ p, env.KeptFile p ∧ d₀.nodeAt p = some .directory)
        (removeFileAndTemporary file)
        (fun _ s' d' => s' = s ∧
          env.Emptied (fun p => P p ∨ WithTemporaries file p) d₀ d') s d :=
    fun hfile hd => keeps_removeFile_emptied hpaths hfile hd id
  -- The markers of the files.
  refine keeps_bind (keeps_done (keeps_forIndexed_emptied
    (fun i p => WithTemporaries (env.markerPath false i) p) ?_ hd) ?_)
  · intro i file P d₁ hfile hd₁
    refine keeps_bind (keeps_orElse (keeps_done
      (hone (.fileMarker (List.getElem?_eq_some_iff.mp hfile).1) hd₁) ?_) fun _ h => hrefused h _)
    rintro _ _ d₂ ⟨rfl, hd₂⟩
    exact keeps_orElse (E := noError) (keeps_progress hd₂.clears hfine ⟨rfl, hd₂⟩)
      fun _ h => h.elim
  rintro _ _ d₁ ⟨rfl, hd₁⟩
  refine keeps_bind (keeps_done (keeps_removeSnapshotEvidenceFiles hpaths hd₁ hrefused) ?_)
  rintro _ _ d₂ ⟨rfl, hd₂⟩
  -- The markers of the directories and the two plans.
  refine keeps_orElse (keeps_bind (keeps_done (keeps_forIndexed_emptied
    (fun i p => WithTemporaries (env.markerPath true i) p) ?_ hd₂) ?_)) fun _ h => hrefused h _
  · intro i directory P d₃ hdirectory hd₃
    exact hone (.directoryMarker (List.getElem?_eq_some_iff.mp hdirectory).1) hd₃
  rintro _ _ d₃ ⟨rfl, hd₃⟩
  refine keeps_bind (keeps_done (hone (.plan false) hd₃) ?_)
  rintro _ _ d₄ ⟨rfl, hd₄⟩
  refine keeps_done (hone (.plan true) hd₄) ?_
  rintro _ _ d₅ ⟨rfl, hd₅⟩
  refine ⟨rfl, hd₅.mono fun p hp => ?_⟩
  rcases hp with hp | ⟨file, hfile, hp⟩
  · exact Or.inl (Or.inl (Or.inl (Or.inl (Or.inl hp))))
  cases hfile with
  | @fileMarker i hi => exact Or.inl (Or.inl (Or.inl (Or.inl (Or.inr ⟨i, hi, hp⟩))))
  | @evidence i hi => exact Or.inl (Or.inl (Or.inl (Or.inr ⟨i, hi, hp⟩)))
  | @directoryMarker i hi => exact Or.inl (Or.inl (Or.inr ⟨i, hi, hp⟩))
  | plan finalPlan =>
      cases finalPlan with
      | false => exact Or.inl (Or.inr hp)
      | true => exact Or.inr hp

/-- The files of the transaction are removed, or a directory has the name of
one of them. -/
theorem keeps_removeFiles (hpaths : env.NonemptyPaths) (hfine : Fine allow s) {E}
    (hrefused : (∃ p, env.KeptFile p ∧ d.nodeAt p = some .directory) → ∀ e, E e) :
    keeps allow (Clears env.Artifact (fun _ => False) d) E
      (do
        env.removeTransactionFiles
        env.removeStateFiles)
      (fun _ s' d' => s' = s ∧ env.Emptied env.KeptFile d d') s d := by
  refine keeps_bind (keeps_done (keeps_removeTransactionFiles hpaths hfine hrefused) ?_)
  rintro _ _ d₁ ⟨rfl, hd₁⟩
  refine keeps_done (keeps_removeStateFiles hpaths hfine hd₁ hrefused) ?_
  rintro _ _ d₂ ⟨rfl, hd₂⟩
  refine ⟨rfl, hd₂.mono ?_⟩
  rintro p ⟨file, hfile, hp⟩
  cases hfile with
  | @staged file h => exact Or.inl ⟨file, h, .staged hp⟩
  | @snapshot file h => exact Or.inl ⟨file, h, .snapshot hp⟩
  | @metadataOld file h => exact Or.inl ⟨file, h, .metadataOld hp⟩
  | fileMarker h => exact Or.inr ⟨_, .fileMarker h, hp⟩
  | directoryMarker h => exact Or.inr ⟨_, .directoryMarker h, hp⟩
  | evidence h => exact Or.inr ⟨_, .evidence h, hp⟩
  | plan finalPlan => exact Or.inr ⟨_, .plan finalPlan, hp⟩

/-! ## Removing the directories -/

/-- Nothing is left below `base` but directories above one of `paths`. -/
def Covered (base : Path) (paths : List Path) (d : Volume) : Prop :=
  ∀ p, base <+: p → p ≠ base → d.nodeAt p ≠ none → d.nodeAt p = some .directory ∧
    ∃ q ∈ paths, ∃ depth < q.length, p = base ++ q.take depth

theorem Covered.clears {F D : Path → Prop} {base : Path} {paths : List Path} {d' : Volume}
    (h : Covered base paths d) (hd' : Clears F D d d') : Covered base paths d' := by
  intro p hbase hne hnode
  obtain ⟨node, hnode⟩ := Option.ne_none_iff_exists'.mp hnode
  obtain ⟨hdirectory, hq⟩ := h p hbase hne (by simp [hd'.of_some hnode])
  rw [hd'.of_some hnode] at hdirectory
  exact ⟨hnode.trans hdirectory, hq⟩

/-- The removal of one directory, whose refusal is ignored. -/
theorem keeps_tryRemoveDirectory {F D : Path → Prop} {E : InstallerFailure → Prop} {path : Path}
    {Q : Unit → EngineState → Volume → Prop} (hne : path ≠ []) (hpath : D path)
    (hd : Clears F D d₀ d)
    (h : ∀ d', Clears F D d₀ d' → Clears F D d d' →
      (¬MayFail allow → d.nodeAt path = some .directory → d.Childless path →
        d'.nodeAt path = none) → Q () s d') :
    keeps allow (Clears F D d₀) E (do
      let _ ← Proc.attempt (removeDirectory path)
      let _ ← Proc.attempt (syncContainingDirectory path)
      return ()) Q s d := by
  have hsync : ∀ d', Q () s d' → Clears F D d₀ d' →
      keeps allow (Clears F D d₀) E (do
        let _ ← Proc.attempt (η := InstallerFailure)
          (syncContainingDirectory path : EngineCheck Unit)
        return ()) Q s d' := by
    intro d' hQ hd'
    refine keeps_bind (keeps_attempt (S := Eq) (J := fun d'' => d'' = d') (E := noError)
      (T := fun _ _ d'' => d'' = d') (keeps_syncContainingDirectory rfl rfl)
      (steady_syncContainingDirectory _)
      (fun _ h => h ▸ hd') ?_ ?_)
    · rintro _ _ _ rfl rfl
      exact keeps_pure hQ
    · rintro _ _ _ rfl rfl -
      exact keeps_pure hQ
  by_cases hempty : d.nodeAt path = some .directory ∧ d.Childless path
  · refine keeps_bind (keeps_attempt (S := Eq) (J := fun d' => Clears F D d d') (E := noError)
      (T := fun _ _ d' => Clears F D d d' ∧ d'.nodeAt path = none) ?_
      (steady_removeDirectory _)
      (fun _ h => FrameRel.trans hd h) ?_ ?_)
    · refine keeps_removeDirectory hne (FrameRel.refl d) ?_ fun d' _ hd' => ?_
      · rintro (⟨content, hfile⟩ | ⟨-, hfull⟩)
        · rw [hempty.1] at hfile
          cases hfile
        · exact hfull hempty.2
      · have hclears : Clears F D d d' := clears_of_updates hd'
          (fun hfile => by rw [hempty.1] at hfile; exact hfile.elim) fun _ => hpath
        exact ⟨hclears, hclears, by rw [hd', if_pos rfl]⟩
    · rintro _ s' d' rfl ⟨hclears, hgone⟩
      have hd' := FrameRel.trans hd hclears
      exact hsync d' (h d' hd' hclears fun _ _ _ => hgone) hd'
    · rintro _ s' d' rfl hclears hfail
      have hd' := FrameRel.trans hd hclears
      exact hsync d' (h d' hd' hclears fun hsafe => absurd (hfail.resolve_left id) hsafe) hd'
  · -- The removal changes nothing, or is one of a missing directory.
    refine keeps_bind (keeps_attempt (S := Eq) (J := fun d' => Clears F D d d') (E := anyError)
      (T := fun _ _ d' => Clears F D d d') ?_
      (steady_removeDirectory _) (fun _ h => FrameRel.trans hd h) ?_ ?_)
    · refine keeps_removeDirectory hne (FrameRel.refl d) (fun _ => trivial)
        fun d' hchildless hd' => ?_
      have hclears : Clears F D d d' := clears_of_updates hd' (fun hfile => ?_) fun _ => hpath
      · exact ⟨hclears, hclears⟩
      · rcases hchildless with hnone | ⟨hnode, -⟩
        · rw [hnone] at hfile
          exact hfile.elim
        · rw [hnode] at hfile
          exact hfile.elim
    · rintro _ s' d' rfl hclears
      have hd' := FrameRel.trans hd hclears
      exact hsync d' (h d' hd' hclears fun _ hnode hchildless =>
        absurd ⟨hnode, hchildless⟩ hempty) hd'
    · rintro _ s' d' rfl hclears -
      have hd' := FrameRel.trans hd hclears
      exact hsync d' (h d' hd' hclears fun _ hnode hchildless =>
        absurd ⟨hnode, hchildless⟩ hempty) hd'

/-- The directories above `relative` of depth `k` or more are gone, and the others
are still covered. -/
def CoveredAbove (base relative : Path) (rest : List Path) (k : Nat) (d : Volume) : Prop :=
  ∀ p, base <+: p → p ≠ base → d.nodeAt p ≠ none → d.nodeAt p = some .directory ∧
    ((∃ q ∈ rest, ∃ depth < q.length, p = base ++ q.take depth) ∨
      ∃ depth < k, p = base ++ relative.take depth)

theorem CoveredAbove.clears {F D : Path → Prop} {base relative : Path} {rest : List Path}
    {k : Nat} {d' : Volume} (h : CoveredAbove base relative rest k d) (hd' : Clears F D d d') :
    CoveredAbove base relative rest k d' := by
  intro p hbase hne hnode
  obtain ⟨node, hnode⟩ := Option.ne_none_iff_exists'.mp hnode
  obtain ⟨hdirectory, hq⟩ := h p hbase hne (by simp [hd'.of_some hnode])
  rw [hd'.of_some hnode] at hdirectory
  exact ⟨hnode.trans hdirectory, hq⟩

/-- A directory above `relative` that is not empty holds one that is covered, and
so is covered itself; an empty one can be removed. -/
theorem CoveredAbove.step {F D : Path → Prop} {base relative : Path} {rest : List Path} {k : Nat}
    {d' : Volume} (h : CoveredAbove base relative rest (k + 1) d) (hk : k < relative.length)
    (hd' : Clears F D d d')
    (hremoved : d.nodeAt (base ++ relative.take k) = some .directory →
      d.Childless (base ++ relative.take k) → d'.nodeAt (base ++ relative.take k) = none) :
    CoveredAbove base relative rest k d' := by
  intro p hbase hne hnode
  obtain ⟨hdirectory, hcovered⟩ := (h.clears hd') p hbase hne hnode
  refine ⟨hdirectory, ?_⟩
  rcases hcovered with hrest | ⟨depth, hdepth, rfl⟩
  · exact Or.inl hrest
  rcases Nat.lt_succ_iff_lt_or_eq.mp hdepth with hlt | rfl
  · exact Or.inr ⟨depth, hlt, rfl⟩
  left
  -- The directory is still there, so it was not empty.
  have hfull : ¬d.Childless (base ++ relative.take depth) := fun hempty =>
    hnode (hremoved (hd'.of_some hdirectory) hempty)
  rw [Volume.childless_iff] at hfull
  push Not at hfull
  obtain ⟨name, hname⟩ := hfull
  obtain ⟨-, hchild⟩ := h (base ++ relative.take depth ++ [name])
    (by rw [List.append_assoc]; exact List.prefix_append _ _)
    (fun hsame => by simpa using congrArg List.length hsame) hname
  rcases hchild with ⟨q, hq, depth', hdepth', hchild⟩ | ⟨depth', hdepth', hchild⟩
  · have hparent := congrArg List.dropLast hchild
    rw [List.dropLast_concat] at hparent
    refine ⟨q, hq, depth' - 1, by omega, ?_⟩
    cases depth' with
    | zero =>
        have := congrArg List.length hchild
        simp at this
    | succ depth' =>
        rw [hparent, List.dropLast_append_of_ne_nil (by
          intro hnil
          have := congrArg List.length hnil
          rw [List.length_take, List.length_nil] at this
          omega), List.dropLast_take (by omega)]
  · have := congrArg List.length hchild
    simp only [List.length_append, List.length_take, List.length_singleton] at this
    omega

/-- The directories above `relative` are removed unless something covered is
below them. -/
theorem keeps_tryRemoveDerivedDirectories {base relative : Path} (rest : List Path)
    {E : InstallerFailure → Prop} (hbase : base ∈ env.artifactRoots) (hne : base ≠ [])
    {Q : Unit → EngineState → Volume → Prop}
    (hd : Clears env.Artifact env.Artifact d₀ d)
    (h : ∀ d', Clears env.Artifact env.Artifact d₀ d' → Clears env.Artifact env.Artifact d d' →
      (¬MayFail allow → Covered base (relative :: rest) d → Covered base rest d') → Q () s d') :
    keeps allow (Clears env.Artifact env.Artifact d₀) E
      (tryRemoveDerivedDirectories base relative) Q s d := by
  refine keeps_forIndexedDown (fun k s' d' => s' = s ∧ Clears env.Artifact env.Artifact d₀ d' ∧
    Clears env.Artifact env.Artifact d d' ∧
    (¬MayFail allow → Covered base (relative :: rest) d → CoveredAbove base relative rest k d'))
    ?_ ⟨rfl, hd, FrameRel.refl d, fun _ hcovered => ?_⟩ ?_
  · rintro j depth s' d' hdepth ⟨rfl, hd', hclears, hcovered⟩
    obtain ⟨hj, rfl⟩ : j < relative.length ∧ j = depth := by
      simpa using List.getElem?_eq_some_iff.mp hdepth
    rw [Nat.zero_add] at hcovered ⊢
    have hpath : env.Artifact (base ++ relative.take j) := ⟨base, hbase, List.prefix_append _ _⟩
    refine keeps_tryRemoveDirectory (by simp [hne]) hpath hd' fun d'' hd'' hclears' hremoved => ?_
    exact ⟨rfl, hd'', FrameRel.trans hclears hclears', fun hsafe hstart =>
      (hcovered hsafe hstart).step hj hclears' (hremoved hsafe)⟩
  · intro p hpre hp hnode
    obtain ⟨hdirectory, q, hq, depth, hdepth, rfl⟩ := hcovered p hpre hp hnode
    refine ⟨hdirectory, ?_⟩
    rcases List.mem_cons.mp hq with rfl | hq
    · exact Or.inr ⟨depth, by simpa using hdepth, rfl⟩
    · exact Or.inl ⟨q, hq, depth, hdepth, rfl⟩
  · rintro s' d' ⟨rfl, hd', hclears, hcovered⟩
    refine h d' hd' hclears fun hsafe hstart p hpre hp hnode => ?_
    obtain ⟨hdirectory, hrest | ⟨depth, hdepth, -⟩⟩ :=
      hcovered hsafe hstart p hpre hp hnode
    · exact ⟨hdirectory, hrest⟩
    · exact absurd hdepth (Nat.not_lt_zero _)

/-- The private trees hold directories only, and below the roots of the copies
only such as lie above a manifest file's copy. -/
def Barren (env : Env) (d : Volume) : Prop :=
  (∀ base ∈ env.artifactRoots, d.nodeAt base = none ∨ d.nodeAt base = some .directory) ∧
    (∀ base ∈ env.copyRoots, Covered base (env.asset.files.map (·.path)) d) ∧
    Covered env.stateRoot [] d

theorem mem_artifactRoots_of_mem_copyRoots {base : Path} (h : base ∈ env.copyRoots) :
    base ∈ env.artifactRoots := by
  simp only [copyRoots, List.mem_cons, List.not_mem_nil, or_false] at h
  rcases h with rfl | rfl | rfl <;> simp [artifactRoots]

theorem ne_nil_of_mem_artifactRoots {base : Path} (h : base ∈ env.artifactRoots) : base ≠ [] := by
  simp only [artifactRoots, List.mem_cons, List.not_mem_nil, or_false] at h
  rcases h with rfl | rfl | rfl | rfl <;>
    simp [stageRoot, snapshotRoot, stateRoot, metadataOldRoot]

/-- The three trees of copies are rid of the directories above one path. -/
theorem keeps_tryRemoveCopyDirectories {relative : Path} (rest : List Path)
    {E : InstallerFailure → Prop} {Q : Unit → EngineState → Volume → Prop}
    (hd : Clears env.Artifact env.Artifact d₀ d)
    (h : ∀ d', Clears env.Artifact env.Artifact d₀ d' → Clears env.Artifact env.Artifact d d' →
      (¬MayFail allow → (∀ base ∈ env.copyRoots, Covered base (relative :: rest) d) →
        ∀ base ∈ env.copyRoots, Covered base rest d') → Q () s d') :
    keeps allow (Clears env.Artifact env.Artifact d₀) E (do
      tryRemoveDerivedDirectories env.stageRoot relative
      tryRemoveDerivedDirectories env.snapshotRoot relative
      tryRemoveDerivedDirectories env.metadataOldRoot relative) Q s d := by
  have hroot : ∀ {base}, base ∈ env.copyRoots → base ∈ env.artifactRoots ∧ base ≠ [] :=
    fun hbase => ⟨mem_artifactRoots_of_mem_copyRoots hbase,
      ne_nil_of_mem_artifactRoots (mem_artifactRoots_of_mem_copyRoots hbase)⟩
  have hstage : env.stageRoot ∈ env.copyRoots := by simp [copyRoots]
  have hsnapshot : env.snapshotRoot ∈ env.copyRoots := by simp [copyRoots]
  have hold : env.metadataOldRoot ∈ env.copyRoots := by simp [copyRoots]
  refine keeps_bind (keeps_tryRemoveDerivedDirectories rest (hroot hstage).1
    (hroot hstage).2 hd fun d₁ hd₁ hclears₁ hcovered₁ => ?_)
  refine keeps_bind (keeps_tryRemoveDerivedDirectories rest (hroot hsnapshot).1
    (hroot hsnapshot).2 hd₁ fun d₂ hd₂ hclears₂ hcovered₂ => ?_)
  refine keeps_tryRemoveDerivedDirectories rest (hroot hold).1 (hroot hold).2 hd₂
    fun d₃ hd₃ hclears₃ hcovered₃ => ?_
  refine h d₃ hd₃ (FrameRel.trans (FrameRel.trans hclears₁ hclears₂) hclears₃)
    fun hsafe hstart base hbase => ?_
  simp only [copyRoots, List.mem_cons, List.not_mem_nil, or_false] at hbase
  rcases hbase with rfl | rfl | rfl
  · exact ((hcovered₁ hsafe (hstart _ hstage)).clears hclears₂).clears hclears₃
  · exact (hcovered₂ hsafe ((hstart _ hsnapshot).clears hclears₁)).clears hclears₃
  · exact hcovered₃ hsafe (((hstart _ hold).clears hclears₁).clears hclears₂)

/-- Nothing but the root of a tree is left. -/
theorem Covered.childless {base : Path} (h : Covered base [] d) : d.Childless base := by
  rw [Volume.childless_iff]
  intro name
  by_contra hnode
  obtain ⟨-, q, hq, -⟩ := h (base ++ [name]) (List.prefix_append _ _) (by simp) hnode
  cases hq

theorem keeps_removeAndVerifyDirectory {E : Unit → Prop} {path : Path}
    {Q : Unit → EngineState → Volume → Prop} (hpath : path ∈ env.artifactRoots)
    (hd : Clears env.Artifact env.Artifact d₀ d)
    (hrefused : ¬((d.nodeAt path = none ∨ d.nodeAt path = some .directory) ∧ d.Childless path) →
      E ())
    (h : ∀ d', Clears env.Artifact env.Artifact d₀ d' → Clears env.Artifact env.Artifact d d' →
      d'.nodeAt path = none → Q () s d') :
    keeps allow (Clears env.Artifact env.Artifact d₀) E (removeAndVerifyDirectory path) Q s d := by
  have hartifact : env.Artifact path := ⟨path, hpath, List.prefix_refl path⟩
  refine keeps_bind (keeps_removeDirectory (ne_nil_of_mem_artifactRoots hpath) hd ?_ ?_)
  · rintro (⟨content, hfile⟩ | ⟨-, hfull⟩)
    · exact hrefused fun h => by simp [hfile] at h
    · exact hrefused fun h => hfull h.2
  · intro d' hempty hupdate
    have hclears : Clears env.Artifact env.Artifact d d' :=
      clears_of_updates hupdate (fun _ => hartifact) fun _ => hartifact
    have hd' := FrameRel.trans hd hclears
    have hgone : d'.nodeAt path = none := by rw [hupdate, if_pos rfl]
    refine ⟨hd', keeps_bind (keeps_syncContainingDirectory hd' (keeps_bind
      (keeps_stat hd' (keeps_check (fun hbad => ?_) fun _ => h d' hd' hclears hgone))))⟩
    simp [hgone] at hbad

theorem Covered.mono {base : Path} {paths paths' : List Path} (h : Covered base paths d)
    (hpaths : paths ⊆ paths') : Covered base paths' d := by
  intro p hpre hp hnode
  obtain ⟨hdirectory, q, hq, hdepth⟩ := h p hpre hp hnode
  exact ⟨hdirectory, q, hpaths hq, hdepth⟩

/-- All directories of the private trees are removed, if nothing else is left. -/
theorem keeps_removeTransactionDirectories {E : InstallerFailure → Prop}
    (hbarren : ¬env.Barren d → ∀ e, E e) :
    keeps allow (Clears env.Artifact env.Artifact d) E env.removeTransactionDirectories
      (fun _ s' d' => s' = s ∧ Clears env.Artifact env.Artifact d d' ∧
        ∀ base ∈ env.artifactRoots, d'.nodeAt base = none) s d := by
  refine keeps_mayFail ?_
  -- Nothing is left below the roots after the two loops.
  refine keeps_bind (keeps_forIndexed (fun j s' d' => s' = s ∧
    Clears env.Artifact env.Artifact d d' ∧ (¬MayFail allow → env.Barren d →
      ∀ base ∈ env.copyRoots, Covered base ((env.asset.files.drop j).map (·.path)) d')) ?_
    ⟨rfl, FrameRel.refl d, fun _ h => h.2.1⟩ ?_)
  · rintro j file s' d' hfile ⟨rfl, hd', hcovered⟩
    rw [Nat.zero_add] at hcovered ⊢
    have hdrop : env.asset.files.drop j = file :: env.asset.files.drop (j + 1) := by
      obtain ⟨hj, rfl⟩ := List.getElem?_eq_some_iff.mp hfile
      exact List.drop_eq_getElem_cons hj
    rw [hdrop, List.map_cons] at hcovered
    refine keeps_tryRemoveCopyDirectories ((env.asset.files.drop (j + 1)).map (·.path))
      hd' fun d'' hd'' _ hrest => ⟨rfl, hd'', ?_⟩
    exact fun hsafe hstart => hrest hsafe (hcovered hsafe hstart)
  rintro s₁ d₁ ⟨rfl, hd₁, hcovered₁⟩
  refine keeps_bind (keeps_forIndexed (fun _ s' d' => s' = s₁ ∧
    Clears env.Artifact env.Artifact d d' ∧ (¬MayFail allow → env.Barren d →
      ∀ base ∈ env.copyRoots, Covered base [] d')) ?_ ⟨rfl, hd₁, ?_⟩ ?_)
  · rintro j directory s' d' - ⟨rfl, hd', hcovered⟩
    refine keeps_tryRemoveCopyDirectories [] hd' fun d'' hd'' _ hrest =>
      ⟨rfl, hd'', fun hsafe hstart => hrest hsafe fun base hbase => ?_⟩
    exact (hcovered hsafe hstart base hbase).mono (List.nil_subset _)
  · simpa using hcovered₁
  rintro s₂ d₂ ⟨rfl, hd₂, hcovered₂⟩
  -- The roots themselves go.
  have hroot : ∀ {base d'}, base ∈ env.artifactRoots → Clears env.Artifact env.Artifact d₂ d' →
      ¬((d'.nodeAt base = none ∨ d'.nodeAt base = some .directory) ∧ d'.Childless base) →
      ∀ e, E e ∨ MayFail allow := by
    intro base d' hbase hd' hbad e
    by_cases hfail : MayFail allow
    · exact Or.inr hfail
    refine Or.inl (hbarren (fun hstart => hbad ⟨?_, ?_⟩) e)
    · rcases FrameRel.trans hd₂ hd' base with hsame | ⟨hnone, -⟩
      · rw [hsame]
        exact hstart.1 base hbase
      · exact Or.inl hnone
    · have hcovered : Covered base [] d₂ := by
        have hcopies := hcovered₂ hfail hstart
        simp only [artifactRoots, List.mem_cons, List.not_mem_nil, or_false] at hbase
        rcases hbase with rfl | rfl | rfl | rfl
        · exact hcopies _ (by simp [copyRoots])
        · exact hcopies _ (by simp [copyRoots])
        · exact hstart.2.2.clears hd₂
        · exact hcopies _ (by simp [copyRoots])
      exact (hcovered.clears hd').childless
  refine keeps_orElse (E := fun _ => ∀ e, E e ∨ MayFail allow) ?_ fun _ h => h _
  have hstage : env.stageRoot ∈ env.artifactRoots := by simp [artifactRoots]
  have hsnapshot : env.snapshotRoot ∈ env.artifactRoots := by simp [artifactRoots]
  have hstate : env.stateRoot ∈ env.artifactRoots := by simp [artifactRoots]
  have hold : env.metadataOldRoot ∈ env.artifactRoots := by simp [artifactRoots]
  refine keeps_bind (keeps_removeAndVerifyDirectory hstage hd₂
    (hroot hstage (FrameRel.refl d₂)) fun d₃ hd₃ hclears₃ hgone₃ => ?_)
  refine keeps_bind (keeps_removeAndVerifyDirectory hsnapshot hd₃
    (hroot hsnapshot hclears₃) fun d₄ hd₄ hclears₄ hgone₄ => ?_)
  have hclears₃₄ := FrameRel.trans hclears₃ hclears₄
  refine keeps_bind (keeps_removeAndVerifyDirectory hstate hd₄
    (hroot hstate hclears₃₄) fun d₅ hd₅ hclears₅ hgone₅ => ?_)
  refine keeps_removeAndVerifyDirectory hold hd₅
    (hroot hold (FrameRel.trans hclears₃₄ hclears₅)) fun d₆ hd₆ hclears₆ hgone₆ => ?_
  refine ⟨rfl, hd₆, fun base hbase => ?_⟩
  simp only [artifactRoots, List.mem_cons, List.not_mem_nil, or_false] at hbase
  rcases hbase with rfl | rfl | rfl | rfl
  · exact hclears₆.eq_none (hclears₅.eq_none (hclears₄.eq_none hgone₃))
  · exact hclears₆.eq_none (hclears₅.eq_none hgone₄)
  · exact hclears₆.eq_none hgone₅
  · exact hgone₆

end Env

end BmxUpdate
