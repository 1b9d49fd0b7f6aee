import BmxUpdate.Installer.SnapshotEvidence
import BmxUpdate.Installer.Run

/-!
# From the prepared plan to the final plan

The prepared plan says which live files are up to date.  Once every snapshot is
taken, the final plan says the same, and has the size and the digest of every old
file a rollback would put back.
-/

namespace BmxUpdate

open Crash Volumes Wire

namespace Env

variable {env : Env} {allow : Fault → Prop} {I : Volume → Prop} {s : EngineState}
  {d₀ d : Volume} {taken : Nat → Prop}

/-! ## Taking the snapshots -/

/-- What `Stage` does up to the final plan, in a transaction that has journalled no
step: plan, then snapshots. -/
def takeSnapshots (env : Env) : EngineProc Unit := do
  env.buildContentPlan
  let _ ← env.stageSnapshots 0 env.asset.files (stepLayout env.asset).snapshotBegin
    (stepLayout env.asset).snapshotBegin
  return ()

/-- The second volume is reached from the first by attempts to take the snapshots,
each of which may fail or be cut. -/
inductive Attempts (env : Env) (d₀ : Volume) : Volume → Prop
  | start : Attempts env d₀ d₀
  | again {d : Volume} (faults : List Fault) (h : Attempts env d₀ d) :
      Attempts env d₀ (env.takeSnapshots .initial ⟨d, faults⟩).disk

/-- The volume a fresh transaction starts with. -/
structure PlanStart (env : Env) (d₀ : Volume) : Prop where
  state : d₀.nodeAt env.stateRoot = some .directory
  plan : ∀ kind, d₀.nodeAt (env.contentPlanPath kind) = none
  evidence : ∀ index, d₀.nodeAt (env.snapshotEvidencePath index) = none

/-- The volume between two attempts. -/
structure Attempted (env : Env) (d₀ d : Volume) : Prop extends env.Recorded d₀ d where
  plan : d.nodeAt (env.contentPlanPath false) = none ∨ env.PlanOn false (env.sourceRecords d₀) d

theorem PlanStart.attempted (h : env.PlanStart d₀) : env.Attempted d₀ d₀ where
  live _ _ := rfl
  state := h.state
  final := h.plan true
  evidence index _ _ := Or.inl (h.evidence index)
  plan := Or.inl (h.plan false)

theorem Planned.attempted (h : env.Planned d₀ taken d) : env.Attempted d₀ d :=
  { h.toRecorded with plan := Or.inr h.plan }

theorem sourceRecords_congr (h : env.Recorded d₀ d) :
    env.sourceRecords d = env.sourceRecords d₀ := by
  unfold sourceRecords
  refine List.map_congr_left fun file hmem => sourceRecord_congr (h.live file hmem)

/-- Writing a plan file leaves the rest of the state alone. -/
theorem Recorded.agreeOff {d' : Volume} (hsite : env.PlanSite d₀) (h : env.Recorded d₀ d)
    (hagree : AgreeOff (fun p => p = env.planTemporary false ∨ p = env.contentPlanPath false) d d') :
    env.Recorded d₀ d' := by
  refine h.congr (fun file hmem => hagree _ ?_) (hagree _ ?_) (hagree _ ?_) fun index =>
    hagree _ ?_
  · rintro (hp | hp)
    · exact hsite.outside file hmem (hp ▸ root_le_planTemporary false)
    · exact hsite.outside file hmem (hp ▸ root_le_contentPlanPath false)
  · rintro (hp | hp)
    · exact stateRoot_ne_planTemporary _ hp
    · have hlength := congrArg List.length hp
      simp [contentPlanPath] at hlength
  · rintro (hp | hp)
    · exact env.contentPlanPath_ne_planTemporary _ _ hp
    · exact contentPlanPath_ne hp
  · rintro (hp | hp)
    · exact env.planTemporary_ne_evidence _ _ hp.symm
    · exact (env.contentPlanPath_ne_evidence _ _).1 hp.symm

/-- The prepared plan is the plan of the live tree, whichever attempt writes it. -/
theorem keeps_buildContentPlan (hsite : env.PlanSite d₀) (h : env.Attempted d₀ d) :
    keeps anyFault (env.Attempted d₀) anyError env.buildContentPlan
      (fun _ s' d' => env.PreparedInMemory d₀ s' ∧ env.Planned d₀ (fun _ => False) d') s d := by
  have hfiles := hsite.files_le
  have hrecords := planRecords_sourceRecords hsite.consented hsite.sizes
  refine keeps_bind (keeps_orElse (E := anyError) (keeps_stat h ?_) fun _ _ => trivial)
  refine keeps_bind (keeps_orElse (E := anyError) (keeps_stat h ?_) fun _ _ => trivial)
  rcases h.plan with hmissing | hplan
  · rw [h.final, hmissing]
    refine keeps_ite (fun hpresent => ?_) fun _ => ?_
    · exact absurd hpresent (by simp [statOf])
    refine keeps_bind (keeps_check (fun hrefused => absurd ⟨rfl, rfl⟩ hrefused) fun _ => ?_)
    have hsame := sourceRecords_congr h.toRecorded
    have hwritten : ∀ d', env.PlanWritten false (env.sourceRecords d) d d' →
        env.Planned d₀ (fun _ => False) d' := fun d' hd' =>
      { toRecorded := h.toRecorded.agreeOff hsite hd'.2
        plan := hsame ▸ hd'.planOn hfiles (hsame ▸ hrecords)
        taken := fun _ _ _ hfalse => hfalse.elim }
    refine keeps_mono (keeps_writeContentPlanFile (E := anyError) hfiles (hsame ▸ hrecords)
      (collects_sourceRecords (fun _ => mayFail_anyFault) hsite.outside fun _ _ _ => trivial)
      hmissing (by simp [h.final]) (fun _ => h.final) fun _ => trivial) ?_ (fun _ h => h) ?_
    · rintro d' (hd' | hd')
      · refine ⟨h.toRecorded.agreeOff hsite fun p hp => hd' p fun hp' => hp (Or.inl hp'), ?_⟩
        left
        rw [hd' _ (env.contentPlanPath_ne_planTemporary _ _), hmissing]
      · exact (hwritten d' hd').attempted
    · rintro _ s' d' ⟨hd', hs'⟩
      exact ⟨Or.inr (by rw [hs', hsame]), hwritten d' hd'⟩
  · have hplanned : env.Planned d₀ (fun _ => False) d :=
      { h.toRecorded with plan := hplan, taken := fun _ _ _ hfalse => hfalse.elim }
    obtain ⟨encoded, hencoded, -⟩ := hplan
    rw [Volume.fileAt_eq_some_iff.mp hencoded]
    refine keeps_ite (fun _ => ?_) fun hnot => absurd (Or.inr rfl) hnot
    exact keeps_loadContentPlan h hplanned.plan hplanned.selects ⟨Or.inr rfl, hplanned⟩

/-- The loop over the files: every turn that returns adds its index. -/
theorem keeps_stageSnapshots (hsite : env.PlanSite d₀) {files : List ManifestFile}
    {index step : Nat} (hfiles : env.FilesFrom index files)
    (h : env.Planned d₀ (· < index) d) (hs : env.PreparedInMemory d₀ s) :
    keeps anyFault (env.Planned d₀ fun _ => False) anyError
      (env.stageSnapshots index files step step)
      (fun _ s' d' => env.PreparedInMemory d₀ s' ∧
        env.Planned d₀ (· < index + files.length) d') s d := by
  induction files generalizing index step s d with
  | nil => exact keeps_pure ⟨hs, h⟩
  | cons file rest ih =>
      have hshift : index + (file :: rest).length = index + 1 + rest.length := by
        rw [List.length_cons]
        omega
      rw [hshift]
      have hless : ∀ j, j < index + 1 → j < index ∨ j = index := fun j hj => by omega
      unfold stageSnapshots
      refine keeps_ite (fun _ => ?_) fun hnot => ?_
      · refine keeps_bind (keeps_check (fun hrefused => absurd (Nat.le_refl _) hrefused)
          fun _ => ?_)
        refine keeps_ite (fun _ => ?_) fun hnot => absurd rfl hnot
        refine keeps_bind (keeps_mono (keeps_snapshotFile hsite h hfiles.head hs)
          (fun _ h => h.mono fun _ hfalse => hfalse.elim) (fun _ h => h) ?_)
        rintro _ s' d' ⟨hs', hd'⟩
        exact ih hfiles.tail (hd'.mono hless) hs'
      · refine ih hfiles.tail ?_ hs
        refine (h.take fun other hother hunknown => ?_).mono hless
        obtain rfl : file = other := by
          have := hfiles.head
          rw [hother] at this
          exact (Option.some.inj this).symm
        exact absurd hunknown.1 hnot

/-- A complete attempt. -/
theorem keeps_takeSnapshots (hsite : env.PlanSite d₀) (h : env.Attempted d₀ d) :
    keeps anyFault (env.Attempted d₀) anyError env.takeSnapshots
      (fun _ s' d' => env.PreparedInMemory d₀ s' ∧
        env.Planned d₀ (· < env.asset.files.length) d') s d := by
  refine keeps_bind (keeps_done (keeps_buildContentPlan hsite h) ?_)
  rintro _ s₁ d₁ ⟨hs₁, hd₁⟩
  refine keeps_bind (keeps_mono (keeps_stageSnapshots hsite filesFrom_zero
    (hd₁.mono fun _ hless => absurd hless (Nat.not_lt_zero _)) hs₁) (fun _ h => h.attempted)
    (fun _ h => h) ?_)
  rintro _ s₂ d₂ ⟨hs₂, hd₂⟩
  rw [Nat.zero_add] at hd₂
  exact keeps_pure ⟨hs₂, hd₂⟩

/-- Between two attempts the volume stays as it has to be. -/
theorem Attempts.attempted (hsite : env.PlanSite d₀) (hstart : env.PlanStart d₀)
    (h : env.Attempts d₀ d) : env.Attempted d₀ d := by
  induction h with
  | start => exact hstart.attempted
  | again faults _ ih =>
      refine keeps_disk (keeps_done (keeps_takeSnapshots hsite ih) ?_) fun _ _ => trivial
      exact fun _ _ _ h => h.2.attempted

/-! ## The final records -/

instance (d₀ : Volume) (file : ManifestFile) : Decidable (env.Unknown d₀ file) :=
  inferInstanceAs (Decidable (_ ∧ _))

/-- The record of the final plan: the prepared one, completed from the evidence. -/
def finalRecord (env : Env) (d₀ : Volume) (file : ManifestFile) : ContentPlanRecord :=
  if env.Unknown d₀ file then
    { env.sourceRecord d₀ file with
      oldDigestValid := true
      oldSize := (env.oldFile d₀ file).size
      oldDigest := (env.oldFile d₀ file).digest }
  else env.sourceRecord d₀ file

/-- The records of the final plan. -/
def finalRecords (env : Env) (d₀ : Volume) : List ContentPlanRecord :=
  env.asset.files.map (env.finalRecord d₀)

theorem getElem?_finalRecords {index : Nat} {file : ManifestFile}
    (h : env.asset.files[index]? = some file) :
    (env.finalRecords d₀)[index]? = some (env.finalRecord d₀ file) := by
  simp [finalRecords, h]

@[simp] theorem finalRecord_noop (file : ManifestFile) :
    (env.finalRecord d₀ file).noop = (env.sourceRecord d₀ file).noop := by
  unfold finalRecord
  split <;> rfl

@[simp] theorem finalRecord_sourceExisted (file : ManifestFile) :
    (env.finalRecord d₀ file).sourceExisted = (env.sourceRecord d₀ file).sourceExisted := by
  unfold finalRecord
  split <;> rfl

theorem sourceRecord_sourceExisted (env : Env) (d₀ : Volume) (file : ManifestFile) :
    (env.sourceRecord d₀ file).sourceExisted = (d₀.fileAt file.path).isSome := by
  unfold sourceRecord
  cases d₀.fileAt file.path with
  | none => rfl
  | some content =>
      dsimp only
      split
      · rfl
      split <;> rfl

/-- The final record of every old file but a preserved one has its size and its
digest. -/
theorem finalRecord_old {file : ManifestFile} {content : Content}
    (hconsent : env.Consented d₀) (hmem : file ∈ env.asset.files)
    (hpolicy : file.policy ≠ .preserve) (hfile : d₀.fileAt file.path = some content) :
    (env.finalRecord d₀ file).oldDigestValid = true ∧
      (env.finalRecord d₀ file).oldSize = content.length ∧
      (env.finalRecord d₀ file).oldDigest = env.sha256 content := by
  have hexisted := env.sourceRecord_sourceExisted d₀ file
  rw [hfile] at hexisted
  unfold finalRecord
  split
  · simp [oldFile, hfile]
  · rename_i hknown
    rcases sourceRecord_present hconsent hmem hfile with hrecord | ⟨hrecord, hmetadata, -⟩
    · rw [hrecord]
      exact ⟨rfl, rfl, rfl⟩
    · refine absurd ⟨?_, hexisted, by rw [hrecord]; rfl⟩ hknown
      cases hcase : file.policy <;> simp_all [ManifestFilePolicy.isSnapshot]

theorem planRecords_finalRecords (hsite : env.PlanSite d₀) :
    env.PlanRecords true (env.finalRecords d₀) where
  length := by simp [finalRecords]
  encodable := by
    intro r hr
    simp only [finalRecords, List.mem_map] at hr
    obtain ⟨file, hmem, rfl⟩ := hr
    have hsource := sourceRecord_encodable hsite.consented hsite.sizes hmem
    unfold finalRecord
    split
    · rename_i hunknown
      obtain ⟨-, hexisted, hvalid⟩ := hunknown
      refine ⟨⟨?_, ?_, ?_, ?_⟩, (oldFile_encodable hsite.sizes).size⟩
      · simp [hexisted]
      · simp
      · simp [hexisted]
      · simp [hexisted]
    · exact hsource
  fits := by
    intro i file r hfile hr
    rw [getElem?_finalRecords hfile, Option.some.injEq] at hr
    subst hr
    have hmem := List.mem_of_getElem? hfile
    cases hold : d₀.fileAt file.path with
    | none =>
        have hexisted := env.sourceRecord_sourceExisted d₀ file
        rw [hold] at hexisted
        have hnoop : (env.sourceRecord d₀ file).noop = false := by
          rw [sourceRecord_missing hold]
        simp [planRecordFits, hnoop, hexisted]
    | some content =>
        by_cases hpolicy : file.policy = .preserve
        · have hnoop : (env.sourceRecord d₀ file).noop = false := by
            rw [← Bool.not_eq_true, sourceRecord_noop hsite.consented hmem]
            exact fun h => h.1 hpolicy
          simp [planRecordFits, hnoop, hpolicy]
        · obtain ⟨hvalid, hsize, hdigest⟩ :=
            finalRecord_old hsite.consented hmem hpolicy hold
          simp only [planRecordFits, finalRecord_noop, hvalid, hsize, hdigest, Bool.or_true,
            Bool.and_true]
          cases hnoop : (env.sourceRecord d₀ file).noop with
          | false => rfl
          | true =>
              obtain ⟨-, found, hfound, hlength, hsha⟩ :=
                (sourceRecord_noop hsite.consented hmem).mp hnoop
              obtain rfl : content = found := by simpa [hold] using hfound
              simp [hlength, hsha]

/-! ## Writing the final plan -/

/-- The evidence of a taken snapshot is what the live file was. -/
theorem keeps_readSnapshotEvidence_taken {E : InstallerFailure → Prop}
    {Q : OldFile → EngineState → Volume → Prop} {index : Nat} {file : ManifestFile}
    (hsite : env.PlanSite d₀) (hI : I d) (h : env.Planned d₀ taken d)
    (hfile : env.asset.files[index]? = some file) (htaken : taken index)
    (hunknown : env.Unknown d₀ file) (hs : env.PreparedInMemory d₀ s)
    (hQ : Q (env.oldFile d₀ file) (loadedState s false (env.sourceRecords d₀)) d) :
    keeps allow I E (env.readSnapshotEvidence index) Q s d := by
  have hnode : d.nodeAt (env.snapshotEvidencePath index) =
      some (.file (snapshotEvidenceContent (env.oldFile d₀ file))) :=
    (h.evidence index file hfile).resolve_left (h.taken index file hfile htaken hunknown)
  have hcontent := Volume.fileAt_eq_some_iff.mpr hnode
  refine keeps_bind (keeps_readContentPlanRecord hI h.plan h.selects hs
    (getElem?_sourceRecords hfile) ?_)
  refine keeps_ite (fun hmissing => ?_) fun _ => ?_
  · rw [hunknown.2.1] at hmissing
    cases hmissing
  refine keeps_ite (fun hvalid => ?_) fun _ => ?_
  · rw [hunknown.2.2] at hvalid
    cases hvalid
  refine keeps_bind (keeps_loadedContentPlan hI h.plan h.selects (inMemory_loadedState _ _ _) ?_)
  refine keeps_bind (keeps_check (fun hrefused => absurd rfl hrefused) fun _ => ?_)
  refine keeps_bind (keeps_bind (keeps_orElse (E := fun _ => False) (keeps_stat hI ?_)
    (by simp)))
  rw [hnode]
  refine keeps_ite (fun hmissing => absurd hmissing (by simp [statOf])) fun _ => ?_
  refine keeps_bind (keeps_check (fun hrefused =>
    absurd ⟨rfl, length_snapshotEvidenceContent _⟩ hrefused) fun _ => ?_)
  refine keeps_bind (keeps_orElse (E := fun _ => False) (keeps_readFile hI
    (fun hmissing => by simp [hmissing] at hcontent) fun found hfound => ?_) (by simp))
  obtain rfl : snapshotEvidenceContent (env.oldFile d₀ file) = found := by
    simpa [hcontent] using hfound
  refine keeps_pure ?_
  rw [Option.bind_some, parseSnapshotEvidence_content (oldFile_encodable hsite.sizes)]
  exact keeps_pure hQ

theorem keeps_finalPlanRecord {E : InstallerFailure → Prop}
    {Q : ContentPlanRecord → EngineState → Volume → Prop} {index : Nat} {file : ManifestFile}
    (hsite : env.PlanSite d₀) (hI : I d) (h : env.Planned d₀ taken d)
    (hfile : env.asset.files[index]? = some file) (htaken : taken index)
    (hs : env.PreparedInMemory d₀ s)
    (hQ : Q (env.finalRecord d₀ file) (loadedState s false (env.sourceRecords d₀)) d) :
    keeps allow I E (env.finalPlanRecord index file) Q s d := by
  refine keeps_bind (keeps_readContentPlanRecord hI h.plan h.selects hs
    (getElem?_sourceRecords hfile) ?_)
  unfold finalRecord at hQ
  refine keeps_ite (fun hneeded => ?_) fun hneeded => ?_
  · have hunknown : env.Unknown d₀ file := by
      simpa [Unknown, and_assoc] using hneeded
    rw [if_pos hunknown] at hQ
    refine keeps_bind (keeps_readSnapshotEvidence_taken hsite hI h hfile htaken hunknown
      (inMemory_loadedState _ _ _) ?_)
    have hexisted : (env.oldFile d₀ file).existed = true := by
      have hsource := hunknown.2.1
      rw [sourceRecord_sourceExisted] at hsource
      unfold oldFile
      cases hold : d₀.fileAt file.path with
      | none => simp [hold] at hsource
      | some content => rfl
    exact keeps_bind (keeps_check (fun hrefused => absurd hexisted hrefused) fun _ =>
      keeps_pure hQ)
  · have hknown : ¬env.Unknown d₀ file := by
      simpa [Unknown, and_assoc] using hneeded
    rw [if_neg hknown] at hQ
    exact keeps_pure hQ

/-- Writing the temporary of the final plan leaves the rest of the state alone. -/
theorem Planned.unwritten {d' : Volume} (hsite : env.PlanSite d₀) (h : env.Planned d₀ taken d)
    (hd' : env.Unwritten true d d') : env.Planned d₀ taken d' := by
  refine h.congr (fun file hmem => hd' _ fun hp => ?_)
    (hd' _ (stateRoot_ne_planTemporary _))
    (fun kind => hd' _ (env.contentPlanPath_ne_planTemporary _ _))
    fun index => hd' _ (env.planTemporary_ne_evidence _ _).symm
  exact hsite.outside file hmem (hp ▸ root_le_planTemporary true)

theorem collects_finalRecords {E : InstallerFailure → Prop} (hsite : env.PlanSite d₀)
    (h : env.Planned d₀ (· < env.asset.files.length) d) (hs : env.PreparedInMemory d₀ s) :
    env.Collects allow E true (env.finalRecords d₀) s d := by
  intro d' hd'
  have hplanned := h.unwritten hsite hd'
  refine keeps_mapIndexed (fun s' d'' => env.PreparedInMemory d₀ s' ∧ d'' = d')
    (fun _ file => env.finalRecord d₀ file) ?_ ⟨hs, rfl⟩ ?_
  · rintro j file s' _ hfile ⟨hs', rfl⟩
    rw [Nat.zero_add]
    have hless : j < env.asset.files.length := (List.getElem?_eq_some_iff.mp hfile).1
    exact keeps_finalPlanRecord hsite rfl hplanned hfile hless hs'
      ⟨rfl, inMemory_loadedState _ _ _, rfl⟩
  · rintro _ _ ⟨-, rfl⟩
    exact ⟨List.mapIdx_eq_iff.mpr fun i => by simp [finalRecords], rfl⟩

/-- The final plan counts like the prepared one. -/
theorem contentPlanContent_finalRecords (h : env.Planned d₀ taken d) :
    env.contentPlanContent true (env.finalRecords d₀) ≠ none := by
  obtain ⟨encoded, -, hparse⟩ := h.plan
  obtain ⟨-, -, -, totals, htotals⟩ := parseContentPlan_eq_some hparse
  have hbits : (env.finalRecords d₀).map (·.noop) = (env.sourceRecords d₀).map (·.noop) := by
    simp [finalRecords, sourceRecords]
  rw [contentPlanContent, contentPlanTotals_congr hbits, htotals]
  simp

theorem keeps_writeFinalPlan {E : InstallerFailure → Prop} (hsite : env.PlanSite d₀)
    (h : env.Planned d₀ (· < env.asset.files.length) d) (hs : env.PreparedInMemory d₀ s)
    (hrefused : d.nodeAt (env.planTemporary true) = some .directory → E .fileSystemError) :
    keeps allow (env.PlanKept true (env.finalRecords d₀) d) E (env.writeContentPlanFile true)
      (fun _ s' d' => env.PlanWritten true (env.finalRecords d₀) d d' ∧
        s'.contentPlan = some ((env.finalRecords d₀).map (·.noop), true)) s d := by
  have hfiles := hsite.files_le
  refine keeps_writeContentPlanFile hfiles (planRecords_finalRecords hsite)
    (collects_finalRecords hsite h hs) h.final (h.selects.files false) (by simp) ?_
  rintro (hnode | hroot | hnone)
  · exact hrefused hnode
  · exact absurd h.state hroot
  · exact absurd hnone (contentPlanContent_finalRecords h)

/-! ## The round trip -/

/-- `LoadContentPlan` accepts the plan on the volume, and these are the no-op bits it
loads and the records `ReadContentPlanRecord` then reads. -/
structure AcceptedPlan (env : Env) (requireFinal finalPlan : Bool)
    (records : List ContentPlanRecord) (d : Volume) : Prop where
  load : ∀ s, ∃ w, env.loadContentPlan requireFinal s ⟨d, []⟩ =
    .done () (loadedState s finalPlan records) w
  read : ∀ s index r, records[index]? = some r → ∃ w,
    env.readContentPlanRecord index (loadedState s finalPlan records) ⟨d, []⟩ =
      .done r (loadedState s finalPlan records) w

theorem PlanOn.accepted {requireFinal finalPlan : Bool} {records : List ContentPlanRecord}
    (h : env.PlanOn finalPlan records d) (hselects : env.Selects requireFinal finalPlan d) :
    env.AcceptedPlan requireFinal finalPlan records d where
  load s := by
    obtain ⟨_, s', w, hrun, rfl⟩ := keeps_uninterrupted (keeps_loadContentPlan
      (I := fun _ => True) (Q := fun _ s' _ => s' = loadedState s finalPlan records) trivial h
      hselects rfl)
    exact ⟨w, hrun⟩
  read s index r hr := by
    obtain ⟨found, s', w, hrun, rfl, rfl⟩ := keeps_uninterrupted (keeps_readContentPlanRecord
      (I := fun _ => True) (Q := fun found s' _ => found = r ∧
        s' = loadedState s finalPlan records) trivial h
      ⟨hselects.files, fun hprepared => ⟨(hselects.prepared hprepared).1, rfl⟩⟩
      (inMemory_loadedState s finalPlan records) hr ⟨rfl, rfl⟩)
    exact ⟨w, hrun⟩

/-- The no-op bits of a prepared plan: a file is unchanged iff it is not preserved
and the live file is up to date. -/
def Classifies (env : Env) (d₀ : Volume) (records : List ContentPlanRecord) : Prop :=
  ∀ (index : Nat) (file : ManifestFile), env.asset.files[index]? = some file →
    ∃ r, records[index]? = some r ∧
      (r.noop = true ↔ file.policy ≠ .preserve ∧ env.UpToDate d₀ file)

/-- A final plan beside the prepared one: the same bits, and the size and digest of
every old file but the preserved ones. -/
def Completes (env : Env) (d₀ : Volume) (prepared records : List ContentPlanRecord) : Prop :=
  ∀ (index : Nat) (file : ManifestFile), env.asset.files[index]? = some file →
    ∃ p r, prepared[index]? = some p ∧ records[index]? = some r ∧ r.noop = p.noop ∧
      r.sourceExisted = p.sourceExisted ∧
      ∀ content, file.policy ≠ .preserve → d₀.fileAt file.path = some content →
        r.oldDigestValid = true ∧ r.oldSize = content.length ∧
          r.oldDigest = env.sha256 content

theorem classifies_sourceRecords (hconsent : env.Consented d₀) :
    env.Classifies d₀ (env.sourceRecords d₀) := by
  intro index file hfile
  exact ⟨_, getElem?_sourceRecords hfile,
    sourceRecord_noop hconsent (List.mem_of_getElem? hfile)⟩

theorem completes_finalRecords (hconsent : env.Consented d₀) :
    env.Completes d₀ (env.sourceRecords d₀) (env.finalRecords d₀) := by
  intro index file hfile
  exact ⟨_, _, getElem?_sourceRecords hfile, getElem?_finalRecords hfile, finalRecord_noop file,
    finalRecord_sourceExisted file, fun content hpolicy hcontent =>
      finalRecord_old hconsent (List.mem_of_getElem? hfile) hpolicy hcontent⟩

/-- What a fresh plan can be written on: no directory is in the way, and the new
sizes do not overflow. -/
structure Writable (env : Env) (d₀ : Volume) : Prop where
  temporary : d₀.nodeAt (env.planTemporary false) ≠ some .directory
  live : ∀ file ∈ env.asset.files, d₀.nodeAt file.path ≠ some .directory
  sizes : (env.asset.files.map env.effectiveSize).sum < 2 ^ 64

/-- The prepared plan, however its writing ends: accepted if it is there. -/
theorem preparedPlan_accepted (hsite : env.PlanSite d₀) (hstart : env.PlanStart d₀)
    (s : EngineState) (faults : List Fault)
    (hthere : (env.writeContentPlanFile false s ⟨d₀, faults⟩).disk.nodeAt
      (env.contentPlanPath false) ≠ none) :
    env.AcceptedPlan false false (env.sourceRecords d₀)
      (env.writeContentPlanFile false s ⟨d₀, faults⟩).disk := by
  have hrecords := planRecords_sourceRecords hsite.consented hsite.sizes
  have hkept : env.PlanKept false (env.sourceRecords d₀) d₀
      (env.writeContentPlanFile false s ⟨d₀, faults⟩).disk := by
    refine keeps_disk (keeps_done (keeps_writeContentPlanFile (E := anyError) hsite.files_le
      hrecords (collects_sourceRecords (fun _ => mayFail_anyFault) hsite.outside
        fun _ _ _ => trivial) (hstart.plan false) (by simp [hstart.plan])
      (fun _ => hstart.plan true) fun _ => trivial) ?_) fun _ _ => trivial
    exact fun _ _ _ h => Or.inr h.1
  rcases hkept with hunwritten | hwritten
  · rw [hunwritten _ (env.contentPlanPath_ne_planTemporary _ _), hstart.plan false] at hthere
    exact absurd rfl hthere
  · exact (hwritten.planOn hsite.files_le hrecords).accepted
      (hwritten.selects (by simp [hstart.plan]) fun _ => hstart.plan true)

theorem preparedPlan_written (hsite : env.PlanSite d₀) (hstart : env.PlanStart d₀)
    (hwritable : env.Writable d₀) (s : EngineState) (hs : s.progressFailed = false) :
    ∃ s' w, env.writeContentPlanFile false s ⟨d₀, []⟩ = .done () s' w ∧
      w.disk.nodeAt (env.contentPlanPath false) ≠ none := by
  have hrecords := planRecords_sourceRecords hsite.consented hsite.sizes
  have hnever : ∀ file ∈ env.asset.files, d₀.nodeAt file.path = some .directory → False :=
    fun file hmem hnode => hwritable.live file hmem hnode
  obtain ⟨_, s', w, hrun, ⟨⟨content, -, hnode⟩, -⟩, -⟩ := keeps_uninterrupted
    (keeps_writeContentPlanFile (E := noError) hsite.files_le hrecords
      (collects_sourceRecords (fine_of_eq_false hs) hsite.outside hnever) (hstart.plan false)
      (by simp [hstart.plan]) (fun _ => hstart.plan true) (by
        rintro (hnode | hroot | hnone)
        · exact hwritable.temporary hnode
        · exact hroot hstart.state
        · have hsome : (env.contentPlanTotals ⟨0, 0, 0, 0⟩ env.asset.files
              (env.sourceRecords d₀)).isSome :=
            contentPlanTotals_isSome _ (by simpa using hwritable.sizes)
          simp only [contentPlanContent, Option.map_eq_none_iff] at hnone
          rw [hnone] at hsome
          cases hsome))
  exact ⟨s', w, hrun, by simp [hnode]⟩

/-- The final plan, however its writing ends: accepted if it is there. -/
theorem finalPlan_accepted (hsite : env.PlanSite d₀)
    (h : env.Planned d₀ (· < env.asset.files.length) d) (hs : env.PreparedInMemory d₀ s)
    (faults : List Fault)
    (hthere : (env.writeContentPlanFile true s ⟨d, faults⟩).disk.nodeAt
      (env.contentPlanPath true) ≠ none) :
    env.AcceptedPlan true true (env.finalRecords d₀)
      (env.writeContentPlanFile true s ⟨d, faults⟩).disk := by
  have hkept : env.PlanKept true (env.finalRecords d₀) d
      (env.writeContentPlanFile true s ⟨d, faults⟩).disk := by
    refine keeps_disk (keeps_done (keeps_writeFinalPlan (E := anyError) hsite h hs
      fun _ => trivial) ?_) fun _ _ => trivial
    exact fun _ _ _ h => Or.inr h.1
  rcases hkept with hunwritten | hwritten
  · rw [hunwritten _ (env.contentPlanPath_ne_planTemporary _ _), h.final] at hthere
    exact absurd rfl hthere
  · exact (hwritten.planOn hsite.files_le (planRecords_finalRecords hsite)).accepted
      (hwritten.selects (h.selects.files false) (by simp))

theorem finalPlan_written (hsite : env.PlanSite d₀)
    (h : env.Planned d₀ (· < env.asset.files.length) d) (hs : env.PreparedInMemory d₀ s)
    (htemporary : d.nodeAt (env.planTemporary true) ≠ some .directory) :
    ∃ s' w, env.writeContentPlanFile true s ⟨d, []⟩ = .done () s' w ∧
      w.disk.nodeAt (env.contentPlanPath true) ≠ none := by
  obtain ⟨_, s', w, hrun, ⟨⟨content, -, hnode⟩, -⟩, -⟩ := keeps_uninterrupted
    (keeps_writeFinalPlan (E := noError) hsite h hs fun hnode => htemporary hnode)
  exact ⟨s', w, hrun, by simp [hnode]⟩

/-- A plan bound to anything else is no plan of this request. -/
theorem loadContentPlan_rejects {finalPlan : Bool} {encoded : Bytes}
    (hfile : d.fileAt (env.contentPlanPath finalPlan) = some encoded)
    (hselected : finalPlan = false → d.nodeAt (env.contentPlanPath true) = none)
    (hbinding : planBinding encoded ≠ env.binding) (requireFinal : Bool) (s : EngineState)
    (faults : List Fault) :
    (env.loadContentPlan requireFinal s ⟨d, faults⟩).result = none := by
  have hload : (env.loadContentPlan requireFinal s ⟨d, faults⟩).Meets anyFault _ :=
    env.keeps_loadContentPlan_any requireFinal faults fun _ _ => trivial
  cases hrun : env.loadContentPlan requireFinal s ⟨d, faults⟩ with
  | error e s' w => rfl
  | cut d' => rfl
  | done a s' w =>
      rw [hrun] at hload
      obtain ⟨-, kind, records, ⟨found, hfound, hparse⟩, hselects, -⟩ := hload.1
      refine absurd ?_ hbinding
      have hkind : kind = finalPlan := by
        cases kind with
        | true =>
            by_contra hne
            have hnone := hselected (by simpa using Ne.symm hne)
            simp [Volume.fileAt, hnone] at hfound
        | false =>
            by_contra hne
            have hnone := (hselects.prepared rfl).1
            have htrue : finalPlan = true := by simpa using Ne.symm hne
            rw [htrue] at hfile
            simp [Volume.fileAt, hnone] at hfile
      subst hkind
      obtain rfl : encoded = found := by simpa [hfile] using hfound
      exact planBinding_of_parseContentPlan hparse

/-- The prepared plan says which live files are up to date, the final plan says the
same and knows every old file, and neither is the plan of another request. -/
theorem contentPlan_roundTrip (hsite : env.PlanSite d₀) (hstart : env.PlanStart d₀) :
    (∀ s faults, (env.writeContentPlanFile false s ⟨d₀, faults⟩).disk.nodeAt
        (env.contentPlanPath false) ≠ none →
      ∃ records, env.AcceptedPlan false false records
          (env.writeContentPlanFile false s ⟨d₀, faults⟩).disk ∧
        env.Classifies d₀ records) ∧
    (∀ s, s.progressFailed = false → env.Writable d₀ →
      ∃ s' w, env.writeContentPlanFile false s ⟨d₀, []⟩ = .done () s' w ∧
        w.disk.nodeAt (env.contentPlanPath false) ≠ none) ∧
    (∀ d, env.Attempts d₀ d → ∀ faults s w,
      env.takeSnapshots .initial ⟨d, faults⟩ = .done () s w →
      ∃ prepared, env.AcceptedPlan false false prepared w.disk ∧ env.Classifies d₀ prepared ∧
        (∀ faults', (env.writeContentPlanFile true s ⟨w.disk, faults'⟩).disk.nodeAt
            (env.contentPlanPath true) ≠ none →
          ∃ records, env.AcceptedPlan true true records
              (env.writeContentPlanFile true s ⟨w.disk, faults'⟩).disk ∧
            env.Completes d₀ prepared records) ∧
        (w.disk.nodeAt (env.planTemporary true) ≠ some .directory →
          ∃ s' w', env.writeContentPlanFile true s ⟨w.disk, []⟩ = .done () s' w' ∧
            w'.disk.nodeAt (env.contentPlanPath true) ≠ none)) ∧
    ∀ d finalPlan encoded, d.fileAt (env.contentPlanPath finalPlan) = some encoded →
      (finalPlan = false → d.nodeAt (env.contentPlanPath true) = none) →
      planBinding encoded ≠ env.binding →
      ∀ requireFinal s faults,
        (env.loadContentPlan requireFinal s ⟨d, faults⟩).result = none := by
  refine ⟨fun s faults hthere => ?_, fun s hs hwritable => ?_, fun d hattempts faults s w hrun => ?_,
    fun d finalPlan encoded hfile hselected hbinding requireFinal s faults =>
      loadContentPlan_rejects hfile hselected hbinding requireFinal s faults⟩
  · exact ⟨_, preparedPlan_accepted hsite hstart s faults hthere,
      classifies_sourceRecords hsite.consented⟩
  · exact preparedPlan_written hsite hstart hwritable s hs
  · have hsnapshots := keeps_takeSnapshots (s := .initial) hsite
      (hattempts.attempted hsite hstart) faults fun _ _ => trivial
    rw [hrun] at hsnapshots
    obtain ⟨hs, hplanned⟩ := hsnapshots.1
    refine ⟨_, hplanned.plan.accepted hplanned.selects, classifies_sourceRecords hsite.consented,
      fun faults' hthere => ?_, fun htemporary => ?_⟩
    · exact ⟨_, finalPlan_accepted hsite hplanned hs faults' hthere,
        completes_finalRecords hsite.consented⟩
    · exact finalPlan_written hsite hplanned hs htemporary

end Env

/-! ## Small plans -/

/-- A volume's sizes fit if those of its files do. -/
theorem sizesFit_of_keys {v : Volume}
    (h : ∀ p ∈ v.nodes.keys, ((v.fileAt p).getD []).length < 2 ^ 64) : Env.SizesFit v := by
  intro p content hfile
  have hp : p ≠ [] := (Volume.nodeAt_dropLast_of_fileAt hfile).1
  have hmem : p ∈ v.nodes.keys := by
    have hnode := Volume.fileAt_eq_some_iff.mp hfile
    rw [v.nodeAt_eq_lookup hp] at hnode
    exact AList.mem_keys.mp (AList.lookup_isSome.mp (by simp [hnode]))
  simpa [hfile] using h p hmem

/-- An empty state directory is one a transaction can start with. -/
theorem planStart_of_childless {env : Env} {v : Volume}
    (hstate : v.nodeAt env.stateRoot = some .directory) (hempty : v.Childless env.stateRoot) :
    env.PlanStart v where
  state := hstate
  plan _ := Volume.childless_iff.mp hempty _
  evidence _ := Volume.childless_iff.mp hempty _

/-- Three files: one to be replaced, one that is up to date, one that is kept. -/
def plannedEnv : Env :=
  smallEnv [⟨["c64", "a.vkm"], .managedReplace, [9]⟩, ⟨["c64", "b.vkm"], .managedReplace, [8]⟩,
    ⟨["c64", "c.cfg"], .preserve, [7]⟩] [] idleBackend

def plannedVolume : Volume :=
  volumeOf [(["c64", "a.vkm"], [1, 2]), (["c64", "b.vkm"], [8]), (["c64", "c.cfg"], [7])]
    [[".bmx-update", "transaction", "state"]]

theorem plannedEnv_preparedConfig (file : ManifestFile) : plannedEnv.preparedConfig file = none := by
  unfold Env.preparedConfig
  split <;> rfl

theorem plannedEnv_planSite : plannedEnv.PlanSite plannedVolume where
  files := by decide
  paths := by decide
  outside := by
    unfold Env.LiveOutside
    decide
  sizes := sizesFit_of_keys (by decide)
  consented := fun file _ prepared hprepared => by
    rw [plannedEnv_preparedConfig] at hprepared
    cases hprepared

theorem plannedEnv_planStart : plannedEnv.PlanStart plannedVolume :=
  planStart_of_childless (by decide) (by decide)

/-- A prepared plan, snapshots and a final plan of the three files. -/
theorem contentPlan_roundTrip_three :
    ∃ s w, plannedEnv.takeSnapshots .initial ⟨plannedVolume, []⟩ = .done () s w ∧
      ∃ records, plannedEnv.AcceptedPlan true true records
        (plannedEnv.writeContentPlanFile true s ⟨w.disk, []⟩).disk := by
  have hrun : (plannedEnv.takeSnapshots .initial ⟨plannedVolume, []⟩).result = some () := by
    decide +kernel
  have htemporary : (plannedEnv.takeSnapshots .initial ⟨plannedVolume, []⟩).disk.nodeAt
      (plannedEnv.planTemporary true) = none := by
    decide +kernel
  cases hout : plannedEnv.takeSnapshots .initial ⟨plannedVolume, []⟩ with
  | error e s w => simp [hout, Outcome.result] at hrun
  | cut d => simp [hout, Outcome.result] at hrun
  | done a s w =>
      refine ⟨s, w, rfl, ?_⟩
      obtain ⟨prepared, -, -, hfinal, hwritten⟩ :=
        (Env.contentPlan_roundTrip plannedEnv_planSite plannedEnv_planStart).2.2.1 _ .start []
          s w hout
      rw [hout] at htemporary
      obtain ⟨s', w', hdone, hthere⟩ := hwritten fun hnode => by
        have hnone : w.disk.nodeAt (plannedEnv.planTemporary true) = none := htemporary
        rw [hnone] at hnode
        cases hnode
      obtain ⟨records, haccepted, -⟩ := hfinal [] (by rw [hdone]; exact hthere)
      exact ⟨records, haccepted⟩

/-! ## A configuration that already is what it is to become -/

/-- One configuration, prepared from an old one to become another. -/
def consentEnv : Env :=
  { smallEnv [⟨["a.cfg"], .configTemplate, [0]⟩] [] idleBackend with
    request :=
      { smallRequest [⟨["a.cfg"], .configTemplate, [0]⟩] [] with
        preparedConfigs := some
          { entries :=
              [{ path := ["a.cfg"]
                 content := some [2]
                 originalExisted := true
                 originalSize := 1
                 originalSha256 := sha256 [1]
                 preparedSize := 1
                 preparedSha256 := sha256 [2] }]
            manifestSha256 := .ofBytes 32 [5]
            consentSha256 := .ofBytes 32 [6]
            resetRequired := false
            resetApproved := false } } }

/-- The transaction has begun, and the live file is what it is to become. -/
def consentVolume : Volume :=
  (consentEnv.initializeJournal (stepLayout consentEnv.asset) .initial
    ⟨volumeOf [(["a.cfg"], [2])] [[".bmx-update", "transaction", "state"]], []⟩).disk

/-- The volume with its prepared plan. -/
def consentPlanned : Volume :=
  (consentEnv.writeContentPlanFile false .initial ⟨consentVolume, []⟩).disk

/-- The plan that a load has kept. -/
def keptPlan : Outcome InstallerFailure EngineState Volume Unit → Option (List Bool × Bool)
  | .done _ s _ => s.contentPlan
  | _ => none

/-- A resumed transaction accepts the live file, and the plan written for it is
accepted too, but calls the file changed: the record has the digest of the file
consent was given for. -/
theorem contentPlan_roundTrip_fails :
    (consentEnv.validatePreparedConfigs .initial ⟨consentVolume, []⟩).result = some () ∧
      consentPlanned.nodeAt (consentEnv.contentPlanPath false) ≠ none ∧
      ¬∃ records, consentEnv.AcceptedPlan false false records consentPlanned ∧
        consentEnv.Classifies consentVolume records := by
  refine ⟨by decide +kernel, by decide +kernel, ?_⟩
  rintro ⟨records, haccepted, hclassifies⟩
  have hloaded : keptPlan (consentEnv.loadContentPlan false .initial ⟨consentPlanned, []⟩) =
      some ([false], false) := by
    decide +kernel
  obtain ⟨w, hload⟩ := haccepted.load .initial
  rw [hload] at hloaded
  have hbits : records.map (·.noop) = [false] := by
    simpa [keptPlan, Env.loadedState] using hloaded
  obtain ⟨r, hr, hnoop⟩ := hclassifies 0 ⟨["a.cfg"], 1, sha256 [0], .configTemplate⟩ rfl
  have htrue : r.noop = true :=
    hnoop.mpr ⟨by decide, [2], by decide +kernel, by decide +kernel, by decide +kernel⟩
  have hfirst := congrArg (fun bits => bits[0]?) hbits
  simp [hr, htrue] at hfirst

end BmxUpdate
