import BmxUpdate.Config.ConsentBinding
import BmxUpdate.Sha256

/-!
# Consent kept over a retirement

`CaptureRetainedUpdateStateConsentEvidence` and
`ValidateRetainedUpdateStateConsentTransition`
(`update_authorization_adapters.cpp`): retiring an inert transaction may take its two
journals from the boot partition, and nothing else may have changed since the user
confirmed.
-/

namespace BmxUpdate

namespace Authorization

open Wire Http Config

structure RetainedUpdateStateConsentEvidence where
  plan : ConfigMigrationPlan
  buildInfoSha256 : Digest
deriving DecidableEq

inductive RetainedUpdateStateConsentStatus where
  | invalidInput | unexpectedUpdateState | configurationChanged
deriving DecidableEq, Repr

/-- `FindSnapshotArea` -/
def findSnapshotArea (snapshot : ConfigSnapshot) (area : ConfigArea) : Option ConfigAreaSnapshot :=
  if snapshot.length ≠ kConfigMigrationAreaCount then none
  else
    match snapshot.filter (·.area = area) with
    | [found] => some found
    | _ => none

/-- `FindPlanArea` -/
def findPlanArea (plan : ConfigMigrationPlan) (area : ConfigArea) : Option ConfigAreaAssessment :=
  if plan.areas.length ≠ kConfigMigrationAreaCount then none
  else
    match plan.areas.filter (·.area = area) with
    | [found] => some found
    | _ => none

/-- `SameAssessment` -/
def sameAssessment (left right : ConfigAreaAssessment) (compareContent : Bool) : Bool :=
  left.area = right.area && left.detection = right.detection &&
    left.sourceVersion = right.sourceVersion && left.targetVersion = right.targetVersion &&
    left.classification = right.classification && left.migrationId = right.migrationId &&
    (!compareContent || left.sourceContentSha256 = right.sourceContentSha256)

/-- `SamePlanShape` -/
def samePlanShape (left right : ConfigMigrationPlan) : Bool :=
  left.areas.length = right.areas.length && left.decision = right.decision &&
    left.compatibleCount = right.compatibleCount && left.migrationCount = right.migrationCount &&
    left.resetCount = right.resetCount && left.blockedCount = right.blockedCount

/-- What the loop of `HashBuildInfo` has met. -/
structure UpdateStateFiles where
  build : Option Bytes
  journalA : Bool
  journalB : Bool
deriving DecidableEq, Repr

/-- The loop of `HashBuildInfo`; `none` is a file met twice or an unexpected one. -/
def scanUpdateState : UpdateStateFiles → List ConfigFileView → Option UpdateStateFiles
  | met, [] => some met
  | met, file :: rest =>
      if file.path = buildInfoPath then
        if met.build.isSome then none
        else scanUpdateState { met with build := some file.content } rest
      else if file.path = journalPathA then
        if met.journalA then none else scanUpdateState { met with journalA := true } rest
      else if file.path = journalPathB then
        if met.journalB then none else scanUpdateState { met with journalB := true } rest
      else none

inductive UpdateStateSnapshotStatus where
  | invalid | journalPresent
deriving DecidableEq, Repr

/-- `HashBuildInfo` -/
def hashBuildInfo (hash : Bytes → Digest) (snapshot : ConfigSnapshot)
    (requireJournalsAbsent : Bool) : Except UpdateStateSnapshotStatus Digest :=
  match findSnapshotArea snapshot .updateState with
  | none => .error .invalid
  | some area =>
      if area.files = [] ∨ 3 < area.files.length then .error .invalid
      else
        match scanUpdateState ⟨none, false, false⟩ area.files with
        | none => .error .invalid
        | some met =>
            match met.build with
            | none => .error .invalid
            | some content =>
                if requireJournalsAbsent = true ∧ (met.journalA = true ∨ met.journalB = true) then
                  .error .journalPresent
                else .ok (hash content)

/-- `CaptureRetainedUpdateStateConsentEvidence` -/
def captureRetainedUpdateStateConsentEvidence (hash : Bytes → Digest) (snapshot : ConfigSnapshot)
    (plan : ConfigMigrationPlan) :
    Except RetainedUpdateStateConsentStatus RetainedUpdateStateConsentEvidence :=
  if planIsInstallable plan = false then .error .invalidInput
  else
    match hashBuildInfo hash snapshot false with
    | .error _ => .error .unexpectedUpdateState
    | .ok digest => .ok ⟨plan, digest⟩

/-- The comparison of one area in `ValidateRetainedUpdateStateConsentTransition`. -/
def areaRetained (before after : ConfigMigrationPlan) (area : ConfigArea) : Bool :=
  match findPlanArea before area, findPlanArea after area with
  | some left, some right => sameAssessment left right (area ≠ .updateState)
  | _, _ => false

/-- `ValidateRetainedUpdateStateConsentTransition` -/
def validateRetainedUpdateStateConsentTransition (hash : Bytes → Digest)
    (before : RetainedUpdateStateConsentEvidence) (afterSnapshot : ConfigSnapshot)
    (afterPlan : ConfigMigrationPlan) : Except RetainedUpdateStateConsentStatus Unit :=
  if planIsInstallable before.plan = false ∨ planIsInstallable afterPlan = false ∨
      samePlanShape before.plan afterPlan = false then
    .error .configurationChanged
  else if (knownAreas.all fun area => areaRetained before.plan afterPlan area) = false then
    .error .configurationChanged
  else
    match hashBuildInfo hash afterSnapshot true with
    | .error _ => .error .unexpectedUpdateState
    | .ok digest =>
        if before.buildInfoSha256 ≠ digest then .error .configurationChanged else .ok ()

/-! ## Unique areas -/

theorem filter_eq_singleton {α β : Type} [DecidableEq β] {key : α → β} {list : List α}
    (hdistinct : (list.map key).Nodup) {a : α} (ha : a ∈ list) :
    (list.filter fun b => key b = key a) = [a] := by
  induction list with
  | nil => cases ha
  | cons b rest ih =>
      rw [List.map_cons, List.nodup_cons] at hdistinct
      rcases List.mem_cons.mp ha with rfl | ha
      · have hrest : (rest.filter fun b => key b = key a) = [] := by
          rw [List.filter_eq_nil_iff]
          intro c hc hkey
          exact hdistinct.1 (by
            rw [← of_decide_eq_true hkey]
            exact List.mem_map_of_mem hc)
        rw [List.filter_cons_of_pos (by simp), hrest]
      · have hne : key b ≠ key a := fun hkey =>
          hdistinct.1 (hkey ▸ List.mem_map_of_mem ha)
        rw [List.filter_cons_of_neg (by simpa using hne), ih hdistinct.2 ha]

theorem findSnapshotArea_eq {snapshot : ConfigSnapshot} (hfits : SnapshotFits snapshot)
    {area : ConfigArea} {source : ConfigAreaSnapshot} (h : findArea snapshot area = some source) :
    findSnapshotArea snapshot area = some source := by
  obtain ⟨hin, rfl⟩ := (findArea_eq_some hfits.distinct).mp h
  have hone := filter_eq_singleton hfits.distinct hin
  rw [findSnapshotArea, if_neg (by simp [hfits.count]), hone]

theorem area_of_assessed {hash : Bytes → Digest} {snapshot : ConfigSnapshot}
    {requirements : List ConfigSchemaRequirement} {migrations : List DeclaredConfigMigration}
    {area : ConfigArea} {assessment : ConfigAreaAssessment} (hfits : SnapshotFits snapshot)
    (h : Assessed hash snapshot requirements migrations area assessment) :
    assessment.area = area := by
  obtain ⟨source, requirement, hsource, -, rfl⟩ := h
  exact ((findArea_eq_some hfits.distinct).mp hsource).2

theorem areas_of_assessed {hash : Bytes → Digest} {snapshot : ConfigSnapshot}
    {requirements : List ConfigSchemaRequirement} {migrations : List DeclaredConfigMigration}
    {plan : ConfigMigrationPlan} (h : PlanFits hash snapshot requirements migrations plan) :
    plan.areas.map (·.area) = knownAreas := by
  have hareas : List.Forall₂ (fun area assessment => area = assessment.area) knownAreas
      plan.areas :=
    h.areas.imp fun area assessment hassessed => (area_of_assessed h.accepted hassessed).symm
  exact (List.forall₂_eq_eq_eq ▸ (List.forall₂_map_right_iff.mpr hareas) :
    knownAreas = plan.areas.map (·.area)).symm

/-- Each area has its assessment in a plan. -/
theorem findPlanArea_assessed {hash : Bytes → Digest} {snapshot : ConfigSnapshot}
    {requirements : List ConfigSchemaRequirement} {migrations : List DeclaredConfigMigration}
    {plan : ConfigMigrationPlan} (h : PlanFits hash snapshot requirements migrations plan)
    {area : ConfigArea} (harea : area ∈ knownAreas) :
    ∃ assessment, findPlanArea plan area = some assessment ∧ assessment ∈ plan.areas ∧
      Assessed hash snapshot requirements migrations area assessment := by
  obtain ⟨assessment, hin, hassessed⟩ := (exists_of_forall₂ h.areas).1 area harea
  have hkey := area_of_assessed h.accepted hassessed
  have hdistinct : (plan.areas.map (·.area)).Nodup := by
    rw [areas_of_assessed h]
    decide
  have hlength : plan.areas.length = kConfigMigrationAreaCount := by
    rw [← List.length_map (f := fun assessment : ConfigAreaAssessment => assessment.area),
      areas_of_assessed h]
    rfl
  have hone := filter_eq_singleton hdistinct hin
  rw [hkey] at hone
  refine ⟨assessment, ?_, hin, hassessed⟩
  rw [findPlanArea, if_neg (by simp [hlength]), hone]

/-! ## The build info -/

/-- The files of the update state. -/
def updateStatePaths : List Bytes := [buildInfoPath, journalPathA, journalPathB]

theorem path_mem_updateStatePaths {file : ConfigFileView}
    (h : FileFits .updateState file) : file.path ∈ updateStatePaths := by
  have hbelongs := h.belongs
  simp only [pathBelongsToArea, Bool.and_eq_true, Bool.or_eq_true, decide_eq_true_eq] at hbelongs
  simpa [updateStatePaths, or_assoc] using hbelongs.2

theorem paths_ne : buildInfoPath ≠ journalPathA ∧ buildInfoPath ≠ journalPathB ∧
    journalPathA ≠ journalPathB := by
  decide

/-- The content of the build info among some files. -/
def buildContent (files : List ConfigFileView) : Option Bytes :=
  (files.find? fun file => file.path = buildInfoPath).map (·.content)

theorem scanUpdateState_eq (files : List ConfigFileView) :
    ∀ met : UpdateStateFiles, (files.map (·.path)).Nodup →
      (∀ file ∈ files, file.path ∈ updateStatePaths) →
      (met.build.isSome = true → ∀ file ∈ files, file.path ≠ buildInfoPath) →
      (met.journalA = true → ∀ file ∈ files, file.path ≠ journalPathA) →
      (met.journalB = true → ∀ file ∈ files, file.path ≠ journalPathB) →
      scanUpdateState met files = some ⟨met.build.or (buildContent files),
        met.journalA || files.any (·.path = journalPathA),
        met.journalB || files.any (·.path = journalPathB)⟩ := by
  obtain ⟨hba, hbb, hab⟩ := paths_ne
  induction files with
  | nil =>
      intro met _ _ _ _ _
      simp [scanUpdateState, buildContent]
  | cons file rest ih =>
      intro met hpaths hknown hbuild hjournalA hjournalB
      rw [List.map_cons, List.nodup_cons] at hpaths
      have hfresh : ∀ other ∈ rest, other.path ≠ file.path := fun other hother hpath =>
        hpaths.1 (hpath ▸ List.mem_map_of_mem hother)
      have hrest : ∀ other ∈ rest, other.path ∈ updateStatePaths :=
        fun other hother => hknown other (List.mem_cons_of_mem _ hother)
      have hpath := hknown file (by simp)
      simp only [updateStatePaths, List.mem_cons, List.not_mem_nil, or_false] at hpath
      unfold scanUpdateState
      rcases hpath with hpath | hpath | hpath
      · have hnone : met.build = none := by
          cases hmet : met.build with
          | none => rfl
          | some content => exact absurd hpath (hbuild (by simp [hmet]) file (by simp))
        rw [if_pos hpath, hnone, if_neg (by simp),
          ih ⟨some file.content, met.journalA, met.journalB⟩ hpaths.2 hrest
          (fun _ => hpath ▸ hfresh)
          (fun hmet other hother => hjournalA hmet other (List.mem_cons_of_mem _ hother))
          (fun hmet other hother => hjournalB hmet other (List.mem_cons_of_mem _ hother))]
        simp [buildContent, hpath, hba, hbb]
      · have hnone : met.journalA = false := by
          cases hmet : met.journalA with
          | false => rfl
          | true => exact absurd hpath (hjournalA hmet file (by simp))
        rw [if_neg (by rw [hpath]; exact hba.symm), if_pos hpath, hnone, if_neg (by simp),
          ih ⟨met.build, true, met.journalB⟩ hpaths.2 hrest
            (fun hmet other hother => hbuild hmet other (List.mem_cons_of_mem _ hother))
            (fun _ => hpath ▸ hfresh)
            (fun hmet other hother => hjournalB hmet other (List.mem_cons_of_mem _ hother))]
        simp [buildContent, hpath, hba.symm, hab]
      · have hnone : met.journalB = false := by
          cases hmet : met.journalB with
          | false => rfl
          | true => exact absurd hpath (hjournalB hmet file (by simp))
        rw [if_neg (by rw [hpath]; exact hbb.symm), if_neg (by rw [hpath]; exact hab.symm),
          if_pos hpath, hnone, if_neg (by simp),
          ih ⟨met.build, met.journalA, true⟩ hpaths.2 hrest
            (fun hmet other hother => hbuild hmet other (List.mem_cons_of_mem _ hother))
            (fun hmet other hother => hjournalA hmet other (List.mem_cons_of_mem _ hother))
            (fun _ => hpath ▸ hfresh)]
        simp [buildContent, hpath, hbb.symm, hab.symm]

theorem buildContent_eq_some {files : List ConfigFileView} {content : Bytes}
    (hpaths : (files.map (·.path)).Nodup) :
    buildContent files = some content ↔ ⟨buildInfoPath, content⟩ ∈ files := by
  rw [buildContent, Option.map_eq_some_iff]
  constructor
  · intro h
    obtain ⟨file, hfile, rfl⟩ := h
    have hpath : file.path = buildInfoPath := by simpa using List.find?_some hfile
    rw [← hpath]
    exact List.mem_of_find?_eq_some hfile
  · intro h
    cases hfind : files.find? fun file => file.path = buildInfoPath with
    | none =>
        rw [List.find?_eq_none] at hfind
        exact absurd (decide_eq_true rfl) (hfind _ h)
    | some file =>
        have hpath : file.path = buildInfoPath := by simpa using List.find?_some hfind
        have hsame := List.inj_on_of_nodup_map hpaths (List.mem_of_find?_eq_some hfind) h hpath
        exact ⟨file, rfl, by rw [hsame]⟩

/-- There is neither journal among some files. -/
def NoJournals (files : List ConfigFileView) : Prop :=
  ∀ file ∈ files, file.path ≠ journalPathA ∧ file.path ≠ journalPathB

theorem files_length_le {source : ConfigAreaSnapshot} (hfits : AreaFits source)
    (harea : source.area = .updateState) : source.files.length ≤ 3 := by
  have hsub : source.files.map (·.path) ⊆ updateStatePaths := by
    intro path hpath
    obtain ⟨file, hfile, rfl⟩ := List.mem_map.mp hpath
    exact path_mem_updateStatePaths (harea ▸ hfits.files file hfile)
  have hlength := (List.subperm_of_subset hfits.paths hsub).length_le
  rwa [List.length_map] at hlength

/-- `HashBuildInfo` hashes the one build info, and refuses the journals where it is told
to. -/
theorem hashBuildInfo_eq_ok {hash : Bytes → Digest} {snapshot : ConfigSnapshot}
    {source : ConfigAreaSnapshot} {requireJournalsAbsent : Bool} {digest : Digest}
    (hfits : SnapshotFits snapshot) (h : findArea snapshot .updateState = some source) :
    hashBuildInfo hash snapshot requireJournalsAbsent = .ok digest ↔
      ∃ content, ⟨buildInfoPath, content⟩ ∈ source.files ∧ digest = hash content ∧
        (requireJournalsAbsent = true → NoJournals source.files) := by
  obtain ⟨hin, harea⟩ := (findArea_eq_some hfits.distinct).mp h
  have hsource := hfits.areas source hin
  have hlength := files_length_le hsource harea
  have hscan := scanUpdateState_eq source.files ⟨none, false, false⟩ hsource.paths
    (fun file hfile => path_mem_updateStatePaths (harea ▸ hsource.files file hfile))
    (by simp) (by simp) (by simp)
  have hjournals : ((source.files.any fun file => file.path = journalPathA) = true ∨
      (source.files.any fun file => file.path = journalPathB) = true) ↔
        ¬ NoJournals source.files := by
    simp only [List.any_eq_true, decide_eq_true_eq, NoJournals, not_forall, not_and_or,
      not_not]
    constructor
    · intro h
      rcases h with ⟨file, hfile, hpath⟩ | ⟨file, hfile, hpath⟩
      · exact ⟨file, hfile, Or.inl hpath⟩
      · exact ⟨file, hfile, Or.inr hpath⟩
    · intro h
      obtain ⟨file, hfile, hpath | hpath⟩ := h
      · exact Or.inl ⟨file, hfile, hpath⟩
      · exact Or.inr ⟨file, hfile, hpath⟩
  unfold hashBuildInfo
  rw [findSnapshotArea_eq hfits h]
  dsimp only
  by_cases hempty : source.files = []
  · rw [if_pos (Or.inl hempty)]
    simp [hempty]
  rw [if_neg (by simp [hempty]; omega), hscan]
  dsimp only
  rw [Option.none_or]
  cases hbuild : buildContent source.files with
  | none =>
      have hnone : ¬ ∃ content, ⟨buildInfoPath, content⟩ ∈ source.files := by
        intro hex
        obtain ⟨content, hcontent⟩ := hex
        rw [← buildContent_eq_some hsource.paths, hbuild] at hcontent
        cases hcontent
      constructor
      · nofun
      · intro hex
        obtain ⟨content, hcontent, -⟩ := hex
        exact absurd ⟨content, hcontent⟩ hnone
  | some content =>
      have hcontent := (buildContent_eq_some hsource.paths).mp hbuild
      dsimp only
      simp only [Bool.false_or]
      constructor
      · intro hok
        split at hok
        · cases hok
        rename_i hallowed
        rw [hjournals] at hallowed
        cases hok
        exact ⟨content, hcontent, rfl, fun hrequire => by
          by_contra hnot
          exact hallowed ⟨hrequire, hnot⟩⟩
      · intro hex
        obtain ⟨content', hcontent', rfl, hnone⟩ := hex
        rw [← buildContent_eq_some hsource.paths, hbuild, Option.some.injEq] at hcontent'
        rw [if_neg, hcontent']
        rw [hjournals]
        exact fun hrefuse => hrefuse.2 (hnone hrefuse.1)

/-! ## Nothing else has changed -/

/-- The after-state is the before-state without its journals. -/
structure Retained (before after : ConfigSnapshot) (beforePlan afterPlan : ConfigMigrationPlan) :
    Prop where
  files : ∀ area ∈ knownAreas, area ≠ .updateState →
    ∀ file, file ∈ areaFiles before area ↔ file ∈ areaFiles after area
  buildInfo : ∃ content, ⟨buildInfoPath, content⟩ ∈ areaFiles before .updateState ∧
    areaFiles after .updateState = [⟨buildInfoPath, content⟩]
  assessments : List.Forall₂ (fun left right => left.area = right.area ∧
    left.detection = right.detection ∧ left.sourceVersion = right.sourceVersion ∧
    left.targetVersion = right.targetVersion ∧ left.classification = right.classification ∧
    left.migrationId = right.migrationId) beforePlan.areas afterPlan.areas
  installable : planIsInstallable beforePlan = true ∧ planIsInstallable afterPlan = true
  shape : samePlanShape beforePlan afterPlan = true

/-- What is hashed of a snapshot for the evidence and the plan. -/
def retainedTexts (snapshot : ConfigSnapshot) : List Bytes :=
  snapshot.map encodeArea ++ (buildContent (areaFiles snapshot .updateState)).toList

theorem sameAssessment_iff {left right : ConfigAreaAssessment} {compareContent : Bool} :
    sameAssessment left right compareContent = true ↔
      left.area = right.area ∧ left.detection = right.detection ∧
        left.sourceVersion = right.sourceVersion ∧ left.targetVersion = right.targetVersion ∧
        left.classification = right.classification ∧ left.migrationId = right.migrationId ∧
        (compareContent = true → left.sourceContentSha256 = right.sourceContentSha256) := by
  simp only [sameAssessment, Bool.and_eq_true, decide_eq_true_eq, Bool.or_eq_true,
    Bool.not_eq_true']
  cases compareContent <;> simp [and_assoc]

/-- Two plans have their areas in one order. -/
theorem forall₂_areas {R : ConfigAreaAssessment → ConfigAreaAssessment → Prop}
    {areas : List ConfigArea} :
    ∀ {left right : List ConfigAreaAssessment}, left.map (·.area) = areas →
      right.map (·.area) = areas → areas.Nodup →
      (∀ area ∈ areas, ∃ a b, a ∈ left ∧ b ∈ right ∧ a.area = area ∧ b.area = area ∧ R a b) →
      List.Forall₂ R left right := by
  induction areas with
  | nil =>
      intro left right hleft hright _ _
      rw [List.map_eq_nil_iff.mp hleft, List.map_eq_nil_iff.mp hright]
      exact .nil
  | cons area rest ih =>
      intro left right hleft hright hdistinct h
      have hleftDistinct : (left.map (·.area)).Nodup := hleft ▸ hdistinct
      have hrightDistinct : (right.map (·.area)).Nodup := hright ▸ hdistinct
      obtain ⟨a, lefts, rfl, ha, hlefts⟩ := List.map_eq_cons_iff.mp hleft
      obtain ⟨b, rights, rfl, hb, hrights⟩ := List.map_eq_cons_iff.mp hright
      rw [List.nodup_cons] at hdistinct
      refine .cons ?_ (ih hlefts hrights hdistinct.2 ?_)
      · obtain ⟨a', b', ha', hb', harea, harea', hR⟩ := h area (by simp)
        rw [List.inj_on_of_nodup_map hleftDistinct ha' (by simp) (harea.trans ha.symm),
          List.inj_on_of_nodup_map hrightDistinct hb' (by simp) (harea'.trans hb.symm)] at hR
        exact hR
      · intro other hother
        obtain ⟨a', b', ha', hb', harea, harea', hR⟩ :=
          h other (List.mem_cons_of_mem _ hother)
        have hne : other ≠ area := fun hsame => hdistinct.1 (hsame ▸ hother)
        refine ⟨a', b', ?_, ?_, harea, harea', hR⟩
        · rcases List.mem_cons.mp ha' with rfl | ha'
          · exact absurd (harea.symm.trans ha) hne
          · exact ha'
        · rcases List.mem_cons.mp hb' with rfl | hb'
          · exact absurd (harea'.symm.trans hb) hne
          · exact hb'

section Sound

variable {hash : Bytes → Digest} {before after : ConfigSnapshot}
  {requirements requirements' : List ConfigSchemaRequirement}
  {migrations migrations' : List DeclaredConfigMigration}
  {beforePlan afterPlan : ConfigMigrationPlan} {evidence : RetainedUpdateStateConsentEvidence}

/-- With no journals there is only the build info. -/
theorem files_eq_build {source : ConfigAreaSnapshot} {content : Bytes} (hfits : AreaFits source)
    (harea : source.area = .updateState) (hbuild : ⟨buildInfoPath, content⟩ ∈ source.files)
    (hnone : NoJournals source.files) : source.files = [⟨buildInfoPath, content⟩] := by
  have hall : ∀ file ∈ source.files, file = ⟨buildInfoPath, content⟩ := by
    intro file hfile
    have hpath := path_mem_updateStatePaths (harea ▸ hfits.files file hfile)
    simp only [updateStatePaths, List.mem_cons, List.not_mem_nil, or_false] at hpath
    rcases hpath with hpath | hpath | hpath
    · exact List.inj_on_of_nodup_map hfits.paths hfile hbuild hpath
    · exact absurd hpath (hnone file hfile).1
    · exact absurd hpath (hnone file hfile).2
  rw [List.eq_replicate_of_mem hall]
  have hnodup : source.files.Nodup := hfits.paths.of_map
  rw [List.eq_replicate_of_mem hall, List.nodup_replicate] at hnodup
  have hpos := List.length_pos_of_mem hbuild
  rw [show source.files.length = 1 by omega]
  rfl

theorem buildContent_mem_retainedTexts {snapshot : ConfigSnapshot} {source : ConfigAreaSnapshot}
    {content : Bytes} (hfits : AreaFits source)
    (h : findArea snapshot .updateState = some source)
    (hbuild : ⟨buildInfoPath, content⟩ ∈ source.files) : content ∈ retainedTexts snapshot := by
  apply List.mem_append_right
  rw [areaFiles_eq h, (buildContent_eq_some hfits.paths).mpr hbuild]
  simp

theorem encodeArea_mem_retainedTexts {snapshot : ConfigSnapshot} {area : ConfigArea}
    {source : ConfigAreaSnapshot} (h : findArea snapshot area = some source) :
    encodeArea source ∈ retainedTexts snapshot :=
  List.mem_append_left _ (List.mem_map_of_mem (List.mem_of_find?_eq_some h))

/-- Where both sides accept, only the journals differ. -/
theorem retained_of_validate
    (hbefore : assessConfigSnapshot hash before requirements migrations = .ok beforePlan)
    (hafter : assessConfigSnapshot hash after requirements' migrations' = .ok afterPlan)
    (hcapture : captureRetainedUpdateStateConsentEvidence hash before beforePlan = .ok evidence)
    (hvalidate : validateRetainedUpdateStateConsentTransition hash evidence after afterPlan =
      .ok ())
    (hfree : CollisionFree hash (retainedTexts before ++ retainedTexts after)) :
    Retained before after beforePlan afterPlan := by
  have hfits := assessConfigSnapshot_fits hbefore
  have hfits' := assessConfigSnapshot_fits hafter
  unfold captureRetainedUpdateStateConsentEvidence at hcapture
  split at hcapture
  · cases hcapture
  rename_i hinstallable
  split at hcapture
  · cases hcapture
  rename_i digest hdigest
  cases hcapture
  unfold validateRetainedUpdateStateConsentTransition at hvalidate
  dsimp only at hvalidate
  split at hvalidate
  · cases hvalidate
  rename_i hplans
  split at hvalidate
  · cases hvalidate
  rename_i hareas
  split at hvalidate
  · cases hvalidate
  rename_i digest' hdigest'
  split at hvalidate
  · cases hvalidate
  rename_i hsameDigest
  simp only [not_or, Bool.not_eq_false] at hplans
  rw [Bool.not_eq_false, List.all_eq_true] at hareas
  rw [not_not] at hsameDigest
  -- The comparison of each area, on the assessments of that area.
  have hcompared : ∀ area ∈ knownAreas, ∃ a b, a ∈ beforePlan.areas ∧ b ∈ afterPlan.areas ∧
      Assessed hash before requirements migrations area a ∧
      Assessed hash after requirements' migrations' area b ∧
      sameAssessment a b (area ≠ .updateState) = true := by
    intro area harea
    obtain ⟨a, hfind, hin, hassessed⟩ := findPlanArea_assessed hfits harea
    obtain ⟨b, hfind', hin', hassessed'⟩ := findPlanArea_assessed hfits' harea
    have hretained := hareas area harea
    rw [areaRetained, hfind, hfind'] at hretained
    exact ⟨a, b, hin, hin', hassessed, hassessed', hretained⟩
  have hstate := (exists_of_forall₂ hfits.areas).1 .updateState (by decide)
  obtain ⟨-, -, source, -, hsource, -, -⟩ := hstate
  have hstate' := (exists_of_forall₂ hfits'.areas).1 .updateState (by decide)
  obtain ⟨-, -, source', -, hsource', -, -⟩ := hstate'
  obtain ⟨content, hcontent, rfl, -⟩ := (hashBuildInfo_eq_ok hfits.accepted hsource).mp hdigest
  obtain ⟨content', hcontent', rfl, hnone⟩ :=
    (hashBuildInfo_eq_ok hfits'.accepted hsource').mp hdigest'
  obtain ⟨hin, hupdate⟩ := (findArea_eq_some hfits.accepted.distinct).mp hsource
  obtain ⟨hin', hupdate'⟩ := (findArea_eq_some hfits'.accepted.distinct).mp hsource'
  have hsourceFits := hfits.accepted.areas source hin
  have hsourceFits' := hfits'.accepted.areas source' hin'
  have hbytes := hfree content
    (List.mem_append_left _ (buildContent_mem_retainedTexts hsourceFits hsource hcontent))
    content'
    (List.mem_append_right _ (buildContent_mem_retainedTexts hsourceFits' hsource' hcontent'))
    hsameDigest
  refine ⟨?_, ⟨content, ?_, ?_⟩, ?_, ⟨hplans.1, hplans.2.1⟩, hplans.2.2⟩
  · intro area harea hother file
    obtain ⟨a, b, -, -, hassessed, hassessed', hsame⟩ := hcompared area harea
    obtain ⟨left, requirement, hleft, -, rfl⟩ := hassessed
    obtain ⟨right, requirement', hright, -, rfl⟩ := hassessed'
    rw [sameAssessment_iff] at hsame
    have hhash : hash (encodeArea left) = hash (encodeArea right) :=
      hsame.2.2.2.2.2.2 (by simpa using hother)
    have hencode := hfree _ (List.mem_append_left _ (encodeArea_mem_retainedTexts hleft))
      _ (List.mem_append_right _ (encodeArea_mem_retainedTexts hright)) hhash
    have hinLeft := ((findArea_eq_some hfits.accepted.distinct).mp hleft).1
    have hinRight := ((findArea_eq_some hfits'.accepted.distinct).mp hright).1
    rw [areaFiles_eq hleft, areaFiles_eq hright]
    exact ((encodeArea_eq_iff (hfits.accepted.areas left hinLeft)
      (hfits'.accepted.areas right hinRight)).mp hencode).2.mem_iff
  · rw [areaFiles_eq hsource]
    exact hcontent
  · rw [areaFiles_eq hsource', files_eq_build hsourceFits' hupdate' hcontent' (hnone rfl), hbytes]
  · apply forall₂_areas (areas_of_assessed hfits) (areas_of_assessed hfits') (by decide)
    intro area harea
    obtain ⟨a, b, ha, hb, hassessed, hassessed', hsame⟩ := hcompared area harea
    rw [sameAssessment_iff] at hsame
    have hkey := area_of_assessed hfits.accepted hassessed
    exact ⟨a, b, ha, hb, hkey, hsame.1.symm.trans hkey, hsame.1, hsame.2.1, hsame.2.2.1,
      hsame.2.2.2.1, hsame.2.2.2.2.1, hsame.2.2.2.2.2.1⟩

end Sound

/-! ## Taking the journals away -/

/-- A file that is not a journal. -/
def notJournal (file : ConfigFileView) : Bool :=
  file.path ≠ journalPathA && file.path ≠ journalPathB

/-- The area without the journals, if it is the update state. -/
def dropAreaJournals (area : ConfigAreaSnapshot) : ConfigAreaSnapshot :=
  if area.area = .updateState then ⟨area.area, area.files.filter notJournal⟩ else area

/-- The snapshot without the two journals. -/
def dropJournals (snapshot : ConfigSnapshot) : ConfigSnapshot := snapshot.map dropAreaJournals

@[simp] theorem dropAreaJournals_area (area : ConfigAreaSnapshot) :
    (dropAreaJournals area).area = area.area := by
  unfold dropAreaJournals
  split <;> rfl

theorem dropAreaJournals_of_ne {area : ConfigAreaSnapshot} (h : area.area ≠ .updateState) :
    dropAreaJournals area = area := if_neg h

theorem dropAreaJournals_files {area : ConfigAreaSnapshot} (h : area.area = .updateState) :
    (dropAreaJournals area).files = area.files.filter notJournal := by
  rw [dropAreaJournals, if_pos h]

theorem files_sublist (area : ConfigAreaSnapshot) :
    (dropAreaJournals area).files.Sublist area.files := by
  unfold dropAreaJournals
  split
  · exact List.filter_sublist
  · exact List.Sublist.refl _

theorem contentBytes_le {files files' : List ConfigFileView} (h : files.Sublist files') :
    contentBytes files ≤ contentBytes files' := by
  unfold contentBytes
  induction h with
  | slnil => exact le_rfl
  | cons file _ ih =>
      rw [List.map_cons, List.sum_cons]
      omega
  | cons_cons file _ ih =>
      rw [List.map_cons, List.map_cons, List.sum_cons, List.sum_cons]
      omega

theorem areaFits_dropAreaJournals {area : ConfigAreaSnapshot} (h : AreaFits area) :
    AreaFits (dropAreaJournals area) where
  known := by simpa using h.known
  count := (files_sublist area).length_le.trans h.count
  files := fun file hfile => by
    rw [dropAreaJournals_area]
    exact h.files file ((files_sublist area).subset hfile)
  paths := h.paths.sublist ((files_sublist area).map _)
  size := (contentBytes_le (files_sublist area)).trans h.size

theorem dropJournals_areas (snapshot : ConfigSnapshot) :
    (dropJournals snapshot).map (·.area) = snapshot.map (·.area) := by
  rw [dropJournals, List.map_map]
  exact List.map_congr_left fun area _ => dropAreaJournals_area area

theorem snapshotFits_dropJournals {snapshot : ConfigSnapshot} (h : SnapshotFits snapshot) :
    SnapshotFits (dropJournals snapshot) where
  count := by simpa [dropJournals] using h.count
  areas := by
    intro area harea
    obtain ⟨source, hsource, rfl⟩ := List.mem_map.mp harea
    exact areaFits_dropAreaJournals (h.areas source hsource)
  distinct := by
    rw [dropJournals_areas]
    exact h.distinct
  complete := by
    intro area harea
    obtain ⟨source, hsource, rfl⟩ := h.complete area harea
    exact ⟨_, List.mem_map_of_mem hsource, dropAreaJournals_area source⟩

theorem findArea_dropJournals {snapshot : ConfigSnapshot} {area : ConfigArea}
    {source : ConfigAreaSnapshot} (hfits : SnapshotFits snapshot)
    (h : findArea snapshot area = some source) :
    findArea (dropJournals snapshot) area = some (dropAreaJournals source) := by
  obtain ⟨hin, rfl⟩ := (findArea_eq_some hfits.distinct).mp h
  exact (findArea_eq_some (snapshotFits_dropJournals hfits).distinct).mpr
    ⟨List.mem_map_of_mem hin, dropAreaJournals_area source⟩

/-! ### Detection without the journals -/

theorem notJournal_of_build {file : ConfigFileView} (h : file.path = buildInfoPath) :
    notJournal file = true := by
  obtain ⟨hba, hbb, -⟩ := paths_ne
  simp [notJournal, h, hba, hbb]

theorem filter_build (files : List ConfigFileView) :
    ((files.filter notJournal).filter fun file => file.path = buildInfoPath) =
      files.filter fun file => file.path = buildInfoPath := by
  rw [List.filter_filter]
  apply List.filter_congr
  intro file _
  by_cases hpath : file.path = buildInfoPath
  · simp [hpath, notJournal_of_build hpath]
  · simp [hpath]

theorem lastContent_filter {files : List ConfigFileView} {path : Bytes}
    (h : path = journalPathA ∨ path = journalPathB) :
    lastContent (files.filter notJournal) path = none := by
  have hnone : ((files.filter notJournal).filter fun file => file.path = path) = [] := by
    rw [List.filter_eq_nil_iff]
    intro file hfile hpath
    have hkept := (List.mem_filter.mp hfile).2
    rw [notJournal, of_decide_eq_true hpath] at hkept
    rcases h with rfl | rfl <;> simp at hkept
  rw [lastContent, hnone]
  rfl

/-- The update state is found as before when its journals are gone. -/
theorem detectUpdateState_filter {area : ConfigAreaSnapshot}
    (hvalid : (detectUpdateState area).detail = .valid) :
    detectUpdateState ⟨area.area, area.files.filter notJournal⟩ = detectUpdateState area := by
  unfold detectUpdateState at hvalid ⊢
  dsimp only
  rw [filter_build, lastContent_filter (Or.inl rfl), lastContent_filter (Or.inr rfl)]
  split at hvalid
  · cases hvalid
  rename_i hfiles
  rw [if_neg hfiles]
  split at hvalid
  · cases hvalid
  · rename_i build hbuild
    have hkept : area.files.filter notJournal ≠ [] := by
      intro hnil
      have hfilter := filter_build area.files
      rw [hnil, hbuild] at hfilter
      cases hfilter
    rw [if_neg hkept]
    cases hversion : buildInfoStateVersion build.content with
    | error detail => rfl
    | ok version =>
        rw [hversion] at hvalid
        dsimp only at hvalid ⊢
        split at hvalid
        · cases hvalid
        · rename_i hjournals
          rw [if_neg hjournals, if_neg (by simp)]
  · cases hvalid

theorem detectArea_updateState {area : ConfigAreaSnapshot} (h : area.area = .updateState) :
    detectArea area = detectUpdateState area := by
  unfold detectArea
  rw [h]

/-- An area that can be installed over is found as before when its journals are gone. -/
theorem detectArea_dropAreaJournals {area : ConfigAreaSnapshot}
    (hfound : Detected (detectArea area))
    (hfiles : area.area = .updateState → area.files ≠ []) :
    detectArea (dropAreaJournals area) = detectArea area := by
  by_cases hupdate : area.area = .updateState
  · have hvalid : (detectArea area).detail = .valid := by
      rcases hfound with hvalid | hmissing
      · exact hvalid
      · exact absurd ((detectArea_fits area).missing hmissing) (hfiles hupdate)
    rw [detectArea_updateState hupdate] at hvalid
    rw [detectArea_updateState hupdate, detectArea_updateState (by simpa using hupdate),
      dropAreaJournals, if_pos hupdate]
    exact detectUpdateState_filter hvalid
  · rw [dropAreaJournals_of_ne hupdate]

/-! ### The plan without the journals -/

/-- Two assessments that agree but for the content of the update state. -/
def Agrees (left right : ConfigAreaAssessment) : Prop :=
  sameAssessment left right (left.area ≠ .updateState) = true

theorem Agrees.classification {left right : ConfigAreaAssessment} (h : Agrees left right) :
    left.classification = right.classification :=
  (sameAssessment_iff.mp h).2.2.2.2.1

theorem countP_agrees {left right : List ConfigAreaAssessment} (h : List.Forall₂ Agrees left right)
    (classification : ConfigClassification) :
    left.countP (·.classification = classification) =
      right.countP (·.classification = classification) := by
  induction h with
  | nil => rfl
  | cons hab _ ih => rw [List.countP_cons, List.countP_cons, ih, hab.classification]

theorem samePlanShape_of_agrees {left right : List ConfigAreaAssessment}
    (h : List.Forall₂ Agrees left right) (hleft : ∀ area ∈ left, Installable area)
    (hright : ∀ area ∈ right, Installable area) :
    samePlanShape (recomputePlanDecision left) (recomputePlanDecision right) = true := by
  have htally := tally_recomputePlanDecision hleft
  have htally' := tally_recomputePlanDecision hright
  simp only [samePlanShape, Bool.and_eq_true, decide_eq_true_eq, recomputePlanDecision_areas,
    htally.compatible, htally.migrations, htally.resets, htally.blocked, htally.decision,
    htally'.compatible, htally'.migrations, htally'.resets, htally'.blocked, htally'.decision,
    countP_agrees h, h.length_eq, and_self]

section Complete

variable {hash : Bytes → Digest} {requirements : List ConfigSchemaRequirement}
  {migrations : List DeclaredConfigMigration}

theorem agrees_dropAreaJournals {requirement : ConfigSchemaRequirement}
    {source : ConfigAreaSnapshot}
    (h : Installable (assessArea hash requirement migrations source))
    (hfiles : source.area = .updateState → source.files ≠ []) :
    Agrees (assessArea hash requirement migrations source)
      (assessArea hash requirement migrations (dropAreaJournals source)) := by
  have hdetect := detectArea_dropAreaJournals (assessArea_detected h) hfiles
  rw [Agrees, sameAssessment_iff]
  unfold assessArea
  simp only [hdetect, dropAreaJournals_area, true_and, decide_eq_true_eq]
  intro hother
  rw [dropAreaJournals_of_ne (by simpa using hother)]

theorem assessAreas_dropJournals {before : ConfigSnapshot} (hfits : SnapshotFits before)
    (hfiles : areaFiles before .updateState ≠ []) :
    ∀ {areas : List ConfigArea} {assessments : List ConfigAreaAssessment},
      assessAreas hash before requirements migrations areas = .ok assessments →
      (∀ assessment ∈ assessments, Installable assessment) →
      ∃ after, assessAreas hash (dropJournals before) requirements migrations areas = .ok after ∧
        List.Forall₂ Agrees assessments after := by
  intro areas
  induction areas with
  | nil =>
      intro assessments h _
      cases h
      exact ⟨[], rfl, .nil⟩
  | cons area rest ih =>
      intro assessments h hinstallable
      simp only [assessAreas] at h ⊢
      split at h
      · rename_i source requirement hsource hrequirement
        split at h
        · cases h
        rename_i tail htail
        cases h
        obtain ⟨after, hafter, hagrees⟩ :=
          ih htail fun a ha => hinstallable a (List.mem_cons_of_mem _ ha)
        have hkey := ((findArea_eq_some hfits.distinct).mp hsource).2
        have hsourceFiles : source.area = .updateState → source.files ≠ [] := by
          intro hupdate
          rw [← hkey, hupdate] at hsource
          rwa [areaFiles_eq hsource] at hfiles
        rw [findArea_dropJournals hfits hsource, hrequirement, hafter]
        exact ⟨_, rfl, .cons
          (agrees_dropAreaJournals (hinstallable _ (by simp)) hsourceFiles) hagrees⟩
      · cases h

/-- The plan of a snapshot without its journals. -/
theorem assessConfigSnapshot_dropJournals {before : ConfigSnapshot} {plan : ConfigMigrationPlan}
    (h : assessConfigSnapshot hash before requirements migrations = .ok plan)
    (hinstallable : ∀ assessment ∈ plan.areas, Installable assessment)
    (hfiles : areaFiles before .updateState ≠ []) :
    ∃ after, assessConfigSnapshot hash (dropJournals before) requirements migrations =
        .ok (recomputePlanDecision after) ∧ List.Forall₂ Agrees plan.areas after := by
  unfold assessConfigSnapshot at h ⊢
  split at h
  · cases h
  rename_i hvalid
  split at h
  · cases h
  rename_i hrules
  split at h
  · cases h
  rename_i assessments hassess
  cases h
  rw [recomputePlanDecision_areas] at hinstallable ⊢
  rw [Bool.not_eq_false, validateFullSnapshot_iff] at hvalid
  obtain ⟨after, hafter, hagrees⟩ := assessAreas_dropJournals hvalid hfiles hassess hinstallable
  have hdropped := (validateFullSnapshot_iff _).mpr (snapshotFits_dropJournals hvalid)
  refine ⟨after, ?_, hagrees⟩
  rw [if_neg (by simp [hdropped]), if_neg hrules, hafter]

theorem installable_of_agrees {left right : List ConfigAreaAssessment}
    (h : List.Forall₂ Agrees left right) (hleft : ∀ area ∈ left, Installable area) :
    ∀ area ∈ right, Installable area := by
  intro area harea
  obtain ⟨other, hother, hagrees⟩ := (exists_of_forall₂ h).2 area harea
  have hinstallable := hleft other hother
  rwa [Installable, hagrees.classification] at hinstallable

/-- The build info is there when the update state can be installed over. -/
theorem exists_build {before : ConfigSnapshot} {plan : ConfigMigrationPlan}
    {source : ConfigAreaSnapshot}
    (hfits : PlanFits hash before requirements migrations plan)
    (hinstallable : ∀ assessment ∈ plan.areas, Installable assessment)
    (hsource : findArea before .updateState = some source) (hfiles : source.files ≠ []) :
    ∃ content, ⟨buildInfoPath, content⟩ ∈ source.files := by
  obtain ⟨assessment, hin, source', requirement, hsource', -, rfl⟩ :=
    (exists_of_forall₂ hfits.areas).1 .updateState (by decide)
  rw [hsource, Option.some.injEq] at hsource'
  subst hsource'
  have hdetected := assessArea_detected (hinstallable _ hin)
  have hkey := ((findArea_eq_some hfits.accepted.distinct).mp hsource).2
  rw [detectArea_updateState hkey, detectUpdateState, if_neg hfiles] at hdetected
  split at hdetected
  · simp [Detected] at hdetected
  · rename_i build hbuild
    have hmem : build ∈ source.files.filter fun file => file.path = buildInfoPath := by
      simp [hbuild]
    obtain ⟨hmem, hpath⟩ := List.mem_filter.mp hmem
    have hpath : build.path = buildInfoPath := by simpa using hpath
    exact ⟨build.content, by rw [← hpath]; exact hmem⟩
  · simp [Detected] at hdetected

theorem areaRetained_of_agrees {before after : ConfigSnapshot}
    {beforePlan afterPlan : ConfigMigrationPlan}
    (hbefore : PlanFits hash before requirements migrations beforePlan)
    (hafter : PlanFits hash after requirements migrations afterPlan)
    (hagrees : List.Forall₂ Agrees beforePlan.areas afterPlan.areas) {area : ConfigArea}
    (harea : area ∈ knownAreas) : areaRetained beforePlan afterPlan area = true := by
  obtain ⟨a, hfind, hin, hassessed⟩ := findPlanArea_assessed hbefore harea
  obtain ⟨b, hfind', hin', hassessed'⟩ := findPlanArea_assessed hafter harea
  have hkey := area_of_assessed hbefore.accepted hassessed
  have hkey' := area_of_assessed hafter.accepted hassessed'
  obtain ⟨b', hb', hsame⟩ := (exists_of_forall₂ hagrees).1 a hin
  have harea' : b'.area = b.area :=
    (sameAssessment_iff.mp hsame).1.symm.trans (hkey.trans hkey'.symm)
  have hdistinct : (afterPlan.areas.map (·.area)).Nodup := by
    rw [areas_of_assessed hafter]
    decide
  have hone := List.inj_on_of_nodup_map hdistinct hb' hin' harea'
  rw [areaRetained, hfind, hfind', ← hone, ← hkey]
  exact hsame

/-- A state that can be installed over stays accepted when its journals are gone, however
its files are then listed. -/
theorem validate_dropJournals {before after : ConfigSnapshot} {plan : ConfigMigrationPlan}
    (h : assessConfigSnapshot hash before requirements migrations = .ok plan)
    (hinstallable : planIsInstallable plan = true) (hfiles : areaFiles before .updateState ≠ [])
    (hafter : Rearranged (dropJournals before) after) :
    ∃ evidence afterPlan,
      captureRetainedUpdateStateConsentEvidence hash before plan = .ok evidence ∧
      assessConfigSnapshot hash after requirements migrations = .ok afterPlan ∧
      validateRetainedUpdateStateConsentTransition hash evidence after afterPlan = .ok () := by
  have hfits := assessConfigSnapshot_fits h
  have hareas : ∀ area ∈ plan.areas, Installable area := by
    rw [hfits.tallied, planIsInstallable_recompute] at hinstallable
    exact hinstallable.2
  obtain ⟨areas, hdropped, hagrees⟩ := assessConfigSnapshot_dropJournals h hareas hfiles
  have hareas' := installable_of_agrees hagrees hareas
  have hplan := assessConfigSnapshot_rearranged hafter (List.Perm.refl requirements)
    (List.Perm.refl migrations) hdropped (by simpa using hareas')
  have hfits' := assessConfigSnapshot_fits hplan
  -- The build info is the same file on both sides.
  obtain ⟨source, hin, hkey⟩ := hfits.accepted.complete .updateState (by decide)
  have hsource := (findArea_eq_some hfits.accepted.distinct).mpr ⟨hin, hkey⟩
  rw [areaFiles_eq hsource] at hfiles
  obtain ⟨content, hcontent⟩ := exists_build hfits hareas hsource hfiles
  obtain ⟨other, hother, hsame⟩ := findArea_rearranged
    (snapshotFits_dropJournals hfits.accepted) hafter (findArea_dropJournals hfits.accepted hsource)
  have hperm := hsame.files
  rw [dropAreaJournals_files hkey] at hperm
  have hdigest : hashBuildInfo hash before false = .ok (hash content) :=
    (hashBuildInfo_eq_ok hfits.accepted hsource).mpr ⟨content, hcontent, rfl, by simp⟩
  have hdigest' : hashBuildInfo hash after true = .ok (hash content) := by
    rw [hashBuildInfo_eq_ok hfits'.accepted hother]
    refine ⟨content, hperm.subset ?_, rfl, fun _ file hfile => ?_⟩
    · exact List.mem_filter.mpr ⟨hcontent, notJournal_of_build rfl⟩
    · have hkept := (List.mem_filter.mp (hperm.symm.subset hfile)).2
      simpa [notJournal] using hkept
  have hinstallable' : planIsInstallable (recomputePlanDecision areas) = true := by
    rw [planIsInstallable_recompute, ← hagrees.length_eq]
    rw [hfits.tallied, planIsInstallable_recompute] at hinstallable
    exact ⟨hinstallable.1, hareas'⟩
  have hshape := samePlanShape_of_agrees hagrees hareas hareas'
  rw [← hfits.tallied] at hshape
  refine ⟨⟨plan, hash content⟩, recomputePlanDecision areas, ?_, hplan, ?_⟩
  · rw [captureRetainedUpdateStateConsentEvidence, if_neg (by simp [hinstallable]), hdigest]
  · unfold validateRetainedUpdateStateConsentTransition
    rw [if_neg (by simp [hinstallable, hinstallable', hshape]), if_neg, hdigest']
    · simp
    · rw [Bool.not_eq_false, List.all_eq_true]
      intro area harea
      exact areaRetained_of_agrees hfits hfits' (by simpa using hagrees) harea

/-- Without any file of the update state there is no journal to take away, and the capture
says so. -/
theorem capture_without_updateState {before : ConfigSnapshot} {plan : ConfigMigrationPlan}
    (h : assessConfigSnapshot hash before requirements migrations = .ok plan)
    (hinstallable : planIsInstallable plan = true) (hfiles : areaFiles before .updateState = []) :
    captureRetainedUpdateStateConsentEvidence hash before plan = .error .unexpectedUpdateState := by
  have hfits := assessConfigSnapshot_fits h
  obtain ⟨source, hin, hkey⟩ := hfits.accepted.complete .updateState (by decide)
  have hsource := (findArea_eq_some hfits.accepted.distinct).mpr ⟨hin, hkey⟩
  rw [areaFiles_eq hsource] at hfiles
  rw [captureRetainedUpdateStateConsentEvidence, if_neg (by simp [hinstallable]), hashBuildInfo,
    findSnapshotArea_eq hfits.accepted hsource]
  simp [hfiles]

end Complete

/-- Consent kept over a retirement covers a change of the journals and no other.  Where the
capture accepts the state before and the validation the state after, the journals are
gone and nothing else differs; a state that can be installed over and holds a file of
the update state is accepted with its journals taken away; and without such a file the
capture refuses it. -/
theorem retained_consent_covers_journals_only (hash : Bytes → Digest) :
    (∀ before after requirements requirements' migrations migrations' beforePlan afterPlan
        evidence,
      assessConfigSnapshot hash before requirements migrations = .ok beforePlan →
      assessConfigSnapshot hash after requirements' migrations' = .ok afterPlan →
      captureRetainedUpdateStateConsentEvidence hash before beforePlan = .ok evidence →
      validateRetainedUpdateStateConsentTransition hash evidence after afterPlan = .ok () →
      CollisionFree hash (retainedTexts before ++ retainedTexts after) →
      Retained before after beforePlan afterPlan) ∧
    (∀ before after requirements migrations plan,
      assessConfigSnapshot hash before requirements migrations = .ok plan →
      planIsInstallable plan = true → areaFiles before .updateState ≠ [] →
      Rearranged (dropJournals before) after →
      ∃ evidence afterPlan,
        captureRetainedUpdateStateConsentEvidence hash before plan = .ok evidence ∧
        assessConfigSnapshot hash after requirements migrations = .ok afterPlan ∧
        validateRetainedUpdateStateConsentTransition hash evidence after afterPlan = .ok ()) ∧
    ∀ before requirements migrations plan,
      assessConfigSnapshot hash before requirements migrations = .ok plan →
      planIsInstallable plan = true → areaFiles before .updateState = [] →
      captureRetainedUpdateStateConsentEvidence hash before plan =
        .error .unexpectedUpdateState := by
  refine ⟨?_, ?_, ?_⟩
  · intro before after _ _ _ _ beforePlan afterPlan evidence hbefore hafter hcapture hvalidate hfree
    exact retained_of_validate hbefore hafter hcapture hvalidate hfree
  · intro before after requirements migrations plan h hinstallable hfiles hafter
    exact validate_dropJournals h hinstallable hfiles hafter
  · intro before requirements migrations plan h hinstallable hfiles
    exact capture_without_updateState h hinstallable hfiles

/-- The files of an installation: its build info, in pieces, and the first journal. -/
def installedFiles : List ConfigFileView :=
  [⟨buildInfoPath,
      bytesOf "\x7b\"build_info_version\":1," ++ bytesOf "\"version\":\"1.0\"," ++
      bytesOf "\"release_sequence\":1," ++ bytesOf "\"release_epoch\":1," ++
      bytesOf "\"board_family\":\"pi4\"," ++ bytesOf "\"source_commit\":\"" ++
      List.replicate 40 0x30 ++ bytesOf "\",\"updater_abi\":1," ++
      bytesOf "\"configuration_schemas\":\x7b" ++ bytesOf "\"machines\":1," ++
      bytesOf "\"config_managed_block\":1," ++ bytesOf "\"cmdline_managed\":1," ++
      bytesOf "\"network\":1,\"settings\":1," ++ bytesOf "\"update_state\":1\x7d\x7d\n"⟩,
    ⟨journalPathA, (serializeJournal (makeIdleJournalRecord 1)).getD []⟩]

/-- A snapshot with files only among the update state. -/
def installedSnapshot : ConfigSnapshot :=
  knownAreas.map fun area => ⟨area, if area = .updateState then installedFiles else []⟩

theorem retained_consent_covers_journals_only_installed :
    ∃ evidence beforePlan afterPlan,
      captureRetainedUpdateStateConsentEvidence sha256 installedSnapshot beforePlan = .ok evidence ∧
      assessConfigSnapshot sha256 (dropJournals installedSnapshot)
        (schemaRequirements exampleManifest) [] = .ok afterPlan ∧
      validateRetainedUpdateStateConsentTransition sha256 evidence (dropJournals installedSnapshot)
        afterPlan = .ok () := by
  have hplan : (assessConfigSnapshot sha256 installedSnapshot
      (schemaRequirements exampleManifest) []).toOption.any planIsInstallable = true := by
    decide +kernel
  cases h : assessConfigSnapshot sha256 installedSnapshot (schemaRequirements exampleManifest) [] with
  | error status => simp [h, Except.toOption] at hplan
  | ok plan =>
      rw [h] at hplan
      obtain ⟨evidence, afterPlan, hcapture, hassess, hvalidate⟩ :=
        (retained_consent_covers_journals_only sha256).2.1 _ (dropJournals installedSnapshot) _ _ _ h
          (by simpa [Except.toOption] using hplan) (by decide)
          ⟨_, .refl _, List.forall₂_same.mpr fun _ _ => ⟨rfl, .refl _⟩⟩
      exact ⟨evidence, plan, afterPlan, hcapture, hassess, hvalidate⟩

/-- Before anything was installed there is no build info, and the capture refuses what can
be installed over. -/
theorem retained_consent_fails :
    ¬∀ before after requirements migrations plan,
      assessConfigSnapshot sha256 before requirements migrations = .ok plan →
      planIsInstallable plan = true → Rearranged (dropJournals before) after →
      ∃ evidence afterPlan,
        captureRetainedUpdateStateConsentEvidence sha256 before plan = .ok evidence ∧
        assessConfigSnapshot sha256 after requirements migrations = .ok afterPlan ∧
        validateRetainedUpdateStateConsentTransition sha256 evidence after afterPlan = .ok () := by
  intro hall
  have hplan : (assessConfigSnapshot sha256 (exampleSnapshot [])
      (schemaRequirements exampleManifest) []).toOption.any planIsInstallable = true := by
    decide
  cases h : assessConfigSnapshot sha256 (exampleSnapshot [])
      (schemaRequirements exampleManifest) [] with
  | error status => simp [h, Except.toOption] at hplan
  | ok plan =>
      rw [h] at hplan
      have hinstallable : planIsInstallable plan = true := by
        simpa [Except.toOption] using hplan
      obtain ⟨evidence, _, hcapture, -, -⟩ := hall _ (dropJournals (exampleSnapshot [])) _ _ _ h
        hinstallable ⟨_, .refl _, List.forall₂_same.mpr fun _ _ => ⟨rfl, .refl _⟩⟩
      rw [capture_without_updateState h hinstallable (by decide)] at hcapture
      cases hcapture

end Authorization

end BmxUpdate
