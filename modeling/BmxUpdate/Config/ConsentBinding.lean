import BmxUpdate.Config.Rearranged
import BmxUpdate.Sha256

/-!
# What a consent digest binds

Two evaluations of the consent digest, at either place and at any time, agree exactly
when the user would have seen the same: the same board, release and manifest, the same
standing of every area, and the same files in every area.
-/

namespace BmxUpdate

namespace Config

open Wire Http

/-- What an evaluation is about. -/
structure ConsentView where
  board : BoardFamily
  sequence : UInt64
  manifestSha256 : Digest
  snapshot : ConfigSnapshot
  manifest : Release.ReleaseManifest

namespace ConsentView

/-- The classification, the source version and the target version of an area. -/
def standing (view : ConsentView) (area : ConfigArea) :
    Option (ConfigClassification × Nat × Nat) := do
  let source ← findArea view.snapshot area
  let requirement ← findRequirement (schemaRequirements view.manifest) area
  let detection := detectArea source
  some ((classify requirement (declaredMigrations view.manifest) detection).1,
    detection.version, requirement.targetVersion)

/-- The plan of the evaluation. -/
def plan (hash : Bytes → Digest) (view : ConsentView) :
    Except ConfigAssessmentStatus ConfigMigrationPlan :=
  assessConfigSnapshot hash view.snapshot (schemaRequirements view.manifest)
    (declaredMigrations view.manifest)

/-- What is hashed for a plan. -/
def encoding (view : ConsentView) (plan : ConfigMigrationPlan) : Except ConsentInputStatus Bytes :=
  serializeConsentDigestInput
    (consentDigestInput view.board view.sequence view.manifestSha256 plan)
    kMaximumConsentEncodedBytes

/-- Everything that is hashed: the areas and the input of the digest. -/
def hashed (hash : Bytes → Digest) (view : ConsentView) : List Bytes :=
  view.snapshot.map encodeArea ++
    match view.plan hash with
    | .error _ => []
    | .ok plan => (view.encoding plan).toOption.toList

end ConsentView

/-- The two places that compute a digest and succeed with it. -/
inductive Evaluates (hash : Bytes → Digest) : ConsentView → Digest → Prop
  | confirmed {volume : Bytes} {snapshot : ConfigSnapshot} {freshOffer : FreshOffer}
      {board : BoardFamily} {manifestSha256 : Digest} {evidence : CurrentConfigConsentEvidence}
      (h : reReadAndCompute hash volume (some snapshot) freshOffer board manifestSha256 =
        .ok evidence) :
      Evaluates hash ⟨board, freshOffer.manifest.releaseSequence, manifestSha256, snapshot,
        freshOffer.manifest⟩ evidence.consentSha256
  | prepared {snapshot : ConfigSnapshot} {binding : AuthenticatedUpdateBinding}
      {manifest : Release.ReleaseManifest} {plan : ConfigMigrationPlan}
      (h : assessAndBindConfig hash (some snapshot) binding manifest = .ok plan) :
      Evaluates hash ⟨binding.board, binding.targetReleaseSequence, binding.manifestSha256,
        snapshot, manifest⟩ binding.consentSha256

/-- What the user sees is the same. -/
structure SameConsent (left right : ConsentView) : Prop where
  board : left.board = right.board
  sequence : left.sequence = right.sequence
  manifest : left.manifestSha256 = right.manifestSha256
  standing : ∀ area ∈ knownAreas, left.standing area = right.standing area
  files : ∀ area ∈ knownAreas, ∀ file,
    file ∈ areaFiles left.snapshot area ↔ file ∈ areaFiles right.snapshot area

/-- No two of these texts have one hash. -/
def CollisionFree (hash : Bytes → Digest) (texts : List Bytes) : Prop :=
  ∀ x ∈ texts, ∀ y ∈ texts, hash x = hash y → x = y

/-! ## The areas of a plan -/

/-- The assessment of an area of a snapshot. -/
def Assessed (hash : Bytes → Digest) (snapshot : ConfigSnapshot)
    (requirements : List ConfigSchemaRequirement) (migrations : List DeclaredConfigMigration)
    (area : ConfigArea) (assessment : ConfigAreaAssessment) : Prop :=
  ∃ source requirement, findArea snapshot area = some source ∧
    findRequirement requirements area = some requirement ∧
    assessment = assessArea hash requirement migrations source

theorem assessAreas_assessed {hash : Bytes → Digest} {snapshot : ConfigSnapshot}
    {requirements : List ConfigSchemaRequirement} {migrations : List DeclaredConfigMigration} :
    ∀ {areas : List ConfigArea} {assessments : List ConfigAreaAssessment},
      assessAreas hash snapshot requirements migrations areas = .ok assessments →
      List.Forall₂ (Assessed hash snapshot requirements migrations) areas assessments := by
  intro areas
  induction areas with
  | nil =>
      intro assessments h
      cases h
      exact .nil
  | cons area rest ih =>
      intro assessments h
      simp only [assessAreas] at h
      split at h
      · rename_i source requirement hsource hrequirement
        split at h
        · cases h
        rename_i tail htail
        cases h
        exact .cons ⟨source, requirement, hsource, hrequirement, rfl⟩ (ih htail)
      · cases h

/-- What is known when the assessment succeeds. -/
structure PlanFits (hash : Bytes → Digest) (snapshot : ConfigSnapshot)
    (requirements : List ConfigSchemaRequirement) (migrations : List DeclaredConfigMigration)
    (plan : ConfigMigrationPlan) : Prop where
  accepted : SnapshotFits snapshot
  rules : RulesFit requirements migrations
  areas : List.Forall₂ (Assessed hash snapshot requirements migrations) knownAreas plan.areas
  tallied : plan = recomputePlanDecision plan.areas

theorem assessConfigSnapshot_fits {hash : Bytes → Digest} {snapshot : ConfigSnapshot}
    {requirements : List ConfigSchemaRequirement} {migrations : List DeclaredConfigMigration}
    {plan : ConfigMigrationPlan}
    (h : assessConfigSnapshot hash snapshot requirements migrations = .ok plan) :
    PlanFits hash snapshot requirements migrations plan := by
  unfold assessConfigSnapshot at h
  split at h
  · cases h
  rename_i hvalid
  split at h
  · cases h
  rename_i hrules
  split at h
  · cases h
  rename_i assessments hassess
  cases h
  rw [Bool.not_eq_false, validateFullSnapshot_iff] at hvalid
  rw [not_not, validateConfigMigrationDeclarations_iff] at hrules
  refine ⟨hvalid, hrules, ?_, ?_⟩
  · rw [recomputePlanDecision_areas]
    exact assessAreas_assessed hassess
  · rw [recomputePlanDecision_areas]

theorem planIsInstallable_recompute (areas : List ConfigAreaAssessment) :
    planIsInstallable (recomputePlanDecision areas) = true ↔
      areas.length = kConfigMigrationAreaCount ∧ ∀ area ∈ areas, Installable area := by
  constructor
  · intro h
    simp only [planIsInstallable, Bool.and_eq_true, decide_eq_true_eq, List.all_eq_true,
      recomputePlanDecision_areas] at h
    obtain ⟨⟨⟨⟨⟨⟨⟨hlength, -⟩, hall⟩, -⟩, -⟩, -⟩, -⟩, -⟩ := h
    exact ⟨hlength, fun area harea => (isConsentClassification_iff area).mp (hall area harea)⟩
  · intro h
    obtain ⟨hlength, hall⟩ := h
    have htally := tally_recomputePlanDecision hall
    have hsum := Tally.count_eq hall
    simp only [planIsInstallable, Bool.and_eq_true, decide_eq_true_eq, List.all_eq_true,
      recomputePlanDecision_areas]
    refine ⟨⟨⟨⟨⟨⟨⟨hlength, htally.blocked⟩, ?_⟩, htally.compatible.symm⟩, htally.migrations.symm⟩,
      htally.resets.symm⟩, hsum⟩, ?_⟩
    · exact fun area harea => (isConsentClassification_iff area).mpr (hall area harea)
    · rw [htally.decision, htally.migrations, htally.resets]
      rfl

/-! ## The encoding of the input -/

/-- The versions of an item fit their fields. -/
def ItemFits (item : ConsentConfigItem) : Prop :=
  item.sourceSchemaVersion < 256 ^ 4 ∧ item.targetSchemaVersion < 256 ^ 4

theorem classificationNumber_lt (classification : ConfigClassification) :
    classificationNumber classification < 256 := by
  cases classification <;> decide

theorem classificationNumber_inj {left right : ConfigClassification}
    (h : classificationNumber left = classificationNumber right) : left = right := by
  cases left <;> cases right <;> first | rfl | simp [classificationNumber] at h

theorem selfDelimiting_encodeConsentItem : SelfDelimiting ItemFits encodeConsentItem := by
  intro a b s t ha hb heq
  simp only [encodeConsentItem, List.append_assoc, List.cons_append, List.nil_append,
    List.cons.injEq, true_and] at heq
  obtain ⟨harea, hclass, hrest⟩ := heq
  obtain ⟨hsource, hrest⟩ := List.append_inj hrest (by simp)
  obtain ⟨htarget, hrest⟩ := List.append_inj hrest (by simp)
  obtain ⟨hdigest, hrest⟩ := List.append_inj hrest (by simp)
  refine ⟨?_, hrest⟩
  cases a
  cases b
  simp only [ConsentConfigItem.mk.injEq]
  exact ⟨areaNumber_inj (ofNat_inj (areaNumber_lt _) (areaNumber_lt _) harea),
    classificationNumber_inj
      (ofNat_inj (classificationNumber_lt _) (classificationNumber_lt _) hclass),
    encodeLe_injOn ha.1 hb.1 hsource, encodeLe_injOn ha.2 hb.2 htarget, Block.ext hdigest⟩

/-- What is serialized: the header and the items in some order. -/
structure Serialized (input : ConsentDigestInput) (encoded : Bytes) : Prop where
  count : input.items.length ≤ kMaximumConfigAreas
  items : ∃ sorted : List ConsentConfigItem, sorted.Perm input.items ∧
    encoded = encodeConsentHeader input
      (kConsentHeaderEncodedBytes + input.items.length * kConsentItemEncodedBytes) ++
        sorted.flatMap encodeConsentItem

theorem serializeConsentDigestInput_serialized {input : ConsentDigestInput} {size : Nat}
    {encoded : Bytes} (h : serializeConsentDigestInput input size = .ok encoded) :
    Serialized input encoded := by
  unfold serializeConsentDigestInput validateAndSort at h
  split at h
  · cases h
  rename_i sorted hsorted
  split at hsorted
  · cases hsorted
  rename_i hinput
  split at hsorted
  · cases hsorted
  cases hsorted
  dsimp only at h
  split at h
  · cases h
  cases h
  simp only [not_or, not_lt] at hinput
  exact ⟨hinput.2.2.2.2, _, List.perm_insertionSort _ _, rfl⟩

theorem board_toByte_inj {left right : BoardFamily} (h : left.toByte = right.toByte) :
    left = right := by
  have hback := congrArg BoardFamily.ofByte h
  simpa using hback

/-- One encoding is that of one input, up to the order of the items. -/
theorem input_eq_of_serialized {left right : ConsentDigestInput} {encoded : Bytes}
    (hleft : Serialized left encoded) (hright : Serialized right encoded)
    (hfits : ∀ item ∈ left.items, ItemFits item) (hfits' : ∀ item ∈ right.items, ItemFits item) :
    left.board = right.board ∧ left.targetReleaseSequence = right.targetReleaseSequence ∧
      left.manifestSha256 = right.manifestSha256 ∧ left.items.Perm right.items := by
  obtain ⟨sorted, hsorted, hencoded⟩ := hleft.items
  obtain ⟨sorted', hsorted', hencoded'⟩ := hright.items
  rw [hencoded] at hencoded'
  simp only [encodeConsentHeader, List.append_assoc] at hencoded'
  have hrest := List.append_cancel_left (List.append_cancel_left
    (List.append_cancel_left hencoded'))
  obtain ⟨-, hrest⟩ := List.append_inj hrest (by simp)
  simp only [List.cons_append, List.nil_append, List.cons.injEq, true_and] at hrest
  obtain ⟨hboard, hcount, hrest⟩ := hrest
  obtain ⟨hsequence, hrest⟩ := List.append_inj hrest (by simp)
  obtain ⟨hmanifest, hitems⟩ := List.append_inj hrest (by simp)
  have hl := hleft.count
  have hr := hright.count
  simp only [kMaximumConfigAreas] at hl hr
  have hlength := ofNat_inj (by omega) (by omega) hcount
  have hsame := selfDelimiting_encodeConsentItem.flatMap sorted sorted' (s := []) (t := [])
    (by rw [hsorted.length_eq, hsorted'.length_eq, hlength])
    (fun item hitem => hfits item (hsorted.subset hitem))
    (fun item hitem => hfits' item (hsorted'.subset hitem)) (by simpa using hitems)
  refine ⟨board_toByte_inj hboard, ?_, Block.ext hmanifest, ?_⟩
  · have hbound := left.targetReleaseSequence.toNat_lt
    have hbound' := right.targetReleaseSequence.toNat_lt
    exact UInt64.toNat.inj (encodeLe_injOn (by omega) (by omega) hsequence)
  · have hperm := hsorted.symm
    rw [hsame.1] at hperm
    exact hperm.trans hsorted'

/-! ## One evaluation -/

/-- An evaluation comes from a plan that nothing blocks. -/
theorem Evaluates.plan {hash : Bytes → Digest} {view : ConsentView} {digest : Digest}
    (h : Evaluates hash view digest) :
    ∃ plan encoded, view.plan hash = .ok plan ∧ (∀ area ∈ plan.areas, Installable area) ∧
      view.encoding plan = .ok encoded ∧ digest = hash encoded := by
  cases h with
  | confirmed h =>
      simp only [reReadAndCompute] at h
      split at h
      · cases h
      split at h
      · cases h
      rename_i plan hplan
      split at h
      · cases h
      rename_i hinstallable
      split at h
      · cases h
      rename_i encoded hencoded
      split at h
      · cases h
      cases h
      have hfits := assessConfigSnapshot_fits hplan
      rw [Bool.not_eq_false, hfits.tallied, planIsInstallable_recompute] at hinstallable
      exact ⟨plan, encoded, hplan, hinstallable.2, hencoded, rfl⟩
  | prepared h =>
      simp only [assessAndBindConfig] at h
      split at h
      · cases h
      rename_i plan hplan
      split at h
      · cases h
      split at h
      · cases h
      rename_i hall
      split at h
      · cases h
      rename_i encoded hencoded
      split at h
      · cases h
      rename_i hdigest
      split at h
      · cases h
      rw [Bool.not_eq_false, List.all_eq_true] at hall
      exact ⟨plan, encoded, hplan,
        fun area harea => (isConsentClassification_iff area).mp (hall area harea), hencoded,
        (not_not.mp hdigest).symm⟩

/-! ## The item of an area -/

section View

variable {hash : Bytes → Digest} {view : ConsentView} {plan : ConfigMigrationPlan}

/-- The plan of a view, area by area. -/
abbrev ViewFits (hash : Bytes → Digest) (view : ConsentView) (plan : ConfigMigrationPlan) : Prop :=
  PlanFits hash view.snapshot (schemaRequirements view.manifest)
    (declaredMigrations view.manifest) plan

/-- An assessment of an area of a view. -/
abbrev ViewAssessed (hash : Bytes → Digest) (view : ConsentView) :
    ConfigArea → ConfigAreaAssessment → Prop :=
  Assessed hash view.snapshot (schemaRequirements view.manifest) (declaredMigrations view.manifest)

/-- The item of an area holds its standing and the hash of its files. -/
structure AreaItem (hash : Bytes → Digest) (view : ConsentView) (area : ConfigArea)
    (item : ConsentConfigItem) : Prop where
  ofArea : item.area = area
  standing : view.standing area =
    some (item.classification, item.sourceSchemaVersion, item.targetSchemaVersion)
  content : ∃ source, findArea view.snapshot area = some source ∧
    item.sourceContentSha256 = hash (encodeArea source)

theorem areaItem_of_assessed {area : ConfigArea} {assessment : ConfigAreaAssessment}
    (hview : ViewFits hash view plan) (h : ViewAssessed hash view area assessment) :
    AreaItem hash view area (consentItem assessment) := by
  obtain ⟨source, requirement, hsource, hrequirement, rfl⟩ := h
  have harea := ((findArea_eq_some hview.accepted.distinct).mp hsource).2
  refine ⟨harea, ?_, source, hsource, rfl⟩
  unfold ConsentView.standing
  rw [hsource, hrequirement]
  rfl

theorem targetVersion_lt {area : ConfigArea} {requirement : ConfigSchemaRequirement}
    (h : findRequirement (schemaRequirements view.manifest) area = some requirement) :
    requirement.targetVersion < 256 ^ 4 := by
  have hin := List.mem_of_find?_eq_some h
  obtain ⟨schema, -, rfl⟩ := List.mem_map.mp hin
  exact schema.targetVersion.toNat_lt

theorem itemFits_of_assessed {area : ConfigArea} {assessment : ConfigAreaAssessment}
    (h : ViewAssessed hash view area assessment) : ItemFits (consentItem assessment) := by
  obtain ⟨source, requirement, -, hrequirement, rfl⟩ := h
  exact ⟨(detectArea_fits source).version_lt, targetVersion_lt hrequirement⟩

/-- The items of a plan are those of the areas, one after the other. -/
theorem areaItems (hview : ViewFits hash view plan) :
    List.Forall₂ (fun area item => AreaItem hash view area item ∧ ItemFits item) knownAreas
      (plan.areas.map consentItem) := by
  rw [List.forall₂_map_right_iff]
  exact hview.areas.imp fun area assessment h =>
    ⟨areaItem_of_assessed hview h, itemFits_of_assessed h⟩

theorem itemFits_of_areaItems {items : List ConsentConfigItem}
    (h : List.Forall₂ (fun area item => AreaItem hash view area item ∧ ItemFits item) knownAreas
      items) {item : ConsentConfigItem} (hitem : item ∈ items) : ItemFits item := by
  obtain ⟨_, -, -, hfits⟩ := (exists_of_forall₂ h).2 item hitem
  exact hfits

end View

section TwoEvaluations

variable {hash : Bytes → Digest} {left right : ConsentView}

theorem nodup_files {snapshot : ConfigSnapshot} {area : ConfigArea} {source : ConfigAreaSnapshot}
    (hfits : SnapshotFits snapshot) (h : findArea snapshot area = some source) :
    source.files.Nodup :=
  (hfits.areas source ((findArea_eq_some hfits.distinct).mp h).1).paths.of_map

/-- The items of an area are one item when the area stands the same and has the same
files. -/
theorem item_eq {area : ConfigArea} {item item' : ConsentConfigItem}
    (hleft : SnapshotFits left.snapshot) (hright : SnapshotFits right.snapshot)
    (hitem : AreaItem hash left area item) (hitem' : AreaItem hash right area item')
    (hstanding : left.standing area = right.standing area)
    (hfiles : ∀ file,
      file ∈ areaFiles left.snapshot area ↔ file ∈ areaFiles right.snapshot area) :
    item = item' := by
  obtain ⟨source, hsource, hdigest⟩ := hitem.content
  obtain ⟨source', hsource', hdigest'⟩ := hitem'.content
  obtain ⟨hin, harea⟩ := (findArea_eq_some hleft.distinct).mp hsource
  obtain ⟨hin', harea'⟩ := (findArea_eq_some hright.distinct).mp hsource'
  rw [areaFiles_eq hsource, areaFiles_eq hsource'] at hfiles
  have hperm : source.files.Perm source'.files :=
    (List.perm_ext_iff_of_nodup (nodup_files hleft hsource) (nodup_files hright hsource')).mpr
      hfiles
  have hencode := (encodeArea_eq_iff (hleft.areas source hin) (hright.areas source' hin')).mpr
    ⟨harea.trans harea'.symm, hperm⟩
  have hcontent : item.sourceContentSha256 = item'.sourceContentSha256 := by
    rw [hdigest, hdigest', hencode]
  rw [hitem.standing, hitem'.standing, Option.some.injEq, Prod.mk.injEq, Prod.mk.injEq]
    at hstanding
  cases item
  cases item'
  simp only [ConsentConfigItem.mk.injEq]
  exact ⟨hitem.ofArea.trans hitem'.ofArea.symm, hstanding.1, hstanding.2.1, hstanding.2.2, hcontent⟩

theorem items_eq {areas : List ConfigArea} {items items' : List ConsentConfigItem}
    {P Q : ConfigArea → ConsentConfigItem → Prop} (hitems : List.Forall₂ P areas items)
    (hitems' : List.Forall₂ Q areas items')
    (hsame : ∀ area ∈ areas, ∀ item item', P area item → Q area item' → item = item') :
    items = items' := by
  induction hitems generalizing items' with
  | nil =>
      cases hitems'
      rfl
  | cons hitem hrest ih =>
      cases hitems' with
      | cons hitem' hrest' =>
          rw [hsame _ (by simp) _ _ hitem hitem',
            ih hrest' fun area harea => hsame area (List.mem_cons_of_mem _ harea)]

/-- The hashed areas of a snapshot. -/
theorem encodeArea_mem_hashed {view : ConsentView} {area : ConfigArea}
    {source : ConfigAreaSnapshot} (h : findArea view.snapshot area = some source) :
    encodeArea source ∈ view.hashed hash :=
  List.mem_append_left _ (List.mem_map_of_mem (List.mem_of_find?_eq_some h))

theorem encoding_mem_hashed {view : ConsentView} {plan : ConfigMigrationPlan} {encoded : Bytes}
    (hplan : view.plan hash = .ok plan) (hencoded : view.encoding plan = .ok encoded) :
    encoded ∈ view.hashed hash := by
  apply List.mem_append_right
  rw [hplan]
  dsimp only
  rw [hencoded]
  simp [Except.toOption]

/-- The digests of two evaluations agree exactly when the user would see the same. -/
theorem digest_eq_iff {digest digest' : Digest} (hleft : Evaluates hash left digest)
    (hright : Evaluates hash right digest')
    (hfree : CollisionFree hash (left.hashed hash ++ right.hashed hash)) :
    digest = digest' ↔ SameConsent left right := by
  obtain ⟨plan, encoded, hplan, -, hencoded, rfl⟩ := hleft.plan
  obtain ⟨plan', encoded', hplan', -, hencoded', rfl⟩ := hright.plan
  have hfits := assessConfigSnapshot_fits hplan
  have hfits' := assessConfigSnapshot_fits hplan'
  have hitems := areaItems hfits
  have hitems' := areaItems hfits'
  constructor
  · intro hdigest
    have htext := hfree encoded (List.mem_append_left _ (encoding_mem_hashed hplan hencoded))
      encoded' (List.mem_append_right _ (encoding_mem_hashed hplan' hencoded')) hdigest
    subst htext
    obtain ⟨hboard, hsequence, hmanifest, hperm⟩ := input_eq_of_serialized
      (serializeConsentDigestInput_serialized hencoded)
      (serializeConsentDigestInput_serialized hencoded') (fun item => itemFits_of_areaItems hitems)
      (fun item => itemFits_of_areaItems hitems')
    have harea : ∀ area ∈ knownAreas, ∃ item, AreaItem hash left area item ∧
        AreaItem hash right area item := by
      intro area hknown
      obtain ⟨item, hin, hitem, -⟩ := (exists_of_forall₂ hitems).1 area hknown
      obtain ⟨area', -, hitem', -⟩ := (exists_of_forall₂ hitems').2 item (hperm.subset hin)
      have hsame : area' = area := hitem'.ofArea.symm.trans hitem.ofArea
      exact ⟨item, hitem, hsame ▸ hitem'⟩
    refine ⟨hboard, hsequence, hmanifest, ?_, ?_⟩
    · intro area hknown
      obtain ⟨item, hitem, hitem'⟩ := harea area hknown
      rw [hitem.standing, hitem'.standing]
    · intro area hknown file
      obtain ⟨item, hitem, hitem'⟩ := harea area hknown
      obtain ⟨source, hsource, hcontent⟩ := hitem.content
      obtain ⟨source', hsource', hcontent'⟩ := hitem'.content
      have hencode := hfree _ (List.mem_append_left _ (encodeArea_mem_hashed hsource))
        _ (List.mem_append_right _ (encodeArea_mem_hashed hsource'))
        (hcontent.symm.trans hcontent')
      have hin := ((findArea_eq_some hfits.accepted.distinct).mp hsource).1
      have hin' := ((findArea_eq_some hfits'.accepted.distinct).mp hsource').1
      have hsame := (encodeArea_eq_iff (hfits.accepted.areas source hin)
        (hfits'.accepted.areas source' hin')).mp hencode
      rw [areaFiles_eq hsource, areaFiles_eq hsource']
      exact hsame.2.mem_iff
  · intro hsame
    have hinput : plan.areas.map consentItem = plan'.areas.map consentItem :=
      items_eq hitems hitems' fun area harea item item' hitem hitem' =>
        item_eq hfits.accepted hfits'.accepted hitem.1 hitem'.1 (hsame.standing area harea)
          (hsame.files area harea)
    have hencodings : left.encoding plan = right.encoding plan' := by
      simp only [ConsentView.encoding, consentDigestInput]
      rw [hsame.board, hsame.sequence, hsame.manifest, hinput]
    rw [hencoded, hencoded', Except.ok.injEq] at hencodings
    rw [hencodings]

end TwoEvaluations

/-! ## The order of what is listed -/

/-- A manifest with its schemas and migrations in another order. -/
structure SameRules (left right : Release.ReleaseManifest) : Prop where
  schemas : left.schemas.Perm right.schemas
  migrations : left.migrations.Perm right.migrations
  rest : right = { left with schemas := right.schemas, migrations := right.migrations }

section Order

variable {hash : Bytes → Digest} {snapshot snapshot' : ConfigSnapshot}
  {manifest manifest' : Release.ReleaseManifest} {plan : ConfigMigrationPlan}

theorem plan_rearranged (hsnapshot : Rearranged snapshot snapshot')
    (hmanifest : SameRules manifest manifest')
    (h : assessConfigSnapshot hash snapshot (schemaRequirements manifest)
      (declaredMigrations manifest) = .ok plan)
    (hinstallable : ∀ area ∈ plan.areas, Installable area) :
    assessConfigSnapshot hash snapshot' (schemaRequirements manifest')
      (declaredMigrations manifest') = .ok plan :=
  assessConfigSnapshot_rearranged hsnapshot (hmanifest.schemas.map _) (hmanifest.migrations.map _)
    h hinstallable

/-- The evidence of a confirmed offer does not depend on the order of what is listed. -/
theorem reReadAndCompute_rearranged {volume : Bytes} {freshOffer : FreshOffer}
    {board : BoardFamily} {manifestSha256 : Digest} {evidence : CurrentConfigConsentEvidence}
    (hsnapshot : Rearranged snapshot snapshot')
    (hmanifest : SameRules freshOffer.manifest manifest')
    (h : reReadAndCompute hash volume (some snapshot) freshOffer board manifestSha256 =
      .ok evidence) :
    reReadAndCompute hash volume (some snapshot') { freshOffer with manifest := manifest' } board
      manifestSha256 = .ok evidence := by
  obtain ⟨plan, -, hplan, hinstallable, -⟩ := (Evaluates.confirmed h).plan
  have hplan' := plan_rearranged hsnapshot hmanifest hplan hinstallable
  rw [ConsentView.plan] at hplan
  have hlength := hmanifest.schemas.length_eq
  have hlength' := hmanifest.migrations.length_eq
  have hsequence : manifest'.releaseSequence = freshOffer.manifest.releaseSequence := by
    rw [hmanifest.rest]
  have hboard : manifest'.asset = freshOffer.manifest.asset := by rw [hmanifest.rest]
  unfold reReadAndCompute at h ⊢
  dsimp only at h ⊢
  rw [hplan] at h
  rw [hplan', hsequence, hboard, ← hlength, ← hlength']
  exact h

/-- Nor does the preparation of the configuration. -/
theorem assessAndBindConfig_rearranged {binding : AuthenticatedUpdateBinding}
    (hsnapshot : Rearranged snapshot snapshot') (hmanifest : SameRules manifest manifest')
    (h : assessAndBindConfig hash (some snapshot) binding manifest = .ok plan) :
    assessAndBindConfig hash (some snapshot') binding manifest' = .ok plan := by
  obtain ⟨plan', -, hplan, hinstallable, -⟩ := (Evaluates.prepared h).plan
  have hplan' := plan_rearranged hsnapshot hmanifest hplan hinstallable
  rw [ConsentView.plan] at hplan
  unfold assessAndBindConfig at h ⊢
  dsimp only at h ⊢
  rw [hplan] at h
  rw [hplan']
  exact h

/-! ## The two places -/

/-- A binding made from a confirmed offer. -/
structure BoundTo (freshOffer : FreshOffer) (board : BoardFamily) (manifestSha256 : Digest)
    (status : OfferConfigurationStatus) (binding : AuthenticatedUpdateBinding) : Prop where
  board : binding.board = board
  sequence : binding.targetReleaseSequence = freshOffer.manifest.releaseSequence
  manifest : binding.manifestSha256 = manifestSha256
  resetRequired : binding.resetRequired = decide (status = .resetConfirmationRequired)
  resetApproved : binding.resetApproved = decide (status = .resetConfirmationRequired)

/-- For the snapshot and the manifest of a confirmed offer the preparation computes the
digest of the confirmation: it accepts a binding exactly when that is its digest. -/
theorem assessAndBindConfig_iff {volume : Bytes} {freshOffer : FreshOffer} {board : BoardFamily}
    {manifestSha256 : Digest} {evidence : CurrentConfigConsentEvidence}
    {binding : AuthenticatedUpdateBinding}
    (h : reReadAndCompute hash volume (some snapshot) freshOffer board manifestSha256 =
      .ok evidence)
    (hbinding : BoundTo freshOffer board manifestSha256 evidence.configurationStatus binding) :
    (∃ plan, assessAndBindConfig hash (some snapshot) binding freshOffer.manifest = .ok plan) ↔
      binding.consentSha256 = evidence.consentSha256 := by
  simp only [reReadAndCompute] at h
  split at h
  · cases h
  split at h
  · cases h
  rename_i plan hplan
  split at h
  · cases h
  rename_i hinstallable
  split at h
  · cases h
  rename_i encoded hencoded
  split at h
  · cases h
  cases h
  have hfits := assessConfigSnapshot_fits hplan
  rw [Bool.not_eq_false, hfits.tallied, planIsInstallable_recompute] at hinstallable
  have htally := tally_recomputePlanDecision hinstallable.2
  rw [← hfits.tallied] at htally
  have hreset := hbinding.resetRequired
  have happroved := hbinding.resetApproved
  have hstatus : decide ((if plan.resetCount = 0 then OfferConfigurationStatus.compatible
      else .resetConfirmationRequired) = .resetConfirmationRequired) =
      decide (plan.resetCount ≠ 0) := by
    by_cases hzero : plan.resetCount = 0 <;> simp [hzero]
  dsimp only at hreset happroved
  rw [hstatus] at hreset happroved
  have hdecision : ¬ (plan.decision = .blockedUnknownOrCorrupt ∨
      plan.decision = .blockedNewerThanTarget ∨ plan.decision = .invalidInput) := by
    rw [htally.decision]
    unfold decisionOf
    split_ifs <;> simp
  have hall : (plan.areas.all fun area => isConsentClassification area.classification) = true :=
    List.all_eq_true.mpr fun area harea =>
      (isConsentClassification_iff area).mpr (hinstallable.2 area harea)
  unfold assessAndBindConfig
  dsimp only
  rw [hplan]
  dsimp only
  rw [if_neg (by
      simp only [not_or, not_not]
      rw [not_or, not_or] at hdecision
      exact ⟨hinstallable.1, htally.blocked, hdecision⟩), if_neg (by simp [hall]),
    hbinding.board, hbinding.sequence, hbinding.manifest, hencoded]
  dsimp only
  constructor
  · intro hplan
    obtain ⟨_, hplan⟩ := hplan
    split at hplan
    · cases hplan
    rename_i hdigest
    exact (not_not.mp hdigest).symm
  · intro hdigest
    refine ⟨plan, ?_⟩
    rw [if_neg (by simp [hdigest]), if_neg (by simp [hreset, happroved])]

end Order

/-- Consent is bound to exactly what the user saw.  Two evaluations, at either place, have
one digest exactly when the user would see the same; the order of areas, files, schemas
and migrations does not matter; and the digest of a confirmed offer is the one that the
preparation computes for the same snapshot and manifest. -/
theorem consent_binds_what_was_seen (hash : Bytes → Digest) :
    (∀ left right digest digest', Evaluates hash left digest → Evaluates hash right digest' →
      CollisionFree hash (left.hashed hash ++ right.hashed hash) →
      (digest = digest' ↔ SameConsent left right)) ∧
    (∀ volume snapshot snapshot' freshOffer manifest' board manifestSha256 evidence,
      Rearranged snapshot snapshot' → SameRules freshOffer.manifest manifest' →
      reReadAndCompute hash volume (some snapshot) freshOffer board manifestSha256 =
        .ok evidence →
      reReadAndCompute hash volume (some snapshot') { freshOffer with manifest := manifest' }
        board manifestSha256 = .ok evidence) ∧
    (∀ snapshot snapshot' binding manifest manifest' plan,
      Rearranged snapshot snapshot' → SameRules manifest manifest' →
      assessAndBindConfig hash (some snapshot) binding manifest = .ok plan →
      assessAndBindConfig hash (some snapshot') binding manifest' = .ok plan) ∧
    ∀ volume snapshot freshOffer board manifestSha256 evidence binding,
      reReadAndCompute hash volume (some snapshot) freshOffer board manifestSha256 =
        .ok evidence →
      BoundTo freshOffer board manifestSha256 evidence.configurationStatus binding →
      ((∃ plan, assessAndBindConfig hash (some snapshot) binding freshOffer.manifest =
        .ok plan) ↔ binding.consentSha256 = evidence.consentSha256) := by
  refine ⟨?_, ?_, ?_, ?_⟩
  · intro left right digest digest' hleft hright hfree
    exact digest_eq_iff hleft hright hfree
  · intro volume snapshot snapshot' freshOffer manifest' board sha evidence hsnapshot hrules h
    exact reReadAndCompute_rearranged hsnapshot hrules h
  · intro snapshot snapshot' binding manifest manifest' plan hsnapshot hrules h
    exact assessAndBindConfig_rearranged hsnapshot hrules h
  · intro volume snapshot freshOffer board manifestSha256 evidence binding h hbinding
    exact assessAndBindConfig_iff h hbinding

/-! ### An absent and an empty file -/

/-- A manifest that accepts version 1 of every area, and areas without files. -/
def exampleManifest : Release.ReleaseManifest :=
  ⟨bytesOf "3.1", bytesOf "v3.1", [], 7, 7, 1, 1, [],
    knownAreas.map fun area => ⟨area, 1, [0, 1]⟩, [], [],
    ⟨.pi4Pi400, [], 0, Block.zero 32, 0, 0, [], []⟩⟩

/-- A snapshot with files only among the settings. -/
def exampleSnapshot (files : List ConfigFileView) : ConfigSnapshot :=
  knownAreas.map fun area => ⟨area, if area = .settings then files else []⟩

def exampleConfirmation (files : List ConfigFileView) :
    Except CurrentConfigConsentStatus CurrentConfigConsentEvidence :=
  reReadAndCompute sha256 (bytesOf "SYS:") (some (exampleSnapshot files))
    ⟨.updateAvailable, .pi4Pi400, exampleManifest⟩ .pi4Pi400 (sha256 [])

theorem consent_binds_empty_file :
    ∃ evidence evidence', exampleConfirmation [] = .ok evidence ∧
      exampleConfirmation [⟨bytesOf "settings.txt", []⟩] = .ok evidence' ∧
      evidence.consentSha256 ≠ evidence'.consentSha256 := by
  have habsent : (exampleConfirmation []).toOption.isSome = true := by decide +kernel
  have hempty : (exampleConfirmation [⟨bytesOf "settings.txt", []⟩]).toOption.isSome = true := by
    decide +kernel
  cases hleft : exampleConfirmation [] with
  | error status => simp [hleft, Except.toOption] at habsent
  | ok evidence =>
      cases hright : exampleConfirmation [⟨bytesOf "settings.txt", []⟩] with
      | error status => simp [hright, Except.toOption] at hempty
      | ok evidence' =>
          refine ⟨evidence, evidence', rfl, rfl, ?_⟩
          have hsame := (consent_binds_what_was_seen sha256).1 _ _ _ _ (.confirmed hleft)
            (.confirmed hright) (by unfold CollisionFree; decide +kernel)
          rw [ne_eq, hsame]
          intro h
          have hfile := h.files .settings (by decide) ⟨bytesOf "settings.txt", []⟩
          revert hfile
          decide

end Config

end BmxUpdate
