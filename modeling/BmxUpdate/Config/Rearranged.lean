import BmxUpdate.Config.DetectFacts
import BmxUpdate.Config.Consent
import Mathlib.Data.List.Pairwise

/-!
# The order of files, areas and rules

A snapshot is the set of its files: what `AssessConfigSnapshot` makes of one that an
update can be installed over does not depend on the order in which areas, files,
schemas and migrations are listed.
-/

namespace BmxUpdate

namespace Config

open Wire Http

/-- Where the predicate singles out one element, its place in the list does not matter. -/
theorem find?_eq_of_perm {α : Type} {p : α → Bool} {left right : List α}
    (hone : ∀ a ∈ left, ∀ b ∈ left, p a = true → p b = true → a = b)
    (hperm : left.Perm right) : left.find? p = right.find? p := by
  cases hleft : left.find? p with
  | none =>
      symm
      rw [List.find?_eq_none] at hleft ⊢
      exact fun a ha => hleft a (hperm.symm.subset ha)
  | some a =>
      cases hright : right.find? p with
      | none =>
          rw [List.find?_eq_none] at hright
          have ha := hperm.subset (List.mem_of_find?_eq_some hleft)
          exact absurd (List.find?_some hleft) (hright a ha)
      | some b =>
          have ha := List.mem_of_find?_eq_some hleft
          have hb := hperm.symm.subset (List.mem_of_find?_eq_some hright)
          rw [hone a ha b hb (List.find?_some hleft) (List.find?_some hright)]

/-! ## Detection -/

theorem detected_version_lt {found : Except ConfigDetectionDetail Nat}
    (h : ∀ version, found = .ok version → VersionFits version) :
    (detected found).version < 2 ^ 32 := by
  cases found with
  | ok version => exact (h version rfl).2
  | error detail => simp [detected]

theorem detected_ne_missing {found : Except ConfigDetectionDetail Nat} (h : FaultsOnly found) :
    (detected found).detail ≠ .missing := by
  cases found with
  | ok version => simp [detected]
  | error detail => exact (h detail rfl).2

/-- What is known of the result of a detector on some files. -/
structure DetectionFits (files : List ConfigFileView) (result : DetectionResult) : Prop where
  version_lt : result.version < 2 ^ 32
  missing : result.detail = .missing → files = []

theorem detectionFits_detected {files : List ConfigFileView}
    {found : Except ConfigDetectionDetail Nat}
    (hversion : ∀ version, found = .ok version → VersionFits version) (hfaults : FaultsOnly found) :
    DetectionFits files (detected found) :=
  ⟨detected_version_lt hversion, fun h => absurd h (detected_ne_missing hfaults)⟩

theorem detectionFits_fault {files : List ConfigFileView} {detail : ConfigDetectionDetail}
    (h : detail ≠ .missing) : DetectionFits files ⟨detail, 0⟩ :=
  ⟨by simp, fun hmissing => absurd hmissing h⟩

theorem aggregateVersion_fits {fileVersion : Bytes → Except ConfigDetectionDetail Nat}
    (hfits : ∀ content version, fileVersion content = .ok version → VersionFits version)
    {files : List ConfigFileView} {version : Nat} (hfiles : files ≠ [])
    (h : aggregateVersion fileVersion 0 files = .ok version) : VersionFits version := by
  rw [aggregateVersion_zero_eq_ok (fun content found hc => (hfits content found hc).1) hfiles] at h
  obtain ⟨file, hfile⟩ := List.exists_mem_of_ne_nil files hfiles
  exact hfits _ _ (h file hfile)

theorem detectMachines_fits (area : ConfigAreaSnapshot) :
    DetectionFits area.files (detectMachines area) := by
  unfold detectMachines
  split
  · exact ⟨by simp, fun _ => ‹_›⟩
  rename_i hfiles
  have hfaults := aggregateVersion_faults machinesFileVersion_faults area.files 0
  apply detectionFits_detected
  · intro version h
    split at h
    · cases h
    · rename_i found hfound
      split at h
      · cases h
      · cases h
        exact aggregateVersion_fits (fun _ _ => machinesFileVersion_fits) hfiles hfound
  · split
    · rename_i detail hdetail
      exact hfaults.error hdetail
    · split <;> simp

theorem detectSettings_fits (area : ConfigAreaSnapshot) :
    DetectionFits area.files (detectSettings area) := by
  unfold detectSettings
  split
  · exact ⟨by simp, fun _ => ‹_›⟩
  rename_i hfiles
  exact detectionFits_detected
    (fun version => aggregateVersion_fits (fun _ _ => settingsFileVersion_fits) hfiles)
    (aggregateVersion_faults settingsFileVersion_faults area.files 0)

theorem detectConfigBlock_fits (area : ConfigAreaSnapshot) :
    DetectionFits area.files (detectConfigBlock area) := by
  unfold detectConfigBlock
  split
  · rename_i hfiles
    exact ⟨by simp, fun _ => hfiles⟩
  · rename_i file hfiles
    split
    · exact detectionFits_fault (by simp)
    have hfaults := scanLines_faults configBlockLine_faults (textLines file.content)
      ⟨false, false, none, false, []⟩
    apply detectionFits_detected
    · intro version h
      split at h
      · cases h
      · rename_i scan hscan
        have hfits : scan.Fits :=
          scanLines_keeps (fun _ _ _ => configBlockLine_fits) (fun _ h => by simp at h) hscan
        split at h
        · cases h
        · cases h
          exact getD_one_fits hfits
    · split
      · rename_i detail hdetail
        exact hfaults.error hdetail
      · split <;> simp
  · exact detectionFits_fault (by simp)

theorem parseCmdline_fits (area : ConfigAreaSnapshot) (assessed : ConfigArea) :
    DetectionFits area.files (parseCmdline area assessed) := by
  unfold parseCmdline
  split
  · rename_i hfiles
    exact ⟨by simp, fun _ => hfiles⟩
  · rename_i file hfiles
    split
    · exact detectionFits_fault (by simp)
    dsimp only
    split
    · exact detectionFits_fault (by simp)
    split
    · exact detectionFits_fault (by simp)
    apply detectionFits_detected
    · intro version h
      split at h
      · cases h
      · exact parseCmdlineTokens_fits _ _ (by simp) h
    · split
      · rename_i detail hdetail
        exact (scanLines_faults cmdlineCommentLine_faults _ _).error hdetail
      · exact parseCmdlineTokens_faults _ _ _ _
  · exact detectionFits_fault (by simp)

theorem detectUpdateState_fits (area : ConfigAreaSnapshot) :
    DetectionFits area.files (detectUpdateState area) := by
  unfold detectUpdateState
  split
  · exact ⟨by simp, fun _ => ‹_›⟩
  split
  · exact detectionFits_fault (by simp)
  · rename_i build hbuild
    apply detectionFits_detected
    · intro version h
      split at h
      · cases h
      · rename_i found hfound
        dsimp only at h
        split at h
        · cases h
        · cases h
          exact buildInfoStateVersion_fits hfound
    · split
      · rename_i detail hdetail
        exact (buildInfoStateVersion_faults _).error hdetail
      · dsimp only
        split <;> simp
  · exact detectionFits_fault (by simp)

theorem detectArea_fits (area : ConfigAreaSnapshot) :
    DetectionFits area.files (detectArea area) := by
  unfold detectArea
  cases harea : area.area with
  | machines => exact detectMachines_fits area
  | configManagedBlock => exact detectConfigBlock_fits area
  | cmdlineManagedKeys => exact parseCmdline_fits area _
  | network => exact parseCmdline_fits area _
  | settings => exact detectSettings_fits area
  | updateState => exact detectUpdateState_fits area
  | unknown => exact detectionFits_fault (by simp)

/-! ## The order of the files -/

/-- A detection that can be installed over: the others are faults. -/
def Detected (result : DetectionResult) : Prop :=
  result.detail = .valid ∨ result.detail = .missing

/-- The same area with its files in another order. -/
structure SameArea (left right : ConfigAreaSnapshot) : Prop where
  area : left.area = right.area
  files : left.files.Perm right.files

theorem SameArea.nil_iff {left right : ConfigAreaSnapshot} (h : SameArea left right) :
    left.files = [] ↔ right.files = [] := by
  rw [← List.length_eq_zero_iff, ← List.length_eq_zero_iff, h.files.length_eq]

/-- Of one element or none there is only one order. -/
theorem eq_of_perm_short {α : Type} {left right : List α} (hperm : left.Perm right)
    (hshort : left.length ≤ 1) : left = right := by
  match left, hshort with
  | [], _ => exact hperm.nil_eq
  | [a], _ => exact List.singleton_perm.mp hperm

theorem length_filter_path_le_one {files : List ConfigFileView}
    (hpaths : (files.map (·.path)).Nodup) (path : Bytes) :
    (files.filter fun file => file.path = path).length ≤ 1 := by
  have hnodup := hpaths.sublist
    ((List.filter_sublist (l := files) (p := fun file => decide (file.path = path))).map (·.path))
  have hsame : (files.filter fun file => file.path = path).map (·.path) =
      List.replicate (files.filter fun file => file.path = path).length path := by
    rw [List.eq_replicate_iff]
    refine ⟨by simp, fun found hfound => ?_⟩
    obtain ⟨file, hfile, rfl⟩ := List.mem_map.mp hfound
    simpa using (List.mem_filter.mp hfile).2
  rw [hsame] at hnodup
  exact List.nodup_replicate.mp hnodup

theorem lastContent_perm {left right : List ConfigFileView} (hperm : left.Perm right)
    (hpaths : (left.map (·.path)).Nodup) (path : Bytes) :
    lastContent left path = lastContent right path := by
  have hfilter := hperm.filter fun file => file.path = path
  rw [lastContent, lastContent, eq_of_perm_short hfilter (length_filter_path_le_one hpaths path)]

section FileOrder

variable {left right : ConfigAreaSnapshot}

theorem detectMachines_perm (h : SameArea left right) (hfound : Detected (detectMachines left)) :
    detectMachines right = detectMachines left := by
  unfold detectMachines at hfound ⊢
  by_cases hfiles : left.files = []
  · rw [if_pos hfiles, if_pos (h.nil_iff.mp hfiles)]
  rw [if_neg hfiles] at hfound
  rw [if_neg hfiles, if_neg (mt h.nil_iff.mpr hfiles)]
  have hfaults := aggregateVersion_faults machinesFileVersion_faults left.files 0
  have hnamed : (right.files.any fun file => file.path = bytesOf "machines.ini") =
      left.files.any fun file => file.path = bytesOf "machines.ini" :=
    h.files.symm.any_eq
  cases hleft : aggregateVersion machinesFileVersion 0 left.files with
  | error detail =>
      rw [hleft] at hfound hfaults
      have hdetail := hfaults detail rfl
      rcases hfound with hvalid | hmissing
      · exact absurd hvalid hdetail.1
      · exact absurd hmissing hdetail.2
  | ok version =>
      have hright := aggregateVersion_perm
        (fun _ _ hc => (machinesFileVersion_fits hc).1) hfiles h.files hleft
      rw [hright, hnamed]

theorem detectSettings_perm (h : SameArea left right) (hfound : Detected (detectSettings left)) :
    detectSettings right = detectSettings left := by
  unfold detectSettings at hfound ⊢
  by_cases hfiles : left.files = []
  · rw [if_pos hfiles, if_pos (h.nil_iff.mp hfiles)]
  rw [if_neg hfiles] at hfound
  rw [if_neg hfiles, if_neg (mt h.nil_iff.mpr hfiles)]
  have hfaults := aggregateVersion_faults settingsFileVersion_faults left.files 0
  cases hleft : aggregateVersion settingsFileVersion 0 left.files with
  | error detail =>
      rw [hleft] at hfound hfaults
      have hdetail := hfaults detail rfl
      rcases hfound with hvalid | hmissing
      · exact absurd hvalid hdetail.1
      · exact absurd hmissing hdetail.2
  | ok version =>
      rw [aggregateVersion_perm (fun _ _ hc => (settingsFileVersion_fits hc).1) hfiles h.files
        hleft]

theorem detectConfigBlock_perm (h : SameArea left right)
    (hfound : Detected (detectConfigBlock left)) :
    detectConfigBlock right = detectConfigBlock left := by
  have hshort : left.files.length ≤ 1 := by
    unfold detectConfigBlock at hfound
    split at hfound
    · simp [*]
    · simp [*]
    · simp [Detected] at hfound
  rw [detectConfigBlock, detectConfigBlock, eq_of_perm_short h.files hshort]

theorem parseCmdline_perm (h : SameArea left right) (assessed : ConfigArea)
    (hfound : Detected (parseCmdline left assessed)) :
    parseCmdline right assessed = parseCmdline left assessed := by
  have hshort : left.files.length ≤ 1 := by
    unfold parseCmdline at hfound
    split at hfound
    · simp [*]
    · simp [*]
    · simp [Detected] at hfound
  rw [parseCmdline, parseCmdline, eq_of_perm_short h.files hshort]

theorem detectUpdateState_perm (h : SameArea left right)
    (hpaths : (left.files.map (·.path)).Nodup) :
    detectUpdateState right = detectUpdateState left := by
  unfold detectUpdateState
  by_cases hfiles : left.files = []
  · rw [if_pos hfiles, if_pos (h.nil_iff.mp hfiles)]
  rw [if_neg hfiles, if_neg (mt h.nil_iff.mpr hfiles)]
  have hbuild := eq_of_perm_short (h.files.filter fun file => file.path = buildInfoPath)
    (length_filter_path_le_one hpaths buildInfoPath)
  rw [← lastContent_perm h.files hpaths, ← lastContent_perm h.files hpaths, ← hbuild]

/-- What a detector finds does not depend on the order of the files. -/
theorem detectArea_perm (h : SameArea left right) (hpaths : (left.files.map (·.path)).Nodup)
    (hfound : Detected (detectArea left)) : detectArea right = detectArea left := by
  unfold detectArea at hfound ⊢
  rw [← h.area]
  cases harea : left.area with
  | machines =>
      rw [harea] at hfound
      exact detectMachines_perm h hfound
  | configManagedBlock =>
      rw [harea] at hfound
      exact detectConfigBlock_perm h hfound
  | cmdlineManagedKeys =>
      rw [harea] at hfound
      exact parseCmdline_perm h _ hfound
  | network =>
      rw [harea] at hfound
      exact parseCmdline_perm h _ hfound
  | settings =>
      rw [harea] at hfound
      exact detectSettings_perm h hfound
  | updateState =>
      exact detectUpdateState_perm h hpaths
  | unknown => rfl

end FileOrder

/-! ## Snapshots -/

theorem areasValid_iff (snapshot : ConfigSnapshot) :
    ∀ seen : List ConfigArea, areasValid seen snapshot = true ↔
      (∀ area ∈ snapshot, AreaFits area) ∧ (snapshot.map (·.area)).Nodup ∧
        ∀ area ∈ snapshot, area.area ∉ seen := by
  induction snapshot with
  | nil => simp [areasValid]
  | cons area rest ih =>
      intro seen
      simp only [areasValid, Bool.and_eq_true, decide_eq_true_eq, Bool.not_eq_true',
        List.contains_eq_mem, decide_eq_false_iff_not, ih, validateAreaSnapshotShape_iff,
        List.map_cons, List.nodup_cons, List.mem_cons, forall_eq_or_imp, List.mem_append]
      constructor
      · intro h
        obtain ⟨⟨⟨-, hfresh⟩, hfits⟩, hrest, hdistinct, hseen⟩ := h
        refine ⟨⟨hfits, hrest⟩, ⟨?_, hdistinct⟩, hfresh, ?_⟩
        · intro hmem
          obtain ⟨other, hother, harea⟩ := List.mem_map.mp hmem
          exact hseen other hother (Or.inr (by simp [harea]))
        · exact fun other hother hin => hseen other hother (Or.inl hin)
      · intro h
        obtain ⟨⟨hfits, hrest⟩, ⟨hnew, hdistinct⟩, hfresh, hseen⟩ := h
        have hknown : area.area ≠ .unknown := by
          intro hunknown
          have hk := hfits.known
          rw [hunknown] at hk
          cases hk
        refine ⟨⟨⟨hknown, hfresh⟩, hfits⟩, hrest, hdistinct, ?_⟩
        intro other hother hin
        rcases hin with hin | hin
        · exact hseen other hother hin
        · have harea : other.area = area.area := by simpa using hin
          exact hnew (harea ▸ List.mem_map_of_mem hother)

/-- A snapshot that `ValidateFullSnapshot` accepts. -/
structure SnapshotFits (snapshot : ConfigSnapshot) : Prop where
  count : snapshot.length = kConfigMigrationAreaCount
  areas : ∀ area ∈ snapshot, AreaFits area
  distinct : (snapshot.map (·.area)).Nodup
  complete : ∀ area ∈ knownAreas, ∃ source ∈ snapshot, source.area = area

theorem validateFullSnapshot_iff (snapshot : ConfigSnapshot) :
    validateFullSnapshot snapshot = true ↔ SnapshotFits snapshot := by
  simp only [validateFullSnapshot, Bool.and_eq_true, decide_eq_true_eq, areasValid_iff,
    List.all_eq_true, List.any_eq_true]
  constructor
  · intro h
    exact ⟨h.1.1, h.1.2.1, h.1.2.2.1, h.2⟩
  · intro h
    exact ⟨⟨h.count, h.areas, h.distinct, by simp⟩, h.complete⟩

theorem findArea_eq_some {snapshot : ConfigSnapshot} (h : (snapshot.map (·.area)).Nodup)
    {area : ConfigArea} {source : ConfigAreaSnapshot} :
    findArea snapshot area = some source ↔ source ∈ snapshot ∧ source.area = area := by
  constructor
  · intro hfind
    exact ⟨List.mem_of_find?_eq_some hfind, by simpa using List.find?_some hfind⟩
  · intro hsource
    obtain ⟨hin, rfl⟩ := hsource
    cases hfind : findArea snapshot source.area with
    | none =>
        rw [findArea, List.find?_eq_none] at hfind
        exact absurd (decide_eq_true rfl) (hfind source hin)
    | some other =>
        have harea : other.area = source.area := by simpa using List.find?_some hfind
        have hother := List.mem_of_find?_eq_some hfind
        rw [List.inj_on_of_nodup_map h hother hin harea]

theorem AreaFits.sameArea {left right : ConfigAreaSnapshot} (hfits : AreaFits left)
    (h : SameArea left right) : AreaFits right where
  known := h.area ▸ hfits.known
  count := h.files.length_eq ▸ hfits.count
  files := fun file hfile => h.area ▸ hfits.files file (h.files.symm.subset hfile)
  paths := (h.files.map (·.path)).nodup hfits.paths
  size := by
    have hsum := (h.files.map fun file => file.content.length).sum_nat
    rw [contentBytes, ← hsum]
    exact hfits.size

/-- One snapshot with its areas, and their files, in another order. -/
def Rearranged (left right : ConfigSnapshot) : Prop :=
  ∃ middle, left.Perm middle ∧ List.Forall₂ SameArea middle right

theorem areas_eq_of_forall₂ {left right : ConfigSnapshot} (h : List.Forall₂ SameArea left right) :
    left.map (·.area) = right.map (·.area) := by
  induction h with
  | nil => rfl
  | cons hsame _ ih => rw [List.map_cons, List.map_cons, hsame.area, ih]

theorem exists_of_forall₂ {α β : Type} {R : α → β → Prop} {left : List α} {right : List β}
    (h : List.Forall₂ R left right) :
    (∀ a ∈ left, ∃ b ∈ right, R a b) ∧ ∀ b ∈ right, ∃ a ∈ left, R a b := by
  induction h with
  | nil => simp
  | cons hab _ ih =>
      constructor
      · intro a ha
        rcases List.mem_cons.mp ha with rfl | ha
        · exact ⟨_, by simp, hab⟩
        · obtain ⟨b, hb, hab'⟩ := ih.1 a ha
          exact ⟨b, List.mem_cons_of_mem _ hb, hab'⟩
      · intro b hb
        rcases List.mem_cons.mp hb with rfl | hb
        · exact ⟨_, by simp, hab⟩
        · obtain ⟨a, ha, hab'⟩ := ih.2 b hb
          exact ⟨a, List.mem_cons_of_mem _ ha, hab'⟩

theorem SnapshotFits.rearranged {left right : ConfigSnapshot} (hfits : SnapshotFits left)
    (h : Rearranged left right) : SnapshotFits right := by
  obtain ⟨middle, hperm, hsame⟩ := h
  have hareas := areas_eq_of_forall₂ hsame
  refine ⟨?_, ?_, ?_, ?_⟩
  · rw [← hsame.length_eq, ← hperm.length_eq]
    exact hfits.count
  · intro other hother
    obtain ⟨source, hsource, hsame'⟩ := (exists_of_forall₂ hsame).2 other hother
    exact (hfits.areas source (hperm.symm.subset hsource)).sameArea hsame'
  · rw [← hareas]
    exact (hperm.map (·.area)).nodup hfits.distinct
  · intro area harea
    obtain ⟨source, hsource, rfl⟩ := hfits.complete area harea
    obtain ⟨other, hother, hsame'⟩ := (exists_of_forall₂ hsame).1 source (hperm.subset hsource)
    exact ⟨other, hother, hsame'.area.symm⟩

theorem findArea_rearranged {left right : ConfigSnapshot} (hfits : SnapshotFits left)
    (h : Rearranged left right) {area : ConfigArea} {source : ConfigAreaSnapshot}
    (hfind : findArea left area = some source) :
    ∃ other, findArea right area = some other ∧ SameArea source other := by
  have hright := hfits.rearranged h
  obtain ⟨middle, hperm, hsame⟩ := h
  obtain ⟨hin, harea⟩ := (findArea_eq_some hfits.distinct).mp hfind
  obtain ⟨other, hother, hsame'⟩ := (exists_of_forall₂ hsame).1 source (hperm.subset hin)
  refine ⟨other, (findArea_eq_some hright.distinct).mpr ⟨hother, ?_⟩, hsame'⟩
  rw [← hsame'.area, harea]

/-! ## Schemas and migrations -/

theorem requirementsValid_iff (requirements : List ConfigSchemaRequirement) :
    ∀ seen : List ConfigArea, requirementsValid seen requirements = true ↔
      (∀ requirement ∈ requirements, requirementIsValid requirement = true) ∧
        (requirements.map (·.area)).Nodup ∧
        ∀ requirement ∈ requirements, requirement.area ∉ seen := by
  induction requirements with
  | nil => simp [requirementsValid]
  | cons requirement rest ih =>
      intro seen
      simp only [requirementsValid, Bool.and_eq_true, Bool.not_eq_true', List.contains_eq_mem,
        decide_eq_false_iff_not, ih, List.map_cons, List.nodup_cons, List.mem_cons,
        forall_eq_or_imp, List.mem_append]
      constructor
      · intro h
        obtain ⟨⟨hvalid, hfresh⟩, hrest, hdistinct, hseen⟩ := h
        refine ⟨⟨hvalid, hrest⟩, ⟨?_, hdistinct⟩, hfresh, ?_⟩
        · intro hmem
          obtain ⟨other, hother, harea⟩ := List.mem_map.mp hmem
          exact hseen other hother (Or.inr (by simp [harea]))
        · exact fun other hother hin => hseen other hother (Or.inl hin)
      · intro h
        obtain ⟨⟨hvalid, hrest⟩, ⟨hnew, hdistinct⟩, hfresh, hseen⟩ := h
        refine ⟨⟨hvalid, hfresh⟩, hrest, hdistinct, ?_⟩
        intro other hother hin
        rcases hin with hin | hin
        · exact hseen other hother hin
        · have harea : other.area = requirement.area := by simpa using hin
          exact hnew (harea ▸ List.mem_map_of_mem hother)

/-- Two declarations that may not stand together: one identifier, or one transition. -/
def Clash (left right : DeclaredConfigMigration) : Prop :=
  left.id = right.id ∨ (left.area = right.area ∧ left.fromVersion = right.fromVersion ∧
    left.toVersion = right.toVersion)

/-- What the declarations are checked for one by one. -/
structure DeclarationFits (requirements : List ConfigSchemaRequirement)
    (declaration : DeclaredConfigMigration) : Prop where
  known : isKnownConfigArea declaration.area = true
  fromVersion : declaration.fromVersion ≠ 0
  toVersion : declaration.toVersion ≠ 0
  compiled : findCompiledMigration declaration.id = some declaration
  schema : ∃ requirement, findRequirement requirements declaration.area = some requirement ∧
    requirement.targetVersion = declaration.toVersion ∧
    versionIsAccepted requirement declaration.fromVersion = false

theorem compiled_eq {left right : DeclaredConfigMigration} (hid : left.id = right.id)
    (h : ¬ (left.area ≠ right.area ∨ left.fromVersion ≠ right.fromVersion ∨
      left.toVersion ≠ right.toVersion ∨ left.lossy ≠ right.lossy)) : left = right := by
  simp only [not_or, not_not] at h
  cases left
  cases right
  simp only [DeclaredConfigMigration.mk.injEq]
  exact ⟨hid, h.1, h.2.1, h.2.2.1, h.2.2.2⟩

theorem id_of_findCompiledMigration {id : Bytes} {compiled : DeclaredConfigMigration}
    (h : findCompiledMigration id = some compiled) :
    compiled.id = id ∧ compiled ∈ kCompiledMigrations ∧ id ≠ [] ∧
      id.length ≤ kMaximumConfigMigrationIdBytes := by
  simp only [findCompiledMigration] at h
  split at h
  · cases h
  · rename_i hid
    rw [not_or] at hid
    refine ⟨by simpa using List.find?_some h, List.mem_of_find?_eq_some h, hid.1, by omega⟩

theorem declarationsStatus_iff {requirements : List ConfigSchemaRequirement}
    (migrations : List DeclaredConfigMigration) :
    ∀ prior : List DeclaredConfigMigration,
      declarationsStatus requirements prior migrations = .valid ↔
        (∀ declaration ∈ migrations, DeclarationFits requirements declaration) ∧
          migrations.Pairwise (fun a b => ¬ Clash a b) ∧
          ∀ declaration ∈ migrations, ∀ other ∈ prior, ¬ Clash other declaration := by
  induction migrations with
  | nil => simp [declarationsStatus]
  | cons declaration rest ih =>
      intro prior
      have hprior : (prior.any fun other => other.id = declaration.id ||
          (other.area = declaration.area && other.fromVersion = declaration.fromVersion &&
            other.toVersion = declaration.toVersion)) = true ↔
          ∃ other ∈ prior, Clash other declaration := by
        simp [Clash, and_assoc]
      simp only [declarationsStatus]
      constructor
      · intro h
        split at h
        · cases h
        rename_i hinput
        split at h
        · cases h
        rename_i hfresh
        rw [hprior] at hfresh
        split at h
        · cases h
        rename_i compiled hcompiled
        split at h
        · cases h
        rename_i hmatch
        split at h
        · cases h
        rename_i requirement hrequirement
        split at h
        · cases h
        rename_i hschema
        simp only [not_or, Bool.not_eq_false] at hinput
        simp only [not_or, not_not, Bool.not_eq_true] at hschema
        obtain ⟨hfits, hpairs, hclash⟩ := (ih _).mp h
        have hsame := compiled_eq (id_of_findCompiledMigration hcompiled).1 hmatch
        have hdeclaration : DeclarationFits requirements declaration :=
          ⟨hinput.2.2.1, hinput.2.2.2.1, hinput.2.2.2.2.1, hsame ▸ hcompiled,
            requirement, hrequirement, hschema⟩
        refine ⟨?_, List.pairwise_cons.mpr ⟨?_, hpairs⟩, ?_⟩
        · intro other hother
          rcases List.mem_cons.mp hother with rfl | hother
          · exact hdeclaration
          · exact hfits other hother
        · exact fun other hother => hclash other hother declaration (by simp)
        · intro other hother before hbefore hclash'
          rcases List.mem_cons.mp hother with rfl | hother
          · exact hfresh ⟨before, hbefore, hclash'⟩
          · exact hclash other hother before (by simp [hbefore]) hclash'
      · intro h
        obtain ⟨hfits, hpairs, hclash⟩ := h
        have hdeclaration := hfits declaration (by simp)
        obtain ⟨hsame, hmem, hid, hlength⟩ := id_of_findCompiledMigration hdeclaration.compiled
        obtain ⟨requirement, hrequirement, htarget, haccepted⟩ := hdeclaration.schema
        have hdiffer : declaration.fromVersion ≠ declaration.toVersion := by
          revert hmem
          simp only [kCompiledMigrations, List.mem_cons, List.not_mem_nil, or_false]
          intro hmem
          rcases hmem with h | h | h | h | h | h | h | h | h | h | h <;> rw [h] <;> decide
        rw [if_neg (by
          simp only [not_or, Bool.not_eq_false]
          exact ⟨hid, by omega, hdeclaration.known, hdeclaration.fromVersion,
            hdeclaration.toVersion, hdiffer⟩)]
        rw [if_neg (by
          rw [hprior]
          intro hex
          obtain ⟨other, hother, hclash'⟩ := hex
          exact hclash declaration (by simp) other hother hclash')]
        rw [hdeclaration.compiled]
        dsimp only
        rw [if_neg (by simp), hrequirement]
        dsimp only
        rw [if_neg (by simp [htarget, haccepted]), ih]
        rw [List.pairwise_cons] at hpairs
        refine ⟨fun other hother => hfits other (List.mem_cons_of_mem _ hother), hpairs.2, ?_⟩
        intro other hother before hbefore
        rcases List.mem_append.mp hbefore with hbefore | hbefore
        · exact hclash other (List.mem_cons_of_mem _ hother) before hbefore
        · rw [List.mem_singleton.mp hbefore]
          exact hpairs.1 other hother

/-- Rules that `ValidateConfigMigrationDeclarations` accepts. -/
structure RulesFit (requirements : List ConfigSchemaRequirement)
    (migrations : List DeclaredConfigMigration) : Prop where
  requirementCount : requirements.length = kConfigMigrationAreaCount
  migrationCount : migrations.length ≤ kMaximumDeclaredConfigMigrations
  requirement : ∀ requirement ∈ requirements, requirementIsValid requirement = true
  distinct : (requirements.map (·.area)).Nodup
  declaration : ∀ declaration ∈ migrations, DeclarationFits requirements declaration
  noClash : migrations.Pairwise fun a b => ¬ Clash a b

theorem validateConfigMigrationDeclarations_iff (requirements : List ConfigSchemaRequirement)
    (migrations : List DeclaredConfigMigration) :
    validateConfigMigrationDeclarations requirements migrations = .valid ↔
      RulesFit requirements migrations := by
  unfold validateConfigMigrationDeclarations
  constructor
  · intro h
    split at h
    · cases h
    rename_i hcounts
    split at h
    · cases h
    rename_i hvalid
    rw [not_or, not_not] at hcounts
    rw [Bool.not_eq_false, requirementsValid_iff] at hvalid
    obtain ⟨hdeclarations, hpairs, -⟩ := (declarationsStatus_iff migrations []).mp h
    exact ⟨hcounts.1, by omega, hvalid.1, hvalid.2.1, hdeclarations, hpairs⟩
  · intro h
    have hvalid : requirementsValid [] requirements = true :=
      (requirementsValid_iff requirements []).mpr ⟨h.requirement, h.distinct, by simp⟩
    have hmigrations := h.migrationCount
    rw [if_neg (by
      rw [not_or, not_not]
      exact ⟨h.requirementCount, by omega⟩), if_neg (by simp [hvalid])]
    exact (declarationsStatus_iff migrations []).mpr ⟨h.declaration, h.noClash, by simp⟩

theorem Clash.symm {left right : DeclaredConfigMigration} (h : Clash left right) :
    Clash right left := by
  rcases h with h | ⟨harea, hfrom, hto⟩
  · exact Or.inl h.symm
  · exact Or.inr ⟨harea.symm, hfrom.symm, hto.symm⟩

section RuleOrder

variable {requirements requirements' : List ConfigSchemaRequirement}
  {migrations migrations' : List DeclaredConfigMigration}

theorem findRequirement_perm (h : (requirements.map (·.area)).Nodup)
    (hperm : requirements.Perm requirements') (area : ConfigArea) :
    findRequirement requirements area = findRequirement requirements' area := by
  apply find?_eq_of_perm _ hperm
  intro a ha b hb harea harea'
  simp only [decide_eq_true_eq] at harea harea'
  exact List.inj_on_of_nodup_map h ha hb (harea.trans harea'.symm)

theorem findDeclaredMigration_perm (h : migrations.Pairwise fun a b => ¬ Clash a b)
    (hperm : migrations.Perm migrations') (area : ConfigArea) (fromVersion toVersion : Nat) :
    findDeclaredMigration migrations area fromVersion toVersion =
      findDeclaredMigration migrations' area fromVersion toVersion := by
  apply find?_eq_of_perm _ hperm
  intro a ha b hb hsame hsame'
  simp only [Bool.and_eq_true, decide_eq_true_eq] at hsame hsame'
  by_contra hne
  have hsymm : Std.Symm fun a b : DeclaredConfigMigration => ¬ Clash a b :=
    ⟨fun _ _ hnot hclash => hnot hclash.symm⟩
  refine h.forall ha hb hne (Or.inr ⟨?_, ?_, ?_⟩)
  · rw [hsame.1.1, hsame'.1.1]
  · rw [hsame.1.2, hsame'.1.2]
  · rw [hsame.2, hsame'.2]

theorem RulesFit.perm (h : RulesFit requirements migrations)
    (hrequirements : requirements.Perm requirements') (hmigrations : migrations.Perm migrations') :
    RulesFit requirements' migrations' where
  requirementCount := hrequirements.length_eq ▸ h.requirementCount
  migrationCount := hmigrations.length_eq ▸ h.migrationCount
  requirement := fun r hr => h.requirement r (hrequirements.symm.subset hr)
  distinct := (hrequirements.map (·.area)).nodup h.distinct
  declaration := by
    intro declaration hdeclaration
    have hfits := h.declaration declaration (hmigrations.symm.subset hdeclaration)
    obtain ⟨requirement, hfind, hversions⟩ := hfits.schema
    rw [findRequirement_perm h.distinct hrequirements] at hfind
    exact ⟨hfits.known, hfits.fromVersion, hfits.toVersion, hfits.compiled, requirement, hfind,
      hversions⟩
  noClash := hmigrations.pairwise h.noClash fun hnot hclash => hnot hclash.symm

end RuleOrder

/-! ## Assessment -/

section Assessment

variable {hash : Bytes → Digest} {requirements requirements' : List ConfigSchemaRequirement}
  {migrations migrations' : List DeclaredConfigMigration}

/-- An assessment that an update can be installed over. -/
def Installable (assessment : ConfigAreaAssessment) : Prop :=
  assessment.classification = .compatible ∨ assessment.classification = .losslessMigration ∨
    assessment.classification = .resetRequired

theorem detected_of_classify {requirement : ConfigSchemaRequirement} {result : DetectionResult}
    (h : (classify requirement migrations result).1 ≠ .unknownOrCorrupt) : Detected result := by
  by_contra hnot
  apply h
  rw [classify, if_neg]
  exact hnot

theorem assessArea_detected {requirement : ConfigSchemaRequirement} {source : ConfigAreaSnapshot}
    (h : Installable (assessArea hash requirement migrations source)) :
    Detected (detectArea source) := by
  refine @detected_of_classify migrations requirement _ fun hblocked => ?_
  have hclass : (assessArea hash requirement migrations source).classification =
      .unknownOrCorrupt := hblocked
  simp [Installable, hclass] at h

/-! ### The tally of a plan -/

theorem foldl_countArea_areas (areas : List ConfigAreaAssessment) :
    ∀ plan : ConfigMigrationPlan, (areas.foldl countArea plan).areas = plan.areas := by
  induction areas with
  | nil => exact fun _ => rfl
  | cons area rest ih =>
      intro plan
      rw [List.foldl_cons, ih]
      unfold countArea
      split <;> rfl

@[simp] theorem recomputePlanDecision_areas (areas : List ConfigAreaAssessment) :
    (recomputePlanDecision areas).areas = areas :=
  foldl_countArea_areas areas _

/-- The decision that goes with the counts of a plan that is not blocked. -/
def decisionOf (migrations resets : Nat) : ConfigPlanDecision :=
  if resets ≠ 0 then .resetConfirmationRequired
  else if migrations ≠ 0 then .losslessMigration
  else .compatible

/-- What has been counted after some areas, none of them blocked. -/
structure Tally (done : List ConfigAreaAssessment) (plan : ConfigMigrationPlan) : Prop where
  compatible : plan.compatibleCount = done.countP (·.classification = .compatible)
  migrations : plan.migrationCount = done.countP (·.classification = .losslessMigration)
  resets : plan.resetCount = done.countP (·.classification = .resetRequired)
  blocked : plan.blockedCount = 0
  decision : plan.decision = decisionOf plan.migrationCount plan.resetCount

theorem Tally.step {done : List ConfigAreaAssessment} {plan : ConfigMigrationPlan}
    {area : ConfigAreaAssessment} (h : Tally done plan) (harea : Installable area) :
    Tally (done ++ [area]) (countArea plan area) := by
  rcases harea with hclass | hclass | hclass
  · constructor <;>
      simp [countArea, hclass, h.compatible, h.migrations, h.resets, h.blocked, h.decision]
  · constructor <;>
      simp [countArea, hclass, h.compatible, h.migrations, h.resets, h.blocked, h.decision]
    unfold decisionOf
    split_ifs <;> simp_all
  · constructor <;>
      simp [countArea, hclass, h.compatible, h.migrations, h.resets, h.blocked, h.decision]
    unfold decisionOf
    split_ifs <;> simp_all

theorem Tally.foldl {areas : List ConfigAreaAssessment}
    (hareas : ∀ area ∈ areas, Installable area) :
    ∀ {done : List ConfigAreaAssessment} {plan : ConfigMigrationPlan}, Tally done plan →
      Tally (done ++ areas) (areas.foldl countArea plan) := by
  induction areas with
  | nil =>
      intro done plan h
      simpa using h
  | cons area rest ih =>
      intro done plan h
      have hstep := h.step (hareas area (by simp))
      have hrest := ih (fun a ha => hareas a (List.mem_cons_of_mem _ ha)) hstep
      rw [List.append_assoc] at hrest
      exact hrest

theorem tally_recomputePlanDecision {areas : List ConfigAreaAssessment}
    (hareas : ∀ area ∈ areas, Installable area) : Tally areas (recomputePlanDecision areas) := by
  have hstart : Tally [] (⟨areas, .compatible, 0, 0, 0, 0⟩ : ConfigMigrationPlan) := by
    constructor <;> simp [decisionOf]
  have hall := hstart.foldl hareas
  rwa [List.nil_append] at hall

/-- Areas that are not blocked are of one of the three kinds. -/
theorem Tally.count_eq {areas : List ConfigAreaAssessment}
    (hareas : ∀ area ∈ areas, Installable area) :
    areas.countP (·.classification = .compatible) +
      areas.countP (·.classification = .losslessMigration) +
      areas.countP (·.classification = .resetRequired) = areas.length := by
  induction areas with
  | nil => rfl
  | cons area rest ih =>
      have hrest := ih fun a ha => hareas a (List.mem_cons_of_mem _ ha)
      rw [List.countP_cons, List.countP_cons, List.countP_cons, List.length_cons]
      rcases hareas area (by simp) with hclass | hclass | hclass <;> (simp [hclass]; omega)

theorem isConsentClassification_iff (area : ConfigAreaAssessment) :
    isConsentClassification area.classification = true ↔ Installable area := by
  unfold isConsentClassification Installable
  cases area.classification <;> simp

/-- The assessment of an area does not depend on the order of files and migrations. -/
theorem assessArea_perm {requirement : ConfigSchemaRequirement}
    {left right : ConfigAreaSnapshot} (hfits : AreaFits left) (hsame : SameArea left right)
    (hclash : migrations.Pairwise fun a b => ¬ Clash a b) (hmigrations : migrations.Perm migrations')
    (h : Installable (assessArea hash requirement migrations left)) :
    assessArea hash requirement migrations' right =
      assessArea hash requirement migrations left := by
  have hdetect := detectArea_perm hsame hfits.paths (assessArea_detected h)
  have hencode := (encodeArea_eq_iff hfits (hfits.sameArea hsame)).mpr ⟨hsame.area, hsame.files⟩
  unfold assessArea classify
  simp only [hdetect, hashAreaSnapshot, ← hencode, ← hsame.area,
    findDeclaredMigration_perm hclash hmigrations]

theorem assessAreas_rearranged {left right : ConfigSnapshot} (hfits : SnapshotFits left)
    (hrules : RulesFit requirements migrations) (hsnapshot : Rearranged left right)
    (hrequirements : requirements.Perm requirements') (hmigrations : migrations.Perm migrations') :
    ∀ {areas : List ConfigArea} {assessments : List ConfigAreaAssessment},
      assessAreas hash left requirements migrations areas = .ok assessments →
      (∀ assessment ∈ assessments, Installable assessment) →
      assessAreas hash right requirements' migrations' areas = .ok assessments := by
  intro areas
  induction areas with
  | nil => exact fun h _ => h
  | cons area rest ih =>
      intro assessments h hinstallable
      simp only [assessAreas] at h ⊢
      split at h
      · rename_i source requirement hsource hrequirement
        split at h
        · cases h
        rename_i tail htail
        cases h
        obtain ⟨other, hother, hsame⟩ := findArea_rearranged hfits hsnapshot hsource
        have hareaFits : AreaFits source :=
          hfits.areas source ((findArea_eq_some hfits.distinct).mp hsource).1
        rw [findRequirement_perm hrules.distinct hrequirements] at hrequirement
        rw [hother, hrequirement]
        dsimp only
        rw [ih htail fun a ha => hinstallable a (List.mem_cons_of_mem _ ha)]
        dsimp only
        rw [assessArea_perm hareaFits hsame hrules.noClash hmigrations
          (hinstallable _ (by simp))]
      · cases h

/-- The plan of a snapshot that an update can be installed over is that of the snapshot
with its areas and files, and the rules, in another order. -/
theorem assessConfigSnapshot_rearranged {left right : ConfigSnapshot}
    {plan : ConfigMigrationPlan} (hsnapshot : Rearranged left right)
    (hrequirements : requirements.Perm requirements') (hmigrations : migrations.Perm migrations')
    (h : assessConfigSnapshot hash left requirements migrations = .ok plan)
    (hinstallable : ∀ assessment ∈ plan.areas, Installable assessment) :
    assessConfigSnapshot hash right requirements' migrations' = .ok plan := by
  unfold assessConfigSnapshot at h ⊢
  split at h
  · cases h
  rename_i hvalid
  split at h
  · cases h
  rename_i hrules
  rw [Bool.not_eq_false, validateFullSnapshot_iff] at hvalid
  rw [not_not, validateConfigMigrationDeclarations_iff] at hrules
  split at h
  · cases h
  rename_i assessments hassess
  cases h
  have hright := (validateFullSnapshot_iff right).mpr (hvalid.rearranged hsnapshot)
  have hrules' := (validateConfigMigrationDeclarations_iff _ _).mpr
    (hrules.perm hrequirements hmigrations)
  rw [if_neg (by simp [hright]), if_neg (by simp [hrules']),
    assessAreas_rearranged hvalid hrules hsnapshot hrequirements hmigrations hassess
      (by simpa using hinstallable)]

end Assessment

end Config

end BmxUpdate
