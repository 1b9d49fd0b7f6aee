import BmxUpdate.Installer.PlanWriting

/-!
# The plan of a live tree

The records of the prepared plan as a function of the volume it is made on.  A
file already holds its new content, so that the update leaves it alone, exactly
if its record is a no-op; for a configuration the record trusts what consent was
given for, so this asks that the live file still is that.
-/

namespace BmxUpdate

open Crash Volumes Wire

namespace Env

variable {env : Env} {allow : Fault → Prop} {I : Volume → Prop} {s : EngineState} {d : Volume}

/-! ## The records -/

/-- The record `WriteContentPlanFile` makes of a live file. -/
def sourceRecord (env : Env) (d : Volume) (file : ManifestFile) : ContentPlanRecord :=
  match d.fileAt file.path with
  | none => ⟨false, false, false, 0, .zero 32⟩
  | some content =>
      match (env.preparedConfig file).filter (·.originalExisted) with
      | some prepared =>
          env.classifyRecord file content.length prepared.originalSize.toNat
            (some prepared.originalSha256)
      | none =>
          if file.policy = .metadata ∨
              (file.policy ≠ .preserve ∧ content.length = env.effectiveSize file) then
            env.classifyRecord file content.length content.length (some (env.sha256 content))
          else env.classifyRecord file content.length content.length none

/-- The records of the prepared plan of a live tree. -/
def sourceRecords (env : Env) (d : Volume) : List ContentPlanRecord :=
  env.asset.files.map (env.sourceRecord d)

theorem getElem?_sourceRecords {index : Nat} {file : ManifestFile}
    (h : env.asset.files[index]? = some file) :
    (env.sourceRecords d)[index]? = some (env.sourceRecord d file) := by
  simp [sourceRecords, h]

/-- The manifest's files lie outside the transaction root. -/
def LiveOutside (env : Env) : Prop := ∀ file ∈ env.asset.files, ¬env.root <+: file.path

theorem root_le_contentPlanPath (finalPlan : Bool) : env.root <+: env.contentPlanPath finalPlan := by
  simp [contentPlanPath, stateRoot]

theorem root_le_planTemporary (finalPlan : Bool) : env.root <+: env.planTemporary finalPlan := by
  unfold planTemporary contentPlanPath
  rw [addSuffix_concat]
  simp [stateRoot]

theorem keeps_hashFile {E : Unit → Prop} {Q : Digest × Nat → EngineState → Volume → Prop}
    {path : Path} (hI : I d) (hfine : Fine allow s) (hmissing : d.fileAt path = none → E ())
    (h : ∀ content, d.fileAt path = some content →
      Q (env.sha256 content, content.length) s d) :
    keeps allow I E (env.hashFile path) Q s d := by
  refine keeps_bind (keeps_readFile hI hmissing fun content hcontent => ?_)
  exact keeps_bind (keeps_progressFor hI hfine (keeps_pure (h content hcontent)))

/-- The record of one file, wherever no directory has its path. -/
theorem keeps_preparedPlanRecord {E : InstallerFailure → Prop}
    {Q : ContentPlanRecord → EngineState → Volume → Prop} {file : ManifestFile} (hI : I d)
    (hfine : Fine allow s) (hdirectory : d.nodeAt file.path = some .directory → E .fileSystemError)
    (h : Q (env.sourceRecord d file) s d) :
    keeps allow I E (env.preparedPlanRecord file) Q s d := by
  refine keeps_bind (keeps_orElse (E := fun _ => False) (keeps_stat hI ?_) (by simp))
  rcases hnode : d.nodeAt file.path with _ | content | _
  · have hrecord : env.sourceRecord d file = ⟨false, false, false, 0, .zero 32⟩ := by
      simp [sourceRecord, Volume.fileAt, hnode]
    rw [hrecord] at h
    exact keeps_pure h
  · have hfile : d.fileAt file.path = some content := Volume.fileAt_eq_some_iff.mpr hnode
    unfold sourceRecord at h
    rw [hfile] at h
    simp only [statOf]
    cases hprepared : (env.preparedConfig file).filter (·.originalExisted) with
    | some prepared =>
        rw [hprepared] at h
        exact keeps_pure h
    | none =>
        rw [hprepared] at h
        dsimp only at h
        refine keeps_ite (fun hhashed => ?_) fun hhashed => ?_
        · rw [if_pos hhashed] at h
          refine keeps_bind (keeps_orElse (E := fun _ => False) (keeps_hashFile hI hfine
            (fun hmissing => by simp [hmissing] at hfile) fun found hfound => ?_) (by simp))
          obtain rfl : content = found := by simpa [hfile] using hfound
          exact keeps_bind (keeps_check (fun hrefused => absurd rfl hrefused) fun _ =>
            keeps_pure h)
        · rw [if_neg hhashed] at h
          exact keeps_pure h
  · exact keeps_throw hI (hdirectory hnode)

theorem sourceRecord_congr {d' : Volume} {file : ManifestFile}
    (h : d'.nodeAt file.path = d.nodeAt file.path) :
    env.sourceRecord d' file = env.sourceRecord d file := by
  unfold sourceRecord Volume.fileAt
  rw [h]

/-- The writer of the prepared plan collects the records of the live tree. -/
theorem collects_sourceRecords {E : InstallerFailure → Prop} (hfine : Fine allow s)
    (hlive : env.LiveOutside)
    (hdirectory : ∀ file ∈ env.asset.files, d.nodeAt file.path = some .directory →
      E .fileSystemError) :
    env.Collects allow E false (env.sourceRecords d) s d := by
  intro d' hd'
  have hsame : ∀ file ∈ env.asset.files, d'.nodeAt file.path = d.nodeAt file.path := by
    intro file hfile
    exact hd' _ fun h => hlive file hfile (h ▸ root_le_planTemporary false)
  refine keeps_mapIndexed (fun s' d'' => s' = s ∧ d'' = d')
    (fun _ file => env.sourceRecord d file) ?_ ⟨rfl, rfl⟩ ?_
  · rintro j file _ _ hfile ⟨rfl, rfl⟩
    have hmem := List.mem_of_getElem? hfile
    refine keeps_preparedPlanRecord rfl hfine (fun hnode => hdirectory file hmem ?_) ?_
    · rw [← hsame file hmem, hnode]
    · exact ⟨sourceRecord_congr (hsame file hmem), rfl, rfl⟩
  · rintro _ _ ⟨rfl, rfl⟩
    exact ⟨List.mapIdx_eq_iff.mpr fun i => by simp [sourceRecords], rfl⟩

/-! ## What the records say -/

/-- The live file has the size and the digest the update gives it. -/
def UpToDate (env : Env) (d : Volume) (file : ManifestFile) : Prop :=
  ∃ content, d.fileAt file.path = some content ∧ content.length = env.effectiveSize file ∧
    env.sha256 content = env.effectiveDigest file

/-- A configuration prepared from an old one is still that one, if it is there:
what `ValidatePreparedConfigs` asks of a transaction it does not resume. -/
def Consented (env : Env) (d : Volume) : Prop :=
  ∀ file ∈ env.asset.files, ∀ prepared, env.preparedConfig file = some prepared →
    prepared.originalExisted = true → ∀ content, d.fileAt file.path = some content →
    content.length = prepared.originalSize.toNat ∧
      env.sha256 content = prepared.originalSha256

/-- File sizes are 64-bit words. -/
def SizesFit (d : Volume) : Prop := ∀ p content, d.fileAt p = some content → content.length < 2 ^ 64

theorem sourceRecord_missing {file : ManifestFile} (h : d.fileAt file.path = none) :
    env.sourceRecord d file = ⟨false, false, false, 0, .zero 32⟩ := by
  unfold sourceRecord
  rw [h]

/-- Where the live file is what consent was given for, its record is made of its
own size, and of its own digest or none. -/
theorem sourceRecord_present {file : ManifestFile} {content : Content}
    (hconsent : env.Consented d) (hmem : file ∈ env.asset.files)
    (h : d.fileAt file.path = some content) :
    (env.sourceRecord d file =
        env.classifyRecord file content.length content.length (some (env.sha256 content))) ∨
      (env.sourceRecord d file = env.classifyRecord file content.length content.length none ∧
        file.policy ≠ .metadata ∧
        ¬(file.policy ≠ .preserve ∧ content.length = env.effectiveSize file)) := by
  unfold sourceRecord
  rw [h]
  dsimp only
  cases hprepared : (env.preparedConfig file).filter (·.originalExisted) with
  | some prepared =>
      rw [Option.filter_eq_some_iff] at hprepared
      obtain ⟨hlength, hdigest⟩ := hconsent file hmem prepared hprepared.1 hprepared.2 content h
      left
      dsimp only
      rw [← hlength, ← hdigest]
  | none =>
      dsimp only
      split
      · exact Or.inl rfl
      · right
        refine ⟨rfl, fun hpolicy => ?_, fun hsize => ?_⟩
        · exact ‹¬_› (Or.inl hpolicy)
        · exact ‹¬_› (Or.inr hsize)

theorem sourceRecord_encodable {file : ManifestFile} (hconsent : env.Consented d)
    (hsizes : SizesFit d) (hmem : file ∈ env.asset.files) :
    (env.sourceRecord d file).Encodable := by
  cases h : d.fileAt file.path with
  | none =>
      rw [sourceRecord_missing h]
      exact ⟨by decide, by decide⟩
  | some content =>
      have hsize := hsizes _ _ h
      rcases sourceRecord_present hconsent hmem h with hrecord | ⟨hrecord, -⟩
      · rw [hrecord]
        exact ⟨by simp [ContentPlanRecord.Consistent, classifyRecord], hsize⟩
      · rw [hrecord]
        exact ⟨by simp [ContentPlanRecord.Consistent, classifyRecord], hsize⟩

/-- A no-op is a file that is up to date and not preserved. -/
theorem sourceRecord_noop {file : ManifestFile} (hconsent : env.Consented d)
    (hmem : file ∈ env.asset.files) :
    (env.sourceRecord d file).noop = true ↔ file.policy ≠ .preserve ∧ env.UpToDate d file := by
  unfold UpToDate
  cases h : d.fileAt file.path with
  | none => simp [sourceRecord_missing h]
  | some content =>
      rcases sourceRecord_present hconsent hmem h with hrecord | ⟨hrecord, -, hnot⟩
      · rw [hrecord]
        simp [classifyRecord, and_assoc]
      · rw [hrecord]
        simp only [classifyRecord]
        constructor
        · simp
        · rintro ⟨hpolicy, found, hfound, hsize, -⟩
          obtain rfl : content = found := by simpa using hfound
          exact absurd ⟨hpolicy, hsize⟩ hnot

theorem sourceRecord_fits {file : ManifestFile} (hconsent : env.Consented d)
    (hmem : file ∈ env.asset.files) :
    env.planRecordFits false file (env.sourceRecord d file) = true := by
  cases h : d.fileAt file.path with
  | none => simp [sourceRecord_missing h, planRecordFits]
  | some content =>
      rcases sourceRecord_present hconsent hmem h with hrecord | ⟨hrecord, -⟩
      · rw [hrecord]
        simp only [planRecordFits, classifyRecord, Bool.false_and, Bool.not_false, Bool.true_or,
          Bool.and_true, Option.getD_some, Option.some.injEq]
        by_cases hsize : content.length = env.effectiveSize file
        · by_cases hdigest : env.sha256 content = env.effectiveDigest file <;>
            simp [hsize, hdigest]
        · simp [hsize]
      · rw [hrecord]
        simp [planRecordFits, classifyRecord]

theorem planRecords_sourceRecords (hconsent : env.Consented d) (hsizes : SizesFit d) :
    env.PlanRecords false (env.sourceRecords d) where
  length := by simp [sourceRecords]
  encodable := by
    intro r hr
    simp only [sourceRecords, List.mem_map] at hr
    obtain ⟨file, hmem, rfl⟩ := hr
    exact sourceRecord_encodable hconsent hsizes hmem
  fits := by
    intro i file r hfile hr
    rw [getElem?_sourceRecords hfile, Option.some.injEq] at hr
    subst hr
    exact sourceRecord_fits hconsent (List.mem_of_getElem? hfile)

end Env

end BmxUpdate
