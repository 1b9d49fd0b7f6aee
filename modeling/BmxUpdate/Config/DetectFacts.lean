import BmxUpdate.Config.AreaDigest

/-!
# What the detectors find

A version that a detector finds is a positive 32-bit number, an area is missing only
when it has no files, and what is found does not depend on the order of the files.
-/

namespace BmxUpdate

namespace Config

open Wire Http

/-- A positive 32-bit number. -/
def VersionFits (version : Nat) : Prop := 0 < version ∧ version < 2 ^ 32

/-! ## Versions -/

theorem decimalValue_lt {value : Bytes} :
    ∀ {result version : Nat}, result < 2 ^ 32 → decimalValue result value = some version →
      version < 2 ^ 32 := by
  induction value with
  | nil =>
      intro result version hresult h
      simp only [decimalValue, Option.some.injEq] at h
      omega
  | cons digit rest ih =>
      intro result version hresult h
      simp only [decimalValue] at h
      split_ifs at h with hdigit hoverflow
      have hbyte := digit.toNat_lt
      exact ih (by omega) h

theorem parsePositiveDecimal_fits {value : Bytes} {version : Nat}
    (h : parsePositiveDecimal value = some version) : VersionFits version := by
  simp only [parsePositiveDecimal] at h
  split_ifs at h
  obtain ⟨result, hresult, hversion⟩ := Option.bind_eq_some_iff.mp h
  split_ifs at hversion with hzero
  have hlt := decimalValue_lt (by omega) hresult
  simp only [Option.some.injEq] at hversion
  constructor <;> omega

theorem parseTextSchemaHeader_fits {line : Bytes} {area : ConfigArea} {version : Nat}
    (h : parseTextSchemaHeader line area = .valid version) : VersionFits version := by
  simp only [parseTextSchemaHeader] at h
  split_ifs at h
  split at h
  · cases h
  · split_ifs at h
    split at h
    · cases h
    · rename_i hversion
      cases h
      exact parsePositiveDecimal_fits hversion

/-- What is not found is at fault: neither valid nor missing. -/
def FaultsOnly {α : Type} (found : Except ConfigDetectionDetail α) : Prop :=
  ∀ detail, found = .error detail → detail ≠ .valid ∧ detail ≠ .missing

@[simp] theorem faultsOnly_ok {α : Type} (value : α) :
    FaultsOnly (.ok value : Except ConfigDetectionDetail α) := nofun

@[simp] theorem faultsOnly_error {α : Type} (detail : ConfigDetectionDetail) :
    FaultsOnly (.error detail : Except ConfigDetectionDetail α) ↔
      detail ≠ .valid ∧ detail ≠ .missing := by
  simp [FaultsOnly]

theorem FaultsOnly.error {α β : Type} {found : Except ConfigDetectionDetail α}
    {detail : ConfigDetectionDetail} (h : FaultsOnly found) (hdetail : found = .error detail) :
    FaultsOnly (.error detail : Except ConfigDetectionDetail β) := by
  simpa using h detail hdetail

/-- An invariant of the lines is an invariant of the scan. -/
theorem scanLines_keeps {σ : Type} {P : σ → Prop}
    {step : σ → Bytes → Except ConfigDetectionDetail σ}
    (hstep : ∀ state line next, P state → step state line = .ok next → P next) :
    ∀ {lines : List (Option Bytes)} {state last : σ}, P state →
      scanLines step state lines = .ok last → P last := by
  intro lines
  induction lines with
  | nil =>
      intro state last hP h
      simp only [scanLines, Except.ok.injEq] at h
      exact h ▸ hP
  | cons line rest ih =>
      intro state last hP h
      cases line with
      | none => simp [scanLines] at h
      | some raw =>
          simp only [scanLines] at h
          split at h
          · cases h
          · rename_i next hnext
            exact ih (hstep _ _ _ hP hnext) h

/-- The faults of a scan are those of its lines. -/
theorem scanLines_faults {σ : Type} {step : σ → Bytes → Except ConfigDetectionDetail σ}
    (hstep : ∀ state line, FaultsOnly (step state line)) :
    ∀ (lines : List (Option Bytes)) (state : σ), FaultsOnly (scanLines step state lines) := by
  intro lines
  induction lines with
  | nil => simp [scanLines]
  | cons line rest ih =>
      intro state
      cases line with
      | none => simp [scanLines]
      | some raw =>
          simp only [scanLines]
          split
          · rename_i detail hdetail
            exact (hstep _ _).error hdetail
          · exact ih _

/-! ## Files of machines and settings -/

/-- The versions a machines scan holds are in range. -/
def MachinesScan.Fits (scan : MachinesScan) : Prop :=
  (∀ version, scan.formatVersion = some version → VersionFits version) ∧
    ∀ version, scan.headerVersion = some version → VersionFits version

theorem machinesLine_fits {scan next : MachinesScan} {line : Bytes} (hfits : scan.Fits)
    (h : machinesLine scan line = .ok next) : next.Fits := by
  unfold machinesLine at h
  split at h
  · cases h
    exact hfits
  · split at h
    · cases h
    · rename_i version hheader
      split_ifs at h
      cases h
      refine ⟨hfits.1, fun v hv => ?_⟩
      simp only [Option.some.injEq] at hv
      exact hv ▸ parseTextSchemaHeader_fits hheader
    · split at h
      · cases h
        exact hfits
      split at h
      · dsimp only at h
        split_ifs at h
        cases h
        exact hfits
      split at h
      · cases h
      split at h
      · cases h
        exact hfits
      split at h
      · cases h
      split at h
      · cases h
      · rename_i version hversion
        cases h
        refine ⟨fun v hv => ?_, hfits.2⟩
        simp only [Option.some.injEq] at hv
        exact hv ▸ parsePositiveDecimal_fits hversion

theorem machinesLine_faults (scan : MachinesScan) (line : Bytes) :
    FaultsOnly (machinesLine scan line) := by
  unfold machinesLine
  split
  · simp
  split
  · simp
  · split <;> simp
  split
  · simp
  split
  · dsimp only
    split_ifs <;> simp
  split
  · simp
  split
  · simp
  split
  · simp
  split <;> simp

theorem machinesFileVersion_fits {content : Bytes} {version : Nat}
    (h : machinesFileVersion content = .ok version) : VersionFits version := by
  simp only [machinesFileVersion] at h
  split_ifs at h
  split at h
  · cases h
  · rename_i scan hscan
    have hfits : scan.Fits :=
      scanLines_keeps (fun _ _ _ => machinesLine_fits) ⟨by simp, by simp⟩ hscan
    split at h
    · cases h
    · rename_i formatVersion hformat
      split_ifs at h
      split at h
      · cases h
        exact hfits.1 _ hformat
      · rename_i headerVersion hheader
        split_ifs at h
        cases h
        exact hfits.2 _ hheader

theorem machinesFileVersion_faults (content : Bytes) :
    FaultsOnly (machinesFileVersion content) := by
  have hscan := scanLines_faults machinesLine_faults (textLines content)
    ⟨none, none, false, false, false⟩
  simp only [machinesFileVersion]
  split
  · simp
  · split
    · rename_i detail hdetail
      exact hscan.error hdetail
    · split
      · simp
      split
      · simp
      split
      · simp
      split <;> simp

def SettingsScan.Fits (scan : SettingsScan) : Prop :=
  ∀ version, scan.headerVersion = some version → VersionFits version

theorem settingsLine_fits {scan next : SettingsScan} {line : Bytes} (hfits : scan.Fits)
    (h : settingsLine scan line = .ok next) : next.Fits := by
  unfold settingsLine at h
  split at h
  · cases h
    exact hfits
  · split at h
    · cases h
    · rename_i version hheader
      split_ifs at h
      cases h
      intro v hv
      simp only [Option.some.injEq] at hv
      exact hv ▸ parseTextSchemaHeader_fits hheader
    · split at h
      · cases h
        exact hfits
      split at h
      · cases h
      split at h
      · cases h
      split at h
      · cases h
      · cases h
        exact hfits

theorem settingsLine_faults (scan : SettingsScan) (line : Bytes) :
    FaultsOnly (settingsLine scan line) := by
  unfold settingsLine
  split
  · simp
  split
  · simp
  · split <;> simp
  split
  · simp
  split
  · simp
  split
  · simp
  split <;> simp

theorem getD_one_fits {version : Option Nat}
    (h : ∀ v, version = some v → VersionFits v) : VersionFits (version.getD 1) := by
  cases version with
  | none => exact ⟨by simp, by simp⟩
  | some v => exact h v rfl

theorem settingsFileVersion_fits {content : Bytes} {version : Nat}
    (h : settingsFileVersion content = .ok version) : VersionFits version := by
  simp only [settingsFileVersion] at h
  split_ifs at h
  split at h
  · cases h
  · rename_i scan hscan
    have hfits : scan.Fits := scanLines_keeps (fun _ _ _ => settingsLine_fits) (fun _ h => by simp at h) hscan
    cases h
    exact getD_one_fits hfits

theorem settingsFileVersion_faults (content : Bytes) :
    FaultsOnly (settingsFileVersion content) := by
  have hscan := scanLines_faults settingsLine_faults (textLines content) ⟨none, []⟩
  simp only [settingsFileVersion]
  split
  · simp
  · split
    · rename_i detail hdetail
      exact hscan.error hdetail
    · simp

/-! ## One version for all files -/

section Aggregate

variable {fileVersion : Bytes → Except ConfigDetectionDetail Nat}

/-- With a version found, every other file must have it. -/
theorem aggregateVersion_eq_ok {files : List ConfigFileView} {aggregate version : Nat}
    (haggregate : aggregate ≠ 0) :
    aggregateVersion fileVersion aggregate files = .ok version ↔
      version = aggregate ∧ ∀ file ∈ files, fileVersion file.content = .ok aggregate := by
  induction files with
  | nil => simp [aggregateVersion, eq_comm]
  | cons file rest ih =>
      simp only [aggregateVersion]
      cases hfile : fileVersion file.content with
      | error detail => simp [hfile]
      | ok found =>
          by_cases hsame : aggregate = found
          · subst hsame
            simp [haggregate, hfile, ih]
          · have hother : ¬ found = aggregate := fun h => hsame h.symm
            simp [haggregate, hsame, hfile, hother]

/-- The files have one version, whatever their order. -/
theorem aggregateVersion_zero_eq_ok {files : List ConfigFileView} {version : Nat}
    (hpos : ∀ content found, fileVersion content = .ok found → 0 < found) (hfiles : files ≠ []) :
    aggregateVersion fileVersion 0 files = .ok version ↔
      ∀ file ∈ files, fileVersion file.content = .ok version := by
  cases files with
  | nil => exact absurd rfl hfiles
  | cons file rest =>
      simp only [aggregateVersion]
      cases hfile : fileVersion file.content with
      | error detail => simp [hfile]
      | ok found =>
          have hfound : found ≠ 0 := Nat.pos_iff_ne_zero.mp (hpos _ _ hfile)
          simp only [if_true, ne_eq, not_true_eq_false, if_false,
            aggregateVersion_eq_ok hfound, List.mem_cons, forall_eq_or_imp, hfile,
            Except.ok.injEq]
          constructor
          · intro h
            rw [h.1]
            exact ⟨rfl, h.2⟩
          · intro h
            obtain ⟨rfl, hrest⟩ := h
            exact ⟨rfl, hrest⟩

theorem aggregateVersion_faults
    (hfaults : ∀ content, FaultsOnly (fileVersion content)) :
    ∀ (files : List ConfigFileView) (aggregate : Nat),
      FaultsOnly (aggregateVersion fileVersion aggregate files) := by
  intro files
  induction files with
  | nil => simp [aggregateVersion]
  | cons file rest ih =>
      intro aggregate
      simp only [aggregateVersion]
      split
      · rename_i detail hdetail
        exact (hfaults _).error hdetail
      · split_ifs <;> first | exact ih _ | simp

theorem aggregateVersion_perm {left right : List ConfigFileView} {version : Nat}
    (hpos : ∀ content found, fileVersion content = .ok found → 0 < found)
    (hfiles : left ≠ []) (hperm : left.Perm right)
    (h : aggregateVersion fileVersion 0 left = .ok version) :
    aggregateVersion fileVersion 0 right = .ok version := by
  have hright : right ≠ [] := fun hnil => hfiles (by simpa [hnil] using hperm)
  rw [aggregateVersion_zero_eq_ok hpos hfiles] at h
  rw [aggregateVersion_zero_eq_ok hpos hright]
  exact fun file hfile => h file (hperm.symm.subset hfile)

end Aggregate

/-! ## The other detectors -/

def ConfigBlockScan.Fits (scan : ConfigBlockScan) : Prop :=
  ∀ version, scan.headerVersion = some version → VersionFits version

theorem configBlockLine_fits {scan next : ConfigBlockScan} {line : Bytes} (hfits : scan.Fits)
    (h : configBlockLine scan line = .ok next) : next.Fits := by
  unfold configBlockLine at h
  split at h
  · split at h
    · cases h
    · cases h
      exact hfits
  split at h
  · split at h
    · cases h
    · cases h
      exact hfits
  split at h
  · cases h
  · rename_i version hheader
    split at h
    · cases h
    · cases h
      intro v hv
      simp only [Option.some.injEq] at hv
      exact hv ▸ parseTextSchemaHeader_fits hheader
  split at h
  · cases h
    exact hfits
  split at h
  · split at h
    · cases h
    · cases h
      exact hfits
  split at h
  · cases h
  split at h
  · cases h
  split at h
  · cases h
  · cases h
    exact hfits

theorem configBlockLine_faults (scan : ConfigBlockScan) (line : Bytes) :
    FaultsOnly (configBlockLine scan line) := by
  unfold configBlockLine
  split
  · split <;> simp
  split
  · split <;> simp
  split
  · simp
  · split <;> simp
  split
  · simp
  split
  · split <;> simp
  split
  · simp
  split
  · simp
  split <;> simp

theorem parseCmdlineTokens_fits (area : ConfigArea) (tokens : List Bytes) :
    ∀ {keys : List Bytes} {schema : Option Nat} {version : Nat},
      (∀ v, schema = some v → VersionFits v) →
      parseCmdlineTokens area keys schema tokens = .ok version → VersionFits version := by
  induction tokens with
  | nil =>
      intro keys schema version hschema h
      simp only [parseCmdlineTokens, Except.ok.injEq] at h
      exact h ▸ getD_one_fits hschema
  | cons token rest ih =>
      intro keys schema version hschema h
      simp only [parseCmdlineTokens] at h
      split at h
      · cases h
      split at h
      · cases h
      split at h
      · cases h
      split at h
      · cases h
      split at h
      · cases h
      refine ih ?_ h
      intro v hv
      split at hv
      · exact parsePositiveDecimal_fits hv
      · exact hschema v hv

theorem parseCmdlineTokens_faults (area : ConfigArea) (tokens : List Bytes) :
    ∀ (keys : List Bytes) (schema : Option Nat),
      FaultsOnly (parseCmdlineTokens area keys schema tokens) := by
  induction tokens with
  | nil => simp [parseCmdlineTokens]
  | cons token rest ih =>
      intro keys schema
      simp only [parseCmdlineTokens]
      split
      · simp
      split
      · simp
      split
      · simp
      split
      · simp
      split
      · simp
      exact ih _ _

theorem cmdlineCommentLine_faults (state : Unit) (line : Bytes) :
    FaultsOnly (cmdlineCommentLine state line) := by
  unfold cmdlineCommentLine
  split <;> simp

theorem parseSchemas_bound (json : Bytes) (members : List (Json.JsonToken × Nat)) :
    ∀ {schemas all : List Release.InstalledSchemaVersion},
      (∀ schema ∈ schemas, schema.version < 2 ^ 32) →
      Release.parseSchemas json schemas members = some all →
      ∀ schema ∈ all, schema.version < 2 ^ 32 := by
  induction hn : members.length using Nat.strong_induction_on generalizing members with
  | _ n ih =>
  intro schemas all hbound h
  cases members with
  | nil =>
      simp only [Release.parseSchemas, Option.some.injEq] at h
      exact h ▸ hbound
  | cons key rest =>
      obtain ⟨key, keyIndex⟩ := key
      unfold Release.parseSchemas at h
      dsimp only at h
      split at h
      · cases h
      split at h
      · cases h
      · rename_i value valueIndex rest
        split at h
        · cases h
        · rename_i version hversion
          split_ifs at h with hlimits
          have hshort : rest.length < n := by
            simp at hn
            omega
          refine ih rest.length hshort rest rfl ?_ h
          intro schema hschema
          rcases List.mem_append.mp hschema with hold | hnew
          · exact hbound schema hold
          · rw [List.mem_singleton.mp hnew]
            show version < 2 ^ 32
            omega

theorem parseBuildInfo_bound {content : Bytes} {capacity : Nat}
    {info : Release.InstalledBuildInfo} (h : Release.parseBuildInfo content capacity = .ok info) :
    ∀ schema ∈ info.schemas, schema.version < 2 ^ 32 := by
  simp only [Release.parseBuildInfo] at h
  split at h
  · cases h
  split at h
  · cases h
  split at h
  · cases h
  split at h
  · cases h
  split at h
  · cases h
  split at h
  · split at h
    · cases h
    split at h
    · cases h
    split at h
    · cases h
    split at h
    · cases h
    split at h
    · cases h
    rename_i schemas hschemas
    split at h
    · cases h
    cases h
    exact parseSchemas_bound content _ (by simp) hschemas
  · cases h

theorem buildInfoStateVersion_fits {content : Bytes} {version : Nat}
    (h : buildInfoStateVersion content = .ok version) : VersionFits version := by
  simp only [buildInfoStateVersion] at h
  split at h
  · cases h
  rename_i info hinfo
  split at h
  · cases h
  rename_i schema hschema
  split at h
  · cases h
  rename_i hzero
  cases h
  have hin := List.mem_of_find?_eq_some hschema
  exact ⟨Nat.pos_of_ne_zero hzero, parseBuildInfo_bound hinfo schema hin⟩

theorem buildInfoStateVersion_faults (content : Bytes) :
    FaultsOnly (buildInfoStateVersion content) := by
  unfold buildInfoStateVersion
  split
  · split_ifs <;> simp
  split
  · simp
  split <;> simp

end Config

end BmxUpdate
