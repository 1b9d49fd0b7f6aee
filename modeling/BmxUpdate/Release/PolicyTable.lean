import BmxUpdate.Release.PathPolicy

/-!
# The path policy over any table

What `release_manifest.cpp` reads from the generated header, with the table as a value: the
header is written by the host tools, and another layout gives another table.  A null pointer
is `none`.
-/

namespace BmxUpdate

namespace Release

open Wire Http

/-- A row of `kFileRules`. -/
structure TableRule where
  kind : RuleKind
  policy : RulePolicy
  root : Option Bytes
  value : Option Bytes
  suffix : Option Bytes
deriving DecidableEq

/-- The tables of the generated header. -/
structure PolicyTable where
  fileRules : List TableRule
  directoryRoots : List Bytes
  machineKernelBases : List Bytes
  machineKernelMachines : List Bytes
  requiredKernelMachineCount : Nat
  machineKernelPolicy : RulePolicy

/-- The first component, as `TopEquals` reads it. -/
def topOf (path : Bytes) : Bytes := path.takeWhile (· ≠ 0x2f)

namespace PolicyTable

variable (table : PolicyTable)

/-- `ParseMachineKernelSuffix`, with the index of the machine instead of its bit. -/
def parseMachineKernelSuffix (suffix : Bytes) : Option Nat :=
  if suffix = [] ∨ 0x2e ∈ suffix then none
  else table.machineKernelMachines.findIdx? (· = suffix)

/-- One base of the kernels, in `ClassifyKnownPath`. -/
def isKernelOf (path base : Bytes) : Bool :=
  (base ++ [0x2e]).isPrefixOf path &&
    (table.parseMachineKernelSuffix (path.drop (base.length + 1))).isSome

/-- The `switch` of `ClassifyKnownPath`. -/
def ruleMatches (rule : TableRule) (path : Bytes) : Bool :=
  match rule.kind with
  | .exactPath => rule.value = some path
  | .topRoot => true
  | .basenameExact => rule.value = some (basename path)
  | .basenamePrefixSuffix =>
      rule.value.any (·.isPrefixOf (basename path)) &&
        rule.suffix.any (·.isSuffixOf (basename path))
  | .basenameSuffix => rule.suffix.any (·.isSuffixOf (basename path))
  | .machineKernel => false

/-- The loop of `ClassifyKnownPath`. -/
def classifyBy (path : Bytes) : List TableRule → Option ManifestFilePolicy
  | [] => none
  | rule :: rest =>
      if rule.kind = .machineKernel then
        if table.machineKernelBases.any (table.isKernelOf path) then
          some (convertPolicy table.machineKernelPolicy)
        else classifyBy path rest
      else if rule.root.any (topOf path ≠ ·) then classifyBy path rest
      else if ruleMatches rule path then some (convertPolicy rule.policy)
      else classifyBy path rest

/-- `ClassifyKnownPath` -/
def classifyKnownPath (path : Bytes) : Option ManifestFilePolicy :=
  table.classifyBy path table.fileRules

/-- `IsAllowedUpdateDirectory` -/
def isAllowedUpdateDirectory (path : Bytes) : Bool := table.directoryRoots.any (topOf path = ·)

/-- What the manifest parser does with a file path. -/
def acceptFile (path : Bytes) : Option ManifestFilePolicy :=
  if isSafeManifestPath path then table.classifyKnownPath path else none

/-- What the manifest parser does with a directory path. -/
def acceptDirectory (path : Bytes) : Bool :=
  isSafeManifestPath path && table.isAllowedUpdateDirectory path

end PolicyTable

/-! ## The generated table -/

/-- A row of the generated table; the texts that its kind does not use are null there. -/
def Rule.row (rule : Rule) : TableRule where
  kind := rule.kind
  policy := rule.policy
  root := rule.root.map bytesOf
  value := match rule.kind with
    | .exactPath | .basenameExact | .basenamePrefixSuffix => some (bytesOf rule.value)
    | .topRoot | .basenameSuffix | .machineKernel => none
  suffix := match rule.kind with
    | .basenamePrefixSuffix | .basenameSuffix => some (bytesOf rule.suffix)
    | .exactPath | .basenameExact | .topRoot | .machineKernel => none

/-- `update_path_policy_v1.h` -/
def generatedTable : PolicyTable where
  fileRules := kFileRules.map Rule.row
  directoryRoots := kDirectoryRoots.map bytesOf
  machineKernelBases := kMachineKernelBases.map bytesOf
  machineKernelMachines := kMachineKernelMachines.map bytesOf
  requiredKernelMachineCount := kRequiredKernelMachineCount
  machineKernelPolicy := kMachineKernelPolicy

theorem generated_isKernel (path : Bytes) :
    generatedTable.machineKernelBases.any (generatedTable.isKernelOf path) =
      kMachineKernelBases.any fun base =>
        ((kernelSuffix base path).bind Release.parseMachineKernelSuffix).isSome := by
  show (kMachineKernelBases.map bytesOf).any _ = _
  rw [List.any_map]
  congr 1
  funext base
  simp only [Function.comp_apply, PolicyTable.isKernelOf, kernelSuffix]
  split
  · next h =>
      rw [h, Bool.true_and, Option.bind_some]
      unfold PolicyTable.parseMachineKernelSuffix Release.parseMachineKernelSuffix
      split
      · rfl
      · show (List.findIdx? _ (kMachineKernelMachines.map bytesOf)).isSome = _
        rw [List.findIdx?_map]
        rfl
  · next h =>
      rw [Bool.not_eq_true] at h
      rw [h]
      rfl

theorem applies_eq {rule : Rule} (h : rule.kind ≠ .machineKernel) (path : Bytes) :
    rule.applies path =
      (rule.root.all (topEquals path) && PolicyTable.ruleMatches rule.row path) := by
  obtain ⟨kind, policy, root, value, suffix⟩ := rule
  cases kind with
  | machineKernel => exact absurd rfl h
  | topRoot => rfl
  | basenameSuffix => rfl
  | basenamePrefixSuffix => rfl
  | exactPath => simp [Rule.applies, PolicyTable.ruleMatches, Rule.row, eq_comm]
  | basenameExact => simp [Rule.applies, PolicyTable.ruleMatches, Rule.row, eq_comm]

/-- The model of the generated table is the general one at that table. -/
theorem generatedTable_classifyKnownPath (path : Bytes) :
    generatedTable.classifyKnownPath path = Release.classifyKnownPath path := by
  show generatedTable.classifyBy path (kFileRules.map Rule.row) =
    (kFileRules.find? (·.applies path)).map Rule.filePolicy
  generalize kFileRules = rules
  induction rules with
  | nil => rfl
  | cons rule rest ih =>
      rw [List.map_cons, PolicyTable.classifyBy, List.find?_cons, ih, generated_isKernel]
      by_cases hkernel : rule.kind = .machineKernel
      · have happlies : rule.applies path = kMachineKernelBases.any fun base =>
            ((kernelSuffix base path).bind Release.parseMachineKernelSuffix).isSome := by
          simp only [Rule.applies, hkernel]
        have hrow : rule.row.kind = .machineKernel := hkernel
        rw [if_pos hrow, happlies]
        split
        · next h =>
            rw [h]
            simp [Rule.filePolicy, hkernel, generatedTable]
        · next h =>
            rw [Bool.not_eq_true] at h
            rw [h]
      · have hroot : rule.row.root.any (topOf path ≠ ·) = !rule.root.all (topEquals path) := by
          simp only [Rule.row]
          cases rule.root <;> simp [topOf, topEquals]
        have hrow : rule.row.kind ≠ .machineKernel := hkernel
        have hpolicy : rule.filePolicy = convertPolicy rule.row.policy := by
          rw [Rule.filePolicy, if_neg hkernel]
          rfl
        rw [if_neg hrow, hroot, applies_eq hkernel]
        cases rule.root.all (topEquals path) with
        | false => rfl
        | true =>
            cases PolicyTable.ruleMatches rule.row path with
            | false => rfl
            | true => simp [hpolicy]

theorem generatedTable_isAllowedUpdateDirectory (path : Bytes) :
    generatedTable.isAllowedUpdateDirectory path = Release.isAllowedUpdateDirectory path := by
  show (kDirectoryRoots.map bytesOf).any _ = _
  rw [List.any_map]
  rfl

end Release

end BmxUpdate
