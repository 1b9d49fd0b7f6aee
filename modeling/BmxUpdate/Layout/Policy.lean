import BmxUpdate.Layout.Rules
import BmxUpdate.Release.PathPolicy

/-!
# The path policy of the host

`device_projection_document` (`sd_layout.py`) turns the rules of a layout into matchers, and
`update_path_policy.py` compiles these into the policy: `_compile_layout`, and what the tools
ask of it, `classify_bmx_path` and `is_allowed_bmx_directory`.

The kinds and the policies have the names of the table that `render_header` writes
(`_KINDS`, `_POLICIES`).  What is refused is `none`.
-/

namespace BmxUpdate

namespace Layout

open Release

/-! ## Matchers -/

/-- A matcher of the projection: the files it is for, and what becomes of them. -/
structure DeviceMatcher where
  kind : RuleKind
  mode : Mode
  root : Option Text
  value : Option Text
  suffix : Option Text
deriving DecidableEq

/-- `text or None` -/
def orNone (text : Text) : Option Text := if text = [] then none else some text

/-- `_device_pattern` -/
def devicePattern (pattern : Text) (root : Option Text) (mode : Mode) : Option DeviceMatcher :=
  if '/' ∈ pattern then none
  else if '?' ∈ pattern ∨ 1 < pattern.count '*' then none
  else if '*' ∉ pattern then some ⟨.basenameExact, mode, root, some pattern, none⟩
  else
    let start := headPart '*' pattern
    let suffix := pattern.drop (start.length + 1)
    let kind := if start = [] then RuleKind.basenameSuffix else .basenamePrefixSuffix
    some ⟨kind, mode, root, orNone start, some suffix⟩

/-- `_device_matcher` -/
def deviceMatcher (rule : LayoutRule) : Option (List DeviceMatcher) :=
  if rule.kind = .tree then
    let root := headPart '/' rule.target
    if rule.includes = [] then some [⟨.topRoot, rule.mode, some root, none, none⟩]
    else rule.includes.mapM fun pattern => devicePattern pattern (some root) rule.mode
  else if "**/".toList.isPrefixOf rule.target then
    (devicePattern (rule.target.drop 3) none rule.mode).map ([·])
  else if '*' ∈ rule.target ∨ '?' ∈ rule.target then
    (devicePattern rule.target none rule.mode).map ([·])
  else some [⟨.exactPath, rule.mode, none, some rule.target, none⟩]

/-- `_device_matcher_key` -/
def DeviceMatcher.key (matcher : DeviceMatcher) : RuleKind × Text × Text × Text :=
  (matcher.kind, matcher.root.getD [], matcher.value.getD [], matcher.suffix.getD [])

/-- `_device_matcher_matches` -/
def DeviceMatcher.applies (matcher : DeviceMatcher) (path : Text) : Bool :=
  let basename := lastPart '/' path
  matcher.root.all (headPart '/' path = ·) &&
    match matcher.kind with
    | .exactPath => matcher.value = some path
    | .topRoot => true
    | .basenameExact => matcher.value = some basename
    | .basenameSuffix => (matcher.suffix.getD []).isSuffixOf basename
    | .basenamePrefixSuffix =>
        (matcher.value.getD []).isPrefixOf basename && (matcher.suffix.getD []).isSuffixOf basename
    | .machineKernel => false

/-! ## The projection -/

/-- A matcher joins those before it; one key has one mode. -/
def addMatcher (matchers : List DeviceMatcher) (matcher : DeviceMatcher) :
    Option (List DeviceMatcher) :=
  match matchers.find? (·.key = matcher.key) with
  | none => some (matchers ++ [matcher])
  | some previous =>
      if previous.mode ≠ matcher.mode then none
      else some (matchers.map fun other => if other.key = matcher.key then matcher else other)

/-- The matchers of a rule; directories and kernels have none. -/
def ruleMatchers (rule : LayoutRule) : Option (List DeviceMatcher) :=
  if rule.kind = .directory ∨ rule.mode = .kernel then some [] else deviceMatcher rule

/-- The roots a rule declares. -/
def ruleRoots (rule : LayoutRule) : List Text :=
  if rule.kind ≠ .file ∨ ('/' ∈ rule.target ∧ ¬ "**/".toList.isPrefixOf rule.target) then
    [headPart '/' rule.target]
  else []

/-- A matcher of an exact path that a broader one of its mode accepts as well. -/
def redundant (matchers : List DeviceMatcher) (matcher : DeviceMatcher) : Bool :=
  matcher.kind = .exactPath && matchers.any fun other =>
    other ≠ matcher && other.mode = matcher.mode && other.applies (matcher.value.getD [])

/-- The rank of a kind, the most specific first. -/
def kindRank : RuleKind → Nat
  | .machineKernel => 0
  | .exactPath => 1
  | .basenameExact => 2
  | .basenamePrefixSuffix => 3
  | .basenameSuffix => 4
  | .topRoot => 5

/-- The order of keys: the rank, then the texts. -/
def keyLe (left right : Nat × List Text) : Bool :=
  left.1 < right.1 || (left.1 = right.1 && left.2 ≤ right.2)

def modeName : Mode → Text
  | .config => "config".toList
  | .kernel => "kernel".toList
  | .keep => "keep".toList
  | .metadata => "metadata".toList
  | .replace => "replace".toList

/-- `_device_matcher_order_key`, and the mode. -/
def DeviceMatcher.orderKey (matcher : DeviceMatcher) : Nat × List Text :=
  (kindRank matcher.kind,
    [matcher.root.getD [], matcher.value.getD [], matcher.suffix.getD [], modeName matcher.mode])

/-- The part of the layout the device works from. -/
structure DeviceProjection where
  directories : List Text
  rules : List DeviceMatcher

/-- `device_projection_document`, without the check of scopes, which only refuses. -/
def deviceProjection (rules : List LayoutRule) : Option DeviceProjection := do
  let all ← rules.mapM ruleMatchers
  let matchers ← all.flatten.foldlM addMatcher []
  return {
    directories := (rules.flatMap ruleRoots).eraseDups.mergeSort (· ≤ ·)
    rules := (matchers.filter (!redundant matchers ·)).mergeSort fun a b =>
      keyLe a.orderKey b.orderKey }

/-! ## The kernels -/

/-- The base and the machines of a board; `true` is a required machine. -/
def boardInventory (rules : List LayoutRule) (board : Board) :
    Option (Text × List (Text × Bool)) := do
  let found ← (kernelRules rules board).mapM fun rule =>
    (splitLastPoint rule.target).map fun parts => (parts.1, parts.2, !rule.optional)
  match found with
  | [] => none
  | (base, _) :: _ =>
      if found.all (·.1 = base) then some (base, (found.map (·.2)).eraseDups) else none

/-- The kernels that both boards have. -/
structure KernelInventory where
  bases : List Text
  machines : List Text
  required : List Text

/-- `_kernel_inventory` -/
def kernelInventory (rules : List LayoutRule) : Option KernelInventory := do
  let (base4, pi4) ← boardInventory rules .pi4
  let (base5, pi5) ← boardInventory rules .pi5
  guard (pi4 = pi5)
  let required := (pi4.filter (·.2)).map (·.1)
  let machines := required ++ (pi4.filter (!·.2)).map (·.1)
  guard (7 ≤ required.length ∧ "c64".toList ∈ required)
  guard machines.Nodup
  return { bases := [base4, base5], machines, required }

/-! ## The policy -/

/-- A rule; only the rule of the kernels has no policy of its own. -/
structure CompiledRule where
  kind : RuleKind
  policy : Option RulePolicy
  root : Option Text
  value : Option Text
  suffix : Option Text
deriving DecidableEq

/-- The policy that the header is generated from. -/
structure UpdatePathPolicy where
  rules : List CompiledRule
  directoryRoots : List Text
  kernelBases : List Text
  kernelMachines : List Text
  requiredKernelMachines : List Text
  kernelPolicy : RulePolicy

/-- `_MODE_POLICY` -/
def modePolicy : Mode → RulePolicy
  | .config => .configTemplate
  | .kernel => .kernel
  | .keep => .preserve
  | .metadata => .metadata
  | .replace => .managedReplace

def policyName : RulePolicy → Text
  | .configTemplate => "config-template".toList
  | .kernel => "kernel".toList
  | .managedReplace => "managed-replace".toList
  | .metadata => "metadata".toList
  | .preserve => "preserve".toList

/-- `_rule_sort_key` -/
def CompiledRule.sortKey (rule : CompiledRule) : Nat × List Text :=
  (kindRank rule.kind,
    [rule.root.getD [], rule.value.getD [], rule.suffix.getD [],
      (rule.policy.map policyName).getD []])

def CompiledRule.matcher (rule : CompiledRule) : RuleKind × Option Text × Option Text × Option Text :=
  (rule.kind, rule.root, rule.value, rule.suffix)

/-- A rule joins those before it; one matcher has one policy and stands once. -/
def addRule (rules : List CompiledRule) (rule : CompiledRule) : Option (List CompiledRule) :=
  match rules.find? (·.matcher = rule.matcher) with
  | none => some (rules ++ [rule])
  | some previous => if previous.policy ≠ rule.policy then none else some rules

def compileMatcher (matcher : DeviceMatcher) : CompiledRule :=
  ⟨matcher.kind, some (modePolicy matcher.mode), matcher.root, matcher.value, matcher.suffix⟩

/-- `_compile_layout` -/
def compileLayout (raw : RawLayout) : Option UpdatePathPolicy := do
  let layout ← loadSdLayout raw
  let projection ← deviceProjection layout
  let kernels ← kernelInventory layout
  let compiled := ⟨.machineKernel, none, none, none, none⟩ :: projection.rules.map compileMatcher
  let rules ← compiled.foldlM addRule []
  guard (projection.directories ≠ [])
  return {
    rules := rules.mergeSort fun a b => keyLe a.sortKey b.sortKey
    directoryRoots := projection.directories
    kernelBases := kernels.bases
    kernelMachines := kernels.machines
    requiredKernelMachines := kernels.required
    kernelPolicy := .kernel }

/-! ## What the tools ask -/

namespace UpdatePathPolicy

variable (policy : UpdatePathPolicy)

/-- `machine_kernel_match`: the base and the machine. -/
def machineKernelMatch (path : Text) : Option (Text × Text) :=
  if '/' ∈ path then none
  else policy.kernelBases.findSome? fun base =>
    let start := base ++ ['.']
    if start.isPrefixOf path ∧ path.drop start.length ∈ policy.kernelMachines then
      some (base, path.drop start.length)
    else none

/-- The test of a rule in `classify_bmx_path`. -/
def ruleMatches (rule : CompiledRule) (path : Text) : Bool :=
  let basename := lastPart '/' path
  match rule.kind with
  | .exactPath => some path = rule.value
  | .topRoot => true
  | .basenameExact => some basename = rule.value
  | .basenameSuffix => (rule.suffix.getD []).isSuffixOf basename
  | .basenamePrefixSuffix =>
      (rule.value.getD []).isPrefixOf basename && (rule.suffix.getD []).isSuffixOf basename
  | .machineKernel => false

/-- The loop of `classify_bmx_path`. -/
def classifyBy (path : Text) : List CompiledRule → Option RulePolicy
  | [] => none
  | rule :: rest =>
      if rule.kind = .machineKernel then
        if (policy.machineKernelMatch path).isSome then some policy.kernelPolicy
        else classifyBy path rest
      else if rule.root.any (headPart '/' path ≠ ·) then classifyBy path rest
      else if ruleMatches rule path then rule.policy
      else classifyBy path rest

/-- `classify_bmx_path` -/
def classifyBmxPath (path : Text) : Option RulePolicy :=
  if path = [] ∨ path.getLast? = some '/' then none
  else if validateFatPath path = none then none
  else policy.classifyBy path policy.rules

/-- `is_allowed_bmx_directory` -/
def isAllowedBmxDirectory (path : Text) : Bool :=
  if path = [] then false
  else
    let clean := if path.getLast? = some '/' then path.dropLast else path
    if clean = [] then false
    else if validateFatPath clean = none then false
    else headPart '/' clean ∈ policy.directoryRoots

end UpdatePathPolicy

end Layout

end BmxUpdate
