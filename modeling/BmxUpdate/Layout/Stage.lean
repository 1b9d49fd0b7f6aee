import BmxUpdate.Layout.StageRules
import BmxUpdate.Library.Paths
import BmxUpdate.Sha256
import Mathlib.Data.List.Sort

/-!
# The plan of a stage

`plan_stage` (`sd_layout.py`): the files and directories that the rules of a layout put on a
card for one board, profile and set of features, from the contents of the source roots.  The
file system answers `lstat` of a path by what stands there; a file may not be readable.  A
stage that is refused is `none`.
-/

namespace BmxUpdate

namespace Layout

open Wire

/-! ## The sources -/

/-- What stands at a path. -/
inductive Node where
  | file (content : Option Bytes)
  | directory (children : List (Text × Node))
  | symbolicLink
  | special

/-- What `lstat` finds at a path. -/
abbrev FileSystem := Text → Option Node

mutual

/-- `node.rglob("*")`: what stands below, with the path from the node. -/
def Node.members : Node → List (Text × Node)
  | .directory children => childMembers children
  | _ => []

/-- What stands in and below the entries of a directory. -/
def childMembers : List (Text × Node) → List (Text × Node)
  | [] => []
  | (name, node) :: rest =>
      (name, node) ::
        (node.members.map (fun member => (name ++ '/' :: member.1, member.2)) ++ childMembers rest)

end

def boardName : Board → Text
  | .pi4 => "pi4".toList
  | .pi5 => "pi5".toList

/-- The value of a placeholder; the board stands before the bindings. -/
def binding (board : Board) (overrides : List (Text × Text)) (name : Text) : Option Text :=
  if name = "board".toList then some (boardName board) else overrides.lookup name

/-- A template with its placeholders replaced. -/
def renderTemplate (board : Board) (overrides : List (Text × Text)) (template : Text) :
    Option Text := do
  let parts ← (templateParts 0 template).mapM fun
    | .inl c => some [c]
    | .inr name => binding board overrides name
  return parts.flatten

/-- The placeholders of a template. -/
def placeholders (template : Text) : List Text :=
  (templateParts 0 template).filterMap fun
    | .inl _ => none
    | .inr name => some name

/-- `_expand_source_roots` -/
def expandSourceRoots (layout : SdLayout) (board : Board) (overrides : List (Text × Text)) :
    Option (List (Text × Text)) := do
  let roots ← layout.sources.mapM fun (name, template) => do
    let root ← match overrides.lookup name with
      | some root => some root
      | none => renderTemplate board overrides template
    guard (root.head? = some '/')
    return (name, root)
  guard (overrides.all fun (name, _) =>
    name ∈ layout.sources.map (·.1) || name ∈ layout.sources.flatMap (placeholders ·.2))
  return roots

/-- `_resolve_source` -/
def resolveSource (roots : List (Text × Text)) (reference : Text) : Option Text :=
  let name := headPart '/' reference
  (roots.lookup name).map fun root =>
    if '/' ∈ reference then root ++ '/' :: reference.drop (name.length + 1) else root

/-! ## The plan -/

/-- A file to be copied to the card, and the rule it comes from. -/
structure PlannedFile where
  target : Text
  source : Text
  sourceReference : Text
  mode : Mode
  size : Nat
  sha256 : Digest
  provenance : Scope × EntryKind × Nat
deriving DecidableEq

/-- What `plan_stage` returns: what to copy to a card, and what is missing for it. -/
structure StagePlan where
  board : Board
  profile : Profile
  features : List Text
  files : List PlannedFile
  directories : List Text
  missingOptionalTargets : List Text

/-- `_applies` -/
def applies (rule : StageRule) (board : Board) (profile : Profile) (features : List Text) : Bool :=
  rule.enabled && rule.scope.covers board && board ∉ rule.reviewDisabledFor &&
    (rule.profiles = [] || profile ∈ rule.profiles) && rule.features.all (· ∈ features)

/-- `selected_layout_entries` -/
def selectedLayoutEntries (layout : SdLayout) (board : Board) (profile : Profile)
    (features : List Text) : Option (List StageRule) :=
  if features.all aliasValid then
    some (layout.rules.filter fun rule => applies rule board profile features)
  else none

/-- The names in order, each once. -/
def sortedNames (names : List Text) : List Text := names.eraseDups.insertionSort (· ≤ ·)

/-- The file a rule stages from a path with some content. -/
def plannedFile (rule : StageRule) (target source reference : Text) (content : Bytes) :
    PlannedFile where
  target := target
  source := source
  sourceReference := reference
  mode := rule.mode
  size := content.length
  sha256 := BmxUpdate.sha256 content
  provenance := rule.provenance

/-- What is staged so far; `directories` and `missingOptional` are sets. -/
structure Staging where
  files : List PlannedFile
  directories : List Text
  missingOptional : List Text

/-- `_add_target` -/
def addTarget (staging : Staging) (planned : PlannedFile) : Option Staging :=
  if staging.files.any fun previous => lower previous.target = lower planned.target then none
  else some { staging with files := staging.files ++ [planned] }

/-- The directories above a target, as the loop over `rpartition` adds them. -/
def addParents (directories : List Text) (target : Text) : List Text :=
  Paths.ancestors '/' target ∪ directories

/-- A missing source: allowed for an optional rule. -/
def missingSource (staging : Staging) (rule : StageRule) (target : Text) : Option Staging :=
  if rule.optional then
    some { staging with missingOptional := staging.missingOptional.insert target }
  else none

/-- One member of a source tree. -/
def planMember (rule : StageRule) (board : Board) (target source reference : Text)
    (staging : Staging) (member : Text × Node) : Option Staging :=
  match member.2 with
  | .symbolicLink => none
  | .directory _ =>
      if rule.includes = [] ∧ ¬ rule.exclude.any (matchesGlob member.1 ·) then
        some { staging with
          directories := staging.directories.insert (target ++ '/' :: member.1) }
      else some staging
  | .special => none
  | .file content =>
      if ¬ selectedByTree rule member.1 (some board) false then some staging
      else do
        let target ← validateFatPath (target ++ '/' :: member.1)
        let content ← content
        let staging ← addTarget staging
          (plannedFile rule target (source ++ '/' :: member.1) (reference ++ '/' :: member.1)
            content)
        return { staging with directories := addParents staging.directories target }

/-- The members of a source tree, in order of their paths. -/
def sortedMembers (children : List (Text × Node)) : List (Text × Node) :=
  (childMembers children).insertionSort fun a b => a.1 ≤ b.1

/-- One rule of the loop in `plan_stage`. -/
def planRule (fileSystem : FileSystem) (roots : List (Text × Text)) (board : Board)
    (staging : Staging) (rule : StageRule) : Option Staging :=
  let target := effectiveTarget rule board
  match rule.kind, rule.source with
  | .directory, _ => some { staging with directories := staging.directories.insert target }
  | _, none => some staging
  | .file, some reference => do
      let source ← resolveSource roots reference
      match fileSystem source with
      | none => missingSource staging rule target
      | some (.file content) =>
          let content ← content
          addTarget staging (plannedFile rule target source reference content)
      | some _ => none
  | .tree, some reference => do
      let source ← resolveSource roots reference
      match fileSystem source with
      | none => missingSource staging rule target
      | some (.directory children) =>
          (sortedMembers children).foldlM (planMember rule board target source reference)
            { staging with directories := staging.directories.insert target }
      | some _ => none

/-- The loop over the files of the plan: the directories above each, and none of them is the
file itself. -/
def planParents (files : List PlannedFile) (directories : List Text) : Option (List Text) :=
  files.foldlM (fun directories planned => do
    let directories := addParents directories planned.target
    guard (lower planned.target ∉ directories.map lower)
    return directories) directories

/-- One directory of the last loop in `plan_stage`; `before` are those before it. -/
def checkDirectory (files : List PlannedFile) (before : List Text) (directory : Text) :
    Option (List Text) := do
  let directory ← validateFatPath directory
  guard (before.all fun previous => lower previous ≠ lower directory || previous = directory)
  guard (files.all fun planned => lower planned.target ≠ lower directory)
  return directory :: before

/-- `plan_stage` -/
def planStage (layout : SdLayout) (fileSystem : FileSystem) (board : Board)
    (overrides : List (Text × Text)) (profile : Profile) (features : List Text) :
    Option StagePlan := do
  let entries ← selectedLayoutEntries layout board profile features
  let roots ← expandSourceRoots layout board overrides
  let staging ← entries.foldlM (planRule fileSystem roots board) ⟨[], [], []⟩
  let directories ← planParents staging.files staging.directories
  let directories := directories.insertionSort (· ≤ ·)
  let _ ← directories.foldlM (checkDirectory staging.files) []
  return {
    board, profile
    features := sortedNames features
    files := staging.files.insertionSort fun a b => a.target ≤ b.target
    directories
    missingOptionalTargets := staging.missingOptional.insertionSort (· ≤ ·) }

end Layout

end BmxUpdate
