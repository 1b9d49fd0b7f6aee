import BmxUpdate.Layout.Text

/-!
# The rules of an SD layout

`load_sd_layout` (`sd_layout.py`) from the parsed document on: the rules with their target,
mode, source and includes, and the checks of the kernel targets.  A layout that is refused is
`none`.  Left out are the fields that only staging reads (excludes, profiles, features, review
settings) and the checks that do nothing but refuse a staging conflict.
-/

namespace BmxUpdate

namespace Layout

inductive Board where
  | pi4 | pi5
deriving DecidableEq, Repr

def boards : List Board := [.pi4, .pi5]

inductive Scope where
  | both | board (board : Board)
deriving DecidableEq, Repr

/-- `rule.scope in {"both", board}` -/
def Scope.covers (scope : Scope) (board : Board) : Bool := scope = .both || scope = .board board

inductive EntryKind where
  | file | tree | directory
deriving DecidableEq, Repr

inductive Mode where
  | config | kernel | keep | metadata | replace
deriving DecidableEq, Repr

/-- A rule of `sd-layout.toml`. -/
structure LayoutRule where
  scope : Scope
  kind : EntryKind
  target : Text
  mode : Mode
  source : Option Text
  includes : List Text
  optional : Bool

/-! ## The fields of a rule -/

/-- A rule as the document has it. -/
structure RawRule where
  mode : Text
  target : Text
  source : Option Text
  includes : Option (List Text)
  optional : Option Bool

def parseMode (text : Text) : Option Mode :=
  if text = "config".toList then some .config
  else if text = "kernel".toList then some .kernel
  else if text = "keep".toList then some .keep
  else if text = "metadata".toList then some .metadata
  else if text = "replace".toList then some .replace
  else none

/-- `component in {"", ".", ".."}` -/
def dotComponent (component : Text) : Bool := component ∈ [[], ['.'], ['.', '.']]

/-- `_source_reference` -/
def sourceReference (aliases : List Text) (text : Text) : Option Text :=
  if text = [] ∨ text.head? = some '/' ∨ '\\' ∈ text ∨ Char.ofNat 0 ∈ text then none
  else if headPart '/' text ∉ aliases then none
  else if (text.splitOn '/').any dotComponent then none
  else some text

/-- `_glob` -/
def glob (text : Text) : Option Text :=
  if text = [] then none
  else if text.head? = some '/' ∨ text.getLast? = some '/' ∨ '\\' ∈ text ∨ Char.ofNat 0 ∈ text ∨
      '[' ∈ text ∨ ']' ∈ text ∨
      (text.any fun c => c ∈ fatForbidden && !(c ∈ ['*', '?', '\\'])) ∨
      (text.splitOn '/').any dotComponent then none
  else if text.any fun c => c.toNat < 0x20 || 0x7e < c.toNat then none
  else some text

/-- `_target_pattern` -/
def targetPattern (text : Text) : Option Text :=
  if '*' ∉ text ∧ '?' ∉ text then validateFatPath text
  else do
    let pattern ← glob text
    if "**/".toList.isPrefixOf pattern then
      let basename := pattern.drop 3
      if '/' ∈ basename ∨ basename = [] then none else some pattern
    else if '/' ∈ pattern then none
    else some pattern

/-- `_string_list`: neither empty nor unsorted, and nothing twice. -/
def stringList (items : List Text) : Option (List Text) :=
  if items = [] ∨ [] ∈ items ∨ ¬ items.Nodup ∨ ¬ items.Pairwise (· ≤ ·) then none
  else some items

def parseSource (aliases : List Text) : Option Text → Option (Option Text)
  | none => some none
  | some reference => (sourceReference aliases reference).map some

/-- A target; only a file that is not staged may be a pattern. -/
def parseTarget (kind : EntryKind) (source : Option Text) (target : Text) : Option Text :=
  if kind = .file ∧ source = none then targetPattern target else validateFatPath target

def parseIncludes : Option (List Text) → Option (List Text)
  | none => some []
  | some items => (stringList items).bind (·.mapM glob)

/-- `_parse_rule` -/
def parseRule (aliases : List Text) (scope : Scope) (kind : EntryKind) (raw : RawRule) :
    Option LayoutRule := do
  guard (kind = .tree ∨ raw.includes = none)
  guard (kind ≠ .directory ∨ (raw.source = none ∧ raw.optional = none))
  let mode ← parseMode raw.mode
  let source ← parseSource aliases raw.source
  let target ← parseTarget kind source raw.target
  let includes ← parseIncludes raw.includes
  let optional := raw.optional.getD false
  guard (kind ≠ .directory ∨ mode = .keep)
  guard (¬ (source = none ∧ optional = true ∧ mode ≠ .kernel))
  return { scope, kind, target, mode, source, includes, optional }

/-! ## The document -/

/-- The rules of one scope of the document. -/
structure RawScope where
  file : List RawRule
  tree : List RawRule
  directory : List RawRule

/-- The document. -/
structure RawLayout where
  aliases : List Text
  both : RawScope
  pi4 : RawScope
  pi5 : RawScope

/-- The rules of one scope, its files first. -/
def parseScope (aliases : List Text) (scope : Scope) (raw : RawScope) :
    Option (List LayoutRule) := do
  let files ← raw.file.mapM (parseRule aliases scope .file)
  let trees ← raw.tree.mapM (parseRule aliases scope .tree)
  let directories ← raw.directory.mapM (parseRule aliases scope .directory)
  return files ++ trees ++ directories

/-! ## The kernels -/

/-- `text.rsplit(".", 1)` into two parts. -/
def splitLastPoint (text : Text) : Option (Text × Text) :=
  if '.' ∈ text then
    let last := lastPart '.' text
    some (text.take (text.length - (last.length + 1)), last)
  else none

/-- The file rules of the kernels of a board. -/
def kernelRules (rules : List LayoutRule) (board : Board) : List LayoutRule :=
  rules.filter fun rule => rule.scope.covers board && rule.kind = .file && rule.mode = .kernel

/-- `kernel_targets_unchecked`, unsorted -/
def kernelTargetsUnchecked (rules : List LayoutRule) (board : Board) (includeOptional : Bool) :
    List Text :=
  (((kernelRules rules board).filter fun rule => includeOptional || !rule.optional).map
    (·.target)).eraseDups

/-- `machine.isascii() and machine.isalnum()` -/
def isAlphanumeric (text : Text) : Bool := text ≠ [] && text.all Char.isAlphanum

/-- The checks of a kernel target, and its base and machine. -/
def kernelTarget (target : Text) : Option (Text × Text) := do
  guard ('/' ∉ target ∧ target.tails.any (".img.".toList).isPrefixOf = true)
  let (base, machine) ← splitLastPoint target
  guard (isAlphanumeric machine = true)
  return (base, machine)

/-- `_validate_static_layout`, for the kernels of one board. -/
def validateKernels (rules : List LayoutRule) (board : Board) : Option Unit := do
  let required := kernelTargetsUnchecked rules board false
  let all := kernelTargetsUnchecked rules board true
  guard (7 ≤ required.length ∧ required.length ≤ all.length)
  let targets ← all.mapM kernelTarget
  guard ((targets.map (·.1)).eraseDups.length = 1 ∧ "c64".toList ∈ targets.map (·.2))

/-- `load_sd_layout` -/
def loadSdLayout (raw : RawLayout) : Option (List LayoutRule) := do
  let both ← parseScope raw.aliases .both raw.both
  let pi4 ← parseScope raw.aliases (.board .pi4) raw.pi4
  let pi5 ← parseScope raw.aliases (.board .pi5) raw.pi5
  let rules := both ++ pi4 ++ pi5
  guard (rules ≠ [])
  validateKernels rules .pi4
  validateKernels rules .pi5
  return rules

end Layout

end BmxUpdate
