import BmxUpdate.Layout.Projection
import BmxUpdate.Library.Wildcard

/-!
# The rules that staging reads

`load_sd_layout` (`sd_layout.py`) with every field of a rule and every check: the excludes,
profiles, features and review settings that only the host reads, the source aliases, the
conflicts that are known before anything is staged, and the agreement of the staged modes with
the modes of the device.  `loadStageLayout_rules` says that the rules are those of
`loadSdLayout`.
-/

namespace BmxUpdate

namespace Layout

open Release

/-- The builds a rule can be limited to. -/
inductive Profile where
  | release | debug
deriving DecidableEq, Repr

/-- A rule with the fields that only staging reads. -/
structure StageRule extends LayoutRule where
  ordinal : Nat
  exclude : List Text
  profiles : List Profile
  features : List Text
  enabled : Bool
  reportMissing : Bool
  reviewDisabledFor : List Board
  reviewExcludePi4 : List Text
  reviewExcludePi5 : List Text
  reviewMovePi4 : Option Text
  reviewMovePi5 : Option Text

/-- What names a rule: no two rules of a layout have the same. -/
def StageRule.provenance (rule : StageRule) : Scope × EntryKind × Nat :=
  (rule.scope, rule.kind, rule.ordinal)

/-- A layout: the source trees by alias, and the rules in order. -/
structure SdLayout where
  sources : List (Text × Text)
  rules : List StageRule

/-- The rules without the fields that only staging reads. -/
def SdLayout.policyRules (layout : SdLayout) : List LayoutRule :=
  layout.rules.map StageRule.toLayoutRule

/-! ## The fields of a rule -/

/-- A rule as the document has it. -/
structure RawStageRule extends RawRule where
  exclude : Option (List Text) := none
  profiles : Option (List Text) := none
  features : Option (List Text) := none
  enabled : Option Bool := none
  reportMissing : Option Bool := none
  reviewDisabledFor : Option (List Text) := none
  reviewExcludePi4 : Option (List Text) := none
  reviewExcludePi5 : Option (List Text) := none
  reviewMovePi4 : Option Text := none
  reviewMovePi5 : Option Text := none

/-- `_string_list(..., allow_empty=True)` -/
def stringListOrEmpty (items : List Text) : Option (List Text) :=
  if items = [] then some [] else stringList items

def parseProfile (text : Text) : Option Profile :=
  if text = "release".toList then some .release
  else if text = "debug".toList then some .debug
  else none

def parseBoard (text : Text) : Option Board :=
  if text = "pi4".toList then some .pi4
  else if text = "pi5".toList then some .pi5
  else none

/-- A field that may be left out. -/
def parseField {α β : Type} (missing : β) (parse : α → Option β) : Option α → Option β
  | none => some missing
  | some value => parse value

/-- The globs of `exclude` and of the excludes of a board. -/
def parseExcludes (items : Option (List Text)) : Option (List Text) :=
  parseField [] (fun items => (stringListOrEmpty items).bind (·.mapM glob)) items

def parseMove (target : Option Text) : Option (Option Text) :=
  parseField none (fun target => (validateFatPath target).map some) target

/-- The keys that `_exact_keys` lets a rule of a kind have. -/
def allowedKeys (kind : EntryKind) (raw : RawStageRule) : Bool :=
  match kind with
  | .file =>
      raw.exclude.isNone && raw.reviewExcludePi4.isNone && raw.reviewExcludePi5.isNone
  | .tree => raw.reviewMovePi4.isNone && raw.reviewMovePi5.isNone
  | .directory =>
      raw.exclude.isNone && raw.reviewExcludePi4.isNone && raw.reviewExcludePi5.isNone &&
        raw.reviewMovePi4.isNone && raw.reviewMovePi5.isNone && raw.reportMissing.isNone

/-- The checks of the review settings in `_parse_rule`. -/
def reviewAllowed (rule : StageRule) : Bool :=
  (rule.reviewDisabledFor = [] || rule.scope = .both) &&
    ((rule.reviewExcludePi4 = [] && rule.reviewExcludePi5 = []) || rule.scope = .both) &&
    ((rule.reviewMovePi4 = none && rule.reviewMovePi5 = none) ||
      (rule.kind = .file && rule.source.isSome &&
        !(rule.scope = .board .pi4 && rule.reviewMovePi5.isSome) &&
        !(rule.scope = .board .pi5 && rule.reviewMovePi4.isSome) &&
        rule.reviewMovePi4 ≠ some rule.target && rule.reviewMovePi5 ≠ some rule.target))

/-- `_parse_rule` -/
def parseStageRule (aliases : List Text) (scope : Scope) (kind : EntryKind) (ordinal : Nat)
    (raw : RawStageRule) : Option StageRule := do
  guard (allowedKeys kind raw = true)
  let rule ← parseRule aliases scope kind raw.toRawRule
  let exclude ← parseExcludes raw.exclude
  let profiles ← parseField [] (fun items => (stringList items).bind (·.mapM parseProfile))
    raw.profiles
  let features ← parseField [] stringList raw.features
  let reviewDisabledFor ← parseField []
    (fun items => (stringListOrEmpty items).bind (·.mapM parseBoard)) raw.reviewDisabledFor
  let reviewExcludePi4 ← parseExcludes raw.reviewExcludePi4
  let reviewExcludePi5 ← parseExcludes raw.reviewExcludePi5
  let reviewMovePi4 ← parseMove raw.reviewMovePi4
  let reviewMovePi5 ← parseMove raw.reviewMovePi5
  let parsed : StageRule :=
    { rule with
      ordinal, exclude, profiles, features
      enabled := raw.enabled.getD true
      reportMissing := raw.reportMissing.getD true
      reviewDisabledFor, reviewExcludePi4, reviewExcludePi5, reviewMovePi4, reviewMovePi5 }
  guard (reviewAllowed parsed = true)
  return parsed

/-! ## The document -/

/-- The rules of one scope of the document. -/
structure RawStageScope where
  file : List RawStageRule
  tree : List RawStageRule
  directory : List RawStageRule

/-- The document. -/
structure RawStageLayout where
  sources : List (Text × Text)
  both : RawStageScope
  pi4 : RawStageScope
  pi5 : RawStageScope

/-- `_ALIAS_RE` -/
def aliasValid (text : Text) : Bool :=
  match text with
  | [] => false
  | first :: rest =>
      first.isLower && rest.length ≤ 63 &&
        rest.all fun c => c.isLower || c.isDigit || c = '_' || c = '-'

/-- The name of the placeholder at an opening brace, and what follows its closing brace. -/
def placeholder (text : Text) : Option (Text × Text) :=
  let name := headPart '}' text
  if name.length < text.length ∧ aliasValid name = true then
    some (name, text.drop (name.length + 1))
  else none

/-- What stands in a template: characters and placeholders; a brace that opens no placeholder
is a character.  The number counts the characters of a placeholder still to be passed over. -/
def templateParts : Nat → Text → List (Char ⊕ Text)
  | _, [] => []
  | skip + 1, _ :: rest => templateParts skip rest
  | 0, c :: rest =>
      match if c = '{' then placeholder rest else none with
      | some (name, _) => .inr name :: templateParts (name.length + 1) rest
      | none => .inl c :: templateParts 0 rest

/-- The check of a source alias. -/
def sourceValid (source : Text × Text) : Bool :=
  aliasValid source.1 && source.2 ≠ [] && Char.ofNat 0 ∉ source.2 && '\n' ∉ source.2 &&
    '\r' ∉ source.2 && (templateParts 0 source.2).all fun part =>
      part ≠ .inl '{' && part ≠ .inl '}'

/-- The rules of one kind, numbered. -/
def parseKind (aliases : List Text) (scope : Scope) (kind : EntryKind) (raw : List RawStageRule) :
    Option (List StageRule) :=
  raw.zipIdx.mapM fun (rule, ordinal) => parseStageRule aliases scope kind ordinal rule

/-- The rules of one scope, its files first. -/
def parseStageScope (aliases : List Text) (scope : Scope) (raw : RawStageScope) :
    Option (List StageRule) := do
  let files ← parseKind aliases scope .file raw.file
  let trees ← parseKind aliases scope .tree raw.tree
  let directories ← parseKind aliases scope .directory raw.directory
  return files ++ trees ++ directories

/-! ## What a rule stages -/

/-- `text.lower()` of ASCII text -/
def lower (text : Text) : Text := text.map Char.toLower

/-- `path.startswith(directory + "/")`, and then what follows. -/
def below (directory path : Text) : Option Text :=
  if (directory ++ ['/']).isPrefixOf path then some (path.drop (directory.length + 1)) else none

/-- `_effective_target` -/
def effectiveTarget (rule : StageRule) : Board → Text
  | .pi4 => rule.reviewMovePi4.getD rule.target
  | .pi5 => rule.reviewMovePi5.getD rule.target

/-- `_matches_glob`: a pattern without a separator is for the last component, another for as
many of the last components as it has. -/
def matchesGlob (path pattern : Text) : Bool :=
  if '/' ∉ pattern then Wildcard.fits (lastPart '/' path) pattern
  else
    let parts := (path.splitOn '/').reverse
    let patterns := (pattern.splitOn '/').reverse
    patterns.length ≤ parts.length && (parts.zip patterns).all fun (part, item) =>
      Wildcard.fits part item

/-- The excludes that hold for a board; without one, those of the rule alone. -/
def excludesFor (rule : StageRule) : Option Board → List Text
  | none => rule.exclude
  | some .pi4 => rule.exclude ++ rule.reviewExcludePi4
  | some .pi5 => rule.exclude ++ rule.reviewExcludePi5

/-- `_selected_by_tree` -/
def selectedByTree (rule : StageRule) (relative : Text) (board : Option Board)
    (ignoreExcludes : Bool) : Bool :=
  (rule.includes = [] || rule.includes.any (matchesGlob relative ·)) &&
    (ignoreExcludes || !((excludesFor rule board).any (matchesGlob relative ·)))

/-- Whether a rule with a source stages a target, as `_staged_modes_for_target` looks at it. -/
def stagesTarget (rule : StageRule) (board : Board) (target : Text) : Bool :=
  match rule.kind with
  | .file => effectiveTarget rule board = target
  | .tree => (below (effectiveTarget rule board) target).any fun relative =>
      selectedByTree rule relative (some board) false
  | .directory => false

/-- `_staged_modes_for_target` -/
def stagedModesForTarget (layout : SdLayout) (board : Board) (target : Text) : List Mode :=
  (layout.rules.filter fun rule =>
    rule.source.isSome && rule.enabled && rule.scope.covers board &&
      board ∉ rule.reviewDisabledFor && stagesTarget rule board target).map (·.mode)

/-! ## The matchers of the boards -/

/-- `constraints` in `_basename_matchers_overlap`: the whole name, its start and its end. -/
def nameConstraints (matcher : DeviceMatcher) : Option Text × Text × Text :=
  match matcher.kind with
  | .basenameExact => (some (matcher.value.getD []), [], [])
  | .basenameSuffix => (none, [], matcher.suffix.getD [])
  | _ => (none, matcher.value.getD [], matcher.suffix.getD [])

/-- `_basename_matchers_overlap` -/
def basenameMatchersOverlap (first second : DeviceMatcher) : Bool :=
  match nameConstraints first, nameConstraints second with
  | (some exact, _, _), (some exact', _, _) => exact = exact'
  | (some exact, _, _), (none, start, suffix) => start.isPrefixOf exact && suffix.isSuffixOf exact
  | (none, start, suffix), (some exact, _, _) => start.isPrefixOf exact && suffix.isSuffixOf exact
  | (none, start, suffix), (none, start', suffix') =>
      (start'.isPrefixOf start || start.isPrefixOf start') &&
        (suffix'.isSuffixOf suffix || suffix.isSuffixOf suffix')

/-- `_device_matchers_overlap` -/
def deviceMatchersOverlap (first second : DeviceMatcher) : Bool :=
  if first.kind = .exactPath then second.applies (first.value.getD [])
  else if second.kind = .exactPath then first.applies (second.value.getD [])
  else if first.root.isSome ∧ second.root.isSome ∧ first.root ≠ second.root then false
  else if first.kind = .topRoot ∨ second.kind = .topRoot then true
  else basenameMatchersOverlap first second

/-- The boards whose rules give a matcher of a key. -/
def matcherBoards (rules : List LayoutRule) (key : RuleKind × Text × Text × Text) : List Board :=
  boards.filter fun board => rules.any fun rule =>
    rule.scope.covers board &&
      ((ruleMatchers rule).getD []).any fun matcher => matcher.key = key

/-- The test of a pair in `_validate_device_matcher_scopes`. -/
def scopesAgree (rules : List LayoutRule) (first second : DeviceMatcher) : Bool :=
  if second.kind = .exactPath ∨ first.mode = second.mode ∨
      ¬ deviceMatchersOverlap first second then true
  else
    let (winner, loser) := if matcherLe first second then (first, second) else (second, first)
    (matcherBoards rules loser.key).all (· ∈ matcherBoards rules winner.key)

/-- `_validate_device_matcher_scopes` -/
def validateDeviceMatcherScopes (rules : List LayoutRule) : List DeviceMatcher → Option Unit
  | [] => some ()
  | first :: rest => do
      guard (first.kind = .exactPath ∨ (rest.all fun second => scopesAgree rules first second))
      validateDeviceMatcherScopes rules rest

/-- `device_projection_document`, with the check of scopes. -/
def deviceProjectionDocument (rules : List LayoutRule) : Option DeviceProjection := do
  let matchers ← deviceMatchers rules
  validateDeviceMatcherScopes rules matchers
  deviceProjection rules

/-! ## The checks of a layout -/

/-- The tests of another rule in `_ensure_review_move_allowed`; only a rule with a source is
looked at. -/
def moveCollides (other : StageRule) (board : Board) (target : Text) : Bool :=
  match other.kind with
  | .file | .directory => lower (effectiveTarget other board) = lower target
  | .tree => (below (effectiveTarget other board) target).any fun relative =>
      selectedByTree other relative (some board) false

/-- `_ensure_review_move_allowed` -/
def ensureReviewMoveAllowed (layout : SdLayout) (rule : StageRule) (board : Board)
    (target : Text) : Option Unit := do
  let projection ← deviceProjectionDocument layout.policyRules
  guard (deviceModeFromProjection layout.policyRules projection target = some rule.mode)
  guard (layout.rules.all fun other =>
    other.provenance = rule.provenance || other.source.isNone || !other.scope.covers board ||
      !moveCollides other board target)

/-- The file rules that `_validate_static_layout` compares. -/
def stagedFileRules (layout : SdLayout) (board : Board) : List StageRule :=
  layout.rules.filter fun rule =>
    rule.scope.covers board && rule.enabled && rule.source.isSome && rule.kind = .file

/-- `_validate_known_stage_structure`, for one board -/
def validateKnownStageStructure (layout : SdLayout) (board : Board) : Option Unit := do
  let selected := layout.rules.filter fun rule =>
    rule.enabled && rule.scope.covers board && board ∉ rule.reviewDisabledFor
  let files := selected.filter fun rule => rule.kind = .file && rule.source.isSome
  let directories := selected.filter fun rule =>
    rule.kind = .directory || (rule.kind = .tree && rule.source.isSome)
  guard (files.all fun rule =>
    let key := lower (effectiveTarget rule board)
    (files.all fun other => other.provenance = rule.provenance ||
      (below key (lower (effectiveTarget other board))).isNone) &&
    directories.all fun directory =>
      lower (effectiveTarget directory board) ≠ key &&
        (below key (lower (effectiveTarget directory board))).isNone)

/-- The moves of a rule, each with its board. -/
def reviewMoves (rule : StageRule) : List (Board × Text) :=
  (rule.reviewMovePi4.map (Board.pi4, ·)).toList ++ (rule.reviewMovePi5.map (Board.pi5, ·)).toList

/-- `_validate_static_layout` -/
def validateStaticLayout (layout : SdLayout) : Option Unit := do
  boards.forM fun board => validateKernels layout.policyRules board
  boards.forM fun board =>
    guard (((stagedFileRules layout board).map fun rule => lower rule.target).Nodup)
  layout.rules.forM fun rule => (reviewMoves rule).forM fun (board, target) =>
    ensureReviewMoveAllowed layout rule board target
  boards.forM fun board => validateKnownStageStructure layout board

/-- The targets that `_validate_device_mode_consistency` looks at. -/
def exactTargets (layout : SdLayout) : List Text :=
  (layout.rules.filter fun rule =>
    rule.kind = .file && '*' ∉ rule.target && '?' ∉ rule.target).flatMap fun rule =>
      rule.target :: (rule.reviewMovePi4.toList ++ rule.reviewMovePi5.toList)

/-- `_validate_device_mode_consistency` -/
def validateDeviceModeConsistency (layout : SdLayout) : Option Unit := do
  let projection ← deviceProjectionDocument layout.policyRules
  boards.forM fun board => (exactTargets layout).forM fun target =>
    match (stagedModesForTarget layout board target).eraseDups with
    | [] => some ()
    | [mode] => guard (deviceModeFromProjection layout.policyRules projection target = some mode)
    | _ => none

/-- `load_sd_layout` -/
def loadStageLayout (raw : RawStageLayout) : Option SdLayout := do
  guard (raw.sources ≠ [] ∧ raw.sources.all sourceValid = true)
  let aliases := raw.sources.map (·.1)
  let both ← parseStageScope aliases .both raw.both
  let pi4 ← parseStageScope aliases (.board .pi4) raw.pi4
  let pi5 ← parseStageScope aliases (.board .pi5) raw.pi5
  let layout : SdLayout := { sources := raw.sources, rules := both ++ pi4 ++ pi5 }
  guard (layout.rules ≠ [])
  validateStaticLayout layout
  validateDeviceModeConsistency layout
  return layout

/-! ## The rules of the policy -/

theorem parseStageRule_rule {aliases : List Text} {scope : Scope} {kind : EntryKind}
    {ordinal : Nat} {raw : RawStageRule} {rule : StageRule}
    (h : parseStageRule aliases scope kind ordinal raw = some rule) :
    parseRule aliases scope kind raw.toRawRule = some rule.toLayoutRule ∧
      allowedKeys kind raw = true ∧ parseMove raw.reviewMovePi4 = some rule.reviewMovePi4 ∧
      parseMove raw.reviewMovePi5 = some rule.reviewMovePi5 ∧ reviewAllowed rule = true ∧
      rule.ordinal = ordinal := by
  simp only [parseStageRule, Option.bind_eq_bind, Option.bind_eq_some_iff] at h
  obtain ⟨_, hkeys, parsed, hparsed, exclude, -, profiles, -, features, -, disabled, -, pi4, -,
    pi5, -, move4, hmove4, move5, hmove5, _, hreview, hrule⟩ := h
  cases hrule
  exact ⟨hparsed, of_guard hkeys, hmove4, hmove5, of_guard hreview, rfl⟩

theorem mapM_zipIdx {α β γ : Type} {f : α × Nat → Option β} {g : α → Option γ} {project : β → γ}
    (hf : ∀ a n b, f (a, n) = some b → g a = some (project b)) {xs : List α} {n : Nat}
    {ys : List β} (h : (xs.zipIdx n).mapM f = some ys) : xs.mapM g = some (ys.map project) := by
  induction xs generalizing n ys with
  | nil =>
      rw [List.zipIdx_nil, List.mapM_nil] at h
      cases h
      rfl
  | cons x xs ih =>
      rw [List.zipIdx_cons, List.mapM_cons] at h
      obtain ⟨y, hy, h⟩ := Option.bind_eq_some_iff.mp h
      obtain ⟨rest, hrest, h⟩ := Option.bind_eq_some_iff.mp h
      cases h
      rw [List.mapM_cons, hf x n y hy, ih hrest]
      rfl

/-- A scope without the fields that only staging reads. -/
def RawStageScope.policy (raw : RawStageScope) : RawScope where
  file := raw.file.map RawStageRule.toRawRule
  tree := raw.tree.map RawStageRule.toRawRule
  directory := raw.directory.map RawStageRule.toRawRule

/-- A layout without the fields that only staging reads. -/
def RawStageLayout.policy (raw : RawStageLayout) : RawLayout where
  aliases := raw.sources.map (·.1)
  both := raw.both.policy
  pi4 := raw.pi4.policy
  pi5 := raw.pi5.policy

theorem parseKind_rules {aliases : List Text} {scope : Scope} {kind : EntryKind}
    {raw : List RawStageRule} {rules : List StageRule}
    (h : parseKind aliases scope kind raw = some rules) :
    (raw.map RawStageRule.toRawRule).mapM (parseRule aliases scope kind) =
      some (rules.map StageRule.toLayoutRule) := by
  rw [List.mapM_map]
  exact mapM_zipIdx (fun _ _ _ hrule => (parseStageRule_rule hrule).1) h

theorem parseStageScope_rules {aliases : List Text} {scope : Scope} {raw : RawStageScope}
    {rules : List StageRule} (h : parseStageScope aliases scope raw = some rules) :
    parseScope aliases scope raw.policy = some (rules.map StageRule.toLayoutRule) := by
  simp only [parseStageScope, Option.bind_eq_bind, Option.bind_eq_some_iff] at h
  obtain ⟨files, hfiles, trees, htrees, directories, hdirectories, hrules⟩ := h
  cases hrules
  unfold parseScope RawStageScope.policy
  rw [parseKind_rules hfiles, parseKind_rules htrees, parseKind_rules hdirectories]
  simp

/-- The layout that staging reads has the rules that the policy is made of. -/
theorem loadStageLayout_rules {raw : RawStageLayout} {layout : SdLayout}
    (h : loadStageLayout raw = some layout) :
    loadSdLayout raw.policy = some layout.policyRules := by
  simp only [loadStageLayout, Option.bind_eq_bind, Option.bind_eq_some_iff] at h
  obtain ⟨_, -, both, hboth, pi4, hpi4, pi5, hpi5, _, hrules, _, hstatic, _, -, hlayout⟩ := h
  cases hlayout
  simp only [validateStaticLayout, Option.bind_eq_bind, Option.bind_eq_some_iff, boards,
    List.forM_eq_forM, List.forM_cons, List.forM_nil] at hstatic
  obtain ⟨_, ⟨_, hkernels4, _, hkernels5, -⟩, -⟩ := hstatic
  have hrules : (both ++ pi4 ++ pi5).map StageRule.toLayoutRule ≠ [] :=
    mt List.map_eq_nil_iff.mp (of_guard hrules)
  simp only [loadSdLayout, RawStageLayout.policy, parseStageScope_rules hboth,
    parseStageScope_rules hpi4, parseStageScope_rules hpi5, Option.bind_eq_bind, Option.bind_some]
  rw [← List.map_append, ← List.map_append]
  have hkernels4 : validateKernels ((both ++ pi4 ++ pi5).map StageRule.toLayoutRule) .pi4 =
      some () := hkernels4
  have hkernels5 : validateKernels ((both ++ pi4 ++ pi5).map StageRule.toLayoutRule) .pi5 =
      some () := hkernels5
  rw [hkernels4, hkernels5, guard, if_pos hrules]
  rfl

/-! ## The targets of a loaded layout -/

theorem validateFatPath_eq {text result : Text} (h : validateFatPath text = some result) :
    result = text ∧ fatPathValid 240 text = true := by
  unfold validateFatPath at h
  split at h
  · next hvalid =>
    cases h
    exact ⟨rfl, hvalid⟩
  · cases h

theorem parseRule_target {aliases : List Text} {scope : Scope} {kind : EntryKind} {raw : RawRule}
    {rule : LayoutRule} (h : parseRule aliases scope kind raw = some rule) :
    rule.scope = scope ∧ rule.kind = kind ∧
      parseTarget kind rule.source raw.target = some rule.target := by
  simp only [parseRule, Option.bind_eq_bind, Option.bind_eq_some_iff] at h
  obtain ⟨_, -, _, -, mode, -, source, -, target, htarget, includes, -, _, -, _, -, hrule⟩ := h
  cases hrule
  exact ⟨rfl, rfl, htarget⟩

theorem parseMove_valid {raw move : Option Text} {target : Text}
    (h : parseMove raw = some move) (hmove : move = some target) :
    fatPathValid 240 target = true := by
  cases raw with
  | none =>
      cases h
      cases hmove
  | some text =>
      obtain ⟨valid, hvalid, rfl⟩ := Option.map_eq_some_iff.mp h
      cases hmove
      obtain ⟨rfl, hfat⟩ := validateFatPath_eq hvalid
      exact hfat

/-- A rule that stages something has valid targets. -/
def TargetsValid (rule : StageRule) : Prop :=
  rule.kind ≠ .file ∨ rule.source.isSome = true →
    ∀ board, fatPathValid 240 (effectiveTarget rule board) = true

theorem parseStageRule_targets {aliases : List Text} {scope : Scope} {kind : EntryKind}
    {ordinal : Nat} {raw : RawStageRule} {rule : StageRule}
    (h : parseStageRule aliases scope kind ordinal raw = some rule) : TargetsValid rule := by
  intro hstaged board
  obtain ⟨hrule, -, hmove4, hmove5, -, -⟩ := parseStageRule_rule h
  obtain ⟨-, hkind, htarget⟩ := parseRule_target hrule
  have hvalid : fatPathValid 240 rule.target = true := by
    unfold parseTarget at htarget
    rw [if_neg] at htarget
    · obtain ⟨heq, hvalid⟩ := validateFatPath_eq htarget
      rw [heq]
      exact hvalid
    · intro hpattern
      obtain hne | hsome := hstaged
      · exact hne (hkind.trans hpattern.1)
      · rw [hpattern.2] at hsome
        cases hsome
  cases board with
  | pi4 =>
      show fatPathValid 240 (rule.reviewMovePi4.getD rule.target) = true
      cases hmove : rule.reviewMovePi4 with
      | none => exact hvalid
      | some target => exact parseMove_valid hmove4 hmove
  | pi5 =>
      show fatPathValid 240 (rule.reviewMovePi5.getD rule.target) = true
      cases hmove : rule.reviewMovePi5 with
      | none => exact hvalid
      | some target => exact parseMove_valid hmove5 hmove

theorem parseKind_mem {aliases : List Text} {scope : Scope} {kind : EntryKind}
    {raw : List RawStageRule} {rules : List StageRule} {rule : StageRule}
    (h : parseKind aliases scope kind raw = some rules) (hrule : rule ∈ rules) :
    ∃ raw' ordinal, parseStageRule aliases scope kind ordinal raw' = some rule := by
  obtain ⟨⟨raw', ordinal⟩, -, hparsed⟩ := exists_of_mem_mapM h rule hrule
  exact ⟨raw', ordinal, hparsed⟩

theorem parseStageScope_mem {aliases : List Text} {scope : Scope} {raw : RawStageScope}
    {rules : List StageRule} {rule : StageRule}
    (h : parseStageScope aliases scope raw = some rules) (hrule : rule ∈ rules) :
    ∃ kind raw' ordinal, parseStageRule aliases scope kind ordinal raw' = some rule := by
  simp only [parseStageScope, Option.bind_eq_bind, Option.bind_eq_some_iff] at h
  obtain ⟨files, hfiles, trees, htrees, directories, hdirectories, hrules⟩ := h
  cases hrules
  obtain hrule | hrule := List.mem_append.mp hrule
  · obtain hrule | hrule := List.mem_append.mp hrule
    · exact ⟨.file, parseKind_mem hfiles hrule⟩
    · exact ⟨.tree, parseKind_mem htrees hrule⟩
  · exact ⟨.directory, parseKind_mem hdirectories hrule⟩

theorem loadStageLayout_mem {raw : RawStageLayout} {layout : SdLayout} {rule : StageRule}
    (h : loadStageLayout raw = some layout) (hrule : rule ∈ layout.rules) :
    ∃ aliases scope kind raw' ordinal,
      parseStageRule aliases scope kind ordinal raw' = some rule := by
  simp only [loadStageLayout, Option.bind_eq_bind, Option.bind_eq_some_iff] at h
  obtain ⟨_, -, both, hboth, pi4, hpi4, pi5, hpi5, _, -, _, -, _, -, hlayout⟩ := h
  cases hlayout
  obtain hrule | hrule := List.mem_append.mp hrule
  · obtain hrule | hrule := List.mem_append.mp hrule
    · exact ⟨_, _, parseStageScope_mem hboth hrule⟩
    · exact ⟨_, _, parseStageScope_mem hpi4 hrule⟩
  · exact ⟨_, _, parseStageScope_mem hpi5 hrule⟩

theorem loadStageLayout_targets {raw : RawStageLayout} {layout : SdLayout}
    (h : loadStageLayout raw = some layout) : ∀ rule ∈ layout.rules, TargetsValid rule := by
  intro rule hrule
  obtain ⟨_, _, _, _, _, hparsed⟩ := loadStageLayout_mem h hrule
  exact parseStageRule_targets hparsed

/-- The target of a tree is never moved. -/
theorem parseStageRule_tree {aliases : List Text} {scope : Scope} {kind : EntryKind}
    {ordinal : Nat} {raw : RawStageRule} {rule : StageRule}
    (h : parseStageRule aliases scope kind ordinal raw = some rule) (htree : rule.kind = .tree)
    (board : Board) : effectiveTarget rule board = rule.target := by
  obtain ⟨hrule, hkeys, hmove4, hmove5, -, -⟩ := parseStageRule_rule h
  have hkind : kind = .tree := (parseRule_target hrule).2.1.symm.trans htree
  rw [hkind] at hkeys
  simp only [allowedKeys, Bool.and_eq_true, Option.isNone_iff_eq_none] at hkeys
  rw [hkeys.1] at hmove4
  rw [hkeys.2] at hmove5
  cases board with
  | pi4 =>
      show rule.reviewMovePi4.getD rule.target = rule.target
      rw [← Option.some.inj hmove4]
      rfl
  | pi5 =>
      show rule.reviewMovePi5.getD rule.target = rule.target
      rw [← Option.some.inj hmove5]
      rfl

theorem glob_plain {text result : Text} (h : glob text = some result) :
    result ≠ [] ∧ '[' ∉ result := by
  unfold glob at h
  split at h
  · cases h
  next hne =>
  split at h
  · cases h
  next hplain =>
  split at h
  · cases h
  cases h
  exact ⟨hne, fun hin => hplain (by simp [hin])⟩

/-- The includes of a rule are globs without classes. -/
theorem parseRule_includes {aliases : List Text} {scope : Scope} {kind : EntryKind}
    {raw : RawRule} {rule : LayoutRule} (h : parseRule aliases scope kind raw = some rule) :
    ∀ pattern ∈ rule.includes, pattern ≠ [] ∧ '[' ∉ pattern := by
  simp only [parseRule, Option.bind_eq_bind, Option.bind_eq_some_iff] at h
  obtain ⟨_, -, _, -, mode, -, source, -, target, -, includes, hincludes, _, -, _, -, hrule⟩ := h
  cases hrule
  intro pattern hpattern
  cases hraw : raw.includes with
  | none =>
      rw [hraw] at hincludes
      cases hincludes
      cases hpattern
  | some items =>
      rw [hraw] at hincludes
      obtain ⟨listed, -, hglobs⟩ := Option.bind_eq_some_iff.mp hincludes
      obtain ⟨text, -, htext⟩ := exists_of_mem_mapM hglobs pattern hpattern
      exact glob_plain htext

end Layout

end BmxUpdate
