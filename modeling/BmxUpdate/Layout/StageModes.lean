import BmxUpdate.Layout.StageFits
import Mathlib.Data.List.Find

/-!
# Staged modes and the modes of the device

The plan records a mode for every file, and the device gives the path the mode of the first
matcher that accepts it.  The two agree for the targets of file rules and for every path that a
file rule names, which is what loading a layout checks.  For another member of a source tree
they agree exactly when no matcher of another mode comes before the matchers of its own mode.
-/

namespace BmxUpdate

namespace Layout

open Release

/-! ## A pattern and its matcher -/

/-- A text with a separator is its first part and the rest. -/
theorem headPart_split {separator : Char} {text : Text} (h : separator ∈ text) :
    text = headPart separator text ++
      separator :: text.drop ((headPart separator text).length + 1) := by
  induction text with
  | nil => cases h
  | cons c text ih =>
      by_cases hc : c = separator
      · subst hc
        have hnone : headPart c (c :: text) = [] := by simp [headPart]
        rw [hnone]
        rfl
      · have hhead : headPart separator (c :: text) = c :: headPart separator text := by
          simp [headPart, hc]
        have hin := (List.mem_cons.mp h).resolve_left fun heq => hc heq.symm
        rw [hhead, List.cons_append, List.length_cons, List.drop_succ_cons, ← ih hin]

theorem not_mem_headPart (separator : Char) (text : Text) :
    separator ∉ headPart separator text := by
  intro hin
  have hne := List.mem_takeWhile_imp hin
  simp at hne

/-- The first component of a path below another. -/
theorem headPart_below (target relative : Text) :
    headPart '/' (target ++ '/' :: relative) = headPart '/' target := by
  unfold headPart
  rw [List.takeWhile_append]
  split
  · next hall =>
    have hself : target.takeWhile (· ≠ '/') = target :=
      (List.takeWhile_prefix _).eq_of_length hall
    rw [hself]
    simp
  · rfl

/-- The last component of a path below another. -/
theorem lastPart_below (target relative : Text) :
    lastPart '/' (target ++ '/' :: relative) = lastPart '/' relative := by
  unfold lastPart
  rw [List.reverse_append, List.reverse_cons, List.append_assoc, List.takeWhile_append]
  split
  · next hall =>
    have hself : relative.reverse.takeWhile (· ≠ '/') = relative.reverse :=
      (List.takeWhile_prefix _).eq_of_length hall
    rw [hself]
    simp
  · rfl

theorem literal_of_plain {text : Text} (hstar : '*' ∉ text) (hany : '?' ∉ text)
    (hclass : '[' ∉ text) : Wildcard.Literal text := by
  intro c hc
  exact ⟨fun h => hstar (h ▸ hc), fun h => hany (h ▸ hc), fun h => hclass (h ▸ hc)⟩

/-- What a pattern accepts as a name, its matcher accepts below the root. -/
theorem devicePattern_applies {pattern path : Text} {root : Option Text} {mode : Mode}
    {matcher : DeviceMatcher} (h : devicePattern pattern root mode = some matcher)
    (hclass : '[' ∉ pattern) (hroot : root.all (headPart '/' path = ·) = true)
    (hfits : Wildcard.fits (lastPart '/' path) pattern = true) :
    matcher.applies path = true := by
  unfold devicePattern at h
  split at h
  · cases h
  split at h
  · cases h
  next hcount =>
  obtain ⟨hany, hcount⟩ := not_or.mp hcount
  split at h
  · next hstar =>
    cases h
    have hname := (Wildcard.fits_literal (literal_of_plain hstar hany hclass)).mp hfits
    unfold DeviceMatcher.applies
    rw [hname]
    simpa using hroot
  · next hstar =>
    have hsplit := headPart_split (not_not.mp hstar)
    have hstart := not_mem_headPart '*' pattern
    dsimp only at h
    generalize headPart '*' pattern = start at h hsplit hstart
    generalize pattern.drop (start.length + 1) = suffix at h hsplit
    have hsuffix : '*' ∉ suffix := by
      intro hin
      have hpos := List.count_pos_iff.mpr hin
      rw [hsplit, List.count_append, List.count_cons_self] at hcount
      omega
    have hany : '?' ∉ start ∧ '?' ∉ suffix := by
      rw [hsplit] at hany
      simpa using hany
    have hclass : '[' ∉ start ∧ '[' ∉ suffix := by
      rw [hsplit] at hclass
      simpa using hclass
    rw [hsplit] at hfits
    obtain ⟨hbegin, hend⟩ := Wildcard.fits_star
      (literal_of_plain hstart hany.1 hclass.1) (literal_of_plain hsuffix hany.2 hclass.2) hfits
    cases h
    unfold DeviceMatcher.applies
    rw [Bool.and_eq_true]
    refine ⟨hroot, ?_⟩
    by_cases hempty : start = []
    · rw [if_pos hempty]
      exact List.isSuffixOf_iff_suffix.mpr hend
    · rw [if_neg hempty, orNone, if_neg hempty]
      exact Bool.and_eq_true_iff.mpr
        ⟨List.isPrefixOf_iff_prefix.mpr hbegin, List.isSuffixOf_iff_suffix.mpr hend⟩

/-! ## The matchers of one rule -/

/-- A matcher that a tree gives: below a root, and never an exact path. -/
structure TreeMatcher (matcher : DeviceMatcher) : Prop where
  root : ∃ root, root ≠ [] ∧ matcher.root = some root
  kind : matcher.kind ≠ .exactPath
  value : matcher.kind = .basenameExact → matcher.value.getD [] ≠ []

theorem devicePattern_tree {pattern root : Text} {mode : Mode} {matcher : DeviceMatcher}
    (h : devicePattern pattern (some root) mode = some matcher) (hroot : root ≠ [])
    (hpattern : pattern ≠ []) : TreeMatcher matcher ∧ matcher.mode = mode := by
  unfold devicePattern at h
  split at h
  · cases h
  split at h
  · cases h
  split at h
  · cases h
    exact ⟨⟨⟨root, hroot, rfl⟩, nofun, fun _ => hpattern⟩, rfl⟩
  · cases h
    refine ⟨⟨⟨root, hroot, rfl⟩, ?_, ?_⟩, rfl⟩
    · dsimp only
      split <;> nofun
    · dsimp only
      split <;> nofun

/-- Matchers with one key accept the same paths. -/
theorem applies_of_key {left right : DeviceMatcher} (hkey : left.key = right.key)
    (hright : TreeMatcher right) {path : Text} (h : right.applies path = true) :
    left.applies path = true := by
  obtain ⟨root, hne, hroot⟩ := hright.root
  unfold DeviceMatcher.key at hkey
  obtain ⟨hkind, htexts⟩ := Prod.mk.inj hkey
  obtain ⟨hroots, htexts⟩ := Prod.mk.inj htexts
  obtain ⟨hvalue, hsuffix⟩ := Prod.mk.inj htexts
  have hleft : left.root = right.root := by
    rw [hroot] at hroots ⊢
    cases hsame : left.root with
    | none =>
        rw [hsame] at hroots
        exact absurd hroots.symm hne
    | some other =>
        rw [hsame] at hroots
        exact congrArg some hroots
  unfold DeviceMatcher.applies at h ⊢
  rw [hkind, hleft, hsuffix, hvalue]
  cases hk : right.kind with
  | exactPath => exact absurd hk hright.kind
  | basenameExact =>
      rw [hk] at h
      have hpresent : left.value = right.value := by
        have hfull := hright.value hk
        cases hl : left.value with
        | none =>
            rw [hl] at hvalue
            exact absurd hvalue.symm hfull
        | some text =>
            cases hr : right.value with
            | none =>
                rw [hr] at hfull
                exact absurd rfl hfull
            | some other =>
                rw [hl, hr] at hvalue
                exact congrArg some hvalue
      rw [hpresent]
      exact h
  | topRoot =>
      rw [hk] at h
      exact h
  | basenameSuffix =>
      rw [hk] at h
      exact h
  | basenamePrefixSuffix =>
      rw [hk] at h
      exact h
  | machineKernel =>
      rw [hk] at h
      exact h

/-- A tree whose mode is not that of a kernel has a matcher for what it selects. -/
theorem tree_matcher {rule : StageRule} {matchers : List DeviceMatcher} {relative : Text}
    (hkind : rule.kind = .tree) (hmode : rule.mode ≠ .kernel)
    (hroot : headPart '/' rule.target ≠ [])
    (hincludes : ∀ pattern ∈ rule.includes, pattern ≠ [] ∧ '[' ∉ pattern)
    (hmatchers : ruleMatchers rule.toLayoutRule = some matchers)
    (hselected : rule.includes = [] ∨
      ∃ pattern ∈ rule.includes, matchesGlob relative pattern = true) :
    ∃ matcher ∈ matchers, TreeMatcher matcher ∧ matcher.mode = rule.mode ∧
      matcher.applies (rule.target ++ '/' :: relative) = true := by
  have hrootOf := headPart_below rule.target relative
  unfold ruleMatchers at hmatchers
  rw [if_neg] at hmatchers
  · unfold deviceMatcher at hmatchers
    rw [if_pos hkind] at hmatchers
    dsimp only at hmatchers
    split at hmatchers
    · next hall =>
      cases hmatchers
      refine ⟨_, List.mem_singleton_self _, ⟨⟨_, hroot, rfl⟩, nofun, nofun⟩, rfl, ?_⟩
      unfold DeviceMatcher.applies
      simp [hrootOf]
    · next hsome =>
      obtain ⟨pattern, hpattern, hglob⟩ := hselected.resolve_left hsome
      obtain ⟨matcher, hin, hdevice⟩ := exists_of_mapM_mem hmatchers pattern hpattern
      obtain ⟨hne, hclass⟩ := hincludes pattern hpattern
      obtain ⟨htree, hsame⟩ := devicePattern_tree hdevice hroot hne
      refine ⟨matcher, hin, htree, hsame, ?_⟩
      have hslash : '/' ∉ pattern := by
        intro hin
        unfold devicePattern at hdevice
        rw [if_pos hin] at hdevice
        cases hdevice
      unfold matchesGlob at hglob
      rw [if_pos hslash] at hglob
      refine devicePattern_applies hdevice hclass ?_ ?_
      · rw [hrootOf]
        simp
      · rw [lastPart_below]
        exact hglob
  · intro hor
    obtain hdirectory | hkernel := hor
    · exact nomatch hkind.symm.trans hdirectory
    · exact hmode hkernel

/-! ## The matchers of all rules -/

/-- A matcher that joins is there afterwards, and so are those before, by key and mode. -/
theorem addMatcher_has {before after : List DeviceMatcher} {matcher : DeviceMatcher}
    (hdistinct : DistinctMatchers before) (h : addMatcher before matcher = some after) :
    (∀ old ∈ before, ∃ kept ∈ after, kept.key = old.key ∧ kept.mode = old.mode) ∧
      ∃ kept ∈ after, kept.key = matcher.key ∧ kept.mode = matcher.mode := by
  unfold addMatcher at h
  split at h
  · cases h
    refine ⟨fun old hold => ⟨old, List.mem_append_left _ hold, rfl, rfl⟩, matcher, ?_, rfl, rfl⟩
    exact List.mem_append_right _ List.mem_cons_self
  · next previous hprevious =>
    split at h
    · cases h
    next hmode =>
    have hmode : previous.mode = matcher.mode := not_not.mp hmode
    cases h
    have hfound := List.find?_some hprevious
    have hkey : previous.key = matcher.key := of_decide_eq_true hfound
    have hin := List.mem_of_find?_eq_some hprevious
    refine ⟨fun old hold => ?_, matcher, ?_, rfl, rfl⟩
    · refine ⟨_, List.mem_map_of_mem hold, ?_⟩
      split
      · next hsame =>
        have hold' := hdistinct.eq_of_key hold hin (hsame.trans hkey.symm)
        rw [hold']
        exact ⟨hkey.symm, hmode.symm⟩
      · exact ⟨rfl, rfl⟩
    · refine List.mem_map.mpr ⟨previous, hin, ?_⟩
      rw [if_pos hkey]

theorem addMatchers_has {before after added : List DeviceMatcher}
    (hdistinct : DistinctMatchers before) (hshape : ∀ matcher ∈ added, MatcherShape matcher)
    (h : added.foldlM addMatcher before = some after) :
    (∀ old ∈ before, ∃ kept ∈ after, kept.key = old.key ∧ kept.mode = old.mode) ∧
      ∀ matcher ∈ added, ∃ kept ∈ after, kept.key = matcher.key ∧ kept.mode = matcher.mode := by
  induction added generalizing before with
  | nil =>
      cases h
      exact ⟨fun old hold => ⟨old, hold, rfl, rfl⟩, nofun⟩
  | cons matcher added ih =>
      rw [List.foldlM_cons] at h
      obtain ⟨next, hnext, hrest⟩ := Option.bind_eq_some_iff.mp h
      obtain ⟨hshape, hshapes⟩ := List.forall_mem_cons.mp hshape
      obtain ⟨hbefore, kept, hkept, hsame⟩ := addMatcher_has hdistinct hnext
      obtain ⟨hafter, hadded⟩ := ih (addMatcher_distinct hshape hdistinct hnext) hshapes hrest
      have htrans : ∀ {old kept : DeviceMatcher}, kept ∈ next → kept.key = old.key ∧
          kept.mode = old.mode → ∃ last ∈ after, last.key = old.key ∧ last.mode = old.mode := by
        intro old kept hkept hsame
        obtain ⟨last, hlast, hkey, hmode⟩ := hafter kept hkept
        exact ⟨last, hlast, hkey.trans hsame.1, hmode.trans hsame.2⟩
      refine ⟨fun old hold => ?_, List.forall_mem_cons.mpr ⟨htrans hkept hsame, hadded⟩⟩
      obtain ⟨kept, hkept, hsame⟩ := hbefore old hold
      exact htrans hkept hsame

theorem ruleMatchers_shape {rule : LayoutRule} {matchers : List DeviceMatcher}
    (h : ruleMatchers rule = some matchers) : ∀ matcher ∈ matchers, MatcherShape matcher := by
  unfold ruleMatchers at h
  split at h
  · cases h
    nofun
  · exact deviceMatcher_shape h

theorem devicePattern_mode {pattern : Text} {root : Option Text} {mode : Mode}
    {matcher : DeviceMatcher} (h : devicePattern pattern root mode = some matcher) :
    matcher.mode = mode := by
  unfold devicePattern at h
  split at h
  · cases h
  split at h
  · cases h
  split at h
  · cases h
    rfl
  · cases h
    rfl

/-- The matchers of a rule have its mode, which is not that of a kernel. -/
theorem ruleMatchers_mode {rule : LayoutRule} {matchers : List DeviceMatcher}
    (h : ruleMatchers rule = some matchers) :
    ∀ matcher ∈ matchers, matcher.mode = rule.mode ∧ rule.mode ≠ .kernel := by
  intro matcher hin
  unfold ruleMatchers at h
  split at h
  · cases h
    cases hin
  next hkinds =>
  refine ⟨?_, fun hkernel => hkinds (Or.inr hkernel)⟩
  unfold deviceMatcher at h
  dsimp only at h
  split at h
  · split at h
    · cases h
      rw [List.mem_singleton.mp hin]
    · obtain ⟨pattern, -, hdevice⟩ := exists_of_mem_mapM h matcher hin
      exact devicePattern_mode hdevice
  split at h
  · obtain ⟨found, hfound, rfl⟩ := Option.map_eq_some_iff.mp h
    rw [List.mem_singleton.mp hin]
    exact devicePattern_mode hfound
  split at h
  · obtain ⟨found, hfound, rfl⟩ := Option.map_eq_some_iff.mp h
    rw [List.mem_singleton.mp hin]
    exact devicePattern_mode hfound
  · cases h
    rw [List.mem_singleton.mp hin]

/-- Every matcher of a rule stands among the matchers of the layout, by key and mode. -/
theorem deviceMatchers_has {rules : List LayoutRule} {matchers own : List DeviceMatcher}
    {rule : LayoutRule} (h : deviceMatchers rules = some matchers) (hrule : rule ∈ rules)
    (hown : ruleMatchers rule = some own) :
    ∀ matcher ∈ own, ∃ kept ∈ matchers, kept.key = matcher.key ∧ kept.mode = matcher.mode := by
  obtain ⟨all, hall, hfold⟩ := Option.bind_eq_some_iff.mp h
  have hshape : ∀ matcher ∈ all.flatten, MatcherShape matcher := by
    intro matcher hmatcher
    obtain ⟨found, hfound, hin⟩ := List.mem_flatten.mp hmatcher
    obtain ⟨_, -, hmatchers⟩ := exists_of_mem_mapM hall found hfound
    exact ruleMatchers_shape hmatchers matcher hin
  obtain ⟨found, hfound, hsame⟩ := exists_of_mapM_mem hall rule hrule
  obtain rfl : found = own := Option.some.inj (hsame.symm.trans hown)
  intro matcher hmatcher
  exact (addMatchers_has ⟨List.Pairwise.nil, nofun⟩ hshape hfold).2 matcher
    (List.mem_flatten.mpr ⟨found, hfound, hmatcher⟩)

/-- A matcher of an exact path is the target of a file rule without wildcards. -/
theorem exactMatcher_rule {rule : LayoutRule} {matchers : List DeviceMatcher}
    (h : ruleMatchers rule = some matchers) {matcher : DeviceMatcher} (hin : matcher ∈ matchers)
    (hexact : matcher.kind = .exactPath) :
    rule.kind = .file ∧ '*' ∉ rule.target ∧ '?' ∉ rule.target ∧
      matcher.value = some rule.target := by
  have hpattern : ∀ {pattern : Text} {root : Option Text} {mode : Mode},
      devicePattern pattern root mode ≠ some matcher := by
    intro pattern root mode hdevice
    unfold devicePattern at hdevice
    split at hdevice
    · cases hdevice
    split at hdevice
    · cases hdevice
    split at hdevice
    · cases hdevice
      cases hexact
    · cases hdevice
      dsimp only at hexact
      split at hexact <;> cases hexact
  unfold ruleMatchers at h
  split at h
  · cases h
    cases hin
  next hkinds =>
  unfold deviceMatcher at h
  dsimp only at h
  split at h
  · split at h
    · cases h
      rw [List.mem_singleton.mp hin] at hexact
      cases hexact
    · obtain ⟨pattern, -, hdevice⟩ := exists_of_mem_mapM h matcher hin
      exact absurd hdevice hpattern
  next htree =>
  split at h
  · obtain ⟨found, hfound, rfl⟩ := Option.map_eq_some_iff.mp h
    rw [List.mem_singleton.mp hin] at hpattern
    exact absurd hfound hpattern
  split at h
  · obtain ⟨found, hfound, rfl⟩ := Option.map_eq_some_iff.mp h
    rw [List.mem_singleton.mp hin] at hpattern
    exact absurd hfound hpattern
  next hplain =>
  cases h
  rw [List.mem_singleton.mp hin]
  refine ⟨?_, fun hstar => hplain (Or.inl hstar), fun hany => hplain (Or.inr hany), rfl⟩
  cases hkind : rule.kind with
  | file => rfl
  | tree => exact absurd hkind htree
  | directory => exact absurd (Or.inl hkind) hkinds

theorem addMatcher_mem {before after : List DeviceMatcher} {matcher other : DeviceMatcher}
    (h : addMatcher before matcher = some after) (hin : other ∈ after) :
    other ∈ before ∨ other = matcher := by
  unfold addMatcher at h
  split at h
  · cases h
    exact (List.mem_append.mp hin).imp id List.mem_singleton.mp
  · split at h
    · cases h
    · cases h
      obtain ⟨old, hold, rfl⟩ := List.mem_map.mp hin
      split
      · exact Or.inr rfl
      · exact Or.inl hold

/-- Every matcher of a layout is one of a rule. -/
theorem deviceMatchers_from {rules : List LayoutRule} {matchers : List DeviceMatcher}
    (h : deviceMatchers rules = some matchers) :
    ∀ matcher ∈ matchers, ∃ rule ∈ rules, ∃ own, ruleMatchers rule = some own ∧ matcher ∈ own := by
  obtain ⟨all, hall, hfold⟩ := Option.bind_eq_some_iff.mp h
  refine foldlM_keeps (P := fun matchers => ∀ matcher ∈ matchers, ∃ rule ∈ rules, ∃ own,
    ruleMatchers rule = some own ∧ matcher ∈ own) ?_
    (fun _ hin => absurd hin List.not_mem_nil) hfold
  intro added hadded before after hbefore hstep matcher hin
  obtain hold | rfl := addMatcher_mem hstep hin
  · exact hbefore matcher hold
  · obtain ⟨own, hown, hmatcher⟩ := List.mem_flatten.mp hadded
    obtain ⟨rule, hrule, hmatchers⟩ := exists_of_mem_mapM hall own hown
    exact ⟨rule, hrule, own, hmatchers, hmatcher⟩

/-! ## The first matcher -/

/-- The first matcher that accepts a path has a mode exactly when some matcher of the mode
accepts it and none of another mode comes before all of these. -/
theorem modeOf_eq_some_iff {matchers : List DeviceMatcher} (h : DistinctMatchers matchers)
    (hsorted : matchers.Pairwise fun left right => matcherLe left right = true) {path : Text}
    {mode : Mode} :
    modeOf matchers path = some mode ↔
      (∃ own ∈ matchers, own.mode = mode ∧ own.applies path = true) ∧
      ∀ other ∈ matchers, other.mode ≠ mode → other.applies path = true →
        ∃ own ∈ matchers, own.mode = mode ∧ own.applies path = true ∧
          matcherLe own other = true := by
  unfold modeOf
  rw [Option.map_eq_some_iff]
  constructor
  · intro hmode
    obtain ⟨first, hfind, hmode⟩ := hmode
    obtain ⟨hfirst, happlies, hbefore⟩ := find?_first hsorted hfind
    refine ⟨⟨first, hfirst, hmode, happlies⟩, fun other hother hne hother' => ?_⟩
    refine ⟨first, hfirst, hmode, happlies, (hbefore other hother hother').resolve_left ?_⟩
    exact fun heq => hne (heq ▸ hmode)
  · intro hboth
    obtain ⟨⟨own, hown, hmode, happlies⟩, hfirst⟩ := hboth
    cases hfind : matchers.find? (·.applies path) with
    | none => exact absurd happlies (List.find?_eq_none.mp hfind own hown)
    | some first =>
        refine ⟨first, rfl, ?_⟩
        obtain ⟨hin, haccepts, hbefore⟩ := find?_first hsorted hfind
        by_contra hne
        obtain ⟨same, hsame, hsameMode, hsameApplies, hle⟩ := hfirst first hin hne haccepts
        obtain rfl | hge := hbefore same hsame hsameApplies
        · exact hne hsameMode
        · exact hne (h.eq_of_le hin hsame hge hle ▸ hsameMode)

/-- A path that no file rule names has the same mode in the projection as in the full list. -/
theorem modeOf_projection {rules : List LayoutRule} {projection : DeviceProjection}
    {matchers : List DeviceMatcher} (hprojection : deviceProjection rules = some projection)
    (hmatchers : deviceMatchers rules = some matchers) {path : Text}
    (hpath : ∀ rule ∈ rules, rule.kind = .file → '*' ∉ rule.target → '?' ∉ rule.target →
      rule.target ≠ path) :
    modeOf projection.rules path = modeOf (fullMatchers matchers) path := by
  obtain ⟨found, hfound, hkept⟩ := projection_rules hprojection
  obtain rfl : found = matchers := Option.some.inj (hfound.symm.trans hmatchers)
  unfold modeOf
  rw [hkept, List.find?_filter]
  congr 1
  refine List.find?_congr fun matcher hin => ?_
  by_cases happlies : matcher.applies path = true
  · have hkeep : redundant (fullMatchers found) matcher = false := by
      rw [Bool.eq_false_iff]
      intro hredundant
      have hkind := kind_of_redundant hredundant
      obtain ⟨rule, hrule, own, hown, hmem⟩ := deviceMatchers_from hmatchers matcher
        ((fullMatchers_perm found).subset hin)
      obtain ⟨hfile, hstar, hany, hvalue⟩ := exactMatcher_rule hown hmem hkind
      have hsame := value_of_applies hkind happlies
      exact hpath rule hrule hfile hstar hany (Option.some.inj (hvalue.symm.trans hsame))
    rw [hkeep, happlies]
    rfl
  · rw [Bool.not_eq_true] at happlies
    rw [happlies]
    exact decide_eq_false fun hand => nomatch hand.2

/-! ## The paths that file rules name -/

theorem of_forM {α : Type} {f : α → Option Unit} {xs : List α} (h : xs.forM f = some ()) :
    ∀ x ∈ xs, f x = some () := by
  induction xs with
  | nil => nofun
  | cons x xs ih =>
      obtain ⟨_, hx, hrest⟩ := Option.bind_eq_some_iff.mp h
      exact List.forall_mem_cons.mpr ⟨hx, ih hrest⟩

/-- Loading a layout compares the mode of every staged path that a file rule names. -/
theorem exactTarget_mode {raw : RawStageLayout} {layout : SdLayout} {board : Board}
    {rule : StageRule} {target : Text} (hload : loadStageLayout raw = some layout)
    (hrule : rule ∈ layout.rules) (hsource : rule.source.isSome = true)
    (henabled : rule.enabled = true) (hscope : rule.scope.covers board = true)
    (hboard : board ∉ rule.reviewDisabledFor) (hstages : stagesTarget rule board target = true)
    (htarget : target ∈ exactTargets layout) :
    ∃ projection, deviceProjection layout.policyRules = some projection ∧
      deviceModeFromProjection layout.policyRules projection target = some rule.mode := by
  have hvalidated : validateDeviceModeConsistency layout = some () := by
    simp only [loadStageLayout, Option.bind_eq_bind, Option.bind_eq_some_iff] at hload
    obtain ⟨_, -, _, -, _, -, _, -, _, -, _, -, _, hvalid, hlayout⟩ := hload
    cases hlayout
    exact hvalid
  obtain ⟨projection, hdocument, hchecked⟩ := Option.bind_eq_some_iff.mp hvalidated
  have hboards : board ∈ boards := by cases board <;> decide
  have hmode := of_forM (of_forM hchecked board hboards) target htarget
  have hmem : rule.mode ∈ (stagedModesForTarget layout board target).eraseDups := by
    rw [List.mem_eraseDups]
    refine List.mem_map.mpr ⟨rule, List.mem_filter.mpr ⟨hrule, ?_⟩, rfl⟩
    simp [hsource, henabled, hscope, hboard, hstages]
  have hprojection : deviceProjection layout.policyRules = some projection := by
    simp only [deviceProjectionDocument, Option.bind_eq_bind, Option.bind_eq_some_iff] at hdocument
    obtain ⟨_, -, _, -, hprojection⟩ := hdocument
    exact hprojection
  refine ⟨projection, hprojection, ?_⟩
  split at hmode
  · next hnil =>
    rw [hnil] at hmem
    cases hmem
  · next mode hone =>
    rw [hone] at hmem
    rw [List.mem_singleton.mp hmem]
    exact of_guard hmode
  · cases hmode

/-- A path that is staged below a directory. -/
theorem below_append (directory relative : Text) :
    below directory (directory ++ '/' :: relative) = some relative := by
  unfold below
  rw [if_pos]
  · rw [← List.drop_drop, List.drop_left]
    rfl
  · rw [List.isPrefixOf_iff_prefix]
    exact ⟨relative, by simp⟩

theorem fatPathValid_plain {text : Text} (h : fatPathValid 240 text = true) :
    headPart '/' text ≠ [] ∧ '*' ∉ text ∧ '?' ∉ text := by
  unfold fatPathValid at h
  split at h
  · cases h
  next hne =>
  split at h
  · cases h
  split at h
  · cases h
  next hsafe =>
  simp only [not_or] at hsafe
  have hchar : ∀ c ∈ text, unsafeChar c ≠ true := by
    intro c hc hunsafe
    exact hsafe.2.2.2 (List.any_eq_true.mpr ⟨c, hc, hunsafe⟩)
  refine ⟨?_, fun hin => hchar _ hin (by decide), fun hin => hchar _ hin (by decide)⟩
  cases text with
  | nil => exact absurd rfl hne
  | cons c rest =>
      have hslash : c ≠ '/' := fun heq => hsafe.2.1 (congrArg some heq)
      simp [headPart, hslash]

/-! ## Every planned file -/

section Modes

variable {raw : RawStageLayout} {layout : SdLayout} {fileSystem : FileSystem} {board : Board}
  {roots : List (Text × Text)} {entries : List StageRule} {rule : StageRule}
  {planned : PlannedFile} {projection : DeviceProjection} {matchers : List DeviceMatcher}

/-- What a selected file has of its rule. -/
theorem selected_stages (h : SelectedFile fileSystem roots board rule planned) :
    rule.source.isSome = true ∧ planned.mode = rule.mode ∧
      stagesTarget rule board planned.target = true := by
  cases h with
  | file kind hsource =>
      refine ⟨by rw [hsource]; rfl, rfl, ?_⟩
      unfold stagesTarget
      rw [kind]
      exact decide_eq_true rfl
  | member kind hsource _ _ _ selected =>
      refine ⟨by rw [hsource]; rfl, rfl, ?_⟩
      unfold stagesTarget
      rw [kind]
      show (below _ (_ ++ _)).any _ = true
      rw [below_append]
      exact selected

/-- The target of a file rule is a path that a file rule names. -/
theorem file_target_exact (hload : loadStageLayout raw = some layout)
    (hrule : rule ∈ layout.rules) (hkind : rule.kind = .file) (hsource : rule.source.isSome = true)
    (board : Board) : effectiveTarget rule board ∈ exactTargets layout := by
  obtain ⟨_, _, _, _, _, hparsed⟩ := loadStageLayout_mem hload hrule
  have hvalid : fatPathValid 240 rule.target = true := by
    obtain ⟨htargetRule, -, -, -, -, -⟩ := parseStageRule_rule hparsed
    obtain ⟨-, hsame, htarget⟩ := parseRule_target htargetRule
    unfold parseTarget at htarget
    rw [if_neg] at htarget
    · obtain ⟨heq, hfat⟩ := validateFatPath_eq htarget
      rw [heq]
      exact hfat
    · intro hpattern
      rw [hpattern.2] at hsource
      cases hsource
  obtain ⟨-, hstar, hany⟩ := fatPathValid_plain hvalid
  refine List.mem_flatMap.mpr ⟨rule, List.mem_filter.mpr ⟨hrule, ?_⟩, ?_⟩
  · simp [hkind, hstar, hany]
  · cases board with
    | pi4 =>
        show rule.reviewMovePi4.getD rule.target ∈ _
        cases hmove : rule.reviewMovePi4 <;> simp
    | pi5 =>
        show rule.reviewMovePi5.getD rule.target ∈ _
        cases hmove : rule.reviewMovePi5 <;> simp

theorem mem_policyRules (hrule : rule ∈ layout.rules) :
    rule.toLayoutRule ∈ layout.policyRules := List.mem_map_of_mem hrule

/-- No kernel stands in a directory. -/
theorem not_kernel_below (hload : loadStageLayout raw = some layout) (target relative : Text)
    (projection : DeviceProjection) :
    deviceModeFromProjection layout.policyRules projection (target ++ '/' :: relative) =
      modeOf projection.rules (target ++ '/' :: relative) := by
  unfold deviceModeFromProjection
  rw [if_neg]
  intro hany
  obtain ⟨board, -, hin⟩ := List.any_eq_true.mp hany
  have hin := of_decide_eq_true hin
  unfold kernelTargetsUnchecked at hin
  rw [List.mem_eraseDups] at hin
  obtain ⟨kernel, hkernel, htarget⟩ := List.mem_map.mp hin
  have hplain := (loadSdLayout_fits (loadStageLayout_rules hload)).kernels board kernel
    (List.mem_filter.mp hkernel).1
  refine hplain.slash ?_
  rw [htarget]
  exact List.mem_append_right _ List.mem_cons_self

/-- A tree has a matcher of its mode among those of the layout for what it selects. -/
theorem own_matcher (hload : loadStageLayout raw = some layout) (hrule : rule ∈ layout.rules)
    (hmatchers : deviceMatchers layout.policyRules = some matchers) (hkind : rule.kind = .tree)
    (hmode : rule.mode ≠ .kernel) {relative : Text} {board : Board}
    (hselected : selectedByTree rule relative (some board) false = true) :
    ∃ own ∈ matchers, own.mode = rule.mode ∧
      own.applies (effectiveTarget rule board ++ '/' :: relative) = true := by
  obtain ⟨_, _, _, _, _, hparsed⟩ := loadStageLayout_mem hload hrule
  have htree : rule.kind ≠ .file ∨ rule.source.isSome = true :=
    Or.inl fun hfile => nomatch hkind.symm.trans hfile
  have hvalid := parseStageRule_targets hparsed htree board
  rw [parseStageRule_tree hparsed hkind] at hvalid ⊢
  obtain ⟨all, hall, -⟩ := Option.bind_eq_some_iff.mp hmatchers
  obtain ⟨own, -, hown⟩ := exists_of_mapM_mem hall _ (mem_policyRules hrule)
  have hincluded : rule.includes = [] ∨
      ∃ pattern ∈ rule.includes, matchesGlob relative pattern = true := by
    unfold selectedByTree at hselected
    rw [Bool.and_eq_true, Bool.or_eq_true, decide_eq_true_eq, List.any_eq_true] at hselected
    exact hselected.1
  obtain ⟨matcher, hin, htreeMatcher, hsame, happlies⟩ := tree_matcher hkind hmode
    (fatPathValid_plain hvalid).1 (parseRule_includes (parseStageRule_rule hparsed).1) hown
    hincluded
  obtain ⟨kept, hkept, hkey, hkeptMode⟩ := deviceMatchers_has hmatchers (mem_policyRules hrule)
    hown matcher hin
  exact ⟨kept, hkept, hkeptMode.trans hsame, applies_of_key hkey htreeMatcher happlies⟩

/-- The mode of the device for a selected member that no file rule names. -/
theorem member_mode_iff (hload : loadStageLayout raw = some layout) (hrule : rule ∈ layout.rules)
    (hprojection : deviceProjection layout.policyRules = some projection)
    (hmatchers : deviceMatchers layout.policyRules = some matchers)
    (hselected : SelectedFile fileSystem roots board rule planned)
    (htarget : planned.target ∉ exactTargets layout) :
    deviceModeFromProjection layout.policyRules projection planned.target = some rule.mode ↔
      rule.mode ≠ .kernel ∧ ∀ other ∈ matchers, other.mode ≠ rule.mode →
        other.applies planned.target = true → ∃ own ∈ matchers, own.mode = rule.mode ∧
          own.applies planned.target = true ∧ matcherLe own other = true := by
  cases hselected with
  | file kind hsource =>
      exact absurd (file_target_exact hload hrule kind (by rw [hsource]; rfl) board) htarget
  | @member _ _ _ relative _ kind _ _ _ _ selected =>
      have hpath : ∀ other ∈ layout.policyRules, other.kind = .file → '*' ∉ other.target →
          '?' ∉ other.target → other.target ≠ effectiveTarget rule board ++ '/' :: relative := by
        intro other hother hfile hstar hany heq
        obtain ⟨full, hfull, rfl⟩ := List.mem_map.mp hother
        refine htarget (List.mem_flatMap.mpr ⟨full, List.mem_filter.mpr ⟨hfull, ?_⟩, ?_⟩)
        · simp [hfile, hstar, hany]
        · exact List.mem_cons.mpr (Or.inl heq.symm)
      have hdistinct := deviceMatchers_distinct hmatchers
      have hmem : ∀ matcher, matcher ∈ fullMatchers matchers ↔ matcher ∈ matchers :=
        fun matcher => (fullMatchers_perm matchers).mem_iff
      show deviceModeFromProjection _ _ (_ ++ _) = _ ↔ _
      rw [not_kernel_below hload, modeOf_projection hprojection hmatchers hpath,
        modeOf_eq_some_iff (hdistinct.perm (fullMatchers_perm matchers))
          (fullMatchers_sorted matchers)]
      simp only [hmem]
      constructor
      · intro h
        obtain ⟨⟨own, hown, hmode, -⟩, hfirst⟩ := h
        refine ⟨?_, hfirst⟩
        obtain ⟨other, -, found, hfound, hin⟩ := deviceMatchers_from hmatchers own hown
        obtain ⟨hsame, hkernel⟩ := ruleMatchers_mode hfound own hin
        rw [← hmode, hsame]
        exact hkernel
      · intro h
        exact ⟨own_matcher hload hrule hmatchers kind h.1 selected, h.2⟩

/-- For every selected member of a source tree whose path no file rule names: the tree is not one
of kernels, and no matcher of another mode that accepts the path comes before the matchers of
the tree's mode that accept it. -/
def MembersAgree (layout : SdLayout) (fileSystem : FileSystem) (roots : List (Text × Text))
    (board : Board) (entries : List StageRule) : Prop :=
  ∀ rule ∈ entries, ∀ planned, SelectedFile fileSystem roots board rule planned →
    planned.target ∉ exactTargets layout → rule.mode ≠ .kernel ∧
      ∀ matchers, deviceMatchers layout.policyRules = some matchers →
        ∀ other ∈ matchers, other.mode ≠ rule.mode → other.applies planned.target = true →
          ∃ own ∈ matchers, own.mode = rule.mode ∧ own.applies planned.target = true ∧
            matcherLe own other = true

end Modes

/-- Every planned file has on the device the mode of the plan, for the projection and for the
compiled policy, exactly when the members of the source trees agree. -/
theorem staged_modes_iff {raw : RawStageLayout} {layout : SdLayout} {fileSystem : FileSystem}
    {board : Board} {overrides : List (Text × Text)} {profile : Profile} {features : List Text}
    {plan : StagePlan} {entries : List StageRule} {roots : List (Text × Text)}
    {projection : DeviceProjection}
    (hload : loadStageLayout raw = some layout)
    (hplan : planStage layout fileSystem board overrides profile features = some plan)
    (hentries : selectedLayoutEntries layout board profile features = some entries)
    (hroots : expandSourceRoots layout board overrides = some roots)
    (hprojection : deviceProjection layout.policyRules = some projection) :
    (∀ planned ∈ plan.files,
      deviceModeFromProjection layout.policyRules projection planned.target = some planned.mode ∧
      ∀ policy, compileLayout raw.policy = some policy →
        policy.classifyBmxPath planned.target = some (modePolicy planned.mode)) ↔
    MembersAgree layout fileSystem roots board entries := by
  have hfacts := planStage_facts (loadStageLayout_targets hload) hentries hroots hplan
  obtain ⟨matchers, hmatchers, -⟩ := projection_rules hprojection
  have happlies : ∀ rule ∈ entries, rule ∈ layout.rules ∧
      applies rule board profile features = true := by
    intro rule hrule
    unfold selectedLayoutEntries at hentries
    split at hentries
    · cases hentries
      exact List.mem_filter.mp hrule
    · cases hentries
  constructor
  · intro h rule hrule planned hselected htarget
    have hmode := (h planned ((hfacts.files planned).mpr ⟨rule, hrule, hselected⟩)).1
    rw [(selected_stages hselected).2.1] at hmode
    obtain ⟨hkernel, hfirst⟩ := (member_mode_iff hload (happlies rule hrule).1 hprojection
      hmatchers hselected htarget).mp hmode
    refine ⟨hkernel, fun found hfound => ?_⟩
    obtain rfl : found = matchers := Option.some.inj (hfound.symm.trans hmatchers)
    exact hfirst
  · intro h planned hplanned
    obtain ⟨rule, hrule, hselected⟩ := (hfacts.files planned).mp hplanned
    obtain ⟨hin, hrules⟩ := happlies rule hrule
    obtain ⟨hsource, hsame, hstages⟩ := selected_stages hselected
    have hmode : deviceModeFromProjection layout.policyRules projection planned.target =
        some planned.mode := by
      rw [hsame]
      by_cases htarget : planned.target ∈ exactTargets layout
      · unfold applies at hrules
        simp only [Bool.and_eq_true, decide_eq_true_eq] at hrules
        obtain ⟨⟨⟨⟨henabled, hscope⟩, hboard⟩, -⟩, -⟩ := hrules
        obtain ⟨found, hfound, hmode⟩ := exactTarget_mode hload hin hsource henabled hscope hboard
          hstages htarget
        obtain rfl : found = projection := Option.some.inj (hfound.symm.trans hprojection)
        exact hmode
      · obtain ⟨hkernel, hfirst⟩ := h rule hrule planned hselected htarget
        exact (member_mode_iff hload hin hprojection hmatchers hselected htarget).mpr
          ⟨hkernel, hfirst matchers hmatchers⟩
    refine ⟨hmode, fun policy hpolicy => ?_⟩
    obtain ⟨rules, found, hrules, hfound, hagree⟩ := classifyBmxPath_projection hpolicy
    obtain rfl : rules = layout.policyRules :=
      Option.some.inj (hrules.symm.trans (loadStageLayout_rules hload))
    obtain rfl : found = projection := Option.some.inj (hfound.symm.trans hprojection)
    rw [hagree planned.target (hfacts.valid planned hplanned), hmode]
    rfl

/-- The kernels, a tree whose images are replaced, and a tree that is kept, both below `c64`. -/
def romsLayout : RawStageLayout where
  sources := [("repo".toList, "/repo".toList)]
  both :=
    { file := rawKernels
      tree := [{ mode := "replace".toList, target := "c64/roms".toList
                 source := some "repo/roms".toList, includes := some ["*.bin".toList]
                 optional := none },
               { mode := "keep".toList, target := "c64/disks".toList
                 source := some "repo/disks".toList, includes := none, optional := none }]
      directory := [] }
  pi4 := ⟨[], [], []⟩
  pi5 := ⟨[], [], []⟩

/-- Both sources are directories; the tree that is kept has an image. -/
def romsSources : FileSystem := fun path =>
  if path = "/repo/roms".toList then some (.directory [])
  else if path = "/repo/disks".toList then
    some (.directory [("x.bin".toList, .file (some []))])
  else none

/-- The matchers of that layout: the images below `c64`, and all of `c64`. -/
def romsMatchers : List DeviceMatcher :=
  [⟨.basenameSuffix, .replace, some "c64".toList, none, some ".bin".toList⟩,
    ⟨.topRoot, .keep, some "c64".toList, none, none⟩]

/-- The image is staged as a file to keep, and the device replaces it. -/
theorem kept_file_replaced :
    ∃ layout plan planned projection, loadStageLayout romsLayout = some layout ∧
      planStage layout romsSources .pi4 [] .release [] = some plan ∧ planned ∈ plan.files ∧
      deviceProjection layout.policyRules = some projection ∧ planned.mode = .keep ∧
      deviceModeFromProjection layout.policyRules projection planned.target = some .replace := by
  have hplan : ((loadStageLayout romsLayout).bind fun layout =>
      (planStage layout romsSources .pi4 [] .release []).map fun plan =>
        plan.files.map fun planned => (planned.target, planned.mode)) =
      some [("c64/disks/x.bin".toList, .keep)] := by
    decide
  obtain ⟨layout, hlayout, hplanned⟩ := Option.bind_eq_some_iff.mp hplan
  obtain ⟨plan, hplan, hfiles⟩ := Option.map_eq_some_iff.mp hplanned
  obtain ⟨planned, hin, hparts⟩ := List.mem_map.mp (hfiles ▸ List.mem_singleton_self _)
  obtain ⟨htarget, hmode⟩ := Prod.mk.inj hparts
  have hrules := loadStageLayout_rules hlayout
  obtain ⟨rules, projection, hsame, hprojection, -, -, hkept⟩ :=
    @layout_matchers romsLayout.policy romsMatchers (by decide) (by decide)
      (by decide)
  obtain rfl : rules = layout.policyRules := Option.some.inj (hsame.symm.trans hrules)
  refine ⟨layout, plan, planned, projection, hlayout, hplan, hin, hprojection, hmode, ?_⟩
  have hbelow : planned.target = "c64/disks".toList ++ '/' :: "x.bin".toList := htarget
  rw [hbelow, not_kernel_below hlayout, hkept]
  decide

/-- The same sources, with an image in the tree whose images are replaced and none in the tree
that is kept. -/
def imageSources : FileSystem := fun path =>
  if path = "/repo/roms".toList then some (.directory [("x.bin".toList, .file (some []))])
  else if path = "/repo/disks".toList then
    some (.directory [("y.d64".toList, .file (some []))])
  else none

/-- The modes of planned files agree with those matchers. -/
def agreeChecks (matchers : List DeviceMatcher) (plan : StagePlan) : Bool :=
  plan.files.all fun planned => planned.mode ≠ .kernel && matchers.all fun other =>
    other.mode = planned.mode || !other.applies planned.target || matchers.any fun own =>
      own.mode = planned.mode && own.applies planned.target && matcherLe own other

theorem membersAgree_of_checks {layout : SdLayout} {fileSystem : FileSystem} {board : Board}
    {entries : List StageRule} {roots : List (Text × Text)} {plan : StagePlan}
    {matchers : List DeviceMatcher} {listed : Text → Prop}
    (hfacts : PlanFacts (Selected fileSystem roots board entries) listed plan)
    (hmatchers : deviceMatchers layout.policyRules = some matchers)
    (h : agreeChecks matchers plan = true) :
    MembersAgree layout fileSystem roots board entries := by
  intro rule hrule planned hselected _
  have hchecks := List.all_eq_true.mp h planned ((hfacts.files planned).mpr ⟨rule, hrule, hselected⟩)
  rw [(selected_stages hselected).2.1] at hchecks
  simp only [Bool.and_eq_true, List.all_eq_true, List.any_eq_true, Bool.or_eq_true,
    Bool.not_eq_true', decide_eq_true_eq] at hchecks
  refine ⟨hchecks.1, fun found hfound other hother hmode happlies => ?_⟩
  obtain rfl : found = matchers := Option.some.inj (hfound.symm.trans hmatchers)
  obtain (hsame | hnot) | ⟨own, hown, ⟨hsame, haccepts⟩, hle⟩ := hchecks.2 other hother
  · exact absurd hsame hmode
  · rw [happlies] at hnot
    cases hnot
  · exact ⟨own, hown, hsame, haccepts, hle⟩

/-- The image is replaced, and the other file of `c64` is kept. -/
theorem roms_modes :
    ∃ layout plan projection, loadStageLayout romsLayout = some layout ∧
      planStage layout imageSources .pi4 [] .release [] = some plan ∧
      plan.files.map (fun planned => (planned.target, planned.mode)) =
        [("c64/disks/y.d64".toList, .keep), ("c64/roms/x.bin".toList, .replace)] ∧
      deviceProjection layout.policyRules = some projection ∧ ∀ planned ∈ plan.files,
        deviceModeFromProjection layout.policyRules projection planned.target =
          some planned.mode := by
  have hall : ((loadStageLayout romsLayout).bind fun layout =>
      (planStage layout imageSources .pi4 [] .release []).bind fun plan =>
        (selectedLayoutEntries layout .pi4 .release []).bind fun _ =>
          (expandSourceRoots layout .pi4 []).bind fun _ =>
            (deviceMatchers layout.policyRules).bind fun matchers =>
              (deviceProjection layout.policyRules).map fun _ =>
                (plan.files.map (fun planned => (planned.target, planned.mode)),
                  agreeChecks matchers plan)) =
      some ([("c64/disks/y.d64".toList, .keep), ("c64/roms/x.bin".toList, .replace)], true) := by
    decide
  obtain ⟨layout, hlayout, hall⟩ := Option.bind_eq_some_iff.mp hall
  obtain ⟨plan, hplan, hall⟩ := Option.bind_eq_some_iff.mp hall
  obtain ⟨entries, hentries, hall⟩ := Option.bind_eq_some_iff.mp hall
  obtain ⟨roots, hroots, hall⟩ := Option.bind_eq_some_iff.mp hall
  obtain ⟨matchers, hmatchers, hall⟩ := Option.bind_eq_some_iff.mp hall
  obtain ⟨projection, hprojection, hall⟩ := Option.map_eq_some_iff.mp hall
  obtain ⟨hfiles, hchecks⟩ := Prod.mk.inj hall
  refine ⟨layout, plan, projection, hlayout, hplan, hfiles, hprojection, fun planned hplanned => ?_⟩
  have hfacts := planStage_facts (loadStageLayout_targets hlayout) hentries hroots hplan
  exact ((staged_modes_iff hlayout hplan hentries hroots hprojection).mpr
    (membersAgree_of_checks hfacts hmatchers hchecks) planned hplanned).1

end Layout

end BmxUpdate
