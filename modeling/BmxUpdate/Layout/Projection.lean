import BmxUpdate.Layout.Compiled

/-!
# The normalised projection

`device_projection_document` (`sd_layout.py`) leaves out a matcher of an exact
path that another matcher of its mode accepts.  The full list of the matchers,
in the order of `_device_matcher_order_key`, says which mode a path has without
that step.

* `projection_rules`: the projection is the full list without what is left out.
* `compileLayout_rules` and `classifyBmxPath_projection`: the policy of the host
  is the projection, kernels first.
* `projection_preserves_iff`: when nothing changes.  A matcher of a third mode
  can rank between the two.
-/

namespace BmxUpdate

namespace Layout

open Wire Release FatPath

/-! ## The full list -/

/-- `_device_matcher_order_key` -/
def matcherOrderKey (matcher : DeviceMatcher) : Nat × List Text :=
  (kindRank matcher.kind,
    [matcher.root.getD [], matcher.value.getD [], matcher.suffix.getD []])

/-- All device matchers of the rules, one for each key. -/
def deviceMatchers (rules : List LayoutRule) : Option (List DeviceMatcher) := do
  let all ← rules.mapM ruleMatchers
  all.flatten.foldlM addMatcher []

/-- The order of the matchers. -/
def matcherLe (left right : DeviceMatcher) : Bool :=
  keyLe (matcherOrderKey left) (matcherOrderKey right)

/-- The mode of the first matcher that accepts a path. -/
def modeOf (matchers : List DeviceMatcher) (path : Text) : Option Mode :=
  (matchers.find? (·.applies path)).map (·.mode)

/-- `_device_mode_from_projection` -/
def deviceModeFromProjection (rules : List LayoutRule) (projection : DeviceProjection)
    (path : Text) : Option Mode :=
  if boards.any fun board => path ∈ kernelTargetsUnchecked rules board true then some .kernel
  else modeOf projection.rules path

/-! ## Keys -/

theorem keyLe_total (a b : Nat × List Text) : (keyLe a b || keyLe b a) = true := by
  unfold keyLe
  simp only [Bool.or_eq_true, Bool.and_eq_true, decide_eq_true_eq]
  obtain hlt | heq | hgt := Nat.lt_trichotomy a.1 b.1
  · exact Or.inl (Or.inl hlt)
  · obtain htexts | htexts := le_total a.2 b.2
    · exact Or.inl (Or.inr ⟨heq, htexts⟩)
    · exact Or.inr (Or.inr ⟨heq.symm, htexts⟩)
  · exact Or.inr (Or.inl hgt)

theorem keyLe_trans (a b c : Nat × List Text) (hab : keyLe a b = true) (hbc : keyLe b c = true) :
    keyLe a c = true := by
  unfold keyLe at *
  simp only [Bool.or_eq_true, Bool.and_eq_true, decide_eq_true_eq] at *
  obtain hab | ⟨hab, habTexts⟩ := hab
  · omega
  obtain hbc | ⟨hbc, hbcTexts⟩ := hbc
  · omega
  exact Or.inr ⟨by omega, le_trans habTexts hbcTexts⟩

theorem keyLe_antisymm {a b : Nat × List Text} (hab : keyLe a b = true) (hba : keyLe b a = true) :
    a = b := by
  unfold keyLe at *
  simp only [Bool.or_eq_true, Bool.and_eq_true, decide_eq_true_eq] at *
  obtain hab | ⟨hab, habTexts⟩ := hab
  · omega
  obtain hba | ⟨-, hbaTexts⟩ := hba
  · omega
  exact Prod.ext hab (le_antisymm habTexts hbaTexts)

theorem cons_le_iff {a b : Text} {left right : List Text} :
    a :: left ≤ b :: right ↔ a < b ∨ a = b ∧ left ≤ right := by
  have hcons : a :: left < b :: right ↔ a < b ∨ a = b ∧ left < right := List.cons_lt_cons_iff
  rw [le_iff_lt_or_eq, hcons, le_iff_lt_or_eq, List.cons.injEq]
  tauto

/-- What follows the third text decides nothing that the first three decide. -/
theorem keyLe_first {n m : Nat} {a b c x a' b' c' x' : Text}
    (h : keyLe (n, [a, b, c, x]) (m, [a', b', c', x']) = true) :
    keyLe (n, [a, b, c]) (m, [a', b', c']) = true := by
  unfold keyLe at *
  simp only [Bool.or_eq_true, Bool.and_eq_true, decide_eq_true_eq, cons_le_iff] at *
  obtain h | ⟨hn, h | ⟨ha, h | ⟨hb, h | ⟨hc, -⟩⟩⟩⟩ := h
  · exact Or.inl h
  · exact Or.inr ⟨hn, Or.inl h⟩
  · exact Or.inr ⟨hn, Or.inr ⟨ha, Or.inl h⟩⟩
  · exact Or.inr ⟨hn, Or.inr ⟨ha, Or.inr ⟨hb, Or.inl h⟩⟩⟩
  · exact Or.inr ⟨hn, Or.inr ⟨ha, Or.inr ⟨hb, Or.inr ⟨hc, le_rfl⟩⟩⟩⟩

/-- Different first texts decide the order for every text that follows. -/
theorem keyLe_extend {n m : Nat} {a b c a' b' c' : Text} (x x' : Text)
    (h : keyLe (n, [a, b, c]) (m, [a', b', c']) = true)
    (hne : (n, [a, b, c]) ≠ (m, [a', b', c'])) :
    keyLe (n, [a, b, c, x]) (m, [a', b', c', x']) = true := by
  unfold keyLe at *
  simp only [Bool.or_eq_true, Bool.and_eq_true, decide_eq_true_eq, cons_le_iff] at *
  obtain h | ⟨hn, h | ⟨ha, h | ⟨hb, h | ⟨hc, -⟩⟩⟩⟩ := h
  · exact Or.inl h
  · exact Or.inr ⟨hn, Or.inl h⟩
  · exact Or.inr ⟨hn, Or.inr ⟨ha, Or.inl h⟩⟩
  · exact Or.inr ⟨hn, Or.inr ⟨ha, Or.inr ⟨hb, Or.inl h⟩⟩⟩
  · exact absurd (by rw [hn, ha, hb, hc]) hne

/-- A list sorted by keys is in the order of its keys. -/
theorem sorted_by_key {α : Type} (key : α → Nat × List Text) (entries : List α) :
    (entries.mergeSort fun a b => keyLe (key a) (key b)).Pairwise fun a b =>
      keyLe (key a) (key b) = true :=
  List.pairwise_mergeSort (fun a b c => keyLe_trans (key a) (key b) (key c))
    (fun a b => keyLe_total (key a) (key b)) entries

theorem kindRank_injective {left right : RuleKind} (h : kindRank left = kindRank right) :
    left = right := by
  cases left <;> cases right <;> first | rfl | cases h

theorem key_of_orderKey {left right : DeviceMatcher}
    (h : matcherOrderKey left = matcherOrderKey right) : left.key = right.key := by
  unfold matcherOrderKey at h
  obtain ⟨hkind, htexts⟩ := Prod.mk.inj h
  obtain ⟨hroot, htexts⟩ := List.cons.inj htexts
  obtain ⟨hvalue, htexts⟩ := List.cons.inj htexts
  have hsuffix := (List.cons.inj htexts).1
  unfold DeviceMatcher.key
  rw [kindRank_injective hkind, hroot, hvalue, hsuffix]

/-! ## The matchers of a layout -/

/-- A matcher of an exact path is that path and nothing else. -/
structure MatcherShape (matcher : DeviceMatcher) : Prop where
  kind : matcher.kind ≠ .machineKernel
  exact : matcher.kind = .exactPath →
    matcher.root = none ∧ matcher.value.isSome = true ∧ matcher.suffix = none

/-- The matchers of a layout: one for each key. -/
structure DistinctMatchers (matchers : List DeviceMatcher) : Prop where
  keys : matchers.Pairwise fun left right => left.key ≠ right.key
  shape : ∀ matcher ∈ matchers, MatcherShape matcher

theorem devicePattern_shape {pattern : Text} {root : Option Text} {mode : Mode}
    {matcher : DeviceMatcher} (h : devicePattern pattern root mode = some matcher) :
    MatcherShape matcher := by
  unfold devicePattern at h
  split at h
  · cases h
  split at h
  · cases h
  split at h
  · cases h
    exact ⟨nofun, nofun⟩
  · cases h
    split
    · exact ⟨nofun, nofun⟩
    · exact ⟨nofun, nofun⟩

theorem deviceMatcher_shape {rule : LayoutRule} {matchers : List DeviceMatcher}
    (h : deviceMatcher rule = some matchers) : ∀ matcher ∈ matchers, MatcherShape matcher := by
  unfold deviceMatcher at h
  dsimp only at h
  intro matcher hmatcher
  split at h
  · split at h
    · cases h
      rw [List.mem_singleton.mp hmatcher]
      exact ⟨nofun, nofun⟩
    · obtain ⟨pattern, -, hdevice⟩ := exists_of_mem_mapM h matcher hmatcher
      exact devicePattern_shape hdevice
  split at h
  · obtain ⟨found, hfound, rfl⟩ := Option.map_eq_some_iff.mp h
    rw [List.mem_singleton.mp hmatcher]
    exact devicePattern_shape hfound
  split at h
  · obtain ⟨found, hfound, rfl⟩ := Option.map_eq_some_iff.mp h
    rw [List.mem_singleton.mp hmatcher]
    exact devicePattern_shape hfound
  · cases h
    rw [List.mem_singleton.mp hmatcher]
    exact ⟨nofun, fun _ => ⟨rfl, rfl, rfl⟩⟩

theorem addMatcher_distinct {matchers matchers' : List DeviceMatcher} {matcher : DeviceMatcher}
    (hmatcher : MatcherShape matcher) (hmatchers : DistinctMatchers matchers)
    (h : addMatcher matchers matcher = some matchers') : DistinctMatchers matchers' := by
  unfold addMatcher at h
  split at h
  · next hnone =>
      cases h
      constructor
      · refine List.pairwise_append.mpr ⟨hmatchers.keys, List.pairwise_singleton _ _, ?_⟩
        intro other hother last hlast
        rw [List.mem_singleton.mp hlast]
        simpa using List.find?_eq_none.mp hnone other hother
      · intro other hother
        obtain hother | hother := List.mem_append.mp hother
        · exact hmatchers.shape other hother
        · rw [List.mem_singleton.mp hother]
          exact hmatcher
  · split at h
    · cases h
    · cases h
      constructor
      · rw [List.pairwise_map]
        refine hmatchers.keys.imp ?_
        intro left right hne
        have hkey : ∀ other : DeviceMatcher,
            (if other.key = matcher.key then matcher else other).key = other.key := by
          intro other
          split
          · next hsame => exact hsame.symm
          · rfl
        rw [hkey, hkey]
        exact hne
      · intro other hother
        obtain ⟨before, hbefore, rfl⟩ := List.mem_map.mp hother
        split
        · exact hmatcher
        · exact hmatchers.shape before hbefore

theorem deviceMatchers_distinct {rules : List LayoutRule} {matchers : List DeviceMatcher}
    (h : deviceMatchers rules = some matchers) : DistinctMatchers matchers := by
  unfold deviceMatchers at h
  obtain ⟨all, hall, hfold⟩ := Option.bind_eq_some_iff.mp h
  refine foldlM_keeps (P := DistinctMatchers) ?_ ⟨List.Pairwise.nil, nofun⟩ hfold
  intro matcher hmatcher before after hbefore hstep
  refine addMatcher_distinct ?_ hbefore hstep
  obtain ⟨found, hfound, hin⟩ := List.mem_flatten.mp hmatcher
  obtain ⟨rule, -, hrule⟩ := exists_of_mem_mapM hall found hfound
  unfold ruleMatchers at hrule
  split at hrule
  · cases hrule
    cases hin
  · exact deviceMatcher_shape hrule matcher hin

namespace DistinctMatchers

variable {matchers : List DeviceMatcher} {left right : DeviceMatcher}

/-- Matchers with one key are one matcher. -/
theorem eq_of_key (h : DistinctMatchers matchers) (hleft : left ∈ matchers)
    (hright : right ∈ matchers) (hkey : left.key = right.key) : left = right := by
  have hpairs : ∀ ⦃a⦄, a ∈ matchers → ∀ ⦃b⦄, b ∈ matchers → a.key = b.key → a = b := by
    refine List.Pairwise.forall_of_forall_of_flip (fun a _ _ => rfl) ?_ ?_
    · exact h.keys.imp fun hne hsame => absurd hsame hne
    · exact h.keys.imp fun hne hsame => absurd hsame.symm hne
  exact hpairs hleft hright hkey

theorem eq_of_le (h : DistinctMatchers matchers) (hleft : left ∈ matchers)
    (hright : right ∈ matchers) (hle : matcherLe left right = true)
    (hge : matcherLe right left = true) : left = right :=
  h.eq_of_key hleft hright (key_of_orderKey (keyLe_antisymm hle hge))

/-- Two matchers of exact paths that accept one path are one matcher. -/
theorem eq_of_exact (h : DistinctMatchers matchers) (hleft : left ∈ matchers)
    (hright : right ∈ matchers) (hkind : left.kind = .exactPath) (hsame : right.kind = .exactPath)
    (hvalue : left.value = right.value) : left = right := by
  obtain ⟨hroot, -, hsuffix⟩ := (h.shape left hleft).exact hkind
  obtain ⟨hroot', -, hsuffix'⟩ := (h.shape right hright).exact hsame
  refine h.eq_of_key hleft hright ?_
  unfold DeviceMatcher.key
  rw [hkind, hsame, hroot, hroot', hvalue, hsuffix, hsuffix']

/-- The distinct matchers of a list are those of every arrangement of it. -/
theorem perm (h : DistinctMatchers matchers) {arranged : List DeviceMatcher}
    (hperm : arranged.Perm matchers) : DistinctMatchers arranged where
  keys := hperm.symm.pairwise h.keys fun hne => Ne.symm hne
  shape := fun matcher hmatcher => h.shape matcher (hperm.subset hmatcher)

end DistinctMatchers

/-! ## The order -/

/-- The full list, in order. -/
def fullMatchers (matchers : List DeviceMatcher) : List DeviceMatcher :=
  matchers.mergeSort matcherLe

theorem fullMatchers_perm (matchers : List DeviceMatcher) :
    (fullMatchers matchers).Perm matchers := List.mergeSort_perm _ _

theorem fullMatchers_sorted (matchers : List DeviceMatcher) :
    (fullMatchers matchers).Pairwise fun left right => matcherLe left right = true :=
  sorted_by_key matcherOrderKey matchers

theorem redundant_perm {matchers matchers' : List DeviceMatcher} (h : matchers.Perm matchers')
    (matcher : DeviceMatcher) : redundant matchers matcher = redundant matchers' matcher := by
  unfold redundant
  congr 1
  rw [Bool.eq_iff_iff, List.any_eq_true, List.any_eq_true]
  exact exists_congr fun other => and_congr_left' h.mem_iff

/-- The projection is the full list without what is left out. -/
theorem projection_rules {rules : List LayoutRule} {projection : DeviceProjection}
    (h : deviceProjection rules = some projection) :
    ∃ matchers, deviceMatchers rules = some matchers ∧
      projection.rules = (fullMatchers matchers).filter
        (!redundant (fullMatchers matchers) ·) := by
  unfold deviceProjection at h
  simp only [Option.bind_eq_bind, Option.bind_eq_some_iff] at h
  obtain ⟨all, hall, matchers, hmatchers, h⟩ := h
  cases h
  have hdevice : deviceMatchers rules = some matchers :=
    Option.bind_eq_some_iff.mpr ⟨all, hall, hmatchers⟩
  have hdistinct := deviceMatchers_distinct hdevice
  refine ⟨matchers, hdevice, ?_⟩
  have hkept : (matchers.filter (!redundant matchers ·)).Perm
      ((fullMatchers matchers).filter (!redundant (fullMatchers matchers) ·)) := by
    have hsame : (fullMatchers matchers).filter (!redundant (fullMatchers matchers) ·) =
        (fullMatchers matchers).filter (!redundant matchers ·) :=
      List.filter_congr fun matcher _ => by rw [redundant_perm (fullMatchers_perm matchers)]
    rw [hsame]
    exact (fullMatchers_perm matchers).symm.filter _
  refine @List.Perm.eq_of_pairwise _ (fun left right => matcherLe left right = true) _ _ ?_ ?_ ?_
    ((List.mergeSort_perm _ _).trans hkept)
  · intro left right hleft hright hle hge
    rw [List.mem_mergeSort, List.mem_filter] at hleft
    rw [List.mem_filter] at hright
    exact hdistinct.eq_of_le hleft.1 ((fullMatchers_perm matchers).subset hright.1) hle hge
  · refine (sorted_by_key DeviceMatcher.orderKey _).imp ?_
    intro left right hle
    exact keyLe_first hle
  · exact (fullMatchers_sorted matchers).filter _

/-! ## What is left out -/

/-- No matcher of another mode accepts the path of a matcher that is left out before a
matcher of its mode does. -/
def NothingBetween (matchers : List DeviceMatcher) : Prop :=
  ∀ exact ∈ matchers, redundant matchers exact = true →
    ∀ other ∈ matchers, other ≠ exact → other.mode ≠ exact.mode →
      other.applies (exact.value.getD []) = true →
      ∃ same ∈ matchers, same ≠ exact ∧ same.mode = exact.mode ∧
        same.applies (exact.value.getD []) = true ∧ matcherLe same other = true

/-- The first of a sorted list. -/
theorem find?_first {α : Type} {le : α → α → Prop} {p : α → Bool} {entries : List α} {first : α}
    (hsorted : entries.Pairwise le) (h : entries.find? p = some first) :
    first ∈ entries ∧ p first = true ∧
      ∀ entry ∈ entries, p entry = true → first = entry ∨ le first entry := by
  obtain ⟨hfirst, before, after, rfl, hbefore⟩ := List.find?_eq_some_iff_append.mp h
  refine ⟨List.mem_append_right _ List.mem_cons_self, hfirst, ?_⟩
  intro entry hentry hp
  obtain hentry | hentry := List.mem_append.mp hentry
  · have hnot := hbefore entry hentry
    rw [hp] at hnot
    cases hnot
  · obtain rfl | hentry := List.mem_cons.mp hentry
    · exact Or.inl rfl
    · have htail := (List.pairwise_append.mp hsorted).2.1
      exact Or.inr ((List.pairwise_cons.mp htail).1 entry hentry)

theorem rank_le {left right : DeviceMatcher} (h : matcherLe left right = true) :
    kindRank left.kind ≤ kindRank right.kind := by
  unfold matcherLe keyLe matcherOrderKey at h
  simp only [Bool.or_eq_true, Bool.and_eq_true, decide_eq_true_eq] at h
  obtain h | ⟨h, -⟩ := h
  · exact Nat.le_of_lt h
  · exact Nat.le_of_eq h

theorem exact_of_rank {kind : RuleKind} (hrank : kindRank kind ≤ kindRank .exactPath)
    (hkind : kind ≠ .machineKernel) : kind = .exactPath := by
  cases kind with
  | exactPath => rfl
  | machineKernel => exact absurd rfl hkind
  | _ => exact absurd hrank (by decide)

theorem kind_of_redundant {matchers : List DeviceMatcher} {matcher : DeviceMatcher}
    (h : redundant matchers matcher = true) : matcher.kind = .exactPath := by
  unfold redundant at h
  rw [Bool.and_eq_true] at h
  exact of_decide_eq_true h.1

/-- A matcher that is left out has a broader one of its mode. -/
theorem broader_of_redundant {matchers : List DeviceMatcher} {matcher : DeviceMatcher}
    (h : redundant matchers matcher = true) :
    ∃ other ∈ matchers, other ≠ matcher ∧ other.mode = matcher.mode ∧
      other.applies (matcher.value.getD []) = true := by
  unfold redundant at h
  rw [Bool.and_eq_true, List.any_eq_true] at h
  obtain ⟨other, hother, hbroader⟩ := h.2
  simp only [Bool.and_eq_true, decide_eq_true_eq] at hbroader
  exact ⟨other, hother, hbroader.1.1, hbroader.1.2, hbroader.2⟩

theorem value_of_applies {matcher : DeviceMatcher} {path : Text} (hkind : matcher.kind = .exactPath)
    (h : matcher.applies path = true) : matcher.value = some path := by
  unfold DeviceMatcher.applies at h
  rw [hkind] at h
  simp only [Bool.and_eq_true, decide_eq_true_eq] at h
  exact h.2

section Modes

variable {matchers : List DeviceMatcher}

/-- A matcher of an exact path accepts it. -/
theorem DistinctMatchers.applies_exact (h : DistinctMatchers matchers) {exact : DeviceMatcher}
    (hexact : exact ∈ matchers) (hkind : exact.kind = .exactPath) :
    exact.value = some (exact.value.getD []) ∧
      exact.applies (exact.value.getD []) = true := by
  obtain ⟨hroot, hvalue, -⟩ := (h.shape exact hexact).exact hkind
  obtain ⟨path, hpath⟩ := Option.isSome_iff_exists.mp hvalue
  unfold DeviceMatcher.applies
  rw [hkind, hroot, hpath]
  simp

/-- No other matcher comes before a matcher of the path itself. -/
theorem DistinctMatchers.first_exact (h : DistinctMatchers matchers)
    (hsorted : matchers.Pairwise fun left right => matcherLe left right = true)
    {exact : DeviceMatcher} (hexact : exact ∈ matchers) (hkind : exact.kind = .exactPath) :
    matchers.find? (·.applies (exact.value.getD [])) = some exact := by
  obtain ⟨hvalue, happlies⟩ := h.applies_exact hexact hkind
  cases hfind : matchers.find? (·.applies (exact.value.getD [])) with
  | none => exact absurd happlies (List.find?_eq_none.mp hfind exact hexact)
  | some first =>
      obtain ⟨hfirst, haccepts, hbefore⟩ := find?_first hsorted hfind
      obtain rfl | hle := hbefore exact hexact happlies
      · rfl
      · have hrank := rank_le hle
        rw [hkind] at hrank
        have hfirstKind := exact_of_rank hrank (h.shape first hfirst).kind
        have hsame := value_of_applies hfirstKind haccepts
        rw [h.eq_of_exact hfirst hexact hfirstKind hkind (hsame.trans hvalue.symm)]

/-- A matcher of a path that an exact matcher names is kept, but for the exact one. -/
theorem DistinctMatchers.kept (h : DistinctMatchers matchers) {exact other : DeviceMatcher}
    (hexact : exact ∈ matchers) (hkind : exact.kind = .exactPath) (hother : other ∈ matchers)
    (hne : other ≠ exact) (happlies : other.applies (exact.value.getD []) = true) :
    other ∈ matchers.filter (!redundant matchers ·) := by
  refine List.mem_filter.mpr ⟨hother, ?_⟩
  rw [Bool.not_eq_true', Bool.eq_false_iff]
  intro hredundant
  have hotherKind := kind_of_redundant hredundant
  have hvalue := value_of_applies hotherKind happlies
  have hsame := (h.applies_exact hexact hkind).1
  exact hne (h.eq_of_exact hother hexact hotherKind hkind (hvalue.trans hsame.symm))

/-- Leaving matchers out changes no mode exactly when nothing ranks between. -/
theorem modes_eq_iff (h : DistinctMatchers matchers)
    (hsorted : matchers.Pairwise fun left right => matcherLe left right = true) :
    (∀ path, modeOf (matchers.filter (!redundant matchers ·)) path = modeOf matchers path) ↔
      NothingBetween matchers := by
  have hkeptSorted := hsorted.filter (!redundant matchers ·)
  constructor
  · intro hmodes exact hexact hredundant other hother hne hmode happlies
    have hkind := kind_of_redundant hredundant
    have hpath := hmodes (exact.value.getD [])
    unfold modeOf at hpath
    rw [h.first_exact hsorted hexact hkind] at hpath
    obtain ⟨same, hfind, hsame⟩ := Option.map_eq_some_iff.mp hpath
    obtain ⟨hin, haccepts, hbefore⟩ := find?_first hkeptSorted hfind
    have hkept := (List.mem_filter.mp hin).2
    refine ⟨same, (List.mem_filter.mp hin).1, ?_, hsame, haccepts, ?_⟩
    · rintro rfl
      rw [hredundant] at hkept
      cases hkept
    · obtain rfl | hle := hbefore other (h.kept hexact hkind hother hne happlies) happlies
      · exact absurd hsame hmode
      · exact hle
  · intro hbetween path
    unfold modeOf
    cases hfind : matchers.find? (·.applies path) with
    | none =>
        have hnone : (matchers.filter (!redundant matchers ·)).find? (·.applies path) = none := by
          refine List.find?_eq_none.mpr fun matcher hmatcher => ?_
          exact List.find?_eq_none.mp hfind matcher (List.mem_filter.mp hmatcher).1
        rw [hnone]
    | some first =>
        obtain ⟨hfirst, haccepts, hbefore⟩ := find?_first hsorted hfind
        by_cases hredundant : redundant matchers first = true
        · have hkind := kind_of_redundant hredundant
          have hvalue := value_of_applies hkind haccepts
          have hpath : first.value.getD [] = path := by rw [hvalue, Option.getD_some]
          obtain ⟨other, hother, hne, hmode, happlies⟩ := broader_of_redundant hredundant
          have hin := h.kept hfirst hkind hother hne happlies
          rw [hpath] at happlies
          cases hkept : (matchers.filter (!redundant matchers ·)).find? (·.applies path) with
          | none => exact absurd happlies (List.find?_eq_none.mp hkept other hin)
          | some next =>
              obtain ⟨hnext, hnextAccepts, hnextBefore⟩ := find?_first hkeptSorted hkept
              obtain ⟨hnextIn, hnextKept⟩ := List.mem_filter.mp hnext
              have hnextNe : next ≠ first := by
                rintro rfl
                rw [hredundant] at hnextKept
                cases hnextKept
              have hsameMode : next.mode = first.mode := by
                refine Decidable.byContradiction fun hnextMode => ?_
                obtain ⟨same, hsame, hsameNe, hsameMode, hsameAccepts, hle⟩ :=
                  hbetween first hfirst hredundant next hnextIn hnextNe hnextMode
                    (hpath.symm ▸ hnextAccepts)
                have hsameIn := h.kept hfirst hkind hsame hsameNe hsameAccepts
                obtain rfl | hge := hnextBefore same hsameIn (hpath ▸ hsameAccepts)
                · exact hnextMode hsameMode
                · rw [h.eq_of_le hnextIn hsame hge hle] at hnextMode
                  exact hnextMode hsameMode
              rw [Option.map_some, Option.map_some, hsameMode]
        · have hin : first ∈ matchers.filter (!redundant matchers ·) :=
            List.mem_filter.mpr ⟨hfirst, by simpa using hredundant⟩
          cases hkept : (matchers.filter (!redundant matchers ·)).find? (·.applies path) with
          | none => exact absurd haccepts (List.find?_eq_none.mp hkept first hin)
          | some next =>
              obtain ⟨hnext, hnextAccepts, hnextBefore⟩ := find?_first hkeptSorted hkept
              have hnextIn := (List.mem_filter.mp hnext).1
              obtain rfl | hle := hbefore next hnextIn hnextAccepts
              · rfl
              · obtain rfl | hge := hnextBefore first hin haccepts
                · rfl
                · rw [h.eq_of_le hnextIn hfirst hge hle]

end Modes

/-! ## The compiled rules -/

theorem foldlM_addRule {rules done : List CompiledRule}
    (h : (done ++ rules).Pairwise fun left right => left.matcher ≠ right.matcher) :
    rules.foldlM addRule done = some (done ++ rules) := by
  induction rules generalizing done with
  | nil =>
      rw [List.append_nil]
      rfl
  | cons rule rules ih =>
      have hnone : done.find? (·.matcher = rule.matcher) = none := by
        refine List.find?_eq_none.mpr fun previous hprevious => ?_
        have hne := (List.pairwise_append.mp h).2.2 previous hprevious rule List.mem_cons_self
        simpa using hne
      have hadd : addRule done rule = some (done ++ [rule]) := by
        unfold addRule
        rw [hnone]
      rw [List.foldlM_cons, hadd]
      show rules.foldlM addRule (done ++ [rule]) = _
      rw [ih (by simpa using h)]
      simp

theorem compileMatcher_matcher_ne {left right : DeviceMatcher} (h : left.key ≠ right.key) :
    (compileMatcher left).matcher ≠ (compileMatcher right).matcher := by
  intro hsame
  obtain ⟨hkind, hsame⟩ := Prod.mk.inj hsame
  obtain ⟨hroot, hsame⟩ := Prod.mk.inj hsame
  obtain ⟨hvalue, hsuffix⟩ := Prod.mk.inj hsame
  have hroot : left.root = right.root := hroot
  have hvalue : left.value = right.value := hvalue
  have hsuffix : left.suffix = right.suffix := hsuffix
  have hkind : left.kind = right.kind := hkind
  refine h ?_
  unfold DeviceMatcher.key
  rw [hkind, hroot, hvalue, hsuffix]

/-- The rule of the kernels. -/
def kernelRule : CompiledRule := ⟨.machineKernel, none, none, none, none⟩

/-- The rules of the policy are the projection, kernels first. -/
theorem compileLayout_rules {raw : RawLayout} {policy : UpdatePathPolicy}
    (h : compileLayout raw = some policy) :
    ∃ rules projection kernels, loadSdLayout raw = some rules ∧
      deviceProjection rules = some projection ∧ kernelInventory rules = some kernels ∧
      policy.rules = kernelRule :: projection.rules.map compileMatcher ∧
      policy.kernelBases = kernels.bases ∧ policy.kernelMachines = kernels.machines ∧
      policy.kernelPolicy = .kernel := by
  unfold compileLayout at h
  simp only [Option.bind_eq_bind, Option.bind_eq_some_iff] at h
  obtain ⟨rules, hrules, projection, hprojection, kernels, hkernels, compiled, hcompiled, _, -, h⟩ :=
    h
  cases h
  refine ⟨rules, projection, kernels, hrules, hprojection, hkernels, ?_, rfl, rfl, rfl⟩
  obtain ⟨matchers, hmatchers, hlist⟩ := projection_rules hprojection
  have hdistinct := (deviceMatchers_distinct hmatchers).perm (fullMatchers_perm matchers)
  have hkeys : projection.rules.Pairwise fun left right => left.key ≠ right.key := by
    rw [hlist]
    exact hdistinct.keys.filter _
  have hkinds : ∀ matcher ∈ projection.rules, matcher.kind ≠ .machineKernel := by
    rw [hlist]
    exact fun matcher hin => (hdistinct.shape matcher (List.mem_filter.mp hin).1).kind
  have hsorted : projection.rules.Pairwise fun left right => matcherLe left right = true := by
    rw [hlist]
    exact (fullMatchers_sorted matchers).filter _
  have hmatcherNe : (kernelRule :: projection.rules.map compileMatcher).Pairwise
      fun left right => left.matcher ≠ right.matcher := by
    refine List.pairwise_cons.mpr ⟨?_, ?_⟩
    · intro rule hrule hsame
      obtain ⟨matcher, hmatcher, rfl⟩ := List.mem_map.mp hrule
      exact hkinds matcher hmatcher (Prod.mk.inj hsame).1.symm
    · exact List.pairwise_map.mpr (hkeys.imp fun hne => compileMatcher_matcher_ne hne)
  have hfold := @foldlM_addRule (kernelRule :: projection.rules.map compileMatcher) [] hmatcherNe
  obtain rfl := Option.some.inj (hcompiled.symm.trans hfold)
  show List.mergeSort _ _ = _
  apply List.mergeSort_of_pairwise
  refine List.pairwise_cons.mpr ⟨?_, ?_⟩
  · intro rule hrule
    obtain ⟨matcher, hmatcher, rfl⟩ := List.mem_map.mp hrule
    have hkind := hkinds matcher hmatcher
    have hrank : kindRank .machineKernel < kindRank matcher.kind := by
      cases hcase : matcher.kind with
      | machineKernel => exact absurd hcase hkind
      | _ => decide
    unfold keyLe
    rw [Bool.or_eq_true]
    exact Or.inl (decide_eq_true hrank)
  · rw [List.pairwise_map]
    refine (hsorted.and hkeys).imp ?_
    rintro left right ⟨hle, hne⟩
    exact keyLe_extend _ _ hle fun hsame => hne (key_of_orderKey hsame)

/-! ## Kernels -/

section Kernels

variable {rules : List LayoutRule} {board : Board} {base path : Text}

theorem splitLastPoint_join {target machine : Text}
    (h : splitLastPoint target = some (base, machine)) : target = base ++ '.' :: machine := by
  unfold splitLastPoint at h
  split at h
  · next hpoint =>
      cases h
      have hcut := @List.takeWhile_append_dropWhile _ (fun c => decide (c ≠ '.')) target.reverse
      have hne : target.reverse.dropWhile (· ≠ '.') ≠ [] := by
        intro hnil
        have hall := List.dropWhile_eq_nil_iff.mp hnil '.' (List.mem_reverse.mpr hpoint)
        simp at hall
      have hhead := List.head_dropWhile_not (fun c => decide (c ≠ '.')) hne
      obtain ⟨point, rest, hrest⟩ := List.exists_cons_of_ne_nil hne
      have hpoint : point = '.' := by
        simp only [hrest, List.head_cons] at hhead
        simpa using hhead
      rw [hrest, hpoint] at hcut
      have htarget : target = rest.reverse ++ '.' :: lastPart '.' target := by
        have hreverse := congrArg List.reverse hcut
        rw [List.reverse_reverse, List.reverse_append, List.reverse_cons, List.append_assoc]
          at hreverse
        exact hreverse.symm
      have hlength : target.length - ((lastPart '.' target).length + 1) = rest.reverse.length := by
        have htotal := congrArg List.length htarget
        rw [List.length_append, List.length_cons] at htotal
        omega
      have htake : target.take (target.length - ((lastPart '.' target).length + 1)) =
          rest.reverse := by
        rw [hlength]
        conv_lhs => rw [htarget]
        exact List.take_left
      rw [htake]
      exact htarget
  · cases h

/-- The kernels of a board are its base with each of its machines. -/
theorem boardInventory_targets {found : List (Text × Bool)}
    (h : boardInventory rules board = some (base, found)) :
    path ∈ kernelTargetsUnchecked rules board true ↔
      ∃ machine ∈ found.map (·.1), path = base ++ '.' :: machine := by
  have htargets : path ∈ kernelTargetsUnchecked rules board true ↔
      ∃ rule ∈ kernelRules rules board, rule.target = path := by
    unfold kernelTargetsUnchecked
    simp
  rw [htargets]
  unfold boardInventory at h
  simp only [Option.bind_eq_bind, Option.bind_eq_some_iff] at h
  obtain ⟨entries, hentries, h⟩ := h
  have hsome : (entries.all (·.1 = base)) = true ∧
      found = (entries.map (·.2)).eraseDups := by
    split at h
    · cases h
    · split at h
      · next hall =>
          cases h
          exact ⟨hall, rfl⟩
      · cases h
  obtain ⟨hall, rfl⟩ := hsome
  have hbase : ∀ entry ∈ entries, entry.1 = base := by
    intro entry hentry
    simpa using List.all_eq_true.mp hall entry hentry
  constructor
  · rintro ⟨rule, hrule, rfl⟩
    obtain ⟨entry, hentry, hvalue⟩ := exists_of_mapM_mem hentries rule hrule
    obtain ⟨⟨start, machine⟩, hparts, rfl⟩ := Option.map_eq_some_iff.mp hvalue
    have hstart : start = base := hbase _ hentry
    refine ⟨machine, ?_, hstart ▸ splitLastPoint_join hparts⟩
    refine List.mem_map.mpr ⟨(machine, !rule.optional), ?_, rfl⟩
    rw [List.mem_eraseDups]
    exact List.mem_map_of_mem hentry
  · rintro ⟨machine, hmachine, rfl⟩
    obtain ⟨entry, hentry, rfl⟩ := List.mem_map.mp hmachine
    rw [List.mem_eraseDups] at hentry
    obtain ⟨whole, hwhole, rfl⟩ := List.mem_map.mp hentry
    obtain ⟨rule, hrule, hvalue⟩ := exists_of_mem_mapM hentries whole hwhole
    obtain ⟨⟨start, machine⟩, hparts, rfl⟩ := Option.map_eq_some_iff.mp hvalue
    have hstart : start = base := hbase _ hwhole
    exact ⟨rule, hrule, hstart ▸ splitLastPoint_join hparts⟩

/-- A path is a kernel of the policy exactly if it is the target of a kernel of some board. -/
theorem machineKernelMatch_iff {policy : UpdatePathPolicy} {kernels : KernelInventory}
    (hfits : LayoutFits rules) (hkernels : kernelInventory rules = some kernels)
    (hbases : policy.kernelBases = kernels.bases)
    (hmachines : policy.kernelMachines = kernels.machines) :
    (policy.machineKernelMatch path).isSome = true ↔
      ∃ board, path ∈ kernelTargetsUnchecked rules board true := by
  have hslash : ∀ board, path ∈ kernelTargetsUnchecked rules board true → '/' ∉ path := by
    intro board hpath
    unfold kernelTargetsUnchecked at hpath
    rw [List.mem_eraseDups, List.mem_map] at hpath
    obtain ⟨rule, hrule, rfl⟩ := hpath
    exact (hfits.kernels board rule (List.mem_filter.mp hrule).1).slash
  unfold kernelInventory at hkernels
  simp only [Option.bind_eq_bind, Option.bind_eq_some_iff] at hkernels
  obtain ⟨⟨base4, pi4⟩, hpi4, ⟨base5, pi5⟩, hpi5, _, hguard, _, -, _, -, hkernels⟩ := hkernels
  obtain rfl : pi4 = pi5 := of_guard hguard
  cases hkernels
  have hmachine : ∀ machine, machine ∈ policy.kernelMachines ↔ machine ∈ pi4.map (·.1) := by
    intro machine
    rw [hmachines]
    simp only [List.mem_append, List.mem_map, List.mem_filter]
    constructor
    · rintro (⟨entry, hentry, rfl⟩ | ⟨entry, hentry, rfl⟩)
      · exact ⟨entry, hentry.1, rfl⟩
      · exact ⟨entry, hentry.1, rfl⟩
    · rintro ⟨entry, hentry, rfl⟩
      cases hrequired : entry.2 with
      | true => exact Or.inl ⟨entry, ⟨hentry, hrequired⟩, rfl⟩
      | false => exact Or.inr ⟨entry, ⟨hentry, by rw [hrequired]; rfl⟩, rfl⟩
  have hboards : (∃ board, path ∈ kernelTargetsUnchecked rules board true) ↔
      ∃ base ∈ policy.kernelBases, ∃ machine ∈ policy.kernelMachines,
        path = base ++ '.' :: machine := by
    rw [hbases]
    simp only [hmachine]
    constructor
    · rintro ⟨board, hpath⟩
      cases board with
      | pi4 => exact ⟨base4, by simp, (boardInventory_targets hpi4).mp hpath⟩
      | pi5 => exact ⟨base5, by simp, (boardInventory_targets hpi5).mp hpath⟩
    · rintro ⟨base, hbase, hpath⟩
      obtain rfl | rfl := List.mem_pair.mp hbase
      · exact ⟨.pi4, (boardInventory_targets hpi4).mpr hpath⟩
      · exact ⟨.pi5, (boardInventory_targets hpi5).mpr hpath⟩
  have hmatch : '/' ∉ path → ((policy.machineKernelMatch path).isSome = true ↔
      ∃ base ∈ policy.kernelBases, ∃ machine ∈ policy.kernelMachines,
        path = base ++ '.' :: machine) := by
    intro hplain
    unfold UpdatePathPolicy.machineKernelMatch
    rw [if_neg hplain, List.findSome?_isSome_iff]
    refine exists_congr fun base => and_congr_right fun _ => ?_
    dsimp only
    constructor
    · intro hsome
      split at hsome
      · next hfound =>
          obtain ⟨machine, rfl⟩ := List.isPrefixOf_iff_prefix.mp hfound.1
          rw [List.drop_left] at hfound
          exact ⟨machine, hfound.2, by simp⟩
      · cases hsome
    · rintro ⟨machine, hin, rfl⟩
      have hjoin : base ++ '.' :: machine = (base ++ ['.']) ++ machine := by simp
      rw [hjoin, if_pos]
      · rfl
      · rw [List.isPrefixOf_iff_prefix, List.drop_left]
        exact ⟨List.prefix_append _ _, hin⟩
  constructor
  · intro hfound
    have hplain : '/' ∉ path := by
      intro hin
      unfold UpdatePathPolicy.machineKernelMatch at hfound
      rw [if_pos hin] at hfound
      cases hfound
    exact hboards.mpr ((hmatch hplain).mp hfound)
  · rintro ⟨board, hpath⟩
    exact (hmatch (hslash board hpath)).mpr (hboards.mp ⟨board, hpath⟩)

end Kernels

/-! ## The policy and the projection -/

theorem applies_compileMatcher (matcher : DeviceMatcher) (path : Text) :
    matcher.applies path = (!(matcher.root.any fun root => headPart '/' path ≠ root) &&
      UpdatePathPolicy.ruleMatches (compileMatcher matcher) path) := by
  have hroot : matcher.root.all (headPart '/' path = ·) =
      !(matcher.root.any fun root => headPart '/' path ≠ root) := by
    cases matcher.root with
    | none => rfl
    | some root => simp
  unfold DeviceMatcher.applies
  rw [hroot]
  refine congrArg (and _) ?_
  unfold UpdatePathPolicy.ruleMatches compileMatcher
  cases matcher.kind with
  | exactPath => exact decide_eq_decide.mpr eq_comm
  | basenameExact => exact decide_eq_decide.mpr eq_comm
  | _ => rfl

theorem classifyBy_compiled (policy : UpdatePathPolicy) (path : Text)
    {matchers : List DeviceMatcher} (h : ∀ matcher ∈ matchers, matcher.kind ≠ .machineKernel) :
    policy.classifyBy path (matchers.map compileMatcher) =
      (modeOf matchers path).map modePolicy := by
  induction matchers with
  | nil => rfl
  | cons matcher rest ih =>
      have hrest := ih fun other hother => h other (List.mem_cons_of_mem _ hother)
      have hkind : ¬(compileMatcher matcher).kind = .machineKernel := h matcher List.mem_cons_self
      have happlies := applies_compileMatcher matcher path
      unfold modeOf at hrest ⊢
      rw [List.map_cons, List.find?_cons]
      unfold UpdatePathPolicy.classifyBy
      rw [if_neg hkind]
      show (if (matcher.root.any fun root => headPart '/' path ≠ root) = true then _ else _) = _
      split
      · next hroot =>
          rw [hroot, Bool.not_true, Bool.false_and] at happlies
          rw [happlies]
          exact hrest
      · next hroot =>
          rw [Bool.not_eq_true] at hroot
          rw [hroot, Bool.not_false, Bool.true_and] at happlies
          split
          · next hrule =>
              rw [hrule] at happlies
              rw [happlies]
              rfl
          · next hrule =>
              rw [Bool.not_eq_true] at hrule
              rw [hrule] at happlies
              rw [happlies]
              exact hrest

/-- The policy gives every valid path the mode of the projection. -/
theorem classifyBmxPath_projection {raw : RawLayout} {policy : UpdatePathPolicy}
    (h : compileLayout raw = some policy) :
    ∃ rules projection, loadSdLayout raw = some rules ∧ deviceProjection rules = some projection ∧
      ∀ path, fatPathValid 240 path = true →
        policy.classifyBmxPath path =
          (deviceModeFromProjection rules projection path).map modePolicy := by
  obtain ⟨rules, projection, kernels, hrules, hprojection, hkernels, hlist, hbases, hmachines,
    hpolicy⟩ := compileLayout_rules h
  refine ⟨rules, projection, hrules, hprojection, fun path hvalid => ?_⟩
  obtain ⟨matchers, hmatchers, hkept⟩ := projection_rules hprojection
  have hdistinct := (deviceMatchers_distinct hmatchers).perm (fullMatchers_perm matchers)
  have hkinds : ∀ matcher ∈ projection.rules, matcher.kind ≠ .machineKernel := by
    rw [hkept]
    exact fun matcher hin => (hdistinct.shape matcher (List.mem_filter.mp hin).1).kind
  have hkernel := @machineKernelMatch_iff rules path policy kernels (loadSdLayout_fits hrules)
    hkernels hbases hmachines
  have hboards : (boards.any fun board => path ∈ kernelTargetsUnchecked rules board true) = true ↔
      ∃ board, path ∈ kernelTargetsUnchecked rules board true := by
    rw [List.any_eq_true]
    constructor
    · rintro ⟨board, -, hin⟩
      exact ⟨board, of_decide_eq_true hin⟩
    · rintro ⟨board, hin⟩
      exact ⟨board, by cases board <;> decide, decide_eq_true hin⟩
  rw [classifyBmxPath_eq, if_pos hvalid, hlist]
  unfold UpdatePathPolicy.classifyBy deviceModeFromProjection
  rw [if_pos (show kernelRule.kind = .machineKernel from rfl)]
  by_cases hfound : ∃ board, path ∈ kernelTargetsUnchecked rules board true
  · rw [if_pos (hkernel.mpr hfound), if_pos (hboards.mpr hfound), hpolicy]
    rfl
  · rw [if_neg (mt hkernel.mp hfound), if_neg (mt hboards.mp hfound)]
    exact classifyBy_compiled policy path hkinds

/-- Normalising the projection of a layout changes the mode of no path, and the policy agrees
with it on every valid one, exactly when nothing ranks between a matcher that is left out
and the first broader one of its mode. -/
theorem projection_preserves_iff {raw : RawLayout} {rules : List LayoutRule}
    {projection : DeviceProjection} {matchers : List DeviceMatcher}
    (hrules : loadSdLayout raw = some rules) (hprojection : deviceProjection rules = some projection)
    (hmatchers : deviceMatchers rules = some matchers) :
    ((∀ path, modeOf projection.rules path = modeOf (fullMatchers matchers) path) ∧
      ∀ policy, compileLayout raw = some policy → ∀ path, fatPathValid 240 path = true →
        policy.classifyBmxPath path =
          (deviceModeFromProjection rules projection path).map modePolicy) ↔
      NothingBetween (fullMatchers matchers) := by
  have hdistinct := (deviceMatchers_distinct hmatchers).perm (fullMatchers_perm matchers)
  obtain ⟨found, hfound, hkept⟩ := projection_rules hprojection
  obtain rfl : found = matchers := Option.some.inj (hfound.symm.trans hmatchers)
  have hmodes := modes_eq_iff hdistinct (fullMatchers_sorted found)
  rw [← hkept] at hmodes
  rw [← hmodes, and_iff_left_iff_imp]
  intro _ policy hpolicy path hvalid
  obtain ⟨rules', projection', hrules', hprojection', hagree⟩ := classifyBmxPath_projection hpolicy
  obtain rfl : rules' = rules := Option.some.inj (hrules'.symm.trans hrules)
  obtain rfl : projection' = projection := Option.some.inj (hprojection'.symm.trans hprojection)
  exact hagree path hvalid

/-- Seven kernels for both boards, a file and its tree that are kept, and the files with its
extension in the tree that are configuration. -/
def betweenLayout : RawLayout where
  aliases := ["repo".toList]
  both :=
    { file := (["c64", "c64sc", "scpu64", "c128", "vic20", "plus4", "pet"].map fun machine =>
        { mode := "kernel".toList, target := "kernel.img.".toList ++ machine.toList
          source := none, includes := none, optional := none }) ++
        [{ mode := "keep".toList, target := "c64/a.vkm".toList, source := none
           includes := none, optional := none }]
      tree := [{ mode := "config".toList, target := "c64".toList, source := none
                 includes := some ["*.vkm".toList], optional := none },
               { mode := "keep".toList, target := "c64".toList, source := none, includes := none
                 optional := none }]
      directory := [] }
  pi4 := ⟨[], [], []⟩
  pi5 := ⟨[], [], []⟩

/-- The matchers of that layout: the file, its extension, its tree. -/
def betweenMatchers : List DeviceMatcher :=
  [⟨.exactPath, .keep, none, some "c64/a.vkm".toList, none⟩,
    ⟨.basenameSuffix, .config, some "c64".toList, none, some ".vkm".toList⟩,
    ⟨.topRoot, .keep, some "c64".toList, none, none⟩]

/-- A layout whose matchers stand in order already. -/
theorem layout_matchers {raw : RawLayout} {matchers : List DeviceMatcher}
    (hmatchers : (loadSdLayout raw).bind deviceMatchers = some matchers)
    (hprojection : ((loadSdLayout raw).bind deviceProjection).isSome = true)
    (hsorted : matchers.Pairwise fun left right => matcherLe left right = true) :
    ∃ rules projection, loadSdLayout raw = some rules ∧
      deviceProjection rules = some projection ∧ deviceMatchers rules = some matchers ∧
      fullMatchers matchers = matchers ∧
      projection.rules = matchers.filter (!redundant matchers ·) := by
  obtain ⟨rules, hrules, hfound⟩ := Option.bind_eq_some_iff.mp hmatchers
  rw [hrules, Option.bind_some] at hprojection
  obtain ⟨projection, hprojected⟩ := Option.isSome_iff_exists.mp hprojection
  obtain ⟨found, hsame, hkept⟩ := projection_rules hprojected
  obtain rfl : found = matchers := Option.some.inj (hsame.symm.trans hfound)
  have hfull : fullMatchers found = found := List.mergeSort_of_pairwise hsorted
  exact ⟨rules, projection, hrules, hprojected, hfound, hfull, by rw [hkept, hfull]⟩

/-- The file is kept by the full list, and configuration once its own matcher is left out. -/
theorem projection_changes_mode :
    ∃ rules projection matchers path, loadSdLayout betweenLayout = some rules ∧
      deviceProjection rules = some projection ∧ deviceMatchers rules = some matchers ∧
      modeOf (fullMatchers matchers) path = some .keep ∧
      modeOf projection.rules path = some .config := by
  have hmatchers : (loadSdLayout betweenLayout).bind deviceMatchers = some betweenMatchers := by
    decide
  have hprojection : ((loadSdLayout betweenLayout).bind deviceProjection).isSome = true := by
    decide
  have hmodes : modeOf betweenMatchers "c64/a.vkm".toList = some .keep ∧
      modeOf (betweenMatchers.filter (!redundant betweenMatchers ·)) "c64/a.vkm".toList =
        some .config := by
    decide
  obtain ⟨rules, projection, hrules, hprojected, hfound, hfull, hkept⟩ :=
    layout_matchers hmatchers hprojection (by decide)
  refine ⟨rules, projection, _, "c64/a.vkm".toList, hrules, hprojected, hfound, ?_, ?_⟩
  · rw [hfull]
    exact hmodes.1
  · rw [hkept]
    exact hmodes.2

/-- The same with the extension kept and the rest of the tree configuration. -/
def keptLayout : RawLayout :=
  { betweenLayout with
    both :=
      { betweenLayout.both with
        tree := [{ mode := "keep".toList, target := "c64".toList, source := none
                   includes := some ["*.vkm".toList], optional := none },
                 { mode := "config".toList, target := "c64".toList, source := none, includes := none
                   optional := none }] } }

def keptMatchers : List DeviceMatcher :=
  [⟨.exactPath, .keep, none, some "c64/a.vkm".toList, none⟩,
    ⟨.basenameSuffix, .keep, some "c64".toList, none, some ".vkm".toList⟩,
    ⟨.topRoot, .config, some "c64".toList, none, none⟩]

/-- The matcher of the file is left out, and that of its extension still comes before the one of
the tree. -/
theorem projection_preserves_kept :
    ∃ rules projection matchers, loadSdLayout keptLayout = some rules ∧
      deviceProjection rules = some projection ∧ deviceMatchers rules = some matchers ∧
      projection.rules ≠ fullMatchers matchers ∧
      ((∀ path, modeOf projection.rules path = modeOf (fullMatchers matchers) path) ∧
        ∀ policy, compileLayout keptLayout = some policy → ∀ path,
          fatPathValid 240 path = true →
            policy.classifyBmxPath path =
              (deviceModeFromProjection rules projection path).map modePolicy) := by
  have hmatchers : (loadSdLayout keptLayout).bind deviceMatchers = some keptMatchers := by
    decide
  have hprojection : ((loadSdLayout keptLayout).bind deviceProjection).isSome = true := by
    decide
  obtain ⟨rules, projection, hrules, hprojected, hfound, hfull, hkept⟩ :=
    layout_matchers hmatchers hprojection (by decide)
  refine ⟨rules, projection, _, hrules, hprojected, hfound, ?_, ?_⟩
  · rw [hkept, hfull]
    decide
  · refine (projection_preserves_iff hrules hprojected hfound).mpr ?_
    rw [hfull]
    unfold NothingBetween
    decide

end Layout

end BmxUpdate
