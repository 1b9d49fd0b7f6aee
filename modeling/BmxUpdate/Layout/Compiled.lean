import BmxUpdate.Layout.Agreement

/-!
# What compiling a layout establishes

From the checks of `_parse_rule` on: every text of a compiled policy is ASCII, every rule has
the texts its kind reads, and the kernels are plain names.  So the host and the device agree
on every path (`host_device_agree`).
-/

namespace BmxUpdate

namespace Layout

open Wire Release FatPath

/-! ## Texts -/

theorem IsAscii.subset {text part : Text} (h : IsAscii text) (hsub : part ⊆ text) : IsAscii part :=
  fun c hc => h c (hsub hc)

theorem headPart_subset (separator : Char) (text : Text) : headPart separator text ⊆ text :=
  (List.takeWhile_prefix _).subset

theorem validateFatPath_ascii {text result : Text} (h : validateFatPath text = some result) :
    IsAscii result := by
  unfold validateFatPath at h
  split at h
  · next hvalid =>
      cases h
      intro c hc
      simpa using List.all_eq_true.mp (fatPathValid_eq_true.mp hvalid).2.1 c hc
  · cases h

theorem glob_ascii {text result : Text} (h : glob text = some result) : IsAscii result := by
  unfold glob at h
  split at h
  · cases h
  split at h
  · cases h
  split at h
  · cases h
  · next hprintable =>
      cases h
      simp only [List.any_eq_true, Bool.or_eq_true, decide_eq_true_eq, not_exists, not_and,
        not_or, Nat.not_lt] at hprintable
      intro c hc
      have := (hprintable c hc).2
      omega

theorem targetPattern_ascii {text result : Text} (h : targetPattern text = some result) :
    IsAscii result := by
  unfold targetPattern at h
  split at h
  · exact validateFatPath_ascii h
  · obtain ⟨pattern, hpattern, h⟩ := Option.bind_eq_some_iff.mp h
    have hascii := glob_ascii hpattern
    dsimp only at h
    split at h
    · split at h
      · cases h
      · cases h
        exact hascii
    · split at h
      · cases h
      · cases h
        exact hascii

/-! ## Rules -/

/-- The texts of a rule that reach the policy are ASCII. -/
structure AsciiRule (rule : LayoutRule) : Prop where
  target : IsAscii rule.target
  includes : ∀ pattern ∈ rule.includes, IsAscii pattern

theorem of_guard {p : Prop} [Decidable p] {u : Unit} (h : (guard p : Option Unit) = some u) : p := by
  unfold guard at h
  split at h
  · assumption
  · cases h

/-- Every value of a `mapM` comes from an element. -/
theorem exists_of_mem_mapM {α β : Type} {f : α → Option β} {xs : List α} :
    ∀ {ys : List β}, xs.mapM f = some ys → ∀ y ∈ ys, ∃ x ∈ xs, f x = some y := by
  induction xs with
  | nil =>
      intro ys h
      cases h
      nofun
  | cons x xs ih =>
      intro ys h y hy
      rw [List.mapM_cons] at h
      obtain ⟨first, hfirst, h⟩ := Option.bind_eq_some_iff.mp h
      obtain ⟨rest, hrest, h⟩ := Option.bind_eq_some_iff.mp h
      cases h
      rcases List.mem_cons.mp hy with rfl | hy
      · exact ⟨x, by simp, hfirst⟩
      · obtain ⟨other, hother, hvalue⟩ := ih hrest y hy
        exact ⟨other, List.mem_cons_of_mem _ hother, hvalue⟩

/-- Every element of a `mapM` that succeeds has a value. -/
theorem exists_of_mapM_mem {α β : Type} {f : α → Option β} {xs : List α} :
    ∀ {ys : List β}, xs.mapM f = some ys → ∀ x ∈ xs, ∃ y ∈ ys, f x = some y := by
  induction xs with
  | nil =>
      intro ys h
      nofun
  | cons x xs ih =>
      intro ys h other hother
      rw [List.mapM_cons] at h
      obtain ⟨first, hfirst, h⟩ := Option.bind_eq_some_iff.mp h
      obtain ⟨rest, hrest, h⟩ := Option.bind_eq_some_iff.mp h
      cases h
      rcases List.mem_cons.mp hother with rfl | hother
      · exact ⟨first, by simp, hfirst⟩
      · obtain ⟨y, hy, hvalue⟩ := ih hrest other hother
        exact ⟨y, List.mem_cons_of_mem _ hy, hvalue⟩

theorem parseRule_ascii {aliases : List Text} {scope : Scope} {kind : EntryKind} {raw : RawRule}
    {rule : LayoutRule} (h : parseRule aliases scope kind raw = some rule) : AsciiRule rule := by
  unfold parseRule at h
  simp only [Option.bind_eq_bind, Option.bind_eq_some_iff] at h
  obtain ⟨_, -, _, -, mode, -, source, -, target, htarget, includes, hincludes, _, -, _, -, h⟩ := h
  cases h
  constructor
  · unfold parseTarget at htarget
    split at htarget
    · exact targetPattern_ascii htarget
    · exact validateFatPath_ascii htarget
  · unfold parseIncludes at hincludes
    split at hincludes
    · cases hincludes
      nofun
    · obtain ⟨items, -, hitems⟩ := Option.bind_eq_some_iff.mp hincludes
      intro pattern hpattern
      obtain ⟨text, -, htext⟩ := exists_of_mem_mapM hitems pattern hpattern
      exact glob_ascii htext

theorem parseScope_ascii {aliases : List Text} {scope : Scope} {raw : RawScope}
    {rules : List LayoutRule} (h : parseScope aliases scope raw = some rules) :
    ∀ rule ∈ rules, AsciiRule rule := by
  unfold parseScope at h
  simp only [Option.bind_eq_bind, Option.bind_eq_some_iff] at h
  obtain ⟨files, hfiles, trees, htrees, directories, hdirectories, h⟩ := h
  cases h
  intro rule hrule
  rcases List.mem_append.mp hrule with hrule | hrule
  · rcases List.mem_append.mp hrule with hrule | hrule
    · obtain ⟨_, -, hparse⟩ := exists_of_mem_mapM hfiles rule hrule
      exact parseRule_ascii hparse
    · obtain ⟨_, -, hparse⟩ := exists_of_mem_mapM htrees rule hrule
      exact parseRule_ascii hparse
  · obtain ⟨_, -, hparse⟩ := exists_of_mem_mapM hdirectories rule hrule
    exact parseRule_ascii hparse

/-- A kernel target that `_validate_static_layout` lets through. -/
structure PlainKernel (target : Text) : Prop where
  slash : '/' ∉ target
  machine : ∀ base machine, splitLastPoint target = some (base, machine) →
    isAlphanumeric machine = true

theorem kernelTarget_plain {target : Text} {parts : Text × Text}
    (h : kernelTarget target = some parts) : PlainKernel target := by
  unfold kernelTarget at h
  simp only [Option.bind_eq_bind, Option.bind_eq_some_iff] at h
  obtain ⟨_, hslash, split, hsplit, _, halpha, -⟩ := h
  refine ⟨(of_guard hslash).1, fun base machine heq => ?_⟩
  rw [hsplit] at heq
  cases heq
  exact of_guard halpha

theorem validateKernels_plain {rules : List LayoutRule} {board : Board} {u : Unit}
    (h : validateKernels rules board = some u) :
    ∀ rule ∈ kernelRules rules board, PlainKernel rule.target := by
  unfold validateKernels at h
  simp only [Option.bind_eq_bind, Option.bind_eq_some_iff] at h
  obtain ⟨-, -, targets, htargets, -⟩ := h
  intro rule hrule
  have hin : rule.target ∈ kernelTargetsUnchecked rules board true := by
    unfold kernelTargetsUnchecked
    rw [List.mem_eraseDups, List.mem_map]
    exact ⟨rule, List.mem_filter.mpr ⟨hrule, by simp⟩, rfl⟩
  obtain ⟨parts, -, hparts⟩ := exists_of_mapM_mem htargets rule.target hin
  exact kernelTarget_plain hparts

/-- What loading a layout establishes. -/
structure LayoutFits (rules : List LayoutRule) : Prop where
  ascii : ∀ rule ∈ rules, AsciiRule rule
  kernels : ∀ board, ∀ rule ∈ kernelRules rules board, PlainKernel rule.target

theorem loadSdLayout_fits {raw : RawLayout} {rules : List LayoutRule}
    (h : loadSdLayout raw = some rules) : LayoutFits rules := by
  unfold loadSdLayout at h
  simp only [Option.bind_eq_bind, Option.bind_eq_some_iff] at h
  obtain ⟨both, hboth, pi4, hpi4, pi5, hpi5, _, -, _, hkernels4, _, hkernels5, h⟩ := h
  cases h
  constructor
  · intro rule hrule
    rcases List.mem_append.mp hrule with hrule | hrule
    · rcases List.mem_append.mp hrule with hrule | hrule
      · exact parseScope_ascii hboth rule hrule
      · exact parseScope_ascii hpi4 rule hrule
    · exact parseScope_ascii hpi5 rule hrule
  · intro board
    cases board with
    | pi4 => exact validateKernels_plain hkernels4
    | pi5 => exact validateKernels_plain hkernels5

/-! ## Matchers -/

/-- A matcher that compiles to a complete rule of ASCII texts. -/
structure MatcherFits (matcher : DeviceMatcher) : Prop where
  complete : (compileMatcher matcher).Complete
  root : ∀ t ∈ matcher.root, IsAscii t
  value : ∀ t ∈ matcher.value, IsAscii t
  suffix : ∀ t ∈ matcher.suffix, IsAscii t

theorem devicePattern_fits {pattern : Text} {root : Option Text} {mode : Mode}
    {matcher : DeviceMatcher} (hpattern : IsAscii pattern) (hroot : ∀ t ∈ root, IsAscii t)
    (h : devicePattern pattern root mode = some matcher) : MatcherFits matcher := by
  unfold devicePattern at h
  split at h
  · cases h
  split at h
  · cases h
  split at h
  · cases h
    refine ⟨⟨rfl, rfl⟩, hroot, ?_, nofun⟩
    intro t ht
    cases ht
    exact hpattern
  · cases h
    have hsuffix : IsAscii (pattern.drop ((headPart '*' pattern).length + 1)) :=
      hpattern.subset (List.drop_subset _ _)
    by_cases hstart : headPart '*' pattern = []
    · simp only [hstart, if_true, orNone]
      refine ⟨⟨rfl, rfl⟩, hroot, nofun, ?_⟩
      intro t ht
      cases ht
      rw [hstart] at hsuffix
      exact hsuffix
    · simp only [hstart, if_false, orNone]
      refine ⟨⟨rfl, rfl, rfl⟩, hroot, ?_, ?_⟩
      · intro t ht
        cases ht
        exact hpattern.subset (headPart_subset _ _)
      · intro t ht
        cases ht
        exact hsuffix

theorem deviceMatcher_fits {rule : LayoutRule} {matchers : List DeviceMatcher}
    (hrule : AsciiRule rule) (h : deviceMatcher rule = some matchers) :
    ∀ matcher ∈ matchers, MatcherFits matcher := by
  have hroot : ∀ t ∈ some (headPart '/' rule.target), IsAscii t := by
    intro t ht
    cases ht
    exact hrule.target.subset (headPart_subset _ _)
  unfold deviceMatcher at h
  dsimp only at h
  split at h
  · split at h
    · cases h
      intro matcher hmatcher
      rw [List.mem_singleton.mp hmatcher]
      exact ⟨rfl, hroot, nofun, nofun⟩
    · intro matcher hmatcher
      obtain ⟨pattern, hpattern, hdevice⟩ := exists_of_mem_mapM h matcher hmatcher
      exact devicePattern_fits (hrule.includes pattern hpattern) hroot hdevice
  split at h
  · obtain ⟨found, hfound, rfl⟩ := Option.map_eq_some_iff.mp h
    intro matcher hmatcher
    rw [List.mem_singleton.mp hmatcher]
    exact @devicePattern_fits _ none _ _ (hrule.target.subset (List.drop_subset _ _)) nofun hfound
  split at h
  · obtain ⟨found, hfound, rfl⟩ := Option.map_eq_some_iff.mp h
    intro matcher hmatcher
    rw [List.mem_singleton.mp hmatcher]
    exact @devicePattern_fits _ none _ _ hrule.target nofun hfound
  · cases h
    intro matcher hmatcher
    rw [List.mem_singleton.mp hmatcher]
    refine ⟨⟨rfl, rfl⟩, nofun, ?_, nofun⟩
    intro t ht
    cases ht
    exact hrule.target

/-! ## The projection -/

/-- What holds of a fold that succeeds. -/
theorem foldlM_keeps {α β : Type} {f : β → α → Option β} {P : β → Prop} {xs : List α}
    (hstep : ∀ x ∈ xs, ∀ b b', P b → f b x = some b' → P b') :
    ∀ {b b' : β}, P b → xs.foldlM f b = some b' → P b' := by
  induction xs with
  | nil =>
      intro b b' hb h
      cases h
      exact hb
  | cons x xs ih =>
      intro b b' hb h
      rw [List.foldlM_cons] at h
      obtain ⟨middle, hmiddle, h⟩ := Option.bind_eq_some_iff.mp h
      exact ih (fun y hy => hstep y (List.mem_cons_of_mem _ hy))
        (hstep x (by simp) b middle hb hmiddle) h

theorem addMatcher_fits {matchers matchers' : List DeviceMatcher} {matcher : DeviceMatcher}
    (hmatcher : MatcherFits matcher) (hmatchers : ∀ m ∈ matchers, MatcherFits m)
    (h : addMatcher matchers matcher = some matchers') : ∀ m ∈ matchers', MatcherFits m := by
  unfold addMatcher at h
  split at h
  · cases h
    intro m hm
    rcases List.mem_append.mp hm with hm | hm
    · exact hmatchers m hm
    · rw [List.mem_singleton.mp hm]
      exact hmatcher
  · split at h
    · cases h
    · cases h
      intro m hm
      obtain ⟨other, hother, rfl⟩ := List.mem_map.mp hm
      split
      · exact hmatcher
      · exact hmatchers other hother

theorem ruleRoots_ascii {rule : LayoutRule} (h : AsciiRule rule) :
    ∀ root ∈ ruleRoots rule, IsAscii root := by
  intro root hroot
  unfold ruleRoots at hroot
  split at hroot
  · rw [List.mem_singleton.mp hroot]
    exact h.target.subset (headPart_subset _ _)
  · cases hroot

theorem deviceProjection_fits {rules : List LayoutRule} {projection : DeviceProjection}
    (hrules : ∀ rule ∈ rules, AsciiRule rule) (h : deviceProjection rules = some projection) :
    (∀ root ∈ projection.directories, IsAscii root) ∧
      ∀ matcher ∈ projection.rules, MatcherFits matcher := by
  unfold deviceProjection at h
  simp only [Option.bind_eq_bind, Option.bind_eq_some_iff] at h
  obtain ⟨all, hall, matchers, hmatchers, h⟩ := h
  cases h
  constructor
  · intro root hroot
    rw [List.mem_mergeSort, List.mem_eraseDups, List.mem_flatMap] at hroot
    obtain ⟨rule, hrule, hin⟩ := hroot
    exact ruleRoots_ascii (hrules rule hrule) root hin
  · intro matcher hmatcher
    rw [List.mem_mergeSort, List.mem_filter] at hmatcher
    refine foldlM_keeps (P := fun ms => ∀ m ∈ ms, MatcherFits m) ?_
      (fun _ hin => absurd hin List.not_mem_nil) hmatchers matcher hmatcher.1
    intro found hfound before after hbefore hstep
    refine addMatcher_fits ?_ hbefore hstep
    obtain ⟨some', hsome, hin⟩ := List.mem_flatten.mp hfound
    obtain ⟨rule, hrule, hdevice⟩ := exists_of_mem_mapM hall some' hsome
    unfold ruleMatchers at hdevice
    split at hdevice
    · cases hdevice
      cases hin
    · exact deviceMatcher_fits (hrules rule hrule) hdevice found hin

/-! ## The kernels -/

theorem splitLastPoint_subset {target base machine : Text}
    (h : splitLastPoint target = some (base, machine)) : base ⊆ target ∧ machine ⊆ target := by
  unfold splitLastPoint at h
  split at h
  · cases h
    refine ⟨List.take_subset _ _, ?_⟩
    unfold lastPart
    intro c hc
    rw [List.mem_reverse] at hc
    exact List.mem_reverse.mp ((List.takeWhile_prefix _).subset hc)
  · cases h

/-- A base and a machine of a board come from one of its kernels. -/
theorem boardInventory_mem {rules : List LayoutRule} {board : Board} {base : Text}
    {found : List (Text × Bool)} (h : boardInventory rules board = some (base, found)) :
    (∃ rule ∈ kernelRules rules board, ∃ machine,
      splitLastPoint rule.target = some (base, machine)) ∧
    ∀ entry ∈ found, ∃ rule ∈ kernelRules rules board, ∃ base,
      splitLastPoint rule.target = some (base, entry.1) := by
  unfold boardInventory at h
  simp only [Option.bind_eq_bind, Option.bind_eq_some_iff] at h
  obtain ⟨entries, hentries, h⟩ := h
  have hfrom : ∀ entry ∈ entries, ∃ rule ∈ kernelRules rules board,
      splitLastPoint rule.target = some (entry.1, entry.2.1) := by
    intro entry hentry
    obtain ⟨rule, hrule, hvalue⟩ := exists_of_mem_mapM hentries entry hentry
    obtain ⟨parts, hparts, rfl⟩ := Option.map_eq_some_iff.mp hvalue
    exact ⟨rule, hrule, hparts⟩
  split at h
  · cases h
  next first rest =>
  split at h
  · cases h
    constructor
    · obtain ⟨rule, hrule, hparts⟩ := hfrom _ (List.mem_cons_self)
      exact ⟨rule, hrule, _, hparts⟩
    · intro entry hentry
      rw [List.mem_eraseDups, List.mem_map] at hentry
      obtain ⟨whole, hwhole, rfl⟩ := hentry
      obtain ⟨rule, hrule, hparts⟩ := hfrom whole hwhole
      exact ⟨rule, hrule, _, hparts⟩
  · cases h

theorem kernelInventory_fits {rules : List LayoutRule} {kernels : KernelInventory}
    (hrules : LayoutFits rules) (h : kernelInventory rules = some kernels) :
    (∀ base ∈ kernels.bases, IsAscii base ∧ '/' ∉ base) ∧
      ∀ machine ∈ kernels.machines, IsAscii machine ∧ isAlphanumeric machine = true := by
  have hbase : ∀ {board base found}, boardInventory rules board = some (base, found) →
      IsAscii base ∧ '/' ∉ base := by
    intro board base found hfound
    obtain ⟨rule, hrule, machine, hparts⟩ := (boardInventory_mem hfound).1
    have hsub := (splitLastPoint_subset hparts).1
    have hin := (List.mem_filter.mp hrule).1
    exact ⟨(hrules.ascii rule hin).target.subset hsub,
      fun hslash => (hrules.kernels board rule hrule).slash (hsub hslash)⟩
  unfold kernelInventory at h
  simp only [Option.bind_eq_bind, Option.bind_eq_some_iff] at h
  obtain ⟨⟨base4, pi4⟩, hpi4, ⟨base5, pi5⟩, hpi5, _, -, _, -, _, -, h⟩ := h
  cases h
  constructor
  · intro base hin
    rcases List.mem_pair.mp hin with rfl | rfl
    · exact hbase hpi4
    · exact hbase hpi5
  · intro machine hmachine
    have hfound : ∃ entry ∈ pi4, entry.1 = machine := by
      rcases List.mem_append.mp hmachine with hin | hin
      · obtain ⟨entry, hentry, rfl⟩ := List.mem_map.mp hin
        exact ⟨entry, (List.mem_filter.mp hentry).1, rfl⟩
      · obtain ⟨entry, hentry, rfl⟩ := List.mem_map.mp hin
        exact ⟨entry, (List.mem_filter.mp hentry).1, rfl⟩
    obtain ⟨entry, hentry, rfl⟩ := hfound
    obtain ⟨rule, hrule, base, hparts⟩ := (boardInventory_mem hpi4).2 entry hentry
    have hin := (List.mem_filter.mp hrule).1
    exact ⟨(hrules.ascii rule hin).target.subset (splitLastPoint_subset hparts).2,
      (hrules.kernels _ rule hrule).machine base entry.1 hparts⟩

/-! ## The policy -/

/-- A rule that is complete and ASCII. -/
def RuleFits (rule : CompiledRule) : Prop :=
  rule.Complete ∧ (∀ t ∈ rule.root, IsAscii t) ∧ (∀ t ∈ rule.value, IsAscii t) ∧
    ∀ t ∈ rule.suffix, IsAscii t

theorem addRule_fits {rules rules' : List CompiledRule} {rule : CompiledRule}
    (hrule : RuleFits rule) (hrules : ∀ r ∈ rules, RuleFits r)
    (h : addRule rules rule = some rules') : ∀ r ∈ rules', RuleFits r := by
  unfold addRule at h
  split at h
  · cases h
    intro r hr
    rcases List.mem_append.mp hr with hr | hr
    · exact hrules r hr
    · rw [List.mem_singleton.mp hr]
      exact hrule
  · split at h
    · cases h
    · cases h
      exact hrules

theorem compileLayout_fits {raw : RawLayout} {policy : UpdatePathPolicy}
    (h : compileLayout raw = some policy) : PolicyFits policy := by
  unfold compileLayout at h
  simp only [Option.bind_eq_bind, Option.bind_eq_some_iff] at h
  obtain ⟨layout, hlayout, projection, hprojection, kernels, hkernels, rules, hcompiled, _, -, h⟩ := h
  cases h
  have hlayout := loadSdLayout_fits hlayout
  obtain ⟨hdirectories, hmatchers⟩ := deviceProjection_fits hlayout.ascii hprojection
  obtain ⟨hbases, hmachines⟩ := kernelInventory_fits hlayout hkernels
  have hrules : ∀ rule ∈ rules, RuleFits rule := by
    refine foldlM_keeps (P := fun rs => ∀ r ∈ rs, RuleFits r) ?_
      (fun _ hin => absurd hin List.not_mem_nil) hcompiled
    intro rule hrule before after hbefore hstep
    refine addRule_fits ?_ hbefore hstep
    rcases List.mem_cons.mp hrule with rfl | hrule
    · exact ⟨trivial, nofun, nofun, nofun⟩
    · obtain ⟨matcher, hmatcher, rfl⟩ := List.mem_map.mp hrule
      have hfits := hmatchers matcher hmatcher
      exact ⟨hfits.complete, hfits.root, hfits.value, hfits.suffix⟩
  have hsorted : ∀ rule ∈ rules.mergeSort fun a b => keyLe a.sortKey b.sortKey, RuleFits rule := by
    intro rule hrule
    exact hrules rule (List.mem_mergeSort.mp hrule)
  exact {
    rules := fun rule hrule => (hsorted rule hrule).2
    directoryRoots := hdirectories
    kernelBases := fun base hbase => (hbases base hbase).1
    kernelMachines := fun machine hmachine => (hmachines machine hmachine).1
    complete := fun rule hrule => (hsorted rule hrule).1
    bases := fun base hbase => (hbases base hbase).2
    machines := fun machine hmachine => (hmachines machine hmachine).2 }

/-! ## Agreement -/

theorem convertPolicy_inj {left right : RulePolicy} (h : convertPolicy left = convertPolicy right) :
    left = right := by
  cases left <;> cases right <;> first | rfl | cases h

theorem classifyBmxPath_eq (policy : UpdatePathPolicy) (text : Text) :
    policy.classifyBmxPath text =
      if fatPathValid 240 text then policy.classifyBy text policy.rules else none := by
  unfold UpdatePathPolicy.classifyBmxPath validateFatPath
  by_cases hvalid : fatPathValid 240 text = true
  · obtain ⟨hempty, -, -, -, hlast, -⟩ := fatPathValid_eq_true.mp hvalid
    rw [if_neg (not_or.mpr ⟨hempty, hlast⟩), if_pos hvalid, if_pos hvalid, if_neg nofun]
  · rw [if_neg hvalid, if_pos rfl, if_neg hvalid, ite_self]

theorem isAllowedBmxDirectory_eq {policy : UpdatePathPolicy} {text : Text}
    (hslash : text.getLast? ≠ some '/') :
    policy.isAllowedBmxDirectory text =
      (fatPathValid 240 text && decide (headPart '/' text ∈ policy.directoryRoots)) := by
  unfold UpdatePathPolicy.isAllowedBmxDirectory validateFatPath
  dsimp only
  rw [if_neg hslash]
  by_cases hempty : text = []
  · subst hempty
    rfl
  · rw [if_neg hempty, if_neg hempty]
    by_cases hvalid : fatPathValid 240 text = true
    · rw [if_pos hvalid, hvalid]
      simp
    · rw [if_neg hvalid, if_pos rfl]
      rw [Bool.not_eq_true] at hvalid
      rw [hvalid]
      rfl

/-- One slash at the end is taken off. -/
theorem isAllowedBmxDirectory_slash {policy : UpdatePathPolicy} {text : Text}
    (hslash : text.getLast? ≠ some '/') :
    policy.isAllowedBmxDirectory (text ++ ['/']) = policy.isAllowedBmxDirectory text := by
  unfold UpdatePathPolicy.isAllowedBmxDirectory
  dsimp only
  have hlast : (text ++ ['/']).getLast? = some '/' := by simp
  have hnonempty : text ++ ['/'] ≠ [] := by simp
  rw [if_neg hnonempty, if_pos hlast, List.dropLast_concat, if_neg hslash]
  by_cases hempty : text = []
  · rw [if_pos hempty, if_pos hempty]
  · rw [if_neg hempty, if_neg hempty]

/-- **The host and the device agree on paths.**  For every layout that compiles, and the table
the device reads from the rendered header: a path is a file of policy `P` on the device exactly
when the host classifies its text as `P`, and a directory exactly when the host allows it. -/
theorem host_device_agree {raw : RawLayout} {policy : UpdatePathPolicy}
    (h : compileLayout raw = some policy) :
    ∃ table, (renderHeader policy).table = some table ∧
      ∀ path text, Spells path text →
        (∀ P, table.acceptFile path = some (convertPolicy P) ↔
          policy.classifyBmxPath text = some P) ∧
        (text.getLast? ≠ some '/' →
          (table.acceptDirectory path = true ↔ policy.isAllowedBmxDirectory text = true) ∧
            policy.isAllowedBmxDirectory (text ++ ['/']) = policy.isAllowedBmxDirectory text) := by
  have hfits := compileLayout_fits h
  obtain ⟨table, htable, hof⟩ := renderHeader_table hfits.toAsciiPolicy
  refine ⟨table, htable, fun path text hspells => ⟨fun P => ?_, fun hslash => ⟨?_, ?_⟩⟩⟩
  · rw [classifyBmxPath_eq, PolicyTable.acceptFile, isSafeManifestPath_iff hspells]
    split
    · next hvalid =>
        rw [hspells.text_eq hvalid, classifyBy_text hfits hof, Option.map_eq_some_iff]
        constructor
        · intro hfound
          obtain ⟨given, hgiven, hsame⟩ := hfound
          rw [hgiven, convertPolicy_inj hsame]
        · intro hfound
          exact ⟨P, hfound, rfl⟩
    · simp
  · rw [isAllowedBmxDirectory_eq hslash, PolicyTable.acceptDirectory,
      isSafeManifestPath_iff hspells]
    cases hvalid : fatPathValid 240 text with
    | false => simp
    | true => rw [hspells.text_eq hvalid, acceptDirectory_text hof]
  · exact isAllowedBmxDirectory_slash hslash

/-- Seven kernels for both boards, and a tree that is kept. -/
def smallLayout : RawLayout where
  aliases := []
  both :=
    { file := ["c64", "c64sc", "scpu64", "c128", "vic20", "plus4", "pet"].map fun machine =>
        { mode := "kernel".toList, target := "kernel.img.".toList ++ machine.toList
          source := none, includes := none, optional := none }
      tree := [{ mode := "keep".toList, target := "disks".toList, source := none, includes := none
                 optional := none }]
      directory := [] }
  pi4 := ⟨[], [], []⟩
  pi5 := ⟨[], [], []⟩

/-- Bytes decoded one by one. -/
theorem spells_toChar {path : Bytes} : Spells path (path.map toChar) where
  ascii _ := rfl
  other h := by
    obtain ⟨b, hb, hbig⟩ := h
    exact ⟨toChar b, List.mem_map_of_mem hb, by rw [toNat_toChar]; exact hbig⟩

theorem host_device_agree_small :
    ∃ policy table, compileLayout smallLayout = some policy ∧
      (renderHeader policy).table = some table ∧
      ∀ path P, table.acceptFile path = some (convertPolicy P) ↔
        policy.classifyBmxPath (path.map toChar) = some P := by
  have hsome : (compileLayout smallLayout).isSome = true := by decide +kernel
  obtain ⟨policy, hpolicy⟩ := Option.isSome_iff_exists.mp hsome
  obtain ⟨table, htable, hagree⟩ := host_device_agree hpolicy
  exact ⟨policy, table, hpolicy, htable, fun path => (hagree path _ spells_toChar).1⟩

end Layout

end BmxUpdate
