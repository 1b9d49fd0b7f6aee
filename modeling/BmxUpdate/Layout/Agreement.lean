import BmxUpdate.Layout.Header

/-!
# The host and the device on one path

The classifier of the host over a policy and that of the device over the table read from the
rendered header go through the same rules in the same order.  `PolicyFits` is what compiling a
layout establishes, and with it no rule and no kernel is read in two ways.
-/

namespace BmxUpdate

namespace Layout

open Wire Release FatPath

/-- The texts a rule's kind reads are there, and so is its policy. -/
def CompiledRule.Complete (rule : CompiledRule) : Prop :=
  match rule.kind with
  | .exactPath | .basenameExact => rule.value.isSome = true ∧ rule.policy.isSome = true
  | .basenamePrefixSuffix =>
      rule.value.isSome = true ∧ rule.suffix.isSome = true ∧ rule.policy.isSome = true
  | .basenameSuffix => rule.suffix.isSome = true ∧ rule.policy.isSome = true
  | .topRoot => rule.policy.isSome = true
  | .machineKernel => True

/-- A policy whose texts the device can compare byte by byte. -/
structure PolicyFits (policy : UpdatePathPolicy) : Prop extends AsciiPolicy policy where
  complete : ∀ rule ∈ policy.rules, rule.Complete
  bases : ∀ base ∈ policy.kernelBases, '/' ∉ base
  machines : ∀ machine ∈ policy.kernelMachines, isAlphanumeric machine = true

/-! ## Texts and bytes -/

theorem isPrefixOf_text (xs ys : Bytes) :
    (xs.map toChar).isPrefixOf (ys.map toChar) = xs.isPrefixOf ys := by
  rw [Bool.eq_iff_iff, List.isPrefixOf_iff_prefix, List.isPrefixOf_iff_prefix,
    List.prefix_map_iff_of_injective toChar_injective]

theorem isSuffixOf_text (xs ys : Bytes) :
    (xs.map toChar).isSuffixOf (ys.map toChar) = xs.isSuffixOf ys := by
  rw [Bool.eq_iff_iff, List.isSuffixOf_iff_suffix, List.isSuffixOf_iff_suffix,
    List.suffix_map_iff_of_injective toChar_injective]

theorem map_text_inj {xs ys : Bytes} : xs.map toChar = ys.map toChar ↔ xs = ys :=
  (List.map_injective_iff.mpr toChar_injective).eq_iff

theorem topOf_text (path : Bytes) : headPart '/' (path.map toChar) = (topOf path).map toChar :=
  headPart_map 0x2f path

theorem basename_text (path : Bytes) :
    lastPart '/' (path.map toChar) = (basename path).map toChar :=
  lastPart_map 0x2f path

/-! ## Kernels -/

theorem parseMachineKernelSuffix_isSome (table : PolicyTable) (suffix : Bytes) :
    (table.parseMachineKernelSuffix suffix).isSome = true ↔
      suffix ≠ [] ∧ 0x2e ∉ suffix ∧ suffix ∈ table.machineKernelMachines := by
  unfold PolicyTable.parseMachineKernelSuffix
  split
  · next h =>
      simp only [Option.isSome_none, Bool.false_eq_true, false_iff]
      tauto
  · next h =>
      rw [List.findIdx?_isSome, List.any_eq_true]
      simp only [decide_eq_true_eq, exists_eq_right]
      tauto

/-- What a machine name has none of. -/
theorem machine_plain {machine : Bytes} (h : isAlphanumeric (machine.map toChar) = true) :
    machine ≠ [] ∧ 0x2e ∉ machine ∧ 0x2f ∉ machine := by
  unfold isAlphanumeric at h
  simp only [Bool.and_eq_true, decide_eq_true_eq, ne_eq, List.map_eq_nil_iff, List.all_map,
    List.all_eq_true, Function.comp_apply] at h
  refine ⟨h.1, fun hin => ?_, fun hin => ?_⟩
  · exact absurd (h.2 _ hin) (by decide)
  · exact absurd (h.2 _ hin) (by decide)

section Agree

variable {policy : UpdatePathPolicy} {table : PolicyTable} (hfits : PolicyFits policy)
  (hof : TableOf policy table)
include hfits hof

theorem machineKernelMatch_isSome (path : Bytes) :
    (policy.machineKernelMatch (path.map toChar)).isSome =
      table.machineKernelBases.any (table.isKernelOf path) := by
  rw [Bool.eq_iff_iff, List.any_eq_true]
  have hmachines : ∀ suffix : Bytes, suffix.map toChar ∈ policy.kernelMachines ↔
      suffix ∈ table.machineKernelMachines := by
    intro suffix
    rw [hof.kernelMachines, List.mem_map_of_injective
      (List.map_injective_iff.mpr toChar_injective)]
  have hstart : ∀ base : Bytes, base.map toChar ++ ['.'] = (base ++ [0x2e]).map toChar := by
    intro base
    rw [List.map_append]
    rfl
  have hkernel : ∀ base ∈ table.machineKernelBases, table.isKernelOf path base = true ↔
      (base.map toChar ++ ['.']).isPrefixOf (path.map toChar) = true ∧
        (path.map toChar).drop (base.map toChar ++ ['.']).length ∈ policy.kernelMachines := by
    intro base hbase
    rw [hstart, isPrefixOf_text, List.length_map, ← List.map_drop, hmachines, List.length_append,
      PolicyTable.isKernelOf, Bool.and_eq_true, parseMachineKernelSuffix_isSome]
    simp only [List.length_singleton]
    refine and_congr_right fun _ => ⟨fun h => h.2.2, fun h => ?_⟩
    obtain ⟨hempty, hpoint, -⟩ := machine_plain (hfits.machines _ ((hmachines _).mpr h))
    exact ⟨hempty, hpoint, h⟩
  unfold UpdatePathPolicy.machineKernelMatch
  constructor
  · intro h
    split at h
    · cases h
    · rw [List.isSome_findSome?, List.any_eq_true] at h
      obtain ⟨base, hbase, hfound⟩ := h
      rw [hof.kernelBases, List.mem_map] at hbase
      obtain ⟨base, hbase, rfl⟩ := hbase
      refine ⟨base, hbase, (hkernel base hbase).mpr ?_⟩
      dsimp only at hfound
      split at hfound
      · next hboth => exact hboth
      · cases hfound
  · intro h
    obtain ⟨base, hbase, hfound⟩ := h
    have hboth := (hkernel base hbase).mp hfound
    have hbase' : base.map toChar ∈ policy.kernelBases := by
      rw [hof.kernelBases]
      exact List.mem_map_of_mem hbase
    have hslash : '/' ∉ path.map toChar := by
      -- The base has no slash, and neither has the machine.
      obtain ⟨rest, hrest⟩ := List.isPrefixOf_iff_prefix.mp hboth.1
      have hmachine := hboth.2
      rw [← hrest, List.drop_left] at hmachine
      rw [← hrest, List.mem_append, List.mem_append]
      have halpha := hfits.machines rest hmachine
      rintro ((hin | hin) | hin)
      · exact hfits.bases _ hbase' hin
      · exact absurd hin (by decide)
      · unfold isAlphanumeric at halpha
        simp only [Bool.and_eq_true, List.all_eq_true] at halpha
        exact absurd (halpha.2 _ hin) (by decide)
    rw [if_neg hslash, List.isSome_findSome?, List.any_eq_true]
    refine ⟨base.map toChar, hbase', ?_⟩
    dsimp only
    rw [if_pos hboth]
    rfl

end Agree

/-! ## Rules -/

theorem ruleMatches_text {policy : UpdatePathPolicy} {rule : CompiledRule} {row : TableRule}
    (hrow : RowOf policy rule row) (hcomplete : rule.Complete) (path : Bytes) :
    UpdatePathPolicy.ruleMatches rule (path.map toChar) = PolicyTable.ruleMatches row path := by
  obtain ⟨hkind, -, -, hvalue, hsuffix⟩ := hrow
  unfold Denotes at hvalue hsuffix
  have hequal : ∀ name : Bytes, (some (name.map toChar) = rule.value) ↔ (row.value = some name) := by
    intro name
    rw [hvalue]
    cases row.value with
    | none => simp
    | some value => simp [map_text_inj, eq_comm]
  unfold UpdatePathPolicy.ruleMatches PolicyTable.ruleMatches CompiledRule.Complete at *
  rw [hkind, basename_text]
  cases hcase : rule.kind with
  | machineKernel => rfl
  | topRoot => rfl
  | exactPath => simp only [hequal]
  | basenameExact => simp only [hequal]
  | basenameSuffix =>
      rw [hcase] at hcomplete
      obtain ⟨suffix, hsuffixOf⟩ := Option.isSome_iff_exists.mp hcomplete.1
      rw [hsuffixOf] at hsuffix
      obtain ⟨bytes, hbytes, htext⟩ := Option.map_eq_some_iff.mp hsuffix.symm
      simp only [hsuffixOf, hbytes, Option.getD_some, Option.any_some, ← htext, isSuffixOf_text]
  | basenamePrefixSuffix =>
      rw [hcase] at hcomplete
      obtain ⟨value, hvalueOf⟩ := Option.isSome_iff_exists.mp hcomplete.1
      obtain ⟨suffix, hsuffixOf⟩ := Option.isSome_iff_exists.mp hcomplete.2.1
      rw [hsuffixOf] at hsuffix
      rw [hvalueOf] at hvalue
      obtain ⟨start, hstart, hstartText⟩ := Option.map_eq_some_iff.mp hvalue.symm
      obtain ⟨bytes, hbytes, htext⟩ := Option.map_eq_some_iff.mp hsuffix.symm
      simp only [hsuffixOf, hbytes, hvalueOf, hstart, Option.getD_some, Option.any_some, ← htext,
        ← hstartText, isSuffixOf_text, isPrefixOf_text]

/-- A complete rule other than the kernel rule has a policy. -/
theorem CompiledRule.Complete.policy {rule : CompiledRule} (h : rule.Complete)
    (hkind : rule.kind ≠ .machineKernel) : rule.policy.isSome = true := by
  unfold CompiledRule.Complete at h
  cases hcase : rule.kind with
  | machineKernel => exact absurd hcase hkind
  | topRoot =>
      rw [hcase] at h
      exact h
  | exactPath =>
      rw [hcase] at h
      exact h.2
  | basenameExact =>
      rw [hcase] at h
      exact h.2
  | basenameSuffix =>
      rw [hcase] at h
      exact h.2
  | basenamePrefixSuffix =>
      rw [hcase] at h
      exact h.2.2

theorem root_text {root : Option Text} {pointer : Option Bytes} (h : Denotes root pointer)
    (path : Bytes) :
    root.any (headPart '/' (path.map toChar) ≠ ·) = pointer.any (topOf path ≠ ·) := by
  unfold Denotes at h
  rw [h, topOf_text]
  cases pointer with
  | none => rfl
  | some root => simp [map_text_inj]

section Agree

variable {policy : UpdatePathPolicy} {table : PolicyTable} (hfits : PolicyFits policy)
  (hof : TableOf policy table)
include hfits hof

/-- The two loops, rule by rule. -/
theorem classifyBy_text (path : Bytes) :
    table.classifyKnownPath path =
      (policy.classifyBy (path.map toChar) policy.rules).map convertPolicy := by
  have hkernel := machineKernelMatch_isSome hfits hof path
  have hloop : ∀ rules rows, (∀ rule ∈ rules, rule ∈ policy.rules) →
      List.Forall₂ (RowOf policy) rules rows →
      table.classifyBy path rows =
        (policy.classifyBy (path.map toChar) rules).map convertPolicy := by
    intro rules rows hin hrows
    induction hrows with
    | nil => rfl
    | @cons rule row rules rows hrow _ ih =>
        have hcomplete := hfits.complete rule (hin rule (by simp))
        have ih := ih fun other hother => hin other (List.mem_cons_of_mem _ hother)
        rw [PolicyTable.classifyBy, UpdatePathPolicy.classifyBy, hrow.kind, ih, hkernel,
          root_text hrow.root, ruleMatches_text hrow hcomplete, hof.kernelPolicy]
        by_cases hkind : rule.kind = .machineKernel
        · rw [if_pos hkind, if_pos hkind]
          split <;> rfl
        · rw [if_neg hkind, if_neg hkind]
          split
          · rfl
          · split
            · obtain ⟨given, hgiven⟩ := Option.isSome_iff_exists.mp (hcomplete.policy hkind)
              rw [hrow.policy, hgiven]
              rfl
            · rfl
  exact hloop policy.rules table.fileRules (fun _ h => h) hof.fileRules

omit hfits in
theorem acceptDirectory_text (path : Bytes) :
    table.isAllowedUpdateDirectory path =
      decide (headPart '/' (path.map toChar) ∈ policy.directoryRoots) := by
  rw [Bool.eq_iff_iff, decide_eq_true_eq, topOf_text, hof.directoryRoots,
    List.mem_map_of_injective (List.map_injective_iff.mpr toChar_injective),
    PolicyTable.isAllowedUpdateDirectory, List.any_eq_true]
  simp

end Agree

/-! ## Whole paths -/

theorem isSafeManifestPath_iff {path : Bytes} {text : Text} (h : Spells path text) :
    isSafeManifestPath path = fatPathValid 240 text := by
  rw [Bool.eq_iff_iff, fatPathValid_iff h (by decide), isSafeManifestPath, decide_eq_true_eq]
  rfl

/-- A path that is valid is ASCII. -/
theorem Spells.text_eq {path : Bytes} {text : Text} (h : Spells path text)
    (hvalid : fatPathValid 240 text = true) : text = path.map toChar := by
  apply h.ascii
  intro b hb
  by_contra hbig
  obtain ⟨c, hc, hcbig⟩ := h.other ⟨b, hb, by omega⟩
  have := List.all_eq_true.mp (fatPathValid_eq_true.mp hvalid).2.1 c hc
  simp only [decide_eq_true_eq] at this
  omega

end Layout

end BmxUpdate
