import BmxUpdate.Layout.Policy
import BmxUpdate.Release.PolicyTable

/-!
# The generated header

`render_header` (`generate_update_path_policy.py`) writes the policy as the tables of a C++
header, and `Header.table` is what the compiler reads there.  `renderHeader_table`: a policy of
ASCII texts comes back, text by text.
-/

namespace BmxUpdate

namespace Layout

open Wire Release

/-! ## Writing -/

/-- `value.replace(c, …)` -/
def replaceChar (c : Char) (new : Text) (value : Text) : Text :=
  value.flatMap fun other => if other = c then new else [other]

/-- `_cpp_string` -/
def cppString : Option Text → Text
  | none => ['0']
  | some value =>
      '"' :: replaceChar '"' ['\\', '"'] (replaceChar '\\' ['\\', '\\'] value) ++ ['"']

/-- A row of the table of rules. -/
structure HeaderRow where
  kind : RuleKind
  policy : RulePolicy
  root : Text
  value : Text
  suffix : Text

/-- The tables of the header, the strings as literals. -/
structure Header where
  fileRules : List HeaderRow
  directoryRoots : List Text
  machineKernelBases : List Text
  machineKernelMachines : List Text
  requiredKernelMachineCount : Nat
  machineKernelPolicy : RulePolicy

/-- `render_header` -/
def renderHeader (policy : UpdatePathPolicy) : Header where
  fileRules := policy.rules.map fun rule =>
    { kind := rule.kind
      policy := rule.policy.getD policy.kernelPolicy
      root := cppString rule.root
      value := cppString rule.value
      suffix := cppString rule.suffix }
  directoryRoots := policy.directoryRoots.map fun root => cppString (some root)
  machineKernelBases := policy.kernelBases.map fun base => cppString (some base)
  machineKernelMachines := policy.kernelMachines.map fun machine => cppString (some machine)
  requiredKernelMachineCount := policy.requiredKernelMachines.length
  machineKernelPolicy := policy.kernelPolicy

/-! ## Reading -/

/-- A string literal after its opening quote. -/
def readString : Text → Option Text
  | [] => none
  | '"' :: rest => if rest = [] then some [] else none
  | '\\' :: c :: rest => if c = '\\' ∨ c = '"' then (readString rest).map (c :: ·) else none
  | c :: rest => (readString rest).map (c :: ·)

/-- A null pointer or a string literal. -/
def readLiteral (text : Text) : Option (Option Text) :=
  match text with
  | '0' :: [] => some none
  | '"' :: rest => (readString rest).map some
  | _ => none

/-- `text.encode("ascii")` -/
def encodeAscii (text : Text) : Option Bytes :=
  if text.all (·.toNat < 0x80) then some (text.map fun c => UInt8.ofNat c.toNat) else none

/-- The pointer of a table. -/
def compilePointer (literal : Text) : Option (Option Bytes) := do
  let text ← readLiteral literal
  match text with
  | none => return none
  | some text => (encodeAscii text).map some

/-- A pointer that is not null. -/
def compileName (literal : Text) : Option Bytes := (compilePointer literal).join

def HeaderRow.compile (row : HeaderRow) : Option TableRule := do
  let root ← compilePointer row.root
  let value ← compilePointer row.value
  let suffix ← compilePointer row.suffix
  return { kind := row.kind, policy := row.policy, root, value, suffix }

/-- The tables as the compiler reads them. -/
def Header.table (header : Header) : Option PolicyTable := do
  let fileRules ← header.fileRules.mapM HeaderRow.compile
  let directoryRoots ← header.directoryRoots.mapM compileName
  let machineKernelBases ← header.machineKernelBases.mapM compileName
  let machineKernelMachines ← header.machineKernelMachines.mapM compileName
  return {
    fileRules, directoryRoots, machineKernelBases, machineKernelMachines
    requiredKernelMachineCount := header.requiredKernelMachineCount
    machineKernelPolicy := header.machineKernelPolicy }

/-! ## What comes back -/

def IsAscii (text : Text) : Prop := ∀ c ∈ text, c.toNat < 0x80

theorem encodeAscii_of_ascii {text : Text} (h : IsAscii text) :
    ∃ bytes, encodeAscii text = some bytes ∧ text = bytes.map toChar := by
  have hall : text.all (·.toNat < 0x80) = true := by
    rw [List.all_eq_true]
    intro c hc
    exact decide_eq_true (h c hc)
  refine ⟨_, if_pos hall, ?_⟩
  have hback : ∀ c ∈ text, toChar (UInt8.ofNat c.toNat) = c := by
    intro c hc
    have hsmall : (UInt8.ofNat c.toNat).toNat = c.toNat := by
      have := h c hc
      rw [UInt8.toNat_ofNat']
      omega
    rw [toChar, hsmall, Char.ofNat_toNat]
  rw [List.map_map]
  calc text = text.map id := (List.map_id text).symm
    _ = text.map (toChar ∘ fun c => UInt8.ofNat c.toNat) :=
        List.map_congr_left fun c hc => (hback c hc).symm

theorem readString_escaped (value : Text) :
    readString (replaceChar '"' ['\\', '"'] (replaceChar '\\' ['\\', '\\'] value) ++ ['"']) =
      some value := by
  induction value with
  | nil => rfl
  | cons c value ih =>
      by_cases hback : c = '\\'
      · subst hback
        have hstep : replaceChar '"' ['\\', '"'] (replaceChar '\\' ['\\', '\\'] ('\\' :: value)) =
            '\\' :: '\\' :: replaceChar '"' ['\\', '"'] (replaceChar '\\' ['\\', '\\'] value) := by
          simp [replaceChar]
        rw [hstep, List.cons_append, List.cons_append, readString, ih]
        simp
      · by_cases hquote : c = '"'
        · subst hquote
          have hstep : replaceChar '"' ['\\', '"'] (replaceChar '\\' ['\\', '\\'] ('"' :: value)) =
              '\\' :: '"' :: replaceChar '"' ['\\', '"'] (replaceChar '\\' ['\\', '\\'] value) := by
            simp [replaceChar]
          rw [hstep, List.cons_append, List.cons_append, readString, ih]
          simp
        · have hstep : replaceChar '"' ['\\', '"'] (replaceChar '\\' ['\\', '\\'] (c :: value)) =
              c :: replaceChar '"' ['\\', '"'] (replaceChar '\\' ['\\', '\\'] value) := by
            simp [replaceChar, hback, hquote]
          rw [hstep, List.cons_append, readString, ih]
          · rfl
          · exact hquote
          · intro _ _ h
            exact absurd h hback

/-- A pointer that the compiler reads, as the text it was written from. -/
def Denotes (text : Option Text) (pointer : Option Bytes) : Prop :=
  text = pointer.map (List.map toChar)

theorem compilePointer_cppString {text : Option Text} (h : ∀ t ∈ text, IsAscii t) :
    ∃ pointer, compilePointer (cppString text) = some pointer ∧ Denotes text pointer := by
  cases text with
  | none => exact ⟨none, rfl, rfl⟩
  | some value =>
      obtain ⟨bytes, hencode, hvalue⟩ := encodeAscii_of_ascii (h value rfl)
      refine ⟨some bytes, ?_, by rw [Denotes, hvalue]; rfl⟩
      have hread : readLiteral (cppString (some value)) = some (some value) := by
        rw [cppString, List.cons_append, readLiteral, readString_escaped]
        rfl
      simp [compilePointer, hread, hencode]

theorem compileName_cppString {text : Text} (h : IsAscii text) :
    ∃ bytes, compileName (cppString (some text)) = some bytes ∧ text = bytes.map toChar := by
  obtain ⟨pointer, hpointer, hdenotes⟩ := @compilePointer_cppString (some text) (by simpa using h)
  cases pointer with
  | none => cases hdenotes
  | some bytes => exact ⟨bytes, by rw [compileName, hpointer]; rfl, Option.some.inj hdenotes⟩

/-- A row of the table and the rule it was written from. -/
structure RowOf (policy : UpdatePathPolicy) (rule : CompiledRule) (row : TableRule) : Prop where
  kind : row.kind = rule.kind
  policy : row.policy = rule.policy.getD policy.kernelPolicy
  root : Denotes rule.root row.root
  value : Denotes rule.value row.value
  suffix : Denotes rule.suffix row.suffix

/-- The table and the policy it was written from. -/
structure TableOf (policy : UpdatePathPolicy) (table : PolicyTable) : Prop where
  fileRules : List.Forall₂ (RowOf policy) policy.rules table.fileRules
  directoryRoots : policy.directoryRoots = table.directoryRoots.map (List.map toChar)
  kernelBases : policy.kernelBases = table.machineKernelBases.map (List.map toChar)
  kernelMachines : policy.kernelMachines = table.machineKernelMachines.map (List.map toChar)
  kernelPolicy : table.machineKernelPolicy = policy.kernelPolicy

/-- Every text of a policy is ASCII. -/
structure AsciiPolicy (policy : UpdatePathPolicy) : Prop where
  rules : ∀ rule ∈ policy.rules, (∀ t ∈ rule.root, IsAscii t) ∧ (∀ t ∈ rule.value, IsAscii t) ∧
    ∀ t ∈ rule.suffix, IsAscii t
  directoryRoots : ∀ t ∈ policy.directoryRoots, IsAscii t
  kernelBases : ∀ t ∈ policy.kernelBases, IsAscii t
  kernelMachines : ∀ t ∈ policy.kernelMachines, IsAscii t

theorem compileNames {texts : List Text} (h : ∀ t ∈ texts, IsAscii t) :
    ∃ names, (texts.map fun t => cppString (some t)).mapM compileName = some names ∧
      texts = names.map (List.map toChar) := by
  induction texts with
  | nil => exact ⟨[], rfl, rfl⟩
  | cons text rest ih =>
      obtain ⟨name, hname, htext⟩ := compileName_cppString (h text (by simp))
      obtain ⟨names, hnames, hrest⟩ := ih fun t ht => h t (List.mem_cons_of_mem _ ht)
      refine ⟨name :: names, ?_, by rw [List.map_cons, ← htext, ← hrest]⟩
      rw [List.map_cons, List.mapM_cons, hname, hnames]
      rfl

/-- A header is read back as the policy it was written from. -/
theorem renderHeader_table {policy : UpdatePathPolicy} (h : AsciiPolicy policy) :
    ∃ table, (renderHeader policy).table = some table ∧ TableOf policy table := by
  have hrows : ∀ rules : List CompiledRule, (∀ rule ∈ rules, rule ∈ policy.rules) →
      ∃ rows, (rules.map fun rule => (⟨rule.kind, rule.policy.getD policy.kernelPolicy,
          cppString rule.root, cppString rule.value, cppString rule.suffix⟩ : HeaderRow)).mapM
            HeaderRow.compile = some rows ∧ List.Forall₂ (RowOf policy) rules rows := by
    intro rules hrules
    induction rules with
    | nil => exact ⟨[], rfl, .nil⟩
    | cons rule rest ih =>
        obtain ⟨rows, hrows, hof⟩ := ih fun r hr => hrules r (List.mem_cons_of_mem _ hr)
        obtain ⟨hroot, hvalue, hsuffix⟩ := h.rules rule (hrules rule (by simp))
        obtain ⟨root, hroot, hrootOf⟩ := compilePointer_cppString hroot
        obtain ⟨value, hvalue, hvalueOf⟩ := compilePointer_cppString hvalue
        obtain ⟨suffix, hsuffix, hsuffixOf⟩ := compilePointer_cppString hsuffix
        refine ⟨⟨rule.kind, rule.policy.getD policy.kernelPolicy, root, value, suffix⟩ :: rows, ?_,
          .cons ⟨rfl, rfl, hrootOf, hvalueOf, hsuffixOf⟩ hof⟩
        rw [List.map_cons, List.mapM_cons, hrows]
        simp [HeaderRow.compile, hroot, hvalue, hsuffix]
  obtain ⟨rows, hcompile, hof⟩ := hrows policy.rules fun _ h => h
  obtain ⟨roots, hroots, hrootsOf⟩ := compileNames h.directoryRoots
  obtain ⟨bases, hbases, hbasesOf⟩ := compileNames h.kernelBases
  obtain ⟨machines, hmachines, hmachinesOf⟩ := compileNames h.kernelMachines
  refine ⟨⟨rows, roots, bases, machines, policy.requiredKernelMachines.length,
    policy.kernelPolicy⟩, ?_, hof, hrootsOf, hbasesOf, hmachinesOf, rfl⟩
  simp [Header.table, renderHeader, hcompile, hroots, hbases, hmachines]

end Layout

end BmxUpdate
