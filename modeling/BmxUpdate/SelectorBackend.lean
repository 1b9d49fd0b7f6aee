import BmxUpdate.Installer.Basic

/-!
# The selector candidate backend

`SelectorCandidateBackend` (`selector_candidate_backend.cpp`), the one candidate
backend the updater is built with.  Two small text files name the kernel to
boot: the active selector for a normal boot, the candidate selector for the
one-shot boot of a candidate.  Arming copies the staged kernel to a temporary
`<kernel>.bmx-next` and makes the candidate selector name it; committing makes
both selectors name the stable kernel and deletes the temporary one; disarming
deletes it and makes the candidate selector name the active kernel.

A selector is bytes, so kernel names are byte strings here and become a path
only where a file is meant.
-/

namespace BmxUpdate

open Crash Volumes Wire

/-! ## Kernel names -/

/-- The path of a kernel in the root of the volume. -/
def kernelPath (kernel : Bytes) : Path :=
  [String.ofList (kernel.map fun b => Char.ofNat b.toNat)]

/-- The first `kRequiredKernelMachineCount` entries of `kMachineKernelMachines`. -/
def kernelMachines : List Bytes :=
  ["c64", "c64sc", "scpu64", "c128", "vic20", "plus4", "pet"].map bytesOf

/-- `KernelBase` -/
def kernelBase : BoardFamily → Option Bytes
  | .unknown => none
  | .pi4Pi400 => some (bytesOf "kernel7l.img")
  | .pi5Pi500 => some (bytesOf "kernel_2712.img")

/-- The full stop. -/
def dot : UInt8 := 46

/-- The name of a machine's stable kernel. -/
def stableKernel (base machine : Bytes) : Bytes := base ++ dot :: machine

/-- The suffix of a temporary kernel. -/
def candidateSuffix : Bytes := bytesOf ".bmx-next"

/-! ## Selectors -/

def kMaximumKernelSelectorBytes : Nat := 128

/-- The first line of a selector: "# BMX-KERNEL-SELECTOR-V2". -/
def selectorHeader : Bytes := bytesOf "# BMX-KERNEL-SELECTOR-V2\n"

/-- What the second line begins with. -/
def selectorDirective : Bytes := bytesOf "kernel="

/-- The newline that ends a selector. -/
def newline : UInt8 := 10

/-- A byte the second line of a selector may hold. -/
def isSelectorByte (b : UInt8) : Bool :=
  0x21 ≤ b && b ≤ 0x7e && b ∉ bytesOf "\\:/"

/-- The selector `PublishSelector` writes for a kernel. -/
def selectorContent (kernel : Bytes) : Content :=
  selectorHeader ++ (selectorDirective ++ (kernel ++ [newline]))

/-- The kernel a selector names. -/
structure ParsedKernelSelector where
  kernelPath : Bytes
  manifestKernelPath : Bytes
  machine : Bytes
  candidate : Bool
deriving DecidableEq

inductive KernelSelectorStatus where
  | invalidArgument
  | invalidFormat
  | boardMismatch
deriving DecidableEq, Repr

/-- The part of `ParseKernelSelector` after the kernel's base name. -/
def parseKernelSuffix (base kernel : Bytes) :
    Except KernelSelectorStatus ParsedKernelSelector :=
  let suffix := kernel.drop (base.length + 1)
  let candidate : Bool := candidateSuffix.length < suffix.length ∧
    suffix.drop (suffix.length - candidateSuffix.length) = candidateSuffix
  let machine :=
    if candidate then suffix.take (suffix.length - candidateSuffix.length) else suffix
  if machine = [] ∨ 16 ≤ machine.length ∨ dot ∈ machine then .error .invalidFormat
  else if machine ∉ kernelMachines then .error .invalidFormat
  else .ok ⟨kernel, stableKernel base machine, machine, candidate⟩

/-- `ParseKernelSelector` -/
def parseKernelSelector (bytes : Content) (board : BoardFamily) :
    Except KernelSelectorStatus ParsedKernelSelector :=
  let lead := selectorHeader ++ selectorDirective
  if bytes = [] ∨ kMaximumKernelSelectorBytes ≤ bytes.length then .error .invalidArgument
  else
    match kernelBase board with
    | none => .error .boardMismatch
    | some base =>
        let kernel := (bytes.drop lead.length).dropLast
        if bytes.length < lead.length + base.length + 2 ∨ bytes.take lead.length ≠ lead ∨
            bytes.getLast? ≠ some newline then .error .invalidFormat
        else if !(bytes.drop selectorHeader.length).dropLast.all isSelectorByte then
          .error .invalidFormat
        else if kernel = [] ∨ kMaximumKernelSelectorBytes ≤ kernel.length then
          .error .invalidFormat
        else if kernel.take (base.length + 1) ≠ base ++ [dot] then
          .error .boardMismatch
        else parseKernelSuffix base kernel

/-- `ValidateKernelSelectorAgainstAsset` returns `Ok`. -/
def validateKernelSelectorAgainstAsset (selector : ParsedKernelSelector)
    (asset : ManifestAsset) (expectedReleaseSequence : UInt64) : Bool :=
  isKnownBoardFamily asset.board && expectedReleaseSequence ≠ 0 &&
    asset.files.countP (fun file => file.policy = .kernel &&
      file.path = kernelPath selector.manifestKernelPath) = 1

/-- The checks `SafeSelectorPath` makes of one component. -/
def selectorComponentSafe (component : List Char) : Bool :=
  component ≠ [] && component ≠ ['.'] && component ≠ ['.', '.'] &&
    component.all fun c => '!' ≤ c && c ≤ '~' && c ∉ ['\\', ':', '/']

/-- `SafeSelectorPath` -/
def safeSelectorPath (path : Path) : Bool :=
  path ≠ [] && pathBytes path < kInstallerMaximumPathBytes &&
    path.all fun name => selectorComponentSafe name.toList

/-! ## What the parser accepts -/

/-- What an accepted selector names: the stable kernel of a known machine or, for
a candidate, that kernel with the temporary suffix. -/
structure ParsedKernelSelector.Names (selector : ParsedKernelSelector) (board : BoardFamily) :
    Prop where
  base : ∃ base, kernelBase board = some base ∧
    selector.manifestKernelPath = stableKernel base selector.machine
  machine : selector.machine ∈ kernelMachines
  kernelPath : selector.kernelPath =
    selector.manifestKernelPath ++ (if selector.candidate then candidateSuffix else [])

theorem parseKernelSuffix_eq_ok {base kernel : Bytes} {selector : ParsedKernelSelector}
    {board : BoardFamily} (hbase : kernelBase board = some base)
    (hkernel : kernel.take (base.length + 1) = base ++ [dot])
    (h : parseKernelSuffix base kernel = .ok selector) :
    selector.kernelPath = kernel ∧ selector.Names board := by
  have hsplit : kernel = base ++ dot :: kernel.drop (base.length + 1) := by
    conv_lhs => rw [← List.take_append_drop (base.length + 1) kernel, hkernel]
    simp
  unfold parseKernelSuffix at h
  dsimp only at h
  generalize kernel.drop (base.length + 1) = suffix at h hsplit
  generalize hcandidate : decide (candidateSuffix.length < suffix.length ∧
    suffix.drop (suffix.length - candidateSuffix.length) = candidateSuffix) = candidate at h
  generalize hmachine : (if candidate = true then
    suffix.take (suffix.length - candidateSuffix.length) else suffix) = machine at h
  split_ifs at h with _ hknown
  cases h
  refine ⟨rfl, ⟨base, hbase, rfl⟩, hknown, ?_⟩
  cases candidate with
  | true =>
      rw [if_pos rfl] at hmachine
      have hsuffix := (decide_eq_true_iff.mp hcandidate).2
      calc kernel = base ++ dot :: suffix := hsplit
        _ = base ++ dot :: (suffix.take (suffix.length - candidateSuffix.length) ++
            suffix.drop (suffix.length - candidateSuffix.length)) := by
            rw [List.take_append_drop]
        _ = stableKernel base machine ++ candidateSuffix := by
            rw [hsuffix, hmachine]
            simp [stableKernel]
  | false =>
      rw [if_neg (by simp)] at hmachine
      rw [hsplit, hmachine]
      simp [stableKernel]

theorem parseKernelSelector_eq_ok {bytes : Content} {board : BoardFamily}
    {selector : ParsedKernelSelector} (h : parseKernelSelector bytes board = .ok selector) :
    bytes = selectorContent selector.kernelPath ∧ selector.Names board := by
  unfold parseKernelSelector at h
  dsimp only at h
  split at h
  · cases h
  split at h
  · cases h
  rename_i base hbase
  split at h
  · cases h
  rename_i hformat
  split at h
  · cases h
  split at h
  · cases h
  rename_i hkernel
  split at h
  · cases h
  rename_i htake
  push Not at hformat hkernel htake
  obtain ⟨hpath, hnames⟩ := parseKernelSuffix_eq_ok hbase htake h
  refine ⟨?_, hnames⟩
  rw [hpath]
  have hrest : bytes.drop (selectorHeader ++ selectorDirective).length ≠ [] := by
    intro hnil
    rw [hnil] at hkernel
    exact hkernel.1 rfl
  have hlast : (bytes.drop (selectorHeader ++ selectorDirective).length).getLast hrest =
      newline := by
    have := hformat.2.2
    rw [← List.take_append_drop (selectorHeader ++ selectorDirective).length bytes,
      List.getLast?_append_of_ne_nil _ hrest, List.getLast?_eq_some_getLast hrest] at this
    exact Option.some.inj this
  calc bytes = bytes.take (selectorHeader ++ selectorDirective).length ++
        bytes.drop (selectorHeader ++ selectorDirective).length :=
        (List.take_append_drop _ _).symm
    _ = (selectorHeader ++ selectorDirective) ++
        ((bytes.drop (selectorHeader ++ selectorDirective).length).dropLast ++ [newline]) := by
        rw [hformat.2.1, ← hlast, List.dropLast_append_getLast]
    _ = selectorContent (bytes.drop (selectorHeader ++ selectorDirective).length).dropLast := by
        simp [selectorContent]

/-- The stable kernels of a board are names that its selectors are read as. -/
theorem stableKernel_facts : ∀ board, ∀ base ∈ kernelBase board, ∀ machine ∈ kernelMachines,
    parseKernelSelector (selectorContent (stableKernel base machine)) board =
        .ok ⟨stableKernel base machine, stableKernel base machine, machine, false⟩ ∧
      newline ∉ stableKernel base machine := by
  intro board
  cases board <;> decide

/-- The selector of a stable kernel is accepted. -/
theorem parseKernelSelector_stable {board : BoardFamily} {base machine : Bytes}
    (hbase : kernelBase board = some base) (hmachine : machine ∈ kernelMachines) :
    parseKernelSelector (selectorContent (stableKernel base machine)) board =
      .ok ⟨stableKernel base machine, stableKernel base machine, machine, false⟩ :=
  (stableKernel_facts board base hbase machine hmachine).1

theorem newline_not_mem_stableKernel {board : BoardFamily} {base machine : Bytes}
    (hbase : kernelBase board = some base) (hmachine : machine ∈ kernelMachines) :
    newline ∉ stableKernel base machine :=
  (stableKernel_facts board base hbase machine hmachine).2

/-! ## The backend -/

structure SelectorCandidatePlatformReadiness where
  oneShotBootValidated : Bool
  fallbackKernelValidated : Bool
  selectorReplaceValidated : Bool
deriving DecidableEq

/-- `SelectorCandidateBackend`; the file system is the volume its calls run on,
and of it the backend keeps only the hash function and the capabilities. -/
structure SelectorCandidateBackend where
  sha256 : Content → Digest
  durability : Option UpdateDurabilityCapabilities
  platform : SelectorCandidatePlatformReadiness
  activeSelector : Path
  candidateSelector : Path

/-- A call of the backend. -/
abbrev BackendProc (α : Type) := FsProc Unit α

/-- `ReadSmallFile` -/
def readSmallFile (path : Path) : BackendProc Content := do
  let found ← stat path
  Proc.check (found.type = .regularFile ∧ found.size ≠ 0 ∧
    found.size ≤ kMaximumKernelSelectorBytes) ()
  let content ← readFile path
  return content

/-- The write of `PublishSelector` once its temporary file is created. -/
def publishSelectorFile (temporary path : Path) (content : Content) : BackendProc Unit := do
  write temporary content
  barrier
  barrier
  rename temporary path true
  syncContainingDirectory path

/-- `PublishSelector` -/
def publishSelector (path : Path) (kernel : Bytes) : BackendProc Unit := do
  Proc.check (safeSelectorPath path = true ∧ safeSelectorPath (kernelPath kernel) = true) ()
  Proc.check ((selectorContent kernel).length < kMaximumKernelSelectorBytes) ()
  let temporary := addSuffix path ".next"
  removeFile temporary
  createFileFresh temporary
  withCleanup (publishSelectorFile temporary path (selectorContent kernel))
    (removeFile temporary)

/-- `RemoveCandidateKernel` -/
def removeCandidateKernel (selector : ParsedKernelSelector) : BackendProc Unit :=
  Proc.when (selector.candidate = true) do
    removeFile (kernelPath selector.kernelPath)
    syncContainingDirectory (kernelPath selector.kernelPath)

/-- `ReadAndValidate` -/
def readAndValidate (path : Path) (context : CandidateContext) (expectedSequence : UInt64) :
    BackendProc ParsedKernelSelector := do
  Proc.check (context.asset.board = context.board) ()
  let bytes ← readSmallFile path
  match parseKernelSelector bytes context.board with
  | .error _ => Proc.throw ()
  | .ok selector => do
      -- Only a target release is bound to the manifest, which names target files.
      Proc.check (expectedSequence = context.targetReleaseSequence →
        validateKernelSelectorAgainstAsset selector context.asset expectedSequence = true) ()
      return selector

/-- The part of `DisarmCandidate` that removes the kernel a selector names: one
that cannot be read or parsed names nothing to remove. -/
def removeNamedKernel (path : Path) (context : CandidateContext) : BackendProc Unit := do
  match ← Proc.attempt (η := Unit) (readSmallFile path) with
  | .error () => return ()
  | .ok bytes =>
      match parseKernelSelector bytes context.board with
      | .error _ => return ()
      | .ok candidate => removeCandidateKernel candidate

namespace SelectorCandidateBackend

variable (backend : SelectorCandidateBackend)

/-- `PathsValid` -/
def pathsValid : Bool :=
  safeSelectorPath backend.activeSelector && safeSelectorPath backend.candidateSelector &&
    backend.activeSelector ≠ backend.candidateSelector

/-- `Supported` -/
def supported : Bool :=
  backend.pathsValid && backend.platform.oneShotBootValidated &&
    backend.platform.fallbackKernelValidated && backend.platform.selectorReplaceValidated &&
    durabilitySufficient backend.durability

/-- `VerifyFileDigest` -/
def verifyFileDigest (path : Path) (expected : ManifestFile) : BackendProc Unit := do
  let found ← stat path
  Proc.check (found.type = .regularFile ∧ found.size = expected.size.toNat) ()
  let content ← readFile path
  Proc.check (backend.sha256 content = expected.sha256) ()

/-- The copy loop of `CopyAndVerify`. -/
def fillCopy (content : Content) (target : Path) (expected : ManifestFile) :
    BackendProc Unit := do
  write target content
  Proc.check (backend.sha256 content = expected.sha256) ()
  barrier
  barrier
  syncContainingDirectory target

/-- `CopyAndVerify` -/
def copyAndVerify (source target : Path) (expected : ManifestFile) : BackendProc Unit := do
  let found ← stat source
  Proc.check (found.type = .regularFile ∧ found.size = expected.size.toNat) ()
  removeFile target
  let content ← readFile source
  createFileFresh target
  withCleanup (backend.fillCopy content target expected) (removeFile target)

/-- `PrepareCandidateKernel`: the kernel the candidate selector is to name, and
whether it is a temporary copy. -/
def prepareCandidateKernel (context : CandidateContext) (active : ParsedKernelSelector) :
    BackendProc (Bytes × Bool) := do
  match context.asset.files.filter fun file => file.policy = .kernel &&
      file.path = kernelPath active.manifestKernelPath with
  | [kernel] => do
      let staged := context.stagingRoot ++ kernel.path
      let found ← stat staged
      match found.type with
      | .missing => do
          backend.verifyFileDigest kernel.path kernel
          return (active.manifestKernelPath, false)
      | .directory => Proc.throw ()
      | .regularFile => do
          let candidate := active.manifestKernelPath ++ candidateSuffix
          Proc.check (candidate.length < kMaximumKernelSelectorBytes) ()
          backend.copyAndVerify staged (kernelPath candidate) kernel
          return (candidate, true)
  | _ => Proc.throw ()

/-- `ArmCandidate` -/
def armCandidate (context : CandidateContext) : BackendProc Unit := do
  Proc.check (backend.supported = true) ()
  let active ← readAndValidate backend.activeSelector context
    context.sourceReleaseSequence
  Proc.check (active.candidate = false) ()
  let prepared ← backend.prepareCandidateKernel context active
  withCleanup (publishSelector backend.candidateSelector prepared.1)
    (Proc.when (prepared.2 = true) (removeFile (kernelPath prepared.1)))
  let candidate ← readAndValidate backend.candidateSelector context
    context.targetReleaseSequence
  Proc.check (active.machine = candidate.machine) ()

/-- `CommitCandidate` -/
def commitCandidate (context : CandidateContext) : BackendProc Unit := do
  Proc.check (backend.supported = true) ()
  let candidate ← readAndValidate backend.candidateSelector context
    context.targetReleaseSequence
  publishSelector backend.activeSelector candidate.manifestKernelPath
  publishSelector backend.candidateSelector candidate.manifestKernelPath
  removeCandidateKernel candidate
  let committed ← readAndValidate backend.activeSelector context
    context.targetReleaseSequence
  Proc.check (committed.candidate = false ∧
    committed.kernelPath = candidate.manifestKernelPath) ()

/-- `DisarmCandidate` -/
def disarmCandidate (context : CandidateContext) : BackendProc Unit := do
  Proc.check (backend.supported = true) ()
  let active ← readAndValidate backend.activeSelector context
    context.sourceReleaseSequence
  Proc.check (active.candidate = false) ()
  removeNamedKernel backend.candidateSelector context
  publishSelector backend.candidateSelector active.kernelPath

/-- The backend as the installer calls it. -/
def candidateBackend : CandidateBackend where
  supported := backend.supported
  armCandidate := backend.armCandidate
  commitCandidate := backend.commitCandidate
  disarmCandidate := backend.disarmCandidate

end SelectorCandidateBackend

end BmxUpdate
