import BmxUpdate.Manifest
import BmxUpdate.FatPathPolicy
import BmxUpdate.Library.Http

/-!
# The path policy

The generated table `update_path_policy_v1.h` and what `release_manifest.cpp`
reads from it: the policy of a file, the directories an update may have, and the
machine of a kernel.
-/

namespace BmxUpdate

namespace Release

open Wire Http

inductive RuleKind where
  | exactPath | topRoot | basenameExact | basenamePrefixSuffix | basenameSuffix | machineKernel
deriving DecidableEq, Repr

inductive RulePolicy where
  | configTemplate | kernel | managedReplace | metadata | preserve
deriving DecidableEq, Repr

/-- A rule; a text that its kind does not use is empty. -/
structure Rule where
  kind : RuleKind
  policy : RulePolicy
  root : Option String
  value : String
  suffix : String
deriving DecidableEq, Repr

def kFileRules : List Rule :=
  [⟨.machineKernel, .kernel, none, "", ""⟩,
   ⟨.exactPath, .metadata, none, "BMX-BUILD.json", ""⟩,
   ⟨.exactPath, .metadata, none, "BUILD-PROFILE.txt", ""⟩,
   ⟨.exactPath, .metadata, none, "MISSING-ROMS.txt", ""⟩,
   ⟨.exactPath, .metadata, none, "UART-DEBUG.txt", ""⟩,
   ⟨.exactPath, .managedReplace, none, "armstub7-rpi4.bin", ""⟩,
   ⟨.exactPath, .configTemplate, none, "autoboot.txt", ""⟩,
   ⟨.exactPath, .configTemplate, none, "bmx-active-kernel.txt", ""⟩,
   ⟨.exactPath, .configTemplate, none, "bmx-machine.txt", ""⟩,
   ⟨.exactPath, .preserve, none, "bmx-recovery-pi4.img", ""⟩,
   ⟨.exactPath, .preserve, none, "bmx-recovery-pi5.img", ""⟩,
   ⟨.exactPath, .configTemplate, none, "bmx-tryboot-kernel.txt", ""⟩,
   ⟨.exactPath, .configTemplate, none, "cmdline.txt", ""⟩,
   ⟨.exactPath, .configTemplate, none, "config.txt", ""⟩,
   ⟨.exactPath, .managedReplace, none, "fixup4.dat", ""⟩,
   ⟨.exactPath, .configTemplate, none, "machines.defaults.ini", ""⟩,
   ⟨.exactPath, .configTemplate, none, "machines.ini", ""⟩,
   ⟨.exactPath, .preserve, none, "machines.local.ini", ""⟩,
   ⟨.exactPath, .configTemplate, none, "machines.txt", ""⟩,
   ⟨.exactPath, .managedReplace, none, "modem/hayes_dial.wav", ""⟩,
   ⟨.exactPath, .managedReplace, none, "modem/hayes_long_connect.wav", ""⟩,
   ⟨.exactPath, .managedReplace, none, "modem/hayes_short_connect.wav", ""⟩,
   ⟨.exactPath, .managedReplace, none, "start4.elf", ""⟩,
   ⟨.exactPath, .configTemplate, none, "tryboot.txt", ""⟩,
   ⟨.exactPath, .preserve, none, "wpa_supplicant.conf", ""⟩,
   ⟨.basenameExact, .preserve, none, "ROMS.txt", ""⟩,
   ⟨.basenameExact, .preserve, none, "bootstat.txt", ""⟩,
   ⟨.basenamePrefixSuffix, .managedReplace, none, "bcm2711-", ".dtb"⟩,
   ⟨.basenamePrefixSuffix, .managedReplace, none, "bcm2712-", ".dtb"⟩,
   ⟨.basenamePrefixSuffix, .managedReplace, none, "bcm2712d0-", ".dtb"⟩,
   ⟨.basenamePrefixSuffix, .preserve, none, "settings", ".txt"⟩,
   ⟨.basenamePrefixSuffix, .managedReplace, some "firmware", "brcmfmac", ".bin"⟩,
   ⟨.basenamePrefixSuffix, .managedReplace, some "firmware", "brcmfmac", ".clm_blob"⟩,
   ⟨.basenamePrefixSuffix, .managedReplace, some "firmware", "brcmfmac", ".txt"⟩,
   ⟨.basenamePrefixSuffix, .managedReplace, some "intro", "bmx-intro-v", ".dat"⟩,
   ⟨.basenameSuffix, .managedReplace, some "c128", "", ".vkm"⟩,
   ⟨.basenameSuffix, .managedReplace, some "c64", "", ".vkm"⟩,
   ⟨.basenameSuffix, .managedReplace, some "overlays", "", ".dtbo"⟩,
   ⟨.basenameSuffix, .managedReplace, some "pet", "", ".vkm"⟩,
   ⟨.basenameSuffix, .managedReplace, some "plus4", "", ".vkm"⟩,
   ⟨.basenameSuffix, .managedReplace, some "scpu64", "", ".vkm"⟩,
   ⟨.basenameSuffix, .managedReplace, some "utils", "", ".d64"⟩,
   ⟨.basenameSuffix, .managedReplace, some "utils", "", ".txt"⟩,
   ⟨.basenameSuffix, .managedReplace, some "vic20", "", ".vkm"⟩,
   ⟨.topRoot, .preserve, some "c128", "", ""⟩,
   ⟨.topRoot, .preserve, some "c64", "", ""⟩,
   ⟨.topRoot, .preserve, some "carts", "", ""⟩,
   ⟨.topRoot, .preserve, some "disks", "", ""⟩,
   ⟨.topRoot, .preserve, some "drives", "", ""⟩,
   ⟨.topRoot, .metadata, some "licenses", "", ""⟩,
   ⟨.topRoot, .preserve, some "pet", "", ""⟩,
   ⟨.topRoot, .preserve, some "phonebooks", "", ""⟩,
   ⟨.topRoot, .preserve, some "plus4", "", ""⟩,
   ⟨.topRoot, .preserve, some "scpu64", "", ""⟩,
   ⟨.topRoot, .preserve, some "snapshots", "", ""⟩,
   ⟨.topRoot, .preserve, some "tapes", "", ""⟩,
   ⟨.topRoot, .preserve, some "vic20", "", ""⟩]

def kDirectoryRoots : List String :=
  ["c128", "c64", "carts", "disks", "drives", "firmware", "intro", "licenses", "modem", "overlays",
   "pet", "phonebooks", "plus4", "scpu64", "snapshots", "tapes", "utils", "vic20"]

def kMachineKernelBases : List String := ["kernel7l.img", "kernel_2712.img"]

def kMachineKernelMachines : List String :=
  ["c64", "c64sc", "scpu64", "c128", "vic20", "plus4", "pet", "updater", "intro"]

def kRequiredKernelMachineCount : Nat := 7

def kMachineKernelPolicy : RulePolicy := .kernel

/-! ## Paths -/

/-- `Basename` -/
def basename (path : Bytes) : Bytes := (path.reverse.takeWhile (· ≠ 0x2f)).reverse

/-- `TopEquals` -/
def topEquals (path : Bytes) (expected : String) : Bool :=
  path.takeWhile (· ≠ 0x2f) = bytesOf expected

/-- `EndsWith` -/
def endsWith (value : Bytes) (suffix : String) : Bool := (bytesOf suffix).isSuffixOf value

/-- `StartsWith` -/
def startsWith (value : Bytes) (start : String) : Bool := (bytesOf start).isPrefixOf value

/-- `ParseMachineKernelSuffix`, with the index of the machine instead of its bit. -/
def parseMachineKernelSuffix (suffix : Bytes) : Option Nat :=
  if suffix = [] ∨ 0x2e ∈ suffix then none
  else kMachineKernelMachines.findIdx? fun machine => bytesOf machine = suffix

/-- What follows a kernel base and a point. -/
def kernelSuffix (base : String) (path : Bytes) : Option Bytes :=
  if (bytesOf base ++ [0x2e]).isPrefixOf path then some (path.drop ((bytesOf base).length + 1))
  else none

/-- `ConvertPolicy` -/
def convertPolicy : RulePolicy → ManifestFilePolicy
  | .configTemplate => .configTemplate
  | .managedReplace => .managedReplace
  | .metadata => .metadata
  | .preserve => .preserve
  | .kernel => .kernel

/-- Whether a rule applies to a path. -/
def Rule.applies (rule : Rule) (path : Bytes) : Bool :=
  match rule.kind with
  | .machineKernel =>
      kMachineKernelBases.any fun base =>
        ((kernelSuffix base path).bind parseMachineKernelSuffix).isSome
  | kind =>
      rule.root.all (topEquals path) &&
        match kind with
        | .exactPath => path = bytesOf rule.value
        | .topRoot => true
        | .basenameExact => basename path = bytesOf rule.value
        | .basenamePrefixSuffix =>
            startsWith (basename path) rule.value && endsWith (basename path) rule.suffix
        | .basenameSuffix => endsWith (basename path) rule.suffix
        | .machineKernel => false

/-- The policy a rule gives to the paths it applies to. -/
def Rule.filePolicy (rule : Rule) : ManifestFilePolicy :=
  convertPolicy (if rule.kind = .machineKernel then kMachineKernelPolicy else rule.policy)

/-- `ClassifyKnownPath`: the first rule that applies. -/
def classifyKnownPath (path : Bytes) : Option ManifestFilePolicy :=
  (kFileRules.find? (·.applies path)).map Rule.filePolicy

/-- `IsAllowedUpdateDirectory` -/
def isAllowedUpdateDirectory (path : Bytes) : Bool := kDirectoryRoots.any (topEquals path)

/-- `IsSafeManifestPath` -/
def isSafeManifestPath (path : Bytes) : Bool :=
  FatPath.validateFatRelativePathBytes path kMaximumManifestPathBytes = .ok

end Release

end BmxUpdate
