import BmxUpdate.ContentPlan

/-!
# Storage preflight

The arithmetic that decides whether an installation fits on the volume
(`storage_preflight.cpp`).  Byte counts are natural numbers; every addition of
the source that checks for overflow is a `checkedAdd` here.
-/

namespace BmxUpdate

def kMinimumUpdateSafetyReserveBytes : Nat := 16 * 1024 * 1024

def kDefaultMaximumStorageComponentBytes : Nat := 4 * 1024 * 1024 * 1024

def kDefaultMaximumUpdatePeakBytes : Nat := 16 * 1024 * 1024 * 1024

def kMaximumSupportedUpdateAllocationUnitBytes : Nat := 64 * 1024

def kUpdateStorageMetadataLogicalBytes : Nat := 1024 * 1024 + 1024

/-- `IsSupportedUpdateAllocationUnit`: a power of two up to the bound. -/
def isSupportedUpdateAllocationUnit (allocationUnitBytes : Nat) : Bool :=
  allocationUnitBytes ≠ 0 &&
    allocationUnitBytes ≤ kMaximumSupportedUpdateAllocationUnitBytes &&
    allocationUnitBytes &&& (allocationUnitBytes - 1) = 0

/-- `RoundUpUpdateAllocation` -/
def roundUpUpdateAllocation (logicalBytes allocationUnitBytes : Nat) : Option Nat :=
  if !isSupportedUpdateAllocationUnit allocationUnitBytes then none
  else if logicalBytes = 0 then some 0
  else
    checkedAdd logicalBytes
      (if logicalBytes % allocationUnitBytes = 0 then 0
        else allocationUnitBytes - logicalBytes % allocationUnitBytes)

/-- `CalculateUpdateMetadataAllocationBytes` -/
def calculateUpdateMetadataAllocationBytes
    (fileCount directoryCount allocationUnitBytes : Nat) : Option Nat := do
  let fixed ← roundUpUpdateAllocation kUpdateStorageMetadataLogicalBytes allocationUnitBytes
  let entries ← checkedAdd fileCount directoryCount
  let slack ← if entries * allocationUnitBytes < 2 ^ 64 then
    some (entries * allocationUnitBytes) else none
  checkedAdd fixed slack

/-- What an installation needs of the volume, part by part. -/
structure StorageDemand where
  zipDownloadBytes : Nat
  stagedFilesBytes : Nat
  snapshotBytes : Nat
  largestTemporaryFileBytes : Nat
  metadataJournalLogBytes : Nat
  safetyReserveBytes : Nat
  manifestRequiredPeakBytes : Nat
deriving DecidableEq

inductive StorageDecision where
  | sufficient
  | invalidLimits
  | invalidReserve
  | componentLimitExceeded
  | arithmeticOverflow
  | peakLimitExceeded
  | insufficientSpace
deriving DecidableEq, Repr

/-- The components `EvaluateStoragePreflight` bounds and adds up. -/
def StorageDemand.components (demand : StorageDemand) : List Nat :=
  [demand.zipDownloadBytes, demand.stagedFilesBytes, demand.snapshotBytes,
    demand.largestTemporaryFileBytes, demand.metadataJournalLogBytes,
    demand.safetyReserveBytes]

/-- `EvaluateStoragePreflight` under the default limits: the decision. -/
def evaluateStoragePreflight (availableBytes : Nat) (demand : StorageDemand) :
    StorageDecision :=
  if demand.safetyReserveBytes < kMinimumUpdateSafetyReserveBytes then .invalidReserve
  else if !demand.components.all (· ≤ kDefaultMaximumStorageComponentBytes) then
    .componentLimitExceeded
  else
    match demand.components.foldlM checkedAdd 0 with
    | none => .arithmeticOverflow
    | some calculated =>
        if kDefaultMaximumUpdatePeakBytes < max calculated demand.manifestRequiredPeakBytes then
          .peakLimitExceeded
        else if availableBytes < max calculated demand.manifestRequiredPeakBytes then
          .insufficientSpace
        else .sufficient

end BmxUpdate
