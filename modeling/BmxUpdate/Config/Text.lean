import BmxUpdate.UpdateTypes
import BmxUpdate.Library.Http

/-!
# The text of configuration files

The scanning functions of `config_migration.cpp` that the detectors share: lines,
identifiers, decimal versions, schema headers and key-value lines.  A slice is the
list of its bytes.
-/

namespace BmxUpdate

namespace Config

open Wire Http

def kMaximumConfigLineBytes : Nat := 4096

def isBlank (value : UInt8) : Bool := value = 0x20 || value = 0x09

/-- `TrimAscii` -/
def trimAscii (input : Bytes) : Bytes :=
  ((input.dropWhile isBlank).reverse.dropWhile isBlank).reverse

/-- `IsIdentifierByte` -/
def isIdentifierByte (value : UInt8) : Bool :=
  (0x61 ≤ value && value ≤ 0x7a) || (0x41 ≤ value && value ≤ 0x5a) ||
    (0x30 ≤ value && value ≤ 0x39) || value = 0x5f || value = 0x2d || value = 0x2e || value = 0x3a

/-- `IsIdentifier` -/
def isIdentifier (value : Bytes) : Bool :=
  value ≠ [] && value.length ≤ 64 && value.all isIdentifierByte

/-- The loop of `ParsePositiveDecimal`. -/
def decimalValue : Nat → Bytes → Option Nat
  | result, [] => some result
  | result, value :: rest =>
      if value < 0x30 ∨ 0x39 < value then none
      else if (2 ^ 32 - 1 - (value.toNat - 0x30)) / 10 < result then none
      else decimalValue (result * 10 + (value.toNat - 0x30)) rest

/-- `ParsePositiveDecimal` -/
def parsePositiveDecimal (value : Bytes) : Option Nat := do
  if value = [] ∨ 10 < value.length then none
  else
    let result ← decimalValue 0 value
    if result = 0 then none else some result

/-- `IsSafeText` -/
def isSafeText (content : Bytes) : Bool :=
  content.length ≤ kMaximumConfigFileBytes &&
    content.all fun value =>
      value = 0x0a || value = 0x0d || value = 0x09 || (0x20 ≤ value && value ≤ 0x7e)

/-- What the calls of `NextLine` return one after the other, with the line that has
begun: `none` is the corrupt line that ends the text. -/
def textLinesFrom : Bytes → Bytes → List (Option Bytes)
  | line, [] => if line = [] then [] else [some line]
  | line, 0x0a :: rest => some line :: textLinesFrom [] rest
  | line, 0x0d :: 0x0a :: rest => some line :: textLinesFrom [] rest
  | line, value :: rest =>
      if value = 0x0d then [none]
      else if kMaximumConfigLineBytes < line.length + 1 then [none]
      else textLinesFrom (line ++ [value]) rest

def textLines (content : Bytes) : List (Option Bytes) := textLinesFrom [] content

/-- `AreaIdentifier` -/
def areaIdentifier : ConfigArea → Bytes
  | .machines => bytesOf "machines"
  | .configManagedBlock => bytesOf "config_managed_block"
  | .cmdlineManagedKeys => bytesOf "cmdline_managed"
  | .network => bytesOf "network"
  | .settings => bytesOf "settings"
  | .updateState => bytesOf "update_state"
  | .unknown => bytesOf "unknown"

/-- A line split at its first `=`; there must be a byte before it. -/
def splitAtEquals (line : Bytes) : Option (Bytes × Bytes) :=
  let left := line.takeWhile (· ≠ 0x3d)
  if left = [] ∨ left.length = line.length then none
  else some (left, line.drop (left.length + 1))

inductive HeaderStatus where
  | notHeader
  | valid (version : Nat)
  | malformed
deriving DecidableEq, Repr

/-- `ParseTextSchemaHeader` -/
def parseTextSchemaHeader (trimmed : Bytes) (expectedArea : ConfigArea) : HeaderStatus :=
  if (bytesOf "# BMX-SCHEMA").isPrefixOf trimmed = false then .notHeader
  else if (bytesOf "# BMX-SCHEMA ").isPrefixOf trimmed = false then .malformed
  else
    match splitAtEquals (trimmed.drop (bytesOf "# BMX-SCHEMA ").length) with
    | none => .malformed
    | some (identifier, encodedVersion) =>
        if identifier ≠ areaIdentifier expectedArea then .malformed
        else
          match parsePositiveDecimal encodedVersion with
          | none => .malformed
          | some version => .valid version

/-- `SplitSettingsKeyValue`: the value may be empty. -/
def splitSettingsKeyValue (line : Bytes) : Option (Bytes × Bytes) := do
  let (left, right) ← splitAtEquals line
  if isIdentifier (trimAscii left) then some (trimAscii left, trimAscii right) else none

/-- `SplitKeyValue` -/
def splitKeyValue (line : Bytes) : Option (Bytes × Bytes) := do
  let (left, right) ← splitAtEquals line
  if isIdentifier (trimAscii left) ∧ trimAscii right ≠ [] then
    some (trimAscii left, trimAscii right)
  else none

end Config

end BmxUpdate
