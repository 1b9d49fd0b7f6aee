import BmxUpdate.Journal
import BmxUpdate.Json.Access
import BmxUpdate.UpdateTypes

/-!
# Installed build information

`ParseBuildInfo` (`build_info.cpp`): the closed JSON object of `BMX-BUILD.json`.
-/

namespace BmxUpdate

namespace Release

open Wire Http Json

structure InstalledSchemaVersion where
  area : ConfigArea
  version : Nat
deriving DecidableEq, Repr

structure InstalledBuildInfo where
  version : Bytes
  releaseSequence : Nat
  releaseEpoch : Nat
  board : BoardFamily
  sourceCommit : Bytes
  updaterAbi : Nat
  schemas : List InstalledSchemaVersion
deriving DecidableEq, Repr

inductive BuildInfoStatus where
  | invalidArgument | invalidSize | jsonInvalid | unsupportedVersion | fieldsInvalid
  | unsupportedSchema | storageTooSmall
deriving DecidableEq, Repr

/-- `AreaFromToken` -/
def areaFromToken (json : Bytes) (token : JsonToken) : ConfigArea :=
  if jsonStringEquals json token (bytesOf "machines") then .machines
  else if jsonStringEquals json token (bytesOf "config_managed_block") then .configManagedBlock
  else if jsonStringEquals json token (bytesOf "cmdline_managed") then .cmdlineManagedKeys
  else if jsonStringEquals json token (bytesOf "network") then .network
  else if jsonStringEquals json token (bytesOf "settings") then .settings
  else if jsonStringEquals json token (bytesOf "update_state") then .updateState
  else .unknown

def buildInfoFields : List String :=
  ["build_info_version", "version", "release_sequence", "release_epoch", "board_family",
    "source_commit", "updater_abi", "configuration_schemas"]

/-- `ExactRoot`; the number of direct children is even when every field is there. -/
def exactRoot (doc : Document) : Bool :=
  doc.hasType (some 0) .object &&
    (doc.token (some 0)).any (·.childCount = buildInfoFields.length * 2) &&
    (buildInfoFields.all fun field => (doc.member (some 0) field).isSome) &&
    doc.keysKnown buildInfoFields (children doc.tokens 0)

def isAsciiAlphaNumeric (c : UInt8) : Bool :=
  (0x30 ≤ c && c ≤ 0x39) || (0x41 ≤ c && c ≤ 0x5a) || (0x61 ≤ c && c ≤ 0x7a)

/-- `IsVersion` -/
def isVersion (value : Bytes) : Bool :=
  value ≠ [] && value.length ≤ 64 && value.head?.all isAsciiAlphaNumeric &&
    value.all fun c =>
      isAsciiAlphaNumeric c || c = 0x2e || c = 0x5f || c = 0x2b || c = 0x2d

def isLowerHex (c : UInt8) : Bool := (0x30 ≤ c && c ≤ 0x39) || (0x61 ≤ c && c ≤ 0x66)

/-- `IsCommit` -/
def isCommit (value : Bytes) : Bool :=
  (value.length = 40 || value.length = 64) && value.all isLowerHex

/-- The loop over the members of `configuration_schemas`, two tokens a round. -/
def parseSchemas (json : Bytes) : List InstalledSchemaVersion → List (JsonToken × Nat) →
    Option (List InstalledSchemaVersion)
  | schemas, [] => some schemas
  | schemas, (key, _) :: rest =>
      let area := areaFromToken json key
      if isKnownConfigArea area = false ∨ area ∈ schemas.map (·.area) then none
      else
        match rest with
        | [] => none
        | (value, _) :: rest =>
            match jsonGetUint64 json value with
            | .error _ => none
            | .ok version =>
                if 16 ≤ schemas.length ∨ 2 ^ 31 - 1 < version then none
                else parseSchemas json (schemas ++ [⟨area, version⟩]) rest

/-- `ParseBuildInfo` -/
def parseBuildInfo (encoded : Bytes) (tokenCapacity : Nat) :
    Except BuildInfoStatus InstalledBuildInfo :=
  if encoded = [] ∨ tokenCapacity = 0 then .error .invalidArgument
  else if encoded.length < 3 ∨ kMaximumBuildInfoBytes < encoded.length ∨
      encoded.head? ≠ some 0x7b ∨ encoded.getLast? ≠ some 0x0a ∨
      encoded.dropLast.getLast? ≠ some 0x7d then
    .error .invalidSize
  else
    let (result, tokens) := parseJson (some encoded) tokenCapacity 16
    let doc : Document := ⟨encoded, tokens⟩
    match result.error with
    | some error => .error (if error = .tokenLimit then .storageTooSmall else .jsonInvalid)
    | none =>
        if exactRoot doc = false then .error .fieldsInvalid
        else if (doc.uint64 (doc.member (some 0) "build_info_version") 1 1).isNone then
          .error .unsupportedVersion
        else
          match doc.copyString (doc.member (some 0) "version") 65,
              doc.uint64 (doc.member (some 0) "release_sequence") 1 (2 ^ 31 - 1),
              doc.uint64 (doc.member (some 0) "release_epoch") 1 (2 ^ 63 - 1),
              doc.copyString (doc.member (some 0) "board_family") 8,
              doc.copyString (doc.member (some 0) "source_commit") 65,
              doc.uint64 (doc.member (some 0) "updater_abi") 1 (2 ^ 31 - 1) with
          | some version, some releaseSequence, some releaseEpoch, some board, some sourceCommit,
              some updaterAbi =>
              if isVersion version = false ∨ isCommit sourceCommit = false then
                .error .fieldsInvalid
              else
                let family : Option BoardFamily :=
                  if board = bytesOf "pi4" then some .pi4Pi400
                  else if board = bytesOf "pi5" then some .pi5Pi500
                  else none
                match family with
                | none => .error .fieldsInvalid
                | some family =>
                    match doc.member (some 0) "configuration_schemas" with
                    | none => .error .unsupportedSchema
                    | some index =>
                        if doc.hasType (some index) .object = false ∨
                            (doc.token (some index)).all (·.childCount ≠ 12) then
                          .error .unsupportedSchema
                        else
                          match parseSchemas encoded [] (children tokens index) with
                          | none => .error .unsupportedSchema
                          | some schemas =>
                              if schemas.length ≠ 6 then .error .unsupportedSchema
                              else
                                .ok ⟨version, releaseSequence, releaseEpoch, family, sourceCommit,
                                  updaterAbi, schemas⟩
          | _, _, _, _, _, _ => .error .fieldsInvalid

end Release

end BmxUpdate
