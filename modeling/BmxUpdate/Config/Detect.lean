import BmxUpdate.Config.Text
import BmxUpdate.JournalCodec
import BmxUpdate.Release.BuildInfo

/-!
# Detecting the version of an area

The detectors of `config_migration.cpp`: each reads the files of one area of the
configuration and finds the version of its format, or what is wrong with it.
-/

namespace BmxUpdate

namespace Config

open Wire Http

/-- A file: its path relative to the boot partition, a text without NUL, and its content. -/
structure ConfigFileView where
  path : Bytes
  content : Bytes
deriving DecidableEq, Repr

structure ConfigAreaSnapshot where
  area : ConfigArea
  files : List ConfigFileView
deriving DecidableEq, Repr

inductive ConfigDetectionDetail where
  | valid | missing | unknownFormat | corrupt | limitExceeded
deriving DecidableEq, Repr

/-- What a detection says of an area. -/
structure DetectionResult where
  detail : ConfigDetectionDetail
  version : Nat
deriving DecidableEq, Repr

/-- `Detected`: a version is found, or a detail other than `Valid` and no version. -/
def detected : Except ConfigDetectionDetail Nat → DetectionResult
  | .ok version => ⟨.valid, version⟩
  | .error detail => ⟨detail, 0⟩

/-- A pass over the lines of a text, trimmed; a corrupt line ends it. -/
def scanLines {σ : Type} (step : σ → Bytes → Except ConfigDetectionDetail σ) :
    σ → List (Option Bytes) → Except ConfigDetectionDetail σ
  | state, [] => .ok state
  | _, none :: _ => .error .corrupt
  | state, some raw :: rest =>
      match step state (trimAscii raw) with
      | .error detail => .error detail
      | .ok state => scanLines step state rest

/-! ## Machines -/

/-- What has been seen of a machines file. -/
structure MachinesScan where
  formatVersion : Option Nat
  headerVersion : Option Nat
  sectionSeen : Bool
  videoSeen : Bool
  machineSeen : Bool

/-- A line of a machines file; `formatVersion` and `headerVersion` are there once
`format_seen` and `header_seen` are set. -/
def machinesLine (scan : MachinesScan) (line : Bytes) :
    Except ConfigDetectionDetail MachinesScan :=
  if line = [] then .ok scan
  else
    match parseTextSchemaHeader line .machines with
    | .malformed => .error .corrupt
    | .valid version =>
        if scan.headerVersion.isSome then .error .corrupt
        else .ok { scan with headerVersion := some version }
    | .notHeader =>
        if line.head? = some 0x23 then .ok scan
        else if line.head? = some 0x5b then
          if line.length < 4 ∨ line.getLast? ≠ some 0x5d then .error .corrupt
          else
            let inside := (line.drop 1).dropLast
            let kind := inside.takeWhile fun value => !isBlank value
            let identifier := trimAscii (inside.drop (kind.length + 1))
            if kind = [] ∨ kind.length = inside.length then .error .corrupt
            else if (kind ≠ bytesOf "video" ∧ kind ≠ bytesOf "scaling" ∧
                kind ≠ bytesOf "machine") ∨ isIdentifier identifier = false ∨
                scan.formatVersion = none then
              .error .unknownFormat
            else
              .ok { scan with
                sectionSeen := true
                videoSeen := scan.videoSeen || kind = bytesOf "video"
                machineSeen := scan.machineSeen || kind = bytesOf "machine" }
        else
          match splitKeyValue line with
          | none => .error .corrupt
          | some (key, value) =>
              if scan.sectionSeen then .ok scan
              else if key ≠ bytesOf "format" ∨ scan.formatVersion.isSome then
                .error .unknownFormat
              else
                match parsePositiveDecimal value with
                | none => .error .unknownFormat
                | some version => .ok { scan with formatVersion := some version }

/-- The version of one machines file. -/
def machinesFileVersion (content : Bytes) : Except ConfigDetectionDetail Nat :=
  if isSafeText content = false then .error .corrupt
  else
    match scanLines machinesLine ⟨none, none, false, false, false⟩ (textLines content) with
    | .error detail => .error detail
    | .ok scan =>
        match scan.formatVersion with
        | none => .error .unknownFormat
        | some formatVersion =>
            if scan.videoSeen = false ∨ scan.machineSeen = false then .error .unknownFormat
            else
              match scan.headerVersion with
              | none => .ok formatVersion
              | some headerVersion =>
                  -- The metadata-only version 2 keeps `format = 1`.
                  if formatVersion ≠ 1 ∧ formatVersion ≠ headerVersion then .error .corrupt
                  else .ok headerVersion

/-- The loop over the files of an area: every file has the same version; zero stands for
none yet. -/
def aggregateVersion (fileVersion : Bytes → Except ConfigDetectionDetail Nat) :
    Nat → List ConfigFileView → Except ConfigDetectionDetail Nat
  | aggregate, [] => .ok aggregate
  | aggregate, file :: rest =>
      match fileVersion file.content with
      | .error detail => .error detail
      | .ok version =>
          let aggregate := if aggregate = 0 then version else aggregate
          if aggregate ≠ version then .error .corrupt
          else aggregateVersion fileVersion aggregate rest

/-- `DetectMachines` -/
def detectMachines (area : ConfigAreaSnapshot) : DetectionResult :=
  if area.files = [] then ⟨.missing, 0⟩
  else
    detected
      (match aggregateVersion machinesFileVersion 0 area.files with
      | .error detail => .error detail
      | .ok version =>
          if (area.files.any fun file => file.path = bytesOf "machines.ini") = false then
            .error .unknownFormat
          else .ok version)

/-! ## The managed block of config.txt -/

def configManagedKeys : List String :=
  ["kernel", "disable_overscan", "sdtv_mode", "hdmi_group", "hdmi_group:0", "hdmi_mode",
    "hdmi_mode:0", "hdmi_timings", "hdmi_cvt", "enable_dpi_lcd", "display_default_lcd",
    "dpi_group", "dpi_mode", "dpi_timings", "dpi_output_format"]

/-- `IsKnownConfigManagedKey` -/
def isKnownConfigManagedKey (key : Bytes) : Bool := configManagedKeys.any (bytesOf · = key)

/-- What has been seen of the managed block of `config.txt`. -/
structure ConfigBlockScan where
  beginSeen : Bool
  endSeen : Bool
  headerVersion : Option Nat
  selectorIncludeSeen : Bool
  keys : List Bytes

def configBlockLine (scan : ConfigBlockScan) (line : Bytes) :
    Except ConfigDetectionDetail ConfigBlockScan :=
  if line = bytesOf "# BEGIN BMX MANAGED" then
    if scan.beginSeen = true ∨ scan.endSeen = true then .error .corrupt
    else .ok { scan with beginSeen := true }
  else if line = bytesOf "# END BMX MANAGED" then
    if scan.beginSeen = false ∨ scan.endSeen = true then .error .corrupt
    else .ok { scan with endSeen := true }
  else
    match parseTextSchemaHeader line .configManagedBlock with
    | .malformed => .error .corrupt
    | .valid version =>
        if scan.beginSeen = false ∨ scan.endSeen = true ∨ scan.headerVersion.isSome then
          .error .corrupt
        else .ok { scan with headerVersion := some version }
    | .notHeader =>
        if scan.beginSeen = false ∨ scan.endSeen = true ∨ line = [] ∨ line.head? = some 0x23 then
          .ok scan
        else if line = bytesOf "include bmx-active-kernel.txt" then
          if scan.selectorIncludeSeen then .error .corrupt
          else .ok { scan with selectorIncludeSeen := true }
        else
          match splitKeyValue line with
          | none => .error .unknownFormat
          | some (key, _) =>
              if isKnownConfigManagedKey key = false ∨ 64 ≤ scan.keys.length then
                .error .unknownFormat
              else if key ∈ scan.keys then .error .corrupt
              else .ok { scan with keys := scan.keys ++ [key] }

/-- `DetectConfigBlock` -/
def detectConfigBlock (area : ConfigAreaSnapshot) : DetectionResult :=
  match area.files with
  | [] => ⟨.missing, 0⟩
  | [file] =>
      if file.path ≠ bytesOf "config.txt" ∨ isSafeText file.content = false then ⟨.corrupt, 0⟩
      else
        detected
          (match scanLines configBlockLine ⟨false, false, none, false, []⟩
              (textLines file.content) with
          | .error detail => .error detail
          | .ok scan =>
              if scan.beginSeen = false ∨ scan.endSeen = false ∨ scan.keys = [] then
                .error .unknownFormat
              else .ok (scan.headerVersion.getD 1))
  | _ => ⟨.corrupt, 0⟩

/-! ## cmdline.txt -/

def kMaximumCmdlineBytes : Nat := 8192

def machineCmdlineKeys : List String :=
  ["fast", "pi5kms", "framebuffer_depth", "bmx_video_mode", "cycles_per_refresh",
    "cycles_per_second", "machine_timing", "audio_out", "enable_dpi", "hdmi_group", "hdmi_mode",
    "pi5kms_timings", "scaling_params", "scaling_params2", "raster_skip", "raster_skip2",
    "bmx_schema_cmdline_managed"]

def networkCmdlineKeys : List String :=
  ["network", "network_dhcp", "network_ip", "network_netmask", "network_gateway", "network_dns",
    "network_ssid", "network_psk", "network_country", "network_wait_ms", "network_test_host",
    "network_test_port", "rs232net", "rs232net_mode", "rs232net_interface", "rs232net_target",
    "rs232net_phonebook", "rs232net_baud", "rs232net_ip232", "rs232net_hayes_audio",
    "rs232net_ascii_case", "bmx_schema_network"]

/-- `KeyBelongsToCmdlineArea` -/
def keyBelongsToCmdlineArea (area : ConfigArea) (key : Bytes) : Bool :=
  (if area = .cmdlineManagedKeys then machineCmdlineKeys else networkCmdlineKeys).any
    (bytesOf · = key)

/-- `CmdlineSchemaKey` -/
def cmdlineSchemaKey (area : ConfigArea) : Bytes :=
  if area = .cmdlineManagedKeys then bytesOf "bmx_schema_cmdline_managed"
  else bytesOf "bmx_schema_network"

/-- The tokens of the first line, split at blanks. -/
def cmdlineTokens : Bytes → Bytes → List Bytes
  | token, [] => if token = [] then [] else [token]
  | token, value :: rest =>
      if isBlank value then
        if token = [] then cmdlineTokens [] rest else token :: cmdlineTokens [] rest
      else cmdlineTokens (token ++ [value]) rest

/-- The loop over the tokens: the keys so far, and the version of the schema token. -/
def parseCmdlineTokens (area : ConfigArea) : List Bytes → Option Nat → List Bytes →
    Except ConfigDetectionDetail Nat
  | _, schema, [] => .ok (schema.getD 1)
  | keys, schema, token :: rest =>
      if 128 ≤ keys.length then .error .limitExceeded
      else
        let key := token.takeWhile (· ≠ 0x3d)
        let hasValue := key.length ≠ token.length
        let value := token.drop (key.length + 1)
        if hasValue = true ∧ (key = [] ∨ value = []) then .error .corrupt
        else if isIdentifier key = false then .error .corrupt
        else
          let isSchema := hasValue && key = cmdlineSchemaKey area
          if isSchema = true ∧ (schema.isSome ∨ (parsePositiveDecimal value).isNone) then
            .error .corrupt
          else if keyBelongsToCmdlineArea area key = true ∧ (hasValue = false ∨ key ∈ keys) then
            .error .corrupt
          else
            parseCmdlineTokens area (keys ++ [key])
              (if isSchema then parsePositiveDecimal value else schema) rest

/-- Additional lines are comments or blank. -/
def cmdlineCommentLine (_ : Unit) (line : Bytes) : Except ConfigDetectionDetail Unit :=
  if line ≠ [] ∧ line.head? ≠ some 0x23 then .error .unknownFormat else .ok ()

/-- `ParseCmdline`, for the version. -/
def parseCmdline (area : ConfigAreaSnapshot) (assessedArea : ConfigArea) : DetectionResult :=
  match area.files with
  | [] => ⟨.missing, 0⟩
  | [file] =>
      if file.path ≠ bytesOf "cmdline.txt" ∨ kMaximumCmdlineBytes < file.content.length ∨
          isSafeText file.content = false then
        ⟨.corrupt, 0⟩
      else
        let first := file.content.takeWhile fun value => value ≠ 0x0d && value ≠ 0x0a
        let after := file.content.drop first.length
        if kMaximumConfigLineBytes < first.length then ⟨.limitExceeded, 0⟩
        else if after.head? = some 0x0d ∧ after.tail.head? ≠ some 0x0a then ⟨.corrupt, 0⟩
        else
          let comments := after.drop (if after.head? = some 0x0d then 2 else 1)
          detected
            (match scanLines cmdlineCommentLine () (textLines comments) with
            | .error detail => .error detail
            | .ok _ => parseCmdlineTokens assessedArea [] none (cmdlineTokens [] first))
  | _ => ⟨.corrupt, 0⟩

/-! ## Settings -/

def kMaximumSettingsEntries : Nat := 512

/-- What has been seen of a settings file. -/
structure SettingsScan where
  headerVersion : Option Nat
  keys : List Bytes

def settingsLine (scan : SettingsScan) (line : Bytes) :
    Except ConfigDetectionDetail SettingsScan :=
  if line = [] then .ok scan
  else
    match parseTextSchemaHeader line .settings with
    | .malformed => .error .corrupt
    | .valid version =>
        if scan.headerVersion.isSome then .error .corrupt
        else .ok { scan with headerVersion := some version }
    | .notHeader =>
        if line.head? = some 0x23 ∨ line.head? = some 0x3b then .ok scan
        else
          match splitSettingsKeyValue line with
          | none => .error .unknownFormat
          | some (key, _) =>
              if kMaximumSettingsEntries ≤ scan.keys.length then .error .limitExceeded
              else if key ∈ scan.keys then .error .corrupt
              else .ok { scan with keys := scan.keys ++ [key] }

/-- The version of one settings file. -/
def settingsFileVersion (content : Bytes) : Except ConfigDetectionDetail Nat :=
  if isSafeText content = false then .error .corrupt
  else
    match scanLines settingsLine ⟨none, []⟩ (textLines content) with
    | .error detail => .error detail
    | .ok scan => .ok (scan.headerVersion.getD 1)

/-- `DetectSettings` -/
def detectSettings (area : ConfigAreaSnapshot) : DetectionResult :=
  if area.files = [] then ⟨.missing, 0⟩
  else detected (aggregateVersion settingsFileVersion 0 area.files)

/-! ## The update state -/

def buildInfoPath : Bytes := bytesOf "BMX-BUILD.json"

def journalPathA : Bytes := bytesOf ".bmx-update/transaction/journal.a"

def journalPathB : Bytes := bytesOf ".bmx-update/transaction/journal.b"

def kBuildInfoTokenCapacity : Nat := 512

/-- The content of the last file with a path. -/
def lastContent (files : List ConfigFileView) (path : Bytes) : Option Bytes :=
  ((files.filter fun file => file.path = path).getLast?).map (·.content)

/-- The version of the update state that the installed build info names. -/
def buildInfoStateVersion (content : Bytes) : Except ConfigDetectionDetail Nat :=
  match Release.parseBuildInfo content kBuildInfoTokenCapacity with
  | .error status => .error (if status = .storageTooSmall then .limitExceeded else .corrupt)
  | .ok info =>
      match info.schemas.find? (·.area = .updateState) with
      | none => .error .corrupt
      | some schema => if schema.version = 0 then .error .corrupt else .ok schema.version

/-- A selection among the journal copies that `DetectUpdateState` accepts. -/
def journalAccepted (copyA copyB : Option Bytes) : Bool :=
  let status := (selectJournalCopy copyA copyB).status
  status ≠ .noValidCopy && status ≠ .ambiguousSameGeneration && status ≠ .noJournal

/-- `DetectUpdateState` -/
def detectUpdateState (area : ConfigAreaSnapshot) : DetectionResult :=
  if area.files = [] then ⟨.missing, 0⟩
  else
    match area.files.filter fun file => file.path = buildInfoPath with
    | [] => ⟨.unknownFormat, 0⟩
    | [build] =>
        detected
          (match buildInfoStateVersion build.content with
          | .error detail => .error detail
          | .ok version =>
              let copyA := lastContent area.files journalPathA
              let copyB := lastContent area.files journalPathB
              if (copyA.isSome ∨ copyB.isSome) ∧ journalAccepted copyA copyB = false then
                .error .corrupt
              else .ok version)
    | _ => ⟨.corrupt, 0⟩

/-- `DetectArea` -/
def detectArea (area : ConfigAreaSnapshot) : DetectionResult :=
  match area.area with
  | .machines => detectMachines area
  | .configManagedBlock => detectConfigBlock area
  | .cmdlineManagedKeys | .network => parseCmdline area area.area
  | .settings => detectSettings area
  | .updateState => detectUpdateState area
  | .unknown => ⟨.corrupt, 0⟩

end Config

end BmxUpdate
