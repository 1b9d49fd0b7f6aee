import BmxUpdate.Release.ManifestParser

/-!
# What a release manifest has to be

The rules of an accepted manifest, said of the values and not of the text they came in: the
texts that name them, and the release, configuration and asset that an update may work from.
-/

namespace BmxUpdate

namespace Release

open Wire Http Checks Config

/-! ## The texts of the values -/

/-- The name of an area in a manifest. -/
def areaText : ConfigArea → Bytes
  | .unknown => []
  | .machines => bytesOf "machines"
  | .configManagedBlock => bytesOf "config_managed_block"
  | .cmdlineManagedKeys => bytesOf "cmdline_managed"
  | .network => bytesOf "network"
  | .settings => bytesOf "settings"
  | .updateState => bytesOf "update_state"

def policyText : ManifestFilePolicy → Bytes
  | .kernel => bytesOf "kernel"
  | .managedReplace => bytesOf "managed-replace"
  | .configTemplate => bytesOf "config-template"
  | .preserve => bytesOf "preserve"
  | .metadata => bytesOf "metadata"

def compressionText : ManifestCompression → Bytes
  | .store => bytesOf "store"
  | .deflate => bytesOf "deflate"

def boardText : BoardFamily → Bytes
  | .unknown => []
  | .pi4Pi400 => bytesOf "pi4"
  | .pi5Pi500 => bytesOf "pi5"

/-- The areas of a configuration, in the order of their names. -/
def configAreas : List ConfigArea :=
  [.cmdlineManagedKeys, .configManagedBlock, .machines, .network, .settings, .updateState]

/-- Every value is read from its text, and the areas stand in the order of their names. -/
theorem texts_read :
    (∀ area ∈ .unknown :: configAreas, parseConfigArea (areaText area) = area ∧
      (isKnownConfigArea area = true → isIdentifier (areaText area) = true)) ∧
    (∀ policy ∈ [ManifestFilePolicy.kernel, .managedReplace, .configTemplate, .preserve, .metadata],
      parsePolicy (policyText policy) = some policy) ∧
    (∀ compression ∈ [ManifestCompression.store, .deflate],
      parseCompression (compressionText compression) = some compression) ∧
    (∀ board ∈ [BoardFamily.pi4Pi400, .pi5Pi500], parseBoard (boardText board) = some board) ∧
    (configAreas.map areaText).Pairwise (· < ·) := by
  decide

theorem parseConfigArea_areaText {area : ConfigArea} : parseConfigArea (areaText area) = area :=
  (texts_read.1 area (by cases area <;> simp [configAreas])).1

theorem areaText_parseConfigArea {value : Bytes}
    (hknown : isKnownConfigArea (parseConfigArea value) = true) :
    areaText (parseConfigArea value) = value := by
  unfold parseConfigArea at hknown ⊢
  split_ifs at hknown ⊢ with h₁ h₂ h₃ h₄ h₅ h₆
  · exact h₁.symm
  · exact h₂.symm
  · exact h₃.symm
  · exact h₄.symm
  · exact h₅.symm
  · exact h₆.symm
  · cases hknown

theorem parsePolicy_eq_some {value : Bytes} {policy : ManifestFilePolicy} :
    parsePolicy value = some policy ↔ value = policyText policy := by
  constructor
  · intro h
    unfold parsePolicy at h
    split_ifs at h with h₁ h₂ h₃ h₄ h₅ <;> cases h <;> assumption
  · intro h
    subst h
    exact texts_read.2.1 policy (by cases policy <;> simp)

theorem parseCompression_eq_some {value : Bytes} {compression : ManifestCompression} :
    parseCompression value = some compression ↔ value = compressionText compression := by
  constructor
  · intro h
    unfold parseCompression at h
    split_ifs at h with h₁ h₂ <;> cases h <;> assumption
  · intro h
    subst h
    exact texts_read.2.2.1 compression (by cases compression <;> simp)

theorem parseBoard_eq_some {value : Bytes} {board : BoardFamily} :
    parseBoard value = some board ↔ board ≠ .unknown ∧ value = boardText board := by
  constructor
  · intro h
    unfold parseBoard at h
    split_ifs at h with h₁ h₂ <;> cases h <;> exact ⟨by decide, by assumption⟩
  · intro h
    obtain ⟨hknown, rfl⟩ := h
    cases board with
    | unknown => exact absurd rfl hknown
    | pi4Pi400 => exact texts_read.2.2.2.1 _ (by simp)
    | pi5Pi500 => exact texts_read.2.2.2.1 _ (by simp)

/-! ### Digests -/

def hexDigit (n : Nat) : UInt8 := UInt8.ofNat (if n < 10 then 0x30 + n else 0x61 + (n - 10))

/-- A byte as two hexadecimal digits. -/
def hexPair (b : UInt8) : Bytes := [hexDigit (b.toNat / 16), hexDigit (b.toNat % 16)]

def digestText (digest : Digest) : Bytes := digest.bytes.flatMap hexPair

theorem isLowerHex_hexDigit {n : Nat} (hn : n < 16) : isLowerHex (hexDigit n) = true := by
  have h : ∀ n < 16, isLowerHex (hexDigit n) = true := by decide
  exact h n hn

theorem hexValue_hexDigit {n : Nat} (hn : n < 16) : hexValue (hexDigit n) = n := by
  have h : ∀ n < 16, hexValue (hexDigit n) = n := by decide
  exact h n hn

theorem hexDigit_hexValue {c : UInt8} (hc : isLowerHex c = true) :
    hexValue c < 16 ∧ hexDigit (hexValue c) = c := by
  have h : ∀ n < 256, isLowerHex (UInt8.ofNat n) = true →
      hexValue (UInt8.ofNat n) < 16 ∧ hexDigit (hexValue (UInt8.ofNat n)) = UInt8.ofNat n := by
    decide +kernel
  exact forall_byte (P := fun c => isLowerHex c = true →
    hexValue c < 16 ∧ hexDigit (hexValue c) = c) h c hc

theorem hexBytes_hexPairs (bytes : Bytes) : hexBytes (bytes.flatMap hexPair) = bytes := by
  induction bytes with
  | nil => rfl
  | cons b bytes ih =>
      have hb := b.toNat_lt
      show UInt8.ofNat (hexValue (hexDigit (b.toNat / 16)) * 16 +
        hexValue (hexDigit (b.toNat % 16))) :: hexBytes (bytes.flatMap hexPair) = b :: bytes
      rw [ih, hexValue_hexDigit (by omega), hexValue_hexDigit (by omega), Nat.div_add_mod',
        UInt8.ofNat_toNat]

theorem hexPairs_hexBytes : ∀ {text : Bytes}, text.length % 2 = 0 →
    (∀ c ∈ text, isLowerHex c = true) →
      (hexBytes text).flatMap hexPair = text ∧ (hexBytes text).length = text.length / 2
  | [], _, _ => ⟨rfl, rfl⟩
  | [_], heven, _ => by simp at heven
  | high :: low :: rest, heven, hhex => by
      have hrest : rest.length % 2 = 0 := by
        simp only [List.length_cons] at heven
        omega
      obtain ⟨htail, hlength⟩ := hexPairs_hexBytes hrest
        fun c hc => hhex c (List.mem_cons_of_mem _ (List.mem_cons_of_mem _ hc))
      obtain ⟨hhigh, hhigh'⟩ := hexDigit_hexValue (hhex high List.mem_cons_self)
      obtain ⟨hlow, hlow'⟩ :=
        hexDigit_hexValue (hhex low (List.mem_cons_of_mem _ List.mem_cons_self))
      constructor
      · have hpair : hexPair (UInt8.ofNat (hexValue high * 16 + hexValue low)) = [high, low] := by
          have hbyte : (UInt8.ofNat (hexValue high * 16 + hexValue low)).toNat =
              hexValue high * 16 + hexValue low := by
            rw [UInt8.toNat_ofNat']
            omega
          unfold hexPair
          rw [hbyte, show (hexValue high * 16 + hexValue low) / 16 = hexValue high by omega,
            show (hexValue high * 16 + hexValue low) % 16 = hexValue low by omega, hhigh', hlow']
        rw [hexBytes, List.flatMap_cons, hpair, htail]
        rfl
      · rw [hexBytes, List.length_cons, hlength]
        simp only [List.length_cons]
        omega

theorem length_digestText (digest : Digest) : (digestText digest).length = 64 := by
  have h : ∀ bytes : Bytes, (bytes.flatMap hexPair).length = 2 * bytes.length := by
    intro bytes
    induction bytes with
    | nil => rfl
    | cons b bytes ih =>
        rw [List.flatMap_cons, List.length_append, ih, List.length_cons]
        show 2 + 2 * bytes.length = _
        omega
  unfold digestText
  rw [h, digest.length_bytes]

theorem isLowerHex_of_mem_digestText {digest : Digest} {c : UInt8} (hc : c ∈ digestText digest) :
    isLowerHex c = true := by
  obtain ⟨b, -, hpair⟩ := List.mem_flatMap.mp hc
  have hb := b.toNat_lt
  simp only [hexPair, List.mem_cons, List.not_mem_nil, or_false] at hpair
  rcases hpair with h | h
  · rw [h]
    exact isLowerHex_hexDigit (by omega)
  · rw [h]
    exact isLowerHex_hexDigit (by omega)

theorem parseSha256_eq_some {value : Bytes} {digest : Digest} :
    parseSha256 value = some digest ↔ value = digestText digest := by
  unfold parseSha256
  constructor
  · intro h
    split at h
    · cases h
    · next hform =>
        simp only [not_or, Decidable.not_not, Bool.not_eq_false, List.all_eq_true] at hform
        obtain ⟨htext, hlength⟩ := hexPairs_hexBytes (by omega) hform.2
        cases h
        unfold digestText
        rw [Block.bytes_ofBytes (by omega), htext]
  · intro h
    subst h
    have hall : (digestText digest).all isLowerHex = true :=
      List.all_eq_true.mpr fun _ hc => isLowerHex_of_mem_digestText hc
    rw [if_neg (by simp [length_digestText, hall])]
    unfold digestText
    rw [hexBytes_hexPairs, Block.ofBytes_bytes]

/-! ## The release -/

/-- The rules of `ParseRelease`. -/
structure ValidRelease (m : ReleaseManifest) : Prop where
  version : isVersion m.version = true
  tag : isTag m.tag = true
  sourceCommit : isCommit m.sourceCommit = true
  sequence : 1 ≤ m.releaseSequence.toNat ∧ m.releaseSequence.toNat ≤ int32Max
  epoch : 1 ≤ m.releaseEpoch.toNat ∧ m.releaseEpoch.toNat ≤ int64Max
  minimumAbi : 1 ≤ m.minimumUpdaterAbi.toNat
  abi : m.minimumUpdaterAbi.toNat ≤ m.maximumUpdaterAbi.toNat
  maximumAbi : m.maximumUpdaterAbi.toNat ≤ int32Max
  keyCount : 1 ≤ m.signingKeyIds.length ∧ m.signingKeyIds.length ≤ 4
  keys : ∀ key ∈ m.signingKeyIds, isIdentifier key = true
  keyOrder : m.signingKeyIds.Pairwise (· < ·)

/-! ## The configuration -/

/-- The rules of one schema. -/
structure ValidSchema (s : ManifestConfigSchema) : Prop where
  acceptedCount : 1 ≤ s.acceptedVersions.length ∧ s.acceptedVersions.length ≤ 32
  acceptedRange : ∀ v ∈ s.acceptedVersions, v.toNat ≤ int32Max
  acceptedOrder : s.acceptedVersions.Pairwise (· < ·)
  target : s.targetVersion ∈ s.acceptedVersions

/-- The rules of one migration. -/
structure ValidMigration (m : ManifestMigration) : Prop where
  id : isIdentifier m.id = true
  area : isKnownConfigArea m.area = true
  fromVersion : m.fromVersion.toNat ≤ int32Max
  toVersion : m.toVersion.toNat ≤ int32Max

/-- The rules of one lossy change. -/
structure ValidLossyChange (c : ManifestLossyChange) : Prop where
  area : isKnownConfigArea c.area = true
  description : isDisplaySafeDescription c.description = true
  bounded : c.description.length ≤ 256

/-- What the registry is asked about the schemas. -/
def ReleaseManifest.requirements (m : ReleaseManifest) : List ConfigSchemaRequirement :=
  m.schemas.map fun schema =>
    ⟨schema.area, schema.targetVersion.toNat, schema.acceptedVersions.map UInt32.toNat⟩

/-- What the registry is asked about the migrations. -/
def ReleaseManifest.declarations (m : ReleaseManifest) : List DeclaredConfigMigration :=
  m.migrations.map fun migration =>
    ⟨migration.id, migration.area, migration.fromVersion.toNat, migration.toVersion.toNat,
      migration.lossy⟩

/-- The rules of `ParseConfiguration`. -/
structure ValidConfiguration (m : ReleaseManifest) : Prop where
  areas : m.schemas.map (·.area) = configAreas
  schemas : ∀ s ∈ m.schemas, ValidSchema s
  migrationCount : m.migrations.length ≤ kMaximumManifestMigrations
  migrations : ∀ c ∈ m.migrations, ValidMigration c
  migrationOrder : (m.migrations.map (·.id)).Pairwise (· < ·)
  registry : validateConfigMigrationDeclarations m.requirements m.declarations = .valid
  lossyChanges : ∀ c ∈ m.lossyChanges, ValidLossyChange c
  lossyOrder : (m.lossyChanges.map fun c => areaText c.area).Pairwise (· < ·)
  /-- A lossy migration is described, and only a lossy migration is. -/
  described : ∀ area, (∃ c ∈ m.lossyChanges, c.area = area) ↔
    ∃ c ∈ m.migrations, c.lossy = true ∧ c.area = area

/-! ## The assets -/

/-- The kernel of a machine of a board. -/
def kernelPath (board : BoardFamily) (machine : String) : Bytes :=
  bytesOf (boardKernels board).1 ++ 0x2e :: bytesOf machine

/-- The files every asset of a board has. -/
def requiredPaths (board : BoardFamily) : List Bytes :=
  [bytesOf "config.txt", bytesOf "tryboot.txt", bytesOf "bmx-active-kernel.txt",
    bytesOf "bmx-tryboot-kernel.txt"] ++
    (kMachineKernelMachines.take kRequiredKernelMachineCount).map (kernelPath board)

/-- The rules of one file of a board's asset. -/
structure ValidFile (board : BoardFamily) (f : ManifestFile) : Prop where
  path : isSafeManifestPath f.path = true
  size : f.size ≤ kMaximumFileBytes
  policy : classifyKnownPath f.path = some f.policy
  notOther : startsWith f.path (boardKernels board).2 = false
  notBare : f.path ≠ bytesOf (boardKernels board).1
  machine : ∀ suffix, kernelSuffix (boardKernels board).1 f.path = some suffix →
    (parseMachineKernelSuffix suffix).isSome = true

/-- The rules of a board's asset. -/
structure ValidAsset (version : Bytes) (board : BoardFamily) (a : ManifestAsset) : Prop where
  family : a.board = board
  known : board ≠ .unknown
  filename : a.filename = expectedFilename version board
  download : 1 ≤ a.downloadSize ∧ a.downloadSize ≤ kMaximumAssetBytes
  installed : 1 ≤ a.installedSize ∧ a.installedSize ≤ kMaximumAssetBytes
  peak : a.downloadSize + a.installedSize + kSafetyReserveBytes ≤ a.requiredPeakBytes ∧
    a.requiredPeakBytes ≤ int64Max
  directoryCount : a.directories.length ≤ kMaximumManifestDirectories
  directories : ∀ path ∈ a.directories,
    isSafeManifestPath path = true ∧ isAllowedUpdateDirectory path = true
  directoryOrder : a.directories.Pairwise (· < ·)
  fileCount : a.files.length ≤ kMaximumManifestFiles
  files : ∀ f ∈ a.files, ValidFile board f
  fileOrder : (a.files.map (·.path)).Pairwise (· < ·)
  installedSum : (a.files.map (·.size)).sum = a.installedSize
  required : ∀ path ∈ requiredPaths board, path ∈ a.files.map (·.path)

/-- No two names of the inventory are one name on a FAT volume. -/
def CaseDistinct (a : ManifestAsset) : Prop :=
  ((a.files.map (·.path) ++ a.directories).map (·.map FatPath.asciiLower)).Nodup

def otherBoard : BoardFamily → BoardFamily
  | .pi4Pi400 => .pi5Pi500
  | _ => .pi4Pi400

/-- A manifest an update of `board` may work from, with what it says of the other board. -/
structure ValidManifest (board : BoardFamily) (m : ReleaseManifest) (other : ManifestAsset) :
    Prop where
  release : ValidRelease m
  configuration : ValidConfiguration m
  asset : ValidAsset m.version board m.asset
  distinct : CaseDistinct m.asset
  otherAsset : ValidAsset m.version (otherBoard board) other

end Release

end BmxUpdate
