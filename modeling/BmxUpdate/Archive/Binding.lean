import BmxUpdate.Archive.FatFs
import BmxUpdate.Https.UrlPolicy
import BmxUpdate.Library.Framed
import BmxUpdate.UpdateTypes

/-!
# The two paths of a download

`BuildFatFsUpdateArchivePaths` (`fatfs_update_archive.cpp`): what a binding must satisfy, the
SHA-256 over all of its fields, and the paths that carry this digest in their last name.
A C string is the bytes before its NUL.
-/

namespace BmxUpdate

namespace Archive

open Wire Volumes Checks FatPath Https

def kMaximumGitHubAssetNameBytes : Nat := 160
structure AuthenticatedUpdateBinding where
  archiveUrl : Bytes
  archiveFilename : Bytes
  transactionRoot : Bytes
  board : BoardFamily
  sourceReleaseSequence : UInt64
  targetReleaseSequence : UInt64
  oldBootGeneration : UInt64
  newBootGeneration : UInt64
  archiveSize : UInt64
  transactionId : TransactionId
  archiveSha256 : Digest
  manifestSha256 : Digest
  consentSha256 : Digest
  resetRequired : Bool
  resetApproved : Bool
deriving DecidableEq

/-- Where an archive is downloaded to and kept. -/
structure FatFsUpdateArchivePaths where
  partPath : Bytes
  finalPath : Bytes
  bindingSha256 : Digest
deriving DecidableEq

/-! ## The digest of a binding -/

/-- `BytesNonZero` -/
def bytesNonZero (bytes : Bytes) : Bool := bytes.any (· ≠ 0)

/-- `HashString` -/
def hashString (text : Bytes) : Bytes := encodeBe 4 text.length ++ text

/-- `HashU64` -/
def hashU64 (value : UInt64) : Bytes := encodeBe 8 value.toNat

/-- The text whose SHA-256 names a binding. -/
def bindingText (binding : AuthenticatedUpdateBinding) : Bytes :=
  bytesOf "BMX-ARCHIVE-BINDING-V1" ++ [0] ++ hashString binding.archiveUrl ++
    hashString binding.archiveFilename ++ hashString binding.transactionRoot ++
    [binding.board.toByte] ++ hashU64 binding.sourceReleaseSequence ++
    hashU64 binding.targetReleaseSequence ++ hashU64 binding.oldBootGeneration ++
    hashU64 binding.newBootGeneration ++ hashU64 binding.archiveSize ++
    binding.transactionId.bytes ++ binding.archiveSha256.bytes ++ binding.manifestSha256.bytes ++
    binding.consentSha256.bytes ++ [binding.resetRequired.toUInt8, binding.resetApproved.toUInt8]

/-- `BoundedLength` -/
def boundedLength (text : Bytes) (maximum : Nat) : Prop := text ≠ [] ∧ text.length ≤ maximum

instance (text : Bytes) (maximum : Nat) : Decidable (boundedLength text maximum) :=
  inferInstanceAs (Decidable (_ ∧ _))

/-- What follows the last `/` (`strrchr`). -/
def lastName (path : Bytes) : Bytes := (path.reverse.takeWhile (· ≠ 0x2f)).reverse

/-- The check of the URL: a public one must end in the name of the archive. -/
def checkArchiveUrl (binding : AuthenticatedUpdateBinding) : Except FatFsStorageStatus Unit :=
  match parseAndAuthorizeUpdateUrl binding.archiveUrl .releaseAsset with
  | .ok parsed =>
      reject (0x2f ∉ parsed.pathAndQuery ∨ lastName parsed.pathAndQuery ≠ binding.archiveFilename)
        .invalidArgument
  | .error _ =>
      match parseAndAuthorizeUpdateUrl binding.archiveUrl .authenticatedReleaseAsset with
      | .ok _ => .ok ()
      | .error _ => .error .invalidArgument

/-- `ValidateAndHashBinding` -/
def validateAndHashBinding (binding : AuthenticatedUpdateBinding) :
    Except FatFsStorageStatus Digest := do
  reject (¬boundedLength binding.archiveUrl (kMaximumUpdateUrlBytes - 1) ∨
    ¬boundedLength binding.archiveFilename kMaximumGitHubAssetNameBytes ∨
    ¬boundedLength binding.transactionRoot kInstallerMaximumPathBytes) .invalidArgument
  reject (isKnownBoardFamily binding.board = false) .invalidArgument
  reject (binding.sourceReleaseSequence = 0 ∨
    binding.targetReleaseSequence ≤ binding.sourceReleaseSequence ∨
    binding.oldBootGeneration = 0 ∨
    binding.newBootGeneration ≤ binding.oldBootGeneration ∨ binding.archiveSize = 0)
    .invalidArgument
  reject (¬bytesNonZero binding.transactionId.bytes ∨ ¬bytesNonZero binding.archiveSha256.bytes ∨
    ¬bytesNonZero binding.manifestSha256.bytes ∨ ¬bytesNonZero binding.consentSha256.bytes)
    .invalidArgument
  reject (binding.resetRequired ≠ binding.resetApproved) .invalidArgument
  reject (validateFatRelativePathBytes binding.transactionRoot kInstallerMaximumPathBytes ≠ .ok ∨
    validateFatRelativePathBytes binding.archiveFilename kMaximumGitHubAssetNameBytes ≠ .ok ∨
    0x2f ∈ binding.archiveFilename) .invalidPath
  checkArchiveUrl binding
  return sha256 (bindingText binding)

/-! ## The paths -/

/-- `NormalizeVolume` -/
def normalizeVolume (volume : Bytes) : Except FatFsStorageStatus Bytes := do
  let name := volume.takeWhile (· ≠ 0x3a)
  let tail := volume.dropWhile (· ≠ 0x3a)
  reject (¬(name.take 16).all isVolumeCharacter) .invalidPath
  reject (name = [] ∨ 15 < name.length ∨ tail = []) .invalidPath
  reject (tail.drop 1 ≠ [] ∧ tail.drop 1 ≠ [0x2f]) .invalidPath
  validateFatFsAbsolutePath (name ++ [0x3a, 0x2f])
  return name ++ [0x3a, 0x2f]

def hexDigit (value : Nat) : UInt8 := (bytesOf "0123456789abcdef").getD value 0

/-- `HexDigest` -/
def hexDigest (digest : Digest) : Bytes :=
  digest.bytes.flatMap fun byte => [hexDigit (byte.toNat / 16), hexDigit (byte.toNat % 16)]

/-- The last name of the final path.  Both names fit the buffers they are printed to. -/
def archiveName (digest : Digest) : Bytes := bytesOf "archive-" ++ hexDigest digest ++ bytesOf ".zip"

/-- `BuildFatFsUpdateArchivePaths` -/
def buildFatFsUpdateArchivePaths (volume : Bytes) (binding : AuthenticatedUpdateBinding) :
    Except FatFsStorageStatus FatFsUpdateArchivePaths := do
  let volumeRoot ← normalizeVolume volume
  let digest ← validateAndHashBinding binding
  let base := volumeRoot ++ binding.transactionRoot
  let finalPath := base ++ 0x2f :: archiveName digest
  let partPath := base ++ 0x2f :: (archiveName digest ++ bytesOf ".part")
  reject (kFatFsUpdatePathBytes ≤ finalPath.length ∨ kFatFsUpdatePathBytes ≤ partPath.length)
    .pathTooLong
  validateFatFsAbsolutePath finalPath
  validateFatFsAbsolutePath partPath
  return ⟨partPath, finalPath, digest⟩

/-! ## What is known of built paths -/

/-- What the checks establish. -/
structure PathsFit (binding : AuthenticatedUpdateBinding) (paths : FatFsUpdateArchivePaths) :
    Prop where
  digest : paths.bindingSha256 = sha256 (bindingText binding)
  url : binding.archiveUrl.length < 256 ^ 4
  filename : binding.archiveFilename.length < 256 ^ 4
  root : binding.transactionRoot.length < 256 ^ 4
  final : validateFatFsAbsolutePath paths.finalPath = .ok ()
  part : validateFatFsAbsolutePath paths.partPath = .ok ()
  nodes : ∃ directory, nodePath paths.finalPath =
      directory ++ [fatName (archiveName paths.bindingSha256)] ∧
    nodePath paths.partPath =
      directory ++ [fatName (archiveName paths.bindingSha256 ++ bytesOf ".part")]

theorem normalizeVolume_ok {volume output : Bytes} (h : normalizeVolume volume = .ok output) :
    ∃ name, (∀ c ∈ name, c ≠ 0x3a) ∧ output = name ++ [0x3a, 0x2f] := by
  unfold normalizeVolume at h
  simp only [reject_bind_eq_ok] at h
  obtain ⟨-, -, -, h⟩ := h
  obtain ⟨-, -, h⟩ := bind_eq_ok.mp h
  cases h
  exact ⟨_, fun c hc => by simpa using List.mem_takeWhile_imp hc, rfl⟩

theorem nodePath_append {name root last : Bytes} (hname : ∀ c ∈ name, c ≠ 0x3a)
    (hlast : (0x2f : UInt8) ∉ last) :
    nodePath (name ++ [0x3a, 0x2f] ++ root ++ 0x2f :: last) =
      (root.splitOn 0x2f).map fatName ++ [fatName last] := by
  unfold nodePath
  have hdrop : (name ++ [0x3a, 0x2f] ++ root ++ 0x2f :: last).dropWhile (· ≠ 0x3a) =
      [0x3a, 0x2f] ++ root ++ 0x2f :: last := by
    rw [List.append_assoc, List.append_assoc, List.dropWhile_append_of_pos (by simpa using hname)]
    simp
  rw [hdrop]
  have hsplit : (root ++ 0x2f :: last).splitOn 0x2f = root.splitOn 0x2f ++ [last] := by
    have hwhole : last.splitOn 0x2f = [last] :=
      List.splitOnP_eq_singleton fun c hc => by simpa using fun heq : c = 0x2f => hlast (heq ▸ hc)
    unfold List.splitOn at hwhole ⊢
    rw [List.splitOnP_append_cons _ _ rfl, hwhole]
  simp [hsplit]

/-! ### Names that FAT tells apart -/

/-- A byte as FAT compares it is a character of its own. -/
theorem fatName_inj {a b : Bytes} (h : fatName a = fatName b) :
    a.map asciiLower = b.map asciiLower := by
  have hlist := String.ofList_injective h
  have hchar : ∀ c : UInt8, (Char.ofNat c.toNat).toNat = c.toNat := by
    intro c
    have hvalid : c.toNat.isValidChar := Or.inl (by have := c.toNat_lt; omega)
    unfold Char.ofNat
    rw [dif_pos hvalid]
    rfl
  have hback : ∀ text : Bytes,
      (text.map fun c => Char.ofNat (asciiLower c).toNat).map (fun c => UInt8.ofNat c.toNat) =
        text.map asciiLower := by
    intro text
    rw [List.map_map]
    apply List.map_congr_left
    intro c _
    simp [hchar]
  rw [← hback a, hlist, hback b]

theorem hexDigit_lower : ∀ n < 16, asciiLower (hexDigit n) = hexDigit n := by decide

theorem hexDigit_inj : ∀ m < 16, ∀ n < 16, hexDigit m = hexDigit n → m = n := by decide

theorem hexDigit_mem_name : ∀ n < 16, hexDigit n ≠ 0x2f := by decide

theorem map_lower_hexDigest (digest : Digest) :
    (hexDigest digest).map asciiLower = hexDigest digest := by
  unfold hexDigest
  rw [List.map_flatMap]
  congr 1
  funext byte
  have hbyte := byte.toNat_lt
  simp only [List.map_cons, List.map_nil]
  rw [hexDigit_lower _ (by omega), hexDigit_lower _ (by omega)]

theorem hexDigest_inj {a b : Digest} (h : hexDigest a = hexDigest b) : a = b := by
  have hlist : ∀ left right : Bytes,
      (left.flatMap fun byte => [hexDigit (byte.toNat / 16), hexDigit (byte.toNat % 16)]) =
        (right.flatMap fun byte => [hexDigit (byte.toNat / 16), hexDigit (byte.toNat % 16)]) →
      left = right := by
    intro left
    induction left with
    | nil =>
        intro right heq
        cases right with
        | nil => rfl
        | cons y right => simp at heq
    | cons x left ih =>
        intro right heq
        cases right with
        | nil => simp at heq
        | cons y right =>
            simp only [List.flatMap_cons, List.cons_append, List.nil_append, List.cons.injEq] at heq
            have hx := x.toNat_lt
            have hy := y.toNat_lt
            have hhigh := hexDigit_inj _ (by omega) _ (by omega) heq.1
            have hlow := hexDigit_inj _ (by omega) _ (by omega) heq.2.1
            have hbyte : x = y := UInt8.toNat.inj (by omega)
            rw [hbyte, ih right heq.2.2]
  exact Block.ext (hlist a.bytes b.bytes h)

@[simp] theorem length_hexDigest (digest : Digest) : (hexDigest digest).length = 64 := by
  simp [hexDigest, List.length_flatMap]

theorem map_lower_archiveName (digest : Digest) :
    (archiveName digest).map asciiLower = archiveName digest := by
  unfold archiveName
  rw [List.map_append, List.map_append, map_lower_hexDigest]
  rfl

theorem slash_notMem_archiveName (digest : Digest) : (0x2f : UInt8) ∉ archiveName digest := by
  unfold archiveName hexDigest
  simp only [List.mem_append, List.mem_flatMap, not_or, not_exists, not_and]
  refine ⟨⟨by decide, fun byte _ => ?_⟩, by decide⟩
  have hbyte := byte.toNat_lt
  simp only [List.mem_cons, List.not_mem_nil, or_false, not_or]
  exact ⟨(hexDigit_mem_name _ (by omega)).symm, (hexDigit_mem_name _ (by omega)).symm⟩

theorem fatName_archiveName_inj {a b : Digest}
    (h : fatName (archiveName a) = fatName (archiveName b)) : a = b := by
  have hnames := fatName_inj h
  rw [map_lower_archiveName, map_lower_archiveName] at hnames
  unfold archiveName at hnames
  exact hexDigest_inj (List.append_cancel_left (List.append_cancel_right hnames))

theorem fatName_part_ne (a b : Digest) :
    fatName (archiveName a ++ bytesOf ".part") ≠ fatName (archiveName b) := by
  intro h
  have hlength := congrArg List.length (fatName_inj h)
  have hsuffix : (bytesOf ".part").length = 5 := by decide
  simp only [List.length_map, List.length_append, archiveName, length_hexDigest, hsuffix] at hlength
  omega

/-! ### Built paths -/

theorem pathsFit_of_build {volume : Bytes} {binding : AuthenticatedUpdateBinding}
    {paths : FatFsUpdateArchivePaths}
    (h : buildFatFsUpdateArchivePaths volume binding = .ok paths) : PathsFit binding paths := by
  unfold buildFatFsUpdateArchivePaths at h
  obtain ⟨volumeRoot, hroot, h⟩ := bind_eq_ok.mp h
  obtain ⟨digest, hdigest, h⟩ := bind_eq_ok.mp h
  obtain ⟨-, h⟩ := reject_bind_eq_ok.mp h
  obtain ⟨⟨⟩, hfinal, h⟩ := bind_eq_ok.mp h
  obtain ⟨⟨⟩, hpart, h⟩ := bind_eq_ok.mp h
  cases h
  obtain ⟨name, hname, rfl⟩ := normalizeVolume_ok hroot
  unfold validateAndHashBinding at hdigest
  simp only [reject_bind_eq_ok, not_or, not_not] at hdigest
  obtain ⟨⟨hurl, hfilename, hlength⟩, -, -, -, -, -, hdigest⟩ := hdigest
  obtain ⟨-, -, hdigest⟩ := bind_eq_ok.mp hdigest
  cases hdigest
  have hsuffix : (0x2f : UInt8) ∉ bytesOf ".part" := by decide
  have hslash := slash_notMem_archiveName (sha256 (bindingText binding))
  exact {
    digest := rfl
    url := lt_of_le_of_lt hurl.2 (by decide)
    filename := lt_of_le_of_lt hfilename.2 (by decide)
    root := lt_of_le_of_lt hlength.2 (by decide)
    final := hfinal
    part := hpart
    nodes := ⟨_, nodePath_append hname hslash, nodePath_append hname fun hmem =>
      (List.mem_append.mp hmem).elim hslash hsuffix⟩ }

/-- No part is a final file, whatever the bindings. -/
theorem part_ne_final {binding binding' : AuthenticatedUpdateBinding}
    {paths paths' : FatFsUpdateArchivePaths} (hfit : PathsFit binding paths)
    (hfit' : PathsFit binding' paths') : nodePath paths.partPath ≠ nodePath paths'.finalPath := by
  obtain ⟨directory, -, hpart⟩ := hfit.nodes
  obtain ⟨directory', hfinal, -⟩ := hfit'.nodes
  rw [hpart, hfinal]
  intro heq
  exact fatName_part_ne _ _ (List.append_inj' heq rfl |>.2 |> List.singleton_inj.mp)

theorem digest_eq_of_final {binding binding' : AuthenticatedUpdateBinding}
    {paths paths' : FatFsUpdateArchivePaths} (hfit : PathsFit binding paths)
    (hfit' : PathsFit binding' paths')
    (h : nodePath paths.finalPath = nodePath paths'.finalPath) :
    paths.bindingSha256 = paths'.bindingSha256 := by
  obtain ⟨directory, hfinal, -⟩ := hfit.nodes
  obtain ⟨directory', hfinal', -⟩ := hfit'.nodes
  rw [hfinal, hfinal'] at h
  exact fatName_archiveName_inj (List.append_inj' h rfl |>.2 |> List.singleton_inj.mp)

theorem dropLast_part_eq {binding : AuthenticatedUpdateBinding} {paths : FatFsUpdateArchivePaths}
    (hfit : PathsFit binding paths) :
    (nodePath paths.partPath).dropLast = (nodePath paths.finalPath).dropLast := by
  obtain ⟨directory, hfinal, hpart⟩ := hfit.nodes
  rw [hfinal, hpart, List.dropLast_concat, List.dropLast_concat]

/-- The directories above the part are above the final file, so neither is one of them. -/
theorem notMem_parentPaths {binding : AuthenticatedUpdateBinding}
    {paths : FatFsUpdateArchivePaths} (hfit : PathsFit binding paths) :
    nodePath paths.finalPath ∉ parentPaths (nodePath paths.partPath) := by
  obtain ⟨directory, hfinal, hpart⟩ := hfit.nodes
  rw [hfinal, hpart]
  unfold parentPaths
  intro hmem
  obtain ⟨n, hn, heq⟩ := List.mem_map.mp hmem
  have hlength := congrArg List.length heq
  have hbound := List.mem_range.mp (List.mem_of_mem_tail hn)
  simp only [List.length_take, List.length_append, List.length_singleton] at hlength hbound
  omega

theorem boardByte_inj {a b : BoardFamily} (h : a.toByte = b.toByte) : a = b := by
  cases a <;> cases b <;> first | rfl | (exact absurd h (by decide))

theorem hashU64_inj {a b : UInt64} (h : hashU64 a = hashU64 b) : a = b :=
  UInt64.toNat.inj (encodeBe_injOn a.toNat_lt b.toNat_lt h)

/-- The text determines the binding. -/
theorem bindingText_inj {binding binding' : AuthenticatedUpdateBinding}
    {paths paths' : FatFsUpdateArchivePaths} (hfit : PathsFit binding paths)
    (hfit' : PathsFit binding' paths') (h : bindingText binding = bindingText binding') :
    binding = binding' := by
  have hframed := selfDelimiting_lengthFirst 4
  have hbool : ∀ a b : Bool, a.toUInt8 = b.toUInt8 → a = b := by decide
  unfold bindingText at h
  simp only [List.append_assoc] at h
  have h := List.append_cancel_left (List.append_cancel_left h)
  obtain ⟨hurl, h⟩ := hframed hfit.url hfit'.url h
  obtain ⟨hfilename, h⟩ := hframed hfit.filename hfit'.filename h
  obtain ⟨hroot, h⟩ := hframed hfit.root hfit'.root h
  obtain ⟨hboard, h⟩ := List.append_inj h (by simp)
  obtain ⟨hsource, h⟩ := List.append_inj h (by simp [hashU64])
  obtain ⟨htarget, h⟩ := List.append_inj h (by simp [hashU64])
  obtain ⟨hold, h⟩ := List.append_inj h (by simp [hashU64])
  obtain ⟨hnew, h⟩ := List.append_inj h (by simp [hashU64])
  obtain ⟨hsize, h⟩ := List.append_inj h (by simp [hashU64])
  obtain ⟨htransaction, h⟩ := List.append_inj h (by simp)
  obtain ⟨harchive, h⟩ := List.append_inj h (by simp)
  obtain ⟨hmanifest, h⟩ := List.append_inj h (by simp)
  obtain ⟨hconsent, h⟩ := List.append_inj h (by simp)
  simp only [List.cons.injEq, and_true] at h hboard
  cases binding
  cases binding'
  simp only [AuthenticatedUpdateBinding.mk.injEq] at *
  exact ⟨hurl, hfilename, hroot, boardByte_inj hboard, hashU64_inj hsource, hashU64_inj htarget,
    hashU64_inj hold, hashU64_inj hnew, hashU64_inj hsize, Block.ext htransaction,
    Block.ext harchive, Block.ext hmanifest, Block.ext hconsent, hbool _ _ h.1, hbool _ _ h.2⟩

end Archive

end BmxUpdate
