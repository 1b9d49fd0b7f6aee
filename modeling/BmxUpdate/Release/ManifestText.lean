import BmxUpdate.Json.Records
import BmxUpdate.Release.ManifestSound

/-!
# Manifests written as trees

`manifestTree` writes each part of a manifest as the record of its fields.  The tree of a valid
manifest can be written as it stands, and is read as that manifest.
-/

namespace BmxUpdate

namespace Release

open Wire Http Json JsonGrammar JsonGrammar.Tree Checks Config

/-! ## The trees -/

def releaseTree (m : ReleaseManifest) : Tree :=
  record releaseFields
    [quoted m.version, numeral m.releaseSequence.toNat, numeral m.releaseEpoch.toNat, quoted m.tag,
      quoted (bytesOf "stable"), quoted m.sourceCommit, numeral m.minimumUpdaterAbi.toNat,
      numeral m.maximumUpdaterAbi.toNat, .array (m.signingKeyIds.map quoted)]

def schemaTree (s : ManifestConfigSchema) : Tree :=
  record schemaFields
    [quoted (areaText s.area), numeral s.targetVersion.toNat,
      .array ((s.acceptedVersions.map UInt32.toNat).map numeral)]

def migrationTree (m : ManifestMigration) : Tree :=
  record migrationFields
    [quoted (areaText m.area), numeral m.fromVersion.toNat, quoted m.id, .bool m.lossy,
      numeral m.toVersion.toNat]

def lossyChangeTree (c : ManifestLossyChange) : Tree :=
  record lossyFields [quoted (areaText c.area), quoted c.description]

def configurationTree (m : ReleaseManifest) : Tree :=
  record configurationFields
    [.array (m.schemas.map schemaTree), .array (m.migrations.map migrationTree),
      .array (m.lossyChanges.map lossyChangeTree)]

def fileTree (f : ManifestFile) : Tree :=
  record fileFields
    [quoted f.path, numeral f.size, quoted (digestText f.sha256), quoted (policyText f.policy),
      quoted (compressionText f.compression)]

def modelsTree (board : BoardFamily) : Tree :=
  .array [quoted (bytesOf (boardModels board).1), quoted (bytesOf (boardModels board).2)]

def assetTree (a : ManifestAsset) : Tree :=
  record assetFields
    [quoted (boardText a.board), modelsTree a.board, quoted a.filename, numeral a.downloadSize,
      quoted (digestText a.sha256), numeral a.installedSize, numeral a.requiredPeakBytes,
      quoted (bytesOf "bmx-zip32-v1"), .array (a.directories.map quoted),
      .array (a.files.map fileTree)]

def manifestTree (m : ReleaseManifest) (other : ManifestAsset) : Tree :=
  record rootFields
    [numeral 2, releaseTree m, configurationTree m,
      .array ((inBoardOrder m.asset other).map assetTree)]

/-! ## The texts of a valid manifest are printable -/

instance decidablePlainText (s : Bytes) : Decidable (PlainText s) :=
  List.decidableBAll (fun c : UInt8 => 0x20 ≤ c.toNat ∧ c.toNat ≤ 0x7e) s

theorem alphaNumeric_range {c : UInt8} (h : isAsciiAlphaNumeric c = true) :
    0x20 ≤ c.toNat ∧ c.toNat ≤ 0x7e := by
  simp only [isAsciiAlphaNumeric, Bool.or_eq_true, Bool.and_eq_true, decide_eq_true_eq,
    UInt8.le_iff_toNat_le, UInt8.reduceToNat] at h
  omega

/-- The characters of versions, tags and identifiers. -/
theorem printable_of_alphaNumeric {s : Bytes} (h : ∀ c ∈ s, isAsciiAlphaNumeric c = true ∨
    c = 0x2e ∨ c = 0x5f ∨ c = 0x2b ∨ c = 0x2d) : PlainText s := by
  intro c hc
  rcases h c hc with hc | rfl | rfl | rfl | rfl
  · exact alphaNumeric_range hc
  all_goals decide

theorem printable_of_lowerHex {s : Bytes} (h : ∀ c ∈ s, isLowerHex c = true) : PlainText s := by
  intro c hc
  have hhex := h c hc
  simp only [isLowerHex, Bool.or_eq_true, Bool.and_eq_true, decide_eq_true_eq,
    UInt8.le_iff_toNat_le, UInt8.reduceToNat] at hhex
  omega

theorem version_text {s : Bytes} (h : isVersion s = true) : PlainText s ∧ s.length ≤ 64 := by
  simp only [isVersion, Bool.and_eq_true, Bool.or_eq_true, decide_eq_true_eq, List.all_eq_true,
    or_assoc] at h
  exact ⟨printable_of_alphaNumeric h.2, h.1.1.2⟩

theorem tag_text {s : Bytes} (h : isTag s = true) : PlainText s ∧ s.length ≤ 128 := by
  simp only [isTag, Bool.and_eq_true, Bool.or_eq_true, decide_eq_true_eq, List.all_eq_true,
    or_assoc] at h
  exact ⟨printable_of_alphaNumeric h.2, h.1.1.2⟩

theorem commit_text {s : Bytes} (h : isCommit s = true) : PlainText s ∧ s.length ≤ 64 := by
  simp only [isCommit, Bool.and_eq_true, Bool.or_eq_true, decide_eq_true_eq, List.all_eq_true] at h
  refine ⟨printable_of_lowerHex h.2, ?_⟩
  omega

theorem identifier_text {s : Bytes} (h : isIdentifier s = true) : PlainText s ∧ s.length ≤ 64 := by
  cases s with
  | nil => cases h
  | cons c rest =>
      simp only [isIdentifier, Bool.and_eq_true, Bool.or_eq_true, decide_eq_true_eq,
        List.all_eq_true, beq_iff_eq, or_assoc] at h
      refine ⟨printable_of_alphaNumeric (List.forall_mem_cons.mpr ⟨.inl h.1.2, ?_⟩), h.1.1⟩
      intro d hd
      rcases h.2 d hd with hd | hd | hd | hd
      · exact .inl hd
      · exact .inr (.inl hd)
      · exact .inr (.inr (.inl hd))
      · exact .inr (.inr (.inr (.inr hd)))

theorem description_text {s : Bytes} (h : isDisplaySafeDescription s = true) : PlainText s := by
  simp only [isDisplaySafeDescription, Bool.and_eq_true, List.all_eq_true, decide_eq_true_eq] at h
  exact fun c hc => ⟨UInt8.le_iff_toNat_le.mp (h.2 c hc).1, UInt8.le_iff_toNat_le.mp (h.2 c hc).2⟩

theorem digestText_printable (digest : Digest) : PlainText (digestText digest) :=
  printable_of_lowerHex fun _ hc => isLowerHex_of_mem_digestText hc

/-- The field names of a manifest are keys. -/
theorem manifest_keys : ∀ fields ∈ [rootFields, releaseFields, configurationFields, schemaFields,
    migrationFields, lossyFields, assetFields, fileFields], Keys fields := by
  decide

/-- The texts a manifest is written with are printable and short. -/
theorem constant_texts :
    (∀ area ∈ .unknown :: configAreas, PlainText (areaText area) ∧ (areaText area).length < 65) ∧
    (∀ policy ∈ [ManifestFilePolicy.kernel, .managedReplace, .configTemplate, .preserve, .metadata],
      PlainText (policyText policy) ∧ (policyText policy).length < 32) ∧
    (∀ compression ∈ [ManifestCompression.store, .deflate],
      PlainText (compressionText compression) ∧ (compressionText compression).length < 16) ∧
    (∀ board ∈ [BoardFamily.unknown, .pi4Pi400, .pi5Pi500],
      (PlainText (boardText board) ∧ (boardText board).length < 8) ∧
      ((PlainText (bytesOf (boardModels board).1) ∧ (bytesOf (boardModels board).1).length < 32) ∧
        PlainText (bytesOf (boardModels board).2) ∧ (bytesOf (boardModels board).2).length < 32) ∧
      PlainText (bytesOf (if board = .pi4Pi400 then "pi4-pi400" else "pi5-pi500")) ∧
        (bytesOf (if board = .pi4Pi400 then "pi4-pi400" else "pi5-pi500")).length = 9) ∧
    (∀ text ∈ ["stable", "bmx-zip32-v1", "bmx-", "-", "-boot.zip"],
      PlainText (bytesOf text) ∧ (bytesOf text).length = text.length ∧ text.length < 16) := by
  decide

theorem areaText_text (area : ConfigArea) :
    PlainText (areaText area) ∧ (areaText area).length < 65 :=
  constant_texts.1 area (by cases area <;> decide)

theorem policyText_text (policy : ManifestFilePolicy) :
    PlainText (policyText policy) ∧ (policyText policy).length < 32 :=
  constant_texts.2.1 policy (by cases policy <;> decide)

theorem compressionText_text (compression : ManifestCompression) :
    PlainText (compressionText compression) ∧ (compressionText compression).length < 16 :=
  constant_texts.2.2.1 compression (by cases compression <;> decide)

theorem board_texts (board : BoardFamily) :
    (PlainText (boardText board) ∧ (boardText board).length < 8) ∧
      ((PlainText (bytesOf (boardModels board).1) ∧ (bytesOf (boardModels board).1).length < 32) ∧
        PlainText (bytesOf (boardModels board).2) ∧ (bytesOf (boardModels board).2).length < 32) ∧
      PlainText (bytesOf (if board = .pi4Pi400 then "pi4-pi400" else "pi5-pi500")) ∧
        (bytesOf (if board = .pi4Pi400 then "pi4-pi400" else "pi5-pi500")).length = 9 :=
  constant_texts.2.2.2.1 board (by cases board <;> decide)

theorem word_text {text : String}
    (h : text ∈ ["stable", "bmx-zip32-v1", "bmx-", "-", "-boot.zip"]) :
    PlainText (bytesOf text) ∧ (bytesOf text).length = text.length ∧ text.length < 16 :=
  constant_texts.2.2.2.2 text h

theorem path_text {path : Bytes} (h : isSafeManifestPath path = true) :
    PlainText path ∧ path.length ≤ kMaximumManifestPathBytes := by
  have hpath := FatPath.validateFatRelativePathBytes_ok_iff.mp (of_decide_eq_true h)
  refine ⟨fun c hc => ?_, hpath.bounded⟩
  by_cases hslash : c = 0x2f
  · subst hslash
    decide
  · obtain ⟨component, hcomponent, hmem⟩ := FatPath.exists_component_of_mem hc hslash
    obtain ⟨hlow, hhigh, -⟩ := (hpath.components component hcomponent).2 c hmem
    exact ⟨Nat.not_lt.mp hlow, Nat.not_lt.mp hhigh⟩

theorem filename_text {version : Bytes} (h : isVersion version = true) (board : BoardFamily) :
    PlainText (expectedFilename version board) ∧ (expectedFilename version board).length < 161 := by
  obtain ⟨hversion, hlength⟩ := version_text h
  obtain ⟨-, -, hboard, hboard'⟩ := board_texts board
  obtain ⟨hfirst, hfirst', hfirst''⟩ := word_text (show "bmx-" ∈ _ by simp)
  obtain ⟨hdash, hdash', hdash''⟩ := word_text (show "-" ∈ _ by simp)
  obtain ⟨hlast, hlast', hlast''⟩ := word_text (show "-boot.zip" ∈ _ by simp)
  unfold expectedFilename
  refine ⟨.append (.append (.append (.append hfirst hversion) hdash) hboard) hlast, ?_⟩
  simp only [List.length_append]
  omega

/-! ## What the trees are read as -/

theorem copyString_word {text : String}
    (h : text ∈ ["stable", "bmx-zip32-v1", "bmx-", "-", "-boot.zip"]) {size : Nat}
    (hsize : 16 ≤ size) : treeReader.copyString (some (quoted (bytesOf text))) size =
      some (bytesOf text) := by
  obtain ⟨hprintable, hlength, hshort⟩ := word_text h
  exact copyString_quoted hprintable (by omega)

theorem uint64_of_le {n minimum maximum : Nat} (hmaximum : maximum ≤ int64Max) (hlow : minimum ≤ n)
    (hhigh : n ≤ maximum) : treeReader.uint64 (some (numeral n)) minimum maximum = some n := by
  unfold int64Max at hmaximum
  exact uint64_numeral (by omega) hlow hhigh

theorem uint32_of_le {n minimum : Nat} (hlow : minimum ≤ n) (hhigh : n ≤ int32Max) :
    treeReader.uint64 (some (numeral n)) minimum int32Max = some n :=
  uint64_of_le (by decide) hlow hhigh

theorem reads_releaseTree {m : ReleaseManifest} (h : ValidRelease m) :
    ReadsRelease treeReader (some (releaseTree m)) m := by
  obtain ⟨hversion, hversion'⟩ := version_text h.version
  obtain ⟨htag, htag'⟩ := tag_text h.tag
  obtain ⟨hcommit, hcommit'⟩ := commit_text h.sourceCommit
  have habi := h.abi
  have hminimum := h.minimumAbi
  have hmaximum := h.maximumAbi
  unfold releaseTree
  constructor
  · exact exactObject_record rfl
  · rw [member_record (i := 0) (manifest_keys releaseFields (by simp)) rfl]
    exact copyString_quoted hversion (by omega)
  · rw [member_record (i := 3) (manifest_keys releaseFields (by simp)) rfl]
    exact copyString_quoted htag (by omega)
  · rw [member_record (i := 4) (manifest_keys releaseFields (by simp)) rfl]
    exact copyString_word (by simp) (by decide)
  · rw [member_record (i := 5) (manifest_keys releaseFields (by simp)) rfl]
    exact copyString_quoted hcommit (by omega)
  · rw [member_record (i := 1) (manifest_keys releaseFields (by simp)) rfl]
    exact uint32_of_le h.sequence.1 h.sequence.2
  · rw [member_record (i := 2) (manifest_keys releaseFields (by simp)) rfl]
    exact uint64_of_le (Nat.le_refl _) h.epoch.1 h.epoch.2
  · rw [member_record (i := 6) (manifest_keys releaseFields (by simp)) rfl]
    exact uint32_of_le hminimum (by omega)
  · rw [member_record (i := 7) (manifest_keys releaseFields (by simp)) rfl]
    exact uint32_of_le (by omega) hmaximum
  · rw [member_record (i := 8) (manifest_keys releaseFields (by simp)) rfl]
    refine reads_array fun key hkey => ?_
    obtain ⟨hprintable, hlength⟩ := identifier_text (h.keys key hkey)
    exact copyString_quoted hprintable (by omega)

theorem reads_schemaTree {s : ManifestConfigSchema} (h : ValidSchema s) :
    ReadsSchema treeReader (some (schemaTree s)) s := by
  obtain ⟨harea, harea'⟩ := areaText_text s.area
  unfold schemaTree
  constructor
  · exact exactObject_record rfl
  · rw [member_record (i := 0) (manifest_keys schemaFields (by simp)) rfl]
    exact copyString_quoted harea harea'
  · rw [member_record (i := 1) (manifest_keys schemaFields (by simp)) rfl]
    exact uint32_of_le (Nat.zero_le _) (h.acceptedRange _ h.target)
  · rw [member_record (i := 2) (manifest_keys schemaFields (by simp)) rfl]
    rfl
  · rw [member_record (i := 2) (manifest_keys schemaFields (by simp)) rfl]
    refine reads_array fun n hn => ?_
    obtain ⟨v, hv, rfl⟩ := List.mem_map.mp hn
    exact uint32_of_le (Nat.zero_le _) (h.acceptedRange v hv)

theorem reads_migrationTree {m : ManifestMigration} (h : ValidMigration m) :
    ReadsMigration treeReader (some (migrationTree m)) m := by
  obtain ⟨harea, harea'⟩ := areaText_text m.area
  obtain ⟨hid, hid'⟩ := identifier_text h.id
  unfold migrationTree
  constructor
  · exact exactObject_record rfl
  · rw [member_record (i := 2) (manifest_keys migrationFields (by simp)) rfl]
    exact copyString_quoted hid (by omega)
  · rw [member_record (i := 0) (manifest_keys migrationFields (by simp)) rfl]
    exact copyString_quoted harea harea'
  · rw [member_record (i := 1) (manifest_keys migrationFields (by simp)) rfl]
    exact uint32_of_le (Nat.zero_le _) h.fromVersion
  · rw [member_record (i := 4) (manifest_keys migrationFields (by simp)) rfl]
    exact uint32_of_le (Nat.zero_le _) h.toVersion
  · rw [member_record (i := 3) (manifest_keys migrationFields (by simp)) rfl]
    rfl

theorem reads_lossyChangeTree {c : ManifestLossyChange} (h : ValidLossyChange c) :
    ReadsLossyChange treeReader (some (lossyChangeTree c)) c := by
  obtain ⟨harea, harea'⟩ := areaText_text c.area
  have hbounded := h.bounded
  unfold lossyChangeTree
  constructor
  · exact exactObject_record rfl
  · rw [member_record (i := 0) (manifest_keys lossyFields (by simp)) rfl]
    exact copyString_quoted harea harea'
  · rw [member_record (i := 1) (manifest_keys lossyFields (by simp)) rfl]
    exact copyString_quoted (description_text h.description) (by omega)

theorem reads_configurationTree {m : ReleaseManifest} (h : ValidConfiguration m) :
    ReadsConfiguration treeReader (some (configurationTree m)) m := by
  unfold configurationTree
  constructor
  · exact exactObject_record rfl
  · rw [member_record (i := 0) (manifest_keys configurationFields (by simp)) rfl]
    rfl
  · rw [member_record (i := 0) (manifest_keys configurationFields (by simp)) rfl]
    exact reads_array fun s hs => reads_schemaTree (h.schemas s hs)
  · rw [member_record (i := 1) (manifest_keys configurationFields (by simp)) rfl]
    rfl
  · rw [member_record (i := 1) (manifest_keys configurationFields (by simp)) rfl]
    exact reads_array fun c hc => reads_migrationTree (h.migrations c hc)
  · rw [member_record (i := 2) (manifest_keys configurationFields (by simp)) rfl]
    rfl
  · rw [member_record (i := 2) (manifest_keys configurationFields (by simp)) rfl]
    exact reads_array fun c hc => reads_lossyChangeTree (h.lossyChanges c hc)

theorem reads_fileTree {board : BoardFamily} {f : ManifestFile} (h : ValidFile board f) :
    ReadsFile treeReader (some (fileTree f)) f := by
  obtain ⟨hpath, hpath'⟩ := path_text h.path
  obtain ⟨hpolicy, hpolicy'⟩ := policyText_text f.policy
  obtain ⟨hcompression, hcompression'⟩ := compressionText_text f.compression
  unfold fileTree
  constructor
  · exact exactObject_record rfl
  · rw [member_record (i := 0) (manifest_keys fileFields (by simp)) rfl]
    exact copyString_quoted hpath (by omega)
  · rw [member_record (i := 1) (manifest_keys fileFields (by simp)) rfl]
    exact uint64_of_le (by decide) (Nat.zero_le _) h.size
  · rw [member_record (i := 2) (manifest_keys fileFields (by simp)) rfl]
    exact copyString_quoted (digestText_printable _) (by rw [length_digestText]; decide)
  · rw [member_record (i := 3) (manifest_keys fileFields (by simp)) rfl]
    exact copyString_quoted hpolicy hpolicy'
  · rw [member_record (i := 4) (manifest_keys fileFields (by simp)) rfl]
    exact copyString_quoted hcompression hcompression'

theorem reads_assetTree {version : Bytes} (hversion : isVersion version = true) {board : BoardFamily}
    {a : ManifestAsset} (h : ValidAsset version board a) :
    ReadsAsset treeReader (some (assetTree a)) a := by
  obtain ⟨hboard, hboard'⟩ := (board_texts a.board).1
  obtain ⟨⟨hfirst, hfirst'⟩, hsecond, hsecond'⟩ := (board_texts a.board).2.1
  obtain ⟨hfilename, hfilename'⟩ := filename_text hversion board
  rw [← h.filename] at hfilename hfilename'
  have hpeak := h.peak
  unfold assetTree modelsTree
  constructor
  · exact exactObject_record rfl
  · rw [member_record (i := 0) (manifest_keys assetFields (by simp)) rfl]
    exact copyString_quoted hboard hboard'
  · rw [member_record (i := 1) (manifest_keys assetFields (by simp)) rfl]
    rfl
  · rw [member_record (i := 1) (manifest_keys assetFields (by simp)) rfl]
    rfl
  · rw [member_record (i := 1) (manifest_keys assetFields (by simp)) rfl]
    exact copyString_quoted hfirst hfirst'
  · rw [member_record (i := 1) (manifest_keys assetFields (by simp)) rfl]
    exact copyString_quoted hsecond hsecond'
  · rw [member_record (i := 2) (manifest_keys assetFields (by simp)) rfl]
    exact copyString_quoted hfilename hfilename'
  · rw [member_record (i := 3) (manifest_keys assetFields (by simp)) rfl]
    exact uint64_of_le (by decide) h.download.1 h.download.2
  · rw [member_record (i := 4) (manifest_keys assetFields (by simp)) rfl]
    exact copyString_quoted (digestText_printable _) (by rw [length_digestText]; decide)
  · rw [member_record (i := 5) (manifest_keys assetFields (by simp)) rfl]
    exact uint64_of_le (by decide) h.installed.1 h.installed.2
  · rw [member_record (i := 6) (manifest_keys assetFields (by simp)) rfl]
    exact uint64_of_le (Nat.le_refl _) (by unfold kSafetyReserveBytes at hpeak; omega) h.peak.2
  · rw [member_record (i := 7) (manifest_keys assetFields (by simp)) rfl]
    exact copyString_word (by simp) (by decide)
  · rw [member_record (i := 8) (manifest_keys assetFields (by simp)) rfl]
    rfl
  · rw [member_record (i := 8) (manifest_keys assetFields (by simp)) rfl]
    refine reads_array fun path hpath => ?_
    obtain ⟨hprintable, hlength⟩ := path_text (h.directories path hpath).1
    exact copyString_quoted hprintable (by omega)
  · rw [member_record (i := 9) (manifest_keys assetFields (by simp)) rfl]
    rfl
  · rw [member_record (i := 9) (manifest_keys assetFields (by simp)) rfl]
    exact reads_array fun f hf => reads_fileTree (h.files f hf)

theorem reads_manifestTree {board : BoardFamily} {m : ReleaseManifest} {other : ManifestAsset}
    (h : ValidManifest board m other) :
    ReadsManifest treeReader (some (manifestTree m other)) m other := by
  unfold manifestTree
  constructor
  · rfl
  · exact exactObject_record rfl
  · rw [member_record (i := 0) (manifest_keys rootFields (by simp)) rfl]
    exact uint64_of_le (by decide) (Nat.le_refl _) (Nat.le_refl _)
  · rw [member_record (i := 1) (manifest_keys rootFields (by simp)) rfl]
    exact reads_releaseTree h.release
  · rw [member_record (i := 2) (manifest_keys rootFields (by simp)) rfl]
    exact reads_configurationTree h.configuration
  · rw [member_record (i := 3) (manifest_keys rootFields (by simp)) rfl]
    rfl
  · rw [member_record (i := 3) (manifest_keys rootFields (by simp)) rfl]
    refine reads_array fun a ha => ?_
    rcases mem_inBoardOrder.mp ha with rfl | rfl
    · exact reads_assetTree h.release.version h.asset
    · exact reads_assetTree h.release.version h.otherAsset

/-! ## The trees are well formed -/

theorem wellFormed_quotedList {texts : List Bytes} {levels : Nat}
    (h : ∀ s ∈ texts, PlainText s) : (Tree.array (texts.map quoted)).wellFormed (levels + 2) = true := by
  refine wellFormed_array fun t ht => ?_
  obtain ⟨s, hs, rfl⟩ := List.mem_map.mp ht
  exact wellFormed_quoted (h s hs)

theorem wellFormed_map {α : Type} {f : α → Tree} {as : List α} {levels : Nat}
    (h : ∀ a ∈ as, (f a).wellFormed levels = true) :
    (Tree.array (as.map f)).wellFormed (levels + 1) = true := by
  refine wellFormed_array fun t ht => ?_
  obtain ⟨a, ha, rfl⟩ := List.mem_map.mp ht
  exact h a ha

theorem wellFormed_releaseTree {m : ReleaseManifest} (h : ValidRelease m) (levels : Nat) :
    (releaseTree m).wellFormed (levels + 3) = true := by
  refine wellFormed_record (manifest_keys releaseFields (by simp)) rfl ?_
  simp only [List.forall_mem_cons, List.not_mem_nil, false_imp_iff, implies_true, and_true]
  exact ⟨wellFormed_quoted (version_text h.version).1, wellFormed_numeral, wellFormed_numeral,
    wellFormed_quoted (tag_text h.tag).1, wellFormed_quoted (word_text (show "stable" ∈ _ by simp)).1,
    wellFormed_quoted (commit_text h.sourceCommit).1, wellFormed_numeral, wellFormed_numeral,
    wellFormed_quotedList fun key hkey => (identifier_text (h.keys key hkey)).1⟩

theorem wellFormed_schemaTree (s : ManifestConfigSchema) (levels : Nat) :
    (schemaTree s).wellFormed (levels + 3) = true := by
  refine wellFormed_record (manifest_keys schemaFields (by simp)) rfl ?_
  simp only [List.forall_mem_cons, List.not_mem_nil, false_imp_iff, implies_true, and_true]
  exact ⟨wellFormed_quoted (areaText_text _).1, wellFormed_numeral,
    wellFormed_map fun _ _ => wellFormed_numeral⟩

theorem wellFormed_migrationTree {m : ManifestMigration} (h : ValidMigration m) (levels : Nat) :
    (migrationTree m).wellFormed (levels + 2) = true := by
  refine wellFormed_record (manifest_keys migrationFields (by simp)) rfl ?_
  simp only [List.forall_mem_cons, List.not_mem_nil, false_imp_iff, implies_true, and_true]
  exact ⟨wellFormed_quoted (areaText_text _).1, wellFormed_numeral,
    wellFormed_quoted (identifier_text h.id).1, rfl, wellFormed_numeral⟩

theorem wellFormed_lossyChangeTree {c : ManifestLossyChange} (h : ValidLossyChange c) (levels : Nat) :
    (lossyChangeTree c).wellFormed (levels + 2) = true := by
  refine wellFormed_record (manifest_keys lossyFields (by simp)) rfl ?_
  simp only [List.forall_mem_cons, List.not_mem_nil, false_imp_iff, implies_true, and_true]
  exact ⟨wellFormed_quoted (areaText_text _).1, wellFormed_quoted (description_text h.description)⟩

theorem wellFormed_configurationTree {m : ReleaseManifest} (h : ValidConfiguration m)
    (levels : Nat) : (configurationTree m).wellFormed (levels + 5) = true := by
  refine wellFormed_record (manifest_keys configurationFields (by simp)) rfl ?_
  simp only [List.forall_mem_cons, List.not_mem_nil, false_imp_iff, implies_true, and_true]
  exact ⟨wellFormed_map fun s _ => wellFormed_schemaTree s levels,
    wellFormed_map fun c hc => wellFormed_migrationTree (h.migrations c hc) (levels + 1),
    wellFormed_map fun c hc => wellFormed_lossyChangeTree (h.lossyChanges c hc) (levels + 1)⟩

theorem wellFormed_fileTree {board : BoardFamily} {f : ManifestFile} (h : ValidFile board f)
    (levels : Nat) : (fileTree f).wellFormed (levels + 2) = true := by
  refine wellFormed_record (manifest_keys fileFields (by simp)) rfl ?_
  simp only [List.forall_mem_cons, List.not_mem_nil, false_imp_iff, implies_true, and_true]
  exact ⟨wellFormed_quoted (path_text h.path).1, wellFormed_numeral,
    wellFormed_quoted (digestText_printable _), wellFormed_quoted (policyText_text _).1,
    wellFormed_quoted (compressionText_text _).1⟩

theorem wellFormed_modelsTree (board : BoardFamily) (levels : Nat) :
    (modelsTree board).wellFormed (levels + 2) = true := by
  obtain ⟨⟨hfirst, -⟩, hsecond, -⟩ := (board_texts board).2.1
  refine wellFormed_array ?_
  simp only [List.forall_mem_cons, List.not_mem_nil, false_imp_iff, implies_true, and_true]
  exact ⟨wellFormed_quoted hfirst, wellFormed_quoted hsecond⟩

theorem wellFormed_assetTree {version : Bytes} (hversion : isVersion version = true)
    {board : BoardFamily} {a : ManifestAsset} (h : ValidAsset version board a) (levels : Nat) :
    (assetTree a).wellFormed (levels + 4) = true := by
  have hfilename := (filename_text hversion board).1
  rw [← h.filename] at hfilename
  refine wellFormed_record (manifest_keys assetFields (by simp)) rfl ?_
  simp only [List.forall_mem_cons, List.not_mem_nil, false_imp_iff, implies_true, and_true]
  exact ⟨wellFormed_quoted (board_texts _).1.1, wellFormed_modelsTree _ _,
    wellFormed_quoted hfilename, wellFormed_numeral, wellFormed_quoted (digestText_printable _),
    wellFormed_numeral, wellFormed_numeral, wellFormed_quoted (word_text (show "bmx-zip32-v1" ∈ _ by simp)).1,
    wellFormed_quotedList fun path hpath => (path_text (h.directories path hpath).1).1,
    wellFormed_map fun f hf => wellFormed_fileTree (h.files f hf) levels⟩

theorem wellFormed_manifestTree {board : BoardFamily} {m : ReleaseManifest} {other : ManifestAsset}
    (h : ValidManifest board m other) (levels : Nat) :
    (manifestTree m other).wellFormed (levels + 6) = true := by
  refine wellFormed_record (manifest_keys rootFields (by simp)) rfl ?_
  simp only [List.forall_mem_cons, List.not_mem_nil, false_imp_iff, implies_true, and_true]
  refine ⟨wellFormed_numeral, wellFormed_releaseTree h.release (levels + 2),
    wellFormed_configurationTree h.configuration levels, wellFormed_map fun a ha => ?_⟩
  rcases mem_inBoardOrder.mp ha with rfl | rfl
  · exact wellFormed_assetTree h.release.version h.asset levels
  · exact wellFormed_assetTree h.release.version h.otherAsset levels

end Release

end BmxUpdate
