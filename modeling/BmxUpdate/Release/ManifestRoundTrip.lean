import BmxUpdate.Release.ManifestText

/-!
# The round trip of a manifest

`ParseReleaseManifest` over the text of a tree is the parser over the tree, since its accessors
say the same of both; so every valid manifest is what the parser makes of its text.
-/

namespace BmxUpdate

namespace Release

open Wire Http Json JsonGrammar JsonGrammar.Tree Checks Config

/-! ## From the tree to the tokens -/

section Maps

variable {ι κ : Type} {r : Reader ι} {r' : Reader κ} {f : ι → κ}

/-- A loop over the children of what is mapped. -/
theorem overChildren_maps (h : r.Maps r' f) {σ : Type} {array : ι} {initial : σ}
    {step : σ → ι → Except ManifestParseStatus σ} {step' : σ → κ → Except ManifestParseStatus σ}
    (hstep : ∀ s i, step s i = step' s (f i)) :
    overChildren r array step initial = overChildren r' (f array) step' initial := by
  unfold overChildren
  rw [h.elements, List.foldlM_map]
  congr 1
  funext s i
  exact hstep s i

theorem parseSigningKey_maps (h : r.Maps r' f) (keys : List Bytes) (i : ι) :
    parseSigningKey r keys i = parseSigningKey r' keys (f i) := by
  simp only [parseSigningKey, h.copyString]

theorem parseRelease_maps (h : r.Maps r' f) (i : ι) (m : ReleaseManifest) :
    parseRelease r i m = parseRelease r' (f i) m := by
  simp only [parseRelease, h.exactObject, h.copyString, h.uint64, h.directChildren, h.member,
    overChildren_maps h (parseSigningKey_maps h)]

theorem parseSchema_maps (h : r.Maps r' f) (schemas : List (Bytes × ManifestConfigSchema)) (i : ι) :
    parseSchema r schemas i = parseSchema r' schemas (f i) := by
  have hversion : ∀ versions i,
      parseAcceptedVersion r versions i = parseAcceptedVersion r' versions (f i) := fun _ _ => by
    simp only [parseAcceptedVersion, h.uint64]
  simp only [parseSchema, h.exactObject, h.copyString, h.uint64, h.hasType, h.directChildren,
    h.member, overChildren_maps h hversion]

theorem parseMigration_maps (h : r.Maps r' f) (migrations : List ManifestMigration) (i : ι) :
    parseMigration r migrations i = parseMigration r' migrations (f i) := by
  simp only [parseMigration, h.exactObject, h.copyString, h.uint64, h.bool, h.member]

theorem parseLossyChange_maps (h : r.Maps r' f) (changes : List (Bytes × ManifestLossyChange))
    (i : ι) : parseLossyChange r changes i = parseLossyChange r' changes (f i) := by
  simp only [parseLossyChange, h.exactObject, h.copyString, h.member]

theorem parseConfiguration_maps (h : r.Maps r' f) (i : ι) (m : ReleaseManifest) :
    parseConfiguration r i m = parseConfiguration r' (f i) m := by
  simp only [parseConfiguration, h.exactObject, h.hasType, h.directChildren, h.member,
    overChildren_maps h (parseSchema_maps h), overChildren_maps h (parseMigration_maps h),
    overChildren_maps h (parseLossyChange_maps h)]

theorem parseFile_maps (h : r.Maps r' f) (board : BoardFamily) (scan : FileScan) (i : ι) :
    parseFile r board scan i = parseFile r' board scan (f i) := by
  simp only [parseFile, h.exactObject, h.copyString, h.uint64, h.member]

theorem parseAsset_maps (h : r.Maps r' f) (version : Bytes) (i : ι)
    (store : Option ManifestParseStorage) :
    parseAsset r version i store = parseAsset r' version (f i) store := by
  have hdirectory : ∀ directories i,
      parseDirectory r directories i = parseDirectory r' directories (f i) := fun _ _ => by
    simp only [parseDirectory, h.copyString]
  simp only [parseAsset, parseDirectories, parseFiles, h.exactObject, h.copyString, h.uint64,
    h.hasType, h.directChildren, h.directChild, h.member, overChildren_maps h hdirectory,
    overChildren_maps h (parseFile_maps h _)]

/-- Two readers between which there is a map are parsed alike. -/
theorem parseDocument_maps (h : r.Maps r' f) (root : ι) (board : BoardFamily)
    (storage : ManifestParseStorage) :
    parseDocument r root board storage = parseDocument r' (f root) board storage := by
  have hentry : ∀ version scan i, parseAssetEntry r version board storage scan i =
      parseAssetEntry r' version board storage scan (f i) := fun _ _ _ => by
    simp only [parseAssetEntry, parseAsset_maps h]
  simp only [parseDocument, parseAssets, h.hasType, h.exactObject, h.uint64, h.directChildren,
    h.member, parseRelease_maps h, parseConfiguration_maps h, overChildren_maps h (hentry _)]

end Maps

/-! ## The round trip -/

theorem framed_render {members : List (Bytes × Tree)} {levels : Nat}
    (hwf : (Tree.object members).wellFormed levels = true)
    (hsize : (Tree.object members).render.length < kMaximumReleaseManifestBytes) :
    Framed ((Tree.object members).render ++ [0x0a]) where
  size := by
    simp only [render, List.length_append, List.length_cons, List.length_nil] at hsize ⊢
    omega
  first := rfl
  last := List.getLast?_concat
  brace := by
    rw [List.dropLast_concat]
    show (0x7b :: ((renderMembers members).tail ++ [0x7d])).getLast? = some 0x7d
    rw [← List.cons_append, List.getLast?_concat]
  noReturn := by
    intro hmem
    rcases List.mem_append.mp hmem with hmem | hmem
    · exact absurd (bytes_render _ hwf _ hmem) (by decide)
    · exact absurd hmem (by decide)

/-- Over the text of a tree the parser is what it is over the tree. -/
theorem parseReleaseManifest_tree {members : List (Bytes × Tree)} {board : BoardFamily}
    {storage : ManifestParseStorage} (hwf : (Tree.object members).wellFormed 32 = true)
    (hsize : (Tree.object members).render.length < kMaximumReleaseManifestBytes)
    (htokens : (Tree.object members).size ≤ storage.tokenCapacity)
    (hfiles : storage.fileCapacity ≠ 0) (hdirectories : storage.directoryCapacity ≠ 0)
    (hknown : board ≠ .unknown) :
    parseReleaseManifest ((Tree.object members).render ++ [0x0a]) board storage =
      parseDocument treeReader (some (.object members)) board storage := by
  have hlength : (Tree.object members).render.length < kMaximumJsonBytes := by
    unfold kMaximumReleaseManifestBytes at hsize
    unfold kMaximumJsonBytes
    omega
  obtain ⟨hok, hroot, hmaps⟩ := parseJson_reads hwf htokens hlength
  obtain ⟨⟨hlow, hhigh⟩, hfirst, hlast, hbrace, hreturn⟩ := framed_render hwf hsize
  have hpositive := (Tree.object members).size_pos
  have hstorage : ¬(storage.tokenCapacity = 0 ∨ storage.fileCapacity = 0 ∨
      storage.directoryCapacity = 0 ∨ board = .unknown) := by
    simp only [not_or]
    exact ⟨by omega, hfiles, hdirectories, hknown⟩
  have hframed : ¬(((Tree.object members).render ++ [0x0a]).length < 3 ∨
      kMaximumReleaseManifestBytes < ((Tree.object members).render ++ [0x0a]).length ∨
      ((Tree.object members).render ++ [0x0a]).head? ≠ some 0x7b ∨
      ((Tree.object members).render ++ [0x0a]).getLast? ≠ some 0x0a ∨
      ((Tree.object members).render ++ [0x0a]).dropLast.getLast? ≠ some 0x7d) := by
    simp only [not_or, not_not]
    exact ⟨by omega, by omega, hfirst, hlast, hbrace⟩
  unfold parseReleaseManifest
  rw [reject_bind hstorage, reject_bind hframed, reject_bind hreturn]
  generalize parseJson (some ((Tree.object members).render ++ [0x0a])) storage.tokenCapacity 32 =
    parsed at hok hmaps ⊢
  obtain ⟨result, tokens⟩ := parsed
  dsimp only at hok hmaps ⊢
  rw [hok]
  exact (parseDocument_maps hmaps (some 0) board storage).trans (by rw [hroot])

/-- Every valid manifest is what the parser makes of its text. -/
theorem parseReleaseManifest_render {board : BoardFamily} {m : ReleaseManifest}
    {other : ManifestAsset} {storage : ManifestParseStorage} (hvalid : ValidManifest board m other)
    (hsize : (manifestTree m other).render.length < kMaximumReleaseManifestBytes)
    (htokens : (manifestTree m other).size ≤ storage.tokenCapacity)
    (hfits : Fits (some storage) m.asset) (hdirectories : storage.directoryCapacity ≠ 0) :
    parseReleaseManifest ((manifestTree m other).render ++ [0x0a]) board storage = .ok m := by
  have hfile : bytesOf "config.txt" ∈ m.asset.files.map (·.path) :=
    hvalid.asset.required _ (by simp [requiredPaths])
  have hfiles := List.length_pos_of_mem hfile
  rw [List.length_map] at hfiles
  have hcapacity := (hfits storage rfl).1
  refine (parseReleaseManifest_tree (wellFormed_manifestTree hvalid 26) hsize htokens (by omega)
    hdirectories hvalid.asset.known).trans ?_
  exact (parseDocument_eq_ok treeReader_lawful hvalid.asset.known).mpr
    ⟨other, reads_manifestTree hvalid, hvalid, hfits⟩

/-! ## A manifest -/

/-- What `ValidFile` asks for, computed. -/
def fileChecks (board : BoardFamily) (f : ManifestFile) : Bool :=
  isSafeManifestPath f.path && decide (f.size ≤ kMaximumFileBytes) &&
    decide (classifyKnownPath f.path = some f.policy) && !startsWith f.path (boardKernels board).2 &&
    decide (f.path ≠ bytesOf (boardKernels board).1) &&
    (kernelSuffix (boardKernels board).1 f.path).all fun suffix =>
      (parseMachineKernelSuffix suffix).isSome

theorem validFile_of_checks {board : BoardFamily} {f : ManifestFile}
    (h : fileChecks board f = true) : ValidFile board f := by
  simp only [fileChecks, Bool.and_eq_true, decide_eq_true_eq, Bool.not_eq_true',
    Option.all_eq_true] at h
  obtain ⟨⟨⟨⟨⟨hpath, hsize⟩, hpolicy⟩, hother⟩, hbare⟩, hmachine⟩ := h
  exact ⟨hpath, hsize, hpolicy, hother, hbare, hmachine⟩

/-- The digest of an archive of one zero byte. -/
def smallDigest : Digest := Block.ofBytes _
  [0x6e, 0x34, 0x0b, 0x9c, 0xff, 0xb3, 0x7a, 0x98, 0x9c, 0xa5, 0x44, 0xe6, 0xbb, 0x78, 0x0a,
   0x2c, 0x78, 0x90, 0x1d, 0x3f, 0xb3, 0x37, 0x38, 0x76, 0x85, 0x11, 0xa3, 0x06, 0x17, 0xaf,
   0xa0, 0x1d]

/-- The smallest inventory of a board: its configuration and a kernel for each machine. -/
def smallFiles (board : BoardFamily) : List ManifestFile :=
  let file (name : Bytes) (size : Nat) (policy : ManifestFilePolicy) : ManifestFile :=
    ⟨name, size, smallDigest, policy, .store⟩
  [file (bytesOf "bmx-active-kernel.txt") 1 .configTemplate,
    file (bytesOf "bmx-tryboot-kernel.txt") 0 .configTemplate,
    file (bytesOf "config.txt") 0 .configTemplate] ++
  (["c128", "c64", "c64sc", "pet", "plus4", "scpu64", "vic20"].map fun machine =>
    file (kernelPath board machine) 0 .kernel) ++
  [file (bytesOf "tryboot.txt") 0 .configTemplate]

def smallAsset (board : BoardFamily) : ManifestAsset where
  board
  filename := expectedFilename (bytesOf "1.0") board
  downloadSize := 1
  sha256 := smallDigest
  installedSize := 1
  requiredPeakBytes := 2 + kSafetyReserveBytes
  files := smallFiles board
  directories := [bytesOf "licenses"]

def smallManifest : ReleaseManifest where
  version := bytesOf "1.0"
  tag := bytesOf "v1.0"
  sourceCommit := List.replicate 40 0x30
  releaseSequence := 2
  releaseEpoch := 1
  minimumUpdaterAbi := 1
  maximumUpdaterAbi := 1
  signingKeyIds := [bytesOf "release"]
  schemas := configAreas.map fun area => ⟨area, 1, [1]⟩
  migrations := []
  lossyChanges := []
  asset := smallAsset .pi4Pi400

theorem smallAsset_valid {board : BoardFamily} (hboard : board ∈ [BoardFamily.pi4Pi400, .pi5Pi500]) :
    ValidAsset (bytesOf "1.0") board (smallAsset board) := by
  have hchecks : ∀ b ∈ [BoardFamily.pi4Pi400, .pi5Pi500],
      (∀ f ∈ smallFiles b, fileChecks b f = true) ∧
      ((smallFiles b).map (·.path)).Pairwise (· < ·) ∧ ((smallFiles b).map (·.size)).sum = 1 ∧
      ∀ path ∈ requiredPaths b, path ∈ (smallFiles b).map (·.path) := by
    decide
  obtain ⟨hfiles, horder, hsum, hrequired⟩ := hchecks board hboard
  have hdirectory : ∀ path ∈ [bytesOf "licenses"],
      isSafeManifestPath path = true ∧ isAllowedUpdateDirectory path = true := by decide
  have hone : 1 ≤ 1 ∧ 1 ≤ kMaximumAssetBytes := by decide
  have hpeak : 1 + 1 + kSafetyReserveBytes ≤ 2 + kSafetyReserveBytes ∧
      2 + kSafetyReserveBytes ≤ int64Max := by decide
  refine ⟨rfl, ?_, rfl, hone, hone, hpeak, Nat.succ_le_succ (Nat.zero_le _), hdirectory,
    List.pairwise_singleton _ _, ?_, fun f hf => validFile_of_checks (hfiles f hf), horder, hsum,
    hrequired⟩
  · rintro rfl
    exact absurd hboard (by decide)
  · show (smallFiles board).length ≤ kMaximumManifestFiles
    simp [smallFiles, kMaximumManifestFiles]

theorem smallManifest_valid : ValidManifest .pi4Pi400 smallManifest (smallAsset .pi5Pi500) where
  release := ⟨by decide, by decide, by decide, by decide, by decide,
    by decide, by decide, by decide, by decide, by decide, List.pairwise_singleton _ _⟩
  configuration := by
    refine ⟨rfl, ?_, by decide, by simp [smallManifest], List.Pairwise.nil, by decide,
      by simp [smallManifest], List.Pairwise.nil, by simp [smallManifest]⟩
    intro s hs
    obtain ⟨area, -, rfl⟩ := List.mem_map.mp hs
    refine ⟨by simp, fun v hv => ?_, List.pairwise_singleton _ _, by simp⟩
    rw [List.mem_singleton.mp hv]
    decide
  asset := smallAsset_valid (by decide)
  distinct := by
    unfold CaseDistinct
    decide
  otherAsset := smallAsset_valid (by decide)

/-- The text of the small manifest is short enough, and has few enough values. -/
theorem smallManifest_short :
    (manifestTree smallManifest (smallAsset .pi5Pi500)).render.length <
        kMaximumReleaseManifestBytes ∧
      (manifestTree smallManifest (smallAsset .pi5Pi500)).size ≤ 512 := by
  rw [JsonGrammar.Tree.length_render]
  decide

/-- The text of the small manifest is accepted. -/
theorem smallManifest_accepted :
    parseReleaseManifest ((manifestTree smallManifest (smallAsset .pi5Pi500)).render ++ [0x0a])
      .pi4Pi400 ⟨512, 16, 4⟩ = .ok smallManifest := by
  refine (parseReleaseManifest_tree (wellFormed_manifestTree smallManifest_valid 26)
    smallManifest_short.1 (by exact smallManifest_short.2) (by decide) (by decide)
    (by decide)).trans ?_
  refine (parseDocument_eq_ok treeReader_lawful (by decide)).mpr
    ⟨_, reads_manifestTree smallManifest_valid, smallManifest_valid, fun s hs => ?_⟩
  obtain rfl := Option.some.inj hs
  decide

theorem parseReleaseManifest_render_small :
    parseReleaseManifest ((manifestTree smallManifest (smallAsset .pi5Pi500)).render ++ [0x0a])
      .pi4Pi400 ⟨512, 16, 4⟩ = .ok smallManifest :=
  parseReleaseManifest_render smallManifest_valid smallManifest_short.1 smallManifest_short.2
    (fun s hs => by
      obtain rfl := Option.some.inj hs
      decide) (by decide)

end Release

end BmxUpdate
