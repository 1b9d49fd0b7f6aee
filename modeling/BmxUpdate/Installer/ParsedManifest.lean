import BmxUpdate.Archive.FatFs
import BmxUpdate.Installer.Basic
import BmxUpdate.Layout.Text
import BmxUpdate.Release.ManifestRoundTrip

/-!
# The manifests the installer gets

The parser leaves the paths of a manifest as bytes, and the installer works on the nodes of a
volume: `volumePath` cuts a path at its separators into the names FAT compares.  Both check
paths by one policy, so a parsed manifest passes every check of a manifest that the installer
makes again, but for the digests: the parser takes a digest of zeros, and the installer does not.
-/

namespace BmxUpdate

open Wire Http Volumes FatPath Archive Layout

/-- The node of a volume that a path names. -/
def volumePath (path : Bytes) : Path := (path.splitOn 0x2f).map fatName

/-! ## One path policy -/

/-- A byte as FAT compares it. -/
def foldChar (c : UInt8) : Char := toChar (asciiLower c)

theorem toList_fatName (component : Bytes) :
    (fatName component).toList = component.map foldChar := String.toList_ofList

theorem length_fatName (component : Bytes) : (fatName component).length = component.length := by
  rw [← String.length_toList, toList_fatName, List.length_map]

/-- What the installer asks of a character is what the parser asks of its byte. -/
theorem foldChar_facts (c : UInt8) :
    ((decide (' ' ≤ foldChar c) && decide (foldChar c ≤ '~') &&
        decide (foldChar c ∉ forbiddenPathCharacters)) = true ↔ NameByte c) ∧
      (foldChar c = ' ' ↔ c = 0x20) ∧ (foldChar c = '.' ↔ c = 0x2e) ∧
      (foldChar c).toLower = foldChar c ∧
      ((decide ('1' ≤ foldChar c) && decide (foldChar c ≤ '9')) = true ↔ 0x31 ≤ c ∧ c ≤ 0x39) := by
  unfold NameByte
  revert c
  refine forall_byte ?_
  decide +kernel

theorem foldChar_eq_iff {component : Bytes} {name : String} :
    component.map foldChar = ((bytesOf name).map foldChar) ↔
      equalsAsciiIgnoreCase component (bytesOf name) = true := by
  rw [equalsAsciiIgnoreCase, decide_eq_true_eq]
  show component.map (toChar ∘ asciiLower) = (bytesOf name).map (toChar ∘ asciiLower) ↔ _
  rw [← List.map_map, ← List.map_map, (List.map_injective_iff.mpr toChar_injective).eq_iff]

theorem map_foldChar_eq_some {c : UInt8} {d : Char} {o : Option UInt8}
    (h : ∀ b, foldChar b = d ↔ b = c) : o.map foldChar = some d ↔ o = some c := by
  rw [Option.map_eq_some_iff]
  constructor
  · rintro ⟨b, hb, hd⟩
    rwa [(h b).mp hd] at hb
  · intro hc
    exact ⟨c, hc, (h c).mpr rfl⟩

/-- The stem of a name as FAT compares it. -/
theorem stem_fold (component : Bytes) :
    ((component.map foldChar).takeWhile (· ≠ '.')).map Char.toLower =
      (component.takeWhile (· ≠ 0x2e)).map foldChar := by
  have hpoint : ((fun c : Char => decide (c ≠ '.')) ∘ foldChar) =
      fun c : UInt8 => decide (c ≠ 0x2e) := by
    funext c
    simp [(foldChar_facts c).2.2.1]
  rw [List.takeWhile_map, hpoint, List.map_map]
  exact List.map_congr_left fun c _ => (foldChar_facts c).2.2.2.1

/-- Both sides reserve the same stems. -/
theorem isReservedStem_fold (component : Bytes) :
    BmxUpdate.isReservedStem (component.map foldChar) = FatPath.isReservedStem component := by
  have hnames : ["con".toList, "prn".toList, "aux".toList, "nul".toList, "com".toList,
      "lpt".toList] = [bytesOf "CON", bytesOf "PRN", bytesOf "AUX", bytesOf "NUL", bytesOf "COM",
        bytesOf "LPT"].map (List.map foldChar) := by decide
  simp only [List.map_cons, List.map_nil, List.cons.injEq, and_true] at hnames
  obtain ⟨hcon, hprn, haux, hnul, hcom, hlpt⟩ := hnames
  rw [BmxUpdate.isReservedStem, FatPath.isReservedStem, stem_fold, hcon, hprn, haux, hnul, hcom,
    hlpt]
  generalize hstem : component.takeWhile (· ≠ 0x2e) = stem
  rw [List.length_map, ← List.map_take, ← List.map_drop]
  simp only [List.mem_cons, List.not_mem_nil, or_false, foldChar_eq_iff, List.any_cons,
    List.any_nil, Bool.or_false, Bool.decide_or, Bool.decide_eq_true]
  by_cases hfour : stem.length = 4
  · obtain ⟨htake, hfourth⟩ := stem_prefix hstem hfour
    rw [htake, hfourth]
    obtain ⟨a, b, c, d, rfl⟩ := List.length_eq_four.mp hfour
    have hdigit : (decide ('1' ≤ foldChar d) && decide (foldChar d ≤ '9')) =
        (decide (0x31 ≤ d) && decide (d ≤ 0x39)) := by
      rw [Bool.eq_iff_iff, (foldChar_facts d).2.2.2.2, Bool.and_eq_true, decide_eq_true_eq,
        decide_eq_true_eq]
    simp [hdigit]
  · have hfalse : (stem.length == 4) = false := by simpa using hfour
    rw [hfalse]
    simp only [Bool.false_and]

theorem fatComponentValid_fatName (component : Bytes) :
    fatComponentValid (fatName component) = true ↔
      componentValid component = true ∧ ∀ value ∈ component, NameByte value := by
  have hspace := fun c => (foldChar_facts c).2.1
  have hpoint := fun c => (foldChar_facts c).2.2.1
  have hpoints : component.getLast? ≠ some 0x2e → component ≠ [0x2e] ∧ component ≠ [0x2e, 0x2e] := by
    intro h
    constructor
    · rintro rfl
      exact h rfl
    · rintro rfl
      exact h rfl
  have hname : ∀ c, ((' ' ≤ foldChar c ∧ foldChar c ≤ '~') ∧
      foldChar c ∉ forbiddenPathCharacters) ↔ NameByte c := by
    intro c
    simpa only [Bool.and_eq_true, decide_eq_true_eq] using (foldChar_facts c).1
  unfold fatComponentValid componentValid
  dsimp only
  rw [toList_fatName, isReservedStem_fold]
  simp only [Bool.and_eq_true, decide_eq_true_eq, List.map_eq_nil_iff, List.length_map,
    List.all_map, List.all_eq_true, Function.comp_apply, Bool.not_eq_true', ne_eq,
    List.head?_map, List.getLast?_map, map_foldChar_eq_some hspace, map_foldChar_eq_some hpoint,
    hname]
  constructor
  · rintro ⟨⟨⟨⟨⟨hlength, hnames⟩, hfirst⟩, hlast⟩, hdot⟩, hreserved⟩
    exact ⟨⟨⟨⟨⟨⟨⟨hlength, hfirst⟩, hlast⟩, hdot⟩, (hpoints hdot).1⟩, (hpoints hdot).2⟩, hreserved⟩,
      hnames⟩
  · rintro ⟨⟨⟨⟨⟨⟨⟨hlength, hfirst⟩, hlast⟩, hdot⟩, -⟩, -⟩, hreserved⟩, hnames⟩
    exact ⟨⟨⟨⟨⟨hlength, hnames⟩, hfirst⟩, hlast⟩, hdot⟩, hreserved⟩

/-- The separators and the names of a path are its bytes. -/
theorem pathBytes_volumePath (path : Bytes) : pathBytes (volumePath path) = path.length := by
  have hparts : ∀ path : Bytes, ((path.splitOn 0x2f).map List.length).sum +
      (path.splitOn 0x2f).length = path.length + 1 := by
    intro path
    induction path with
    | nil => rfl
    | cons c path ih =>
        rw [List.splitOn_cons_eq_if_modifyHead]
        split
        · simp only [List.map_cons, List.sum_cons, List.length_cons, List.length_nil]
          omega
        · obtain ⟨part, parts, hsplit⟩ := List.exists_cons_of_ne_nil (List.splitOn_ne_nil 0x2f path)
          rw [hsplit] at ih ⊢
          simp only [List.modifyHead_cons, List.map_cons, List.sum_cons, List.length_cons] at ih ⊢
          omega
  have hlengths : (volumePath path).map String.length = (path.splitOn 0x2f).map List.length := by
    rw [volumePath, List.map_map]
    exact List.map_congr_left fun component _ => length_fatName component
  have hpath := hparts path
  have hpositive := List.length_pos_iff.mpr (List.splitOn_ne_nil 0x2f path)
  rw [pathBytes, hlengths, volumePath, List.length_map]
  omega

/-- The paths the installer accepts are those the parser accepts. -/
theorem validRelativePath_volumePath {path : Bytes} {maximum : Nat} :
    validRelativePath (volumePath path) maximum = true ↔ FatRelativePath maximum path := by
  have hne : volumePath path ≠ [] := by
    rw [volumePath, Ne, List.map_eq_nil_iff]
    exact List.splitOn_ne_nil _ _
  unfold validRelativePath
  simp only [Bool.and_eq_true, decide_eq_true_eq, pathBytes_volumePath, List.all_eq_true]
  constructor
  · rintro ⟨⟨-, hbounded⟩, hnames⟩
    have hcomponents : ∀ component ∈ path.splitOn 0x2f,
        componentValid component = true ∧ ∀ value ∈ component, NameByte value :=
      fun component hc => (fatComponentValid_fatName component).mp
        (hnames _ (List.mem_map_of_mem hc))
    refine ⟨?_, hbounded, hcomponents⟩
    rintro rfl
    have hempty := (hcomponents [] (by simp)).1
    cases hempty
  · intro h
    refine ⟨⟨hne, h.bounded⟩, fun name hname => ?_⟩
    obtain ⟨component, hc, rfl⟩ := List.mem_map.mp hname
    exact (fatComponentValid_fatName component).mpr (h.components component hc)

/-- Two paths name one node only if FAT takes them for one path. -/
theorem volumePath_inj {path path' : Bytes} (h : volumePath path = volumePath path') :
    path.map asciiLower = path'.map asciiLower := by
  have hnode : ∀ p : Bytes, volumePath p = ((p.map foldChar).splitOn '/').map String.ofList := by
    intro p
    have hslash : ∀ b, foldChar b = foldChar 0x2f → b = 0x2f := forall_byte (by decide +kernel)
    rw [show '/' = foldChar 0x2f from rfl, splitOn_map hslash, List.map_map]
    rfl
  rw [hnode, hnode] at h
  have hparts := List.map_injective_iff.mpr (fun _ _ => String.ofList_injective) h
  have htext := congrArg (List.intercalate ['/']) hparts
  rw [List.intercalate_splitOn, List.intercalate_splitOn] at htext
  have hchars : (path.map asciiLower).map toChar = (path'.map asciiLower).map toChar := by
    rw [List.map_map, List.map_map]
    exact htext
  exact List.map_injective_iff.mpr toChar_injective hchars

/-! ## What the installer takes over -/

namespace Release

/-- A file of the inventory as the installer holds it. -/
def ManifestFile.installed (file : ManifestFile) : BmxUpdate.ManifestFile where
  path := volumePath file.path
  size := UInt64.ofNat file.size
  sha256 := file.sha256
  policy := file.policy

def ManifestAsset.installed (asset : ManifestAsset) : BmxUpdate.ManifestAsset where
  board := asset.board
  downloadSize := asset.downloadSize
  sha256 := asset.sha256
  installedSize := asset.installedSize
  files := asset.files.map (·.installed)
  directories := asset.directories.map fun path => ⟨volumePath path⟩

def ReleaseManifest.installed (manifest : ReleaseManifest) : BmxUpdate.ReleaseManifest where
  releaseSequence := manifest.releaseSequence
  asset := manifest.asset.installed

section Parsed

variable {encoded : Bytes} {board : BoardFamily} {storage : ManifestParseStorage}
  {m : ReleaseManifest} (h : parseReleaseManifest encoded board storage = .ok m)

include h

/-- The inventory of a parsed manifest names each node once. -/
theorem installed_paths_nodup : (m.installed.asset.files.map (·.path) ++
    m.installed.asset.directories.map (·.path)).Nodup := by
  obtain ⟨other, hvalid⟩ := valid_of_parse h
  have hnodes : m.installed.asset.files.map (·.path) ++ m.installed.asset.directories.map (·.path) =
      (m.asset.files.map (·.path) ++ m.asset.directories).map volumePath := by
    simp only [ReleaseManifest.installed, ManifestAsset.installed, List.map_map, List.map_append]
    rfl
  rw [hnodes]
  exact List.Nodup.map_on (fun _ hp _ hq heq => List.inj_on_of_nodup_map hvalid.distinct hp hq
    (volumePath_inj heq)) (List.Nodup.of_map _ hvalid.distinct)

/-- No size of a parsed manifest is cut off. -/
theorem installed_size {file : ManifestFile} (hfile : file ∈ m.asset.files) :
    file.installed.size.toNat = file.size := by
  obtain ⟨other, hvalid⟩ := valid_of_parse h
  have hsize := (hvalid.asset.files file hfile).size
  unfold kMaximumFileBytes at hsize
  show (UInt64.ofNat file.size).toNat = file.size
  rw [UInt64.toNat_ofNat']
  omega

/-- Every parsed manifest has a step layout. -/
theorem buildStepLayout_installed :
    buildStepLayout m.installed.asset = some (stepLayout m.installed.asset) := by
  obtain ⟨other, hvalid⟩ := valid_of_parse h
  refine buildStepLayout_eq_stepLayout.mpr ⟨?_, ?_⟩
  · simpa [ReleaseManifest.installed, ManifestAsset.installed] using hvalid.asset.fileCount
  · simpa [ReleaseManifest.installed, ManifestAsset.installed] using hvalid.asset.directoryCount

/-- Every path of a parsed manifest is one the installer accepts. -/
theorem validRelativePath_installed {path : Path}
    (hpath : path ∈ m.installed.asset.files.map (·.path) ++
      m.installed.asset.directories.map (·.path)) :
    validRelativePath path kMaximumManifestPathBytes = true := by
  obtain ⟨other, hvalid⟩ := valid_of_parse h
  have hsafe : ∀ p, isSafeManifestPath p = true →
      validRelativePath (volumePath p) kMaximumManifestPathBytes = true := fun p hp =>
    validRelativePath_volumePath.mpr (validateFatRelativePathBytes_ok_iff.mp (of_decide_eq_true hp))
  simp only [ReleaseManifest.installed, ManifestAsset.installed, List.map_map, List.mem_append,
    List.mem_map, Function.comp_apply] at hpath
  rcases hpath with ⟨file, hfile, rfl⟩ | ⟨directory, hdirectory, rfl⟩
  · exact hsafe _ (hvalid.asset.files file hfile).path
  · exact hsafe _ (hvalid.asset.directories directory hdirectory).1

end Parsed

end Release

end BmxUpdate
