import BmxUpdate.Release.ManifestReads

/-!
# The assets the manifest parser reads

`ParseDirectories`, `ParseFiles`, `ParseAsset` and `ParseAssets` over any lawful reader: they
succeed exactly where the fields are read as the values of valid assets, one for each board.
-/

namespace BmxUpdate

namespace Release

open Wire Http Json Checks Config

/-! ## The kernels of the machines -/

theorem kernelSuffix_eq_some {base : String} {path suffix : Bytes} :
    kernelSuffix base path = some suffix ↔ path = bytesOf base ++ 0x2e :: suffix := by
  unfold kernelSuffix
  split
  · next h =>
      obtain ⟨rest, rfl⟩ := List.isPrefixOf_iff_prefix.mp h
      rw [List.append_assoc, List.singleton_append, List.append_cancel_left_eq, List.cons_inj_right,
        Option.some.injEq]
      rw [show (bytesOf base).length + 1 = (bytesOf base ++ [0x2e]).length by simp]
      simp
  · next h =>
      constructor
      · intro hnone
        cases hnone
      · intro hpath
        refine absurd (List.isPrefixOf_iff_prefix.mpr ⟨suffix, ?_⟩) h
        rw [hpath, List.append_assoc, List.singleton_append]

theorem parseMachineKernelSuffix_eq_some {suffix : Bytes} {machine : Nat} :
    parseMachineKernelSuffix suffix = some machine ↔
      kMachineKernelMachines[machine]?.map bytesOf = some suffix := by
  constructor
  · intro h
    unfold parseMachineKernelSuffix at h
    split at h
    · cases h
    · obtain ⟨hlt, hsuffix, -⟩ := List.findIdx?_eq_some_iff_getElem.mp h
      rw [List.getElem?_eq_getElem hlt, Option.map_some, of_decide_eq_true hsuffix]
  · intro h
    have hall : ∀ machine < kMachineKernelMachines.length,
        (kMachineKernelMachines[machine]?.map bytesOf).all
          (parseMachineKernelSuffix · = some machine) = true := by
      decide
    have hlt : machine < kMachineKernelMachines.length := by
      by_contra hge
      rw [List.getElem?_eq_none (Nat.not_lt.mp hge)] at h
      cases h
    have hmachine := hall machine hlt
    rw [h] at hmachine
    exact of_decide_eq_true hmachine

/-- The machine whose kernel a path is, where every asset must have one. -/
def machineOf (board : BoardFamily) (path : Bytes) : Option Nat :=
  ((kernelSuffix (boardKernels board).1 path).bind parseMachineKernelSuffix).filter
    (· < kRequiredKernelMachineCount)

theorem machineOf_eq_some {board : BoardFamily} {path : Bytes} {machine : Nat} :
    machineOf board path = some machine ↔ machine < kRequiredKernelMachineCount ∧
      ∃ name, kMachineKernelMachines[machine]? = some name ∧ path = kernelPath board name := by
  unfold machineOf kernelPath
  rw [Option.filter_eq_some_iff, Option.bind_eq_some_iff, decide_eq_true_eq]
  simp only [kernelSuffix_eq_some, parseMachineKernelSuffix_eq_some, Option.map_eq_some_iff]
  constructor
  · intro h
    obtain ⟨⟨suffix, hpath, name, hname, rfl⟩, hlt⟩ := h
    exact ⟨hlt, name, hname, hpath⟩
  · intro h
    obtain ⟨hlt, name, hname, hpath⟩ := h
    exact ⟨⟨_, hpath, name, hname, rfl⟩, hlt⟩

theorem checkKernelPath_eq_ok {board : BoardFamily} {path : Bytes} {required r : List Nat} :
    checkKernelPath board path required = .ok r ↔
      (startsWith path (boardKernels board).2 = false ∧ path ≠ bytesOf (boardKernels board).1 ∧
        ∀ suffix, kernelSuffix (boardKernels board).1 path = some suffix →
          (parseMachineKernelSuffix suffix).isSome = true) ∧
      (∀ machine, machineOf board path = some machine → machine ∉ required) ∧
      r = (machineOf board path).toList ++ required := by
  unfold checkKernelPath machineOf
  simp only [reject_bind_eq_ok, Bool.not_eq_true, and_assoc]
  refine and_congr_right fun _ => and_congr_right fun _ => ?_
  cases kernelSuffix (boardKernels board).1 path with
  | none => simp [pure_eq_ok]
  | some suffix =>
      simp only [Option.some.injEq, forall_eq', Option.bind_some]
      cases parseMachineKernelSuffix suffix with
      | none => simp
      | some machine =>
          simp only [Option.isSome_some, true_and]
          by_cases hlt : machine < kRequiredKernelMachineCount
          · rw [if_pos hlt, Option.filter_some, if_pos (decide_eq_true hlt)]
            simp only [reject_bind_eq_ok, pure_eq_ok, Option.some.injEq, forall_eq']
            rfl
          · rw [if_neg hlt, Option.filter_some, if_neg (by simp [hlt])]
            simp [pure_eq_ok]

section Parts

variable {ι : Type} {doc : Reader ι}

/-! ## The directories -/

theorem parseDirectory_eq_ok {front : List Bytes} {child : ι} {s : List Bytes} :
    parseDirectory doc front child = .ok s ↔
      ∃ path, doc.copyString child (kMaximumManifestPathBytes + 1) = some path ∧
        ((isSafeManifestPath path = true ∧ isAllowedUpdateDirectory path = true) ∧
          ∀ b ∈ front.getLast?, b < path) ∧ s = front ++ [path] := by
  unfold parseDirectory
  cases hpath : doc.copyString child (kMaximumManifestPathBytes + 1) with
  | none => simp
  | some path =>
      simp only [reject_bind_eq_ok, pure_eq_ok, not_notAfter, Decidable.not_not, Option.some.injEq,
        exists_eq_left', and_assoc]
      exact and_congr_right fun _ => and_left_comm

/-- The capacity of the storage, where there is one. -/
def Fits (store : Option ManifestParseStorage) (a : ManifestAsset) : Prop :=
  ∀ s ∈ store, a.files.length ≤ s.fileCapacity ∧ a.directories.length ≤ s.directoryCapacity

theorem parseDirectories_eq_ok {i : ι} {store : Option ManifestParseStorage}
    {directories : List Bytes} :
    parseDirectories doc i store = .ok directories ↔
      (doc.hasType i .array = true ∧ List.Forall₂
        (fun child path => doc.copyString child (kMaximumManifestPathBytes + 1) = some path)
        (doc.elements i) directories) ∧
      (directories.length ≤ kMaximumManifestDirectories ∧
        (∀ path ∈ directories,
          isSafeManifestPath path = true ∧ isAllowedUpdateDirectory path = true) ∧
        directories.Pairwise (· < ·)) ∧
      ∀ s ∈ store, directories.length ≤ s.directoryCapacity := by
  have hloop : overChildren doc i (parseDirectory doc) [] = .ok directories ↔ _ :=
    (foldlM_append_eq_ok fun _ _ _ => parseDirectory_eq_ok)
  unfold parseDirectories
  rw [reject_not_bind_eq_ok, reject_bind_eq_ok, reject_bind_eq_ok, hloop, AllFit.and,
    AllFit.forall_mem, AllFit.sorted]
  constructor
  · intro h
    obtain ⟨harray, hcount, hcapacity, hreads, hvalid⟩ := h
    rw [length_of_reads hreads] at hcount hcapacity
    refine ⟨⟨harray, hreads⟩, ⟨Nat.not_lt.mp hcount, hvalid⟩, fun s hs => ?_⟩
    obtain rfl := Option.mem_def.mp hs
    simpa using hcapacity
  · intro h
    obtain ⟨⟨harray, hreads⟩, ⟨hcount, hvalid⟩, hcapacity⟩ := h
    rw [length_of_reads hreads]
    refine ⟨harray, Nat.not_lt.mpr hcount, ?_, hreads, hvalid⟩
    cases store with
    | none => simp
    | some s => simpa using hcapacity s rfl

/-! ## The files -/

/-- The value at `i` is the entry of the file `f`. -/
structure ReadsFile (doc : Reader ι) (i : ι) (f : ManifestFile) : Prop where
  fields : doc.exactObject i fileFields = true
  path : doc.copyString (doc.member i "path") (kMaximumManifestPathBytes + 1) = some f.path
  size : doc.uint64 (doc.member i "size") 0 kMaximumFileBytes = some f.size
  sha256 : doc.copyString (doc.member i "sha256") 65 = some (digestText f.sha256)
  policy : doc.copyString (doc.member i "policy") 32 = some (policyText f.policy)
  compression : doc.copyString (doc.member i "compression") 16 =
    some (compressionText f.compression)

/-- What the loop over the files keeps of the files before. -/
def fileScan (board : BoardFamily) (files : List ManifestFile) : FileScan where
  files
  installedSize := (files.map (·.size)).sum
  requiredMachineKernels := files.reverse.filterMap fun f => machineOf board f.path
  requiredConfig := files.any fun f => f.path = bytesOf "config.txt"
  requiredTryboot := files.any fun f => f.path = bytesOf "tryboot.txt"
  requiredActiveSelector := files.any fun f => f.path = bytesOf "bmx-active-kernel.txt"
  requiredCandidateSelector := files.any fun f => f.path = bytesOf "bmx-tryboot-kernel.txt"

theorem fileScan_concat {board : BoardFamily} {files : List ManifestFile} {f : ManifestFile} :
    fileScan board (files ++ [f]) =
      { files := (fileScan board files).files ++ [f]
        installedSize := (fileScan board files).installedSize + f.size
        requiredMachineKernels :=
          (machineOf board f.path).toList ++ (fileScan board files).requiredMachineKernels
        requiredConfig := (fileScan board files).requiredConfig || f.path = bytesOf "config.txt"
        requiredTryboot := (fileScan board files).requiredTryboot || f.path = bytesOf "tryboot.txt"
        requiredActiveSelector :=
          (fileScan board files).requiredActiveSelector || f.path = bytesOf "bmx-active-kernel.txt"
        requiredCandidateSelector := (fileScan board files).requiredCandidateSelector ||
          f.path = bytesOf "bmx-tryboot-kernel.txt" } := by
  have hkernels : (files ++ [f]).reverse.filterMap (fun f => machineOf board f.path) =
      (machineOf board f.path).toList ++
        files.reverse.filterMap fun f => machineOf board f.path := by
    rw [List.reverse_append, List.reverse_singleton, List.singleton_append, List.filterMap_cons]
    cases machineOf board f.path <;> rfl
  unfold fileScan
  simp only [hkernels, List.map_append, List.sum_append, List.map_singleton, List.sum_singleton,
    List.any_append, List.any_cons, List.any_nil, Bool.or_false]

/-- A file that its object is read as, and that may follow those before. -/
theorem parseFile_eq_ok (hdoc : doc.Lawful) {board : BoardFamily} {front : List ManifestFile}
    {entry : ι} {s : FileScan} :
    parseFile doc board (fileScan board front) entry = .ok s ↔
      ∃ f, ReadsFile doc entry f ∧
        (ValidFile board f ∧ (∀ b ∈ (front.map (·.path)).getLast?, b < f.path) ∧
          (front.map (·.size)).sum + f.size ≤ kMaximumAssetBytes ∧
          ∀ machine, machineOf board f.path = some machine →
            machine ∉ (fileScan board front).requiredMachineKernels) ∧
        s = fileScan board (front ++ [f]) := by
  constructor
  · intro h
    unfold parseFile at h
    obtain ⟨hfields, h⟩ := reject_not_bind_eq_ok.mp h
    split at h <;> [rename_i path hpath; cases h]
    obtain ⟨hsafe, h⟩ := reject_not_bind_eq_ok.mp h
    obtain ⟨horder, h⟩ := reject_bind_eq_ok.mp h
    split at h <;> [rename_i size hsize; cases h]
    split at h <;> [rename_i sha hsha; cases h]
    split at h <;> [rename_i sha256 hsha256; cases h]
    split at h <;> [rename_i policyText' hpolicyText; cases h]
    split at h <;> [rename_i compressionText' hcompressionText; cases h]
    split at h <;> [rename_i expected hexpected; cases h]
    split at h <;> [rename_i policy hpolicy; cases h]
    obtain ⟨hsame, h⟩ := reject_not_bind_eq_ok.mp h
    split at h <;> [rename_i compression hcompression; cases h]
    obtain ⟨hroom, h⟩ := reject_bind_eq_ok.mp h
    obtain ⟨kernels, hkernels, h⟩ := bind_eq_ok.mp h
    obtain rfl := pure_eq_ok.mp h
    obtain ⟨⟨hother, hbare, hmachine⟩, hnew, rfl⟩ := checkKernelPath_eq_ok.mp hkernels
    have hsize' := (hdoc.uint64 hsize).2
    rw [parseSha256_eq_some] at hsha256
    rw [parsePolicy_eq_some] at hpolicy
    rw [parseCompression_eq_some] at hcompression
    subst hsha256 hpolicy hcompression hsame
    rw [not_notAfter, ← List.getLast?_map] at horder
    refine ⟨⟨path, size, sha256, policy, compression⟩, ⟨hfields, hpath, hsize, hsha, hpolicyText,
      hcompressionText⟩, ⟨⟨hsafe, hsize', hexpected, hother, hbare, hmachine⟩, horder, ?_, hnew⟩, ?_⟩
    · have hroom' : (front.map (·.size)).sum ≤ kMaximumAssetBytes - size := Nat.not_lt.mp hroom
      have hbound : kMaximumFileBytes ≤ kMaximumAssetBytes := by decide
      show (front.map (·.size)).sum + size ≤ kMaximumAssetBytes
      omega
    · rw [fileScan_concat]
  · intro h
    obtain ⟨f, hreads, ⟨hvalid, horder, hroom, hnew⟩, rfl⟩ := h
    have hkernels := checkKernelPath_eq_ok.mpr
      ⟨⟨hvalid.notOther, hvalid.notBare, hvalid.machine⟩, hnew, rfl⟩
    rw [List.getLast?_map] at horder
    unfold parseFile
    simp only [hreads.fields, hreads.path, hreads.size, hreads.sha256, hreads.policy,
      hreads.compression, hvalid.path, hvalid.policy, parseSha256_eq_some.mpr rfl,
      parsePolicy_eq_some.mpr rfl, parseCompression_eq_some.mpr rfl, reject_bind_eq_ok,
      not_true_eq_false, not_false_eq_true, true_and, ne_eq, not_notAfter]
    refine ⟨horder, ?_, bind_eq_ok.mpr ⟨_, hkernels, pure_eq_ok.mpr fileScan_concat⟩⟩
    show ¬ kMaximumAssetBytes - f.size < (front.map (·.size)).sum
    omega

theorem mem_requiredMachineKernels {board : BoardFamily} {files : List ManifestFile}
    {machine : Nat} : machine ∈ (fileScan board files).requiredMachineKernels ↔
      ∃ f ∈ files, machineOf board f.path = some machine := by
  show machine ∈ files.reverse.filterMap _ ↔ _
  rw [List.mem_filterMap]
  simp only [List.mem_reverse]

/-- The kernels of all the machines that must have one. -/
theorem requiredKernels_iff {board : BoardFamily} {files : List ManifestFile} :
    (∀ machine < kRequiredKernelMachineCount,
      machine ∈ (fileScan board files).requiredMachineKernels) ↔
      ∀ path ∈ (kMachineKernelMachines.take kRequiredKernelMachineCount).map (kernelPath board),
        path ∈ files.map (·.path) := by
  simp only [mem_requiredMachineKernels, machineOf_eq_some]
  constructor
  · intro h path hpath
    obtain ⟨name, hname, rfl⟩ := List.mem_map.mp hpath
    obtain ⟨machine, hlt, rfl⟩ := List.mem_take_iff_getElem.mp hname
    obtain ⟨f, hf, -, name, hsame, hpath⟩ := h machine (by omega)
    rw [List.getElem?_eq_getElem (by omega), Option.some.injEq] at hsame
    exact List.mem_map.mpr ⟨f, hf, hsame ▸ hpath⟩
  · intro h machine hmachine
    have hlt : machine < kMachineKernelMachines.length :=
      Nat.lt_of_lt_of_le hmachine (by decide)
    have hname : kMachineKernelMachines[machine] ∈
        kMachineKernelMachines.take kRequiredKernelMachineCount :=
      List.mem_take_iff_getElem.mpr ⟨machine, by omega, rfl⟩
    obtain ⟨f, hf, hpath⟩ := List.mem_map.mp (h _ (List.mem_map_of_mem hname))
    exact ⟨f, hf, hmachine, _, List.getElem?_eq_getElem hlt, hpath⟩

theorem mem_paths_iff {files : List ManifestFile} {name : Bytes} :
    (files.any fun f => f.path = name) = true ↔ name ∈ files.map (·.path) := by
  simp only [List.any_eq_true, decide_eq_true_eq, List.mem_map]

/-- The last check of `ParseFiles`. -/
theorem inventory_iff {board : BoardFamily} {files : List ManifestFile} {installedSize : Nat} :
    ¬ (¬ (∀ machine < kRequiredKernelMachineCount,
        machine ∈ (fileScan board files).requiredMachineKernels) ∨
      (fileScan board files).requiredConfig = false ∨
      (fileScan board files).requiredTryboot = false ∨
      (fileScan board files).requiredActiveSelector = false ∨
      (fileScan board files).requiredCandidateSelector = false ∨
      (fileScan board files).installedSize ≠ installedSize) ↔
    (∀ path ∈ requiredPaths board, path ∈ files.map (·.path)) ∧
      (files.map (·.size)).sum = installedSize := by
  rw [requiredKernels_iff]
  unfold requiredPaths
  simp only [fileScan, not_or, Decidable.not_not, Bool.not_eq_false, mem_paths_iff, ne_eq,
    List.forall_mem_append, List.forall_mem_cons, List.not_mem_nil, false_imp_iff, implies_true,
    and_true]
  constructor
  · rintro ⟨hkernels, hconfig, htryboot, hactive, hcandidate, hsum⟩
    exact ⟨⟨⟨hconfig, htryboot, hactive, hcandidate⟩, hkernels⟩, hsum⟩
  · rintro ⟨⟨⟨hconfig, htryboot, hactive, hcandidate⟩, hkernels⟩, hsum⟩
    exact ⟨hkernels, hconfig, htryboot, hactive, hcandidate, hsum⟩

/-- No machine has two kernels among files of different paths. -/
theorem kernels_allFit {board : BoardFamily} {files : List ManifestFile}
    (hsorted : (files.map (·.path)).Pairwise (· < ·)) :
    AllFit (fun front (f : ManifestFile) => ∀ machine, machineOf board f.path = some machine →
      machine ∉ (fileScan board front).requiredMachineKernels) files := by
  intro before f after hsplit machine hmachine hseen
  obtain ⟨g, hg, hsame⟩ := mem_requiredMachineKernels.mp hseen
  obtain ⟨-, name, hname, hpath⟩ := machineOf_eq_some.mp hmachine
  obtain ⟨-, name', hname', hpath'⟩ := machineOf_eq_some.mp hsame
  obtain rfl : name = name' := Option.some.inj (hname.symm.trans hname')
  rw [hsplit, List.map_append, List.pairwise_append] at hsorted
  have hlt := hsorted.2.2 g.path (List.mem_map_of_mem hg) f.path
    (List.mem_map_of_mem List.mem_cons_self)
  rw [hpath, hpath'] at hlt
  exact List.lt_irrefl _ hlt

/-- A bound on the sum so far is one on the sum. -/
theorem allFit_sum_le {α : Type} {as : List α} {f : α → Nat} {bound : Nat} :
    AllFit (fun front a => (front.map f).sum + f a ≤ bound) as ↔ (as.map f).sum ≤ bound := by
  induction as using List.reverseRecOn with
  | nil => simp [AllFit.nil]
  | append_singleton as a ih =>
      rw [AllFit.concat, ih, List.map_append, List.sum_append, List.map_singleton,
        List.sum_singleton]
      exact ⟨fun h => h.2, fun h => ⟨Nat.le_of_add_right_le h, h⟩⟩

theorem parseFiles_eq_ok (hdoc : doc.Lawful) {i : ι} {store : Option ManifestParseStorage}
    {board : BoardFamily} {installedSize : Nat} {files : List ManifestFile} :
    parseFiles doc i store board installedSize = .ok files ↔
      (doc.hasType i .array = true ∧ List.Forall₂ (ReadsFile doc) (doc.elements i) files) ∧
      (files.length ≤ kMaximumManifestFiles ∧ (∀ f ∈ files, ValidFile board f) ∧
        (files.map (·.path)).Pairwise (· < ·) ∧ (files.map (·.size)).sum = installedSize ∧
        ∀ path ∈ requiredPaths board, path ∈ files.map (·.path)) ∧
      (files.map (·.size)).sum ≤ kMaximumAssetBytes ∧
      ∀ s ∈ store, files.length ≤ s.fileCapacity := by
  have hloop : ∀ s, overChildren doc i (parseFile doc board) .start = .ok s ↔ _ := fun s =>
    foldlM_eq_ok (fileScan board) fun _ _ _ => parseFile_eq_ok hdoc
  unfold parseFiles
  rw [reject_not_bind_eq_ok, reject_bind_eq_ok, reject_bind_eq_ok, bind_eq_ok]
  simp only [hloop, AllFit.and, AllFit.forall_mem, AllFit.pairwise, allFit_sum_le]
  constructor
  · intro h
    obtain ⟨harray, hcount, hcapacity, _, ⟨as, hreads, ⟨hvalid, hsorted, hroom, -⟩, rfl⟩, h⟩ := h
    obtain ⟨hinventory, h⟩ := reject_bind_eq_ok.mp h
    obtain rfl : files = as := pure_eq_ok.mp h
    obtain ⟨hrequired, hsum⟩ := inventory_iff.mp hinventory
    rw [length_of_reads hreads] at hcount hcapacity
    refine ⟨⟨harray, hreads⟩, ⟨by omega, hvalid, hsorted, hsum, hrequired⟩, hroom, fun s hs => ?_⟩
    obtain rfl := Option.mem_def.mp hs
    simpa using hcapacity
  · intro h
    obtain ⟨⟨harray, hreads⟩, ⟨hcount, hvalid, hsorted, hsum, hrequired⟩, hroom, hcapacity⟩ := h
    have hnonempty : files ≠ [] := by
      intro hempty
      have hconfig := hrequired (bytesOf "config.txt") (by simp [requiredPaths])
      rw [hempty] at hconfig
      cases hconfig
    have hlength := List.length_pos_iff.mpr hnonempty
    rw [length_of_reads hreads]
    refine ⟨harray, by omega, ?_, _, ⟨files, hreads, ⟨hvalid, hsorted, hroom, kernels_allFit hsorted⟩,
      rfl⟩, reject_bind_eq_ok.mpr ⟨inventory_iff.mpr ⟨hrequired, hsum⟩, rfl⟩⟩
    cases store with
    | none => simp
    | some s => simpa using hcapacity s rfl

/-! ## An asset -/

/-- The value at `i` is the asset `a`, with its inventory. -/
structure ReadsAsset (doc : Reader ι) (i : ι) (a : ManifestAsset) : Prop where
  fields : doc.exactObject i assetFields = true
  board : doc.copyString (doc.member i "board_family") 8 = some (boardText a.board)
  modelsArray : doc.hasType (doc.member i "supported_models") .array = true
  modelCount : doc.directChildren (doc.member i "supported_models") = 2
  firstModel : doc.copyString (doc.directChild (doc.member i "supported_models") 0) 32 =
    some (bytesOf (boardModels a.board).1)
  secondModel : doc.copyString (doc.directChild (doc.member i "supported_models") 1) 32 =
    some (bytesOf (boardModels a.board).2)
  filename : doc.copyString (doc.member i "filename") 161 = some a.filename
  download : doc.uint64 (doc.member i "download_size") 1 kMaximumAssetBytes = some a.downloadSize
  sha256 : doc.copyString (doc.member i "sha256") 65 = some (digestText a.sha256)
  installed : doc.uint64 (doc.member i "installed_size") 1 kMaximumAssetBytes =
    some a.installedSize
  peak : doc.uint64 (doc.member i "required_peak_bytes") 1 int64Max = some a.requiredPeakBytes
  zipProfile : doc.copyString (doc.member i "zip_profile") 32 = some (bytesOf "bmx-zip32-v1")
  directoriesArray : doc.hasType (doc.member i "directories") .array = true
  directories : List.Forall₂
    (fun child path => doc.copyString child (kMaximumManifestPathBytes + 1) = some path)
    (doc.elements (doc.member i "directories")) a.directories
  filesArray : doc.hasType (doc.member i "files") .array = true
  files : List.Forall₂ (ReadsFile doc) (doc.elements (doc.member i "files")) a.files

/-- What `ParseAsset` leaves: the inventory goes to the storage. -/
def kept (store : Option ManifestParseStorage) (a : ManifestAsset) : ManifestAsset :=
  { a with
    files := if store.isSome then a.files else []
    directories := if store.isSome then a.directories else [] }

theorem board_kept (store : Option ManifestParseStorage) (a : ManifestAsset) :
    (kept store a).board = a.board := rfl

/-- The sizes are too small to leave the range of their type. -/
theorem peak_iff {download installed peak : Nat} (hdownload : download ≤ kMaximumAssetBytes)
    (hinstalled : installed ≤ kMaximumAssetBytes) :
    ¬ (uint64Max - installed < download ∨ uint64Max - kSafetyReserveBytes < download + installed ∨
      peak < download + installed + kSafetyReserveBytes) ↔
      download + installed + kSafetyReserveBytes ≤ peak := by
  unfold kMaximumAssetBytes at hdownload hinstalled
  unfold uint64Max kSafetyReserveBytes
  omega

theorem reads_of_parseAsset (hdoc : doc.Lawful) {version : Bytes} {i : ι}
    {store : Option ManifestParseStorage} {p : ManifestAsset}
    (h : parseAsset doc version i store = .ok p) :
    ∃ a, ReadsAsset doc i a ∧ ValidAsset version a.board a ∧ Fits store a ∧ p = kept store a := by
  unfold parseAsset at h
  obtain ⟨hfields, h⟩ := reject_not_bind_eq_ok.mp h
  split at h <;> [rename_i boardText' hboardText; cases h]
  split at h <;> [rename_i board hboard; cases h]
  obtain ⟨hmodels, h⟩ := reject_bind_eq_ok.mp h
  split at h <;> [rename_i first hfirst; cases h]
  split at h <;> [rename_i second hsecond; cases h]
  obtain ⟨hnames, h⟩ := reject_bind_eq_ok.mp h
  split at h <;> [rename_i filename hfilename; cases h]
  split at h <;> [rename_i download hdownload; cases h]
  split at h <;> [rename_i sha hsha; cases h]
  split at h <;> [rename_i sha256 hsha256; cases h]
  split at h <;> [rename_i installed hinstalled; cases h]
  split at h <;> [rename_i peak hpeak; cases h]
  split at h <;> [rename_i zip hzip; cases h]
  obtain ⟨hzip', h⟩ := reject_not_bind_eq_ok.mp h
  obtain ⟨hexpected, h⟩ := reject_bind_eq_ok.mp h
  obtain ⟨hsizes, h⟩ := reject_bind_eq_ok.mp h
  obtain ⟨directories, hdirectories, h⟩ := bind_eq_ok.mp h
  obtain ⟨files, hfiles, h⟩ := bind_eq_ok.mp h
  obtain rfl := pure_eq_ok.mp h
  obtain ⟨⟨hdarray, hdreads⟩, ⟨hdcount, hdvalid, hdsorted⟩, hdcapacity⟩ :=
    parseDirectories_eq_ok.mp hdirectories
  obtain ⟨⟨hfarray, hfreads⟩, ⟨hfcount, hfvalid, hfsorted, hfsum, hrequired⟩, -, hfcapacity⟩ :=
    (parseFiles_eq_ok hdoc).mp hfiles
  have hdownload' := hdoc.uint64 hdownload
  have hinstalled' := hdoc.uint64 hinstalled
  have hpeak' := hdoc.uint64 hpeak
  obtain ⟨hknown, rfl⟩ := parseBoard_eq_some.mp hboard
  obtain rfl := parseSha256_eq_some.mp hsha256
  rw [peak_iff hdownload'.2 hinstalled'.2] at hsizes
  simp only [not_or, Decidable.not_not, ne_eq] at hmodels hnames hexpected hzip'
  obtain ⟨rfl, rfl⟩ := hnames
  subst hzip'
  refine ⟨⟨board, filename, download, sha256, installed, peak, files, directories⟩,
    ⟨hfields, hboardText, hmodels.1, hmodels.2, hfirst, hsecond, hfilename, hdownload, hsha,
      hinstalled, hpeak, hzip, hdarray, hdreads, hfarray, hfreads⟩,
    ⟨rfl, hknown, hexpected.2, hdownload', hinstalled', ⟨hsizes, hpeak'.2⟩, hdcount, hdvalid,
      hdsorted, hfcount, hfvalid, hfsorted, hfsum, hrequired⟩,
    fun s hs => ⟨hfcapacity s hs, hdcapacity s hs⟩, rfl⟩

theorem parseAsset_of_reads (hdoc : doc.Lawful) {version : Bytes} {i : ι}
    {store : Option ManifestParseStorage} {a : ManifestAsset} (hreads : ReadsAsset doc i a)
    (hvalid : ValidAsset version a.board a) (hfits : Fits store a) :
    parseAsset doc version i store = .ok (kept store a) := by
  have hdirectories := parseDirectories_eq_ok.mpr ⟨⟨hreads.directoriesArray, hreads.directories⟩,
    ⟨hvalid.directoryCount, hvalid.directories, hvalid.directoryOrder⟩, fun s hs => (hfits s hs).2⟩
  have hsum := hvalid.installedSum
  have hfiles := (parseFiles_eq_ok hdoc).mpr ⟨⟨hreads.filesArray, hreads.files⟩,
    ⟨hvalid.fileCount, hvalid.files, hvalid.fileOrder, hsum, hvalid.required⟩,
    hsum ▸ hvalid.installed.2, fun s hs => (hfits s hs).1⟩
  have hlength := hdoc.copyString hreads.filename
  rw [hvalid.filename] at hlength
  have hsizes := (peak_iff hvalid.download.2 hvalid.installed.2).mpr hvalid.peak.1
  have hmodels : ¬ (¬ doc.hasType (doc.member i "supported_models") .array = true ∨
      doc.directChildren (doc.member i "supported_models") ≠ 2) := by
    simp [hreads.modelsArray, hreads.modelCount]
  unfold parseAsset
  simp only [hreads.fields, hreads.board, hreads.firstModel, hreads.secondModel, hreads.filename,
    hreads.download, hreads.sha256, hreads.installed, hreads.peak, hreads.zipProfile,
    parseBoard_eq_some.mpr ⟨hvalid.known, rfl⟩, parseSha256_eq_some.mpr rfl, reject_bind_eq_ok,
    hmodels, hsizes, not_true_eq_false, not_false_eq_true, true_and, ne_eq, or_self]
  refine ⟨?_, bind_eq_ok.mpr ⟨_, hdirectories, bind_eq_ok.mpr ⟨_, hfiles, rfl⟩⟩⟩
  rw [hvalid.filename]
  simp only [not_true_eq_false, or_false]
  omega

/-! ## The assets -/

theorem boardText_injective {b b' : BoardFamily} (h : boardText b = boardText b') : b = b' := by
  revert h
  cases b <;> cases b' <;> decide

/-- What the loop over the assets keeps of the assets before. -/
def assetScan (targetBoard : BoardFamily) (assets : List ManifestAsset) : AssetScan where
  boards := assets.map (·.board)
  target := assets.find? fun a => a.board = targetBoard

theorem assetScan_concat {targetBoard : BoardFamily} {assets : List ManifestAsset}
    {a : ManifestAsset} : assetScan targetBoard (assets ++ [a]) =
      ⟨(assetScan targetBoard assets).boards ++ [a.board],
        (assetScan targetBoard assets).target.or (if a.board = targetBoard then some a else none)⟩ := by
  unfold assetScan
  rw [List.map_append, List.find?_append, List.find?_singleton]
  simp

theorem target_isSome {targetBoard : BoardFamily} {assets : List ManifestAsset} :
    (assetScan targetBoard assets).target.isSome = true ↔ targetBoard ∈ assets.map (·.board) := by
  unfold assetScan
  rw [List.find?_isSome, List.mem_map]
  simp only [decide_eq_true_eq]

theorem boardOrder_iff {boards : List BoardFamily} {board : BoardFamily} (hknown : board ≠ .unknown) :
    ¬ boards.getLast?.any (fun previous =>
        previous ≠ .unknown && boardNumber board ≤ boardNumber previous) = true ↔
      ∀ b ∈ boards.getLast?, boardNumber b < boardNumber board := by
  cases boards.getLast? with
  | none => simp
  | some previous =>
      cases board with
      | unknown => exact absurd rfl hknown
      | pi4Pi400 => cases previous <;> decide
      | pi5Pi500 => cases previous <;> decide

/-- An asset that its object is read as, and that may follow those before. -/
theorem parseAssetEntry_eq_ok (hdoc : doc.Lawful) {version : Bytes} {targetBoard : BoardFamily}
    {storage : ManifestParseStorage} {front : List ManifestAsset} {i : ι} {s : AssetScan} :
    parseAssetEntry doc version targetBoard storage (assetScan targetBoard front) i = .ok s ↔
      ∃ a, ReadsAsset doc i a ∧ (ValidAsset version a.board a ∧
        (∀ b ∈ (front.map (·.board)).getLast?, boardNumber b < boardNumber a.board) ∧
        (a.board = targetBoard →
          targetBoard ∉ front.map (·.board) ∧ Fits (some storage) a)) ∧
        s = assetScan targetBoard (front ++ [a]) := by
  unfold parseAssetEntry
  constructor
  · intro h
    obtain ⟨parsed, hparsed, h⟩ := bind_eq_ok.mp h
    obtain ⟨a, hreads, hvalid, -, rfl⟩ := reads_of_parseAsset hdoc hparsed
    rw [board_kept] at h
    obtain ⟨horder, h⟩ := reject_bind_eq_ok.mp h
    replace horder := (boardOrder_iff hvalid.known).mp horder
    by_cases htarget : a.board = targetBoard
    · rw [if_pos htarget] at h
      obtain ⟨hfirst, h⟩ := reject_bind_eq_ok.mp h
      obtain ⟨asset, hasset, h⟩ := bind_eq_ok.mp h
      obtain ⟨a', hreads', hvalid', hfits, rfl⟩ := reads_of_parseAsset hdoc hasset
      obtain rfl := pure_eq_ok.mp h
      -- Both runs read the same field as the board.
      have hboard : a.board = a'.board :=
        boardText_injective (Option.some.inj (hreads.board.symm.trans hreads'.board))
      have hnone := Option.not_isSome_iff_eq_none.mp hfirst
      refine ⟨a', hreads', ⟨hvalid', hboard ▸ horder, fun _ => ⟨fun hmem => ?_, hfits⟩⟩, ?_⟩
      · exact hfirst (target_isSome.mpr hmem)
      · rw [assetScan_concat, hnone, if_pos (hboard ▸ htarget), ← hboard]
        rfl
    · rw [if_neg htarget] at h
      obtain rfl := pure_eq_ok.mp h
      refine ⟨a, hreads, ⟨hvalid, horder, fun h => absurd h htarget⟩, ?_⟩
      rw [assetScan_concat, if_neg htarget, Option.or_none]
  · intro h
    obtain ⟨a, hreads, ⟨hvalid, horder, hstore⟩, rfl⟩ := h
    have hparsed : parseAsset doc version i none = .ok (kept none a) :=
      parseAsset_of_reads hdoc hreads hvalid fun s hs => by cases hs
    refine bind_eq_ok.mpr ⟨_, hparsed, ?_⟩
    rw [board_kept]
    refine reject_bind_eq_ok.mpr ⟨(boardOrder_iff hvalid.known).mpr horder, ?_⟩
    by_cases htarget : a.board = targetBoard
    · obtain ⟨hfirst, hfits⟩ := hstore htarget
      have hnone : (assetScan targetBoard front).target = none :=
        Option.not_isSome_iff_eq_none.mp (mt target_isSome.mp hfirst)
      have hasset := parseAsset_of_reads hdoc hreads hvalid hfits
      rw [if_pos htarget, hnone, assetScan_concat, hnone, if_pos htarget]
      exact reject_bind_eq_ok.mpr ⟨by simp, bind_eq_ok.mpr ⟨_, hasset, rfl⟩⟩
    · rw [if_neg htarget, assetScan_concat, if_neg htarget, Option.or_none]
      rfl

/-- The assets of a manifest in the order of their boards. -/
def inBoardOrder (a other : ManifestAsset) : List ManifestAsset :=
  if a.board = .pi4Pi400 then [a, other] else [other, a]

/-- Two assets of known boards in order are one for each. -/
theorem twoAssets {as : List ManifestAsset} (hlength : as.length = 2)
    (hknown : ∀ a ∈ as, a.board ≠ .unknown)
    (horder : (as.map fun a => boardNumber a.board).Pairwise (· < ·)) {targetBoard : BoardFamily}
    (htarget : targetBoard ≠ .unknown) : ∃ a other, as = inBoardOrder a other ∧
      a.board = targetBoard ∧ other.board = otherBoard targetBoard := by
  match as, hlength with
  | [x, y], _ =>
      have hx := hknown x (by simp)
      have hy := hknown y (by simp)
      have hlt : boardNumber x.board < boardNumber y.board := by simpa using horder
      obtain ⟨hx4, hy5⟩ : x.board = .pi4Pi400 ∧ y.board = .pi5Pi500 := by
        revert hlt hx hy
        cases x.board <;> cases y.board <;> decide
      cases targetBoard with
      | unknown => exact absurd rfl htarget
      | pi4Pi400 => exact ⟨x, y, by rw [inBoardOrder, if_pos hx4], hx4, hy5⟩
      | pi5Pi500 =>
          exact ⟨y, x, by rw [inBoardOrder, if_neg (by rw [hy5]; decide)], hy5, hx4⟩

theorem caseDistinct_iff {a : ManifestAsset} :
    ¬ pathsCollide a.files a.directories = true ↔ CaseDistinct a := by
  unfold pathsCollide CaseDistinct asciiCaseEqual
  have hnodup : ∀ names : List Bytes, (names.map (·.map FatPath.asciiLower)).Nodup ↔
      names.Pairwise fun left right =>
        left.map FatPath.asciiLower ≠ right.map FatPath.asciiLower := fun names =>
    List.nodup_iff_pairwise_ne.trans List.pairwise_map
  rw [hnodup, List.pairwise_append, List.pairwise_map]
  simp only [Bool.or_eq_true, Bool.not_eq_true', decide_eq_false_iff_not, not_or,
    Decidable.not_not, List.any_eq_true, decide_eq_true_eq, not_exists, not_and, List.mem_map,
    forall_exists_index, and_imp, forall_apply_eq_imp_iff₂, ne_eq, and_assoc]
  exact and_congr_right fun _ => and_comm

end Parts

end Release

end BmxUpdate
