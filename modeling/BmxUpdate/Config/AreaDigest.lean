import BmxUpdate.Config.Snapshot
import BmxUpdate.Library.Framed

/-!
# What the digest of an area determines

Two areas that `ValidateAreaSnapshotShape` accepts have the same encoding exactly when
they are the same area with the same files, in whatever order the files come.
-/

namespace BmxUpdate

namespace Config

open Wire Http

/-! ## Accepted shapes -/

/-- What the shape check asks of a file by itself. -/
structure FileFits (area : ConfigArea) (file : ConfigFileView) : Prop where
  belongs : pathBelongsToArea area file.path = true
  size : file.content.length ≤ kMaximumConfigFileBytes

/-- The bytes of all files. -/
def contentBytes (files : List ConfigFileView) : Nat :=
  (files.map fun file => file.content.length).sum

theorem filesValid_iff (area : ConfigArea) (files : List ConfigFileView) :
    ∀ (paths : List Bytes) (total : Nat), filesValid area paths total files = true ↔
      (∀ file ∈ files, FileFits area file) ∧ (files.map (·.path)).Nodup ∧
        (∀ file ∈ files, file.path ∉ paths) ∧
        (files = [] ∨ total + contentBytes files ≤ kMaximumConfigAreaBytes) := by
  induction files with
  | nil => simp [filesValid]
  | cons file rest ih =>
      intro paths total
      simp only [filesValid, Bool.and_eq_true, decide_eq_true_eq, Bool.not_eq_true',
        List.contains_eq_mem, decide_eq_false_iff_not, ih]
      have hbounds : kMaximumConfigFileBytes ≤ kMaximumConfigAreaBytes := by decide
      constructor
      · intro h
        obtain ⟨⟨⟨⟨hbelongs, hsize⟩, htotal⟩, hfresh⟩, hfits, hnodup, hseen, hsum⟩ := h
        refine ⟨?_, ?_, ?_, Or.inr ?_⟩
        · intro other hother
          rcases List.mem_cons.mp hother with rfl | hrest
          · exact ⟨hbelongs, hsize⟩
          · exact hfits other hrest
        · rw [List.map_cons, List.nodup_cons]
          refine ⟨?_, hnodup⟩
          intro hmem
          obtain ⟨other, hother, hpath⟩ := List.mem_map.mp hmem
          exact hseen other hother (by simp [hpath])
        · intro other hother
          rcases List.mem_cons.mp hother with rfl | hrest
          · exact hfresh
          · exact fun hin => hseen other hrest (by simp [hin])
        · rcases hsum with hnil | hsum
          · simp only [hnil, contentBytes, List.map_cons, List.map_nil, List.sum_cons,
              List.sum_nil]
            omega
          · simp only [contentBytes, List.map_cons, List.sum_cons] at hsum ⊢
            omega
      · intro h
        obtain ⟨hfits, hnodup, hseen, hsum⟩ := h
        have hfile := hfits file (by simp)
        rw [List.map_cons, List.nodup_cons] at hnodup
        have htotal : total + file.content.length + contentBytes rest ≤
            kMaximumConfigAreaBytes := by
          rcases hsum with hnil | hsum
          · simp at hnil
          · simp only [contentBytes, List.map_cons, List.sum_cons] at hsum ⊢
            omega
        refine ⟨⟨⟨⟨hfile.belongs, hfile.size⟩, by omega⟩, hseen file (by simp)⟩, ?_, hnodup.2,
          ?_, Or.inr htotal⟩
        · exact fun other hother => hfits other (List.mem_cons_of_mem _ hother)
        · intro other hother hin
          rcases List.mem_append.mp hin with hin | hin
          · exact hseen other (List.mem_cons_of_mem _ hother) hin
          · have hpath : other.path = file.path := by simpa using hin
            exact hnodup.1 (hpath ▸ List.mem_map_of_mem hother)

/-- An area that `ValidateAreaSnapshotShape` accepts. -/
structure AreaFits (area : ConfigAreaSnapshot) : Prop where
  known : isKnownConfigArea area.area = true
  count : area.files.length ≤ kMaximumConfigFilesPerArea
  files : ∀ file ∈ area.files, FileFits area.area file
  paths : (area.files.map (·.path)).Nodup
  size : contentBytes area.files ≤ kMaximumConfigAreaBytes

theorem validateAreaSnapshotShape_iff (area : ConfigAreaSnapshot) :
    validateAreaSnapshotShape area = true ↔ AreaFits area := by
  simp only [validateAreaSnapshotShape, Bool.and_eq_true, decide_eq_true_eq, filesValid_iff]
  constructor
  · intro h
    obtain ⟨⟨hknown, hcount⟩, hfiles, hpaths, -, hsize⟩ := h
    refine ⟨hknown, hcount, hfiles, hpaths, ?_⟩
    rcases hsize with hnil | hsize
    · simp [hnil, contentBytes]
    · omega
  · intro h
    exact ⟨⟨h.known, h.count⟩, h.files, h.paths, by simp, Or.inr (by simpa using h.size)⟩

/-! ## The encoding of a file -/

/-- The lengths fit their fields. -/
def Encodable (file : ConfigFileView) : Prop :=
  file.path.length < 256 ^ 2 ∧ file.content.length < 256 ^ 8

theorem length_le_of_isSafeRelativePath {path : Bytes} (h : isSafeRelativePath path = true) :
    path.length ≤ kMaximumConfigPathBytes := by
  simp only [isSafeRelativePath, Bool.and_eq_true, decide_eq_true_eq] at h
  exact h.1.1.1.1.2

theorem FileFits.encodable {area : ConfigArea} {file : ConfigFileView} (h : FileFits area file) :
    Encodable file := by
  have hbelongs := h.belongs
  simp only [pathBelongsToArea, Bool.and_eq_true] at hbelongs
  have hpath := length_le_of_isSafeRelativePath hbelongs.1
  have hsize := h.size
  simp only [kMaximumConfigPathBytes, kMaximumConfigFileBytes] at hpath hsize
  constructor <;> omega

theorem encodeFile_eq {file : ConfigFileView} (h : Encodable file) :
    encodeFile file = (encodeBe 2 file.path.length ++ file.path) ++
      (encodeBe 8 file.content.length ++ file.content) := by
  obtain ⟨hpath, hcontent⟩ := h
  rw [encodeFile, Nat.mod_eq_of_lt (by omega), Nat.mod_eq_of_lt (by omega)]

/-- No byte moves between a path and a content, or from one file to the next. -/
theorem selfDelimiting_encodeFile : SelfDelimiting Encodable encodeFile := by
  have hpair := (selfDelimiting_lengthFirst 2).pair (selfDelimiting_lengthFirst 8)
  intro a b s t ha hb heq
  rw [encodeFile_eq ha, encodeFile_eq hb] at heq
  have hfields := hpair (a := (a.path, a.content)) (b := (b.path, b.content)) ha hb heq
  obtain ⟨hfile, hrest⟩ := hfields
  refine ⟨?_, hrest⟩
  cases a
  cases b
  simp only [Prod.mk.injEq] at hfile
  rw [hfile.1, hfile.2]

/-! ## The order of the files -/

theorem pathOrder_total (left right : ConfigFileView) :
    pathOrder left right = true ∨ pathOrder right left = true := by
  simp only [pathOrder, decide_eq_true_eq]
  exact le_total _ _

theorem pathOrder_trans {a b c : ConfigFileView} (hab : pathOrder a b = true)
    (hbc : pathOrder b c = true) : pathOrder a c = true := by
  simp only [pathOrder, decide_eq_true_eq] at hab hbc ⊢
  exact le_trans hab hbc

theorem path_eq_of_pathOrder {left right : ConfigFileView} (h : pathOrder left right = true)
    (h' : pathOrder right left = true) : left.path = right.path := by
  simp only [pathOrder, decide_eq_true_eq] at h h'
  have hnat := le_antisymm h h'
  exact List.map_injective_iff.mpr (fun _ _ => UInt8.toNat.inj) hnat

theorem sortedFiles_perm (files : List ConfigFileView) : (sortedFiles files).Perm files :=
  List.perm_insertionSort _ files

theorem sortedFiles_sorted (files : List ConfigFileView) :
    (sortedFiles files).Pairwise fun left right => pathOrder left right = true := by
  have : Std.Total fun left right => pathOrder left right = true := ⟨pathOrder_total⟩
  have : IsTrans ConfigFileView fun left right => pathOrder left right = true :=
    ⟨fun _ _ _ => pathOrder_trans⟩
  exact List.pairwise_insertionSort _ files

/-- Files with paths of their own come out in one order. -/
theorem sortedFiles_eq_of_perm {left right : List ConfigFileView}
    (hpaths : (left.map (·.path)).Nodup) (h : left.Perm right) :
    sortedFiles left = sortedFiles right := by
  have hperm : (sortedFiles left).Perm (sortedFiles right) :=
    (sortedFiles_perm left).trans (h.trans (sortedFiles_perm right).symm)
  refine hperm.eq_of_pairwise ?_ (sortedFiles_sorted left) (sortedFiles_sorted right)
  intro a b ha hb hab hba
  have hin : a ∈ left := (sortedFiles_perm left).subset ha
  have hin' : b ∈ left := h.symm.subset ((sortedFiles_perm right).subset hb)
  exact List.inj_on_of_nodup_map hpaths hin hin' (path_eq_of_pathOrder hab hba)

/-! ## The encoding of an area -/

theorem areaNumber_lt (area : ConfigArea) : areaNumber area < 256 := by
  cases area <;> decide

theorem areaNumber_inj {left right : ConfigArea} (h : areaNumber left = areaNumber right) :
    left = right := by
  cases left <;> cases right <;> first | rfl | simp [areaNumber] at h

theorem ofNat_inj {m n : Nat} (hm : m < 256) (hn : n < 256)
    (h : UInt8.ofNat m = UInt8.ofNat n) : m = n := by
  have hnat := congrArg UInt8.toNat h
  rwa [UInt8.toNat_ofNat_of_lt' hm, UInt8.toNat_ofNat_of_lt' hn] at hnat

/-- The encodings of two accepted areas agree exactly when the areas do. -/
theorem encodeArea_eq_iff {left right : ConfigAreaSnapshot} (hleft : AreaFits left)
    (hright : AreaFits right) :
    encodeArea left = encodeArea right ↔
      left.area = right.area ∧ left.files.Perm right.files := by
  constructor
  · intro h
    simp only [encodeArea, List.append_assoc] at h
    have hheader := List.append_cancel_left (List.append_cancel_left h)
    simp only [List.cons_append, List.nil_append, List.cons.injEq] at hheader
    obtain ⟨harea, hcount, hfiles⟩ := hheader
    have harea' := areaNumber_inj (ofNat_inj (areaNumber_lt _) (areaNumber_lt _) harea)
    have hlength : left.files.length = right.files.length := by
      have hl := hleft.count
      have hr := hright.count
      simp only [kMaximumConfigFilesPerArea] at hl hr
      exact ofNat_inj (by omega) (by omega) hcount
    have hsorted := selfDelimiting_encodeFile.flatMap (sortedFiles left.files)
      (sortedFiles right.files) (s := []) (t := [])
      (by rw [(sortedFiles_perm _).length_eq, (sortedFiles_perm _).length_eq, hlength])
      (fun file hfile =>
        (hleft.files file ((sortedFiles_perm _).subset hfile)).encodable)
      (fun file hfile =>
        (hright.files file ((sortedFiles_perm _).subset hfile)).encodable)
      (by simpa using hfiles)
    refine ⟨harea', ?_⟩
    have hperm := sortedFiles_perm left.files
    rw [hsorted.1] at hperm
    exact hperm.symm.trans (sortedFiles_perm right.files)
  · intro h
    obtain ⟨harea, hfiles⟩ := h
    simp only [encodeArea]
    rw [harea, hfiles.length_eq, sortedFiles_eq_of_perm hleft.paths hfiles]

end Config

end BmxUpdate
