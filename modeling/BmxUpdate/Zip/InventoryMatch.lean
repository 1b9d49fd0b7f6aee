import BmxUpdate.Library.Framed
import BmxUpdate.Library.Matching
import BmxUpdate.Zip.Extract
import BmxUpdate.Zip.Layout

/-!
# The expected inventory against the archive

What `VerifyExpectedInventory` accepts on a reader that is open: the expected files and
directories, one for one, are those of the archive.  The lookups go from the expected
list to the archive only; the other direction follows from the counts and from `Open`,
which lets no two members have one name.
-/

namespace BmxUpdate

namespace Zip

open Wire Interaction FatPath Checks Matching

/-- What an expected file says of a member. -/
def ZipExpectedFile.member (file : ZipExpectedFile) : Bytes × Nat × ZipCompression :=
  (file.path, file.size, file.compression)

/-- The same of a file of the archive. -/
def ZipEntry.member (entry : ZipEntry) : Bytes × Nat × ZipCompression :=
  (entry.path, entry.size, entry.compression)

def archiveFiles (inventory : ZipInventory) : List ZipEntry :=
  inventory.entries.filter fun entry => !entry.isDirectory

def archiveDirectories (inventory : ZipInventory) : List ZipEntry :=
  inventory.entries.filter (·.isDirectory)

/-- The expected inventory is that of the archive. -/
structure ExactMatch (inventory : ZipInventory) (expected : ZipExpectedInventory) : Prop where
  distinct : (expected.files.map (·.path) ++ expected.directories).Nodup
  named : ∀ path ∈ expected.files.map (·.path) ++ expected.directories, path ≠ []
  files : Matched ZipExpectedFile.member ZipEntry.member expected.files (archiveFiles inventory)
  directories : Matched id ZipEntry.path expected.directories (archiveDirectories inventory)

/-! ## The inventory of an archive that opened -/

/-- What the lookups rely on. -/
structure InventoryFits (inventory : ZipInventory) : Prop where
  distinct : (inventory.entries.map (·.path)).Nodup
  files : inventory.fileCount = (archiveFiles inventory).length
  directories : inventory.directoryCount = (archiveDirectories inventory).length

theorem inventoryFits_of_layout {bytes : Bytes} {entryCapacity : Nat} {limits : ZipLimits}
    {inventory : ZipInventory} (h : ZipLayout bytes entryCapacity limits inventory) :
    InventoryFits inventory where
  distinct := by
    rw [List.Nodup, List.pairwise_map]
    refine h.distinct.imp fun hname hpath => hname ?_
    rw [SameName, hpath]
  files := by rw [h.files, List.countP_eq_length_filter, archiveFiles]
  directories := by
    have hcounts := h.counts
    have hlength := List.length_eq_countP_add_countP (fun entry : ZipEntry => entry.isDirectory)
      (l := inventory.entries)
    have hother : inventory.entries.countP (fun entry => decide ¬entry.isDirectory = true) =
        inventory.entries.countP fun entry => !entry.isDirectory := by
      congr 1
      funext entry
      simp
    rw [hother, ← h.files, h.entryCount] at hlength
    rw [archiveDirectories, ← List.countP_eq_length_filter]
    omega

section Lookup

variable {inventory : ZipInventory} (hfits : InventoryFits inventory)
include hfits

theorem findFile_eq_some {path : Bytes} {entry : ZipEntry} :
    findFile inventory.entries path = some entry ↔
      entry ∈ archiveFiles inventory ∧ entry.path = path := by
  constructor
  · intro h
    have hfound := List.find?_some h
    simp only [Bool.and_eq_true, decide_eq_true_eq] at hfound
    exact ⟨List.mem_filter.mpr ⟨List.mem_of_find?_eq_some h, hfound.1⟩, hfound.2⟩
  · intro h
    obtain ⟨hin, rfl⟩ := h
    obtain ⟨hin, hfile⟩ := List.mem_filter.mp hin
    cases hfind : findFile inventory.entries entry.path with
    | none =>
        rw [findFile, List.find?_eq_none] at hfind
        exact absurd (by simpa using hfile) (by simpa using hfind entry hin)
    | some other =>
        have hpath := List.find?_some hfind
        simp only [Bool.and_eq_true, decide_eq_true_eq] at hpath
        rw [List.inj_on_of_nodup_map hfits.distinct (List.mem_of_find?_eq_some hfind) hin hpath.2]

omit hfits in
theorem any_directory_iff {path : Bytes} :
    (inventory.entries.any fun entry => entry.isDirectory && entry.path = path) = true ↔
      ∃ entry ∈ archiveDirectories inventory, path = entry.path := by
  simp only [List.any_eq_true, Bool.and_eq_true, decide_eq_true_eq, archiveDirectories,
    List.mem_filter]
  constructor
  · intro h
    obtain ⟨entry, hin, hdirectory, hpath⟩ := h
    exact ⟨entry, ⟨hin, hdirectory⟩, hpath.symm⟩
  · intro h
    obtain ⟨entry, ⟨hin, hdirectory⟩, hpath⟩ := h
    exact ⟨entry, hin, hdirectory, hpath.symm⟩

/-- An expected file is found as it is in the archive. -/
theorem found_iff {file : ZipExpectedFile} :
    (∃ actual, findFile inventory.entries file.path = some actual ∧ actual.size = file.size ∧
      actual.compression = file.compression) ↔
      ∃ entry ∈ archiveFiles inventory, file.member = entry.member := by
  constructor
  · intro h
    obtain ⟨actual, hfind, hsize, hcompression⟩ := h
    obtain ⟨hin, hpath⟩ := (findFile_eq_some hfits).mp hfind
    exact ⟨actual, hin, by
      rw [ZipExpectedFile.member, ZipEntry.member, hpath, hsize, hcompression]⟩
  · intro h
    obtain ⟨entry, hin, hmember⟩ := h
    simp only [ZipExpectedFile.member, ZipEntry.member, Prod.mk.injEq] at hmember
    exact ⟨entry, (findFile_eq_some hfits).mpr ⟨hin, hmember.1.symm⟩, hmember.2.1.symm,
      hmember.2.2.symm⟩

/-! ## The two loops -/

theorem verifyFiles_eq_ok (files : List ZipExpectedFile) :
    ∀ {previous : List ZipExpectedFile} {requiresHash result : Bool},
      verifyFiles inventory.entries previous files requiresHash = .ok result ↔
        (∀ file ∈ files, file.path ≠ []) ∧ (files.map (·.path)).Nodup ∧
          (∀ file ∈ files, ∀ other ∈ previous, other.path ≠ file.path) ∧
          (∀ file ∈ files, ∃ entry ∈ archiveFiles inventory, file.member = entry.member) ∧
          result = (requiresHash || files.any (·.sha256.isSome)) := by
  induction files with
  | nil =>
      intro previous requiresHash result
      simp [verifyFiles, pure, Except.pure, eq_comm]
  | cons file rest ih =>
      intro previous requiresHash result
      simp only [verifyFiles, reject_bind_eq_ok]
      have hprevious : ¬ (previous.any (·.path = file.path)) = true ↔
          ∀ other ∈ previous, other.path ≠ file.path := by
        simp
      rw [hprevious]
      constructor
      · intro h
        obtain ⟨hnamed, hfresh, h⟩ := h
        split at h
        · cases h
        rename_i actual hactual
        rw [reject_bind_eq_ok, not_or, not_not, not_not, ih] at h
        obtain ⟨hsame, hrestNamed, hrestDistinct, hrestFresh, hrestFound, hresult⟩ := h
        refine ⟨?_, ?_, ?_, ?_, ?_⟩
        · exact List.forall_mem_cons.mpr ⟨hnamed, hrestNamed⟩
        · rw [List.map_cons, List.nodup_cons]
          refine ⟨fun hmem => ?_, hrestDistinct⟩
          obtain ⟨other, hother, hpath⟩ := List.mem_map.mp hmem
          exact hrestFresh other hother file (by simp) hpath.symm
        · refine List.forall_mem_cons.mpr ⟨hfresh, fun other hother before hbefore => ?_⟩
          exact hrestFresh other hother before (List.mem_append_left _ hbefore)
        · exact List.forall_mem_cons.mpr
            ⟨(found_iff hfits).mp ⟨actual, hactual, hsame⟩, hrestFound⟩
        · rw [hresult, List.any_cons, Bool.or_assoc]
      · intro h
        obtain ⟨hnamed, hdistinct, hfresh, hfound, hresult⟩ := h
        obtain ⟨actual, hactual, hsame⟩ := (found_iff hfits).mpr (hfound file (by simp))
        rw [List.map_cons, List.nodup_cons] at hdistinct
        refine ⟨hnamed file (by simp), hfresh file (by simp), ?_⟩
        rw [hactual]
        dsimp only
        rw [reject_bind_eq_ok, not_or, not_not, not_not, ih]
        refine ⟨hsame, fun other hother => hnamed other (List.mem_cons_of_mem _ hother),
          hdistinct.2, ?_, fun other hother => hfound other (List.mem_cons_of_mem _ hother), ?_⟩
        · intro other hother before hbefore hpath
          rcases List.mem_append.mp hbefore with hbefore | hbefore
          · exact hfresh other (List.mem_cons_of_mem _ hother) before hbefore hpath
          · rw [List.mem_singleton.mp hbefore] at hpath
            exact hdistinct.1 (hpath ▸ List.mem_map_of_mem hother)
        · rw [hresult, List.any_cons, Bool.or_assoc]

omit hfits in
theorem verifyDirectories_eq_ok (directories : List Bytes) :
    ∀ {previous : List Bytes} {u : Unit},
      verifyDirectories inventory.entries previous directories = .ok u ↔
        (∀ path ∈ directories, path ≠ []) ∧ directories.Nodup ∧
          (∀ path ∈ directories, path ∉ previous) ∧
          ∀ path ∈ directories, ∃ entry ∈ archiveDirectories inventory, path = entry.path := by
  induction directories with
  | nil =>
      intro previous u
      simp [verifyDirectories, pure, Except.pure]
  | cons path rest ih =>
      intro previous u
      simp only [verifyDirectories, reject_bind_eq_ok, not_not, any_directory_iff, ih]
      have hprevious : ¬ (previous.any (· = path)) = true ↔ path ∉ previous := by
        simp
      rw [hprevious]
      constructor
      · intro h
        obtain ⟨hnamed, hfresh, hfound, hrestNamed, hrestDistinct, hrestFresh, hrestFound⟩ := h
        refine ⟨List.forall_mem_cons.mpr ⟨hnamed, hrestNamed⟩, List.nodup_cons.mpr
          ⟨fun hmem => hrestFresh path hmem (by simp), hrestDistinct⟩,
          List.forall_mem_cons.mpr ⟨hfresh, fun other hother hin => ?_⟩,
          List.forall_mem_cons.mpr ⟨hfound, hrestFound⟩⟩
        exact hrestFresh other hother (List.mem_append_left _ hin)
      · intro h
        obtain ⟨hnamed, hdistinct, hfresh, hfound⟩ := h
        rw [List.nodup_cons] at hdistinct
        refine ⟨hnamed path (by simp), hfresh path (by simp), hfound path (by simp),
          fun other hother => hnamed other (List.mem_cons_of_mem _ hother), hdistinct.2, ?_,
          fun other hother => hfound other (List.mem_cons_of_mem _ hother)⟩
        intro other hother hin
        rcases List.mem_append.mp hin with hin | hin
        · exact hfresh other (List.mem_cons_of_mem _ hother) hin
        · rw [List.mem_singleton.mp hin] at hother
          exact hdistinct.1 hother

end Lookup

/-! ## The check -/

section Check

variable {reader : ZipReader} (hfits : InventoryFits reader.inventory) (hopen : reader.isOpen = true)
include hfits hopen

/-- What `VerifyExpectedInventory` asks, list by list. -/
theorem verifyExpectedInventory_eq_ok {expected : ZipExpectedInventory} {requiresHash : Bool} :
    reader.verifyExpectedInventory expected = .ok requiresHash ↔
      (expected.files.length = (archiveFiles reader.inventory).length ∧
        expected.directories.length = (archiveDirectories reader.inventory).length) ∧
      ((∀ file ∈ expected.files, file.path ≠ []) ∧ (expected.files.map (·.path)).Nodup ∧
        ∀ file ∈ expected.files, ∃ entry ∈ archiveFiles reader.inventory,
          file.member = entry.member) ∧
      ((∀ path ∈ expected.directories, path ≠ []) ∧ expected.directories.Nodup ∧
        ∀ path ∈ expected.directories, ∃ entry ∈ archiveDirectories reader.inventory,
          path = entry.path) ∧
      requiresHash = expected.files.any (·.sha256.isSome) := by
  unfold ZipReader.verifyExpectedInventory
  rw [reject_bind_eq_ok, reject_bind_eq_ok, not_or, not_not, not_not, hfits.files,
    hfits.directories]
  constructor
  · intro h
    obtain ⟨-, hcounts, h⟩ := h
    obtain ⟨found, hfiles, h⟩ := bind_eq_ok.mp h
    obtain ⟨_, hdirectories, h⟩ := bind_eq_ok.mp h
    obtain ⟨hnamed, hdistinct, -, hfound, hresult⟩ := (verifyFiles_eq_ok hfits _).mp hfiles
    obtain ⟨hnamed', hdistinct', -, hfound'⟩ := (verifyDirectories_eq_ok _).mp hdirectories
    cases h
    exact ⟨hcounts, ⟨hnamed, hdistinct, hfound⟩, ⟨hnamed', hdistinct', hfound'⟩, hresult⟩
  · intro h
    obtain ⟨hcounts, ⟨hnamed, hdistinct, hfound⟩, ⟨hnamed', hdistinct', hfound'⟩, rfl⟩ := h
    refine ⟨by simp [hopen], hcounts, ?_⟩
    refine bind_eq_ok.mpr ⟨_, (verifyFiles_eq_ok hfits _).mpr
      ⟨hnamed, hdistinct, by simp, hfound, rfl⟩, bind_eq_ok.mpr ⟨(), ?_, ?_⟩⟩
    · exact (verifyDirectories_eq_ok _).mpr ⟨hnamed', hdistinct', by simp, hfound'⟩
    · rw [Bool.false_or]
      rfl

/-- The check accepts an inventory exactly when it is that of the archive. -/
theorem verifyExpectedInventory_iff {expected : ZipExpectedInventory} :
    (∃ requiresHash, reader.verifyExpectedInventory expected = .ok requiresHash) ↔
      ExactMatch reader.inventory expected := by
  simp only [verifyExpectedInventory_eq_ok hfits hopen]
  constructor
  · intro h
    obtain ⟨_, ⟨hfiles, hdirectories⟩, ⟨hnamed, hdistinct, hfound⟩,
      ⟨hnamed', hdistinct', hfound'⟩, -⟩ := h
    have hmembers : (expected.files.map ZipExpectedFile.member).Nodup := by
      apply List.Nodup.of_map Prod.fst
      rw [List.map_map]
      exact hdistinct
    refine ⟨?_, ?_, matched_of_exists hfiles hmembers hfound,
      matched_of_exists hdirectories (by simpa using hdistinct') hfound'⟩
    · rw [List.nodup_append]
      refine ⟨hdistinct, hdistinct', fun path hpath other hother hsame => ?_⟩
      -- A file and a directory of one name would be two members of one name.
      obtain ⟨file, hfile, rfl⟩ := List.mem_map.mp hpath
      obtain ⟨entry, hentry, hmember⟩ := hfound file hfile
      obtain ⟨directory, hdirectory, hname⟩ := hfound' other hother
      have hpaths : entry.path = directory.path := by
        rw [← hname, ← hsame]
        exact (congrArg Prod.fst hmember).symm
      obtain ⟨hin, hkind⟩ := List.mem_filter.mp hentry
      obtain ⟨hin', hkind'⟩ := List.mem_filter.mp hdirectory
      rw [List.inj_on_of_nodup_map hfits.distinct hin hin' hpaths, hkind'] at hkind
      cases hkind
    · intro path hpath
      rcases List.mem_append.mp hpath with hpath | hpath
      · obtain ⟨file, hfile, rfl⟩ := List.mem_map.mp hpath
        exact hnamed file hfile
      · exact hnamed' path hpath
  · intro h
    have hdistinct := List.nodup_append.mp h.distinct
    refine ⟨_, ⟨h.files.length_eq, h.directories.length_eq⟩,
      ⟨fun file hfile => ?_, hdistinct.1, fun file => h.files.exists_right⟩,
      ⟨fun path hpath => ?_, hdistinct.2.1, fun path => h.directories.exists_right⟩, rfl⟩
    · exact h.named file.path (List.mem_append_left _ (List.mem_map_of_mem hfile))
    · exact h.named path (List.mem_append_right _ hpath)

/-- What is accepted, and whether it requires a hash, does not depend on the order of the
lists. -/
theorem verifyExpectedInventory_perm {expected expected' : ZipExpectedInventory}
    {requiresHash : Bool} (hfiles : expected.files.Perm expected'.files)
    (hdirectories : expected.directories.Perm expected'.directories)
    (h : reader.verifyExpectedInventory expected = .ok requiresHash) :
    reader.verifyExpectedInventory expected' = .ok requiresHash := by
  rw [verifyExpectedInventory_eq_ok hfits hopen] at h ⊢
  obtain ⟨hcounts, ⟨hnamed, hdistinct, hfound⟩, ⟨hnamed', hdistinct', hfound'⟩, rfl⟩ := h
  rw [hfiles.length_eq, hdirectories.length_eq] at hcounts
  exact ⟨hcounts,
    ⟨fun file hfile => hnamed file (hfiles.symm.subset hfile), (hfiles.map _).nodup hdistinct,
      fun file hfile => hfound file (hfiles.symm.subset hfile)⟩,
    ⟨fun path hpath => hnamed' path (hdirectories.symm.subset hpath),
      hdirectories.nodup hdistinct',
      fun path hpath => hfound' path (hdirectories.symm.subset hpath)⟩,
    hfiles.any_eq⟩

end Check

end Zip

end BmxUpdate
