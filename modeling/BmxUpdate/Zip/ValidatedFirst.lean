import BmxUpdate.Zip.ExtractProtocol

/-!
# Validation before extraction

`ExtractOne` and `ExtractAll` begin a file with the extract sink only after a
pass of `StreamFile` over it, without that sink, has ended well.
-/

namespace BmxUpdate

namespace Zip

open Wire Interaction Program

/-- A pass over the file that ended well, without the extract sink, is part of the trace. -/
def ValidatedIn (reader : ZipReader) (expected : ZipExpectedInventory) (hash : Bool)
    (entry : ZipEntry) (t : StreamTrace) : Prop :=
  ∃ pre pass post, t = pre ++ (pass ++ post) ∧
    Runs (reader.streamFile entry (findExpectedFile expected entry.path) hash false) pass none

/-- The sink begins a file only after a pass over it. -/
def ValidatedFirst (reader : ZipReader) (expected : ZipExpectedInventory) (hash : Bool)
    (t : StreamTrace) : Prop :=
  ∀ before entry begun after,
    t = before ++ ⟨.sink (.beginEntry entry), begun⟩ :: after → entry.isDirectory = false →
    ValidatedIn reader expected hash entry before

variable {reader : ZipReader} {expected : ZipExpectedInventory} {hash sink : Bool}
  {entry : ZipEntry} {entries : List ZipEntry} {t u : StreamTrace} {status : Option ZipStatus}

theorem ValidatedIn.append (h : ValidatedIn reader expected hash entry t) :
    ValidatedIn reader expected hash entry (u ++ t) := by
  obtain ⟨pre, pass, post, rfl, hpass⟩ := h
  exact ⟨u ++ pre, pass, post, by simp, hpass⟩

theorem ValidatedIn.append_right (h : ValidatedIn reader expected hash entry t) :
    ValidatedIn reader expected hash entry (t ++ u) := by
  obtain ⟨pre, pass, post, rfl, hpass⟩ := h
  exact ⟨pre, pass, post ++ u, by simp, hpass⟩

/-- The entries the sink is asked to begin all satisfy `P`. -/
def BeginsOnly (P : ZipEntry → Prop) (t : StreamTrace) : Prop :=
  ∀ entry begun, ⟨.beginEntry entry, begun⟩ ∈ sinkCalls t → P entry

theorem beginsOnly_append {P : ZipEntry → Prop} (h : BeginsOnly P t) (h' : BeginsOnly P u) :
    BeginsOnly P (t ++ u) := by
  intro entry begun hmem
  rw [sinkCalls_append] at hmem
  exact (List.mem_append.mp hmem).elim (h entry begun) (h' entry begun)

theorem beginsOnly_of_unwritten {P : ZipEntry → Prop} (h : sinkCalls t = []) :
    BeginsOnly P t := by
  intro entry begun hmem
  rw [h] at hmem
  cases hmem

/-- A trace without the sink, then one in which it begins files that were passed in the first. -/
theorem validatedFirst_append (hpass : sinkCalls t = [])
    (hbegins : BeginsOnly
      (fun entry => entry.isDirectory = false → ValidatedIn reader expected hash entry t) u) :
    ValidatedFirst reader expected hash (t ++ u) := by
  intro before entry begun after hsplit hfile
  rcases List.append_eq_append_iff.mp hsplit with ⟨more, rfl, hu⟩ | ⟨more, ht, hafter⟩
  · apply ValidatedIn.append_right
    apply hbegins entry begun _ hfile
    rw [hu, sinkCalls_append, sinkCalls_sink]
    exact List.mem_append_right _ List.mem_cons_self
  · cases more with
    | nil =>
        rw [List.append_nil] at ht
        subst ht
        apply hbegins entry begun _ hfile
        rw [List.nil_append] at hafter
        rw [← hafter, sinkCalls_sink]
        exact List.mem_cons_self
    | cons e more =>
        obtain ⟨rfl, -⟩ := List.cons.inj hafter
        rw [ht, sinkCalls_append, sinkCalls_sink] at hpass
        exact absurd (List.append_eq_nil_iff.mp hpass).2 (List.cons_ne_nil _ _)

/-! ## One file -/

theorem SinkTail.beginsNothing {good : Bytes → Prop} {calls : List SinkEvent}
    (h : SinkTail entry good calls status) (other : ZipEntry) (begun : Bool) :
    (⟨.beginEntry other, begun⟩ : SinkEvent) ∉ calls := by
  intro hmem
  have hwrites : ∀ chunks, (⟨.beginEntry other, begun⟩ : SinkEvent) ∉ writes chunks := by
    intro chunks hmem
    obtain ⟨chunk, -, heq⟩ := List.mem_map.mp hmem
    cases heq
  cases h with
  | committed chunks => simp [hwrites] at hmem
  | uncommitted chunks => simp [hwrites] at hmem
  | refused chunks => simp [hwrites] at hmem
  | aborted chunks => simp [hwrites] at hmem

theorem SinkSession.begins {good : Bytes → Prop} {calls : List SinkEvent}
    (h : SinkSession entry good sink calls status) (other : ZipEntry) (begun : Bool)
    (hmem : (⟨.beginEntry other, begun⟩ : SinkEvent) ∈ calls) : other = entry := by
  cases h with
  | unused => cases hmem
  | refused =>
      cases List.mem_singleton.mp hmem
      rfl
  | begun tail _ htail =>
      rcases List.mem_cons.mp hmem with heq | hmem
      · cases heq
        rfl
      · exact absurd hmem (htail.beginsNothing other begun)

theorem streamFile_begins {wanted : Option ZipExpectedFile}
    (h : Runs (reader.streamFile entry wanted hash sink) t status) :
    BeginsOnly (fun other => other = entry) t :=
  (streamFile_session h).extracted.begins

/-- `ExtractOne` on an inventory that is not validated. -/
theorem extractOne_validatedFirst {path : Bytes} {result : Option ZipStatus × ZipReader}
    (hunvalidated : reader.validatedContentsMatch expected = false)
    (h : Runs (reader.extractOne path expected hash) t result) :
    ValidatedFirst reader expected hash t := by
  have hnothing : ∀ {result' : Option ZipStatus × ZipReader},
      Runs (Pure.pure result' : StreamProc (Option ZipStatus × ZipReader)) t result →
        ValidatedFirst reader expected hash t := by
    intro result' h
    obtain ⟨rfl, -⟩ := runs_pure.mp h
    exact validatedFirst_append (t := []) rfl (beginsOnly_of_unwritten rfl)
  unfold ZipReader.extractOne at h
  dsimp only at h
  cases hverify : reader.verifyExpectedInventory expected with
  | error status =>
      rw [hverify] at h
      exact hnothing h
  | ok requiresHash =>
      rw [hverify] at h
      dsimp only at h
      cases hfind : findFile reader.inventory.entries path with
      | none =>
          rw [hfind] at h
          exact hnothing h
      | some entry =>
          rw [hfind] at h
          dsimp only at h
          cases hwanted : findExpectedFile expected path with
          | none =>
              rw [hwanted] at h
              exact hnothing h
          | some wanted =>
              rw [hwanted] at h
              dsimp only at h
              split at h
              · exact hnothing h
              · have hpath : entry.path = path := by
                  have := List.find?_some hfind
                  rw [Bool.and_eq_true] at this
                  exact of_decide_eq_true this.2
                rw [hunvalidated] at h
                obtain ⟨t₁, t₂, first, rfl, hfirst, hrest⟩ := runs_bind.mp h
                have hpass : Runs (reader.streamFile entry (some wanted) hash false) t₁ first :=
                  hfirst
                have hunwritten := (streamFile_session hpass).unwritten rfl
                refine validatedFirst_append hunwritten ?_
                split at hrest
                · obtain ⟨rfl, -⟩ := runs_pure.mp hrest
                  exact beginsOnly_of_unwritten rfl
                · next hok =>
                    rw [not_not] at hok
                    subst hok
                    obtain ⟨t₃, t₄, second, rfl, hsecond, hend⟩ := runs_bind.mp hrest
                    have hbegins : BeginsOnly (fun other => other = entry) t₃ :=
                      streamFile_begins hsecond
                    have hnone : sinkCalls t₄ = [] := by
                      split at hend
                      · obtain ⟨rfl, -⟩ := runs_pure.mp hend
                        rfl
                      · obtain ⟨rfl, -⟩ := runs_pure.mp hend
                        rfl
                    refine beginsOnly_append ?_ (beginsOnly_of_unwritten hnone)
                    intro other begun hmem _
                    obtain rfl := hbegins other begun hmem
                    refine ⟨[], t₁, [], by simp, ?_⟩
                    rw [hpath, hwanted]
                    exact hpass

/-! ## All files -/

theorem streamFiles_unwritten (h : Runs (reader.streamFiles expected hash false entries) t status) :
    sinkCalls t = [] := by
  induction entries generalizing t with
  | nil =>
      obtain ⟨rfl, -⟩ := runs_pure.mp h
      rfl
  | cons entry entries ih =>
      rw [ZipReader.streamFiles] at h
      split at h
      · exact ih h
      · obtain ⟨t₁, t₂, first, rfl, hfirst, hrest⟩ := runs_bind.mp h
        rw [sinkCalls_append, (streamFile_session hfirst).unwritten rfl]
        split at hrest
        · obtain ⟨rfl, -⟩ := runs_pure.mp hrest
          rfl
        · exact ih hrest

/-- A loop that ended well has passed over every file. -/
theorem streamFiles_validated (h : Runs (reader.streamFiles expected hash false entries) t none) :
    ∀ entry ∈ entries, entry.isDirectory = false → ValidatedIn reader expected hash entry t := by
  induction entries generalizing t with
  | nil => nofun
  | cons head entries ih =>
      rw [ZipReader.streamFiles] at h
      split at h
      · next hdirectory =>
          intro entry hmem hfile
          rcases List.mem_cons.mp hmem with rfl | hmem
          · rw [hfile] at hdirectory
            cases hdirectory
          · exact ih h entry hmem hfile
      · obtain ⟨t₁, t₂, first, rfl, hfirst, hrest⟩ := runs_bind.mp h
        split at hrest
        · next hfailed =>
            obtain ⟨-, rfl⟩ := runs_pure.mp hrest
            exact absurd rfl hfailed
        · next hok =>
            rw [not_not] at hok
            subst hok
            intro entry hmem hfile
            rcases List.mem_cons.mp hmem with rfl | hmem
            · exact ⟨[], t₁, t₂, rfl, hfirst⟩
            · exact (ih hrest entry hmem hfile).append

theorem streamFiles_begins (h : Runs (reader.streamFiles expected hash sink entries) t status) :
    BeginsOnly (fun entry => entry ∈ entries) t := by
  induction entries generalizing t with
  | nil =>
      obtain ⟨rfl, -⟩ := runs_pure.mp h
      exact beginsOnly_of_unwritten rfl
  | cons head entries ih =>
      rw [ZipReader.streamFiles] at h
      split at h
      · intro entry begun hmem
        exact List.mem_cons_of_mem _ (ih h entry begun hmem)
      · obtain ⟨t₁, t₂, first, rfl, hfirst, hrest⟩ := runs_bind.mp h
        refine beginsOnly_append ?_ ?_
        · intro entry begun hmem
          rw [streamFile_begins hfirst entry begun hmem]
          exact List.mem_cons_self
        · split at hrest
          · obtain ⟨rfl, -⟩ := runs_pure.mp hrest
            exact beginsOnly_of_unwritten rfl
          · intro entry begun hmem
            exact List.mem_cons_of_mem _ (ih hrest entry begun hmem)

/-- The sink only begins directories. -/
theorem extractDirectories_begins (h : Runs (ZipReader.extractDirectories entries) t status) :
    BeginsOnly (fun entry => entry.isDirectory = true) t := by
  induction entries generalizing t with
  | nil =>
      obtain ⟨rfl, -⟩ := runs_pure.mp h
      exact beginsOnly_of_unwritten rfl
  | cons head entries ih =>
      rw [ZipReader.extractDirectories] at h
      split at h
      · exact ih h
      · next hdirectory =>
          rw [Bool.not_eq_false] at hdirectory
          obtain ⟨begun, u, rfl, hbegun⟩ := runs_beginEntry.mp h
          clear h
          have hhead : BeginsOnly (fun entry => entry.isDirectory = true)
              [⟨.sink (.beginEntry head), begun⟩] := by
            intro entry begun' hmem
            cases List.mem_singleton.mp hmem
            exact hdirectory
          refine beginsOnly_append hhead ?_
          split at hbegun
          · obtain ⟨rfl, -⟩ := runs_pure.mp hbegun
            exact beginsOnly_of_unwritten rfl
          · obtain ⟨committed, u', rfl, hcommitted⟩ := runs_commitEntry.mp hbegun
            clear hbegun
            have hcommit : BeginsOnly (fun entry => entry.isDirectory = true)
                [⟨.sink (.commitEntry head), committed⟩] := by
              intro entry begun' hmem
              cases List.mem_singleton.mp hmem
            refine beginsOnly_append hcommit ?_
            split at hcommitted
            · obtain ⟨_, u'', rfl, hend⟩ := runs_abortEntry.mp hcommitted
              obtain ⟨rfl, -⟩ := runs_pure.mp hend
              intro entry begun' hmem
              cases List.mem_singleton.mp hmem
            · exact ih hcommitted

/-- `ValidateContents` never asks the extract sink; where it ends well it has passed over every
file. -/
theorem validateContents_runs {result : Option ZipStatus × ZipReader}
    (h : Runs (reader.validateContents expected hash) t result) :
    sinkCalls t = [] ∧ result.2.inventory = reader.inventory ∧
      (result.1 = none → ∀ entry ∈ reader.inventory.entries, entry.isDirectory = false →
        ValidatedIn reader expected hash entry t) := by
  have hstopped : ∀ {status : ZipStatus},
      Runs (Pure.pure (some status, reader.clearValidatedContents) :
        StreamProc (Option ZipStatus × ZipReader)) t result →
      sinkCalls t = [] ∧ result.2.inventory = reader.inventory ∧
        (result.1 = none → ∀ entry ∈ reader.inventory.entries, entry.isDirectory = false →
          ValidatedIn reader expected hash entry t) := by
    intro status h
    obtain ⟨rfl, rfl⟩ := runs_pure.mp h
    exact ⟨rfl, rfl, nofun⟩
  unfold ZipReader.validateContents at h
  dsimp only at h
  cases hverify : reader.verifyExpectedInventory expected with
  | error status =>
      rw [hverify] at h
      exact hstopped h
  | ok requiresHash =>
      rw [hverify] at h
      dsimp only at h
      split at h
      · exact hstopped h
      · cases hbinding : reader.computeExpectedInventoryBinding expected with
        | none =>
            rw [hbinding] at h
            exact hstopped h
        | some binding =>
            rw [hbinding] at h
            dsimp only at h
            obtain ⟨t₁, t₂, status, rfl, hfiles, hrest⟩ := runs_bind.mp h
            have hunwritten := streamFiles_unwritten hfiles
            split at hrest
            · next hfailed =>
                obtain ⟨rfl, rfl⟩ := runs_pure.mp hrest
                rw [List.append_nil]
                exact ⟨hunwritten, rfl, fun hok => absurd hok hfailed⟩
            · next hok =>
                rw [not_not] at hok
                subst hok
                have hvalidated := streamFiles_validated hfiles
                rw [if_neg (not_not.mpr rfl)] at hrest
                obtain ⟨rfl, rfl⟩ := runs_pure.mp hrest
                rw [List.append_nil]
                exact ⟨hunwritten, rfl, fun _ entry hmem hfile => hvalidated entry hmem hfile⟩

/-- `ExtractAll`, whatever was validated before. -/
theorem extractAll_validatedFirst {result : Option ZipStatus × ZipReader}
    (h : Runs (reader.extractAll expected hash) t result) :
    ValidatedFirst reader expected hash t := by
  unfold ZipReader.extractAll at h
  obtain ⟨t₁, t₂, ⟨first, reader'⟩, rfl, hvalidate, hrest⟩ := runs_bind.mp h
  obtain ⟨hunwritten, hinventory, hvalidated⟩ := validateContents_runs hvalidate
  refine validatedFirst_append hunwritten ?_
  dsimp only at hrest hinventory hvalidated
  split at hrest
  · obtain ⟨rfl, -⟩ := runs_pure.mp hrest
    exact beginsOnly_of_unwritten rfl
  · next hok =>
      rw [not_not] at hok
      rw [hinventory] at hrest
      obtain ⟨t₃, t₄, second, rfl, hdirectories, hfiles⟩ := runs_bind.mp hrest
      refine beginsOnly_append ?_ ?_
      · intro entry begun hmem hfile
        rw [extractDirectories_begins hdirectories entry begun hmem] at hfile
        cases hfile
      · split at hfiles
        · obtain ⟨rfl, -⟩ := runs_pure.mp hfiles
          exact beginsOnly_of_unwritten rfl
        · obtain ⟨t₅, t₆, third, rfl, hextract, hend⟩ := runs_bind.mp hfiles
          have hnone : sinkCalls t₆ = [] := by
            split at hend
            · obtain ⟨rfl, -⟩ := runs_pure.mp hend
              rfl
            · obtain ⟨rfl, -⟩ := runs_pure.mp hend
              rfl
          refine beginsOnly_append ?_ (beginsOnly_of_unwritten hnone)
          intro entry begun hmem hfile
          exact hvalidated hok entry (streamFiles_begins hextract entry begun hmem) hfile

/-- **The extraction protocol.**  `StreamFile` has one session with each sink, commits only a file
whose written bytes are the declared ones, and closes what it began; `ExtractOne` and `ExtractAll`
begin no file of an inventory that is not validated before a pass over it. -/
theorem extraction_protocol (reader : ZipReader) (hash : Bool) :
    (∀ entry wanted sink t status, Runs (reader.streamFile entry wanted hash sink) t status →
      FileSession entry wanted sink t status) ∧
    (∀ path expected t result, reader.validatedContentsMatch expected = false →
      Runs (reader.extractOne path expected hash) t result →
        ValidatedFirst reader expected hash t) ∧
    ∀ expected t result, Runs (reader.extractAll expected hash) t result →
      ValidatedFirst reader expected hash t :=
  ⟨fun _ _ _ _ _ h => streamFile_session h,
    fun _ _ _ _ hunvalidated h => extractOne_validatedFirst hunvalidated h,
    fun _ _ _ h => extractAll_validatedFirst h⟩

/-- A stored file of one byte. -/
def storedEntry : ZipEntry where
  path := bytesOf "a"
  isDirectory := false
  compression := .store
  flags := 0
  crc32 := 0xe8b7be43
  compressedSize := 1
  size := 1
  localHeaderOffset := 0
  dataOffset := 31
  externalAttributes := 0
  creatorSystem := 0

/-- A reader of an archive of 100 bytes with that file. -/
def storedReader : ZipReader where
  inventory :=
    { entries := [storedEntry], entryCount := 1, fileCount := 1, directoryCount := 0
      archiveSize := 100, installedSize := 1, centralDirectoryOffset := 32
      centralDirectorySize := 46 }
  workspace := true
  isOpen := true
  validatedInventoryBinding := none

/-- The file as the inventory expects it. -/
def storedFile : ZipExpectedFile := ⟨bytesOf "a", 1, .store, some (sha256 [0x61])⟩

/-- The calls while it is extracted. -/
def storedTrace : StreamTrace :=
  [⟨.source .getSize, some 100⟩,
   ⟨.hash (.beginFile (bytesOf "a") 1), true⟩,
   ⟨.sink (.beginEntry storedEntry), true⟩,
   ⟨.source (.readAt 31 1), some ⟨[0x61], rfl⟩⟩,
   ⟨.hash (.update [0x61]), true⟩,
   ⟨.sink (.write [0x61]), true⟩,
   ⟨.hash .finishFile, some (sha256 [0x61])⟩,
   ⟨.sink (.commitEntry storedEntry), true⟩]

theorem storedTrace_runs :
    Runs (storedReader.streamFile storedEntry (some storedFile) true true) storedTrace none := by
  have hcrc : updateCrc32 0xffffffff [0x61] ^^^ 0xffffffff = storedEntry.crc32 := by
    decide
  have hcheck : checkContents storedEntry ⟨none, 1, updateCrc32 0xffffffff [0x61]⟩ = none := by
    unfold checkContents
    rw [if_neg (by simp), if_neg (by decide), if_neg (not_not.mpr hcrc)]
  have hcontents : Runs (streamContents true true storedEntry)
      [⟨.source (.readAt 31 1), some ⟨[0x61], rfl⟩⟩, ⟨.hash (.update [0x61]), true⟩,
       ⟨.sink (.write [0x61]), true⟩] ⟨none, 1, updateCrc32 0xffffffff [0x61]⟩ := by
    show Runs (storeLoop true true storedEntry 1 31 0 0xffffffff) _ _
    rw [storeLoop]
    refine runs_readAt.mpr ⟨some ⟨[0x61], rfl⟩, _, rfl, ?_⟩
    refine runs_bind.mpr ⟨[⟨.hash (.update [0x61]), true⟩, ⟨.sink (.write [0x61]), true⟩], [], none,
      rfl, .call (.call (.pure _)), ?_⟩
    show Runs (storeLoop true true storedEntry 0 32 1 _) _ _
    rw [storeLoop]
    exact .pure _
  have hstarted : Runs (streamStarted storedEntry storedFile true true)
      (storedTrace.drop 3) none := by
    refine runs_bind.mpr ⟨_, storedTrace.drop 6, _, rfl, hcontents, ?_⟩
    rw [hcheck]
    refine runs_bind.mpr ⟨[⟨.hash .finishFile, some (sha256 [0x61])⟩], storedTrace.drop 7,
      (none, false), rfl, ?_, ?_⟩
    · refine runs_finishFile.mpr ⟨some (sha256 [0x61]), [], rfl, ?_⟩
      simp only [storedFile, Option.any_some, ne_eq, not_true_eq_false, decide_false,
        Bool.false_eq_true, if_false]
      exact .pure _
    · refine runs_bind.mpr ⟨[⟨.sink (.commitEntry storedEntry), true⟩], [], (none, false), rfl,
        ?_, ?_⟩
      · exact runs_commitEntry.mpr ⟨true, [], rfl, .pure _⟩
      · exact .pure _
  refine runs_getSize.mpr ⟨some 100, storedTrace.drop 1, rfl, ?_⟩
  refine runs_beginFile.mpr ⟨true, storedTrace.drop 2, rfl, ?_⟩
  exact runs_beginEntry.mpr ⟨true, storedTrace.drop 3, rfl, hstarted⟩

theorem extraction_protocol_stored :
    Runs (storedReader.streamFile storedEntry (some storedFile) true true) storedTrace none ∧
      FileSession storedEntry (some storedFile) true storedTrace none :=
  ⟨storedTrace_runs, (extraction_protocol storedReader true).1 _ _ _ _ _ storedTrace_runs⟩

end Zip

end BmxUpdate
