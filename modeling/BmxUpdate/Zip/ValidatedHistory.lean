import BmxUpdate.Zip.InventoryMatch
import BmxUpdate.Zip.ValidatedFirst

/-!
# When contents count as validated

The calls of a `ZipReader` one after the other, and what its cached binding says about
them: contents count as validated for an inventory only when the same inventory was
validated, or bound after the archive was authenticated, since the archive was opened.
-/

namespace BmxUpdate

namespace Zip

open Wire Interaction FatPath Checks Matching Program

/-! ## What a binding determines -/

/-- The text that the binding of an inventory is the hash of. -/
def bindingText (reader : ZipReader) (expected : ZipExpectedInventory) : Option Bytes :=
  if reader.isOpen = false then none
  else (reader.inventory.entries.mapM (bindingOf expected)).map fun members =>
    sizedBytes (bytesOf "bmx-zip-validated-inventory-v1") ++
      encodeLe 8 expected.files.length ++ encodeLe 8 expected.directories.length ++
      members.flatten

theorem computeExpectedInventoryBinding_eq (reader : ZipReader)
    (expected : ZipExpectedInventory) :
    reader.computeExpectedInventoryBinding expected = (bindingText reader expected).map sha256 := by
  unfold ZipReader.computeExpectedInventoryBinding bindingText
  split
  · rfl
  · rw [Option.map_map]
    rfl

/-- Counts and sizes are 64-bit numbers. -/
structure Representable (expected : ZipExpectedInventory) : Prop where
  files : expected.files.length < 256 ^ 8
  directories : expected.directories.length < 256 ^ 8
  sizes : ∀ file ∈ expected.files, file.size < 256 ^ 8

theorem code_inj {left right : ZipCompression}
    (h : UInt8.ofNat left.code = UInt8.ofNat right.code) : left = right := by
  cases left <;> cases right <;> first | rfl | (exact absurd h (by decide))

/-- The digest of a file in a binding. -/
def describeDigest : Option Digest → Bytes
  | none => [0]
  | some digest => 1 :: digest.bytes

theorem selfDelimiting_describeDigest :
    SelfDelimiting (fun _ : Option Digest => True) describeDigest := by
  intro a b s t _ _ heq
  cases a with
  | none =>
      cases b with
      | none => exact ⟨rfl, by simpa [describeDigest] using heq⟩
      | some digest => simp [describeDigest] at heq
  | some digest =>
      cases b with
      | none => simp [describeDigest] at heq
      | some other =>
          simp only [describeDigest, List.cons_append, List.cons.injEq, true_and] at heq
          obtain ⟨hbytes, hrest⟩ := List.append_inj heq (by simp)
          exact ⟨by rw [Block.ext hbytes], hrest⟩

/-- The part of a binding that describes a file. -/
def describe (file : ZipExpectedFile) : Bytes :=
  encodeLe 8 file.size ++ UInt8.ofNat file.compression.code :: describeDigest file.sha256

theorem selfDelimiting_describe (path : Bytes) :
    SelfDelimiting (fun file : ZipExpectedFile => file.path = path ∧ file.size < 256 ^ 8)
      describe := by
  intro a b s t ha hb heq
  simp only [describe, List.append_assoc, List.cons_append] at heq
  obtain ⟨hsize, heq⟩ := List.append_inj heq (by simp)
  obtain ⟨hcode, heq⟩ := List.cons.inj heq
  obtain ⟨hdigest, hrest⟩ := selfDelimiting_describeDigest trivial trivial heq
  have hsize := encodeLe_injOn ha.2 hb.2 hsize
  have hcompression := code_inj hcode
  have hpath := ha.1.trans hb.1.symm
  refine ⟨?_, hrest⟩
  cases a
  cases b
  dsimp only at hpath hsize hcompression hdigest
  rw [hpath, hsize, hcompression, hdigest]

theorem bindingOf_file {expected : ZipExpectedInventory} {entry : ZipEntry} {code : Bytes}
    (hfile : entry.isDirectory = false) (h : bindingOf expected entry = some code) :
    ∃ wanted, findExpectedFile expected entry.path = some wanted ∧
      code = 0x46 :: sizedBytes entry.path ++ describe wanted := by
  simp only [bindingOf, hfile, Bool.false_eq_true, if_false, Option.map_eq_some_iff] at h
  obtain ⟨wanted, hwanted, rfl⟩ := h
  refine ⟨wanted, hwanted, ?_⟩
  cases hdigest : wanted.sha256 <;> simp [describe, describeDigest, hdigest]

theorem findExpectedFile_mem {expected : ZipExpectedInventory} {path : Bytes}
    {file : ZipExpectedFile} (h : findExpectedFile expected path = some file) :
    file ∈ expected.files ∧ file.path = path :=
  ⟨List.mem_of_find?_eq_some h, by simpa using List.find?_some h⟩

/-- The members of two bindings of one text describe the same files. -/
theorem wanted_eq_of_members {first second : ZipExpectedInventory}
    (hfirst : ∀ file ∈ first.files, file.size < 256 ^ 8)
    (hsecond : ∀ file ∈ second.files, file.size < 256 ^ 8) :
    ∀ {entries : List ZipEntry} {members members' : List Bytes} {s t : Bytes},
      entries.mapM (bindingOf first) = some members →
      entries.mapM (bindingOf second) = some members' →
      members.flatten ++ s = members'.flatten ++ t →
      ∀ entry ∈ entries, entry.isDirectory = false →
        ∃ wanted, findExpectedFile first entry.path = some wanted ∧
          findExpectedFile second entry.path = some wanted := by
  intro entries
  induction entries with
  | nil => simp
  | cons entry rest ih =>
      intro members members' s t hmembers hmembers' heq other hother hfile
      simp only [List.mapM_cons, Option.bind_eq_bind, Option.bind_eq_some_iff] at hmembers hmembers'
      obtain ⟨code, hcode, tail, htail, hmembers⟩ := hmembers
      obtain ⟨code', hcode', tail', htail', hmembers'⟩ := hmembers'
      cases hmembers
      cases hmembers'
      simp only [List.flatten_cons, List.append_assoc] at heq
      cases hkind : entry.isDirectory with
      | true =>
          simp only [bindingOf, hkind, if_true, Option.some.injEq] at hcode hcode'
          rw [← hcode, ← hcode'] at heq
          rcases List.mem_cons.mp hother with rfl | hother
          · rw [hkind] at hfile
            cases hfile
          · exact ih htail htail' (List.append_cancel_left heq) other hother hfile
      | false =>
          obtain ⟨wanted, hwanted, rfl⟩ := bindingOf_file hkind hcode
          obtain ⟨wanted', hwanted', rfl⟩ := bindingOf_file hkind hcode'
          simp only [List.append_assoc, List.cons_append] at heq
          rw [List.cons.injEq] at heq
          obtain ⟨hmem, hpath⟩ := findExpectedFile_mem hwanted
          obtain ⟨hmem', hpath'⟩ := findExpectedFile_mem hwanted'
          obtain ⟨hsame, hrest⟩ := selfDelimiting_describe entry.path
            ⟨hpath, hfirst wanted hmem⟩ ⟨hpath', hsecond wanted' hmem'⟩
            (List.append_cancel_left heq.2)
          rcases List.mem_cons.mp hother with rfl | hother
          · exact ⟨wanted, hwanted, hsame ▸ hwanted'⟩
          · exact ih htail htail' hrest other hother hfile

/-- The hash of two texts is not a collision. -/
def CollisionFree (reader : ZipReader) (first second : ZipExpectedInventory) : Prop :=
  ∀ text text', bindingText reader first = some text → bindingText reader second = some text' →
    sha256 text = sha256 text' → text = text'

/-- One binding: the two inventories list the same files. -/
theorem files_perm_of_binding {reader : ZipReader} {first second : ZipExpectedInventory}
    {binding : Digest} (hmatch : ExactMatch reader.inventory first)
    (hfirst : Representable first) (hsecond : Representable second)
    (hfree : CollisionFree reader first second)
    (hbinding : reader.computeExpectedInventoryBinding first = some binding)
    (hbinding' : reader.computeExpectedInventoryBinding second = some binding) :
    first.files.Perm second.files ∧ first.directories.length = second.directories.length := by
  rw [computeExpectedInventoryBinding_eq, Option.map_eq_some_iff] at hbinding hbinding'
  obtain ⟨text, htext, hhash⟩ := hbinding
  obtain ⟨text', htext', hhash'⟩ := hbinding'
  have hsame := hfree text text' htext htext' (hhash.trans hhash'.symm)
  subst hsame
  unfold bindingText at htext htext'
  split at htext
  · cases htext
  next hopen =>
  rw [if_neg hopen] at htext'
  obtain ⟨members, hmembers, rfl⟩ := Option.map_eq_some_iff.mp htext
  obtain ⟨members', hmembers', heq⟩ := Option.map_eq_some_iff.mp htext'
  simp only [List.append_assoc] at heq
  have heq := List.append_cancel_left heq
  obtain ⟨hfiles, heq⟩ := List.append_inj heq (by simp)
  obtain ⟨hdirectories, heq⟩ := List.append_inj heq (by simp)
  have hfiles := encodeLe_injOn hsecond.files hfirst.files hfiles
  have hdirectories := encodeLe_injOn hsecond.directories hfirst.directories hdirectories
  have hwanted := wanted_eq_of_members (s := []) (t := []) hfirst.sizes hsecond.sizes hmembers
    hmembers' (by rw [heq])
  have hpaths : (first.files.map (·.path)).Nodup := (List.nodup_append.mp hmatch.distinct).1
  refine ⟨perm_of_subset (hpaths.of_map _) ?_ (le_of_eq hfiles), hdirectories.symm⟩
  intro file hfile
  obtain ⟨entry, hentry, hmember⟩ := hmatch.files.exists_right hfile
  obtain ⟨hin, hkind⟩ := List.mem_filter.mp hentry
  obtain ⟨wanted, hwanted, hwanted'⟩ := hwanted entry hin (by simpa using hkind)
  obtain ⟨hmem, hpath⟩ := findExpectedFile_mem hwanted
  have hpath : wanted.path = file.path := hpath.trans (congrArg Prod.fst hmember).symm
  rw [← List.inj_on_of_nodup_map hpaths hmem hfile hpath]
  exact (findExpectedFile_mem hwanted').1

/-! ## The calls of a reader -/

/-- What is called on a reader; a call that opens has the archive its source reads. -/
inductive ReaderCall where
  | setWorkspace (workspace : Bool)
  | openArchive (bytes : Bytes) (entryCapacity : Nat) (limits : ZipLimits)
  | validateContents (expected : ZipExpectedInventory) (hashSink : Bool)
  | bindAuthenticatedInventory (expected : ZipExpectedInventory)
  | extractOne (path : Bytes) (expected : ZipExpectedInventory) (hashSink : Bool)
  | extractAll (expected : ZipExpectedInventory) (hashSink : Bool)

namespace ReaderCall

def opens : ReaderCall → Bool
  | openArchive .. => true
  | _ => false

/-- The inventory a call validates or binds where it ends well. -/
def validates : ReaderCall → Option ZipExpectedInventory
  | validateContents expected _ => some expected
  | bindAuthenticatedInventory expected => some expected
  | extractAll expected _ => some expected
  | _ => none

end ReaderCall

/-- A reader that has nothing open. -/
def closedReader (workspace : Bool) : ZipReader where
  inventory :=
    { entries := [], entryCount := 0, fileCount := 0, directoryCount := 0, archiveSize := 0
      installedSize := 0, centralDirectoryOffset := 0, centralDirectorySize := 0 }
  workspace := workspace
  isOpen := false
  validatedInventoryBinding := none

/-- `Open` ends on the archive with this result, where its reads may fail. -/
def Opens (bytes : Bytes) (entryCapacity : Nat) (limits : ZipLimits)
    (result : Except ZipStatus ZipInventory) : Prop :=
  Reaches (archiveSource bytes) (some (openArchive entryCapacity limits).run, ())
    (some (.pure result), ())

/-- A call, its status and the reader after it; the components answer as they like. -/
inductive ReaderStep (reader : ZipReader) : ReaderCall → Option ZipStatus → ZipReader → Prop
  | workspace (workspace : Bool) :
      ReaderStep reader (.setWorkspace workspace) none { reader with workspace := workspace }
  | opened {bytes entryCapacity limits inventory}
      (h : Opens bytes entryCapacity limits (.ok inventory)) :
      ReaderStep reader (.openArchive bytes entryCapacity limits) none
        ⟨inventory, reader.workspace, true, none⟩
  | refused {bytes entryCapacity limits status}
      (h : Opens bytes entryCapacity limits (.error status)) :
      ReaderStep reader (.openArchive bytes entryCapacity limits) (some status)
        (closedReader reader.workspace)
  | validated {expected hashSink t result}
      (h : Runs (reader.validateContents expected hashSink) t result) :
      ReaderStep reader (.validateContents expected hashSink) result.1 result.2
  | bound (expected : ZipExpectedInventory) :
      ReaderStep reader (.bindAuthenticatedInventory expected)
        (reader.bindAuthenticatedInventory expected).1
        (reader.bindAuthenticatedInventory expected).2
  | extractedOne {path expected hashSink t result}
      (h : Runs (reader.extractOne path expected hashSink) t result) :
      ReaderStep reader (.extractOne path expected hashSink) result.1 result.2
  | extractedAll {expected hashSink t result}
      (h : Runs (reader.extractAll expected hashSink) t result) :
      ReaderStep reader (.extractAll expected hashSink) result.1 result.2

/-- The calls of a reader since it was made, with their status, and the reader after them. -/
inductive ReaderRun : List (ReaderCall × Option ZipStatus) → ZipReader → Prop
  | start : ReaderRun [] (closedReader false)
  | step {calls reader call status next} (h : ReaderRun calls reader)
      (hstep : ReaderStep reader call status next) : ReaderRun (calls ++ [(call, status)]) next

/-! ## What a call does to the binding -/

/-- An inventory that is the archive's, with its binding. -/
def Bound (reader : ZipReader) (expected : ZipExpectedInventory) (binding : Digest) : Prop :=
  (∃ requiresHash, reader.verifyExpectedInventory expected = .ok requiresHash) ∧
    reader.computeExpectedInventoryBinding expected = some binding

/-- The archive is still the one that was opened. -/
structure SameArchive (reader next : ZipReader) : Prop where
  inventory : next.inventory = reader.inventory
  isOpen : next.isOpen = reader.isOpen

theorem SameArchive.bound {reader next : ZipReader} (h : SameArchive reader next)
    {expected : ZipExpectedInventory} {binding : Digest} (hbound : Bound reader expected binding) :
    Bound next expected binding := by
  unfold Bound ZipReader.verifyExpectedInventory ZipReader.computeExpectedInventoryBinding at *
  rw [h.inventory, h.isOpen]
  exact hbound

/-- A call for `expected`: a binding that is left is the binding of `expected`, and the
call ended well. -/
structure Validates (reader : ZipReader) (expected : ZipExpectedInventory)
    (status : Option ZipStatus) (next : ZipReader) : Prop extends SameArchive reader next where
  bound : ∀ binding, next.validatedInventoryBinding = some binding →
    status = none ∧ Bound reader expected binding

section Calls

variable {reader : ZipReader} {expected : ZipExpectedInventory}

theorem validates_cleared (status : Option ZipStatus) :
    Validates reader expected status reader.clearValidatedContents :=
  ⟨⟨rfl, rfl⟩, nofun⟩

theorem bindAuthenticatedInventory_validates :
    Validates reader expected (reader.bindAuthenticatedInventory expected).1
      (reader.bindAuthenticatedInventory expected).2 := by
  unfold ZipReader.bindAuthenticatedInventory
  cases hverify : reader.verifyExpectedInventory expected with
  | error status => exact validates_cleared _
  | ok requiresHash =>
      dsimp only
      cases hbinding : reader.computeExpectedInventoryBinding expected with
      | none => exact validates_cleared _
      | some binding =>
          refine ⟨⟨rfl, rfl⟩, fun binding' h => ⟨rfl, ⟨requiresHash, hverify⟩, ?_⟩⟩
          rw [hbinding]
          exact h

variable {hashSink : Bool} {t : StreamTrace} {result : Option ZipStatus × ZipReader}

theorem validateContents_validates
    (h : Runs (reader.validateContents expected hashSink) t result) :
    Validates reader expected result.1 result.2 := by
  have hstopped : ∀ {t : StreamTrace} {status : Option ZipStatus},
      Runs (Pure.pure (status, reader.clearValidatedContents) :
        StreamProc (Option ZipStatus × ZipReader)) t result →
      Validates reader expected result.1 result.2 := by
    intro t status h
    obtain ⟨-, rfl⟩ := runs_pure.mp h
    exact validates_cleared _
  unfold ZipReader.validateContents at h
  dsimp only at h
  cases hverify : reader.verifyExpectedInventory expected with
  | error status =>
      rw [hverify] at h
      exact hstopped h
  | ok requiresHash =>
      rw [hverify] at h
      dsimp only at h
      split at h
      · exact hstopped h
      cases hbinding : reader.computeExpectedInventoryBinding expected with
      | none =>
          rw [hbinding] at h
          exact hstopped h
      | some binding =>
          rw [hbinding] at h
          dsimp only at h
          obtain ⟨t₁, t₂, status, rfl, -, hrest⟩ := runs_bind.mp h
          split at hrest
          · exact hstopped hrest
          · rw [if_neg (not_not.mpr rfl)] at hrest
            obtain ⟨-, rfl⟩ := runs_pure.mp hrest
            refine ⟨⟨rfl, rfl⟩, fun binding' h => ⟨rfl, ⟨requiresHash, hverify⟩, ?_⟩⟩
            rw [hbinding]
            exact h

theorem extractAll_validates (h : Runs (reader.extractAll expected hashSink) t result) :
    Validates reader expected result.1 result.2 := by
  unfold ZipReader.extractAll at h
  obtain ⟨t₁, t₂, ⟨first, middle⟩, rfl, hvalidate, hrest⟩ := runs_bind.mp h
  have hvalidated := validateContents_validates hvalidate
  have hstopped : ∀ {t : StreamTrace} {status : Option ZipStatus},
      Runs (Pure.pure (status, middle.clearValidatedContents) :
        StreamProc (Option ZipStatus × ZipReader)) t result →
      Validates reader expected result.1 result.2 := by
    intro t status h
    obtain ⟨-, rfl⟩ := runs_pure.mp h
    exact ⟨⟨hvalidated.inventory, hvalidated.isOpen⟩, nofun⟩
  dsimp only at hrest hvalidated
  split at hrest
  · obtain ⟨-, rfl⟩ := runs_pure.mp hrest
    exact hvalidated
  next hok =>
  rw [not_not] at hok
  subst hok
  obtain ⟨t₃, t₄, second, rfl, -, hfiles⟩ := runs_bind.mp hrest
  split at hfiles
  · exact hstopped hfiles
  obtain ⟨t₅, t₆, third, rfl, -, hend⟩ := runs_bind.mp hfiles
  split at hend
  · exact hstopped hend
  · obtain ⟨-, rfl⟩ := runs_pure.mp hend
    exact hvalidated

/-- `ExtractOne` keeps a binding or clears it. -/
theorem extractOne_keeps {path : Bytes}
    (h : Runs (reader.extractOne path expected hashSink) t result) :
    result.2 = reader ∨ result.2 = reader.clearValidatedContents := by
  have hstopped : ∀ {t : StreamTrace} {status : Option ZipStatus} {left : ZipReader},
      Runs (Pure.pure (status, left) : StreamProc (Option ZipStatus × ZipReader)) t result →
      left = reader ∨ left = reader.clearValidatedContents →
      result.2 = reader ∨ result.2 = reader.clearValidatedContents := by
    intro t status left h hleft
    obtain ⟨-, rfl⟩ := runs_pure.mp h
    exact hleft
  unfold ZipReader.extractOne at h
  dsimp only at h
  split at h
  · exact hstopped h (.inr rfl)
  split at h
  · exact hstopped h (.inr rfl)
  split at h
  · exact hstopped h (.inr rfl)
  split at h
  · exact hstopped h (.inr rfl)
  obtain ⟨t₁, t₂, first, rfl, -, hrest⟩ := runs_bind.mp h
  split at hrest
  · exact hstopped hrest (.inr rfl)
  obtain ⟨t₃, t₄, second, rfl, -, hend⟩ := runs_bind.mp hrest
  split at hend
  · exact hstopped hend (.inr rfl)
  · refine hstopped hend ?_
    split
    · exact .inl rfl
    · exact .inr rfl

end Calls

/-! ## Whole runs -/

/-- Since the archive was opened, a call for this inventory ended well and gave the binding. -/
def BoundSince (calls : List (ReaderCall × Option ZipStatus)) (reader : ZipReader)
    (first : ZipExpectedInventory) (binding : Digest) : Prop :=
  Bound reader first binding ∧
    ∃ before call after, calls = before ++ (call, none) :: after ∧
      call.validates = some first ∧ ∀ later ∈ after, later.1.opens = false

/-- What holds of a reader after any calls. -/
structure ReaderInvariant (calls : List (ReaderCall × Option ZipStatus)) (reader : ZipReader) :
    Prop where
  fits : reader.isOpen = true → InventoryFits reader.inventory
  bound : ∀ binding, reader.validatedInventoryBinding = some binding →
    ∃ first, BoundSince calls reader first binding

variable {calls : List (ReaderCall × Option ZipStatus)} {reader next : ZipReader}
  {call : ReaderCall} {status : Option ZipStatus}

theorem Opens.fits {bytes : Bytes} {entryCapacity : Nat} {limits : ZipLimits}
    {inventory : ZipInventory} (h : Opens bytes entryCapacity limits (.ok inventory)) :
    InventoryFits inventory :=
  inventoryFits_of_layout ((openArchive_layout bytes entryCapacity limits).1 inventory h)

/-- A binding that a call kept is still from since the archive was opened. -/
theorem BoundSince.later {first : ZipExpectedInventory} {binding : Digest}
    (h : BoundSince calls reader first binding) (hsame : SameArchive reader next)
    (hcall : call.opens = false) : BoundSince (calls ++ [(call, status)]) next first binding := by
  obtain ⟨hbound, before, validating, after, rfl, hvalidates, hlater⟩ := h
  refine ⟨hsame.bound hbound, before, validating, after ++ [(call, status)], by simp, hvalidates,
    fun later hin => ?_⟩
  rcases List.mem_append.mp hin with hin | hin
  · exact hlater later hin
  · rw [List.mem_singleton.mp hin]
    exact hcall

/-- A call that keeps the binding or clears it. -/
theorem ReaderInvariant.kept (h : ReaderInvariant calls reader) (hsame : SameArchive reader next)
    (hcall : call.opens = false)
    (hbinding : next.validatedInventoryBinding = reader.validatedInventoryBinding ∨
      next.validatedInventoryBinding = none) :
    ReaderInvariant (calls ++ [(call, status)]) next where
  fits hopen := by
    rw [hsame.inventory]
    exact h.fits (hsame.isOpen ▸ hopen)
  bound binding hsome := by
    rcases hbinding with hkept | hcleared
    · obtain ⟨first, hfirst⟩ := h.bound binding (hkept ▸ hsome)
      exact ⟨first, hfirst.later hsame hcall⟩
    · rw [hcleared] at hsome
      cases hsome

/-- A call that validates. -/
theorem ReaderInvariant.validated (h : ReaderInvariant calls reader)
    {expected : ZipExpectedInventory} (hvalidates : Validates reader expected status next)
    (hcall : call.validates = some expected) :
    ReaderInvariant (calls ++ [(call, status)]) next where
  fits hopen := by
    rw [hvalidates.inventory]
    exact h.fits (hvalidates.isOpen ▸ hopen)
  bound binding hsome := by
    obtain ⟨rfl, hbound⟩ := hvalidates.bound binding hsome
    exact ⟨expected, hvalidates.toSameArchive.bound hbound, calls, call, [], rfl, hcall, nofun⟩

theorem readerInvariant_step (h : ReaderInvariant calls reader)
    (hstep : ReaderStep reader call status next) :
    ReaderInvariant (calls ++ [(call, status)]) next := by
  cases hstep with
  | workspace => exact h.kept ⟨rfl, rfl⟩ rfl (.inl rfl)
  | opened hopens => exact ⟨fun _ => hopens.fits, nofun⟩
  | refused => exact ⟨nofun, nofun⟩
  | validated hruns => exact h.validated (validateContents_validates hruns) rfl
  | bound => exact h.validated bindAuthenticatedInventory_validates rfl
  | extractedOne hruns =>
      rcases extractOne_keeps hruns with hnext | hnext
      · rw [hnext]
        exact h.kept ⟨rfl, rfl⟩ rfl (.inl rfl)
      · rw [hnext]
        exact h.kept ⟨rfl, rfl⟩ rfl (.inr rfl)
  | extractedAll hruns => exact h.validated (extractAll_validates hruns) rfl

theorem readerInvariant_run (h : ReaderRun calls reader) : ReaderInvariant calls reader := by
  induction h with
  | start => exact ⟨nofun, nofun⟩
  | step _ hstep ih => exact readerInvariant_step ih hstep

theorem directories_subset {inventory : ZipInventory} {first second : ZipExpectedInventory}
    (hfirst : ExactMatch inventory first) (hsecond : ExactMatch inventory second) :
    first.directories ⊆ second.directories := by
  intro path hpath
  obtain ⟨entry, hentry, hname⟩ := hfirst.directories.exists_right hpath
  obtain ⟨other, hother, hsame⟩ := hsecond.directories.exists_left hentry
  have hpaths : path = other := hname.trans hsame.symm
  rw [hpaths]
  exact hother

theorem exists_binding_of_match {second : ZipExpectedInventory}
    (h : reader.validatedContentsMatch second = true) :
    ∃ binding, reader.validatedInventoryBinding = some binding ∧
      reader.computeExpectedInventoryBinding second = some binding := by
  unfold ZipReader.validatedContentsMatch at h
  split at h
  · cases h
  next binding hbinding => exact ⟨binding, hbinding, of_decide_eq_true h⟩

/-- **The inventory check of a reader that is open.**  It accepts exactly the inventory of the
archive, in any order and with one answer about the hash; contents count as validated only for
the files of an inventory that a call validated or bound since the archive was opened. -/
theorem inventory_check_exact (hrun : ReaderRun calls reader) (hopen : reader.isOpen = true) :
    (∀ expected, (∃ requiresHash, reader.verifyExpectedInventory expected = .ok requiresHash) ↔
      ExactMatch reader.inventory expected) ∧
    (∀ expected expected' : ZipExpectedInventory, expected.files.Perm expected'.files →
      expected.directories.Perm expected'.directories →
      ∀ requiresHash, reader.verifyExpectedInventory expected = .ok requiresHash ↔
        reader.verifyExpectedInventory expected' = .ok requiresHash) ∧
    ∀ second, reader.validatedContentsMatch second = true →
      ∃ first binding, BoundSince calls reader first binding ∧
        ExactMatch reader.inventory first ∧
        (Representable first → Representable second → CollisionFree reader first second →
          first.files.Perm second.files ∧
            first.directories.length = second.directories.length ∧
            (ExactMatch reader.inventory second → first.directories.Perm second.directories)) := by
  have hinvariant := readerInvariant_run hrun
  have hfits := hinvariant.fits hopen
  refine ⟨fun expected => verifyExpectedInventory_iff hfits hopen,
    fun expected expected' hfiles hdirectories requiresHash => ⟨?_, ?_⟩, fun second hmatch => ?_⟩
  · exact verifyExpectedInventory_perm hfits hopen hfiles hdirectories
  · exact verifyExpectedInventory_perm hfits hopen hfiles.symm hdirectories.symm
  · obtain ⟨binding, hbinding, hsecond⟩ := exists_binding_of_match hmatch
    obtain ⟨first, hfirst⟩ := hinvariant.bound binding hbinding
    have hexact := (verifyExpectedInventory_iff hfits hopen).mp hfirst.1.1
    refine ⟨first, binding, hfirst, hexact, fun hrep hrep' hfree => ?_⟩
    obtain ⟨hfiles, hdirectories⟩ :=
      files_perm_of_binding hexact hrep hrep' hfree hfirst.1.2 hsecond
    refine ⟨hfiles, hdirectories, fun hexact' => perm_of_subset ?_ ?_ (le_of_eq hdirectories.symm)⟩
    · exact (List.nodup_append.mp hexact.distinct).2.1
    · exact directories_subset hexact hexact'

/-! ## An archive of two empty files -/

/-- A source that never fails. -/
def answerFrom (bytes : Bytes) : Reaction ZipOp ZipAnswer Unit := fun _ op =>
  match op with
  | .getSize => (some (UInt64.ofNat bytes.length), ())
  | .readAt offset size =>
      if h : (slice offset size bytes).length = size then (some ⟨slice offset size bytes, h⟩, ())
      else (none, ())

theorem opens_of_follow {bytes : Bytes} {entryCapacity : Nat} {limits : ZipLimits}
    {result : Except ZipStatus ZipInventory} (hsize : bytes.length < 2 ^ 64) (n : Nat)
    (h : (follow (answerFrom bytes) n (openArchive entryCapacity limits).run ()).1.value? =
      some result) : Opens bytes entryCapacity limits result := by
  unfold Opens
  rw [← Program.eq_pure_of_value h]
  apply reaches_follow
  intro w op
  cases op with
  | getSize =>
      intro size hsome
      cases hsome
      exact Nat.mod_eq_of_lt hsize
  | readAt offset size =>
      intro block hsome
      simp only [answerFrom] at hsome
      split at hsome
      · cases hsome
        rfl
      · cases hsome

def localHeader (name : Bytes) : Bytes :=
  encodeLe 4 kLocalSignature ++ encodeLe 2 20 ++ encodeLe 2 0 ++ encodeLe 2 0 ++ encodeLe 4 0 ++
    encodeLe 4 0 ++ encodeLe 4 0 ++ encodeLe 4 0 ++ encodeLe 2 name.length ++ encodeLe 2 0 ++ name

def centralHeader (name : Bytes) (attributes offset : Nat) : Bytes :=
  encodeLe 4 kCentralSignature ++ encodeLe 2 20 ++ encodeLe 2 20 ++ encodeLe 2 0 ++ encodeLe 2 0 ++
    encodeLe 4 0 ++ encodeLe 4 0 ++ encodeLe 4 0 ++ encodeLe 4 0 ++ encodeLe 2 name.length ++
    encodeLe 2 0 ++ encodeLe 2 0 ++ encodeLe 2 0 ++ encodeLe 2 0 ++ encodeLe 4 attributes ++
    encodeLe 4 offset ++ name

/-- The end record of two entries. -/
def endRecord (centralSize centralOffset : Nat) : Bytes :=
  encodeLe 4 kEndSignature ++ encodeLe 2 0 ++ encodeLe 2 0 ++ encodeLe 2 2 ++ encodeLe 2 2 ++
    encodeLe 4 centralSize ++ encodeLe 4 centralOffset ++ encodeLe 2 0

/-- The files `a` and `b`. -/
def twoFiles : Bytes :=
  localHeader [0x61] ++ localHeader [0x62] ++ centralHeader [0x61] 0 0 ++ centralHeader [0x62] 0 31 ++
    endRecord 94 62

def twoFilesLimits : ZipLimits := ⟨1024, 16, 240, 1024, 1024, 100⟩

def emptyEntry (name : Bytes) (offset : Nat) : ZipEntry where
  path := name
  isDirectory := false
  compression := .store
  flags := 0
  crc32 := 0
  compressedSize := 0
  size := 0
  localHeaderOffset := offset
  dataOffset := offset + 31
  externalAttributes := 0
  creatorSystem := 0

def twoFilesInventory : ZipInventory where
  entries := [emptyEntry [0x61] 0, emptyEntry [0x62] 31]
  entryCount := 2
  fileCount := 2
  directoryCount := 0
  archiveSize := 178
  installedSize := 0
  centralDirectoryOffset := 62
  centralDirectorySize := 94

set_option maxRecDepth 4000 in
theorem twoFiles_opens : Opens twoFiles 16 twoFilesLimits (.ok twoFilesInventory) :=
  opens_of_follow (by decide) 40 rfl

/-- What opens is laid out as an archive of two files. -/
theorem openArchive_layout_twoFiles : ZipLayout twoFiles 16 twoFilesLimits twoFilesInventory :=
  (openArchive_layout twoFiles 16 twoFilesLimits).1 _ twoFiles_opens

def twoFilesReader : ZipReader := ⟨twoFilesInventory, false, true, none⟩

theorem twoFiles_run :
    ReaderRun [(.openArchive twoFiles 16 twoFilesLimits, none)] twoFilesReader :=
  .step .start (.opened twoFiles_opens)

/-- Files of no bytes, without digests. -/
def expectEmpty (names : List Bytes) : ZipExpectedInventory :=
  ⟨names.map fun name => ⟨name, 0, .store, none⟩, []⟩

theorem inventory_check_exact_twoFiles :
    ExactMatch twoFilesReader.inventory (expectEmpty [[0x62], [0x61]]) :=
  ((inventory_check_exact twoFiles_run rfl).1 _).mp ⟨false, by decide⟩

/-- The file `a` and the directory `d`. -/
def fileAndDirectory : Bytes :=
  localHeader [0x61] ++ localHeader [0x64, 0x2f] ++ centralHeader [0x61] 0 0 ++
    centralHeader [0x64, 0x2f] 0x10 31 ++ endRecord 95 63

def fileAndDirectoryInventory : ZipInventory where
  entries := [emptyEntry [0x61] 0,
    { emptyEntry [0x64] 31 with isDirectory := true, dataOffset := 63, externalAttributes := 0x10 }]
  entryCount := 2
  fileCount := 1
  directoryCount := 1
  archiveSize := 180
  installedSize := 0
  centralDirectoryOffset := 63
  centralDirectorySize := 95

set_option maxRecDepth 4000 in
theorem fileAndDirectory_opens :
    Opens fileAndDirectory 16 twoFilesLimits (.ok fileAndDirectoryInventory) :=
  opens_of_follow (by decide) 40 rfl

def fileAndDirectoryReader : ZipReader := ⟨fileAndDirectoryInventory, false, true, none⟩

/-- The file `a` and one directory. -/
def expectDirectory (directory : Bytes) : ZipExpectedInventory :=
  { expectEmpty [[0x61]] with directories := [directory] }

/-- What an accepted `BindAuthenticatedInventory` makes of a reader. -/
theorem readerRun_bound {calls : List (ReaderCall × Option ZipStatus)} {reader : ZipReader}
    {expected : ZipExpectedInventory} {binding : Digest} (hrun : ReaderRun calls reader)
    (hverify : reader.verifyExpectedInventory expected = .ok false)
    (hbinding : reader.computeExpectedInventoryBinding expected = some binding) :
    ReaderRun (calls ++ [(.bindAuthenticatedInventory expected, none)])
      { reader with validatedInventoryBinding := some binding } := by
  have hstep := @ReaderStep.bound reader expected
  have hbound : reader.bindAuthenticatedInventory expected =
      (none, { reader with validatedInventoryBinding := some binding }) := by
    unfold ZipReader.bindAuthenticatedInventory
    rw [hverify, hbinding]
  rw [hbound] at hstep
  exact .step hrun hstep

/-- The status of what is rejected depends on the order, contents count as validated after
`BindAuthenticatedInventory` alone, and they do so for other directories, if as many. -/
theorem binding_without_validation :
    ((expectEmpty [[], [0x63]]).files.Perm (expectEmpty [[0x63], []]).files ∧
      twoFilesReader.verifyExpectedInventory (expectEmpty [[], [0x63]]) =
        .error .expectedInventoryInvalid ∧
      twoFilesReader.verifyExpectedInventory (expectEmpty [[0x63], []]) =
        .error .inventoryMismatch) ∧
    (∃ reader, ReaderRun
        [(.openArchive twoFiles 16 twoFilesLimits, none),
          (.bindAuthenticatedInventory (expectEmpty [[0x61], [0x62]]), none)] reader ∧
      reader.validatedContentsMatch (expectEmpty [[0x61], [0x62]]) = true) ∧
    ∃ reader, ReaderRun
        [(.openArchive fileAndDirectory 16 twoFilesLimits, none),
          (.bindAuthenticatedInventory (expectDirectory [0x64]), none)] reader ∧
      reader.validatedContentsMatch (expectDirectory [0x65]) = true := by
  have hfiles : twoFilesReader.verifyExpectedInventory (expectEmpty [[0x61], [0x62]]) =
      .ok false := by decide
  have hdirectory : fileAndDirectoryReader.verifyExpectedInventory (expectDirectory [0x64]) =
      .ok false := by decide
  have hopened : ReaderRun [(.openArchive fileAndDirectory 16 twoFilesLimits, none)]
      fileAndDirectoryReader := .step .start (.opened fileAndDirectory_opens)
  refine ⟨⟨List.Perm.swap _ _ _, by decide, by decide⟩,
    ⟨_, readerRun_bound twoFiles_run hfiles rfl, ?_⟩,
    ⟨_, readerRun_bound hopened hdirectory rfl, ?_⟩⟩
  · unfold ZipReader.validatedContentsMatch
    exact decide_eq_true rfl
  · unfold ZipReader.validatedContentsMatch
    exact decide_eq_true rfl

end Zip

end BmxUpdate
