import BmxUpdate.Library.Checks
import BmxUpdate.Library.Tiling
import BmxUpdate.Zip.Reader

/-!
# What an archive that opens looks like

`ZipLayout` describes an archive from outside the reader: the local headers,
names and data of its entries tile the bytes before the central directory, the
central headers tile the directory, and the end record is the rest.
`openArchive_layout`: an archive that `Open` accepts has this layout, and whether
or not it is accepted, `Open` never reads outside it.
-/

namespace BmxUpdate

namespace Zip

open Wire Interaction FatPath Tiling Checks

/-! ## The source -/

/-- A source that holds `bytes`: every answer is a failure or the truth. -/
def archiveSource (bytes : Bytes) : Surroundings ZipOp ZipAnswer Unit where
  answers := fun _ op x _ =>
    match op, x with
    | .getSize, (x : Option UInt64) => ∀ size, x = some size → size.toNat = bytes.length
    | .readAt offset n, (x : Option (Block n)) =>
        ∀ block, x = some block → block.bytes = slice offset n bytes
  halts := fun _ _ _ => False

/-- The operation reads inside the archive. -/
def Inside (bytes : Bytes) : ZipOp → Prop
  | .getSize => True
  | .readAt offset n => offset + n ≤ bytes.length

/-- The program reads inside the archive only, and what it returns satisfies `Q`. -/
def Ends {α : Type} (bytes : Bytes) (p : ZipProc α) (Q : α → Prop) : Prop :=
  Fallible.Guarded (archiveSource bytes) (fun _ => Inside bytes) (fun a _ => Q a)
    (fun _ _ => True) p ()

section Rules

variable {bytes : Bytes} {α β : Type} {Q : β → Prop}

theorem ends_pure {b : β} (h : Q b) : Ends bytes (pure b) Q := Fallible.guarded_pure h

theorem ends_throw {status : ZipStatus} : Ends bytes (throw status) Q :=
  Fallible.guarded_throw trivial

theorem ends_bind {P : α → Prop} {p : ZipProc α} {k : α → ZipProc β} (hp : Ends bytes p P)
    (hk : ∀ a, P a → Ends bytes (k a) Q) : Ends bytes (p >>= k) Q :=
  Fallible.guarded_bind (Fallible.guarded_mono hp fun a _ ha => hk a ha)

theorem ends_check {condition : Prop} [Decidable condition] {status : ZipStatus}
    {k : PUnit → ZipProc β} (h : condition → Ends bytes (k ⟨⟩) Q) :
    Ends bytes (Fallible.check condition status >>= k) Q :=
  Fallible.guarded_check (fun _ => trivial) h

theorem ends_checked {condition : Prop} [Decidable condition] {status : ZipStatus}
    {Q : PUnit → Prop} (h : condition → Q ⟨⟩) : Ends bytes (Fallible.check condition status) Q := by
  unfold Fallible.check
  split
  · next hc => exact ends_pure (h hc)
  · exact ends_throw

theorem ends_compute {result : Except ZipStatus α} {k : α → ZipProc β}
    (h : ∀ a, result = .ok a → Ends bytes (k a) Q) :
    Ends bytes (Fallible.compute result >>= k) Q :=
  Fallible.guarded_compute (fun _ _ => trivial) h

theorem ends_readAt {offset n : Nat} {k : Bytes → ZipProc β} (hinside : offset + n ≤ bytes.length)
    (h : Ends bytes (k (slice offset n bytes)) Q) : Ends bytes (readAt offset n >>= k) Q := by
  refine ends_bind (P := fun read => read = slice offset n bytes) ?_ fun read hread => hread ▸ h
  refine Fallible.guarded_ask hinside ?_
  intro x _ hx
  have hx : ∀ block : Block n, x = some block → block.bytes = slice offset n bytes := hx
  cases x with
  | none => exact ends_throw
  | some block => exact ends_pure (hx block rfl)

theorem ends_getSize {k : Nat → ZipProc β} (h : Ends bytes (k bytes.length) Q) :
    Ends bytes (getSize >>= k) Q := by
  refine ends_bind (P := fun size => size = bytes.length) ?_ fun size hsize => hsize ▸ h
  refine Fallible.guarded_ask trivial ?_
  intro x _ hx
  have hx : ∀ size : UInt64, x = some size → size.toNat = bytes.length := hx
  cases x with
  | none => exact ends_throw
  | some size => exact ends_pure (hx size rfl)

end Rules

/-! ## Ranges and slices -/

theorem checkedAdd_eq_some {left right sum : Nat} (h : checkedAdd left right = some sum) :
    left + right = sum := by
  unfold checkedAdd at h
  split at h
  · exact Option.some.inj h
  · cases h

theorem le_of_rangeWithin {offset length boundary : Nat}
    (h : rangeWithin offset length boundary = true) : offset + length ≤ boundary := by
  obtain ⟨sum, hsum, hle⟩ := (Option.any_eq_true _ _).mp h
  rw [checkedAdd_eq_some hsum]
  simpa using hle

/-! ## Signatures -/

section Signatures

variable {bytes signature : Bytes} {stop : Nat}

theorem ends_containsSignatureFrom (hstop : stop ≤ bytes.length) (rounds offset : Nat)
    (kept : Bytes) :
    Ends bytes (containsSignatureFrom signature stop rounds offset kept) fun _ => True := by
  induction rounds generalizing offset kept with
  | zero => exact ends_pure trivial
  | succ rounds ih =>
      unfold containsSignatureFrom
      split
      · apply ends_readAt (by omega)
        dsimp only
        split
        · exact ends_pure trivial
        · exact ih _ _
      · exact ends_pure trivial

theorem ends_findLastSignatureFrom (hstop : stop ≤ bytes.length) (rounds offset : Nat)
    (kept : Bytes) (found : Option Nat) :
    Ends bytes (findLastSignatureFrom signature stop rounds offset kept found) fun _ => True := by
  induction rounds generalizing offset kept found with
  | zero => exact ends_pure trivial
  | succ rounds ih =>
      unfold findLastSignatureFrom
      split
      · apply ends_readAt (by omega)
        exact ih _ _ _
      · exact ends_pure trivial

end Signatures

/-! ## The end record -/

/-- The end record is the last 22 bytes, right behind the central directory. -/
structure EndRecordAt (bytes : Bytes) (entryCapacity : Nat) (limits : ZipLimits)
    (record : EndRecord) : Prop where
  last : record.offset + kEndRecordSize = bytes.length
  central : record.centralOffset + record.centralSize = record.offset
  signature : readU32 (slice record.offset kEndRecordSize bytes) 0 = kEndSignature
  entryCount : readU16 (slice record.offset kEndRecordSize bytes) 10 = record.entryCount
  centralSize : readU32 (slice record.offset kEndRecordSize bytes) 12 = record.centralSize
  centralOffset : readU32 (slice record.offset kEndRecordSize bytes) 16 = record.centralOffset
  limit : record.entryCount ≤ limits.maximumEntries
  fits : record.entryCount ≤ entryCapacity

theorem checkEndRecord_ok {limits : ZipLimits} {entryCapacity endOffset : Nat} {bytes : Bytes}
    {record : EndRecord}
    (h : checkEndRecord limits entryCapacity bytes.length endOffset
      (slice endOffset kEndRecordSize bytes) = .ok record) :
    record.offset = endOffset ∧ EndRecordAt bytes entryCapacity limits record := by
  unfold checkEndRecord at h
  simp only [reject_bind_eq_ok, pure, Except.pure] at h
  obtain ⟨hsignature, hend, hcomment, -, hcount, -, hfits, hcentral, hrecord⟩ := h
  cases hrecord
  obtain ⟨afterRecord, hafter, hsize⟩ := Option.bind_eq_some_iff.mp (not_not.mp hend)
  have hafter := checkedAdd_eq_some hafter
  have hsize := checkedAdd_eq_some hsize
  refine ⟨rfl, ?_, checkedAdd_eq_some (not_not.mp hcentral), not_not.mp hsignature, rfl, rfl, rfl,
    ?_, ?_⟩
  · show endOffset + kEndRecordSize = bytes.length
    omega
  · show readU16 _ 10 ≤ limits.maximumEntries
    omega
  · show readU16 _ 10 ≤ entryCapacity
    omega

theorem ends_readEndRecord (bytes : Bytes) (entryCapacity : Nat) (limits : ZipLimits) :
    Ends bytes (readEndRecord entryCapacity limits) fun found =>
      found.1 = bytes.length ∧ bytes.length ≤ limits.maximumArchiveBytes ∧
        EndRecordAt bytes entryCapacity limits found.2.2 := by
  unfold readEndRecord
  apply ends_getSize
  apply ends_check
  rintro ⟨-, hlimit⟩
  refine ends_bind (P := fun _ => True) ?_ ?_
  · unfold findLastSignature
    exact ends_check fun _ => ends_findLastSignatureFrom (le_refl _) _ _ _ _
  · rintro (_ | endOffset) -
    · exact ends_throw
    · apply ends_check
      intro hinside
      apply ends_readAt (le_of_rangeWithin hinside)
      apply ends_compute
      intro record hrecord
      exact ends_pure ⟨rfl, hlimit, (checkEndRecord_ok hrecord).2⟩

theorem ends_rejectZip64 {bytes : Bytes} {tailBegin endOffset : Nat}
    (h : endOffset ≤ bytes.length) :
    Ends bytes (rejectZip64 tailBegin endOffset) fun _ => True := by
  have hsearch : ∀ signature, Ends bytes (containsSignature tailBegin endOffset signature)
      fun _ => True := by
    intro signature
    unfold containsSignature
    exact ends_check fun _ => ends_containsSignatureFrom h _ _ _
  unfold rejectZip64
  refine ends_bind (hsearch _) fun _ _ => ends_check fun _ => ?_
  exact ends_bind (hsearch _) fun _ _ => ends_checked fun _ => trivial

/-! ## The central directory -/

/-- What `Open` asks of an entry on its own. -/
structure EntryOk (limits : ZipLimits) (entry : ZipEntry) : Prop where
  path : FatRelativePath limits.maximumPathBytes entry.path
  directory : entry.isDirectory = true →
    entry.compression = .store ∧ entry.compressedSize = 0 ∧ entry.size = 0 ∧ entry.crc32 = 0
  fileBytes : entry.isDirectory = false → entry.size ≤ limits.maximumFileBytes
  ratio : entry.isDirectory = false →
    entry.size ≤ limits.maximumCompressionRatio * max 1 entry.compressedSize

/-- The central header at `start` is that of the entry, with its name behind it. -/
structure CentralAt (bytes : Bytes) (start : Nat) (entry : ZipEntry) : Prop where
  signature : readU32 (slice start kCentralHeaderSize bytes) 0 = kCentralSignature
  flags : readU16 (slice start kCentralHeaderSize bytes) 8 = entry.flags
  method : readU16 (slice start kCentralHeaderSize bytes) 10 = entry.compression.code
  crc32 : readU32 (slice start kCentralHeaderSize bytes) 16 = entry.crc32
  compressedSize : readU32 (slice start kCentralHeaderSize bytes) 20 = entry.compressedSize
  size : readU32 (slice start kCentralHeaderSize bytes) 24 = entry.size
  nameLength : readU16 (slice start kCentralHeaderSize bytes) 28 = entry.rawName.length
  extraLength : readU16 (slice start kCentralHeaderSize bytes) 30 = 0
  commentLength : readU16 (slice start kCentralHeaderSize bytes) 32 = 0
  localOffset : readU32 (slice start kCentralHeaderSize bytes) 42 = entry.localHeaderOffset
  name : slice (start + kCentralHeaderSize) entry.rawName.length bytes = entry.rawName

/-- Where the central record of an entry that starts at a position ends. -/
def centralStop (record : Nat × ZipEntry) : Nat :=
  record.1 + kCentralHeaderSize + record.2.rawName.length

theorem validateAndCopyPath_ok {raw : Bytes} {flags maximumPathBytes : Nat} {isDirectory : Bool}
    {path : Bytes} (h : validateAndCopyPath raw flags isDirectory maximumPathBytes = .ok path) :
    FatRelativePath maximumPathBytes path ∧
      raw = if isDirectory then path ++ [0x2f] else path := by
  unfold validateAndCopyPath at h
  split at h
  · cases h
  · split at h
    · split at h <;> cases h
    · dsimp only at h
      split at h
      · cases h
      · next hslash =>
          split at h
          · next hvalid =>
              cases h
              refine ⟨validateFatRelativePathBytes_ok_iff.mp hvalid, ?_⟩
              obtain rfl := not_not.mp hslash
              by_cases hlast : raw.getLast? = some 0x2f
              · simp only [hlast, decide_true, if_true]
                obtain ⟨front, rfl⟩ := List.getLast?_eq_some_iff.mp hlast
                simp
              · simp [hlast]
          · cases h
          · cases h

/-- The ratio test bounds the size. -/
theorem le_of_ratio {size ratio d : Nat} (hd : 0 < d)
    (h : ¬ (ratio < size / d ∨ (size / d = ratio ∧ size % d ≠ 0))) : size ≤ ratio * d := by
  have hdivide : d * (size / d) + size % d = size := Nat.div_add_mod size d
  rcases Nat.lt_or_ge (size / d) ratio with hlt | hge
  · have hstep : d * (size / d) + d ≤ d * ratio := by
      calc d * (size / d) + d = d * (size / d + 1) := by ring
        _ ≤ d * ratio := Nat.mul_le_mul_left d hlt
    have := Nat.mod_lt size hd
    rw [Nat.mul_comm ratio d]
    omega
  · have heq : size / d = ratio := by omega
    have hmod : size % d = 0 := by
      by_contra hne
      exact h (.inr ⟨heq, hne⟩)
    rw [← heq, Nat.mul_comm]
    omega

theorem checkSizes_ok {limits : ZipLimits} {entry : ZipEntry} {u : Unit}
    (h : checkSizes limits entry = .ok u)
    (hpath : FatRelativePath limits.maximumPathBytes entry.path) : EntryOk limits entry := by
  unfold checkSizes at h
  split at h
  · next hdirectory =>
      split at h
      · cases h
      · next hzero =>
          refine ⟨hpath, fun _ => ?_, fun hfile => ?_, fun hfile => ?_⟩
          · simp only [not_or, not_not] at hzero
            exact hzero
          · rw [hfile] at hdirectory
            cases hdirectory
          · rw [hfile] at hdirectory
            cases hdirectory
  · next hfile =>
      split at h
      · cases h
      · next hsize =>
          generalize hd : (if entry.compressedSize = 0 then 1 else entry.compressedSize) = d at h
          have hmax : d = max 1 entry.compressedSize := by
            rw [← hd]
            split <;> omega
          dsimp only at h
          split at h
          · cases h
          · next hratio =>
              refine ⟨hpath, fun hdirectory => absurd hdirectory hfile, fun _ => by omega,
                fun _ => ?_⟩
              rw [← hmax]
              exact le_of_ratio (by omega) hratio

/-- FAT takes the two names for one. -/
def SameName (left right : ZipEntry) : Prop :=
  left.path.map asciiLower = right.path.map asciiLower

theorem checkDuplicates_ok {path : Bytes} {previous : List ZipEntry} {u : Unit}
    (h : checkDuplicates path previous = .ok u) :
    ∀ entry ∈ previous, path.map asciiLower ≠ entry.path.map asciiLower := by
  induction previous with
  | nil => simp
  | cons first previous ih =>
      unfold checkDuplicates at h
      split at h
      · cases h
      · split at h
        · cases h
        · next hequal =>
            intro entry hentry
            rcases List.mem_cons.mp hentry with rfl | hentry
            · simpa [fatEqual] using hequal
            · exact ih h entry hentry

theorem CentralHeader.check_ok {header : CentralHeader} {u : Unit} (h : header.check = .ok u) :
    (header.method = 0 ∨ header.method = 8) ∧ header.extraLength = 0 ∧
      header.memberCommentLength = 0 := by
  unfold CentralHeader.check at h
  simp only [reject_bind_eq_ok] at h
  obtain ⟨-, -, hmethod, -, -, hextra, hcomment, -⟩ := h
  unfold ZipCompression.code at hmethod
  dsimp only at hmethod
  refine ⟨by omega, not_not.mp hextra, not_not.mp hcomment⟩

theorem ends_readCentral {bytes : Bytes} {limits : ZipLimits} {centralEnd cursor : Nat}
    {previous : List ZipEntry} (hend : centralEnd ≤ bytes.length) :
    Ends bytes (readCentral limits centralEnd cursor previous) fun read =>
      cursor + read.2 = centralStop (cursor, read.1) ∧ cursor + read.2 ≤ centralEnd ∧
        CentralAt bytes cursor read.1 ∧ EntryOk limits read.1 ∧
        ∀ entry ∈ previous, ¬ SameName entry read.1 := by
  unfold readCentral
  apply ends_check
  intro hheader
  have hheader := le_of_rangeWithin hheader
  apply ends_readAt (hheader.trans hend)
  apply ends_check
  intro hsignature
  dsimp only
  apply ends_compute
  intro _ hcheck
  obtain ⟨hmethod, hextra, hcomment⟩ := CentralHeader.check_ok hcheck
  apply ends_check
  intro hrecord
  have hrecord := le_of_rangeWithin hrecord
  rw [hextra, hcomment] at hrecord ⊢
  apply ends_check
  rintro -
  apply ends_readAt (by omega)
  apply ends_compute
  rintro _ -
  apply ends_compute
  intro path hpath
  obtain ⟨hpolicy, hname⟩ := validateAndCopyPath_ok hpath
  apply ends_compute
  intro _ hduplicates
  apply ends_compute
  intro _ hsizes
  have hlength : (slice (cursor + kCentralHeaderSize)
      (CentralHeader.of (slice cursor kCentralHeaderSize bytes)).nameLength bytes).length =
        (CentralHeader.of (slice cursor kCentralHeaderSize bytes)).nameLength :=
    length_slice (by omega)
  apply ends_pure
  -- The entry carries the name that stands behind its header.
  refine ⟨?_, by dsimp only; omega, ?_, checkSizes_ok hsizes hpolicy, fun entry hentry hsame =>
    checkDuplicates_ok hduplicates entry hentry hsame.symm⟩
  · unfold centralStop ZipEntry.rawName
    dsimp only
    rw [← hname, hlength]
    omega
  · have hraw : ∀ entry : ZipEntry, entry.path = path → entry.isDirectory =
        decide ((slice (cursor + kCentralHeaderSize)
          (CentralHeader.of (slice cursor kCentralHeaderSize bytes)).nameLength bytes).getLast? =
            some 0x2f) →
        entry.rawName = slice (cursor + kCentralHeaderSize)
          (CentralHeader.of (slice cursor kCentralHeaderSize bytes)).nameLength bytes := by
      intro entry hpath hdirectory
      unfold ZipEntry.rawName
      rw [hpath, hdirectory]
      exact hname.symm
    refine ⟨hsignature, rfl, ?_, rfl, rfl, rfl, ?_, hextra, hcomment, rfl, ?_⟩
    · show (CentralHeader.of (slice cursor kCentralHeaderSize bytes)).method = _
      rcases hmethod with hmethod | hmethod <;> simp [hmethod, ZipCompression.code]
    · rw [hraw _ rfl rfl, hlength]
      rfl
    · rw [hraw _ rfl rfl, hlength]

/-- What the central scan has established when it has got to `scan.cursor`. -/
structure Scanned (bytes : Bytes) (limits : ZipLimits) (start centralEnd : Nat) (count : Nat)
    (scan : Scan) : Prop where
  tiles : ∃ records : List (Nat × ZipEntry), records.map Prod.snd = scan.entries ∧
    Tiles Prod.fst centralStop start records scan.cursor ∧
    ∀ record ∈ records, CentralAt bytes record.1 record.2
  entries : ∀ entry ∈ scan.entries, EntryOk limits entry
  distinct : scan.entries.Pairwise fun left right => ¬ SameName left right
  length : scan.entries.length = count
  files : scan.fileCount = scan.entries.countP fun entry => !entry.isDirectory
  directories : scan.directoryCount = scan.entries.countP fun entry => entry.isDirectory

/-- One round keeps what the scan has established. -/
theorem Scanned.step {bytes : Bytes} {limits : ZipLimits} {start centralEnd count : Nat}
    {scan : Scan} (h : Scanned bytes limits start centralEnd count scan) {entry : ZipEntry}
    {recordSize : Nat} (hstop : scan.cursor + recordSize = centralStop (scan.cursor, entry))
    (hat : CentralAt bytes scan.cursor entry) (hentry : EntryOk limits entry)
    (hnew : ∀ previous ∈ scan.entries, ¬ SameName previous entry) :
    Scanned bytes limits start centralEnd (count + 1)
      { cursor := scan.cursor + recordSize
        entries := scan.entries ++ [entry]
        fileCount := if entry.isDirectory then scan.fileCount else scan.fileCount + 1
        directoryCount :=
          if entry.isDirectory then scan.directoryCount + 1 else scan.directoryCount } := by
  obtain ⟨records, hmap, htiles, hrecords⟩ := h.tiles
  refine ⟨⟨records ++ [(scan.cursor, entry)], by simp [hmap], ?_, ?_⟩, ?_, ?_, ?_, ?_, ?_⟩
  · rw [hstop]
    exact htiles.snoc (by unfold centralStop; dsimp only; omega)
  · intro record hrecord
    rcases List.mem_append.mp hrecord with hrecord | hrecord
    · exact hrecords record hrecord
    · rw [List.mem_singleton.mp hrecord]
      exact hat
  · intro e he
    rcases List.mem_append.mp he with he | he
    · exact h.entries e he
    · exact List.mem_singleton.mp he ▸ hentry
  · refine List.pairwise_append.mpr ⟨h.distinct, List.pairwise_singleton _ _, ?_⟩
    intro previous hprevious e he
    exact List.mem_singleton.mp he ▸ hnew previous hprevious
  · simp [h.length]
  · by_cases hdirectory : entry.isDirectory = true <;> simp [h.files, hdirectory]
  · by_cases hdirectory : entry.isDirectory = true <;> simp [h.directories, hdirectory]

theorem ends_scanCentral {bytes : Bytes} {limits : ZipLimits} {start centralEnd : Nat}
    (hend : centralEnd ≤ bytes.length) (rounds count : Nat) (scan : Scan)
    (h : Scanned bytes limits start centralEnd count scan) :
    Ends bytes (scanCentral limits centralEnd rounds scan)
      (Scanned bytes limits start centralEnd (count + rounds)) := by
  induction rounds generalizing count scan with
  | zero => exact ends_pure h
  | succ rounds ih =>
      unfold scanCentral
      refine ends_bind (ends_readCentral hend) ?_
      rintro ⟨entry, recordSize⟩ ⟨hstop, -, hat, hentry, hnew⟩
      have hnext := ih (count + 1) _ (h.step hstop hat hentry hnew)
      rwa [Nat.add_assoc, Nat.add_comm 1 rounds] at hnext

/-! ## Names -/

theorem asciiLower_eq_slash {c : UInt8} : asciiLower c = 0x2f ↔ c = 0x2f := by
  unfold asciiLower
  split
  · next hupper =>
      have hlow := UInt8.le_iff_toNat_le.mp hupper.1
      have hhigh := UInt8.le_iff_toNat_le.mp hupper.2
      simp only [← UInt8.toNat_inj, UInt8.toNat_add]
      simp at hlow hhigh ⊢
      omega
  · rfl

theorem fatPrefixDirectory_iff {parent child : Bytes} :
    fatPrefixDirectory parent child = true ↔
      parent.map asciiLower ++ [0x2f] <+: child.map asciiLower := by
  induction parent generalizing child with
  | nil =>
      cases child with
      | nil => simp [fatPrefixDirectory]
      | cons c child =>
          have hslash : c = 0x2f ↔ 0x2f = asciiLower c := asciiLower_eq_slash.symm.trans eq_comm
          simpa [fatPrefixDirectory] using hslash
  | cons p parent ih =>
      cases child with
      | nil => simp [fatPrefixDirectory]
      | cons c child => simp [fatPrefixDirectory, ih, List.cons_prefix_cons]

/-- A file is no directory of another entry. -/
def DirectoryOf (parent child : ZipEntry) : Prop :=
  parent.path.map asciiLower ++ [0x2f] <+: child.path.map asciiLower

theorem not_directoryOf {entries : List ZipEntry} (h : fileUsedAsDirectory entries = false) :
    ∀ file ∈ entries, file.isDirectory = false → ∀ entry ∈ entries, ¬ DirectoryOf file entry := by
  intro file hfile hkind entry hentry hinit
  obtain ⟨i, hi⟩ := List.mem_iff_getElem?.mp hfile
  obtain ⟨j, hj⟩ := List.mem_iff_getElem?.mp hentry
  have hij : i ≠ j := by
    rintro rfl
    obtain rfl : file = entry := by simpa [hi] using hj
    have := hinit.length_le
    simp at this
  have hused : fileUsedAsDirectory entries = true := by
    unfold fileUsedAsDirectory
    simp only [List.any_eq_true, List.mem_range]
    refine ⟨i, (List.getElem?_eq_some_iff.mp hi).1, ?_⟩
    simp only [hi, Option.any_some, hkind, Bool.not_false, Bool.true_and, List.any_eq_true,
      List.mem_range]
    refine ⟨j, (List.getElem?_eq_some_iff.mp hj).1, ?_⟩
    simp only [hj, Option.any_some, Bool.and_eq_true, decide_eq_true_eq]
    exact ⟨hij, fatPrefixDirectory_iff.mpr hinit⟩
  rw [h] at hused
  cases hused

/-! ## The local headers -/

/-- The entry with the place of its data: behind its local header and name. -/
def ZipEntry.located (entry : ZipEntry) : ZipEntry :=
  { entry with
    dataOffset := entry.localHeaderOffset + kLocalHeaderSize + entry.rawName.length }

/-- The local header of the entry agrees with it, with its name behind it. -/
structure LocalAt (bytes : Bytes) (entry : ZipEntry) : Prop where
  signature : readU32 (slice entry.localHeaderOffset kLocalHeaderSize bytes) 0 = kLocalSignature
  flags : readU16 (slice entry.localHeaderOffset kLocalHeaderSize bytes) 6 = entry.flags
  method : readU16 (slice entry.localHeaderOffset kLocalHeaderSize bytes) 8 = entry.compression.code
  crc32 : readU32 (slice entry.localHeaderOffset kLocalHeaderSize bytes) 14 = entry.crc32
  compressedSize :
    readU32 (slice entry.localHeaderOffset kLocalHeaderSize bytes) 18 = entry.compressedSize
  size : readU32 (slice entry.localHeaderOffset kLocalHeaderSize bytes) 22 = entry.size
  nameLength :
    readU16 (slice entry.localHeaderOffset kLocalHeaderSize bytes) 26 = entry.rawName.length
  extraLength : readU16 (slice entry.localHeaderOffset kLocalHeaderSize bytes) 28 = 0
  name : slice (entry.localHeaderOffset + kLocalHeaderSize) entry.rawName.length bytes =
    entry.rawName

/-- Where the data of an entry ends. -/
def localStop (entry : ZipEntry) : Nat := entry.dataOffset + entry.compressedSize

theorem length_rawName (entry : ZipEntry) :
    entry.rawName.length = entry.path.length + (if entry.isDirectory then 1 else 0) := by
  unfold ZipEntry.rawName
  split <;> simp

/-- A name of the right length that starts with the path, and ends in a slash if the entry is a
directory, is the name of the entry. -/
theorem eq_rawName {entry : ZipEntry} {name : Bytes} (hlength : name.length = entry.rawName.length)
    (hpath : name.take entry.path.length = entry.path)
    (hslash : entry.isDirectory = true → name.getLast? = some 0x2f) : name = entry.rawName := by
  rw [length_rawName] at hlength
  unfold ZipEntry.rawName
  by_cases hdirectory : entry.isDirectory = true
  · rw [if_pos hdirectory] at hlength ⊢
    obtain ⟨front, rfl⟩ := List.getLast?_eq_some_iff.mp (hslash hdirectory)
    have hfront : front.length = entry.path.length := by simpa using hlength
    rw [← hfront, List.take_left] at hpath
    rw [hpath]
  · rw [if_neg hdirectory] at hlength ⊢
    rw [← hpath, List.take_of_length_le (by omega)]

theorem checkLocal_ok {entry : ZipEntry} {header : Bytes} {u : Unit}
    (h : checkLocal entry header = .ok u) :
    readU16 header 6 = entry.flags ∧ readU16 header 8 = entry.compression.code ∧
      readU32 header 14 = entry.crc32 ∧ readU32 header 18 = entry.compressedSize ∧
      readU32 header 22 = entry.size ∧ readU16 header 28 = 0 ∧
      readU16 header 26 = entry.rawName.length := by
  unfold checkLocal at h
  simp only [reject_bind_eq_ok, reject_eq_ok, not_or, not_not] at h
  obtain ⟨-, ⟨hflags, hmethod, hcrc, hcompressed, hsize⟩, hextra, hname, -⟩ := h
  exact ⟨hflags, hmethod, hcrc, hcompressed, hsize, hextra, by rw [hname, length_rawName]⟩

theorem ends_readLocal {bytes : Bytes} {centralOffset expected : Nat} {entry : ZipEntry}
    (hcentral : centralOffset ≤ bytes.length) :
    Ends bytes (readLocal centralOffset expected entry) fun read =>
      read.1 = entry.located ∧ read.2 = localStop entry.located ∧
        entry.localHeaderOffset = expected ∧ LocalAt bytes entry := by
  unfold readLocal
  apply ends_check
  rintro ⟨hexpected, hheader⟩
  have hheader := le_of_rangeWithin hheader
  apply ends_readAt (hheader.trans hcentral)
  apply ends_check
  intro hsignature
  apply ends_compute
  intro _ hcheck
  obtain ⟨hflags, hmethod, hcrc, hcompressed, hsize, hextra, hnameLength⟩ := checkLocal_ok hcheck
  dsimp only
  rw [hextra, hnameLength]
  apply ends_check
  intro hdata
  have hdata := le_of_rangeWithin hdata
  apply ends_readAt (by omega)
  apply ends_check
  rintro ⟨hpath, hslash⟩
  apply ends_check
  rintro -
  have hlength := length_slice (show entry.localHeaderOffset + kLocalHeaderSize +
    entry.rawName.length ≤ bytes.length by omega)
  have hname := eq_rawName hlength hpath hslash
  exact ends_pure ⟨rfl, rfl, hexpected, hsignature, hflags, hmethod, hcrc, hcompressed, hsize,
    hnameLength, hextra, hname⟩

/-- The bytes the files of the entries take up once they are installed. -/
def installedBytes (entries : List ZipEntry) : Nat :=
  ((entries.filter fun entry => !entry.isDirectory).map ZipEntry.size).sum

theorem installedBytes_cons (entry : ZipEntry) (rest : List ZipEntry) :
    installedBytes (entry :: rest) =
      (if entry.isDirectory then 0 else entry.size) + installedBytes rest := by
  unfold installedBytes
  by_cases hdirectory : entry.isDirectory = true <;> simp [hdirectory]

/-- What the local scan has found of the entries it went through from `expected` on. -/
structure Located (bytes : Bytes) (limits : ZipLimits) (expected installed : Nat)
    (entries : List ZipEntry) (stop total : Nat) : Prop where
  tiles : Tiles ZipEntry.localHeaderOffset localStop expected (entries.map ZipEntry.located) stop
  sum : total = installed + installedBytes entries
  limit : total ≤ limits.maximumInstalledBytes
  headers : ∀ entry ∈ entries, LocalAt bytes entry

/-- One entry in front. -/
theorem Located.cons {bytes : Bytes} {limits : ZipLimits} {installed stop total : Nat}
    {entry : ZipEntry} {rest : List ZipEntry} (hat : LocalAt bytes entry)
    (h : Located bytes limits (localStop entry.located)
      (installed + if entry.isDirectory then 0 else entry.size) rest stop total) :
    Located bytes limits entry.localHeaderOffset installed (entry :: rest) stop total := by
  refine ⟨⟨rfl, ?_, h.tiles⟩, ?_, h.limit, ?_⟩
  · unfold localStop ZipEntry.located
    dsimp only
    omega
  · rw [h.sum, installedBytes_cons]
    omega
  · intro e he
    rcases List.mem_cons.mp he with rfl | he
    · exact hat
    · exact h.headers e he

theorem ends_scanLocal {bytes : Bytes} {limits : ZipLimits} {centralOffset : Nat}
    (hcentral : centralOffset ≤ bytes.length) (rest : List ZipEntry) (expected installed : Nat)
    (done : List ZipEntry) (hinstalled : installed ≤ limits.maximumInstalledBytes) :
    Ends bytes (scanLocal limits centralOffset rest expected installed done) fun read =>
      Located bytes limits expected installed rest read.1 read.2.1 ∧
        read.2.2 = done ++ rest.map ZipEntry.located := by
  induction rest generalizing expected installed done with
  | nil => exact ends_pure ⟨⟨rfl, rfl, hinstalled, by simp⟩, by simp⟩
  | cons entry rest ih =>
      unfold scanLocal
      refine ends_bind (ends_readLocal hcentral) ?_
      rintro ⟨_, _⟩ ⟨rfl, rfl, rfl, hat⟩
      dsimp only
      split
      · next hdirectory =>
          refine Fallible.guarded_mono (ih _ installed _ hinstalled) ?_
          rintro ⟨stop, total, entries⟩ - ⟨hlocated, hentries⟩
          have hdirectory : entry.isDirectory = true := hdirectory
          refine ⟨.cons hat (by simpa [hdirectory] using hlocated), by simpa using hentries⟩
      · next hfile =>
          apply ends_check
          rintro ⟨-, hlimit⟩
          refine Fallible.guarded_mono (ih _ _ _ hlimit) ?_
          rintro ⟨stop, total, entries⟩ - ⟨hlocated, hentries⟩
          have hfile : ¬ entry.isDirectory = true := hfile
          refine ⟨.cons hat ?_, by simpa using hentries⟩
          rw [if_neg hfile]
          exact hlocated

/-! ## Open -/

/-- The layout of an archive, and the inventory of it. -/
structure ZipLayout (bytes : Bytes) (entryCapacity : Nat) (limits : ZipLimits)
    (inventory : ZipInventory) : Prop where
  archiveSize : inventory.archiveSize = bytes.length
  archiveLimit : bytes.length ≤ limits.maximumArchiveBytes
  /-- The end record is the last 22 bytes. -/
  endRecord : EndRecordAt bytes entryCapacity limits
    { offset := inventory.centralDirectoryOffset + inventory.centralDirectorySize
      entryCount := inventory.entryCount
      centralSize := inventory.centralDirectorySize
      centralOffset := inventory.centralDirectoryOffset }
  /-- The central headers and their names take up the bytes before it. -/
  central : ∃ records : List (Nat × ZipEntry), records.map Prod.snd = inventory.entries ∧
    Tiles Prod.fst centralStop inventory.centralDirectoryOffset records
      (inventory.centralDirectoryOffset + inventory.centralDirectorySize) ∧
    ∀ record ∈ records, CentralAt bytes record.1 record.2
  /-- Local headers, names and data take up the bytes before those. -/
  localData : Tiles ZipEntry.localHeaderOffset localStop 0 inventory.entries
    inventory.centralDirectoryOffset
  /-- So every one of these bytes belongs to an entry, and to no other one. -/
  noGap : ∀ position < inventory.centralDirectoryOffset,
    ∃ entry ∈ inventory.entries, entry.localHeaderOffset ≤ position ∧ position < localStop entry
  noOverlap : inventory.entries.Pairwise fun left right => localStop left ≤ right.localHeaderOffset
  inRange : ∀ entry ∈ inventory.entries, localStop entry ≤ inventory.centralDirectoryOffset
  headers : ∀ entry ∈ inventory.entries, LocalAt bytes entry ∧
    entry.dataOffset = entry.localHeaderOffset + kLocalHeaderSize + entry.rawName.length
  entries : ∀ entry ∈ inventory.entries, EntryOk limits entry
  distinct : inventory.entries.Pairwise fun left right => ¬ SameName left right
  noFileAsDirectory : ∀ file ∈ inventory.entries, file.isDirectory = false →
    ∀ entry ∈ inventory.entries, ¬ DirectoryOf file entry
  entryCount : inventory.entries.length = inventory.entryCount
  counts : inventory.fileCount + inventory.directoryCount = inventory.entryCount
  files : inventory.fileCount = inventory.entries.countP fun entry => !entry.isDirectory
  installedSize : inventory.installedSize = installedBytes inventory.entries
  installedLimit : inventory.installedSize ≤ limits.maximumInstalledBytes

theorem CentralAt.located {bytes : Bytes} {start : Nat} {entry : ZipEntry}
    (h : CentralAt bytes start entry) : CentralAt bytes start entry.located :=
  ⟨h.signature, h.flags, h.method, h.crc32, h.compressedSize, h.size, h.nameLength,
    h.extraLength, h.commentLength, h.localOffset, h.name⟩

theorem LocalAt.located {bytes : Bytes} {entry : ZipEntry} (h : LocalAt bytes entry) :
    LocalAt bytes entry.located :=
  ⟨h.signature, h.flags, h.method, h.crc32, h.compressedSize, h.size, h.nameLength,
    h.extraLength, h.name⟩

theorem EntryOk.located {limits : ZipLimits} {entry : ZipEntry} (h : EntryOk limits entry) :
    EntryOk limits entry.located :=
  ⟨h.path, h.directory, h.fileBytes, h.ratio⟩

theorem installedBytes_located (entries : List ZipEntry) :
    installedBytes (entries.map ZipEntry.located) = installedBytes entries := by
  induction entries with
  | nil => rfl
  | cons entry entries ih =>
      rw [List.map_cons, installedBytes_cons, installedBytes_cons, ih]
      rfl

theorem ends_openArchive (bytes : Bytes) (entryCapacity : Nat) (limits : ZipLimits) :
    Ends bytes (openArchive entryCapacity limits) (ZipLayout bytes entryCapacity limits) := by
  unfold openArchive
  apply ends_check
  rintro -
  refine ends_bind (ends_readEndRecord bytes entryCapacity limits) ?_
  rintro ⟨archiveSize, tailBegin, record⟩ ⟨rfl, hlimit, hrecord⟩
  have hlast := hrecord.last
  have hcentral := hrecord.central
  dsimp only at hlast hcentral ⊢
  refine ends_bind (ends_rejectZip64 (by omega)) fun _ _ => ?_
  have hstart : Scanned bytes limits record.centralOffset record.offset 0
      { cursor := record.centralOffset, entries := [], fileCount := 0, directoryCount := 0 } :=
    ⟨⟨[], rfl, rfl, by simp⟩, by simp, .nil, rfl, rfl, rfl⟩
  refine ends_bind (ends_scanCentral (by omega) record.entryCount 0 _ hstart) ?_
  intro scan hscan
  rw [Nat.zero_add] at hscan
  apply ends_check
  intro hcursor
  apply ends_check
  intro hnames
  refine ends_bind (ends_scanLocal (by omega) scan.entries 0 0 [] (Nat.zero_le _)) ?_
  rintro ⟨expected, installedSize, entries⟩ ⟨hlocated, hentries⟩
  apply ends_check
  intro hexpected
  dsimp only at hentries hexpected hlocated
  rw [List.nil_append] at hentries
  subst hentries hexpected
  apply ends_pure
  obtain ⟨records, hrecords, htiles, hat⟩ := hscan.tiles
  constructor
  · rfl
  · exact hlimit
  · dsimp only
    rw [hcentral]
    exact hrecord
  · refine ⟨records.map fun record => (record.1, record.2.located), ?_, ?_, ?_⟩
    · rw [← hrecords]
      simp
    · dsimp only
      rw [tiles_map, hcentral, ← hcursor]
      exact htiles
    · intro record hmem
      obtain ⟨original, horiginal, rfl⟩ := List.mem_map.mp hmem
      exact (hat original horiginal).located
  · exact hlocated.tiles
  · exact fun position hposition => hlocated.tiles.covers (Nat.zero_le _) hposition
  · exact hlocated.tiles.pairwise
  · exact fun entry hentry => (hlocated.tiles.within hentry).2.2
  · intro entry hmem
    obtain ⟨original, horiginal, rfl⟩ := List.mem_map.mp hmem
    exact ⟨(hlocated.headers original horiginal).located, rfl⟩
  · intro entry hmem
    obtain ⟨original, horiginal, rfl⟩ := List.mem_map.mp hmem
    exact (hscan.entries original horiginal).located
  · exact List.pairwise_map.mpr hscan.distinct
  · intro file hfile hkind entry hentry
    obtain ⟨originalFile, horiginalFile, rfl⟩ := List.mem_map.mp hfile
    obtain ⟨original, horiginal, rfl⟩ := List.mem_map.mp hentry
    exact not_directoryOf hnames originalFile horiginalFile hkind original horiginal
  · dsimp only
    rw [List.length_map, hscan.length]
  · have hcounts := List.length_eq_countP_add_countP (fun entry : ZipEntry => !entry.isDirectory)
      (l := scan.entries)
    dsimp only
    rw [hscan.files, hscan.directories, ← hscan.length, hcounts]
    simp
  · dsimp only
    rw [hscan.files, List.countP_map]
    rfl
  · dsimp only
    rw [hlocated.sum, installedBytes_located, Nat.zero_add]
  · exact hlocated.limit

/-- An archive that opens is tiled by its entries, its central directory and its end record, and
`Open` reads inside the archive only, whatever fails. -/
theorem openArchive_layout (bytes : Bytes) (entryCapacity : Nat) (limits : ZipLimits) :
    (∀ inventory, Reaches (archiveSource bytes) (some (openArchive entryCapacity limits).run, ())
        (some (.pure (.ok inventory)), ()) → ZipLayout bytes entryCapacity limits inventory) ∧
      ∀ op next, Reaches (archiveSource bytes) (some (openArchive entryCapacity limits).run, ())
        (some (.call op next), ()) → Inside bytes op := by
  have hends := ends_openArchive bytes entryCapacity limits
  constructor
  · intro inventory hreaches
    exact Program.guarded_of_reaches hends hreaches
  · intro op next hreaches
    exact (Program.guarded_of_reaches hends hreaches).1

end Zip

end BmxUpdate
