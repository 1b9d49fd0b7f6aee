import BmxUpdate.FatPathPolicy
import BmxUpdate.FileSystem
import BmxUpdate.Library.Checks
import BmxUpdate.Sha256

/-!
# FatFs as the archive storage calls it

The path rules and the helpers of `fatfs_update_storage.cpp`, over the calls of FatFs they
make.  An absolute path is a C string with its volume in front; the volume the model has
is the one it names, and a name stands for itself as FAT compares it.

A file that is written may lose its tail until it is closed: a write, a sync or a close
that fails or is cut can leave any part of what the file should hold.  A write that fails
may also have left everything there was.  The close of a file that was only read, after
a read failed, changes nothing and is left out.
-/

namespace BmxUpdate

namespace Archive

open Wire Crash Volumes Checks FatPath

/-- Why a step failed; `Ok` is the success of the step. -/
inductive FatFsStorageStatus where
  | backendUnavailable | invalidArgument | invalidPath | pathTooLong | notOpen | busy
  | notFound | alreadyExists | notDirectory | isDirectory | openFailed | readFailed
  | writeFailed | seekFailed | syncFailed | closeFailed | statFailed | mkdirFailed
  | removeFailed | renameFailed | sizeMismatch | limitExceeded | hashFailed | hashMismatch
  | verifyAfterWriteFailed
deriving DecidableEq, Repr

/-- With its volume, its separators and its NUL. -/
def kFatFsUpdatePathBytes : Nat := 512

/-! ## Absolute paths -/

/-- `MapPathStatus` -/
def mapPathStatus : FatPathValidationStatus → Except FatFsStorageStatus Unit
  | .ok => .ok ()
  | .invalidArgument => .error .invalidArgument
  | .pathTooLong => .error .pathTooLong
  | .invalidPath => .error .invalidPath

/-- The characters of a volume's name. -/
def isVolumeCharacter (c : UInt8) : Bool :=
  (0x41 ≤ c && c ≤ 0x5a) || (0x61 ≤ c && c ≤ 0x7a) || (0x30 ≤ c && c ≤ 0x39) || c == 0x5f

/-- `ValidateFatFsAbsolutePath` -/
def validateFatFsAbsolutePath (path : Bytes) : Except FatFsStorageStatus Unit := do
  let volume := path.takeWhile (· ≠ 0x3a)
  let tail := path.dropWhile (· ≠ 0x3a)
  reject (path = []) .invalidArgument
  reject (kFatFsUpdatePathBytes ≤ path.length) .pathTooLong
  reject (¬volume.all isVolumeCharacter) .invalidPath
  reject (volume = [] ∨ 15 < volume.length ∨ (tail.drop 1).head? ≠ some 0x2f) .invalidPath
  if tail.drop 2 = [] then return ()
  else mapPathStatus (validateFatRelativePathBytes (tail.drop 2) (kFatFsUpdatePathBytes - 1))

/-- A name as FAT compares it. -/
def fatName (component : Bytes) : String :=
  String.ofList (component.map fun c => Char.ofNat (asciiLower c).toNat)

/-- The node an absolute path below the root of its volume names. -/
def nodePath (path : Bytes) : Path :=
  (((path.dropWhile (· ≠ 0x3a)).drop 2).splitOn 0x2f).map fatName

/-- The directories above a node, from the root down. -/
def parentPaths (path : Path) : List Path :=
  (List.range path.length).tail.map path.take

/-! ## Calls of FatFs -/

section Calls

variable {σ : Type}

/-- `f_mkdir`; a node that is there already (`FR_EXIST`) is no error. -/
def fMkdir (path : Path) : FsProc σ Unit :=
  Proc.act fun v =>
    match v.nodeAt path with
    | none => atomically v (v.createDirectory path)
    | some _ => unchanged v

/-- `f_write` at the end of the open file. -/
def fWrite (path : Path) (data : Bytes) : FsProc σ Unit :=
  Proc.act fun v =>
    (v.fileAt path).bind fun old =>
      (v.writeFile path (old ++ data)).map fun w =>
        ⟨(), w, fun k => (v.writeFile path ((old ++ data).take k)).getD v⟩

/-- `f_sync` and `f_close` of the open file. -/
def fFlush (path : Path) : FsProc σ Unit := fWrite path []

end Calls

/-! ## Helpers -/

/-- A step of the storage: it fails with a status. -/
abbrev FatFsProc (σ α : Type) := Proc FatFsStorageStatus σ Volume α

section Helpers

variable {σ : Type}

/-- The check that the entry points make of their path. -/
def validated (path : Bytes) : FatFsProc σ Unit :=
  match validateFatFsAbsolutePath path with
  | .ok () => return ()
  | .error status => Proc.throw status

/-- `FatFsStatPath` -/
def fatFsStatPath (path : Bytes) : FatFsProc σ UpdateFileStat := do
  validated path
  Proc.orElse .statFailed (stat (nodePath path))

/-- `FatFsRemoveFileIfPresent` -/
def fatFsRemoveFileIfPresent (path : Bytes) : FatFsProc σ Unit := do
  let info ← fatFsStatPath path
  Proc.when (info.type ≠ .missing) do
    Proc.check (info.type ≠ .directory) .isDirectory
    Proc.orElse .removeFailed (removeFile (nodePath path))

/-- `EnsureOneDirectory` -/
def ensureOneDirectory (path : Path) : FatFsProc σ Unit := do
  Proc.orElse .mkdirFailed (fMkdir path)
  let info ← Proc.orElse .statFailed (stat path)
  Proc.check (info.type ≠ .missing) .mkdirFailed
  Proc.check (info.type = .directory) .notDirectory

/-- `EnsureParentDirectories` -/
def ensureParentDirectories (path : Bytes) : FatFsProc σ Unit :=
  Proc.forIndexed (fun _ => ensureOneDirectory) 0 (parentPaths (nodePath path))

/-- `HashFile` -/
def hashFile (path : Bytes) (maximumBytes : Nat) : FatFsProc σ (Nat × Digest) := do
  let before ← Proc.orElse .statFailed (stat (nodePath path))
  Proc.check (before.type ≠ .missing) .notFound
  Proc.check (before.type ≠ .directory) .isDirectory
  Proc.check (before.size ≤ maximumBytes) .limitExceeded
  Proc.orElse .openFailed barrier
  let content ← Proc.orElse .readFailed (readFile (nodePath path))
  -- One more byte must not be there.
  Proc.orElse .sizeMismatch barrier
  Proc.orElse .closeFailed barrier
  let after ← Proc.orElse .statFailed (stat (nodePath path))
  Proc.check (after.type = .regularFile ∧ after.size = before.size) .sizeMismatch
  return (before.size, sha256 content)

end Helpers

/-! ## What the calls do -/

section Rules

variable {σ : Type} {allow : Fault → Prop} {I : Volume → Prop} {s : σ} {d : Volume}

theorem writeFile_updates {path : Path} {old content : Content}
    (hfile : d.fileAt path = some old) :
    ∃ w, d.writeFile path content = some w ∧ Updates d path (some (.file content)) w :=
  Volume.writeFile_eq_some hfile content

theorem keeps_fWrite {E : Unit → Prop} {path : Path} {old data : Bytes}
    {Q : Unit → σ → Volume → Prop} (hfile : d.fileAt path = some old)
    (htorn : MayFail allow ∨ MayCut allow → ∀ n d',
      Updates d path (some (.file ((old ++ data).take n))) d' → I d')
    (h : ∀ d', Updates d path (some (.file (old ++ data))) d' → Q () s d') :
    keeps allow I E (fWrite path data) Q s d := by
  obtain ⟨w, hw, hget⟩ := @writeFile_updates d path old (old ++ data) hfile
  have heffect : ((d.fileAt path).bind fun old => (d.writeFile path (old ++ data)).map fun w =>
      (⟨(), w, fun k => (d.writeFile path ((old ++ data).take k)).getD d⟩ : Effect Volume Unit)) =
      some ⟨(), w, fun k => (d.writeFile path ((old ++ data).take k)).getD d⟩ := by
    rw [hfile, Option.bind_some, hw, Option.map_some]
  refine wp_act heffect (h w hget) fun k => ?_
  obtain ⟨t, ht, htget⟩ := @writeFile_updates d path old ((old ++ data).take k) hfile
  dsimp only
  rw [ht]
  exact ⟨fun hcut => ⟨htorn (Or.inr hcut) k t htget, hcut⟩,
    fun hfail _ _ => ⟨htorn (Or.inl hfail) k t htget, Or.inr hfail⟩⟩

/-- A write that finds no file is refused. -/
theorem keeps_fWrite_trivial {path : Path} {data : Bytes} :
    keeps allow (fun _ => True) anyError (fWrite path data) (fun _ _ _ => True) s d := by
  cases hfile : d.fileAt path with
  | none => exact wp_act_refused (by rw [hfile]; rfl) ⟨trivial, Or.inl trivial⟩
  | some old => exact keeps_fWrite hfile (fun _ _ _ _ => trivial) fun _ _ => trivial

theorem keeps_validated {E : FatFsStorageStatus → Prop} {path : Bytes}
    {Q : Unit → σ → Volume → Prop} (hvalid : validateFatFsAbsolutePath path = .ok ())
    (h : Q () s d) : keeps allow I E (validated path) Q s d := by
  unfold validated
  rw [hvalid]
  exact keeps_pure h

theorem keeps_fatFsStatPath {E : FatFsStorageStatus → Prop} {path : Bytes}
    {Q : UpdateFileStat → σ → Volume → Prop} (hvalid : validateFatFsAbsolutePath path = .ok ())
    (hI : I d) (h : Q (statOf (d.nodeAt (nodePath path))) s d) :
    keeps allow I E (fatFsStatPath path) Q s d :=
  keeps_bind (keeps_validated hvalid (keeps_orElse (E := noError) (keeps_stat hI h) nofun))

theorem keeps_fatFsRemoveFileIfPresent {E : FatFsStorageStatus → Prop} {path : Bytes}
    {Q : Unit → σ → Volume → Prop} (hvalid : validateFatFsAbsolutePath path = .ok ())
    (hI : I d) (hdirectory : d.nodeAt (nodePath path) = some .directory → E .isDirectory)
    (h : ∀ d', d.nodeAt (nodePath path) ≠ some .directory →
      Updates d (nodePath path) none d' → I d' ∧ Q () s d') :
    keeps allow I E (fatFsRemoveFileIfPresent path) Q s d := by
  refine keeps_bind (keeps_fatFsStatPath hvalid hI ?_)
  refine keeps_when (fun _ => ?_) fun hmissing => ?_
  · refine keeps_bind (keeps_check (fun hnot => ⟨hI, hdirectory ?_⟩) fun hfile => ?_)
    · simpa using hnot
    · have hfile : d.nodeAt (nodePath path) ≠ some .directory := by simpa using hfile
      exact keeps_orElse (E := noError) (keeps_removeFile hI (fun hnode => absurd hnode hfile)
        fun d' hget => h d' hfile hget) nofun
  · have hnone : d.nodeAt (nodePath path) = none := by simpa using hmissing
    exact (h d (by simp [hnone]) (updates_self hnone)).2

theorem keeps_hashFile {E : FatFsStorageStatus → Prop} {path : Bytes} {maximumBytes : Nat}
    {Q : Nat × Digest → σ → Volume → Prop} (hI : I d)
    (hrefused : ¬(∃ content, d.fileAt (nodePath path) = some content ∧
      content.length ≤ maximumBytes) → ∀ e, E e)
    (h : ∀ content, d.fileAt (nodePath path) = some content → content.length ≤ maximumBytes →
      Q (content.length, sha256 content) s d) :
    keeps allow I E (hashFile path maximumBytes) Q s d := by
  have hquiet {η : Type} {E : η → Prop} {e : η} {Q : Unit → σ → Volume → Prop} (hQ : Q () s d) :
      keeps allow I E (Proc.orElse e barrier) Q s d :=
    keeps_orElse (E := noError) (keeps_barrier hI hQ) nofun
  refine keeps_bind (keeps_orElse (E := noError) (keeps_stat hI ?_) nofun)
  refine keeps_bind (keeps_check (fun hmissing => ⟨hI, hrefused ?_ _⟩) fun hpresent => ?_)
  · rintro ⟨content, hcontent, -⟩
    rw [Volume.fileAt_eq_some_iff] at hcontent
    simp [hcontent, statOf] at hmissing
  refine keeps_bind (keeps_check (fun hdirectory => ⟨hI, hrefused ?_ _⟩) fun hfile => ?_)
  · rintro ⟨content, hcontent, -⟩
    rw [Volume.fileAt_eq_some_iff] at hcontent
    simp [hcontent, statOf] at hdirectory
  obtain ⟨content, hnode⟩ : ∃ content, d.nodeAt (nodePath path) = some (.file content) := by
    rcases hnode : d.nodeAt (nodePath path) with _ | _ | content
    · simp [hnode] at hpresent
    · exact ⟨_, rfl⟩
    · simp [hnode] at hfile
  have hcontent := Volume.fileAt_eq_some_iff.mpr hnode
  rw [hnode]
  refine keeps_bind (keeps_check (fun hlarge => ⟨hI, hrefused ?_ _⟩) fun hbounded => ?_)
  · rintro ⟨content', hcontent', hlength⟩
    rw [hcontent] at hcontent'
    cases hcontent'
    exact hlarge hlength
  refine keeps_bind (hquiet ?_)
  refine keeps_bind (keeps_orElse (E := noError) (keeps_readFile hI
    (fun hmissing => by rw [hcontent] at hmissing; cases hmissing) fun content' hread => ?_) nofun)
  rw [hcontent] at hread
  cases hread
  refine keeps_bind (hquiet (keeps_bind (hquiet ?_)))
  refine keeps_bind (keeps_orElse (E := noError) (keeps_stat hI ?_) nofun)
  rw [hnode]
  exact keeps_bind (keeps_check (fun hnot => absurd ⟨rfl, rfl⟩ hnot) fun _ =>
    keeps_pure (h content hcontent hbounded))

end Rules

/-! ## What the calls can touch -/

section Frames

variable {σ : Type} {S : σ → σ → Prop} [FrameRel S] {R : Volume → Volume → Prop} [FrameRel R]
  {fp : Footprint}

theorem respects_fWrite {path : Path} (hpath : fp.file path) (data : Bytes) :
    Respects S (Within fp) (fWrite path data : FsProc σ Unit) := by
  refine ⟨Preserves.act fun v effect heffect => ?_, fun _ => .act _⟩
  obtain ⟨old, hold, heffect⟩ := Option.bind_eq_some_iff.mp heffect
  have hwithin : ∀ {content w}, v.writeFile path content = some w → Within fp v w := by
    intro content w hw
    obtain ⟨w', hw', hget⟩ := @writeFile_updates v path old content hold
    rw [hw] at hw'
    cases hw'
    rw [Volume.fileAt_eq_some_iff] at hold
    exact within_of_update hget (fun _ => hpath) (by simp) (by simp [hold])
  obtain ⟨w, hw, rfl⟩ := Option.map_eq_some_iff.mp heffect
  refine ⟨hwithin hw, fun k => ?_⟩
  obtain ⟨t, ht, -⟩ := @writeFile_updates v path old ((old ++ data).take k) hold
  change Within fp v ((v.writeFile path ((old ++ data).take k)).getD v)
  rw [ht]
  exact hwithin ht

theorem respects_fFlush {path : Path} (hpath : fp.file path) :
    Respects S (Within fp) (fFlush path : FsProc σ Unit) :=
  respects_fWrite hpath []

theorem respects_fMkdir {path : Path} (hpath : fp.appear path) :
    Respects S (Within fp) (fMkdir path : FsProc σ Unit) := by
  refine ⟨Preserves.act fun v effect heffect => ?_, fun _ => .act _⟩
  cases hnode : v.nodeAt path with
  | some node =>
      rw [hnode] at heffect
      cases heffect
      exact ⟨FrameRel.refl v, fun _ => FrameRel.refl v⟩
  | none =>
      rw [hnode] at heffect
      obtain ⟨w, hw, rfl⟩ := Option.map_eq_some_iff.mp heffect
      have hwithin : Within fp v w := by
        by_cases hparent : v.nodeAt path.dropLast = some .directory
        · obtain ⟨w', hw', hget⟩ := Volume.createDirectory_eq_some hparent hnode
          rw [hw] at hw'
          cases hw'
          exact within_of_update hget (by simp [hnode, IsFile]) (fun _ => hpath) (by simp [hnode])
        · rw [Volume.createDirectory, dif_neg fun h => hparent h.1] at hw
          cases hw
      refine ⟨hwithin, fun k => ?_⟩
      dsimp only
      split
      · exact FrameRel.refl v
      · exact hwithin

theorem respects_validated (path : Bytes) :
    Respects S R (validated path : FatFsProc σ Unit) := by
  unfold validated
  split
  · exact .pure ()
  · exact .throw _

theorem respects_fatFsStatPath (path : Bytes) :
    Respects S R (fatFsStatPath path : FatFsProc σ UpdateFileStat) :=
  (respects_validated path).bind fun _ => (respects_stat _).orElse _

theorem respects_fatFsRemoveFileIfPresent {path : Bytes}
    (hremove : Respects S R (removeFile (nodePath path) : FsProc σ Unit)) :
    Respects S R (fatFsRemoveFileIfPresent path : FatFsProc σ Unit) :=
  (respects_fatFsStatPath path).bind fun _ => .when <|
    (Respects.check _ _).bind fun _ => hremove.orElse _

/-- Outside `files` every node stays as it is or is gone. -/
def Fading (files : Path → Prop) (v w : Volume) : Prop :=
  ∀ p, ¬files p → w.nodeAt p = v.nodeAt p ∨ w.nodeAt p = none

instance (files : Path → Prop) : FrameRel (Fading files) where
  refl := fun _ _ _ => Or.inl rfl
  trans := by
    intro a b c hab hbc p hp
    rcases hbc p hp with hsame | hgone
    · rw [hsame]
      exact hab p hp
    · exact Or.inr hgone

theorem respects_removeFile_fading {files : Path → Prop} {path : Path} :
    Respects S (Fading files) (removeFile path : FsProc σ Unit) := by
  refine ⟨Preserves.act fun v effect heffect => ?_, fun _ => .act _⟩
  cases hnode : v.nodeAt path with
  | none =>
      rw [hnode] at heffect
      cases heffect
      exact ⟨FrameRel.refl v, fun _ => FrameRel.refl v⟩
  | some node =>
      rw [hnode] at heffect
      obtain ⟨w, hw, rfl⟩ := Option.map_eq_some_iff.mp heffect
      have hfades : Fading files v w := by
        cases hfile : v.fileAt path with
        | none =>
            rw [Volume.removeFile, dif_neg (by simp [hfile])] at hw
            cases hw
        | some old =>
            obtain ⟨w', hw', hget⟩ := Volume.removeFile_eq_some hfile
            rw [hw] at hw'
            cases hw'
            intro p _
            rw [hget p]
            split
            · exact Or.inr rfl
            · exact Or.inl rfl
      refine ⟨hfades, fun k => ?_⟩
      dsimp only
      split
      · exact FrameRel.refl v
      · exact hfades

theorem respects_ensureOneDirectory {path : Path} (hpath : fp.appear path) :
    Respects S (Within fp) (ensureOneDirectory path : FatFsProc σ Unit) :=
  ((respects_fMkdir hpath).orElse _).bind fun _ => ((respects_stat _).orElse _).bind fun _ =>
    (Respects.check _ _).bind fun _ => Respects.check _ _

theorem respects_ensureParentDirectories {path : Bytes}
    (hpath : ∀ p ∈ parentPaths (nodePath path), fp.appear p) :
    Respects S (Within fp) (ensureParentDirectories path : FatFsProc σ Unit) :=
  Respects.forIndexed fun _ p hp => respects_ensureOneDirectory (hpath p (List.mem_of_getElem? hp))

theorem respects_hashFile (path : Bytes) (maximumBytes : Nat) :
    Respects S R (hashFile path maximumBytes : FatFsProc σ (Nat × Digest)) :=
  ((respects_stat _).orElse _).bind fun _ => (Respects.check _ _).bind fun _ =>
    (Respects.check _ _).bind fun _ => (Respects.check _ _).bind fun _ =>
    (respects_barrier.orElse _).bind fun _ => ((respects_readFile _).orElse _).bind fun _ =>
    (respects_barrier.orElse _).bind fun _ => (respects_barrier.orElse _).bind fun _ =>
    ((respects_stat _).orElse _).bind fun _ => (Respects.check _ _).bind fun _ => .pure _

end Frames

end Archive

end BmxUpdate
