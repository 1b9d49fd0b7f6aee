import BmxUpdate.Library.Volume

/-!
# The update volume

The interface `UpdateFileSystem` (`update_filesystem.h`) as operations on a
`Volume`, with the refusals its adapter `FatFsUpdateFileSystem` documents.  A
name in a path stands for the name as FAT compares it, so two spellings of one
name are one name here.

Where power is lost inside an operation:

* a namespace operation has happened or has not (the crash contract the
  installer asks for before it writes anything);
* a write leaves some prefix of the bytes;
* everything else leaves the volume as it was.

A file that is open is named by its path: the installer never renames or
removes a file it holds open.  Reading a file is one operation, since the reads
of one copy or hash loop change nothing between them.
-/

namespace BmxUpdate

open Crash Volumes

/-- A call of the file system: it fails with `false` and no further detail. -/
abbrev FsProc (σ α : Type) := Proc Unit σ Volume α

inductive UpdateNodeType where
  | missing
  | regularFile
  | directory
deriving DecidableEq, Repr

structure UpdateFileStat where
  type : UpdateNodeType
  size : Nat
deriving DecidableEq, Repr

/-- What `Stat` reports of a node. -/
def statOf : Option Node → UpdateFileStat
  | none => ⟨.missing, 0⟩
  | some .directory => ⟨.directory, 0⟩
  | some (.file content) => ⟨.regularFile, content.length⟩

@[simp] theorem statOf_type_eq_missing {node : Option Node} :
    (statOf node).type = .missing ↔ node = none := by
  rcases node with _ | _ | _ <;> simp [statOf]

@[simp] theorem statOf_type_eq_directory {node : Option Node} :
    (statOf node).type = .directory ↔ node = some .directory := by
  rcases node with _ | _ | _ <;> simp [statOf]

@[simp] theorem statOf_type_eq_regularFile {node : Option Node} :
    (statOf node).type = .regularFile ↔ ∃ content, node = some (.file content) := by
  rcases node with _ | _ | _ <;> simp [statOf]

/-- A namespace operation: it happens as a whole or not at all. -/
def atomically (v : Volume) (next : Option Volume) : Option (Effect Volume Unit) :=
  next.map fun w => ⟨(), w, fun k => if k = 0 then v else w⟩

/-- An operation that finds its work done. -/
def unchanged (v : Volume) : Option (Effect Volume Unit) := some ⟨(), v, fun _ => v⟩

variable {σ : Type}

/-- `Stat` -/
def stat (path : Path) : FsProc σ UpdateFileStat :=
  Proc.observe fun v => some (statOf (v.nodeAt path))

/-- `OpenRead`, `GetSize`, the `ReadAt` calls of the whole file, and `Close`. -/
def readFile (path : Path) : FsProc σ Content :=
  Proc.observe fun v => v.fileAt path

/-- `CreateFileFresh` -/
def createFileFresh (path : Path) : FsProc σ Unit :=
  Proc.act fun v => atomically v (v.createFile path)

/-- `Write` to the file opened at `path` of everything it is given. -/
def write (path : Path) (content : Content) : FsProc σ Unit :=
  Proc.act fun v =>
    (v.writeFile path content).map fun w =>
      ⟨(), w, fun k => (v.writeFile path (content.take k)).getD v⟩

/-- An operation that changes nothing on the volume but may fail: a `Sync`, a
`Close`. -/
def barrier : FsProc σ Unit := Proc.observe fun _ => some ()

/-- `SyncContainingDirectory` -/
def syncContainingDirectory (_path : Path) : FsProc σ Unit := barrier

/-- `CreateDirectory`: idempotent for a directory. -/
def createDirectory (path : Path) : FsProc σ Unit :=
  Proc.act fun v =>
    match v.nodeAt path with
    | some .directory => unchanged v
    | some (.file _) => none
    | none => atomically v (v.createDirectory path)

/-- `RemoveFile`: a missing path is fine. -/
def removeFile (path : Path) : FsProc σ Unit :=
  Proc.act fun v =>
    match v.nodeAt path with
    | none => unchanged v
    | some _ => atomically v (v.removeFile path)

/-- `RemoveDirectory`: a missing path is fine, a directory must be empty. -/
def removeDirectory (path : Path) : FsProc σ Unit :=
  Proc.act fun v =>
    match v.nodeAt path with
    | none => unchanged v
    | some _ => atomically v (v.removeDirectory path)

/-- `Rename` of a regular file. -/
def rename (source destination : Path) (replaceExisting : Bool) : FsProc σ Unit :=
  Proc.act fun v =>
    if source = destination then none
    else if v.nodeAt destination ≠ none ∧ replaceExisting = false then none
    else atomically v (v.moveFile source destination)

/-- `DirectoryContainsOnly` -/
def directoryContainsOnly (path : Path) (expectedNames : List String) : FsProc σ Bool :=
  Proc.observe fun v =>
    if v.nodeAt path = some .directory then
      some (decide (∀ name ∈ v.childNames path, name ∈ expectedNames))
    else none

/-! ## What each call does -/

section Rules

variable {allow : Fault → Prop} {s : σ} {d : Volume}

theorem wp_stat {path : Path} {post : Post Unit σ Volume UpdateFileStat}
    (hdone : post.done (statOf (d.nodeAt path)) s d) (hsafe : Safe allow post d) :
    wp allow (stat path) post s d :=
  wp_observe rfl hdone hsafe

theorem wp_readFile {path : Path} {content : Content} {post : Post Unit σ Volume Content}
    (hfile : d.fileAt path = some content) (hdone : post.done content s d)
    (hsafe : Safe allow post d) : wp allow (readFile path) post s d :=
  wp_observe hfile hdone hsafe

theorem wp_readFile_missing {path : Path} {post : Post Unit σ Volume Content}
    (hfile : d.fileAt path = none) (herror : post.error () s d) :
    wp allow (readFile path) post s d :=
  wp_observe_refused hfile herror

theorem wp_barrier {post : Post Unit σ Volume Unit} (hdone : post.done () s d)
    (hsafe : Safe allow post d) : wp allow barrier post s d :=
  wp_observe rfl hdone hsafe

/-- A namespace operation, given what its volume function does. -/
private theorem wp_atomically {f : Volume → Option (Effect Volume Unit)} {w : Volume}
    {post : Post Unit σ Volume Unit} (hf : f d = atomically d (some w))
    (hdone : post.done () s w) (hbefore : Safe allow post d) (hafter : Safe allow post w) :
    wp allow (Proc.act f) post s d := by
  refine wp_act hf hdone fun k => ?_
  by_cases hk : k = 0
  · simpa [hk] using hbefore
  · simpa [hk] using hafter

theorem wp_createFileFresh {path : Path} {post : Post Unit σ Volume Unit}
    (hparent : d.nodeAt path.dropLast = some .directory) (hmissing : d.nodeAt path = none)
    (hsafe : Safe allow post d)
    (hnext : ∀ d', (∀ q, d'.nodeAt q = if q = path then some (.file []) else d.nodeAt q) →
      post.done () s d' ∧ Safe allow post d') :
    wp allow (createFileFresh path) post s d := by
  obtain ⟨w, hw, hget⟩ := Volume.createFile_eq_some hparent hmissing
  exact wp_atomically (by rw [hw]) (hnext w hget).1 hsafe (hnext w hget).2

theorem wp_createFileFresh_refused {path : Path} {post : Post Unit σ Volume Unit}
    (h : d.nodeAt path.dropLast ≠ some .directory ∨ d.nodeAt path ≠ none)
    (herror : post.error () s d) : wp allow (createFileFresh path) post s d := by
  refine wp_act_refused ?_ herror
  have hnone : d.createFile path = none := dif_neg fun ⟨hp, hm⟩ => h.elim (· hp) (· hm)
  rw [hnone]
  rfl

theorem wp_write {path : Path} {old content : Content} {post : Post Unit σ Volume Unit}
    (hfile : d.fileAt path = some old)
    (hdone : ∀ d', (∀ q, d'.nodeAt q = if q = path then some (.file content) else d.nodeAt q) →
      post.done () s d')
    (htorn : ∀ k d', (∀ q, d'.nodeAt q =
        if q = path then some (.file (content.take k)) else d.nodeAt q) →
      Safe allow post d') :
    wp allow (write path content) post s d := by
  obtain ⟨w, hw, hget⟩ := Volume.writeFile_eq_some hfile content
  refine wp_act (by rw [hw]; rfl) (hdone w hget) fun k => ?_
  obtain ⟨t, ht, htget⟩ := Volume.writeFile_eq_some hfile (content.take k)
  simpa [ht] using htorn k t htget

theorem wp_createDirectory_present {path : Path} {post : Post Unit σ Volume Unit}
    (h : d.nodeAt path = some .directory) (hdone : post.done () s d)
    (hsafe : Safe allow post d) : wp allow (createDirectory path) post s d :=
  wp_act (by rw [h]; rfl) hdone fun _ => hsafe

theorem wp_createDirectory_file {path : Path} {content : Content}
    {post : Post Unit σ Volume Unit} (h : d.nodeAt path = some (.file content))
    (herror : post.error () s d) : wp allow (createDirectory path) post s d :=
  wp_act_refused (by rw [h]) herror

theorem wp_createDirectory_missing {path : Path} {post : Post Unit σ Volume Unit}
    (hparent : d.nodeAt path.dropLast = some .directory) (hmissing : d.nodeAt path = none)
    (hsafe : Safe allow post d)
    (hnext : ∀ d', (∀ q, d'.nodeAt q = if q = path then some .directory else d.nodeAt q) →
      post.done () s d' ∧ Safe allow post d') :
    wp allow (createDirectory path) post s d := by
  obtain ⟨w, hw, hget⟩ := Volume.createDirectory_eq_some hparent hmissing
  exact wp_atomically (by rw [hmissing, hw]) (hnext w hget).1 hsafe (hnext w hget).2

theorem wp_createDirectory_orphan {path : Path} {post : Post Unit σ Volume Unit}
    (hparent : d.nodeAt path.dropLast ≠ some .directory) (hmissing : d.nodeAt path = none)
    (herror : post.error () s d) : wp allow (createDirectory path) post s d := by
  refine wp_act_refused ?_ herror
  have hnone : d.createDirectory path = none := dif_neg fun h => hparent h.1
  rw [hmissing, hnone]
  rfl

theorem wp_removeFile_missing {path : Path} {post : Post Unit σ Volume Unit}
    (h : d.nodeAt path = none) (hdone : post.done () s d) (hsafe : Safe allow post d) :
    wp allow (removeFile path) post s d :=
  wp_act (by rw [h]; rfl) hdone fun _ => hsafe

theorem wp_removeFile {path : Path} {content : Content} {post : Post Unit σ Volume Unit}
    (h : d.fileAt path = some content) (hsafe : Safe allow post d)
    (hnext : ∀ d', (∀ q, d'.nodeAt q = if q = path then none else d.nodeAt q) →
      post.done () s d' ∧ Safe allow post d') :
    wp allow (removeFile path) post s d := by
  obtain ⟨w, hw, hget⟩ := Volume.removeFile_eq_some h
  rw [Volume.fileAt_eq_some_iff] at h
  exact wp_atomically (by rw [h, hw]) (hnext w hget).1 hsafe (hnext w hget).2

theorem wp_removeFile_directory {path : Path} {post : Post Unit σ Volume Unit}
    (h : d.nodeAt path = some .directory) (herror : post.error () s d) :
    wp allow (removeFile path) post s d := by
  refine wp_act_refused ?_ herror
  have hnone : d.removeFile path = none := dif_neg (by simp [Volume.fileAt, h])
  rw [h, hnone]
  rfl

theorem wp_removeDirectory_missing {path : Path} {post : Post Unit σ Volume Unit}
    (h : d.nodeAt path = none) (hdone : post.done () s d) (hsafe : Safe allow post d) :
    wp allow (removeDirectory path) post s d :=
  wp_act (by rw [h]; rfl) hdone fun _ => hsafe

theorem wp_removeDirectory {path : Path} {post : Post Unit σ Volume Unit} (hne : path ≠ [])
    (h : d.nodeAt path = some .directory) (hempty : d.Childless path)
    (hsafe : Safe allow post d)
    (hnext : ∀ d', (∀ q, d'.nodeAt q = if q = path then none else d.nodeAt q) →
      post.done () s d' ∧ Safe allow post d') :
    wp allow (removeDirectory path) post s d := by
  obtain ⟨w, hw, hget⟩ := Volume.removeDirectory_eq_some hne h hempty
  exact wp_atomically (by rw [h, hw]) (hnext w hget).1 hsafe (hnext w hget).2

theorem wp_removeDirectory_refused {path : Path} {post : Post Unit σ Volume Unit}
    (hpresent : d.nodeAt path ≠ none)
    (h : d.nodeAt path ≠ some .directory ∨ ¬d.Childless path)
    (herror : post.error () s d) : wp allow (removeDirectory path) post s d := by
  refine wp_act_refused ?_ herror
  have hnone : d.removeDirectory path = none :=
    dif_neg fun ⟨hdir, hempty⟩ => h.elim (· hdir) (· hempty)
  obtain ⟨node, hnode⟩ := Option.ne_none_iff_exists'.mp hpresent
  rw [hnode, hnone]
  rfl

theorem wp_rename {source destination : Path} {replaceExisting : Bool} {content : Content}
    {post : Post Unit σ Volume Unit} (hsource : d.fileAt source = some content)
    (hne : source ≠ destination)
    (hparent : d.nodeAt destination.dropLast = some .directory)
    (hdestination : d.nodeAt destination ≠ some .directory)
    (hreplace : d.nodeAt destination ≠ none → replaceExisting = true)
    (hsafe : Safe allow post d)
    (hnext : ∀ d', (∀ q, d'.nodeAt q = if q = source then none
        else if q = destination then some (.file content) else d.nodeAt q) →
      post.done () s d' ∧ Safe allow post d') :
    wp allow (rename source destination replaceExisting) post s d := by
  obtain ⟨w, hw, hget⟩ := Volume.moveFile_eq_some hsource hne hparent hdestination
  refine wp_atomically ?_ (hnext w hget).1 hsafe (hnext w hget).2
  rw [if_neg hne, if_neg (by rintro ⟨hd, hr⟩; simp [hreplace hd] at hr), hw]

theorem wp_directoryContainsOnly {path : Path} {names : List String}
    {post : Post Unit σ Volume Bool} (h : d.nodeAt path = some .directory)
    (hdone : post.done (decide (∀ name ∈ d.childNames path, name ∈ names)) s d)
    (hsafe : Safe allow post d) : wp allow (directoryContainsOnly path names) post s d :=
  wp_observe (if_pos h) hdone hsafe

end Rules

/-! ### The same for runs that keep a property -/

section Keeps

variable {allow : Fault → Prop} {I : Volume → Prop} {E : Unit → Prop} {s : σ} {d : Volume}

theorem keeps_stat {path : Path} {Q : UpdateFileStat → σ → Volume → Prop} (hI : I d)
    (h : Q (statOf (d.nodeAt path)) s d) : keeps allow I E (stat path) Q s d :=
  wp_stat h (safe_keeping hI)

theorem keeps_readFile {path : Path} {Q : Content → σ → Volume → Prop} (hI : I d)
    (hmissing : d.fileAt path = none → E ())
    (h : ∀ content, d.fileAt path = some content → Q content s d) :
    keeps allow I E (readFile path) Q s d := by
  cases hfile : d.fileAt path with
  | none => exact wp_readFile_missing hfile ⟨hI, Or.inl (hmissing hfile)⟩
  | some content => exact wp_readFile hfile (h content hfile) (safe_keeping hI)

theorem keeps_barrier {Q : Unit → σ → Volume → Prop} (hI : I d) (h : Q () s d) :
    keeps allow I E barrier Q s d :=
  wp_barrier h (safe_keeping hI)

theorem keeps_syncContainingDirectory {path : Path} {Q : Unit → σ → Volume → Prop} (hI : I d)
    (h : Q () s d) : keeps allow I E (syncContainingDirectory path) Q s d :=
  keeps_barrier hI h

theorem keeps_createFileFresh {path : Path} {Q : Unit → σ → Volume → Prop} (hI : I d)
    (hrefused : ¬(d.nodeAt path.dropLast = some .directory ∧ d.nodeAt path = none) → E ())
    (h : ∀ d', d.nodeAt path = none → Updates d path (some (.file [])) d' →
      I d' ∧ Q () s d') :
    keeps allow I E (createFileFresh path) Q s d := by
  by_cases hfresh : d.nodeAt path.dropLast = some .directory ∧ d.nodeAt path = none
  · refine wp_createFileFresh hfresh.1 hfresh.2 (safe_keeping hI) fun d' hget => ?_
    exact ⟨(h d' hfresh.2 hget).2, safe_keeping (h d' hfresh.2 hget).1⟩
  · exact wp_createFileFresh_refused (by rwa [not_and_or] at hfresh)
      ⟨hI, Or.inl (hrefused hfresh)⟩

theorem keeps_write {path : Path} {content : Content} {Q : Unit → σ → Volume → Prop}
    (hI : I d) (hrefused : d.fileAt path = none → E ())
    (htorn : ∀ n d', Updates d path (some (.file (content.take n))) d' → I d')
    (h : ∀ d', Updates d path (some (.file content)) d' → Q () s d') :
    keeps allow I E (write path content) Q s d := by
  cases hfile : d.fileAt path with
  | none =>
      have hnone : d.writeFile path content = none := dif_neg (by simp [hfile])
      exact wp_act_refused (by rw [hnone]; rfl) ⟨hI, Or.inl (hrefused hfile)⟩
  | some old => exact wp_write hfile h fun n d' hget => safe_keeping (htorn n d' hget)

theorem keeps_createDirectory {path : Path} {Q : Unit → σ → Volume → Prop} (hI : I d)
    (hrefused : (∃ content, d.nodeAt path = some (.file content)) ∨
      (d.nodeAt path = none ∧ d.nodeAt path.dropLast ≠ some .directory) → E ())
    (hpresent : d.nodeAt path = some .directory → Q () s d)
    (hmissing : ∀ d', d.nodeAt path = none → Updates d path (some .directory) d' →
      I d' ∧ Q () s d') :
    keeps allow I E (createDirectory path) Q s d := by
  cases hnode : d.nodeAt path with
  | none =>
      by_cases hparent : d.nodeAt path.dropLast = some .directory
      · refine wp_createDirectory_missing hparent hnode (safe_keeping hI) fun d' hget => ?_
        exact ⟨(hmissing d' hnode hget).2, safe_keeping (hmissing d' hnode hget).1⟩
      · exact wp_createDirectory_orphan hparent hnode
          ⟨hI, Or.inl (hrefused (Or.inr ⟨hnode, hparent⟩))⟩
  | some node =>
      cases node with
      | file content =>
          exact wp_createDirectory_file hnode ⟨hI, Or.inl (hrefused (Or.inl ⟨content, hnode⟩))⟩
      | directory => exact wp_createDirectory_present hnode (hpresent hnode) (safe_keeping hI)

theorem keeps_removeFile {path : Path} {Q : Unit → σ → Volume → Prop} (hI : I d)
    (hrefused : d.nodeAt path = some .directory → E ())
    (h : ∀ d', Updates d path none d' → I d' ∧ Q () s d') :
    keeps allow I E (removeFile path) Q s d := by
  cases hnode : d.nodeAt path with
  | none =>
      have hsame := h d (updates_self hnode)
      exact wp_removeFile_missing hnode hsame.2 (safe_keeping hI)
  | some node =>
      cases node with
      | file content =>
          refine wp_removeFile (Volume.fileAt_eq_some_iff.mpr hnode) (safe_keeping hI)
            fun d' hget => ?_
          exact ⟨(h d' hget).2, safe_keeping (h d' hget).1⟩
      | directory => exact wp_removeFile_directory hnode ⟨hI, Or.inl (hrefused hnode)⟩

theorem keeps_removeDirectory {path : Path} {Q : Unit → σ → Volume → Prop} (hne : path ≠ [])
    (hI : I d)
    (hrefused : (∃ content, d.nodeAt path = some (.file content)) ∨
      (d.nodeAt path = some .directory ∧ ¬d.Childless path) → E ())
    (h : ∀ d', d.nodeAt path = none ∨ d.nodeAt path = some .directory ∧ d.Childless path →
      Updates d path none d' → I d' ∧ Q () s d') :
    keeps allow I E (removeDirectory path) Q s d := by
  cases hnode : d.nodeAt path with
  | none =>
      have hsame := h d (Or.inl hnode) (updates_self hnode)
      exact wp_removeDirectory_missing hnode hsame.2 (safe_keeping hI)
  | some node =>
      cases node with
      | file content =>
          exact wp_removeDirectory_refused (by simp [hnode]) (Or.inl (by simp [hnode]))
            ⟨hI, Or.inl (hrefused (Or.inl ⟨content, hnode⟩))⟩
      | directory =>
          by_cases hempty : d.Childless path
          · refine wp_removeDirectory hne hnode hempty (safe_keeping hI) fun d' hget => ?_
            have hgone := h d' (Or.inr ⟨hnode, hempty⟩) hget
            exact ⟨hgone.2, safe_keeping hgone.1⟩
          · exact wp_removeDirectory_refused (by simp [hnode]) (Or.inr hempty)
              ⟨hI, Or.inl (hrefused (Or.inr ⟨hnode, hempty⟩))⟩

theorem keeps_directoryContainsOnly {path : Path} {names : List String}
    {Q : Bool → σ → Volume → Prop} (hI : I d)
    (hrefused : d.nodeAt path ≠ some .directory → E ())
    (h : ∀ only, (only = true → ∀ name, d.nodeAt (path ++ [name]) ≠ none → name ∈ names) →
      ((∀ name, d.nodeAt (path ++ [name]) ≠ none → name ∈ names) → only = true) → Q only s d) :
    keeps allow I E (directoryContainsOnly path names) Q s d := by
  by_cases hdirectory : d.nodeAt path = some .directory
  · refine wp_directoryContainsOnly hdirectory (h _ ?_ ?_) (safe_keeping hI)
    · intro honly name hnode
      exact of_decide_eq_true honly name (Volume.mem_childNames.mpr hnode)
    · intro hall
      exact decide_eq_true fun name hname => hall name (Volume.mem_childNames.mp hname)
  · exact wp_observe_refused (if_neg hdirectory) ⟨hI, Or.inl (hrefused hdirectory)⟩

theorem steady_removeDirectory {S : σ → σ → Prop} [FrameRel S] (path : Path) :
    Steady allow S (removeDirectory path) :=
  .act _

theorem steady_syncContainingDirectory {S : σ → σ → Prop} [FrameRel S] (path : Path) :
    Steady allow S (syncContainingDirectory path) :=
  .observe fun _ => some ()

/-- A volume after a file was moved. -/
abbrev Moves (d : Volume) (source destination : Path) (content : Content) (d' : Volume) : Prop :=
  ∀ q, d'.nodeAt q = if q = source then none
    else if q = destination then some (.file content) else d.nodeAt q

/-- What a rename needs of its destination. -/
def Receives (d : Volume) (source destination : Path) (replaceExisting : Bool) : Prop :=
  source ≠ destination ∧ d.nodeAt destination.dropLast = some .directory ∧
    d.nodeAt destination ≠ some .directory ∧
    (d.nodeAt destination ≠ none → replaceExisting = true)

theorem keeps_rename {source destination : Path} {replaceExisting : Bool}
    {Q : Unit → σ → Volume → Prop} (hI : I d)
    (hrefused : ¬((d.fileAt source).isSome ∧ Receives d source destination replaceExisting) →
      E ())
    (h : ∀ content d', d.fileAt source = some content →
      Receives d source destination replaceExisting → Moves d source destination content d' →
      I d' ∧ Q () s d') :
    keeps allow I E (rename source destination replaceExisting) Q s d := by
  by_cases hmove : (d.fileAt source).isSome ∧ Receives d source destination replaceExisting
  · obtain ⟨hsome, hreceives⟩ := hmove
    obtain ⟨content, hsource⟩ := Option.isSome_iff_exists.mp hsome
    obtain ⟨hne, hparent, hdestination, hreplace⟩ := id hreceives
    refine wp_rename hsource hne hparent hdestination hreplace (safe_keeping hI)
      fun d' hget => ?_
    have hd' := h content d' hsource hreceives hget
    exact ⟨hd'.2, safe_keeping hd'.1⟩
  · refine wp_act_refused ?_ ⟨hI, Or.inl (hrefused hmove)⟩
    by_cases hne : source = destination
    · exact if_pos hne
    rw [if_neg hne]
    by_cases hreplace : d.nodeAt destination ≠ none ∧ replaceExisting = false
    · exact if_pos hreplace
    rw [if_neg hreplace]
    have hnone : d.moveFile source destination = none := by
      unfold Volume.moveFile
      cases hsource : d.fileAt source with
      | none => rfl
      | some content =>
          refine dif_neg fun hdestination => hmove ⟨by simp [hsource], hne, hdestination.1,
            hdestination.2, fun hpresent => ?_⟩
          by_contra hfalse
          exact hreplace ⟨hpresent, by simpa using hfalse⟩
    rw [hnone]
    rfl

end Keeps

/-! ## What each call can touch -/

section Frames

variable {R : Volume → Volume → Prop} [FrameRel R] {fp : Footprint}

theorem preserves_stat (path : Path) : Preserves R (stat path : FsProc σ UpdateFileStat) :=
  Preserves.observe _

theorem preserves_readFile (path : Path) : Preserves R (readFile path : FsProc σ Content) :=
  Preserves.observe _

theorem preserves_barrier : Preserves R (barrier : FsProc σ Unit) :=
  Preserves.observe _

theorem preserves_directoryContainsOnly (path : Path) (names : List String) :
    Preserves R (directoryContainsOnly path names : FsProc σ Bool) :=
  Preserves.observe _

/-- A namespace operation stays within a footprint its volume function stays
within. -/
private theorem preserves_atomically {f : Volume → Option (Effect Volume Unit)}
    (hf : ∀ v, f v = none ∨ f v = unchanged v ∨ ∃ next, f v = atomically v next ∧
      ∀ w, next = some w → R v w) : Preserves R (Proc.act f : FsProc σ Unit) := by
  refine Preserves.act fun v effect heffect => ?_
  rcases hf v with h | h | ⟨next, h, hnext⟩
  · rw [h] at heffect
    cases heffect
  · rw [h] at heffect
    cases heffect
    exact ⟨FrameRel.refl v, fun _ => FrameRel.refl v⟩
  · rw [h] at heffect
    obtain ⟨w, hw, rfl⟩ := Option.map_eq_some_iff.mp heffect
    refine ⟨hnext w hw, fun k => ?_⟩
    by_cases hk : k = 0
    · simpa [hk] using FrameRel.refl (R := R) v
    · simpa [hk] using hnext w hw

theorem preserves_createFileFresh {path : Path} (hpath : fp.file path) :
    Preserves (Within fp) (createFileFresh path : FsProc σ Unit) := by
  refine preserves_atomically fun v => Or.inr (Or.inr ⟨_, rfl, fun w hw => ?_⟩)
  by_cases h : v.nodeAt path.dropLast = some .directory ∧ v.nodeAt path = none
  · obtain ⟨w', hw', hget⟩ := Volume.createFile_eq_some h.1 h.2
    rw [hw] at hw'
    cases hw'
    exact within_of_update hget (fun _ => hpath) (by simp) (by simp [h.2])
  · rw [Volume.createFile, dif_neg h] at hw
    cases hw

theorem preserves_write {path : Path} (hpath : fp.file path) (content : Content) :
    Preserves (Within fp) (write path content : FsProc σ Unit) := by
  have hwrite : ∀ (v w : Volume) content, v.writeFile path content = some w → Within fp v w := by
    intro v w content hw
    by_cases h : v.nodeAt path.dropLast = some .directory ∧ (v.fileAt path).isSome
    · obtain ⟨old, hold⟩ := Option.isSome_iff_exists.mp h.2
      obtain ⟨w', hw', hget⟩ := Volume.writeFile_eq_some hold content
      rw [hw] at hw'
      cases hw'
      rw [Volume.fileAt_eq_some_iff] at hold
      exact within_of_update hget (fun _ => hpath) (by simp) (by simp [hold])
    · rw [Volume.writeFile, dif_neg h] at hw
      cases hw
  refine Preserves.act fun v effect heffect => ?_
  obtain ⟨w, hw, rfl⟩ := Option.map_eq_some_iff.mp heffect
  refine ⟨hwrite v w content hw, fun k => ?_⟩
  change Within fp v ((v.writeFile path (content.take k)).getD v)
  cases htorn : v.writeFile path (content.take k) with
  | none => exact FrameRel.refl v
  | some w' => exact hwrite v w' _ htorn

theorem preserves_createDirectory {path : Path} (hpath : fp.appear path) :
    Preserves (Within fp) (createDirectory path : FsProc σ Unit) := by
  refine preserves_atomically fun v => ?_
  cases hnode : v.nodeAt path with
  | none =>
      refine Or.inr (Or.inr ⟨_, rfl, fun w hw => ?_⟩)
      by_cases h : v.nodeAt path.dropLast = some .directory
      · obtain ⟨w', hw', hget⟩ := Volume.createDirectory_eq_some h hnode
        rw [hw] at hw'
        cases hw'
        exact within_of_update hget (by simp [hnode, IsFile]) (fun _ => hpath)
          (by simp [hnode])
      · rw [Volume.createDirectory, dif_neg fun hd => h hd.1] at hw
        cases hw
  | some node =>
      cases node with
      | file content => exact Or.inl rfl
      | directory => exact Or.inr (Or.inl rfl)

theorem preserves_removeFile {path : Path} (hpath : fp.file path) :
    Preserves (Within fp) (removeFile path : FsProc σ Unit) := by
  refine preserves_atomically fun v => ?_
  cases hnode : v.nodeAt path with
  | none => exact Or.inr (Or.inl rfl)
  | some node =>
      refine Or.inr (Or.inr ⟨_, rfl, fun w hw => ?_⟩)
      by_cases h : (v.fileAt path).isSome
      · obtain ⟨old, hold⟩ := Option.isSome_iff_exists.mp h
        obtain ⟨w', hw', hget⟩ := Volume.removeFile_eq_some hold
        rw [hw] at hw'
        cases hw'
        rw [Volume.fileAt_eq_some_iff] at hold
        exact within_of_update hget (fun _ => hpath) (by simp) (by simp [hold])
      · rw [Volume.removeFile, dif_neg h] at hw
        cases hw

theorem preserves_removeDirectory {path : Path} (hpath : fp.vanish path) :
    Preserves (Within fp) (removeDirectory path : FsProc σ Unit) := by
  refine preserves_atomically fun v => ?_
  cases hnode : v.nodeAt path with
  | none => exact Or.inr (Or.inl rfl)
  | some node =>
      refine Or.inr (Or.inr ⟨_, rfl, fun w hw => ?_⟩)
      by_cases h : v.nodeAt path = some .directory ∧ v.Childless path
      · by_cases hne : path = []
        · subst hne
          rw [Volume.removeDirectory, dif_pos h] at hw
          cases hw
          intro q
          by_cases hq : q = []
          · exact Or.inl (by simp [hq])
          · refine Or.inl ?_
            rw [Volume.nodeAt_eq_lookup _ hq, Volume.nodeAt_eq_lookup _ hq]
            exact AList.lookup_erase_ne hq
        · obtain ⟨w', hw', hget⟩ := Volume.removeDirectory_eq_some hne h.1 h.2
          rw [hw] at hw'
          cases hw'
          exact within_of_update hget (by simp [h.1, IsFile]) (by simp) fun _ => hpath
      · rw [Volume.removeDirectory, dif_neg h] at hw
        cases hw

theorem preserves_rename {source destination : Path} {replaceExisting : Bool}
    (hsource : fp.file source) (hdestination : fp.file destination) :
    Preserves (Within fp) (rename source destination replaceExisting : FsProc σ Unit) := by
  refine preserves_atomically fun v => ?_
  by_cases hne : source = destination
  · exact Or.inl (if_pos hne)
  by_cases hreplace : v.nodeAt destination ≠ none ∧ replaceExisting = false
  · exact Or.inl (by rw [if_neg hne, if_pos hreplace])
  refine Or.inr (Or.inr ⟨_, by rw [if_neg hne, if_neg hreplace], fun w hw => ?_⟩)
  cases hfile : v.fileAt source with
  | none => simp [Volume.moveFile, hfile] at hw
  | some content =>
      by_cases h : v.nodeAt destination.dropLast = some .directory ∧
          v.nodeAt destination ≠ some .directory
      · obtain ⟨w', hw', hget⟩ := Volume.moveFile_eq_some hfile hne h.1 h.2
        rw [hw] at hw'
        cases hw'
        rw [Volume.fileAt_eq_some_iff] at hfile
        intro q
        rw [hget]
        by_cases hq : q = source
        · subst hq
          exact Or.inr ⟨fun _ => hsource, by simp, by simp [hfile]⟩
        · by_cases hq' : q = destination
          · subst hq'
            exact Or.inr ⟨fun _ => hdestination, by simp [hq], fun hd => absurd hd h.2⟩
          · exact Or.inl (by rw [if_neg hq, if_neg hq'])
      · simp only [Volume.moveFile, hfile, dif_neg h] at hw
        cases hw

/-! Each call leaves the private state of its caller alone. -/

variable {S : σ → σ → Prop} [FrameRel S]

theorem respects_stat (path : Path) : Respects S R (stat path : FsProc σ UpdateFileStat) :=
  ⟨preserves_stat path, fun _ => .observe _⟩

theorem respects_readFile (path : Path) : Respects S R (readFile path : FsProc σ Content) :=
  ⟨preserves_readFile path, fun _ => .observe _⟩

theorem respects_barrier : Respects S R (barrier : FsProc σ Unit) :=
  ⟨preserves_barrier, fun _ => .observe _⟩

theorem respects_syncContainingDirectory (path : Path) :
    Respects S R (syncContainingDirectory path : FsProc σ Unit) :=
  respects_barrier

theorem respects_directoryContainsOnly (path : Path) (names : List String) :
    Respects S R (directoryContainsOnly path names : FsProc σ Bool) :=
  ⟨preserves_directoryContainsOnly path names, fun _ => .observe _⟩

theorem respects_createFileFresh {path : Path} (hpath : fp.file path) :
    Respects S (Within fp) (createFileFresh path : FsProc σ Unit) :=
  ⟨preserves_createFileFresh hpath, fun _ => .act _⟩

theorem respects_write {path : Path} (hpath : fp.file path) (content : Content) :
    Respects S (Within fp) (write path content : FsProc σ Unit) :=
  ⟨preserves_write hpath content, fun _ => .act _⟩

theorem respects_createDirectory {path : Path} (hpath : fp.appear path) :
    Respects S (Within fp) (createDirectory path : FsProc σ Unit) :=
  ⟨preserves_createDirectory hpath, fun _ => .act _⟩

theorem respects_removeFile {path : Path} (hpath : fp.file path) :
    Respects S (Within fp) (removeFile path : FsProc σ Unit) :=
  ⟨preserves_removeFile hpath, fun _ => .act _⟩

theorem respects_removeDirectory {path : Path} (hpath : fp.vanish path) :
    Respects S (Within fp) (removeDirectory path : FsProc σ Unit) :=
  ⟨preserves_removeDirectory hpath, fun _ => .act _⟩

theorem respects_rename {source destination : Path} {replaceExisting : Bool}
    (hsource : fp.file source) (hdestination : fp.file destination) :
    Respects S (Within fp) (rename source destination replaceExisting : FsProc σ Unit) :=
  ⟨preserves_rename hsource hdestination, fun _ => .act _⟩

end Frames

/-! ## Looking, operation by operation -/

section Observes

variable {σ : Type} {s : σ} {v : Volume} {path : Path}

theorem observes_stat : Observes (stat path) s v [()] (statOf (v.nodeAt path)) :=
  Observes.observe (f := fun w : Volume => some (statOf (w.nodeAt path))) rfl

theorem observes_readFile {content : Content} (hfile : v.fileAt path = some content) :
    Observes (readFile path) s v [()] content :=
  Observes.observe (f := fun w : Volume => w.fileAt path) hfile

theorem observes_barrier : Observes barrier s v [()] () :=
  Observes.observe (f := fun _ : Volume => some ()) rfl

end Observes

end BmxUpdate
