import Mathlib.Data.List.AList
import Mathlib.Data.List.Induction
import BmxUpdate.Library.Crash

/-!
# Volumes of files and directories

A volume maps paths to files and directories.  A path lists the names from the
root down, and the root itself is the empty path.  `Volume` carries the proof
that the parent of every node is a directory, so a file never has anything
below it and a directory that is not there has no contents.

`nodeAt` is the only observation the lemmas speak of: each operation says what
`nodeAt` gives afterwards at its own path, and that nothing else changes.
-/

namespace Volumes

/-- The names from the root down to a node. -/
abbrev Path := List String

/-- The content of a file. -/
abbrev Content := List UInt8

inductive Node where
  | file (content : Content)
  | directory
deriving DecidableEq

/-- The node `nodes` records at a path; the root is always a directory. -/
def lookupNode (nodes : AList fun _ : Path => Node) (p : Path) : Option Node :=
  if p = [] then some .directory else nodes.lookup p

/-- A volume: finitely many nodes, each below a directory. -/
structure Volume where
  nodes : AList fun _ : Path => Node
  parents : ∀ p, p ≠ [] → lookupNode nodes p ≠ none →
    lookupNode nodes p.dropLast = some .directory

namespace Volume

/-- The node at a path. -/
def nodeAt (v : Volume) (p : Path) : Option Node := lookupNode v.nodes p

/-- The content of the file at a path, if there is a file. -/
def fileAt (v : Volume) (p : Path) : Option Content :=
  match v.nodeAt p with
  | some (.file content) => some content
  | _ => none

/-- The volume that has only its root. -/
def empty : Volume where
  nodes := ∅
  parents := by
    intro p hp h
    simp [lookupNode, hp] at h

/-- Nothing lies directly below a path. -/
def Childless (v : Volume) (p : Path) : Prop :=
  ∀ q ∈ v.nodes.keys, q.dropLast = p → q = []

instance (v : Volume) (p : Path) : Decidable (v.Childless p) :=
  inferInstanceAs (Decidable (∀ q ∈ v.nodes.keys, q.dropLast = p → q = []))

/-- The names directly below a path. -/
def childNames (v : Volume) (p : Path) : List String :=
  v.nodes.keys.filterMap fun q =>
    if q.dropLast = p then q.getLast? else none

@[simp] theorem nodeAt_root (v : Volume) : v.nodeAt [] = some .directory := rfl

theorem nodeAt_eq_lookup (v : Volume) {p : Path} (hp : p ≠ []) :
    v.nodeAt p = v.nodes.lookup p := by
  simp [nodeAt, lookupNode, hp]

theorem nodeAt_dropLast (v : Volume) {p : Path} (hp : p ≠ []) (h : v.nodeAt p ≠ none) :
    v.nodeAt p.dropLast = some .directory :=
  v.parents p hp h

/-- Everything above a node is a directory. -/
theorem nodeAt_of_isPrefix (v : Volume) {p q : Path} (hpre : p <+: q) (hne : p ≠ q)
    (h : v.nodeAt q ≠ none) : v.nodeAt p = some .directory := by
  induction q using List.reverseRecOn with
  | nil => exact absurd (List.prefix_nil.mp hpre) hne
  | append_singleton front last ih =>
      have hfront : v.nodeAt front = some .directory := by
        have hparent := v.nodeAt_dropLast (p := front ++ [last]) (by simp) h
        rwa [List.dropLast_concat] at hparent
      have hle : p <+: front := by
        rcases List.prefix_concat_iff.mp hpre with rfl | hle
        · exact absurd rfl hne
        · exact hle
      by_cases hp : p = front
      · rw [hp, hfront]
      · exact ih hle hp (by simp [hfront])

theorem fileAt_eq_some_iff {v : Volume} {p : Path} {content : Content} :
    v.fileAt p = some content ↔ v.nodeAt p = some (.file content) := by
  unfold fileAt
  cases v.nodeAt p with
  | none => simp
  | some node => cases node <;> simp

theorem childless_iff {v : Volume} {p : Path} :
    v.Childless p ↔ ∀ name, v.nodeAt (p ++ [name]) = none := by
  constructor
  · intro h name
    by_contra hne
    have hmem : p ++ [name] ∈ v.nodes.keys := by
      rw [nodeAt_eq_lookup v (by simp)] at hne
      rw [← AList.mem_keys]
      by_contra hmem
      exact hne (AList.lookup_eq_none.mpr hmem)
    have := h _ hmem (by simp)
    simp at this
  · intro h q hq hparent
    by_contra hne
    have hlast : q = p ++ [q.getLast hne] := by
      rw [← hparent, List.dropLast_append_getLast]
    have hnone := h (q.getLast hne)
    rw [← hlast, nodeAt_eq_lookup v hne, AList.lookup_eq_none] at hnone
    exact hnone (AList.mem_keys.mpr hq)

/-- A path that is no directory has nothing below it. -/
theorem mem_childNames {v : Volume} {p : Path} {name : String} :
    name ∈ v.childNames p ↔ v.nodeAt (p ++ [name]) ≠ none := by
  have hkeys : p ++ [name] ∈ v.nodes.keys ↔ v.nodeAt (p ++ [name]) ≠ none := by
    rw [nodeAt_eq_lookup v (by simp), ne_eq, AList.lookup_eq_none, not_not, AList.mem_keys]
  rw [← hkeys]
  unfold childNames
  rw [List.mem_filterMap]
  constructor
  · rintro ⟨q, hq, hname⟩
    split_ifs at hname with hparent
    obtain ⟨front, rfl⟩ : ∃ front, q = front ++ [name] := by
      cases q using List.reverseRecOn with
      | nil => simp at hname
      | append_singleton front last =>
          rw [List.getLast?_concat] at hname
          exact ⟨front, by rw [Option.some.inj hname]⟩
    rw [List.dropLast_concat] at hparent
    rwa [← hparent]
  · intro hmem
    exact ⟨p ++ [name], hmem, by simp⟩

theorem childless_of_not_directory {v : Volume} {p : Path}
    (h : v.nodeAt p ≠ some .directory) : v.Childless p := by
  rw [childless_iff]
  intro name
  by_contra hne
  have hparent := v.nodeAt_dropLast (p := p ++ [name]) (by simp) hne
  rw [List.dropLast_concat] at hparent
  exact h hparent

/-! ## Changing one node -/

/-- Put a node at a path whose parent is a directory.  A directory may be
replaced by a directory only, so nothing below the path loses its parent. -/
def put (v : Volume) (p : Path) (node : Node)
    (hparent : v.nodeAt p.dropLast = some .directory)
    (hbelow : node = .directory ∨ v.nodeAt p ≠ some .directory) : Volume where
  nodes := v.nodes.insert p node
  parents := by
    have hget : ∀ q, q ≠ [] → lookupNode (v.nodes.insert p node) q =
        if q = p then some node else v.nodeAt q := by
      intro q hq
      by_cases hqp : q = p
      · subst hqp
        simp [lookupNode, hq]
      · simp [lookupNode, hq, hqp, AList.lookup_insert_ne hqp, nodeAt_eq_lookup]
    intro q hq hne
    have hroot : q.dropLast = [] → lookupNode (v.nodes.insert p node) q.dropLast =
        some .directory := by
      intro h
      simp [h, lookupNode]
    by_cases hnil : q.dropLast = []
    · exact hroot hnil
    rw [hget _ hnil]
    rw [hget _ hq] at hne
    by_cases hqp : q = p
    · subst hqp
      have hne_parent : q.dropLast ≠ q := by
        intro heq
        have := congrArg List.length heq
        simp at this
        have := List.length_pos_iff.mpr hq
        omega
      rw [if_neg hne_parent]
      exact hparent
    rw [if_neg hqp] at hne
    have hdir := v.nodeAt_dropLast hq hne
    by_cases hqp' : q.dropLast = p
    · rw [if_pos hqp']
      rcases hbelow with rfl | hbelow
      · rfl
      · rw [hqp'] at hdir
        exact absurd hdir hbelow
    · rw [if_neg hqp']
      exact hdir

@[simp] theorem nodeAt_put (v : Volume) {p : Path} (hp : p ≠ []) (node : Node) (hparent hbelow)
    (q : Path) : (v.put p node hparent hbelow).nodeAt q = if q = p then some node else v.nodeAt q := by
  by_cases hq : q = []
  · subst hq
    simp [Ne.symm hp]
  by_cases hqp : q = p
  · subst hqp
    rw [nodeAt_eq_lookup _ hq]
    simp [put]
  · rw [nodeAt_eq_lookup _ hq, if_neg hqp, nodeAt_eq_lookup _ hq]
    exact AList.lookup_insert_ne hqp

/-- Remove a node that has nothing below it. -/
def drop (v : Volume) (p : Path) (hbelow : v.Childless p) : Volume where
  nodes := v.nodes.erase p
  parents := by
    have hget : ∀ q, q ≠ [] → q ≠ p → lookupNode (v.nodes.erase p) q = v.nodeAt q := by
      intro q hq hqp
      simp [lookupNode, hq, AList.lookup_erase_ne hqp, nodeAt_eq_lookup]
    intro q hq hne
    have hqp : q ≠ p := by
      rintro rfl
      simp [lookupNode, hq] at hne
    rw [hget q hq hqp] at hne
    have hdir := v.nodeAt_dropLast hq hne
    by_cases hnil : q.dropLast = []
    · simp [hnil, lookupNode]
    rw [hget _ hnil, hdir]
    rintro rfl
    have hnone := childless_iff.mp hbelow (q.getLast hq)
    rw [List.dropLast_append_getLast] at hnone
    exact hne hnone

@[simp] theorem nodeAt_drop (v : Volume) {p : Path} (hp : p ≠ []) (hbelow : v.Childless p)
    (q : Path) : (v.drop p hbelow).nodeAt q = if q = p then none else v.nodeAt q := by
  by_cases hq : q = []
  · subst hq
    simp [Ne.symm hp]
  by_cases hqp : q = p
  · subst hqp
    rw [nodeAt_eq_lookup _ hq]
    simp [drop]
  · rw [nodeAt_eq_lookup _ hq, if_neg hqp, nodeAt_eq_lookup _ hq]
    exact AList.lookup_erase_ne hqp

/-! ## Operations -/

/-- A new empty file: nothing may be there yet. -/
def createFile (v : Volume) (p : Path) : Option Volume :=
  if h : v.nodeAt p.dropLast = some .directory ∧ v.nodeAt p = none then
    some (v.put p (.file []) h.1 (Or.inr (by simp [h.2])))
  else none

/-- Set the content of a file. -/
def writeFile (v : Volume) (p : Path) (content : Content) : Option Volume :=
  if h : v.nodeAt p.dropLast = some .directory ∧ (v.fileAt p).isSome then
    some (v.put p (.file content) h.1 (Or.inr (by
      obtain ⟨old, hold⟩ := Option.isSome_iff_exists.mp h.2
      rw [fileAt_eq_some_iff] at hold
      simp [hold])))
  else none

/-- A new directory. -/
def createDirectory (v : Volume) (p : Path) : Option Volume :=
  if h : v.nodeAt p.dropLast = some .directory ∧ v.nodeAt p = none then
    some (v.put p .directory h.1 (Or.inl rfl))
  else none

/-- Remove a file. -/
def removeFile (v : Volume) (p : Path) : Option Volume :=
  if h : (v.fileAt p).isSome then
    some (v.drop p (childless_of_not_directory (by
      obtain ⟨old, hold⟩ := Option.isSome_iff_exists.mp h
      rw [fileAt_eq_some_iff] at hold
      simp [hold])))
  else none

/-- Remove an empty directory. -/
def removeDirectory (v : Volume) (p : Path) : Option Volume :=
  if h : v.nodeAt p = some .directory ∧ v.Childless p then some (v.drop p h.2) else none

/-- Move a file to a path where there is no directory, over the file that may
be there. -/
def moveFile (v : Volume) (source destination : Path) : Option Volume :=
  match v.fileAt source with
  | none => none
  | some content =>
      if h : v.nodeAt destination.dropLast = some .directory ∧
          v.nodeAt destination ≠ some .directory then
        (v.put destination (.file content) h.1 (Or.inr h.2)).removeFile source
      else none

/-- A file node is a file, and is found below a directory. -/
theorem nodeAt_dropLast_of_fileAt {v : Volume} {p : Path} {content : Content}
    (h : v.fileAt p = some content) :
    p ≠ [] ∧ v.nodeAt p.dropLast = some .directory := by
  rw [fileAt_eq_some_iff] at h
  have hp : p ≠ [] := by
    rintro rfl
    simp at h
  exact ⟨hp, v.nodeAt_dropLast hp (by simp [h])⟩

theorem createFile_eq_some {v : Volume} {p : Path} (hparent : v.nodeAt p.dropLast = some .directory)
    (hp : v.nodeAt p = none) :
    ∃ w, v.createFile p = some w ∧
      ∀ q, w.nodeAt q = if q = p then some (.file []) else v.nodeAt q := by
  have hne : p ≠ [] := by
    rintro rfl
    simp at hp
  refine ⟨_, dif_pos ⟨hparent, hp⟩, fun q => ?_⟩
  simp [hne]

theorem writeFile_eq_some {v : Volume} {p : Path} {old : Content} (h : v.fileAt p = some old)
    (content : Content) :
    ∃ w, v.writeFile p content = some w ∧
      ∀ q, w.nodeAt q = if q = p then some (.file content) else v.nodeAt q := by
  obtain ⟨hne, hparent⟩ := nodeAt_dropLast_of_fileAt h
  refine ⟨_, dif_pos ⟨hparent, by simp [h]⟩, fun q => ?_⟩
  simp [hne]

theorem createDirectory_eq_some {v : Volume} {p : Path}
    (hparent : v.nodeAt p.dropLast = some .directory) (hp : v.nodeAt p = none) :
    ∃ w, v.createDirectory p = some w ∧
      ∀ q, w.nodeAt q = if q = p then some .directory else v.nodeAt q := by
  have hne : p ≠ [] := by
    rintro rfl
    simp at hp
  refine ⟨_, dif_pos ⟨hparent, hp⟩, fun q => ?_⟩
  simp [hne]

theorem removeFile_eq_some {v : Volume} {p : Path} {old : Content} (h : v.fileAt p = some old) :
    ∃ w, v.removeFile p = some w ∧
      ∀ q, w.nodeAt q = if q = p then none else v.nodeAt q := by
  obtain ⟨hne, -⟩ := nodeAt_dropLast_of_fileAt h
  refine ⟨_, dif_pos (by simp [h]), fun q => ?_⟩
  simp [hne]

theorem removeDirectory_eq_some {v : Volume} {p : Path} (hne : p ≠ [])
    (h : v.nodeAt p = some .directory) (hbelow : v.Childless p) :
    ∃ w, v.removeDirectory p = some w ∧
      ∀ q, w.nodeAt q = if q = p then none else v.nodeAt q := by
  refine ⟨_, dif_pos ⟨h, hbelow⟩, fun q => ?_⟩
  simp [hne]

theorem moveFile_eq_some {v : Volume} {source destination : Path} {content : Content}
    (hsource : v.fileAt source = some content) (hne : source ≠ destination)
    (hparent : v.nodeAt destination.dropLast = some .directory)
    (hdestination : v.nodeAt destination ≠ some .directory) :
    ∃ w, v.moveFile source destination = some w ∧
      ∀ q, w.nodeAt q =
        if q = source then none else if q = destination then some (.file content)
        else v.nodeAt q := by
  have hdst : destination ≠ [] := by
    rintro rfl
    simp at hdestination
  have hput : (v.put destination (.file content) hparent (Or.inr hdestination)).fileAt source =
      some content := by
    rw [fileAt_eq_some_iff] at hsource ⊢
    simp [hdst, hne, hsource]
  obtain ⟨w, hw, hget⟩ := removeFile_eq_some hput
  refine ⟨w, ?_, fun q => ?_⟩
  · unfold moveFile
    rw [hsource]
    simp only [dif_pos (And.intro hparent hdestination)]
    exact hw
  · rw [hget, nodeAt_put _ hdst]

end Volume

/-- The second volume is the first with another node at one path. -/
abbrev Updates (v : Volume) (p : Path) (node : Option Node) (w : Volume) : Prop :=
  ∀ q, w.nodeAt q = if q = p then node else v.nodeAt q

theorem updates_self {v : Volume} {p : Path} {node : Option Node} (h : v.nodeAt p = node) :
    Updates v p node v := by
  intro q
  split_ifs with hq
  · rw [hq, h]
  · rfl

/-! ## Frames -/

/-- Nothing outside `F` differs between two volumes. -/
def AgreeOff (F : Path → Prop) (v w : Volume) : Prop :=
  ∀ p, ¬F p → w.nodeAt p = v.nodeAt p

instance (F : Path → Prop) : Crash.FrameRel (AgreeOff F) where
  refl := fun _ _ _ => rfl
  trans := fun hab hbc p hp => (hbc p hp).trans (hab p hp)

/-- A node that is a file. -/
def IsFile : Option Node → Prop
  | some (.file _) => True
  | _ => False

/-- The paths a program may change, by what it may do to them: where files may
come, change and go, where directories may come, and where they may go. -/
structure Footprint where
  file : Path → Prop
  appear : Path → Prop
  vanish : Path → Prop

/-- The second volume differs from the first only as the footprint says. -/
def Within (fp : Footprint) (v w : Volume) : Prop :=
  ∀ p, w.nodeAt p = v.nodeAt p ∨
    ((IsFile (v.nodeAt p) ∨ IsFile (w.nodeAt p) → fp.file p) ∧
      (w.nodeAt p = some .directory → fp.appear p) ∧
      (v.nodeAt p = some .directory → fp.vanish p))

instance (fp : Footprint) : Crash.FrameRel (Within fp) where
  refl := fun _ _ => Or.inl rfl
  trans := by
    intro a b c hab hbc p
    rcases hab p with hab | ⟨hfile, happear, hvanish⟩
    · rw [← hab]
      exact hbc p
    rcases hbc p with hbc | ⟨hfile', happear', -⟩
    · rw [hbc]
      exact Or.inr ⟨hfile, happear, hvanish⟩
    · exact Or.inr ⟨fun h => h.elim (fun h => hfile (Or.inl h)) fun h => hfile' (Or.inr h),
        happear', hvanish⟩

/-- Outside all three parts of its footprint a program changes nothing. -/
theorem Within.nodeAt_eq {fp : Footprint} {v w : Volume} (h : Within fp v w) {p : Path}
    (hfile : ¬fp.file p) (happear : ¬fp.appear p) (hvanish : ¬fp.vanish p) :
    w.nodeAt p = v.nodeAt p := by
  rcases h p with h | ⟨hf, ha, hv⟩
  · exact h
  cases hb : w.nodeAt p with
  | none =>
      cases hn : v.nodeAt p with
      | none => rfl
      | some node =>
          cases node with
          | file content => exact absurd (hf (Or.inl (by simp [hn, IsFile]))) hfile
          | directory => exact absurd (hv hn) hvanish
  | some node =>
      cases node with
      | file content => exact absurd (hf (Or.inr (by simp [hb, IsFile]))) hfile
      | directory => exact absurd (ha hb) happear

/-- What is there stays where a program neither writes nor removes. -/
theorem Within.nodeAt_eq_of_ne_none {fp : Footprint} {v w : Volume} (h : Within fp v w) {p : Path}
    (hfile : ¬fp.file p) (hvanish : ¬fp.vanish p) (hnode : v.nodeAt p ≠ none) :
    w.nodeAt p = v.nodeAt p := by
  rcases h p with h | ⟨hf, -, hv⟩
  · exact h
  cases hn : v.nodeAt p with
  | none => exact absurd hn hnode
  | some node =>
      cases node with
      | file content => exact absurd (hf (Or.inl (by simp [hn, IsFile]))) hfile
      | directory => exact absurd (hv hn) hvanish

theorem Within.mono {fp fp' : Footprint} {v w : Volume} (h : Within fp v w)
    (hfile : ∀ p, fp.file p → fp'.file p) (happear : ∀ p, fp.appear p → fp'.appear p)
    (hvanish : ∀ p, fp.vanish p → fp'.vanish p) : Within fp' v w := fun p =>
  (h p).imp id fun h => ⟨fun hf => hfile p (h.1 hf), fun ha => happear p (h.2.1 ha),
    fun hv => hvanish p (h.2.2 hv)⟩

/-- A change of one node. -/
theorem within_of_update {fp : Footprint} {v w : Volume} {p : Path} {node : Option Node}
    (hget : ∀ q, w.nodeAt q = if q = p then node else v.nodeAt q)
    (hfile : IsFile (v.nodeAt p) ∨ IsFile node → fp.file p)
    (happear : node = some .directory → fp.appear p)
    (hvanish : v.nodeAt p = some .directory → fp.vanish p) : Within fp v w := by
  intro q
  by_cases hq : q = p
  · subst hq
    simp only [hget, if_pos]
    exact Or.inr ⟨hfile, happear, hvanish⟩
  · exact Or.inl (by rw [hget, if_neg hq])

/-- The second volume lacks some of the first's files at `F` and some of its
directories at `D`, and is the same otherwise. -/
def Clears (F D : Path → Prop) (v w : Volume) : Prop :=
  ∀ p, w.nodeAt p = v.nodeAt p ∨
    w.nodeAt p = none ∧ (IsFile (v.nodeAt p) ∧ F p ∨ v.nodeAt p = some .directory ∧ D p)

instance (F D : Path → Prop) : Crash.FrameRel (Clears F D) where
  refl := fun _ _ => Or.inl rfl
  trans := by
    intro a b c hab hbc p
    rcases hab p with hab | ⟨hnone, hcleared⟩
    · rw [← hab]
      exact hbc p
    · refine Or.inr ⟨?_, hcleared⟩
      rcases hbc p with hbc | ⟨hbc, -⟩
      · rw [hbc, hnone]
      · exact hbc

theorem Clears.mono {F F' D D' : Path → Prop} {v w : Volume} (h : Clears F D v w)
    (hfile : ∀ p, F p → F' p) (hdirectory : ∀ p, D p → D' p) : Clears F' D' v w := fun p =>
  (h p).imp id (And.imp id (Or.imp (And.imp id (hfile p)) (And.imp id (hdirectory p))))

theorem Clears.eq_none {F D : Path → Prop} {v w : Volume} (h : Clears F D v w) {p : Path}
    (hp : v.nodeAt p = none) : w.nodeAt p = none :=
  (h p).elim (fun h => h.trans hp) And.left

/-- Whatever is left is as it was. -/
theorem Clears.of_some {F D : Path → Prop} {v w : Volume} (h : Clears F D v w) {p : Path}
    {node : Node} (hp : w.nodeAt p = some node) : v.nodeAt p = some node := by
  rcases h p with hsame | ⟨hnone, -⟩
  · rw [← hsame, hp]
  · rw [hnone] at hp
    cases hp

theorem Clears.eq_of_not {F D : Path → Prop} {v w : Volume} (h : Clears F D v w) {p : Path}
    (hfile : ¬F p) (hdirectory : ¬D p) : w.nodeAt p = v.nodeAt p :=
  (h p).elim id fun h => (h.2.elim (fun h => hfile h.2) fun h => hdirectory h.2).elim

theorem clears_of_updates {F D : Path → Prop} {v w : Volume} {p : Path}
    (h : Updates v p none w) (hfile : IsFile (v.nodeAt p) → F p)
    (hdirectory : v.nodeAt p = some .directory → D p) : Clears F D v w := by
  intro q
  rw [h q]
  split_ifs with hq
  · subst hq
    rcases hnode : v.nodeAt q with _ | _ | _
    · exact Or.inl rfl
    · exact Or.inr ⟨rfl, Or.inl ⟨trivial, hfile (by rw [hnode]; trivial)⟩⟩
    · exact Or.inr ⟨rfl, Or.inr ⟨rfl, hdirectory hnode⟩⟩
  · exact Or.inl rfl

end Volumes
