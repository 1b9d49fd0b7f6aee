import BmxUpdate.RequestStore.Basic

/-!
# What the store's helpers do

A file the store writes fresh appears at its name complete or not at all:
`Fresh` relates the volumes before and after such a write, whatever its faults.
A removal takes files away and nothing else, which `Clears` says.
-/

namespace BmxUpdate

open Crash Volumes Wire RequestStore

/-! ## Names -/

section Names

variable {root p : Path} {file other : StoreFile} {a b : String}

@[simp] theorem joined_inj : joined root a = joined root b ↔ a = b := by
  simp [joined]

@[simp] theorem length_joined : (joined root a).length = root.length + 1 := by
  simp [joined]

@[simp] theorem dropLast_joined : (joined root a).dropLast = root.map String.toLower := by
  simp [joined]

theorem joined_ne_nil : joined root a ≠ [] := by
  simp [joined]

@[simp] theorem partOf_joined : partOf (joined root a) = joined root (a ++ ".part") := by
  simp [partOf, joined]

theorem fileName_injective (h : file.fileName = other.fileName) : file = other := by
  revert h
  rcases file with name | payload <;> rcases other with name' | payload' <;>
    first
    | (cases name <;> cases name' <;> decide)
    | (cases name <;> cases payload' <;> decide)
    | (cases payload <;> cases name' <;> decide)
    | (cases payload <;> cases payload' <;> decide)

theorem part_ne_fileName : file.fileName ++ ".part" ≠ other.fileName := by
  rcases file with name | payload <;> rcases other with name' | payload' <;>
    first
    | (cases name <;> cases name' <;> decide)
    | (cases name <;> cases payload' <;> decide)
    | (cases payload <;> cases name' <;> decide)
    | (cases payload <;> cases payload' <;> decide)

theorem filePath_ne (hne : file ≠ other) : filePath root file ≠ filePath root other :=
  fun h => hne (fileName_injective (joined_inj.mp h))

theorem partOf_ne_filePath : partOf (filePath root file) ≠ filePath root other := by
  rw [partOf_joined, ne_eq, joined_inj]
  exact part_ne_fileName

/-- A file of the store is above no other. -/
theorem not_mem_properAncestors : joined root b ∉ properAncestors (joined root a) := by
  intro h
  obtain ⟨-, habove, hne⟩ := mem_properAncestors.mp h
  exact hne (habove.eq_of_length (by simp))

end Names

/-! ## Steps that change nothing -/

section Unchanged

variable {ε : Type} {allow : Fault → Prop} {I : Volume → Prop} {d : Volume} {path : Path} {e : ε}

/-- A `Stat` fails at injected faults only. -/
theorem keeps_statOr {E : ε → Prop} {Q : UpdateFileStat → Unit → Volume → Prop} (hI : I d)
    (h : Q (statOf (d.nodeAt path)) () d) : keeps allow I E (Proc.orElse e (stat path)) Q () d :=
  keeps_orElse (E := noError) (keeps_stat hI h) fun _ h => h.elim

theorem keeps_barrierOr {E : ε → Prop} {Q : Unit → Unit → Volume → Prop} (hI : I d)
    (h : Q () () d) : keeps allow I E (Proc.orElse e barrier) Q () d :=
  keeps_orElse (E := noError) (keeps_barrier hI h) fun _ h => h.elim

theorem keeps_syncOr {E : ε → Prop} {Q : Unit → Unit → Volume → Prop} (hI : I d)
    (h : Q () () d) : keeps allow I E (Proc.orElse e (syncContainingDirectory path)) Q () d :=
  keeps_barrierOr hI h

theorem keeps_look {E : StoreFailure → Prop} {Q : UpdateFileStat → Unit → Volume → Prop}
    (hI : I d) (h : Q (statOf (d.nodeAt path)) () d) : keeps allow I E (look path) Q () d :=
  keeps_statOr hI h

theorem keeps_report {E : StoreFailure → Prop} {Q : Unit → Unit → Volume → Prop} (hI : I d)
    (h : Q () () d) : keeps allow I E report Q () d :=
  keeps_barrierOr hI h

end Unchanged

/-! ## Fresh files -/

/-- What a fresh write of a file can change: the file appears with its content
where nothing was, its temporary comes and goes, and the directories above it
may be created. -/
structure Fresh (root : Path) (file : StoreFile) (content : Content) (v w : Volume) : Prop where
  here : w.nodeAt (filePath root file) = v.nodeAt (filePath root file) ∨
    v.nodeAt (filePath root file) = none ∧ w.nodeAt (filePath root file) = some (.file content)
  part : w.nodeAt (partOf (filePath root file)) = some .directory →
    v.nodeAt (partOf (filePath root file)) = some .directory
  elsewhere : ∀ p, p ≠ filePath root file → p ≠ partOf (filePath root file) →
    p ∉ properAncestors (filePath root file) → w.nodeAt p = v.nodeAt p

section Fresh

variable {root : Path} {file other : StoreFile} {content : Content} {v w x : Volume}

instance : FrameRel (Fresh root file content) where
  refl _ := ⟨Or.inl rfl, id, fun _ _ _ _ => rfl⟩
  trans := by
    intro u v w huv hvw
    refine ⟨?_, fun h => huv.part (hvw.part h), fun p hfile hpart hancestor =>
      (hvw.elsewhere p hfile hpart hancestor).trans (huv.elsewhere p hfile hpart hancestor)⟩
    rcases hvw.here with hsame | ⟨hnone, hcontent⟩
    · rw [hsame]
      exact huv.here
    · rcases huv.here with hsame | ⟨-, hpresent⟩
      · exact Or.inr ⟨hsame ▸ hnone, hcontent⟩
      · rw [hpresent] at hnone
        cases hnone

/-- A fresh write leaves the other files alone. -/
theorem Fresh.other_eq (h : Fresh root file content v w) (hne : other ≠ file) :
    w.nodeAt (filePath root other) = v.nodeAt (filePath root other) :=
  h.elsewhere _ (filePath_ne hne) (Ne.symm partOf_ne_filePath) not_mem_properAncestors

/-- A fresh write puts no directory at a name of the store. -/
theorem Fresh.not_directory (h : Fresh root file content v w)
    (hv : v.nodeAt (filePath root other) ≠ some .directory) :
    w.nodeAt (filePath root other) ≠ some .directory := by
  by_cases hother : other = file
  · subst hother
    rcases h.here with hsame | ⟨-, hnew⟩
    · rw [hsame]
      exact hv
    · rw [hnew]
      exact nofun
  · rw [h.other_eq hother]
    exact hv

/-- Nor at the temporary of one. -/
theorem Fresh.part_not_directory (h : Fresh root file content v w)
    (hv : v.nodeAt (partOf (filePath root other)) ≠ some .directory) :
    w.nodeAt (partOf (filePath root other)) ≠ some .directory := by
  by_cases hother : other = file
  · subst hother
    exact fun hdirectory => hv (h.part hdirectory)
  · rw [h.elsewhere]
    · exact hv
    · exact partOf_ne_filePath
    · rw [partOf_joined, partOf_joined, ne_eq, joined_inj, String.append_left_inj]
      exact fun heq => hother (fileName_injective heq)
    · rw [partOf_joined]
      exact not_mem_properAncestors

/-- A change of the temporary that does not make it a directory. -/
theorem Fresh.update_part {node : Option Node} (h : Fresh root file content v w)
    (hupdate : Updates w (partOf (filePath root file)) node x) (hnode : node ≠ some .directory) :
    Fresh root file content v x := by
  have hhere : x.nodeAt (filePath root file) = w.nodeAt (filePath root file) := by
    rw [hupdate, if_neg (Ne.symm partOf_ne_filePath)]
  refine FrameRel.trans h ⟨Or.inl hhere, ?_, ?_⟩
  · rw [hupdate, if_pos rfl]
    exact fun hdirectory => absurd hdirectory hnode
  · intro p _ hpart _
    rw [hupdate, if_neg hpart]

/-- A directory that appears above the file. -/
theorem Fresh.update_ancestor {p : Path} (h : Fresh root file content v w)
    (hupdate : Updates w p (some .directory) x)
    (hp : p ∈ properAncestors (filePath root file)) : Fresh root file content v x := by
  have hpart : partOf (filePath root file) ≠ p := by
    rintro rfl
    rw [partOf_joined] at hp
    exact not_mem_properAncestors hp
  have hfile : filePath root file ≠ p := by
    rintro rfl
    exact not_mem_properAncestors hp
  refine FrameRel.trans h ⟨Or.inl ?_, ?_, ?_⟩
  · rw [hupdate, if_neg hfile]
  · rw [hupdate, if_neg hpart]
    exact id
  · intro q _ _ hancestor
    rw [hupdate, if_neg (by rintro rfl; exact hancestor hp)]

end Fresh

/-! ## Verified files -/

/-- A file of the given size and digest is there. -/
def UpdateTransactionRequestStore.Verified (store : UpdateTransactionRequestStore) (v : Volume)
    (path : Path) (size : Nat) (hash : Digest) : Prop :=
  ∃ content, v.fileAt path = some content ∧ content.length = size ∧ store.sha256 content = hash

section Steps

variable {store : UpdateTransactionRequestStore} {allow : Fault → Prop} {I : Volume → Prop}
  {d d₀ : Volume} {root path : Path} {file : StoreFile} {content : Content} {size : Nat}
  {hash : Digest}

/-- `VerifyFile` changes nothing, returns for a verified file only, and is
`NotFound` for a missing one only. -/
theorem wp_verifyFile :
    wp allow (store.verifyFile path size hash)
      ⟨fun _ _ d' => d' = d ∧ store.Verified d path size hash,
        fun e _ d' => d' = d ∧ (e = .notFound → d.nodeAt path = none),
        fun d' => d' = d ∧ MayCut allow⟩ () d := by
  have hsafe : ∀ e : StoreFailure, e ≠ .notFound → d = d ∧ (e = .notFound → d.nodeAt path = none) :=
    fun e he => ⟨rfl, fun h => absurd h he⟩
  refine wp_bind (wp_check (fun _ => ?_) fun _ => hsafe _ (by decide))
  refine wp_bind (wp_orElse (wp_stat ?_ ⟨fun hcut => ⟨rfl, hcut⟩, fun _ _ _ => hsafe _ nofun⟩))
  refine wp_bind (wp_check (fun hpresent => ?_) fun hmissing =>
    ⟨rfl, fun _ => by simpa using hmissing⟩)
  refine wp_bind (wp_check (fun hregular => ?_) fun _ => hsafe _ (by decide))
  obtain ⟨content, hnode⟩ := statOf_type_eq_regularFile.mp hregular.1
  have hfile : d.fileAt path = some content := Volume.fileAt_eq_some_iff.mpr hnode
  refine wp_bind (wp_orElse (wp_readFile hfile ?_ ⟨fun hcut => ⟨rfl, hcut⟩,
    fun _ _ _ => hsafe _ nofun⟩))
  refine wp_check (fun hhash => ⟨rfl, content, hfile, ?_, hhash⟩) fun _ => hsafe _ (by decide)
  rw [hnode] at hregular
  exact hregular.2

/-- The same, for a program that keeps a property. -/
theorem keeps_verifyFile {Q : Unit → Unit → Volume → Prop} (hI : I d)
    (h : store.Verified d path size hash → Q () () d) :
    keeps allow I anyError (store.verifyFile path size hash) Q () d := by
  refine wp_mono wp_verifyFile ?_ ?_ ?_
  · rintro _ _ _ ⟨rfl, hverified⟩
    exact h hverified
  · rintro _ _ _ ⟨rfl, -⟩
    exact ⟨hI, Or.inl trivial⟩
  · rintro _ ⟨rfl, hcut⟩
    exact ⟨hI, hcut⟩

theorem keeps_ensureParents (hd : Fresh root file content d₀ d)
    (hmissing : d.nodeAt (filePath root file) = none) {E : Unit → Prop}
    {Q : Unit → Unit → Volume → Prop} (hE : E ())
    (h : ∀ d', Fresh root file content d₀ d' → d'.nodeAt (filePath root file) = none →
      Q () () d') :
    keeps allow (Fresh root file content d₀) E (RequestStore.ensureParents (filePath root file)) Q
      () d := by
  refine keeps_forIndexed
    (fun _ _ d' => Fresh root file content d₀ d' ∧ d'.nodeAt (filePath root file) = none)
    ?_ ⟨hd, hmissing⟩ fun s' d' h' => h d' h'.1 h'.2
  rintro j ancestor s' d' hancestor ⟨hfresh, hnone⟩
  have hmem : ancestor ∈ properAncestors (filePath root file) := List.mem_of_getElem? hancestor
  refine keeps_bind (keeps_createDirectory hfresh (fun _ => hE) (fun _ => ?_) fun d'' _ hupdate => ?_)
  · exact keeps_syncContainingDirectory hfresh ⟨hfresh, hnone⟩
  · have hfresh' := hfresh.update_ancestor hupdate hmem
    have hne : filePath root file ≠ ancestor := by
      rintro rfl
      exact not_mem_properAncestors hmem
    exact ⟨hfresh', keeps_syncContainingDirectory hfresh'
      ⟨hfresh', by rw [hupdate, if_neg hne, hnone]⟩⟩

/-- The new file is moved to its name only with all of its content. -/
theorem keeps_publishFresh (hd : Fresh root file content d₀ d)
    (hmissing : d.nodeAt (filePath root file) = none) {E : Unit → Prop}
    {Q : Unit → Unit → Volume → Prop} (hE : E ())
    (h : ∀ d', Fresh root file content d₀ d' → Q () () d') :
    keeps allow (Fresh root file content d₀) E
      (UpdateTransactionRequestStore.publishFresh (filePath root file) content) Q () d := by
  have hne : filePath root file ≠ partOf (filePath root file) := Ne.symm partOf_ne_filePath
  refine keeps_bind (keeps_write hd (fun _ => hE) (fun n d' hupdate =>
    hd.update_part hupdate nofun) fun d₁ hupdate₁ => ?_)
  have hd₁ := hd.update_part hupdate₁ nofun
  refine keeps_bind (keeps_barrier hd₁ (keeps_bind (keeps_barrier hd₁ ?_)))
  refine keeps_bind (keeps_rename hd₁ (fun _ => hE) fun content' d₂ hsource _ hmoves => ?_)
  have hcontent : content' = content := by
    rw [Volume.fileAt_eq_some_iff, hupdate₁, if_pos rfl] at hsource
    simpa using hsource.symm
  subst hcontent
  have hd₂ : Fresh root file content' d₀ d₂ := by
    refine FrameRel.trans hd₁ ⟨Or.inr ⟨?_, ?_⟩, ?_, ?_⟩
    · rw [hupdate₁, if_neg hne, hmissing]
    · rw [hmoves, if_neg hne, if_pos rfl]
    · rw [hmoves, if_pos rfl]
      exact nofun
    · intro p hfile hpart _
      rw [hmoves, if_neg hpart, if_neg hfile]
  exact ⟨hd₂, keeps_syncContainingDirectory hd₂ (h d₂ hd₂)⟩

theorem keeps_writeFresh (hd : Fresh root file content d₀ d)
    (hmissing : d.nodeAt (filePath root file) = none) {Q : Unit → Unit → Volume → Prop}
    (h : ∀ d', Fresh root file content d₀ d' →
      store.Verified d' (filePath root file) content.length hash → Q () () d') :
    keeps allow (Fresh root file content d₀) anyError
      (store.writeFresh root file.fileName content hash) Q () d := by
  have hne : filePath root file ≠ partOf (filePath root file) := Ne.symm partOf_ne_filePath
  refine keeps_bind (keeps_check (fun _ => ⟨hd, trivial⟩) fun _ => ?_)
  refine keeps_bind (keeps_orElse (E := anyError) (keeps_ensureParents hd hmissing trivial
    fun d₁ hd₁ hmissing₁ => ?_) fun _ _ => trivial)
  refine keeps_bind (keeps_orElse (E := anyError) (keeps_removeFile hd₁ (fun _ => trivial)
    fun d₂ hupdate₂ => ?_) fun _ _ => trivial)
  have hd₂ := hd₁.update_part hupdate₂ nofun
  refine ⟨hd₂, keeps_bind (keeps_orElse (E := anyError) (keeps_createFileFresh hd₂
    (fun _ => trivial) fun d₃ _ hupdate₃ => ?_) fun _ _ => trivial)⟩
  have hd₃ := hd₂.update_part hupdate₃ nofun
  have hmissing₃ : d₃.nodeAt (filePath root file) = none := by
    rw [hupdate₃, if_neg hne, hupdate₂, if_neg hne, hmissing₁]
  refine ⟨hd₃, keeps_bind (keeps_orElse (E := anyError) (keeps_withCleanup
    (keeps_publishFresh hd₃ hmissing₃ trivial fun d₄ hd₄ => ?_) fun s' d' hd' => ?_)
    fun _ _ => trivial)⟩
  · exact keeps_verifyFile hd₄ (h d₄ hd₄)
  · refine keeps_removeFile hd' (fun _ => trivial) fun d'' hupdate => ?_
    exact ⟨hd'.update_part hupdate nofun, hd'.update_part hupdate nofun⟩

/-- A file the store wants there is verified or written fresh. -/
theorem keeps_writeFreshVerified (file : StoreFile) (content : Content)
    (hd : Fresh root file content d₀ d) {Q : Unit → Unit → Volume → Prop}
    (h : ∀ d', Fresh root file content d₀ d' →
      store.Verified d' (filePath root file) content.length hash → Q () () d') :
    keeps allow (Fresh root file content d₀) anyError
      (store.writeFreshVerified root file.fileName content hash) Q () d := by
  refine keeps_bind (wp_attempt (wp_mono wp_verifyFile ?_ ?_ ?_))
  · rintro _ _ _ ⟨rfl, hverified⟩
    exact keeps_syncOr hd (h _ hd hverified)
  · rintro e _ _ ⟨rfl, hmissing⟩
    cases e with
    | notFound => exact keeps_writeFresh hd (hmissing rfl) h
    | _ => exact keeps_throw hd trivial
  · rintro _ ⟨rfl, hcut⟩
    exact ⟨hd, hcut⟩

/-- A file is removed, and nothing else changes. -/
theorem keeps_removeSynced {E : StoreFailure → Prop} {Q : Unit → Unit → Volume → Prop} (hI : I d)
    (hrefused : d.nodeAt path = some .directory → E .fileSystemError)
    (h : ∀ d', Updates d path none d' → I d' ∧ Q () () d') :
    keeps allow I E (removeSynced path) Q () d := by
  refine keeps_bind (keeps_orElse (E := fun _ => E .fileSystemError)
    (keeps_removeFile hI hrefused fun d' hupdate => ?_) fun _ h => h)
  have hd' := h d' hupdate
  exact ⟨hd'.1, keeps_syncOr hd'.1 hd'.2⟩

end Steps

end BmxUpdate
