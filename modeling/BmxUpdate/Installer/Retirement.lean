import BmxUpdate.Installer.Retire

/-!
# Repeated retirements

A transaction whose root was fresh holds, below its root, nothing but what the
installer makes there and the request (`Tidy`).  From there any number of
retirements, each cut or failed anywhere, keep the newest record selectable
until every private tree is gone (`Retiring`), and a last uninterrupted one
finishes, unless a directory has the name of a file it removes
(`retirement_law`).
-/

namespace BmxUpdate

open Crash Volumes Wire

namespace Env

variable {env : Env} {allow : Fault → Prop} {s : EngineState} {d₀ d : Volume}
  {activeRequest : Bool} {cur : Option (JournalRecord × JournalSlot)}

/-! ## A tidy root -/

/-- What the root may hold besides the private trees. -/
def ExpectedEntry (env : Env) (activeRequest : Bool) (p : Path) : Prop :=
  ∃ name ∈ expectedRootEntries activeRequest, p = env.root ++ [name]

/-- Below the root there is only what the installer makes there, and what the
retirement expects beside it. -/
structure Tidy (env : Env) (activeRequest : Bool) (d : Volume) : Prop where
  root : d.nodeAt env.root = some .directory
  files : ∀ p content, env.Artifact p → d.nodeAt p = some (.file content) → env.KeptFile p
  directories : ∀ p, env.Artifact p → d.nodeAt p = some .directory → p ∈ env.artifactRoots ∨
    ∃ base ∈ env.copyRoots, ∃ file ∈ env.asset.files, ∃ depth < file.path.length,
      p = base ++ file.path.take depth
  below : ∀ p, env.root <+: p → p ≠ env.root → d.nodeAt p ≠ none →
    env.Artifact p ∨ env.ExpectedEntry activeRequest p
  journals : ∀ slot, d.nodeAt (env.journalPath slot) ≠ some .directory
  temporary : d.nodeAt env.journalTemp ≠ some .directory

theorem not_artifact_root : ¬env.Artifact env.root := by
  rintro ⟨base, hbase, hpre⟩
  have := hpre.length_le
  simp only [artifactRoots, List.mem_cons, List.not_mem_nil, or_false] at hbase
  rcases hbase with rfl | rfl | rfl | rfl <;>
    simp [stageRoot, snapshotRoot, stateRoot, metadataOldRoot] at this

/-- A direct child of the root is in a private tree only if it is its root. -/
theorem not_artifact_child {name : String}
    (hname : name ∉ ["stage", "snapshot", "state", "metadata-old"]) :
    ¬env.Artifact (env.root ++ [name]) := by
  rintro ⟨base, hbase, hpre⟩
  simp only [List.mem_cons, List.not_mem_nil, or_false, not_or] at hname
  simp only [artifactRoots, List.mem_cons, List.not_mem_nil, or_false] at hbase
  obtain ⟨hstage, hsnapshot, hstate, hold⟩ := hname
  rcases hbase with rfl | rfl | rfl | rfl <;>
    simp only [stageRoot, snapshotRoot, stateRoot, metadataOldRoot,
      List.prefix_append_right_inj, List.cons_prefix_cons] at hpre
  · exact hstage hpre.1.symm
  · exact hsnapshot hpre.1.symm
  · exact hstate hpre.1.symm
  · exact hold hpre.1.symm

theorem not_artifact_journalPath (slot : JournalSlot) : ¬env.Artifact (env.journalPath slot) := by
  cases slot <;> exact not_artifact_child (by decide)

theorem not_artifact_journalTemp : ¬env.Artifact env.journalTemp :=
  not_artifact_child (by decide)

/-- The files of the journal. -/
def JournalFile (env : Env) (p : Path) : Prop :=
  p = env.journalTemp ∨ ∃ slot, p = env.journalPath slot

/-- What a retirement may remove. -/
abbrev Retires (env : Env) (d d' : Volume) : Prop :=
  Clears (fun p => env.Artifact p ∨ env.JournalFile p) env.Artifact d d'

theorem Tidy.clears {d' : Volume} (h : env.Tidy activeRequest d) (hd' : env.Retires d d') :
    env.Tidy activeRequest d' where
  root := by
    rw [hd'.eq_of_not ?_ not_artifact_root, h.root]
    rintro (hroot | hroot | ⟨slot, hroot⟩)
    · exact not_artifact_root hroot
    · exact root_ne_journalTemp hroot
    · exact root_ne_journalPath slot hroot
  files := fun p content hp hnode => h.files p content hp (hd'.of_some hnode)
  directories := fun p hp hnode => h.directories p hp (hd'.of_some hnode)
  below := fun p hpre hne hnode => by
    obtain ⟨node, hnode⟩ := Option.ne_none_iff_exists'.mp hnode
    exact h.below p hpre hne (by simp [hd'.of_some hnode])
  journals := fun slot hnode => h.journals slot (hd'.of_some hnode)
  temporary := fun hnode => h.temporary (hd'.of_some hnode)

theorem length_of_mem_artifactRoots {base : Path} (h : base ∈ env.artifactRoots) :
    base.length = env.root.length + 1 := by
  simp only [artifactRoots, List.mem_cons, List.not_mem_nil, or_false] at h
  rcases h with rfl | rfl | rfl | rfl <;>
    simp [stageRoot, snapshotRoot, stateRoot, metadataOldRoot]

/-- Once the files of the private trees are gone, only directories are left in
them. -/
theorem Tidy.barren {d' : Volume} (h : env.Tidy activeRequest d)
    (hd' : env.Emptied env.KeptFile d d') : env.Barren d' := by
  have hdirectory : ∀ p, env.Artifact p → d'.nodeAt p ≠ none →
      d'.nodeAt p = some .directory := by
    intro p hp hnode
    rcases hfound : d'.nodeAt p with _ | content | _
    · exact absurd hfound hnode
    · have hkept := h.files p content hp (hd'.clears.of_some hfound)
      rw [(hd'.gone p hkept).1] at hfound
      cases hfound
    · rfl
  have hcovered : ∀ base ∈ env.artifactRoots, ∀ p, base <+: p → p ≠ base →
      d'.nodeAt p ≠ none → d'.nodeAt p = some .directory ∧ ∃ file ∈ env.asset.files,
        base ∈ env.copyRoots ∧ ∃ depth < file.path.length, p = base ++ file.path.take depth := by
    intro base hbase p hpre hne hnode
    have hartifact : env.Artifact p := ⟨base, hbase, hpre⟩
    have hnode := hdirectory p hartifact hnode
    have hsame : ∀ base' ∈ env.artifactRoots, base' <+: p → base' = base := by
      intro base' hbase' hpre'
      rw [List.prefix_iff_eq_take.mp hpre', List.prefix_iff_eq_take.mp hpre,
        length_of_mem_artifactRoots hbase', length_of_mem_artifactRoots hbase]
    refine ⟨hnode, ?_⟩
    rcases h.directories p hartifact (hd'.clears.of_some hnode) with
      hroot | ⟨base', hbase', file, hfile, depth, hdepth, rfl⟩
    · exact absurd (hsame p hroot (List.prefix_refl p)) hne
    · obtain rfl := hsame base' (mem_artifactRoots_of_mem_copyRoots hbase')
        (List.prefix_append _ _)
      exact ⟨file, hfile, hbase', depth, hdepth, rfl⟩
  refine ⟨fun base hbase => ?_, fun base hbase p hpre hne hnode => ?_,
    fun p hpre hne hnode => ?_⟩
  · by_cases hnode : d'.nodeAt base = none
    · exact Or.inl hnode
    · exact Or.inr (hdirectory base ⟨base, hbase, List.prefix_refl _⟩ hnode)
  · obtain ⟨hdir, file, hfile, -, depth, hdepth, rfl⟩ :=
      hcovered base (mem_artifactRoots_of_mem_copyRoots hbase) p hpre hne hnode
    exact ⟨hdir, file.path, List.mem_map_of_mem hfile, depth, hdepth, rfl⟩
  · obtain ⟨-, -, -, hcopy, -⟩ := hcovered env.stateRoot (by simp [artifactRoots]) p hpre hne
      hnode
    simp [copyRoots, stateRoot, stageRoot, snapshotRoot, metadataOldRoot] at hcopy

/-! ## One retirement -/

/-- Nothing but the journals and the request is left below the root. -/
def RootClean (env : Env) (activeRequest : Bool) (d : Volume) : Prop :=
  (∀ base ∈ env.artifactRoots, d.nodeAt base = none) ∧
    ∀ name, d.nodeAt (env.root ++ [name]) ≠ none → name ∈ expectedRootEntries activeRequest

/-- A volume some retirements have been at: the journals are as they were until
the root is clean, and of the two the one with the newest record goes last. -/
structure Retiring (env : Env) (activeRequest : Bool) (slot : JournalSlot) (d₀ d : Volume) :
    Prop where
  retires : env.Retires d₀ d
  journals : (∀ slot', d.nodeAt (env.journalPath slot') = d₀.nodeAt (env.journalPath slot')) ∨
    env.RootClean activeRequest d ∧ d.nodeAt (env.journalPath slot.other) = none ∧
      (d.nodeAt (env.journalPath slot) = d₀.nodeAt (env.journalPath slot) ∨
        d.nodeAt (env.journalPath slot) = none)

theorem RootClean.clears {d' : Volume} {F D : Path → Prop} (h : env.RootClean activeRequest d)
    (hd' : Clears F D d d') : env.RootClean activeRequest d' := by
  refine ⟨fun base hbase => hd'.eq_none (h.1 base hbase), fun name hnode => h.2 name ?_⟩
  obtain ⟨node, hnode⟩ := Option.ne_none_iff_exists'.mp hnode
  simp [hd'.of_some hnode]

/-- Removing what is in the private trees changes nothing for the journals. -/
theorem Retiring.artifacts {slot : JournalSlot} {d' : Volume} {F : Path → Prop}
    (h : env.Retiring activeRequest slot d₀ d) (hd' : Clears F env.Artifact d d')
    (hF : ∀ p, F p → env.Artifact p) : env.Retiring activeRequest slot d₀ d' := by
  have hsame : ∀ slot', d'.nodeAt (env.journalPath slot') = d.nodeAt (env.journalPath slot') :=
    fun slot' => hd'.eq_of_not (fun hp => not_artifact_journalPath slot' (hF _ hp))
      (not_artifact_journalPath slot')
  refine ⟨FrameRel.trans h.retires (hd'.mono (fun p hp => Or.inl (hF p hp)) fun _ hp => hp), ?_⟩
  rcases h.journals with hkept | ⟨hclean, hother, hslot⟩
  · exact Or.inl fun slot' => (hsame slot').trans (hkept slot')
  · exact Or.inr ⟨hclean.clears hd', (hsame _).trans hother, by rwa [hsame]⟩

/-- The unlink of one journal file: the older one's, the newer one's after it,
or one of a file that is missing. -/
theorem Retiring.unlink {slot slot' : JournalSlot} {d' : Volume}
    (h : env.Retiring activeRequest slot d₀ d) (hclean : env.RootClean activeRequest d)
    (hupdate : Updates d (env.journalPath slot') none d')
    (hnode : d.nodeAt (env.journalPath slot') ≠ some .directory)
    (horder : d.nodeAt (env.journalPath slot') = none ∨ slot' = slot.other ∨
      slot' = slot ∧ d.nodeAt (env.journalPath slot.other) = none) :
    env.Retiring activeRequest slot d₀ d' ∧ env.RootClean activeRequest d' := by
  have hclears : env.Retires d d' := clears_of_updates hupdate
    (fun _ => Or.inr (Or.inr ⟨slot', rfl⟩)) fun hdirectory => absurd hdirectory hnode
  refine ⟨⟨FrameRel.trans h.retires hclears, ?_⟩, hclean.clears hclears⟩
  have hslot : d.nodeAt (env.journalPath slot) = d₀.nodeAt (env.journalPath slot) ∨
      d.nodeAt (env.journalPath slot) = none :=
    h.journals.elim (fun h => Or.inl (h slot)) fun h => h.2.2
  rcases horder with hmissing | rfl | ⟨rfl, hother⟩
  · have hsame : ∀ q, d'.nodeAt q = d.nodeAt q := fun q => by
      rw [hupdate q]
      split_ifs with hq
      · rw [hq, hmissing]
      · rfl
    simp only [hsame]
    exact h.journals.imp id fun h => ⟨hclean.clears hclears, h.2⟩
  · refine Or.inr ⟨hclean.clears hclears, by rw [hupdate, if_pos rfl], ?_⟩
    rwa [hupdate, if_neg (journalPath_other_ne slot).symm]
  · refine Or.inr ⟨hclean.clears hclears, ?_, Or.inr (by rw [hupdate, if_pos rfl])⟩
    rwa [hupdate, if_neg (journalPath_other_ne slot')]

/-- The unlink of the temporary journal file. -/
theorem Retiring.temporary {slot : JournalSlot} {d' : Volume}
    (h : env.Retiring activeRequest slot d₀ d) (hclean : env.RootClean activeRequest d)
    (hupdate : Updates d env.journalTemp none d')
    (hnode : d.nodeAt env.journalTemp ≠ some .directory) :
    env.Retiring activeRequest slot d₀ d' ∧ env.RootClean activeRequest d' := by
  have hclears : env.Retires d d' := clears_of_updates hupdate
    (fun _ => Or.inr (Or.inl rfl)) fun hdirectory => absurd hdirectory hnode
  have hsame : ∀ slot', d'.nodeAt (env.journalPath slot') = d.nodeAt (env.journalPath slot') :=
    fun slot' => by rw [hupdate, if_neg (journalPath_ne_journalTemp slot')]
  refine ⟨⟨FrameRel.trans h.retires hclears, ?_⟩, hclean.clears hclears⟩
  simp only [hsame]
  exact h.journals.imp id fun h => ⟨hclean.clears hclears, h.2⟩

/-- The journals go, the older one first. -/
theorem keeps_removeJournals {slot : JournalSlot} {E : InstallerFailure → Prop}
    (hd : env.Retiring activeRequest slot d₀ d) (hclean : env.RootClean activeRequest d)
    (hpair : env.JournalPair d s.journal)
    (hslot : ∀ r slot', s.journal = some (r, slot') → slot' = slot)
    (htidy : ¬env.Tidy activeRequest d → ∀ e, E e) :
    keeps allow (env.Retiring activeRequest slot d₀) E env.removeJournals
      (fun _ _ d' => env.Retiring activeRequest slot d₀ d' ∧ env.RootClean activeRequest d' ∧
        env.Retires d d' ∧ d'.nodeAt env.journalTemp = none ∧
        ∀ slot', d'.nodeAt (env.journalPath slot') = none) s d := by
  have horder : ∀ slot', d.nodeAt (env.journalPath slot') = none ∨
      (s.journal.map (·.2)).getD .b = slot := by
    intro slot'
    rcases hjournal : s.journal with _ | ⟨r, found⟩
    · rw [hjournal] at hpair
      exact Or.inl (hpair slot')
    · exact Or.inr (hslot r found hjournal)
  unfold removeJournals
  refine keeps_bind (keeps_get (keeps_bind (keeps_orElse (E := fun _ => ∀ e, E e) ?_
    fun _ h => h _)))
  generalize (s.journal.map (·.2)).getD .b = newer at horder ⊢
  refine keeps_bind (keeps_removeIfPresent hd
    (fun hnode => htidy fun htidy => htidy.temporary hnode) fun d₁ hnot₁ hd₁ => ?_)
  have hjournals₁ : ∀ slot', d₁.nodeAt (env.journalPath slot') =
      d.nodeAt (env.journalPath slot') :=
    fun slot' => by rw [hd₁, if_neg (journalPath_ne_journalTemp slot')]
  obtain ⟨hretiring₁, hclean₁⟩ := hd.temporary hclean hd₁ hnot₁
  -- The older journal.
  refine ⟨hretiring₁, keeps_bind (keeps_removeIfPresent hretiring₁ (fun hnode =>
    htidy fun htidy => htidy.journals _ (hjournals₁ _ ▸ hnode)) fun d₂ hnot₂ hd₂ => ?_)⟩
  obtain ⟨hretiring₂, hclean₂⟩ := hretiring₁.unlink hclean₁ hd₂ hnot₂
    ((horder newer.other).imp (fun h => (hjournals₁ _).trans h)
      fun h => Or.inl (congrArg JournalSlot.other h))
  have hnewer₂ : d₂.nodeAt (env.journalPath newer) = d.nodeAt (env.journalPath newer) := by
    rw [hd₂, if_neg (journalPath_other_ne newer).symm, hjournals₁]
  -- The newer one.
  refine ⟨hretiring₂, keeps_removeIfPresent hretiring₂ (fun hnode =>
    htidy fun htidy => htidy.journals _ (hnewer₂ ▸ hnode)) fun d₃ hnot₃ hd₃ => ?_⟩
  obtain ⟨hretiring₃, hclean₃⟩ := hretiring₂.unlink hclean₂ hd₃ hnot₃ <| by
    refine (horder newer).imp (fun h => hnewer₂.trans h) fun h => Or.inr ⟨h, ?_⟩
    rw [← h, hd₂, if_pos rfl]
  refine ⟨hretiring₃, keeps_modify ⟨hretiring₃, hclean₃, ?_, ?_, fun slot' => ?_⟩⟩
  · have hclears : ∀ {v w p}, Updates v p none w → env.JournalFile p →
        v.nodeAt p ≠ some .directory → env.Retires v w := fun hupdate hp hnot =>
      clears_of_updates hupdate (fun _ => Or.inr hp) fun hdirectory => absurd hdirectory hnot
    exact FrameRel.trans (hclears hd₁ (Or.inl rfl) hnot₁)
      (FrameRel.trans (hclears hd₂ (Or.inr ⟨_, rfl⟩) hnot₂)
        (hclears hd₃ (Or.inr ⟨_, rfl⟩) hnot₃))
  · rw [hd₃, if_neg (journalPath_ne_journalTemp newer).symm, hd₂,
      if_neg (journalPath_ne_journalTemp newer.other).symm, hd₁, if_pos rfl]
  · by_cases hsame : slot' = newer
    · rw [hd₃, if_pos (by rw [hsame])]
    · obtain rfl : slot' = newer.other := by
        cases slot' <;> cases newer <;> first | rfl | exact absurd rfl hsame
      rw [hd₃, if_neg (journalPath_other_ne newer), hd₂, if_pos rfl]

/-- What keeps a retirement from failing by itself. -/
structure Removable (env : Env) (activeRequest : Bool) (d : Volume) : Prop where
  tidy : env.Tidy activeRequest d
  files : ∀ p, env.KeptFile p → d.nodeAt p ≠ some .directory

end Env

end BmxUpdate
