import BmxUpdate.Installer.LiveFrame
import BmxUpdate.Installer.NewestRecord
import BmxUpdate.Installer.RetireCall

/-!
# The law of retirement

A transaction starts on a root that holds its request only (`Fresh`).  Whatever
calls then run, cut or failed anywhere, the root stays tidy, and so the
transaction can be retired: after any number of retirements that are themselves
cut or failed, the newest record is the same as long as there is one, it goes
only when all else has gone, and a last retirement leaves what was there before
the transaction (`retirement_law`).
-/

namespace BmxUpdate

open Crash Volumes Wire

namespace Env

variable {env : Env} {owned : Path → Prop} {activeRequest : Bool} {u v v' w : Volume}
  {slot : JournalSlot} {r : JournalRecord} {c : Call}

/-! ## The root of a transaction -/

/-- The root holds nothing but the files of the request. -/
def Fresh (env : Env) (u : Volume) : Prop :=
  ∀ p, env.root <+: p → p ≠ env.root → u.nodeAt p ≠ none →
    env.RequestFile true p ∧ u.nodeAt p ≠ some .directory

/-- The record of the request: while it is active, and once it is committed. -/
def RecordFile (env : Env) (p : Path) : Prop :=
  p = env.root ++ ["request-state.bin"] ∨ p = env.root ++ ["committed-state.bin"]

/-- Between the transaction and its retirement nothing but the request's record
has changed, and that is a file with the name the retirement expects. -/
structure RecordMoved (env : Env) (activeRequest : Bool) (v v' : Volume) : Prop where
  agree : AgreeOff env.RecordFile v v'
  expected : ∀ p, env.RecordFile p → v'.nodeAt p ≠ none →
    env.ExpectedEntry activeRequest p ∧ v'.nodeAt p ≠ some .directory

/-- No manifest path, and no temporary of one, lies above another manifest file. -/
def Unclashing (env : Env) : Prop :=
  ∀ file ∈ env.asset.files, ∀ other ∈ env.asset.files, ∀ p, WithTemporaries file.path p →
    p <+: other.path → p = other.path

/-- The directories of the private trees. -/
def PrivateDirectory (env : Env) (p : Path) : Prop :=
  p ∈ env.artifactRoots ∨ ∃ base ∈ env.copyRoots, ∃ file ∈ env.asset.files,
    ∃ depth < file.path.length, p = base ++ file.path.take depth

theorem PrivateDirectory.artifact {p : Path} (h : env.PrivateDirectory p) : env.Artifact p := by
  rcases h with hroot | ⟨base, hbase, file, -, depth, -, rfl⟩
  · exact ⟨p, hroot, List.prefix_refl p⟩
  · exact ⟨base, mem_artifactRoots_of_mem_copyRoots hbase, List.prefix_append _ _⟩

theorem JournalFile.expected {p : Path} (h : env.JournalFile p) :
    env.ExpectedEntry activeRequest p := by
  rcases h with rfl | ⟨slot, rfl⟩
  · exact ⟨"journal.tmp", by cases activeRequest <;> decide, rfl⟩
  · cases slot with
    | a => exact ⟨"journal.a", by cases activeRequest <;> decide, rfl⟩
    | b => exact ⟨"journal.b", by cases activeRequest <;> decide, rfl⟩

/-- But for its record the request has the same files before and after. -/
theorem ExpectedEntry.of_not_record {p : Path} (h : env.ExpectedEntry true p)
    (hrecord : ¬env.RecordFile p) : env.ExpectedEntry activeRequest p := by
  obtain ⟨name, hname, rfl⟩ := h
  refine ⟨name, ?_, rfl⟩
  simp only [expectedRootEntries, if_true, List.mem_cons] at hname ⊢
  rcases hname with rfl | hname
  · exact absurd (Or.inl rfl) hrecord
  · exact Or.inr hname

/-- Below the root the installer makes its own files only. -/
theorem FilePlace.below {restores : Prop} {p : Path} (happart : env.Apart)
    (h : env.FilePlace restores p)
    (hroot : env.root <+: p) (hne : p ≠ env.root) : env.KeptFile p ∨ env.JournalFile p := by
  cases h with
  | kept h hp => exact Or.inl ⟨_, h, hp⟩
  | journal slot => exact Or.inr (Or.inr ⟨slot, rfl⟩)
  | journalTemp => exact Or.inr (Or.inl rfl)
  | live h => exact absurd hroot (happart.apart _ (Or.inl ⟨_, h, rfl⟩))
  | @rollback file _ _ h _ hp =>
      -- A temporary lies in the directory of its live file.
      have hparent : p.dropLast = file.path.dropLast := by
        rcases hp with rfl | rfl
        · exact dropLast_addSuffix _ _
        · simp
      obtain ⟨rest, rfl⟩ := hroot
      have hrest : rest ≠ [] := by
        rintro rfl
        exact hne (List.append_nil _)
      rw [List.dropLast_append_of_ne_nil hrest] at hparent
      refine absurd ?_ (happart.apart _ (Or.inl ⟨file, h, rfl⟩))
      have hpre : env.root <+: file.path.dropLast := by
        rw [← hparent]
        exact List.prefix_append _ _
      exact hpre.trans (List.dropLast_prefix _)

/-- The directories above a private file are private. -/
theorem PrivateFile.ancestor {file p : Path} (h : env.PrivateFile file)
    (hp : p ∈ properAncestors file) (hroot : env.root <+: p) (hne : p ≠ env.root) :
    env.PrivateDirectory p := by
  obtain ⟨-, hpre, hproper⟩ := mem_properAncestors.mp hp
  have hlonger : env.root.length + 1 ≤ p.length := by
    have hle := hroot.length_le
    by_contra hshort
    exact hne (hroot.eq_of_length (by omega)).symm
  have hbelow : ∀ {base rest}, base ∈ env.artifactRoots → file = base ++ rest →
      p = base ++ rest.take (p.length - base.length) ∧ p.length - base.length < rest.length := by
    intro base rest hbase hfile
    have hlength := length_of_mem_artifactRoots hbase
    rw [hfile] at hpre hproper
    have hlt : p.length < (base ++ rest).length := by
      refine Nat.lt_of_le_of_ne hpre.length_le fun hsame => hproper (hpre.eq_of_length hsame)
    rw [List.length_append] at hlt
    refine ⟨?_, by omega⟩
    conv_lhs => rw [List.prefix_iff_eq_take.mp hpre]
    rw [List.take_append, List.take_of_length_le (by omega)]
  have hcopy : ∀ {base : Path} {live : ManifestFile}, base ∈ env.copyRoots →
      live ∈ env.asset.files → file = base ++ live.path → env.PrivateDirectory p := by
    intro base live hbase hlive hfile
    obtain ⟨hp, hlt⟩ := hbelow (mem_artifactRoots_of_mem_copyRoots hbase) hfile
    exact Or.inr ⟨base, hbase, live, hlive, _, hlt, hp⟩
  have hstate : ∀ name : String, file = env.stateRoot ++ [name] → env.PrivateDirectory p := by
    intro name hfile
    have hbase : env.stateRoot ∈ env.artifactRoots := by simp [artifactRoots]
    obtain ⟨hp, hlt⟩ := hbelow hbase hfile
    have hzero : p.length - env.stateRoot.length = 0 := by
      simpa using Nat.lt_one_iff.mp hlt
    rw [hzero, List.take_zero, List.append_nil] at hp
    exact Or.inl (by simp [hp, artifactRoots])
  cases h with
  | staged h => exact hcopy (by simp [copyRoots]) h rfl
  | snapshot h => exact hcopy (by simp [copyRoots]) h rfl
  | metadataOld h => exact hcopy (by simp [copyRoots]) h rfl
  | fileMarker _ => exact hstate _ rfl
  | directoryMarker _ => exact hstate _ rfl
  | evidence _ => exact hstate _ rfl
  | plan _ => exact hstate _ rfl

/-- Below the root the installer makes private directories only. -/
theorem DirectoryPlace.below {p : Path} (happart : env.Apart) (h : env.DirectoryPlace p)
    (hroot : env.root <+: p) (hne : p ≠ env.root) : env.PrivateDirectory p := by
  have hprivate : ∀ {q}, q ∈ env.privateRoots → q ≠ env.root → q ∈ env.artifactRoots := by
    intro q hq hq'
    simp only [privateRoots, artifactRoots, List.mem_cons, List.not_mem_nil, or_false] at hq ⊢
    exact hq.resolve_left hq'
  cases h with
  | privateRoot h => exact Or.inl (hprivate h hne)
  | directory h => exact absurd hroot (happart.apart _ (Or.inr ⟨_, h, rfl⟩))
  | @parent target _ h hp =>
      obtain ⟨-, hpre, hproper⟩ := mem_properAncestors.mp hp
      cases h with
      | privateRoot h =>
          -- Above a private root there is no room below the root.
          have hlength : target.length ≤ env.root.length + 1 := by
            simp only [privateRoots, List.mem_cons, List.not_mem_nil, or_false] at h
            rcases h with rfl | rfl | rfl | rfl | rfl <;>
              simp [stageRoot, snapshotRoot, stateRoot, metadataOldRoot]
          have hlt : p.length < target.length :=
            Nat.lt_of_le_of_ne hpre.length_le fun hsame => hproper (hpre.eq_of_length hsame)
          have hle := hroot.length_le
          exact absurd (hroot.eq_of_length (by omega)).symm hne
      | directory h => exact absurd (hroot.trans hpre) (happart.apart _ (Or.inr ⟨_, h, rfl⟩))
      | live h => exact absurd (hroot.trans hpre) (happart.apart _ (Or.inl ⟨_, h, rfl⟩))
      | kept h => exact h.ancestor hp hroot hne

theorem WithTemporaries.append {base file p : Path} (hfile : file ≠ [])
    (h : WithTemporaries (base ++ file) p) : ∃ q, WithTemporaries file q ∧ p = base ++ q := by
  obtain ⟨front, last, rfl⟩ := List.eq_nil_or_concat file |>.resolve_left hfile
  rcases h with rfl | rfl | rfl
  · exact ⟨_, Or.inl rfl, rfl⟩
  · exact ⟨_, Or.inr (Or.inl rfl), by simp [List.concat_eq_append, ← List.append_assoc]⟩
  · exact ⟨_, Or.inr (Or.inr rfl), by simp [List.concat_eq_append, ← List.append_assoc]⟩

theorem WithTemporaries.length {file p : Path} (h : WithTemporaries file p) :
    p.length = file.length := by
  rcases List.eq_nil_or_concat file with rfl | ⟨front, last, rfl⟩ <;>
    rcases h with rfl | rfl | rfl <;> simp [addSuffix]

/-- A file to be removed has no name of a private directory. -/
theorem PrivateFile.not_directory {file p : Path} (h : env.PrivateFile file)
    (hunclashing : env.Unclashing) (hpaths : env.NonemptyPaths) (hp : WithTemporaries file p) :
    ¬env.PrivateDirectory p := by
  have hsplit : ∀ {base rest : Path}, base ∈ env.artifactRoots → rest ≠ [] →
      file = base ++ rest → env.PrivateDirectory p → base ∈ env.copyRoots ∧
        ∃ q, WithTemporaries rest q ∧ ∃ other ∈ env.asset.files, ∃ depth < other.path.length,
          q = other.path.take depth := by
    rintro base rest hbase hrest rfl hdirectory
    obtain ⟨q, hq, rfl⟩ := WithTemporaries.append hrest hp
    have hlength := length_of_mem_artifactRoots hbase
    have hpos : 0 < q.length := (WithTemporaries.length hq) ▸ List.length_pos_iff.mpr hrest
    rcases hdirectory with hroot | ⟨base', hbase', other, hother, depth, hdepth, heq⟩
    · have hlength' := length_of_mem_artifactRoots hroot
      rw [List.length_append] at hlength'
      omega
    · have hlength' := length_of_mem_artifactRoots (mem_artifactRoots_of_mem_copyRoots hbase')
      obtain ⟨rfl, rfl⟩ := List.append_inj heq (hlength.trans hlength'.symm)
      exact ⟨hbase', _, hq, other, hother, depth, hdepth, rfl⟩
  have hcopy : ∀ {base : Path} {live : ManifestFile}, base ∈ env.artifactRoots →
      live ∈ env.asset.files → file = base ++ live.path → ¬env.PrivateDirectory p := by
    intro base live hbase hlive hfile hdirectory
    obtain ⟨-, q, hq, other, hother, depth, hdepth, rfl⟩ :=
      hsplit hbase (hpaths live hlive) hfile hdirectory
    have hsame := hunclashing live hlive other hother _ hq (List.take_prefix _ _)
    have hlength := congrArg List.length hsame
    rw [List.length_take] at hlength
    omega
  have hstate : ∀ name : String, file = env.stateRoot ++ [name] → ¬env.PrivateDirectory p := by
    intro name hfile hdirectory
    have hbase : env.stateRoot ∈ env.artifactRoots := by simp [artifactRoots]
    obtain ⟨hroot, -⟩ := hsplit hbase (List.cons_ne_nil name []) hfile hdirectory
    simp [copyRoots, stateRoot, stageRoot, snapshotRoot, metadataOldRoot] at hroot
  cases h with
  | staged h => exact hcopy (by simp [artifactRoots]) h rfl
  | snapshot h => exact hcopy (by simp [artifactRoots]) h rfl
  | metadataOld h => exact hcopy (by simp [artifactRoots]) h rfl
  | fileMarker _ => exact hstate _ rfl
  | directoryMarker _ => exact hstate _ rfl
  | evidence _ => exact hstate _ rfl
  | plan _ => exact hstate _ rfl

/-! ## Tidy roots -/

section Reached

variable (happart : env.Apart) (howned : ∀ p, owned p → ¬env.root <+: p)
  (hfresh : env.Fresh u) (hwithin : Within (env.footprint owned True) u v)

include happart howned hfresh hwithin

/-- Below the root a run leaves the request's files, its own, and its
directories. -/
theorem node_below {p : Path} {node : Node} (hroot : env.root <+: p) (hne : p ≠ env.root)
    (hnode : v.nodeAt p = some node) :
    (node ≠ .directory → env.RequestFile true p ∨ env.KeptFile p ∨ env.JournalFile p) ∧
      (node = .directory → env.PrivateDirectory p) := by
  rcases hwithin p with hsame | ⟨hfiles, happears, -⟩
  · rw [hsame] at hnode
    obtain ⟨hrequest, hfile⟩ := hfresh p hroot hne (by simp [hnode])
    exact ⟨fun _ => Or.inl hrequest, fun h => absurd (h ▸ hnode) hfile⟩
  · refine ⟨fun hfile => ?_, fun hdirectory => ?_⟩
    · cases node with
      | directory => exact absurd rfl hfile
      | file content =>
          rcases hfiles (Or.inr (by rw [hnode]; trivial)) with h | h
          · exact absurd hroot (howned p h)
          · exact Or.inr (h.below happart hroot hne)
    · rcases happears (hdirectory ▸ hnode) with h | h
      · exact absurd hroot (howned p h)
      · exact h.below happart hroot hne

theorem tidy_of_run (hmoved : env.RecordMoved activeRequest v v')
    (hdirectory : v'.nodeAt env.root = some .directory) : env.Tidy activeRequest v' := by
  have hbelow := fun {p : Path} {node : Node} (hroot : env.root <+: p) (hne : p ≠ env.root)
    (hnode : v.nodeAt p = some node) => node_below happart howned hfresh hwithin hroot hne hnode
  have hunmoved : ∀ {p}, ¬env.RecordFile p → v'.nodeAt p = v.nodeAt p :=
    fun hp => hmoved.agree _ hp
  have hartifact : ∀ {p}, env.Artifact p → env.root <+: p ∧ p ≠ env.root ∧ ¬env.RecordFile p := by
    intro p hp
    obtain ⟨hroot, hne⟩ := hp.below
    refine ⟨hroot, hne, ?_⟩
    rintro (rfl | rfl)
    · exact not_artifact_child (by decide) hp
    · exact not_artifact_child (by decide) hp
  have hjournal : ∀ {p}, env.JournalFile p → v'.nodeAt p ≠ some .directory := by
    intro p hp hnode
    obtain ⟨hroot, hne⟩ := hp.below
    have hrecord : ¬env.RecordFile p := by
      rcases hp with rfl | ⟨slot, rfl⟩
      · simp [RecordFile, journalTemp]
      · cases slot <;> simp [RecordFile, journalPath]
    rw [hunmoved hrecord] at hnode
    have hprivate := ((hbelow hroot hne hnode).2 rfl).artifact
    rcases hp with rfl | ⟨slot, rfl⟩
    · exact not_artifact_journalTemp hprivate
    · exact not_artifact_journalPath slot hprivate
  refine ⟨hdirectory, ?_, ?_, ?_, fun slot => hjournal (Or.inr ⟨slot, rfl⟩),
    hjournal (Or.inl rfl)⟩
  · intro p content hp hnode
    obtain ⟨hroot, hne, hrecord⟩ := hartifact hp
    rw [hunmoved hrecord] at hnode
    rcases (hbelow hroot hne hnode).1 (fun h => by cases h) with hrequest | hkept | hfile
    · exact absurd hp (not_artifact_expected hrequest.1)
    · exact hkept
    · have hexpected : env.ExpectedEntry true p := hfile.expected
      exact absurd hp (not_artifact_expected hexpected)
  · intro p hp hnode
    obtain ⟨hroot, hne, hrecord⟩ := hartifact hp
    rw [hunmoved hrecord] at hnode
    exact (hbelow hroot hne hnode).2 rfl
  · intro p hroot hne hnode
    by_cases hrecord : env.RecordFile p
    · exact Or.inr (hmoved.expected p hrecord hnode).1
    rw [hunmoved hrecord] at hnode
    obtain ⟨node, hnode⟩ := Option.ne_none_iff_exists'.mp hnode
    by_cases hdirectory : node = .directory
    · exact Or.inl ((hbelow hroot hne hnode).2 hdirectory).artifact
    rcases (hbelow hroot hne hnode).1 hdirectory with hrequest | ⟨file, hfile, hp⟩ | hfile
    · exact Or.inr (hrequest.1.of_not_record hrecord)
    · exact Or.inl (hfile.artifact_temporaries happart.nonempty hp)
    · exact Or.inr hfile.expected

/-- No directory of a run has the name of a file to be removed. -/
theorem removable_of_run (hunclashing : env.Unclashing)
    (hmoved : env.RecordMoved activeRequest v v')
    (hdirectory : v'.nodeAt env.root = some .directory) : env.Removable activeRequest v' := by
  have htidy := tidy_of_run happart howned hfresh hwithin hmoved hdirectory
  refine ⟨htidy, ?_⟩
  rintro p ⟨file, hfile, hp⟩ hnode
  exact hfile.not_directory hunclashing happart.nonempty hp
    (htidy.directories p (hfile.artifact_temporaries happart.nonempty hp) hnode)

/-- The record that a rollback leaves has moved nowhere. -/
theorem recordMoved_self : env.RecordMoved true v v := by
  refine ⟨fun _ _ => rfl, fun p hrecord hnode => ?_⟩
  have hnot : ¬env.Artifact p ∧ ¬env.JournalFile p := by
    rcases hrecord with rfl | rfl <;> refine ⟨not_artifact_child (by decide), ?_⟩ <;>
      rintro (h | ⟨slot, h⟩) <;> first | (cases slot <;> simp [journalPath] at h) |
        simp [journalTemp] at h
  have hbelow : env.root <+: p ∧ p ≠ env.root := by
    rcases hrecord with rfl | rfl <;> exact ⟨List.prefix_append _ _, by simp⟩
  obtain ⟨node, hnode⟩ := Option.ne_none_iff_exists'.mp hnode
  obtain ⟨hfile, hdirectory⟩ := node_below happart howned hfresh hwithin hbelow.1 hbelow.2 hnode
  have hnode' : node ≠ .directory := fun h => hnot.1 (hdirectory h).artifact
  refine ⟨?_, fun h => hnode' (Option.some.inj (hnode.symm.trans h))⟩
  rcases hfile hnode' with hrequest | ⟨file, hfile, hp⟩ | hfile
  · exact hrequest.1
  · exact absurd (hfile.artifact_temporaries happart.nonempty hp) hnot.1
  · exact absurd hfile hnot.2

end Reached

/-! ## The law -/

/-- The calls that retire a transaction, and the newest record each of them asks
for. -/
inductive Retirable (env : Env) : Call → Bool → JournalRecord → Prop
  | rolledBack {r : JournalRecord} (h : r.state = .idle) : Retirable env .retireRolledBack true r
  | committed {r : JournalRecord} (h : r.state = .committed)
      (hidentity : env.identityMatches r = true) : Retirable env .retireCommitted false r

theorem keeps_retire {allow : Fault → Prop} {E : InstallerFailure → Prop} {d₀ d : Volume}
    (hretirable : env.Retirable c activeRequest r) (hpair : env.JournalPair d₀ (some (r, slot)))
    (hd : env.Retiring activeRequest slot d₀ d)
    (hrefused : ¬(env.Admits ∧ env.Removable activeRequest d) → ∀ e, E e) :
    keeps allow (env.Retiring activeRequest slot d₀) E (env.call c)
      (fun success s' d' => RetiredWith success ∧ Fine allow s' ∧
        env.Retiring activeRequest slot d₀ d' ∧ env.Retired activeRequest d d') .initial d := by
  cases hretirable with
  | rolledBack h => exact keeps_retireRolledBack hpair h hd hrefused
  | committed h hidentity => exact keeps_retireCommitted hpair h hidentity hd hrefused

/-- Retirements that are cut or fail, any number of them. -/
theorem retiring_of_runs (hretirable : env.Retirable c activeRequest r)
    (hpair : env.JournalPair v (some (r, slot))) (hretire : env.Runs (· = c) anyFault v w) :
    env.Retiring activeRequest slot v w := by
  refine hretire.invariant ?_ ⟨FrameRel.refl v, Or.inl fun _ => rfl⟩
  rintro _ rfl d hd
  exact wp_mono (keeps_retire (E := anyError) hretirable hpair hd fun _ _ => trivial)
    (fun _ _ _ h => h.2.2.1) (fun _ _ _ h => h.1) fun _ h => h.1

end Env

/-! ## A retirement that is cut -/

/-- The installation is cut after a hundred steps, and rolled back. -/
def managedRolledBack : Volume :=
  managedEnv.runCalls managedVolume
    [(.stage, List.replicate 100 .ok ++ [.cut 0]), (.rollback, [])]

/-- Its retirement is cut after sixty steps. -/
def managedInterrupted : Volume :=
  managedEnv.runCalls managedRolledBack [(.retireRolledBack, List.replicate 60 .ok ++ [.cut 1])]

theorem managedEnv_apart : managedEnv.Apart where
  nonempty := by
    intro file hfile
    rw [managedEnv_manifestPath (Or.inl ⟨file, hfile, rfl⟩)]
    decide
  apart := by
    intro p hp
    rw [managedEnv_manifestPath hp]
    decide

theorem managedEnv_unclashing : managedEnv.Unclashing := by
  intro file hfile other hother p hp hpre
  have hfile' := managedEnv_manifestPath (Or.inl ⟨file, hfile, rfl⟩)
  have hother' := managedEnv_manifestPath (Or.inl ⟨other, hother, rfl⟩)
  exact hpre.eq_of_length ((Env.WithTemporaries.length hp).trans (by rw [hfile', hother']))

theorem managedVolume_fresh : managedEnv.Fresh managedVolume := by
  have hkeys : ∀ p ∈ managedVolume.nodes.keys, managedEnv.root <+: p → p = managedEnv.root := by
    decide +kernel
  intro p hroot hne hnode
  have hp : p ≠ [] := by
    rintro rfl
    exact absurd hroot (by decide)
  rw [Volume.nodeAt_eq_lookup _ hp, ne_eq, AList.lookup_eq_none, not_not, AList.mem_keys] at hnode
  exact absurd (hkeys p hnode hroot) hne

/-- What a load of the journal finds. -/
def managedJournal (v : Volume) : Option (Option (JournalRecord × JournalSlot)) :=
  Env.loaded (selectJournalCopy (journalCopyOf (v.nodeAt (managedEnv.journalPath .a)))
    (journalCopyOf (v.nodeAt (managedEnv.journalPath .b))))

theorem managedJournal_state {v : Volume} {state : JournalState}
    (h : (managedJournal v).map (·.map (·.1.state)) = some (some state)) :
    ∃ r slot, managedEnv.JournalPair v (some (r, slot)) ∧ r.state = state := by
  generalize hjournal : managedJournal v = found at h
  rcases found with _ | _ | ⟨r, slot⟩
  · cases h
  · cases h
  · exact ⟨r, slot, Env.loaded_eq_some_iff.mp hjournal, Option.some.inj (Option.some.inj h)⟩

end BmxUpdate
