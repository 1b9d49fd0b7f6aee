import BmxUpdate.Layout.Stage

/-!
# The plan on a FAT volume

A plan that `plan_stage` returns holds every selected source file once, and its files and
directories follow the grammar of FAT paths.  They can stand together on a volume exactly when
nothing is in the way of the directories above the listed ones: `plan_stage` adds what is above
a file to the directories it compares, and not what is above a directory.
-/

namespace BmxUpdate

namespace Layout

/-! ## What a rule selects -/

/-- The files that a rule selects from the source roots. -/
inductive SelectedFile (fileSystem : FileSystem) (roots : List (Text × Text)) (board : Board)
    (rule : StageRule) : PlannedFile → Prop where
  | file {reference source content} (kind : rule.kind = .file)
      (hsource : rule.source = some reference) (root : resolveSource roots reference = some source)
      (found : fileSystem source = some (.file (some content))) :
      SelectedFile fileSystem roots board rule
        (plannedFile rule (effectiveTarget rule board) source reference content)
  | member {reference source children relative content} (kind : rule.kind = .tree)
      (hsource : rule.source = some reference) (root : resolveSource roots reference = some source)
      (found : fileSystem source = some (.directory children))
      (member : (relative, .file (some content)) ∈ childMembers children)
      (selected : selectedByTree rule relative (some board) false = true) :
      SelectedFile fileSystem roots board rule
        (plannedFile rule (effectiveTarget rule board ++ '/' :: relative)
          (source ++ '/' :: relative) (reference ++ '/' :: relative) content)

/-- The directories that a rule lists: its own target, and the directories of a source tree
without includes that no exclude matches. -/
inductive ListedDirectory (fileSystem : FileSystem) (roots : List (Text × Text)) (board : Board)
    (rule : StageRule) : Text → Prop where
  | declared (kind : rule.kind = .directory) :
      ListedDirectory fileSystem roots board rule (effectiveTarget rule board)
  | tree {reference source children} (kind : rule.kind = .tree)
      (hsource : rule.source = some reference) (root : resolveSource roots reference = some source)
      (found : fileSystem source = some (.directory children)) :
      ListedDirectory fileSystem roots board rule (effectiveTarget rule board)
  | member {reference source children relative below} (kind : rule.kind = .tree)
      (hsource : rule.source = some reference) (root : resolveSource roots reference = some source)
      (found : fileSystem source = some (.directory children))
      (member : (relative, .directory below) ∈ childMembers children)
      (includes : rule.includes = [])
      (exclude : ¬ rule.exclude.any (matchesGlob relative ·) = true) :
      ListedDirectory fileSystem roots board rule (effectiveTarget rule board ++ '/' :: relative)

/-! ## What is staged so far -/

/-- The files are those selected, each once; the directories are those listed, and some of
those above the files. -/
structure Stages (selected : PlannedFile → Prop) (listed : Text → Prop) (staging : Staging) :
    Prop where
  files : ∀ planned, planned ∈ staging.files ↔ selected planned
  distinct : staging.files.Pairwise fun left right => lower left.target ≠ lower right.target
  valid : ∀ planned ∈ staging.files, fatPathValid 240 planned.target = true
  directories : ∀ directory, listed directory → directory ∈ staging.directories
  above : ∀ directory ∈ staging.directories, listed directory ∨
    ∃ planned, selected planned ∧ directory ∈ Paths.ancestors '/' planned.target

namespace Stages

variable {selected selected' : PlannedFile → Prop} {listed listed' : Text → Prop}
  {staging staging' : Staging}

theorem empty : Stages (fun _ => False) (fun _ => False) ⟨[], [], []⟩ where
  files := fun _ => ⟨nofun, nofun⟩
  distinct := List.Pairwise.nil
  valid := nofun
  directories := nofun
  above := nofun

theorem congr (h : Stages selected listed staging) (hfiles : ∀ f, selected f ↔ selected' f)
    (hlisted : ∀ d, listed d ↔ listed' d) : Stages selected' listed' staging := by
  obtain rfl : selected = selected' := funext fun f => propext (hfiles f)
  obtain rfl : listed = listed' := funext fun d => propext (hlisted d)
  exact h

/-- A listed directory joins. -/
theorem insert (h : Stages selected listed staging) (directory : Text) :
    Stages selected (fun d => listed d ∨ d = directory)
      { staging with directories := staging.directories.insert directory } where
  files := h.files
  distinct := h.distinct
  valid := h.valid
  directories := by
    intro d hd
    show d ∈ staging.directories.insert directory
    rw [List.mem_insert_iff]
    obtain hd | hd := hd
    · exact Or.inr (h.directories d hd)
    · exact Or.inl hd
  above := by
    intro d hd
    have hd : d ∈ staging.directories.insert directory := hd
    rw [List.mem_insert_iff] at hd
    obtain hd | hd := hd
    · exact Or.inl (Or.inr hd)
    · exact (h.above d hd).imp Or.inl id

/-- A file joins, with a target that is valid and new. -/
theorem add {planned : PlannedFile} (h : Stages selected listed staging)
    (hvalid : fatPathValid 240 planned.target = true)
    (hadd : addTarget staging planned = some staging') :
    Stages (fun f => selected f ∨ f = planned) listed staging' := by
  unfold addTarget at hadd
  split at hadd
  · cases hadd
  · next hnew =>
    cases hadd
    have hnew : ∀ previous ∈ staging.files, lower previous.target ≠ lower planned.target := by
      intro previous hin heq
      exact hnew (List.any_eq_true.mpr ⟨previous, hin, decide_eq_true heq⟩)
    constructor
    · intro f
      show f ∈ staging.files ++ [planned] ↔ _
      rw [List.mem_append, List.mem_singleton, h.files]
    · show (staging.files ++ [planned]).Pairwise _
      refine List.pairwise_append.mpr ⟨h.distinct, List.pairwise_singleton _ _, ?_⟩
      intro previous hprevious other hother
      rw [List.mem_singleton.mp hother]
      exact hnew previous hprevious
    · intro f hf
      obtain hf | hf := List.mem_append.mp hf
      · exact h.valid f hf
      · rw [List.mem_singleton.mp hf]
        exact hvalid
    · exact h.directories
    · intro d hd
      obtain hlisted | ⟨f, hf, habove⟩ := h.above d hd
      · exact Or.inl hlisted
      · exact Or.inr ⟨f, Or.inl hf, habove⟩

/-- The directories above a file that is there join. -/
theorem addParents {planned : PlannedFile} (h : Stages selected listed staging)
    (hplanned : selected planned) :
    Stages selected listed
      { staging with directories := addParents staging.directories planned.target } where
  files := h.files
  distinct := h.distinct
  valid := h.valid
  directories := fun d hd => List.mem_union_iff.mpr (Or.inr (h.directories d hd))
  above := by
    intro d hd
    obtain hd | hd := List.mem_union_iff.mp hd
    · exact Or.inr ⟨planned, hplanned, hd⟩
    · exact h.above d hd

/-- Steps that each add what they select and list. -/
theorem foldlM {ι : Type} {step : Staging → ι → Option Staging} {file : ι → PlannedFile → Prop}
    {directory : ι → Text → Prop} {entries : List ι}
    (hstep : ∀ entry ∈ entries, ∀ selected listed staging staging',
      Stages selected listed staging → step staging entry = some staging' →
      Stages (fun f => selected f ∨ file entry f) (fun d => listed d ∨ directory entry d) staging')
    (h : Stages selected listed staging) (hfold : entries.foldlM step staging = some staging') :
    Stages (fun f => selected f ∨ ∃ entry ∈ entries, file entry f)
      (fun d => listed d ∨ ∃ entry ∈ entries, directory entry d) staging' := by
  induction entries generalizing selected listed staging with
  | nil =>
      cases hfold
      exact h.congr (fun _ => by simp) (fun _ => by simp)
  | cons entry entries ih =>
      rw [List.foldlM_cons] at hfold
      obtain ⟨next, hnext, hrest⟩ := Option.bind_eq_some_iff.mp hfold
      have hfirst := hstep entry List.mem_cons_self _ _ _ _ h hnext
      have hlast := ih (fun other hin => hstep other (List.mem_cons_of_mem _ hin)) hfirst hrest
      refine hlast.congr (fun f => ?_) (fun d => ?_)
      · rw [List.exists_mem_cons_iff, or_assoc]
      · rw [List.exists_mem_cons_iff, or_assoc]

end Stages

/-! ## One member and one rule -/

section Steps

variable {fileSystem : FileSystem} {roots : List (Text × Text)} {board : Board}
  {rule : StageRule} {target source reference : Text} {member : Text × Node}
  {selected : PlannedFile → Prop} {listed : Text → Prop} {staging staging' : Staging}

/-- The file a member of a source tree gives. -/
def MemberFile (rule : StageRule) (board : Board) (target source reference : Text)
    (member : Text × Node) (planned : PlannedFile) : Prop :=
  ∃ content, member.2 = .file (some content) ∧
    selectedByTree rule member.1 (some board) false = true ∧
    planned = plannedFile rule (target ++ '/' :: member.1) (source ++ '/' :: member.1)
      (reference ++ '/' :: member.1) content

/-- The directory a member of a source tree gives. -/
def MemberDirectory (rule : StageRule) (target : Text) (member : Text × Node) (directory : Text) :
    Prop :=
  (∃ children, member.2 = .directory children) ∧ rule.includes = [] ∧
    ¬ rule.exclude.any (matchesGlob member.1 ·) = true ∧ directory = target ++ '/' :: member.1

theorem planMember_stages (h : Stages selected listed staging)
    (hplan : planMember rule board target source reference staging member = some staging') :
    Stages (fun f => selected f ∨ MemberFile rule board target source reference member f)
      (fun d => listed d ∨ MemberDirectory rule target member d) staging' := by
  obtain ⟨relative, node⟩ := member
  unfold planMember at hplan
  cases node with
  | symbolicLink => cases hplan
  | special => cases hplan
  | directory children =>
      have hfile : ∀ f, selected f ↔
          selected f ∨ MemberFile rule board target source reference (relative, .directory children)
            f := by
        intro f
        refine ⟨Or.inl, fun hor => hor.elim id ?_⟩
        rintro ⟨_, hnode, -⟩
        cases hnode
      dsimp only at hplan
      split at hplan
      · next hlisted =>
        cases hplan
        refine (h.insert _).congr hfile fun d => or_congr_right ?_
        exact ⟨fun hd => ⟨⟨children, rfl⟩, hlisted.1, hlisted.2, hd⟩, fun hd => hd.2.2.2⟩
      · next hlisted =>
        cases hplan
        refine h.congr hfile fun d => ⟨Or.inl, fun hor => hor.elim id ?_⟩
        rintro ⟨-, hincludes, hexclude, -⟩
        exact absurd ⟨hincludes, hexclude⟩ hlisted
  | file content =>
      have hdirectory : ∀ d, listed d ↔
          listed d ∨ MemberDirectory rule target (relative, .file content) d := by
        intro d
        refine ⟨Or.inl, fun hor => hor.elim id ?_⟩
        rintro ⟨⟨_, hnode⟩, -⟩
        cases hnode
      dsimp only at hplan
      split at hplan
      · next hleft =>
        cases hplan
        refine h.congr (fun f => ⟨Or.inl, fun hor => hor.elim id ?_⟩) hdirectory
        rintro ⟨_, -, hselected, -⟩
        exact absurd hselected hleft
      · next hselected =>
        obtain ⟨target', htarget, hread⟩ := Option.bind_eq_some_iff.mp hplan
        obtain ⟨content', hcontent, hadded⟩ := Option.bind_eq_some_iff.mp hread
        obtain ⟨added, hadd, hresult⟩ := Option.bind_eq_some_iff.mp hadded
        obtain ⟨rfl, hvalid⟩ := validateFatPath_eq htarget
        obtain rfl : content = some content' := hcontent
        cases hresult
        refine ((h.add hvalid hadd).addParents (Or.inr rfl)).congr
          (fun f => or_congr_right ?_) hdirectory
        constructor
        · exact fun hf => ⟨content', rfl, not_not.mp hselected, hf⟩
        · rintro ⟨_, hnode, -, hf⟩
          cases hnode
          exact hf

/-! What the constructors say of a rule whose kind and source are known. -/

theorem not_selected_directory (hkind : rule.kind = .directory) (planned : PlannedFile) :
    ¬ SelectedFile fileSystem roots board rule planned := by
  intro h
  cases h with
  | file kind => exact nomatch hkind.symm.trans kind
  | member kind => exact nomatch hkind.symm.trans kind

theorem not_selected_unsourced (hsource : rule.source = none) (planned : PlannedFile) :
    ¬ SelectedFile fileSystem roots board rule planned := by
  intro h
  cases h with
  | file _ source => exact nomatch hsource.symm.trans source
  | member _ source => exact nomatch hsource.symm.trans source

theorem selected_file_iff (hkind : rule.kind = .file) (hreference : rule.source = some reference)
    (hroot : resolveSource roots reference = some source) (planned : PlannedFile) :
    SelectedFile fileSystem roots board rule planned ↔
      ∃ content, fileSystem source = some (.file (some content)) ∧
        planned = plannedFile rule (effectiveTarget rule board) source reference content := by
  constructor
  · intro h
    cases h with
    | member kind => exact nomatch hkind.symm.trans kind
    | file _ hsource root found =>
        obtain rfl := Option.some.inj (hsource.symm.trans hreference)
        obtain rfl := Option.some.inj (root.symm.trans hroot)
        exact ⟨_, found, rfl⟩
  · intro h
    obtain ⟨content, found, rfl⟩ := h
    exact .file hkind hreference hroot found

theorem selected_tree_iff (hkind : rule.kind = .tree) (hreference : rule.source = some reference)
    (hroot : resolveSource roots reference = some source) (planned : PlannedFile) :
    SelectedFile fileSystem roots board rule planned ↔
      ∃ children, fileSystem source = some (.directory children) ∧
        ∃ member ∈ childMembers children,
          MemberFile rule board (effectiveTarget rule board) source reference member planned := by
  constructor
  · intro h
    cases h with
    | file kind => exact nomatch hkind.symm.trans kind
    | member _ hsource root found member selected =>
        obtain rfl := Option.some.inj (hsource.symm.trans hreference)
        obtain rfl := Option.some.inj (root.symm.trans hroot)
        exact ⟨_, found, _, member, _, rfl, selected, rfl⟩
  · intro h
    obtain ⟨children, found, ⟨relative, node⟩, hin, content, rfl, hselected, rfl⟩ := h
    exact .member hkind hreference hroot found hin hselected

theorem listed_directory_iff (hkind : rule.kind = .directory) (directory : Text) :
    ListedDirectory fileSystem roots board rule directory ↔
      directory = effectiveTarget rule board := by
  constructor
  · intro h
    cases h with
    | declared => rfl
    | tree kind => exact nomatch hkind.symm.trans kind
    | member kind => exact nomatch hkind.symm.trans kind
  · intro h
    rw [h]
    exact .declared hkind

theorem not_listed_file (hkind : rule.kind = .file) (directory : Text) :
    ¬ ListedDirectory fileSystem roots board rule directory := by
  intro h
  cases h with
  | declared kind => exact nomatch hkind.symm.trans kind
  | tree kind => exact nomatch hkind.symm.trans kind
  | member kind => exact nomatch hkind.symm.trans kind

theorem not_listed_unsourced (hkind : rule.kind = .tree) (hsource : rule.source = none)
    (directory : Text) : ¬ ListedDirectory fileSystem roots board rule directory := by
  intro h
  cases h with
  | declared kind => exact nomatch hkind.symm.trans kind
  | tree _ source => exact nomatch hsource.symm.trans source
  | member _ source => exact nomatch hsource.symm.trans source

theorem listed_tree_iff (hkind : rule.kind = .tree) (hreference : rule.source = some reference)
    (hroot : resolveSource roots reference = some source) (directory : Text) :
    ListedDirectory fileSystem roots board rule directory ↔
      ∃ children, fileSystem source = some (.directory children) ∧
        (directory = effectiveTarget rule board ∨ ∃ member ∈ childMembers children,
          MemberDirectory rule (effectiveTarget rule board) member directory) := by
  constructor
  · intro h
    cases h with
    | declared kind => exact nomatch hkind.symm.trans kind
    | tree _ hsource root found =>
        obtain rfl := Option.some.inj (hsource.symm.trans hreference)
        obtain rfl := Option.some.inj (root.symm.trans hroot)
        exact ⟨_, found, Or.inl rfl⟩
    | member _ hsource root found member includes exclude =>
        obtain rfl := Option.some.inj (hsource.symm.trans hreference)
        obtain rfl := Option.some.inj (root.symm.trans hroot)
        exact ⟨_, found, Or.inr ⟨_, member, ⟨_, rfl⟩, includes, exclude, rfl⟩⟩
  · intro h
    obtain ⟨children, found, hdirectory | ⟨⟨relative, node⟩, hin, hmember⟩⟩ := h
    · rw [hdirectory]
      exact .tree hkind hreference hroot found
    · obtain ⟨⟨children', rfl⟩, hincludes, hexclude, rfl⟩ := hmember
      exact .member hkind hreference hroot found hin hincludes hexclude

/-- A rule that adds nothing. -/
theorem Stages.nothing (h : Stages selected listed staging)
    (hfile : ∀ f, ¬ SelectedFile fileSystem roots board rule f)
    (hdirectory : ∀ d, ¬ ListedDirectory fileSystem roots board rule d) :
    Stages (fun f => selected f ∨ SelectedFile fileSystem roots board rule f)
      (fun d => listed d ∨ ListedDirectory fileSystem roots board rule d) staging :=
  h.congr (fun f => (or_iff_left (hfile f)).symm) fun d => (or_iff_left (hdirectory d)).symm

/-- What is added when the source of a rule is missing. -/
theorem missingSource_stages (h : Stages selected listed staging)
    (hmissing : missingSource staging rule target = some staging') :
    Stages selected listed staging' := by
  unfold missingSource at hmissing
  split at hmissing
  · cases hmissing
    exact ⟨h.files, h.distinct, h.valid, h.directories, h.above⟩
  · cases hmissing

/-- What a rule adds; the target of a file rule is valid. -/
theorem planRule_stages (htarget : rule.kind = .file → rule.source.isSome = true →
      fatPathValid 240 (effectiveTarget rule board) = true)
    (h : Stages selected listed staging)
    (hplan : planRule fileSystem roots board staging rule = some staging') :
    Stages (fun f => selected f ∨ SelectedFile fileSystem roots board rule f)
      (fun d => listed d ∨ ListedDirectory fileSystem roots board rule d) staging' := by
  unfold planRule at hplan
  cases hkind : rule.kind with
  | directory =>
      rw [hkind] at hplan
      cases hplan
      exact (h.insert _).congr
        (fun f => (or_iff_left (not_selected_directory hkind f)).symm)
        fun d => or_congr_right (listed_directory_iff hkind d).symm
  | file =>
      rw [hkind] at hplan
      cases hreference : rule.source with
      | none =>
          rw [hreference] at hplan
          cases hplan
          exact h.nothing (not_selected_unsourced hreference) (not_listed_file hkind)
      | some reference =>
          rw [hreference] at hplan
          obtain ⟨source, hroot, hnode⟩ := Option.bind_eq_some_iff.mp hplan
          have hselected := @selected_file_iff fileSystem roots board rule source reference hkind
            hreference hroot
          split at hnode
          · next hmissing =>
            refine (missingSource_stages h hnode).nothing (fun f hf => ?_) (not_listed_file hkind)
            obtain ⟨_, found, -⟩ := (hselected f).mp hf
            exact nomatch hmissing.symm.trans found
          · next content hfound =>
            obtain ⟨content', hcontent, hadd⟩ := Option.bind_eq_some_iff.mp hnode
            obtain rfl : content = some content' := hcontent
            have hvalid := htarget hkind (by rw [hreference]; rfl)
            refine (h.add hvalid hadd).congr (fun f => or_congr_right ?_)
              fun d => (or_iff_left (not_listed_file hkind d)).symm
            rw [hselected, hfound]
            constructor
            · exact fun hf => ⟨content', rfl, hf⟩
            · intro hf
              obtain ⟨_, hsame, hf⟩ := hf
              cases hsame
              exact hf
          · cases hnode
  | tree =>
      rw [hkind] at hplan
      cases hreference : rule.source with
      | none =>
          rw [hreference] at hplan
          cases hplan
          exact h.nothing (not_selected_unsourced hreference)
            (not_listed_unsourced hkind hreference)
      | some reference =>
          rw [hreference] at hplan
          obtain ⟨source, hroot, hnode⟩ := Option.bind_eq_some_iff.mp hplan
          have hselected := @selected_tree_iff fileSystem roots board rule source reference hkind
            hreference hroot
          have hlisted := @listed_tree_iff fileSystem roots board rule source reference hkind
            hreference hroot
          split at hnode
          · next hmissing =>
            refine (missingSource_stages h hnode).nothing (fun f hf => ?_) fun d hd => ?_
            · obtain ⟨_, found, -⟩ := (hselected f).mp hf
              exact nomatch hmissing.symm.trans found
            · obtain ⟨_, found, -⟩ := (hlisted d).mp hd
              exact nomatch hmissing.symm.trans found
          · next children hfound =>
            have hmembers := (h.insert (effectiveTarget rule board)).foldlM
              (fun _ _ _ _ _ _ hstages hstep => planMember_stages hstages hstep) hnode
            have hin : ∀ member, member ∈ sortedMembers children ↔
                member ∈ childMembers children := fun member => List.mem_insertionSort _
            refine hmembers.congr (fun f => or_congr_right ?_) fun d => ?_
            · rw [hselected, hfound]
              constructor
              · rintro ⟨member, hmember, hf⟩
                exact ⟨children, rfl, member, (hin member).mp hmember, hf⟩
              · rintro ⟨_, hsame, member, hmember, hf⟩
                cases hsame
                exact ⟨member, (hin member).mpr hmember, hf⟩
            · rw [or_assoc, hlisted, hfound]
              refine or_congr_right ?_
              constructor
              · rintro (hd | ⟨member, hmember, hd⟩)
                · exact ⟨children, rfl, Or.inl hd⟩
                · exact ⟨children, rfl, Or.inr ⟨member, (hin member).mp hmember, hd⟩⟩
              · rintro ⟨_, hsame, hd | ⟨member, hmember, hd⟩⟩
                · exact Or.inl hd
                · cases hsame
                  exact Or.inr ⟨member, (hin member).mpr hmember, hd⟩
          · cases hnode

end Steps

/-! ## The whole plan -/

section Plan

variable {fileSystem : FileSystem} {roots : List (Text × Text)} {board : Board}

/-- The files that some of the rules select. -/
def Selected (fileSystem : FileSystem) (roots : List (Text × Text)) (board : Board)
    (entries : List StageRule) (planned : PlannedFile) : Prop :=
  ∃ rule ∈ entries, SelectedFile fileSystem roots board rule planned

/-- The directories that some of the rules list. -/
def Listed (fileSystem : FileSystem) (roots : List (Text × Text)) (board : Board)
    (entries : List StageRule) (directory : Text) : Prop :=
  ∃ rule ∈ entries, ListedDirectory fileSystem roots board rule directory

/-- The targets of those files. -/
def Targets (fileSystem : FileSystem) (roots : List (Text × Text)) (board : Board)
    (entries : List StageRule) (target : Text) : Prop :=
  ∃ planned, Selected fileSystem roots board entries planned ∧ planned.target = target

theorem planRules_stages {entries : List StageRule} {staging : Staging}
    (htargets : ∀ rule ∈ entries, TargetsValid rule)
    (h : entries.foldlM (planRule fileSystem roots board) ⟨[], [], []⟩ = some staging) :
    Stages (Selected fileSystem roots board entries) (Listed fileSystem roots board entries)
      staging := by
  have hfold := Stages.empty.foldlM (fun rule hrule _ _ _ _ hstages hstep =>
    planRule_stages (fun _ hsource => htargets rule hrule (Or.inr hsource) board) hstages hstep) h
  exact hfold.congr (fun f => by rw [false_or]; rfl) fun d => by rw [false_or]; rfl

theorem mem_planParents {files : List PlannedFile} {directories result : List Text}
    (h : planParents files directories = some result) (directory : Text) :
    directory ∈ result ↔
      directory ∈ directories ∨
        ∃ planned ∈ files, directory ∈ Paths.ancestors '/' planned.target := by
  induction files generalizing directories with
  | nil =>
      cases h
      simp
  | cons planned files ih =>
      unfold planParents at h
      rw [List.foldlM_cons] at h
      obtain ⟨next, hnext, hrest⟩ := Option.bind_eq_some_iff.mp h
      obtain ⟨_, -, hnext⟩ := Option.bind_eq_some_iff.mp hnext
      cases hnext
      rw [ih hrest, addParents, List.mem_union_iff, List.exists_mem_cons_iff, or_assoc,
        or_left_comm]

theorem checkDirectory_spec {files : List PlannedFile} {before after : List Text}
    {directory : Text} (h : checkDirectory files before directory = some after) :
    after = directory :: before ∧ fatPathValid 240 directory = true ∧
      (∀ planned ∈ files, lower planned.target ≠ lower directory) ∧
      ∀ previous ∈ before, lower previous = lower directory → previous = directory := by
  simp only [checkDirectory, Option.bind_eq_bind, Option.bind_eq_some_iff] at h
  obtain ⟨valid, hvalid, _, hbefore, _, hfiles, hafter⟩ := h
  obtain ⟨rfl, hfat⟩ := validateFatPath_eq hvalid
  cases hafter
  refine ⟨rfl, hfat, fun planned hin => ?_, fun previous hin hkey => ?_⟩
  · exact of_decide_eq_true (List.all_eq_true.mp (of_guard hfiles) planned hin)
  · have hor := List.all_eq_true.mp (of_guard hbefore) previous hin
    rw [Bool.or_eq_true, decide_eq_true_eq, decide_eq_true_eq] at hor
    exact hor.resolve_left (not_not.mpr hkey)

/-- What the last loop of `plan_stage` establishes. -/
theorem checkDirectories_spec {files : List PlannedFile} {before directories result : List Text}
    (h : directories.foldlM (checkDirectory files) before = some result) :
    (∀ directory ∈ directories, fatPathValid 240 directory = true ∧
      ∀ planned ∈ files, lower planned.target ≠ lower directory) ∧
    (∀ left ∈ before, ∀ right ∈ directories, lower left = lower right → left = right) ∧
    ∀ left ∈ directories, ∀ right ∈ directories, lower left = lower right → left = right := by
  induction directories generalizing before with
  | nil => exact ⟨nofun, nofun, nofun⟩
  | cons directory directories ih =>
      rw [List.foldlM_cons] at h
      obtain ⟨next, hnext, hrest⟩ := Option.bind_eq_some_iff.mp h
      obtain ⟨rfl, hvalid, hfiles, hbefore⟩ := checkDirectory_spec hnext
      obtain ⟨hall, hearlier, hamong⟩ := ih hrest
      refine ⟨?_, ?_, ?_⟩
      · exact List.forall_mem_cons.mpr ⟨⟨hvalid, hfiles⟩, hall⟩
      · intro left hleft right hright hkey
        obtain rfl | hright := List.mem_cons.mp hright
        · exact hbefore left hleft hkey
        · exact hearlier left (List.mem_cons_of_mem _ hleft) right hright hkey
      · intro left hleft right hright hkey
        obtain hfirst | hleft' := List.mem_cons.mp hleft
        · obtain hsame | hright' := List.mem_cons.mp hright
          · rw [hfirst, hsame]
          · exact hearlier left (hfirst ▸ List.mem_cons_self) right hright' hkey
        · obtain hsame | hright' := List.mem_cons.mp hright
          · exact (hearlier right (hsame ▸ List.mem_cons_self) left hleft' hkey.symm).symm
          · exact hamong left hleft' right hright' hkey

/-- What is known of a plan: its files, and the directories that are listed or above them. -/
structure PlanFacts (selected : PlannedFile → Prop) (listed : Text → Prop) (plan : StagePlan) :
    Prop where
  files : ∀ planned, planned ∈ plan.files ↔ selected planned
  distinct : plan.files.Pairwise fun left right => lower left.target ≠ lower right.target
  valid : ∀ planned ∈ plan.files, fatPathValid 240 planned.target = true
  directories : ∀ directory, directory ∈ plan.directories ↔
    Paths.Needed '/' (fun target => ∃ planned, selected planned ∧ planned.target = target) listed
      directory
  checked : ∀ directory ∈ plan.directories, fatPathValid 240 directory = true ∧
    ∀ planned ∈ plan.files, lower planned.target ≠ lower directory
  spelled : ∀ left ∈ plan.directories, ∀ right ∈ plan.directories,
    lower left = lower right → left = right

theorem planStage_facts {layout : SdLayout} {overrides : List (Text × Text)} {profile : Profile}
    {features : List Text} {plan : StagePlan} {entries : List StageRule}
    (htargets : ∀ rule ∈ layout.rules, TargetsValid rule)
    (hentries : selectedLayoutEntries layout board profile features = some entries)
    (hroots : expandSourceRoots layout board overrides = some roots)
    (h : planStage layout fileSystem board overrides profile features = some plan) :
    PlanFacts (Selected fileSystem roots board entries) (Listed fileSystem roots board entries)
      plan := by
  simp only [planStage, hentries, hroots, Option.bind_eq_bind, Option.bind_some,
    Option.bind_eq_some_iff] at h
  obtain ⟨staging, hstaging, directories, hdirectories, result, hchecked, hplan⟩ := h
  cases hplan
  have hvalid : ∀ rule ∈ entries, TargetsValid rule := by
    intro rule hrule
    unfold selectedLayoutEntries at hentries
    split at hentries
    · cases hentries
      exact htargets rule (List.mem_filter.mp hrule).1
    · cases hentries
  have hstages := planRules_stages hvalid hstaging
  obtain ⟨hall, -, hspelled⟩ := checkDirectories_spec hchecked
  have hfiles : ∀ planned, planned ∈ staging.files.insertionSort (fun a b => a.target ≤ b.target) ↔
      planned ∈ staging.files := fun planned => List.mem_insertionSort _
  have hsorted : ∀ directory, directory ∈ directories.insertionSort (· ≤ ·) ↔
      directory ∈ directories := fun directory => List.mem_insertionSort _
  constructor
  · exact fun planned => (hfiles planned).trans (hstages.files planned)
  · refine (List.Perm.pairwise_iff ?_ (List.perm_insertionSort _ _)).mpr hstages.distinct
    exact fun hne => hne.symm
  · exact fun planned hin => hstages.valid planned ((hfiles planned).mp hin)
  · intro directory
    show directory ∈ directories.insertionSort (· ≤ ·) ↔ _
    rw [hsorted, mem_planParents hdirectories]
    constructor
    · intro hin
      obtain hin | ⟨planned, hplanned, habove⟩ := hin
      · obtain hlisted | ⟨planned, hplanned, habove⟩ := hstages.above directory hin
        · exact Or.inl hlisted
        · exact Or.inr ⟨planned.target, ⟨planned, hplanned, rfl⟩, habove⟩
      · exact Or.inr ⟨planned.target, ⟨planned, (hstages.files planned).mp hplanned, rfl⟩, habove⟩
    · intro hneeded
      obtain hlisted | ⟨_, ⟨planned, hplanned, rfl⟩, habove⟩ := hneeded
      · exact Or.inl (hstages.directories directory hlisted)
      · exact Or.inr ⟨planned, (hstages.files planned).mpr hplanned, habove⟩
  · intro directory hin
    exact ⟨(hall directory hin).1, fun planned hplanned =>
      (hall directory hin).2 planned ((hfiles planned).mp hplanned)⟩
  · exact hspelled

end Plan

/-! ## On the volume -/

/-- Files and directories have FAT paths, and they can stand together on a volume that does not
tell capital letters from small ones. -/
structure StagePlan.FitsVolume (plan : StagePlan) : Prop where
  targets : ∀ planned ∈ plan.files, fatPathValid 240 planned.target = true
  directories : ∀ directory ∈ plan.directories, fatPathValid 240 directory = true
  apart : ∀ planned ∈ plan.files, ∀ directory ∈ plan.directories,
    lower planned.target ≠ lower directory
  coexist : Paths.Coexist '/' lower (fun path => ∃ planned ∈ plan.files, planned.target = path)
    (· ∈ plan.directories)

theorem filter_eq_singleton {α : Type} {entries : List α} {entry : α} {p : α → Bool}
    (hin : entry ∈ entries) (hp : p entry = true)
    (honly : entries.Pairwise fun left right => ¬ (p left = true ∧ p right = true)) :
    entries.filter p = [entry] := by
  induction entries with
  | nil => cases hin
  | cons first entries ih =>
      obtain ⟨hfirst, hrest⟩ := List.pairwise_cons.mp honly
      obtain rfl | hin := List.mem_cons.mp hin
      · rw [List.filter_cons_of_pos hp, List.filter_eq_nil_iff.mpr]
        exact fun other hother hq => hfirst other hother ⟨hp, hq⟩
      · rw [List.filter_cons_of_neg (fun hq => hfirst entry hin ⟨hq, hp⟩), ih hin hrest]

/-- A plan that is returned holds every selected file once, with valid paths, and it fits on a
volume exactly when nothing is in the way of the directories above the listed ones. -/
theorem stage_fits_iff {raw : RawStageLayout} {layout : SdLayout} {fileSystem : FileSystem}
    {board : Board} {overrides : List (Text × Text)} {profile : Profile} {features : List Text}
    {plan : StagePlan} {entries : List StageRule} {roots : List (Text × Text)}
    (hload : loadStageLayout raw = some layout)
    (hplan : planStage layout fileSystem board overrides profile features = some plan)
    (hentries : selectedLayoutEntries layout board profile features = some entries)
    (hroots : expandSourceRoots layout board overrides = some roots) :
    (plan.FitsVolume ∧ ∀ planned, Selected fileSystem roots board entries planned →
      plan.files.filter (·.target = planned.target) = [planned]) ↔
    Paths.ClearAbove '/' lower (Targets fileSystem roots board entries)
      (Listed fileSystem roots board entries) := by
  have hfacts := planStage_facts (loadStageLayout_targets hload) hentries hroots hplan
  have htargets : (fun path => ∃ planned ∈ plan.files, planned.target = path) =
      Targets fileSystem roots board entries := by
    funext path
    exact propext (exists_congr fun planned => and_congr_left fun _ => hfacts.files planned)
  have hneeded : (· ∈ plan.directories) =
      Paths.Needed '/' (Targets fileSystem roots board entries)
        (Listed fileSystem roots board entries) := funext fun d => propext (hfacts.directories d)
  have honce : ∀ planned, Selected fileSystem roots board entries planned →
      plan.files.filter (·.target = planned.target) = [planned] := by
    intro planned hplanned
    refine filter_eq_singleton ((hfacts.files planned).mpr hplanned) (decide_eq_true rfl) ?_
    refine hfacts.distinct.imp fun hne hboth => hne ?_
    rw [of_decide_eq_true hboth.1, of_decide_eq_true hboth.2]
  -- the files and the needed directories are told apart
  have hiff : Paths.Coexist '/' lower (Targets fileSystem roots board entries)
      (Paths.Needed '/' (Targets fileSystem roots board entries)
        (Listed fileSystem roots board entries)) ↔
      Paths.ClearAbove '/' lower (Targets fileSystem roots board entries)
        (Listed fileSystem roots board entries) := Paths.coexist_iff ?_ ?_ ?_
  · rw [and_iff_left honce, ← hiff, ← hneeded, ← htargets]
    exact ⟨fun h => h.coexist, fun h => ⟨hfacts.valid, fun d hd => (hfacts.checked d hd).1,
      fun planned hplanned d hd => (hfacts.checked d hd).2 planned hplanned, h⟩⟩
  · rw [← htargets]
    intro p q hp hq hkey
    obtain ⟨left, hleft, rfl⟩ := hp
    obtain ⟨right, hright, rfl⟩ := hq
    have hnodup : (plan.files.map fun planned => lower planned.target).Nodup :=
      List.pairwise_map.mpr hfacts.distinct
    rw [List.inj_on_of_nodup_map hnodup hleft hright hkey]
  · rw [← hneeded]
    exact fun p q hp hq => hfacts.spelled p hp q hq
  · rw [← hneeded, ← htargets]
    intro p q hp hq
    obtain ⟨planned, hplanned, rfl⟩ := hp
    exact (hfacts.checked q hq).2 planned hplanned

/-! ## A directory below a file -/

/-- A kernel of one machine. -/
def rawKernel (machine : String) : RawStageRule where
  mode := "kernel".toList
  target := ("kernel.img." ++ machine).toList
  source := none
  includes := none
  optional := none

def rawKernels : List RawStageRule :=
  ["c64", "c64sc", "scpu64", "c128", "vic20", "plus4", "pet"].map rawKernel

/-- A directory that is kept. -/
def rawDirectory (target : String) : RawStageRule where
  mode := "keep".toList
  target := target.toList
  source := none
  includes := none
  optional := none

/-- The kernels, a tree that is kept, and a directory that is declared two levels below it. -/
def readmeLayout : RawStageLayout where
  sources := [("repo".toList, "/repo".toList)]
  both :=
    { file := rawKernels
      tree := [{ mode := "keep".toList, target := "docs".toList, source := some "repo/docs".toList
                 includes := none, optional := none }]
      directory := [rawDirectory "docs/readme/sub"] }
  pi4 := ⟨[], [], []⟩
  pi5 := ⟨[], [], []⟩

/-- The source of the tree is one file, where the declared directory has its parent. -/
def readmeSources : FileSystem := fun path =>
  if path = "/repo/docs".toList then some (.directory [("readme".toList, .file (some []))])
  else none

/-- The plan is returned, and one of its files stands above one of its directories. -/
theorem planned_file_above_directory :
    ∃ layout plan planned, loadStageLayout readmeLayout = some layout ∧
      planStage layout readmeSources .pi4 [] .release [] = some plan ∧
      planned ∈ plan.files ∧ "docs/readme/sub".toList ∈ plan.directories ∧
      planned.target ∈ Paths.ancestors '/' "docs/readme/sub".toList := by
  have hplan : ((loadStageLayout readmeLayout).bind fun layout =>
      (planStage layout readmeSources .pi4 [] .release []).map fun plan =>
        (plan.directories, plan.files.map (·.target))) =
      some (["docs".toList, "docs/readme/sub".toList], ["docs/readme".toList]) := by
    decide
  obtain ⟨layout, hlayout, hplanned⟩ := Option.bind_eq_some_iff.mp hplan
  obtain ⟨plan, hplan, hparts⟩ := Option.map_eq_some_iff.mp hplanned
  obtain ⟨hdirectories, hfiles⟩ := Prod.mk.inj hparts
  obtain ⟨planned, hin, htarget⟩ := List.mem_map.mp (hfiles ▸ List.mem_singleton_self _)
  refine ⟨layout, plan, planned, hlayout, hplan, hin, ?_, ?_⟩
  · rw [hdirectories]
    exact List.mem_cons_of_mem _ List.mem_cons_self
  · rw [htarget]
    decide

/-! ## A file beside a listed directory -/

/-- The kernels, the same tree, and a directory two levels below it beside the file. -/
def notesLayout : RawStageLayout :=
  { readmeLayout with
    both := { readmeLayout.both with directory := [rawDirectory "docs/notes/sub"] } }

/-- Nothing of a plan is in the way above its directories. -/
def clearChecks (plan : StagePlan) : Bool :=
  plan.directories.all fun directory =>
    (Paths.ancestors '/' directory).all fun ancestor =>
      (plan.files.all fun planned => lower planned.target ≠ lower ancestor) &&
        (plan.directories ++ plan.directories.flatMap (Paths.ancestors '/')).all fun path =>
          lower path ≠ lower ancestor || path = ancestor

theorem clearAbove_of_checks {selected : PlannedFile → Prop} {listed : Text → Prop}
    {plan : StagePlan} (hfacts : PlanFacts selected listed plan) (h : clearChecks plan = true) :
    Paths.ClearAbove '/' lower (fun target => ∃ planned, selected planned ∧ planned.target = target)
      listed := by
  intro directory hlisted ancestor habove
  have hchecks := List.all_eq_true.mp (List.all_eq_true.mp h directory
    ((hfacts.directories directory).mpr (Or.inl hlisted))) ancestor habove
  simp only [Bool.and_eq_true, List.all_eq_true, Bool.or_eq_true, decide_eq_true_eq] at hchecks
  obtain ⟨hfiles, hpaths⟩ := hchecks
  constructor
  · rintro _ ⟨planned, hplanned, rfl⟩
    exact hfiles planned ((hfacts.files planned).mpr hplanned)
  · intro path hpath hkey
    have hmem : path ∈ plan.directories ++ plan.directories.flatMap (Paths.ancestors '/') := by
      obtain hneeded | ⟨other, hother, hpath⟩ := hpath
      · exact List.mem_append_left _ ((hfacts.directories path).mpr hneeded)
      · exact List.mem_append_right _ (List.mem_flatMap.mpr
          ⟨other, (hfacts.directories other).mpr (Or.inl hother), hpath⟩)
    exact (hpaths path hmem).resolve_left fun hne => hne hkey

/-- The plan of that layout fits. -/
theorem notes_plan_fits :
    ∃ layout plan, loadStageLayout notesLayout = some layout ∧
      planStage layout readmeSources .pi4 [] .release [] = some plan ∧
      plan.files.map (·.target) = ["docs/readme".toList] ∧
      "docs/notes/sub".toList ∈ plan.directories ∧ plan.FitsVolume := by
  have hall : ((loadStageLayout notesLayout).bind fun layout =>
      (planStage layout readmeSources .pi4 [] .release []).bind fun plan =>
        (selectedLayoutEntries layout .pi4 .release []).bind fun _ =>
          (expandSourceRoots layout .pi4 []).map fun _ =>
            (plan.files.map (·.target), decide ("docs/notes/sub".toList ∈ plan.directories),
              clearChecks plan)) =
      some (["docs/readme".toList], true, true) := by
    decide
  obtain ⟨layout, hlayout, hall⟩ := Option.bind_eq_some_iff.mp hall
  obtain ⟨plan, hplan, hall⟩ := Option.bind_eq_some_iff.mp hall
  obtain ⟨entries, hentries, hall⟩ := Option.bind_eq_some_iff.mp hall
  obtain ⟨roots, hroots, hall⟩ := Option.map_eq_some_iff.mp hall
  obtain ⟨hfiles, hall⟩ := Prod.mk.inj hall
  obtain ⟨hdirectory, hchecks⟩ := Prod.mk.inj hall
  refine ⟨layout, plan, hlayout, hplan, hfiles, of_decide_eq_true hdirectory, ?_⟩
  have hfacts := planStage_facts (loadStageLayout_targets hlayout) hentries hroots hplan
  exact ((stage_fits_iff hlayout hplan hentries hroots).mpr
    (clearAbove_of_checks hfacts hchecks)).1

end Layout

end BmxUpdate
