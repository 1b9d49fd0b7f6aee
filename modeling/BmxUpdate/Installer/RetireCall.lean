import BmxUpdate.Installer.Retirement

/-!
# One retirement

`RemoveTransactionArtifacts` and the two calls that end in it.  However a call
is cut or fails, the volume is one that retirements have been at (`Retiring`);
where it returns, nothing is left of the transaction below its root (`Retired`).
-/

namespace BmxUpdate

open Crash Volumes Wire

namespace Env

variable {env : Env} {allow : Fault → Prop} {s : EngineState} {d₀ d d' : Volume}
  {activeRequest : Bool} {slot : JournalSlot}

/-- Whether a progress report has failed is as it was. -/
def SameProgress (s s' : EngineState) : Prop := s'.progressFailed = s.progressFailed

instance : FrameRel SameProgress where
  refl _ := rfl
  trans h h' := Eq.trans h' h

/-! ## What a retirement leaves -/

/-- What stays below the root: the request's record and payloads. -/
def RequestFile (env : Env) (activeRequest : Bool) (p : Path) : Prop :=
  env.ExpectedEntry activeRequest p ∧ ¬env.JournalFile p

/-- The paths a retirement leaves empty. -/
def Swept (env : Env) (activeRequest : Bool) (p : Path) : Prop :=
  env.root <+: p ∧ p ≠ env.root ∧ ¬env.RequestFile activeRequest p

/-- A retirement that has come to its end. -/
structure Retired (env : Env) (activeRequest : Bool) (d d' : Volume) : Prop where
  retires : env.Retires d d'
  clean : env.RootClean activeRequest d'
  temporary : d'.nodeAt env.journalTemp = none
  journals : ∀ slot, d'.nodeAt (env.journalPath slot) = none

theorem not_artifact_expected {p : Path} (h : env.ExpectedEntry activeRequest p) :
    ¬env.Artifact p := by
  obtain ⟨name, hname, rfl⟩ := h
  refine not_artifact_child fun hroot => ?_
  simp only [List.mem_cons, List.not_mem_nil, or_false] at hroot
  rcases hroot with rfl | rfl | rfl | rfl <;> cases activeRequest <;>
    simp [expectedRootEntries] at hname

theorem Artifact.below {p : Path} (h : env.Artifact p) : env.root <+: p ∧ p ≠ env.root := by
  obtain ⟨base, hbase, hpre⟩ := h
  have hroot : env.root <+: base := by
    simp only [artifactRoots, List.mem_cons, List.not_mem_nil, or_false] at hbase
    rcases hbase with rfl | rfl | rfl | rfl <;> exact List.prefix_append _ _
  refine ⟨hroot.trans hpre, ?_⟩
  rintro rfl
  exact not_artifact_root ⟨base, hbase, hpre⟩

theorem Artifact.swept {p : Path} (h : env.Artifact p) : env.Swept activeRequest p :=
  ⟨h.below.1, h.below.2, fun hrequest => not_artifact_expected hrequest.1 h⟩

theorem JournalFile.below {p : Path} (h : env.JournalFile p) : env.root <+: p ∧ p ≠ env.root := by
  rcases h with rfl | ⟨slot, rfl⟩
  · exact ⟨List.prefix_append _ _, root_ne_journalTemp.symm⟩
  · exact ⟨root_le_journalPath slot, (root_ne_journalPath slot).symm⟩

theorem JournalFile.swept {p : Path} (h : env.JournalFile p) : env.Swept activeRequest p :=
  ⟨h.below.1, h.below.2, fun hrequest => hrequest.2 h⟩

/-- Nothing but what is swept has changed. -/
theorem Retires.kept {p : Path} (h : env.Retires d d') (hp : ¬env.Swept activeRequest p) :
    d'.nodeAt p = d.nodeAt p := by
  refine Clears.eq_of_not h ?_ fun hartifact => hp hartifact.swept
  rintro (hartifact | hjournal)
  · exact hp hartifact.swept
  · exact hp hjournal.swept

/-- Everything below the root but the request is gone. -/
theorem Retired.swept {p : Path} (h : env.Retired activeRequest d d')
    (htidy : env.Tidy activeRequest d) (hp : env.Swept activeRequest p) :
    d'.nodeAt p = none := by
  obtain ⟨hroot, hne, hrequest⟩ := hp
  by_contra hnode
  obtain ⟨node, hnode⟩ := Option.ne_none_iff_exists'.mp hnode
  have hbefore : d.nodeAt p ≠ none := by simp [h.retires.of_some hnode]
  rcases htidy.below p hroot hne hbefore with ⟨base, hbase, hpre⟩ | hexpected
  · -- A root of the private trees is gone, and so is all below it.
    have hgone := h.clean.1 base hbase
    by_cases hsame : base = p
    · rw [← hsame, hgone] at hnode
      cases hnode
    · rw [d'.nodeAt_of_isPrefix hpre hsame (by simp [hnode])] at hgone
      cases hgone
  · have hjournal : env.JournalFile p := by
      by_contra hjournal
      exact hrequest ⟨hexpected, hjournal⟩
    rcases hjournal with rfl | ⟨slot, rfl⟩
    · rw [h.temporary] at hnode
      cases hnode
    · rw [h.journals slot] at hnode
      cases hnode

/-! ## `RemoveTransactionArtifacts` -/

/-- The removal of the journals reports no progress. -/
theorem steady_removeJournals (allow : Fault → Prop) :
    Steady allow SameProgress env.removeJournals := by
  have hremove : ∀ path, Steady allow SameProgress (removeIfPresent path) := by
    intro path
    refine .bind ((respects_stat path (R := Eq)).steady allow) fun found => ?_
    split
    · exact (respects_syncContainingDirectory path (R := Eq)).steady allow
    · exact .throw ()
    · exact .bind (.act _) fun _ =>
        (respects_syncContainingDirectory path (R := Eq)).steady allow
  exact .bind .get fun _ => .bind (.orElse _ (.bind (hremove _) fun _ =>
    .bind (hremove _) fun _ => hremove _)) fun _ => .modify fun _ => rfl

theorem keeps_removeTransactionArtifacts {E : InstallerFailure → Prop}
    (hpaths : env.NonemptyPaths) (hfine : Fine allow s)
    (hd : env.Retiring activeRequest slot d₀ d) (hpair : env.JournalPair d s.journal)
    (hslot : ∀ r slot', s.journal = some (r, slot') → slot' = slot)
    (hrefused : ¬env.Removable activeRequest d → ∀ e, E e) :
    keeps allow (env.Retiring activeRequest slot d₀) E
      (env.removeTransactionArtifacts activeRequest)
      (fun _ s' d' => Fine allow s' ∧ env.Retiring activeRequest slot d₀ d' ∧
        env.Retired activeRequest d d') s d := by
  unfold removeTransactionArtifacts
  rw [← Proc.bind_assoc]
  -- The files.
  have hfiles : ∀ {d'}, Clears env.Artifact (fun _ => False) d d' →
      env.Retiring activeRequest slot d₀ d' :=
    fun h => hd.artifacts (h.mono (fun _ hp => hp) fun _ hp => hp.elim) fun _ hp => hp
  refine keeps_bind (keeps_mono (keeps_removeFiles hpaths hfine (E := E) fun h => hrefused
    fun hremovable => ?_) (fun _ => hfiles) (fun _ h => h) ?_)
  · obtain ⟨p, hp, hnode⟩ := h
    exact hremovable.files p hp hnode
  rintro _ s₁ d₁ ⟨rfl, hemptied⟩
  have hd₁ := hfiles hemptied.clears
  -- The directories.
  refine keeps_bind (keeps_mono (keeps_removeTransactionDirectories (E := E) fun hbarren =>
    hrefused fun hremovable => hbarren (hremovable.tidy.barren hemptied))
    (fun _ h => hd₁.artifacts h fun _ hp => hp) (fun _ h => h) ?_)
  rintro _ s₂ d₂ ⟨rfl, hclears, hgone⟩
  have hd₂ := hd₁.artifacts hclears fun _ hp => hp
  have hartifacts : Clears env.Artifact env.Artifact d d₂ :=
    FrameRel.trans (hemptied.clears.mono (fun _ hp => hp) fun _ hp => hp.elim) hclears
  have hretires : env.Retires d d₂ := hartifacts.mono (fun _ hp => Or.inl hp) fun _ hp => hp
  -- The names that are left.
  have hbelow : env.Tidy activeRequest d → ∀ name, d₂.nodeAt (env.root ++ [name]) ≠ none →
      name ∈ expectedRootEntries activeRequest := by
    intro htidy name hnode
    obtain ⟨node, hnode⟩ := Option.ne_none_iff_exists'.mp hnode
    have hbefore : d.nodeAt (env.root ++ [name]) ≠ none := by simp [hartifacts.of_some hnode]
    rcases htidy.below _ (List.prefix_append _ _) (by simp) hbefore with
      ⟨base, hbase, hpre⟩ | ⟨other, hother, heq⟩
    · have hlength := length_of_mem_artifactRoots hbase
      have hsame : base = env.root ++ [name] := hpre.eq_of_length (by simpa using hlength)
      rw [← hsame, hgone base hbase] at hnode
      cases hnode
    · obtain rfl : name = other := by simpa using heq
      exact hother
  refine keeps_bind (keeps_orElse (keeps_directoryContainsOnly (E := fun _ => ∀ e, E e) hd₂
    (fun hroot => hrefused fun hremovable => hroot ?_) fun only honly hall => ?_) fun _ h => h _)
  · rw [hartifacts.eq_of_not not_artifact_root not_artifact_root]
    exact hremovable.tidy.root
  refine keeps_bind (keeps_check (fun hmore => ⟨hd₂, ?_⟩) fun hdone => ?_)
  · exact hrefused (fun hremovable => hmore (hall (hbelow hremovable.tidy))) _
  -- The journals.
  have hclean : env.RootClean activeRequest d₂ := ⟨hgone, honly hdone⟩
  have hpair₂ : env.JournalPair d₂ s₂.journal := hpair.of_nodeAt fun slot' =>
    hartifacts.eq_of_not (not_artifact_journalPath slot') (not_artifact_journalPath slot')
  refine wp_mono (wp_and (keeps_removeJournals hd₂ hclean hpair₂ hslot fun htidy =>
    hrefused fun hremovable => htidy (hremovable.tidy.clears hretires))
    (steady_removeJournals allow s₂ d₂)) ?_ (fun _ _ _ h => h.1) fun _ h => h.1
  rintro _ s₃ d₃ ⟨⟨hd₃, hclean₃, hretires₃, htemporary, hjournals⟩, hsame⟩
  refine ⟨fun hfailed => hfine (hsame.symm.trans hfailed), hd₃, ?_⟩
  exact ⟨FrameRel.trans hretires hretires₃, hclean₃, htemporary, hjournals⟩

/-! ## The calls -/

/-- No read of a journal file ends as the load of a missing journal does. -/
theorem raises_readJournalFile (path : Path) :
    Raises (· ≠ InstallerFailure.wrongState) (readJournalFile path) := by
  refine .bind (.orElse (preserves_stat path (R := Eq)) (by decide)) fun found => ?_
  split
  · exact .pure _
  split
  · exact .pure _
  · exact .bind (.orElse (preserves_readFile path (R := Eq)) (by decide)) fun _ =>
      .bind (.orElse (respects_progress (S := AnyState) (R := Eq)).preserves (by decide))
        fun _ => .pure _

/-- A read of a journal file fails at an injected fault only. -/
theorem wp_readJournalFile (hfine : Fine allow s) (path : Path) :
    wp allow (readJournalFile path)
      ⟨fun copy s' d' => copy = journalCopyOf (d.nodeAt path) ∧ s' = s ∧ d' = d,
        fun e _ d' => d' = d ∧ e ≠ .wrongState ∧ MayFail allow,
        fun d' => d' = d ∧ MayCut allow⟩ s d := by
  have hkeeps : keeps allow (· = d) noError (readJournalFile path)
      (fun copy s' d' => copy = journalCopyOf (d.nodeAt path) ∧ s' = s ∧ d' = d) s d :=
    keeps_readJournalFile rfl hfine ⟨rfl, rfl, rfl⟩
  refine wp_mono (wp_and hkeeps (raises_readJournalFile path allow s d)) (fun _ _ _ h => h.1)
    ?_ fun _ h => h.1
  rintro e s' d' ⟨⟨hd', hfail⟩, he⟩
  exact ⟨hd', he, hfail.resolve_left id⟩

/-- A load that insists on a journal: the pair is in order, so of itself it fails
only where no journal is there. -/
theorem wp_loadJournal_required {cur : Option (JournalRecord × JournalSlot)}
    (hfine : Fine allow s) (hpair : env.JournalPair d cur) :
    wp allow (env.loadJournal false)
      ⟨fun _ s' d' => d' = d ∧ cur ≠ none ∧ s' = { s with journal := cur },
        fun e s' d' => d' = d ∧ (e = .wrongState ∧ cur = none ∧ s' = { s with journal := none } ∨
          e ≠ .wrongState ∧ MayFail allow),
        fun d' => d' = d ∧ MayCut allow⟩ s d := by
  unfold loadJournal
  refine wp_bind (wp_mono (wp_readJournalFile hfine _) ?_ ?_ fun _ h => h)
  rotate_left
  · rintro e s' d' ⟨hd', he⟩
    exact ⟨hd', Or.inr he⟩
  rintro copyA _ _ ⟨rfl, rfl, rfl⟩
  refine wp_bind (wp_mono (wp_readJournalFile hfine _) ?_ ?_ fun _ h => h)
  rotate_left
  · rintro e s' d' ⟨hd', he⟩
    exact ⟨hd', Or.inr he⟩
  rintro copyB _ _ ⟨rfl, rfl, rfl⟩
  dsimp only [Post.before]
  have hloaded := loaded_eq_some_iff.mpr hpair
  generalize selectJournalCopy _ _ = selection at hloaded ⊢
  obtain ⟨status, statusA, statusB, record⟩ := selection
  cases status <;> cases record <;> simp only [loaded, Option.some.injEq, reduceCtorEq] at hloaded
  case noJournal.none | noJournal.some =>
      subst hloaded
      refine wp_bind (wp_modify ?_)
      exact wp_throw ⟨rfl, Or.inl ⟨rfl, rfl, rfl⟩⟩
  all_goals
    subst hloaded
    refine wp_modify ?_
    exact ⟨rfl, by simp, rfl⟩

/-- What a call asks of the request and of the file system. -/
def Admits (env : Env) : Prop :=
  env.basicRequestValid false (some env.workspace) false = .ok () ∧
    env.durabilitySupported = true

/-- A call that begins has manifest paths. -/
theorem nonemptyPaths_of_valid {requireWorkspace requirePrepared : Bool}
    {workspace : Option InstallerWorkspace}
    (h : env.basicRequestValid requireWorkspace workspace requirePrepared = .ok ()) :
    env.NonemptyPaths := by
  intro file hfile hpath
  have hinvalid : manifestFileValid file = false := by
    simp [manifestFileValid, validRelativePath, hpath]
  have hall : env.asset.files.all manifestFileValid = false :=
    List.all_eq_false.mpr ⟨file, hfile, by simp [hinvalid]⟩
  unfold basicRequestValid at h
  rw [hall] at h
  by_cases hidentity : env.identityValid = true
  · by_cases hlayout : (buildStepLayout env.asset).isNone = true <;>
      simp [hidentity, hlayout, bind, Except.bind, throw, throwThe, MonadExceptOf.throw] at h
  · simp [hidentity, bind, Except.bind, throw, throwThe, MonadExceptOf.throw] at h

/-- In a retirement the newest record stays the newest, and goes with everything
else only. -/
theorem Retiring.pair {r : JournalRecord} (h : env.Retiring activeRequest slot d₀ d)
    (hpair : env.JournalPair d₀ (some (r, slot))) :
    env.JournalPair d (some (r, slot)) ∨
      env.JournalPair d none ∧ env.RootClean activeRequest d := by
  rcases h.journals with hsame | ⟨hclean, hother, hkept | hgone⟩
  · exact Or.inl (hpair.of_nodeAt hsame)
  · refine Or.inl ⟨?_, fun r' hr' => ?_⟩
    · rw [← hpair.1]
      exact recordAt_eq_of_nodeAt hkept
    · rw [recordAt_missing hother] at hr'
      cases hr'
  · refine Or.inr ⟨fun slot' => ?_, hclean⟩
    by_cases hslot : slot' = slot
    · rw [hslot, hgone]
    · have hne : slot' = slot.other := by
        cases slot' <;> cases slot <;> first | rfl | exact absurd rfl hslot
      rw [hne, hother]

/-- A call that begins: the request is valid and the file system durable. -/
theorem keeps_beginCall {E : InstallerFailure → Prop} {Q : Unit → EngineState → Volume → Prop}
    {I : Volume → Prop} (hI : I d) (hrefused : ¬env.Admits → ∀ e, E e)
    (h : env.Admits → Q () s d) :
    keeps allow I E (env.beginCall (some env.workspace) false) Q s d := by
  unfold beginCall
  cases hvalid : env.basicRequestValid false (some env.workspace) false with
  | error failure =>
      refine keeps_bind (keeps_throw hI (hrefused ?_ failure))
      intro hadmits
      rw [hadmits.1] at hvalid
      cases hvalid
  | ok _ =>
      refine keeps_bind (keeps_pure (keeps_check (fun hdurable => ⟨hI, hrefused ?_ _⟩) ?_))
      · exact fun hadmits => hdurable hadmits.2
      · exact fun hdurable => h ⟨hvalid, hdurable⟩

/-- What a retirement returns where nothing stops it. -/
def RetiredWith (success : InstallerSuccess) : Prop := success = .ok ∨ success = .alreadyRetired

theorem keeps_retireRolledBack {E : InstallerFailure → Prop} {r : JournalRecord}
    (hpair : env.JournalPair d₀ (some (r, slot))) (hidle : r.state = .idle)
    (hd : env.Retiring true slot d₀ d)
    (hrefused : ¬(env.Admits ∧ env.Removable true d) → ∀ e, E e) :
    keeps allow (env.Retiring true slot d₀) E env.retireRolledBack
      (fun success s' d' => RetiredWith success ∧ Fine allow s' ∧
        env.Retiring true slot d₀ d' ∧ env.Retired true d d') .initial d := by
  refine keeps_bind (keeps_beginCall hd (fun h => hrefused fun h' => h h'.1) fun hadmits => ?_)
  have hrun : ∀ cur, env.JournalPair d cur → (∀ r' slot', cur = some (r', slot') →
      r' = r ∧ slot' = slot) →
      keeps allow (env.Retiring true slot d₀) E (do
        env.loadJournal true
        let s ← Proc.get
        Proc.check (∀ journal ∈ s.journal, journal.1.state = .idle) .wrongState
        env.removeTransactionArtifacts true
        return if s.journal.isNone then .alreadyRetired else .ok)
        (fun success s' d' => RetiredWith success ∧ Fine allow s' ∧
          env.Retiring true slot d₀ d' ∧ env.Retired true d d') .initial d := by
    intro cur hcur hsame
    refine keeps_bind (keeps_loadJournal hd (fine_of_eq_false rfl) hcur (fun _ h => by cases h)
      fun _ => keeps_bind (keeps_get (keeps_bind (keeps_check (fun hbad => ?_) fun _ => ?_))))
    · refine absurd ?_ hbad
      rintro ⟨r', slot'⟩ hjournal
      rw [(hsame r' slot' hjournal).1]
      exact hidle
    refine keeps_bind (keeps_done (keeps_removeTransactionArtifacts
      (nonemptyPaths_of_valid hadmits.1) (fine_of_eq_false rfl) hd hcur
      (fun r' slot' hjournal => (hsame r' slot' hjournal).2)
      fun h => hrefused fun h' => h h'.2) ?_)
    rintro _ s' d' ⟨hfine, hretiring, hretired⟩
    refine keeps_pure ⟨?_, hfine, hretiring, hretired⟩
    unfold RetiredWith
    split
    · exact Or.inr rfl
    · exact Or.inl rfl
  rcases hd.pair hpair with hcur | ⟨hcur, -⟩
  · refine hrun _ hcur ?_
    rintro _ _ ⟨⟩
    exact ⟨rfl, rfl⟩
  · refine hrun _ hcur ?_
    rintro _ _ ⟨⟩

theorem keeps_retireCommitted {E : InstallerFailure → Prop} {r : JournalRecord}
    (hpair : env.JournalPair d₀ (some (r, slot))) (hcommitted : r.state = .committed)
    (hidentity : env.identityMatches r = true) (hd : env.Retiring false slot d₀ d)
    (hrefused : ¬(env.Admits ∧ env.Removable false d) → ∀ e, E e) :
    keeps allow (env.Retiring false slot d₀) E env.retireCommitted
      (fun success s' d' => RetiredWith success ∧ Fine allow s' ∧
        env.Retiring false slot d₀ d' ∧ env.Retired false d d') .initial d := by
  refine keeps_bind (keeps_beginCall hd (fun h => hrefused fun h' => h h'.1) fun hadmits => ?_)
  have hpaths := nonemptyPaths_of_valid hadmits.1
  have hremoved : ∀ {success cur}, env.JournalPair d cur → (∀ r' slot', cur = some (r', slot') →
      slot' = slot) → RetiredWith success →
      keeps allow (env.Retiring false slot d₀) E (do
        env.removeTransactionArtifacts false
        return success)
        (fun success s' d' => RetiredWith success ∧ Fine allow s' ∧
          env.Retiring false slot d₀ d' ∧ env.Retired false d d')
        { EngineState.initial with journal := cur } d := by
    intro success cur hcur hslot hsuccess
    refine keeps_bind (keeps_done (keeps_removeTransactionArtifacts hpaths (fine_of_eq_false rfl)
      hd hcur hslot fun h => hrefused fun h' => h h'.2) ?_)
    rintro _ s' d' ⟨hfine, hretiring, hretired⟩
    exact keeps_pure ⟨hsuccess, hfine, hretiring, hretired⟩
  obtain ⟨cur, hcur, hsame⟩ : ∃ cur, env.JournalPair d cur ∧
      ∀ r' slot', cur = some (r', slot') → r' = r ∧ slot' = slot := by
    rcases hd.pair hpair with hcur | ⟨hcur, -⟩
    · refine ⟨_, hcur, ?_⟩
      rintro _ _ ⟨⟩
      exact ⟨rfl, rfl⟩
    · refine ⟨_, hcur, ?_⟩
      rintro _ _ ⟨⟩
  refine wp_bind (wp_attempt (wp_mono (wp_loadJournal_required (fine_of_eq_false rfl) hcur) ?_ ?_
    ?_))
  · rintro _ _ _ ⟨rfl, hpresent, rfl⟩
    obtain ⟨⟨r', slot'⟩, rfl⟩ := Option.ne_none_iff_exists'.mp hpresent
    obtain ⟨rfl, rfl⟩ := hsame r' slot' rfl
    refine keeps_bind (keeps_bind (keeps_get (keeps_pure ?_)))
    refine keeps_bind (keeps_check (fun h => absurd hcommitted h) fun _ => ?_)
    refine keeps_bind (keeps_check (fun h => absurd hidentity h) fun _ => ?_)
    refine hremoved hcur ?_ (Or.inl rfl)
    rintro _ _ ⟨⟩
    rfl
  · rintro e _ _ ⟨rfl, ⟨rfl, rfl, rfl⟩ | ⟨hother, hfail⟩⟩
    · refine keeps_bind (keeps_get ?_)
      rw [if_pos ⟨rfl, rfl⟩]
      refine hremoved hcur ?_ (Or.inr rfl)
      rintro _ _ ⟨⟩
    · refine keeps_bind (keeps_get ?_)
      rw [if_neg fun h => hother h.1]
      exact wp_throw ⟨hd, Or.inr hfail⟩
  · rintro _ ⟨rfl, hcut⟩
    exact ⟨hd, hcut⟩

end Env

end BmxUpdate
