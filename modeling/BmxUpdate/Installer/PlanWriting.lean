import BmxUpdate.ContentPlanRoundTrip
import BmxUpdate.Installer.Evidence
import BmxUpdate.Installer.Helpers

/-!
# The content plan on the volume

`LoadContentPlan` and `ReadContentPlanRecord` on a volume that holds a plan, and
`WriteContentPlanFile` for either kind of plan: whatever it meets, the plan's
file is missing or complete, and a call that returns has loaded what it wrote.
-/

namespace BmxUpdate

open Crash Volumes Wire

namespace Env

variable {env : Env} {allow : Fault → Prop} {I : Volume → Prop} {s : EngineState} {d : Volume}

/-! ## Loading a plan -/

/-- The file of this kind of plan holds a plan of these records. -/
def PlanOn (env : Env) (finalPlan : Bool) (records : List ContentPlanRecord) (d : Volume) :
    Prop :=
  ∃ encoded, d.fileAt (env.contentPlanPath finalPlan) = some encoded ∧
    env.parseContentPlan finalPlan encoded = some records

/-- The plan `LoadContentPlan` reads: the final one where it is there, the
prepared one otherwise, unless the final one is required. -/
structure Selects (env : Env) (requireFinal finalPlan : Bool) (d : Volume) : Prop where
  files : ∀ kind, d.nodeAt (env.contentPlanPath kind) ≠ some .directory
  prepared : finalPlan = false →
    d.nodeAt (env.contentPlanPath true) = none ∧ requireFinal = false

/-- What a load leaves of the engine's members. -/
def loadedState (s : EngineState) (finalPlan : Bool) (records : List ContentPlanRecord) :
    EngineState :=
  { s with contentPlan := some (records.map (·.noop), finalPlan) }

theorem PlanOn.length {finalPlan : Bool} {records : List ContentPlanRecord}
    (h : env.PlanOn finalPlan records d) : records.length = env.asset.files.length := by
  obtain ⟨encoded, -, hparse⟩ := h
  exact length_of_parseContentPlan hparse

theorem keeps_loadContentPlan {E : InstallerFailure → Prop}
    {Q : Unit → EngineState → Volume → Prop} {requireFinal finalPlan : Bool}
    {records : List ContentPlanRecord} (hI : I d) (hplan : env.PlanOn finalPlan records d)
    (hselects : env.Selects requireFinal finalPlan d)
    (h : Q () (loadedState s finalPlan records) d) :
    keeps allow I E (env.loadContentPlan requireFinal) Q s d := by
  obtain ⟨encoded, hfile, hparse⟩ := hplan
  have hnode := Volume.fileAt_eq_some_iff.mp hfile
  have hsize := (parseContentPlan_eq_some hparse).1
  have huse : decide ((statOf (d.nodeAt (env.contentPlanPath true))).type = .regularFile) =
      finalPlan := by
    cases finalPlan with
    | true => rw [hnode]; rfl
    | false => rw [(hselects.prepared rfl).1]; rfl
  have hselected : (if finalPlan = true then statOf (d.nodeAt (env.contentPlanPath true))
      else statOf (d.nodeAt (env.contentPlanPath false))) =
        statOf (d.nodeAt (env.contentPlanPath finalPlan)) := by
    cases finalPlan <;> rfl
  refine keeps_bind (keeps_orElse (E := fun _ => False) (keeps_stat hI ?_) (by simp))
  refine keeps_bind (keeps_orElse (E := fun _ => False) (keeps_stat hI ?_) (by simp))
  refine keeps_bind (keeps_check (fun hrefused => ?_) fun _ => ?_)
  · refine absurd ?_ hrefused
    simp only [ne_eq, statOf_type_eq_directory]
    exact ⟨hselects.files true, hselects.files false⟩
  simp only [huse]
  refine keeps_bind (keeps_check (fun hrefused => ?_) fun _ => ?_)
  · refine absurd ?_ hrefused
    cases finalPlan with
    | true => exact Or.inl huse
    | false =>
        exact Or.inr ⟨(hselects.prepared rfl).2,
          statOf_type_eq_regularFile.mpr ⟨encoded, hnode⟩⟩
  refine keeps_bind (keeps_check (fun hrefused => ?_) fun _ => ?_)
  · refine absurd ?_ hrefused
    rw [if_congr (by rw [huse]) rfl rfl, hselected, hnode]
    exact hsize
  refine keeps_bind (keeps_orElse (E := fun _ => False) (keeps_readFile hI
    (fun hmissing => by simp [hmissing] at hfile) fun content hcontent => ?_) (by simp))
  obtain rfl : encoded = content := by simpa [hfile] using hcontent
  refine keeps_bind (keeps_orElse (E := fun _ => False) (keeps_barrier hI ?_) (by simp))
  rw [hparse]
  exact keeps_modify h

/-- A load that returns has read an acceptable plan. -/
theorem keeps_loadContentPlan_any (requireFinal : Bool) :
    keeps allow (fun d' => d' = d) anyError (env.loadContentPlan requireFinal)
      (fun _ s' d' => d' = d ∧ ∃ finalPlan records, env.PlanOn finalPlan records d ∧
        env.Selects requireFinal finalPlan d ∧ s' = loadedState s finalPlan records) s d := by
  refine keeps_bind (keeps_orElse (E := anyError) (keeps_stat rfl ?_) fun _ _ => trivial)
  refine keeps_bind (keeps_orElse (E := anyError) (keeps_stat rfl ?_) fun _ _ => trivial)
  refine keeps_bind (keeps_check (fun _ => ⟨rfl, trivial⟩) fun htypes => ?_)
  refine keeps_bind (keeps_check (fun _ => ⟨rfl, trivial⟩) fun hselected => ?_)
  refine keeps_bind (keeps_check (fun _ => ⟨rfl, trivial⟩) fun _ => ?_)
  refine keeps_bind (keeps_orElse (E := anyError) (keeps_readFile rfl (fun _ => trivial)
    fun content hcontent => ?_) fun _ _ => trivial)
  refine keeps_bind (keeps_orElse (E := anyError) (keeps_barrier rfl ?_) fun _ _ => trivial)
  cases hparse : env.parseContentPlan
      (decide ((statOf (d.nodeAt (env.contentPlanPath true))).type = .regularFile)) content with
  | none => exact keeps_throw rfl trivial
  | some records =>
      refine keeps_modify ⟨rfl, _, records, ⟨content, hcontent, hparse⟩, ?_, rfl⟩
      simp only [ne_eq, statOf_type_eq_directory] at htypes
      refine ⟨fun kind => by cases kind <;> simp [htypes], fun hprepared => ?_⟩
      rw [hprepared] at hselected
      simp only [Bool.false_eq_true, false_or] at hselected
      refine ⟨?_, hselected.1⟩
      simp only [decide_eq_false_iff_not, statOf_type_eq_regularFile] at hprepared
      rcases hnode : d.nodeAt (env.contentPlanPath true) with _ | content | _
      · rfl
      · exact absurd ⟨content, hnode⟩ hprepared
      · exact absurd hnode htypes.1

/-! ## Reading its records -/

/-- The plan in memory is the one on the volume, if there is one in memory. -/
def InMemory (s : EngineState) (finalPlan : Bool) (records : List ContentPlanRecord) : Prop :=
  s.contentPlan = none ∨ s.contentPlan = some (records.map (·.noop), finalPlan)

theorem inMemory_loadedState (s : EngineState) (finalPlan : Bool)
    (records : List ContentPlanRecord) : InMemory (loadedState s finalPlan records) finalPlan
      records :=
  Or.inr rfl

theorem keeps_loadedContentPlan {E : InstallerFailure → Prop}
    {Q : List Bool × Bool → EngineState → Volume → Prop} {finalPlan : Bool}
    {records : List ContentPlanRecord} (hI : I d) (hplan : env.PlanOn finalPlan records d)
    (hselects : env.Selects false finalPlan d) (hs : InMemory s finalPlan records)
    (h : Q (records.map (·.noop), finalPlan) (loadedState s finalPlan records) d) :
    keeps allow I E env.loadedContentPlan Q s d := by
  refine keeps_bind (keeps_get ?_)
  rcases hs with hs | hs
  · rw [hs]
    refine keeps_bind (keeps_loadContentPlan hI hplan hselects ?_)
    exact keeps_bind (keeps_get (keeps_pure h))
  · have hsame : loadedState s finalPlan records = s := by
      unfold loadedState
      rw [← hs]
    rw [hsame] at h
    rw [hs]
    exact keeps_pure h

theorem keeps_isNoop {E : InstallerFailure → Prop} {Q : Bool → EngineState → Volume → Prop}
    {finalPlan : Bool} {records : List ContentPlanRecord} {index : Nat} {r : ContentPlanRecord}
    (hI : I d) (hplan : env.PlanOn finalPlan records d)
    (hselects : env.Selects false finalPlan d) (hs : InMemory s finalPlan records)
    (hr : records[index]? = some r) (h : Q r.noop (loadedState s finalPlan records) d) :
    keeps allow I E (env.isNoop index) Q s d := by
  have hindex : index < env.asset.files.length := by
    rw [← hplan.length]
    exact (List.getElem?_eq_some_iff.mp hr).1
  refine keeps_bind (keeps_check (fun hrefused => absurd hindex hrefused) fun _ => ?_)
  refine keeps_bind (keeps_loadedContentPlan hI hplan hselects hs (keeps_pure ?_))
  have hbit : (records.map (·.noop)).getD index false = r.noop := by
    simp [List.getD_eq_getElem?_getD, hr]
  rw [hbit]
  exact h

theorem keeps_readContentPlanRecord {E : InstallerFailure → Prop}
    {Q : ContentPlanRecord → EngineState → Volume → Prop} {finalPlan : Bool}
    {records : List ContentPlanRecord} {index : Nat} {r : ContentPlanRecord} (hI : I d)
    (hplan : env.PlanOn finalPlan records d) (hselects : env.Selects false finalPlan d)
    (hs : InMemory s finalPlan records) (hr : records[index]? = some r)
    (h : Q r (loadedState s finalPlan records) d) :
    keeps allow I E (env.readContentPlanRecord index) Q s d := by
  have hindex : index < env.asset.files.length := by
    rw [← hplan.length]
    exact (List.getElem?_eq_some_iff.mp hr).1
  refine keeps_bind (keeps_check (fun hrefused => absurd hindex hrefused) fun _ => ?_)
  refine keeps_bind (keeps_loadedContentPlan hI hplan hselects hs ?_)
  obtain ⟨encoded, hfile, hparse⟩ := hplan
  refine keeps_bind (keeps_orElse (E := fun _ => False) (keeps_readFile hI
    (fun hmissing => by simp [hmissing] at hfile) fun content hcontent => ?_) (by simp))
  obtain rfl : encoded = content := by simpa [hfile] using hcontent
  refine keeps_bind (keeps_check (fun hrefused => absurd ?_ hrefused) fun _ => ?_)
  · have hsize := (parseContentPlan_eq_some hparse).1
    have hle : (index + 1) * kContentPlanRecordBytes ≤
        env.asset.files.length * kContentPlanRecordBytes :=
      Nat.mul_le_mul_right _ (Nat.succ_le_of_lt hindex)
    unfold contentPlanSize at hsize
    omega
  · rw [decode_contentPlanRecordSlice hparse hr]
    exact keeps_pure h

/-! ## Writing a plan -/

/-- The temporary of a plan file. -/
def planTemporary (env : Env) (finalPlan : Bool) : Path :=
  addSuffix (env.contentPlanPath finalPlan) ".part"

/-- Nothing but the temporary has changed. -/
def Unwritten (env : Env) (finalPlan : Bool) (d₀ d : Volume) : Prop :=
  AgreeOff (· = env.planTemporary finalPlan) d₀ d

/-- The plan's file is complete, and nothing else but the temporary has changed. -/
def PlanWritten (env : Env) (finalPlan : Bool) (records : List ContentPlanRecord)
    (d₀ d : Volume) : Prop :=
  (∃ content, env.contentPlanContent finalPlan records = some content ∧
    d.nodeAt (env.contentPlanPath finalPlan) = some (.file content)) ∧
  AgreeOff (fun p => p = env.planTemporary finalPlan ∨ p = env.contentPlanPath finalPlan) d₀ d

theorem contentPlanPath_dropLast (finalPlan : Bool) :
    (env.contentPlanPath finalPlan).dropLast = env.stateRoot := by
  simp [contentPlanPath]

theorem contentPlanPath_ne_planTemporary (env : Env) (kind finalPlan : Bool) :
    env.contentPlanPath kind ≠ env.planTemporary finalPlan := by
  unfold planTemporary contentPlanPath
  rw [addSuffix_concat]
  cases kind <;> cases finalPlan <;> simp

theorem contentPlanPath_ne : env.contentPlanPath true ≠ env.contentPlanPath false := by
  simp [contentPlanPath]

theorem stateRoot_ne_planTemporary (finalPlan : Bool) :
    env.stateRoot ≠ env.planTemporary finalPlan := by
  intro h
  have hlength := congrArg List.length h
  simp [planTemporary, contentPlanPath] at hlength

/-- The temporary may come and go. -/
theorem Unwritten.update {finalPlan : Bool} {d₀ d' : Volume} {node : Option Node}
    (h : env.Unwritten finalPlan d₀ d)
    (hupdate : Updates d (env.planTemporary finalPlan) node d') :
    env.Unwritten finalPlan d₀ d' := by
  intro p hp
  rw [hupdate, if_neg hp]
  exact h p hp

theorem PlanWritten.update {finalPlan : Bool} {records : List ContentPlanRecord}
    {d₀ d' : Volume} {node : Option Node} (h : env.PlanWritten finalPlan records d₀ d)
    (hupdate : Updates d (env.planTemporary finalPlan) node d') :
    env.PlanWritten finalPlan records d₀ d' := by
  obtain ⟨⟨content, hcontent, hnode⟩, hagree⟩ := h
  refine ⟨⟨content, hcontent, ?_⟩, fun p hp => ?_⟩
  · rw [hupdate, if_neg (contentPlanPath_ne_planTemporary _ _ _), hnode]
  · rw [hupdate, if_neg fun hp' => hp (Or.inl hp')]
    exact hagree p hp

/-- A written plan of acceptable records is a plan. -/
theorem PlanWritten.planOn {finalPlan : Bool} {records : List ContentPlanRecord}
    {d₀ : Volume} (h : env.PlanWritten finalPlan records d₀ d)
    (hfiles : env.asset.files.length ≤ 2 ^ 32) (hrecords : env.PlanRecords finalPlan records) :
    env.PlanOn finalPlan records d := by
  obtain ⟨⟨content, hcontent, hnode⟩, -⟩ := h
  exact ⟨content, Volume.fileAt_eq_some_iff.mpr hnode,
    parseContentPlan_contentPlanContent hfiles hrecords hcontent⟩

/-- The plan just written is the one a load reads. -/
theorem PlanWritten.selects {finalPlan : Bool} {records : List ContentPlanRecord}
    {d₀ : Volume} (h : env.PlanWritten finalPlan records d₀ d)
    (hother : d₀.nodeAt (env.contentPlanPath !finalPlan) ≠ some .directory)
    (hfinal : finalPlan = false → d₀.nodeAt (env.contentPlanPath true) = none) :
    env.Selects finalPlan finalPlan d := by
  obtain ⟨⟨content, -, hnode⟩, hagree⟩ := h
  have hkept : d.nodeAt (env.contentPlanPath !finalPlan) =
      d₀.nodeAt (env.contentPlanPath !finalPlan) := by
    refine hagree _ fun h => h.elim (contentPlanPath_ne_planTemporary _ _ _) ?_
    cases finalPlan with
    | true => exact contentPlanPath_ne.symm
    | false => exact contentPlanPath_ne
  constructor
  · intro kind
    by_cases hkind : kind = finalPlan
    · rw [hkind, hnode]
      simp
    · rw [show kind = !finalPlan by cases kind <;> cases finalPlan <;> simp_all, hkept]
      exact hother
  · intro hprepared
    subst hprepared
    exact ⟨by rw [← hfinal rfl]; exact hkept, rfl⟩

/-- The records a writer collects, whatever is in its temporary. -/
def Collects (env : Env) (allow : Fault → Prop) (E : InstallerFailure → Prop)
    (finalPlan : Bool) (records : List ContentPlanRecord) (s : EngineState) (d₀ : Volume) :
    Prop :=
  ∀ d, env.Unwritten finalPlan d₀ d → keeps allow (fun d' => d' = d) E
    (Proc.mapIndexed (fun index file =>
      if finalPlan then env.finalPlanRecord index file else env.preparedPlanRecord file)
      0 env.asset.files)
    (fun found _ d' => found = records ∧ d' = d) s d

theorem keeps_fillContentPlan {E : InstallerFailure → Prop} {finalPlan : Bool}
    {records : List ContentPlanRecord} {d₀ : Volume} {old : Content}
    (hcollects : env.Collects allow E finalPlan records s d₀)
    (hd : env.Unwritten finalPlan d₀ d)
    (htemporary : d.fileAt (env.planTemporary finalPlan) = some old)
    (hoverflow : env.contentPlanContent finalPlan records = none → E .fileSystemError) :
    keeps allow (env.Unwritten finalPlan d₀) E
      (env.fillContentPlan finalPlan (env.planTemporary finalPlan))
      (fun _ _ d' => env.Unwritten finalPlan d₀ d' ∧ ∃ content,
        env.contentPlanContent finalPlan records = some content ∧
        d'.fileAt (env.planTemporary finalPlan) = some content) s d := by
  refine keeps_bind (keeps_mono (hcollects d hd) (fun _ h => h ▸ hd) (fun _ h => h) ?_)
  rintro found s' d' ⟨hfound, hsame⟩
  subst hsame
  rw [hfound]
  cases hcontent : env.contentPlanContent finalPlan records with
  | none => exact keeps_throw hd (hoverflow hcontent)
  | some content =>
      refine keeps_bind (keeps_orElse (E := fun _ => False) (keeps_write hd ?_
        (fun n d'' h => hd.update h) fun d'' hupdate => ?_) (by simp))
      · intro hnone
        rw [htemporary] at hnone
        cases hnone
      have hnext := hd.update hupdate
      have hfilled : d''.fileAt (env.planTemporary finalPlan) = some content := by
        rw [Volume.fileAt_eq_some_iff, hupdate, if_pos rfl]
      refine keeps_bind (keeps_orElse (E := fun _ => False) (keeps_barrier hnext ?_) (by simp))
      exact keeps_orElse (E := fun _ => False)
        (keeps_barrier hnext ⟨hnext, content, rfl, hfilled⟩) (by simp)

/-- What a writer leaves if it fails or is cut. -/
def PlanKept (env : Env) (finalPlan : Bool) (records : List ContentPlanRecord)
    (d₀ d : Volume) : Prop :=
  env.Unwritten finalPlan d₀ d ∨ env.PlanWritten finalPlan records d₀ d

/-- What stops a writer that meets no fault. -/
def PlanRefused (env : Env) (finalPlan : Bool) (records : List ContentPlanRecord)
    (d : Volume) : Prop :=
  d.nodeAt (env.planTemporary finalPlan) = some .directory ∨
    d.nodeAt env.stateRoot ≠ some .directory ∨
    env.contentPlanContent finalPlan records = none

/-- The removal of the temporary, as cleanup or before anything else. -/
theorem PlanKept.update {finalPlan : Bool} {records : List ContentPlanRecord} {d₀ d' : Volume}
    {node : Option Node} (h : env.PlanKept finalPlan records d₀ d)
    (hupdate : Updates d (env.planTemporary finalPlan) node d') :
    env.PlanKept finalPlan records d₀ d' :=
  h.imp (·.update hupdate) (·.update hupdate)

theorem keeps_publishPlan {E : Unit → Prop} {finalPlan : Bool}
    {records : List ContentPlanRecord} {d₀ : Volume} {old : Content}
    (hcollects : env.Collects allow (fun _ => E ()) finalPlan records s d₀)
    (hd : env.Unwritten finalPlan d₀ d)
    (htemporary : d.fileAt (env.planTemporary finalPlan) = some old)
    (hmissing : d₀.nodeAt (env.contentPlanPath finalPlan) = none)
    (hroot : d₀.nodeAt env.stateRoot = some .directory)
    (hoverflow : env.contentPlanContent finalPlan records = none → E ()) :
    keeps allow (env.PlanKept finalPlan records d₀) E
      (writeContentPlanFile.publishPlan env finalPlan (env.contentPlanPath finalPlan)
        (env.planTemporary finalPlan))
      (fun _ _ d' => env.PlanWritten finalPlan records d₀ d') s d := by
  refine keeps_bind (keeps_orElse (keeps_mono (keeps_fillContentPlan hcollects hd htemporary
    hoverflow) (fun _ => Or.inl) (fun _ h => h) ?_) fun _ h => h)
  rintro _ s' d' ⟨hd', content, hcontent, hfile⟩
  have hpath := env.contentPlanPath_ne_planTemporary finalPlan finalPlan
  have hfree : d'.nodeAt (env.contentPlanPath finalPlan) = none := by
    rw [hd' _ hpath, hmissing]
  have hreceives : Receives d' (env.planTemporary finalPlan) (env.contentPlanPath finalPlan)
      false := by
    refine ⟨hpath.symm, ?_, by simp [hfree], fun hpresent => absurd hfree hpresent⟩
    rw [contentPlanPath_dropLast, hd' _ (stateRoot_ne_planTemporary _), hroot]
  refine keeps_rename (Or.inl hd') ?_ ?_
  · exact fun hnot => absurd ⟨by simp [hfile], hreceives⟩ hnot
  · intro moved d'' hmoved _ hmoves
    obtain rfl : content = moved := by simpa [hfile] using hmoved
    have hwritten : env.PlanWritten finalPlan records d₀ d'' := by
      refine ⟨⟨content, hcontent, by rw [hmoves, if_neg hpath, if_pos rfl]⟩, fun p hp => ?_⟩
      rw [hmoves, if_neg fun hp' => hp (Or.inl hp'), if_neg fun hp' => hp (Or.inr hp')]
      exact hd' p fun hp' => hp (Or.inl hp')
    exact ⟨Or.inr hwritten, hwritten⟩

/-- The plan's file comes only complete, and a call that returns has loaded it. -/
theorem keeps_writeContentPlanFile {E : InstallerFailure → Prop} {finalPlan : Bool}
    {records : List ContentPlanRecord} (hfiles : env.asset.files.length ≤ 2 ^ 32)
    (hrecords : env.PlanRecords finalPlan records)
    (hcollects : env.Collects allow (fun _ => E .fileSystemError) finalPlan records s d)
    (hmissing : d.nodeAt (env.contentPlanPath finalPlan) = none)
    (hother : d.nodeAt (env.contentPlanPath !finalPlan) ≠ some .directory)
    (hfinal : finalPlan = false → d.nodeAt (env.contentPlanPath true) = none)
    (hrefused : env.PlanRefused finalPlan records d → E .fileSystemError) :
    keeps allow (env.PlanKept finalPlan records d) E (env.writeContentPlanFile finalPlan)
      (fun _ s' d' => env.PlanWritten finalPlan records d d' ∧
        s'.contentPlan = some (records.map (·.noop), finalPlan)) s d := by
  have hstart : env.Unwritten finalPlan d d := fun _ _ => rfl
  refine keeps_bind (keeps_orElse (E := fun _ => E .fileSystemError)
    (keeps_removeIfPresent (Or.inl hstart) (fun hnode => hrefused (Or.inl hnode)) ?_)
    fun _ h => h)
  intro d₁ _ hupdate
  have hd₁ := hstart.update hupdate
  refine ⟨Or.inl hd₁, ?_⟩
  have hpath := env.contentPlanPath_ne_planTemporary finalPlan finalPlan
  have hfree : d₁.nodeAt (env.contentPlanPath finalPlan) = none := by
    rw [hd₁ _ hpath, hmissing]
  refine keeps_bind (keeps_orElse (E := fun _ => False) (keeps_stat (Or.inl hd₁) ?_) (by simp))
  rw [hfree]
  -- Past this point the state directory is there: the temporary lies in it.
  refine keeps_bind (keeps_orElse (E := fun _ => E .fileSystemError)
    (keeps_createFileFresh (Or.inl hd₁) ?_ ?_) fun _ h => h)
  · intro hnot
    refine hrefused (Or.inr (Or.inl fun hroot => hnot ⟨?_, ?_⟩))
    · rw [dropLast_addSuffix, contentPlanPath_dropLast, hd₁ _ (stateRoot_ne_planTemporary _),
        hroot]
    · exact (hupdate _).trans (if_pos rfl)
  intro d₂ _ hcreate
  have hd₂ : env.Unwritten finalPlan d d₂ := hd₁.update hcreate
  have htemporary : d₂.fileAt (env.planTemporary finalPlan) = some [] :=
    Volume.fileAt_eq_some_iff.mpr ((hcreate _).trans (if_pos rfl))
  have hroot : d.nodeAt env.stateRoot = some .directory := by
    have hparent := (Volume.nodeAt_dropLast_of_fileAt htemporary).2
    rwa [planTemporary, dropLast_addSuffix, contentPlanPath_dropLast,
      hd₂ _ (stateRoot_ne_planTemporary _)] at hparent
  refine ⟨Or.inl hd₂, ?_⟩
  refine keeps_bind (keeps_orElse (E := fun _ => E .fileSystemError) (keeps_withCleanup
    (keeps_done (keeps_publishPlan hcollects hd₂ htemporary hmissing hroot
      fun hnone => hrefused (Or.inr (Or.inr hnone))) ?_)
    fun s' d' hd' => keeps_cleanup hd' fun d'' hgone => hd'.update hgone) fun _ h => h)
  intro _ s₃ d₃ hd₃
  refine keeps_bind (keeps_orElse (E := fun _ => False)
    (keeps_syncContainingDirectory (Or.inr hd₃) ?_) (by simp))
  refine keeps_bind (keeps_modify ?_)
  refine keeps_loadContentPlan (Or.inr hd₃) (hd₃.planOn hfiles hrecords)
    (hd₃.selects hother hfinal) ⟨hd₃, rfl⟩

end Env

end BmxUpdate
