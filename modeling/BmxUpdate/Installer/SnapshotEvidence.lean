import BmxUpdate.Installer.PreparedPlan
import BmxUpdate.Installer.Frame

/-!
# Snapshots and their evidence

A snapshot step copies a live file below the snapshot root and writes down the
size and the digest of what it copied.  It leaves the live files and the plan
alone, and an evidence file, once there, says what the live file is.
-/

namespace BmxUpdate

open Crash Volumes Wire

/-! ## The evidence file -/

/-- An old file an evidence file can record. -/
structure OldFile.Encodable (old : OldFile) : Prop where
  size : old.size < 2 ^ 64
  missing : old.existed = false → old.size = 0 ∧ old.digest = .zero 32

@[simp] theorem length_snapshotEvidenceBody (old : OldFile) :
    (snapshotEvidenceBody old).length = 56 := by
  simp [snapshotEvidenceBody, kSnapshotMagic]

@[simp] theorem length_snapshotEvidenceContent (old : OldFile) :
    (snapshotEvidenceContent old).length = kSnapshotEvidenceBytes := by
  simp [snapshotEvidenceContent, kSnapshotEvidenceBytes]

theorem parseSnapshotEvidence_content {old : OldFile} (h : old.Encodable) :
    parseSnapshotEvidence (snapshotEvidenceContent old) = some old := by
  have hmagic : kSnapshotMagic.length = 8 := rfl
  have hsize := decodeLe_encodeLe (n := 8) (v := old.size) (by have := h.size; omega)
  have hcrc := decodeLe_encodeLe (n := 4)
    (v := calculateCrc32 (snapshotEvidenceBody old)) (calculateCrc32_lt _)
  have hbody : slice 0 56 (snapshotEvidenceContent old) = snapshotEvidenceBody old := by
    unfold snapshotEvidenceContent
    exact slice_head (by simp)
  have htail : slice 56 4 (snapshotEvidenceContent old) =
      encodeLe 4 (calculateCrc32 (snapshotEvidenceBody old)) := by
    unfold snapshotEvidenceContent
    rw [slice_skip (by simp), length_snapshotEvidenceBody, Nat.sub_self]
    exact slice_all (by simp)
  have hexisted : slice 8 1 (snapshotEvidenceContent old) = [byteOfBool old.existed] := by
    simp only [snapshotEvidenceContent, snapshotEvidenceBody, List.append_assoc, slice_skip,
      hmagic, Nat.le_refl, Nat.sub_self]
    rfl
  have hreserved : slice 9 7 (snapshotEvidenceContent old) = List.replicate 7 0 := by
    simp only [snapshotEvidenceContent, snapshotEvidenceBody, List.append_assoc, slice_skip,
      hmagic, Nat.reduceLeDiff, Nat.reduceSub]
    rfl
  have hrest : ∀ rest : Bytes,
      (byteOfBool old.existed :: List.replicate 7 0 ++ rest).drop 8 = rest := fun _ => rfl
  have holdSize : slice 16 8 (snapshotEvidenceContent old) = encodeLe 8 old.size := by
    simp only [snapshotEvidenceContent, snapshotEvidenceBody, List.append_assoc, slice_skip,
      hmagic, Nat.reduceLeDiff, Nat.reduceSub]
    unfold slice
    rw [hrest]
    exact List.take_left' (by simp)
  have hdigest : slice 24 32 (snapshotEvidenceContent old) = old.digest.bytes := by
    simp only [snapshotEvidenceContent, snapshotEvidenceBody, List.append_assoc, slice_skip,
      hmagic, Nat.reduceLeDiff, Nat.reduceSub]
    unfold slice
    rw [show (16 : Nat) = 8 + 8 from rfl, ← List.drop_drop, hrest, List.drop_left' (by simp)]
    exact List.take_left' (by simp)
  have hfirst : slice 0 8 (snapshotEvidenceContent old) = kSnapshotMagic := by
    simp only [snapshotEvidenceContent, snapshotEvidenceBody, List.append_assoc]
    exact slice_head hmagic
  have hbit : decide (byteOfBool old.existed ≠ 0) = old.existed := by
    cases old.existed <;> decide
  have hone : byteOfBool old.existed ≤ 1 := by
    cases old.existed <;> decide
  simp only [parseSnapshotEvidence, hexisted, hreserved, holdSize, hdigest, hfirst, htail, hbody,
    hsize, hcrc, hbit, List.headD_cons, Block.ofBytes_bytes]
  exact if_pos ⟨trivial, hone, trivial, trivial, h.missing⟩

/-! ## Writing it -/

variable {env : Env} {s : EngineState} {d : Volume}

/-- A confirmed evidence file is there. -/
theorem keeps_confirmEvidence (path : Path) (bytes : Bytes) :
    keeps anyFault (fun d' => d' = d) anyError (confirmEvidence path bytes)
      (fun _ s' d' => s' = s ∧ d' = d ∧ d.nodeAt path = some (.file bytes)) s d := by
  refine keeps_bind (keeps_orElse (E := anyError) ?_ fun _ _ => trivial)
  refine keeps_bind (keeps_orElse (E := anyError) (keeps_stat rfl ?_) fun _ _ => trivial)
  refine keeps_ite (fun _ => ?_) fun _ => ?_
  · exact keeps_pure (keeps_check (fun _ => ⟨rfl, trivial⟩) (by simp))
  · refine keeps_bind (keeps_check (fun _ => ⟨rfl, trivial⟩) fun _ => ?_)
    refine keeps_bind (keeps_orElse (E := anyError) (keeps_readFile rfl (fun _ => trivial)
      fun content hcontent => ?_) fun _ _ => trivial)
    refine keeps_pure (keeps_check (fun _ => ⟨rfl, trivial⟩) fun hsame => ⟨rfl, rfl, ?_⟩)
    obtain rfl : content = bytes := by simpa using hsame
    exact Volume.fileAt_eq_some_iff.mp hcontent

/-- An evidence file is as it was or complete, and beside it only its temporary
has changed. -/
def EvidenceKept (path : Path) (bytes : Bytes) (d₀ d : Volume) : Prop :=
  AgreeOff (fun p => p = path ∨ p = addSuffix path ".part") d₀ d ∧
    (d.nodeAt path = d₀.nodeAt path ∨ d.nodeAt path = some (.file bytes))

theorem EvidenceKept.update {path : Path} {bytes : Bytes} {d₀ d' : Volume}
    {node : Option Node} (h : EvidenceKept path bytes d₀ d) (hpath : path ≠ [])
    (hupdate : Updates d (addSuffix path ".part") node d') : EvidenceKept path bytes d₀ d' := by
  refine ⟨fun p hp => ?_, ?_⟩
  · rw [hupdate, if_neg fun hp' => hp (Or.inr hp')]
    exact h.1 p hp
  · rw [hupdate, if_neg (addSuffix_ne hpath (by decide)).symm]
    exact h.2

theorem keeps_publishEvidence {path : Path} {bytes : Bytes} {d₀ : Volume} (hpath : path ≠ [])
    (hd : EvidenceKept path bytes d₀ d) :
    keeps anyFault (EvidenceKept path bytes d₀) anyError
      (writeFreshEvidence.publishEvidence (addSuffix path ".part") path bytes)
      (fun _ s' d' => s' = s ∧ EvidenceKept path bytes d₀ d') s d := by
  refine keeps_bind (keeps_write hd (fun _ => trivial)
    (fun _ _ hupdate => hd.update hpath hupdate) fun d₁ hupdate => ?_)
  have hd₁ := hd.update hpath hupdate
  refine keeps_bind (keeps_barrier hd₁ (keeps_bind (keeps_barrier hd₁ ?_)))
  refine keeps_bind (keeps_rename hd₁ (fun _ => trivial) ?_)
  intro content d₂ hcontent _ hmoves
  have hname : path ≠ addSuffix path ".part" := (addSuffix_ne hpath (by decide)).symm
  have hd₂ : EvidenceKept path bytes d₀ d₂ := by
    refine ⟨fun p hp => ?_, Or.inr ?_⟩
    · rw [hmoves, if_neg fun hp' => hp (Or.inr hp'), if_neg fun hp' => hp (Or.inl hp')]
      exact hd₁.1 p hp
    · rw [Volume.fileAt_eq_some_iff, hupdate, if_pos rfl] at hcontent
      rw [hmoves, if_neg hname, if_pos rfl, ← Option.some.inj hcontent]
  exact ⟨hd₂, keeps_syncContainingDirectory hd₂ ⟨rfl, hd₂⟩⟩

/-- Whatever it meets, the evidence is left as it was or complete, and a call
that returns leaves it complete. -/
theorem keeps_writeFreshEvidence {path : Path} (bytes : Bytes) (hpath : path ≠ []) :
    keeps anyFault (EvidenceKept path bytes d) anyError (writeFreshEvidence path bytes)
      (fun _ s' d' => s' = s ∧ EvidenceKept path bytes d d' ∧
        d'.nodeAt path = some (.file bytes)) s d := by
  have hstart : EvidenceKept path bytes d d := ⟨fun _ _ => rfl, Or.inl rfl⟩
  have hconfirm : ∀ s' d', EvidenceKept path bytes d d' →
      keeps anyFault (EvidenceKept path bytes d) anyError (confirmEvidence path bytes)
        (fun _ s'' d'' => s'' = s' ∧ EvidenceKept path bytes d d'' ∧
          d''.nodeAt path = some (.file bytes)) s' d' := by
    intro s' d' hd'
    refine keeps_mono (keeps_confirmEvidence path bytes) (fun _ h => h ▸ hd') (fun _ h => h) ?_
    rintro _ s'' d'' ⟨rfl, rfl, hnode⟩
    exact ⟨rfl, hd', hnode⟩
  refine keeps_bind (keeps_orElse (E := anyError) (keeps_stat hstart ?_) fun _ _ => trivial)
  rcases hnode : d.nodeAt path with _ | content | _
  · refine keeps_bind (keeps_orElse (E := anyError) (keeps_removeIfPresent hstart
      (fun _ => trivial) fun d₁ _ hupdate => ?_) fun _ _ => trivial)
    have hd₁ := hstart.update hpath hupdate
    refine ⟨hd₁, keeps_bind (keeps_orElse (E := anyError) (keeps_createFileFresh hd₁
      (fun _ => trivial) fun d₂ _ hcreate => ?_) fun _ _ => trivial)⟩
    have hd₂ := hd₁.update hpath hcreate
    refine ⟨hd₂, keeps_bind (keeps_orElse (E := anyError) (keeps_withCleanup
      (keeps_done (keeps_publishEvidence hpath hd₂) ?_) fun _ d' hd' => ?_) fun _ _ => trivial)⟩
    · rintro _ s' d' ⟨rfl, hd'⟩
      exact hconfirm _ d' hd'
    · exact keeps_cleanup hd' fun d'' hgone => hd'.update hpath hgone
  · refine keeps_bind (keeps_check (fun _ => ⟨hstart, trivial⟩) fun _ => ?_)
    exact hconfirm s d hstart
  · exact keeps_throw hstart trivial

/-! ## Copying a file -/

/-- A step within a footprint keeps what every change within it keeps. -/
theorem keeps_within {ε α : Type} {fp : Footprint} {I : Volume → Prop}
    {m : Proc ε EngineState Volume α} (hm : Respects PlanStays (Within fp) m)
    (hclosed : ∀ d d', I d → Within fp d d' → I d') (hd : I d) :
    keeps anyFault I anyError m (fun _ s' d' => PlanStays s s' ∧ I d') s d :=
  keeps_mono (hm.keeps s d) (fun d' h => hclosed d d' hd h) (fun _ h => h)
    fun _ _ d' h => ⟨h.1, hclosed d d' hd h.2⟩

section Copies

variable {fp : Footprint} {I : Volume → Prop} {source destination : Path} {content : Content}
  (hclosed : ∀ d d', I d → Within fp d d' → I d')
  (hsource : ∀ d, I d → d.fileAt source = some content)

include hclosed hsource

/-- A fresh copy is a copy of the source, which no step of it changes. -/
theorem keeps_copyFresh (h : Publishes fp destination) (hd : I d) :
    keeps anyFault I anyError (Env.copyFresh source destination)
      (fun copied s' d' => copied = content ∧ PlanStays s s' ∧ I d') s d := by
  refine keeps_bind (keeps_orElse (keeps_mono (keeps_within (respects_removeIfPresent h.part)
    hclosed hd) (fun _ h => h) (fun _ h => h) ?_) fun _ _ => trivial)
  rintro _ s₁ d₁ ⟨hs₁, hd₁⟩
  have hcopied : keeps anyFault I anyError
      (Env.copyFresh.copySource source (addSuffix destination ".part"))
      (fun copied s' d' => copied = content ∧ PlanStays s₁ s' ∧ I d') s₁ d₁ := by
    refine keeps_bind (keeps_attempt (S := PlanStays) (J := I) (E := anyError)
      (T := fun copied _ d' => copied = content ∧ I d') ?_ ?_ (fun _ h => h) ?_ ?_)
    · refine keeps_bind (keeps_readFile hd₁ (fun _ => trivial) fun found hfound => ?_)
      refine keeps_bind (keeps_mono (keeps_within (respects_createFileFresh h.part) hclosed hd₁)
        (fun _ h => h) (fun _ h => h) ?_)
      rintro _ s₂ d₂ ⟨-, hd₂⟩
      refine keeps_pure ⟨?_, hd₂⟩
      rw [hsource d₁ hd₁, Option.some.injEq] at hfound
      exact hfound.symm
    · exact (Respects.bind (respects_readFile source) fun _ =>
        .bind (respects_createFileFresh h.part) fun _ => .pure _).steady anyFault
    · rintro copied s₂ d₂ hs₂ ⟨rfl, hd₂⟩
      exact keeps_pure ⟨rfl, hs₂, hd₂⟩
    · intro _ s₂ d₂ _ hd₂ _
      refine keeps_bind (keeps_mono (keeps_within (.attempt (respects_removeIfPresent h.part))
        hclosed hd₂) (fun _ h => h) (fun _ h => h) fun _ _ _ h => ?_)
      exact keeps_throw h.2 trivial
  refine keeps_bind (keeps_orElse (keeps_mono hcopied (fun _ h => h) (fun _ h => h) ?_)
    fun _ _ => trivial)
  rintro copied s₂ d₂ ⟨rfl, hs₂, hd₂⟩
  refine keeps_bind (keeps_orElse (keeps_mono (keeps_within (respects_withCleanup
    (respects_publish h.part h.file copied) (respects_removeIfPresent h.part)) hclosed hd₂)
    (fun _ h => h) (fun _ h => h) ?_) fun _ _ => trivial)
  rintro _ s₃ d₃ ⟨hs₃, hd₃⟩
  exact keeps_pure ⟨rfl, FrameRel.trans hs₁ (FrameRel.trans hs₂ hs₃), hd₃⟩

/-- What `CopyFileAtomic` reports is the size and the digest of the source. -/
theorem keeps_copyFileAtomic (h : Publishes fp destination) (hd : I d) :
    keeps anyFault I anyError (env.copyFileAtomic source destination)
      (fun copied s' d' => copied = (content.length, env.sha256 content) ∧ PlanStays s s' ∧ I d')
      s d := by
  refine keeps_bind (keeps_orElse (E := anyError) (keeps_stat hd ?_) fun _ _ => trivial)
  refine keeps_bind (keeps_orElse (E := anyError) (keeps_stat hd ?_) fun _ _ => trivial)
  refine keeps_bind (keeps_check (fun _ => ⟨hd, trivial⟩) fun _ => ?_)
  rcases d.nodeAt destination with _ | _ | _
  · refine keeps_bind (keeps_orElse (keeps_mono (keeps_within
      (respects_ensureParents h.ancestors) hclosed hd) (fun _ h => h) (fun _ h => h) ?_)
      fun _ _ => trivial)
    rintro _ s₁ d₁ ⟨hs₁, hd₁⟩
    refine keeps_bind (keeps_done (keeps_copyFresh hclosed hsource h hd₁) ?_)
    rintro copied s₂ d₂ ⟨rfl, hs₂, hd₂⟩
    refine keeps_bind (keeps_mono (keeps_within (env.respects_verifyFile _ _ _) hclosed hd₂)
      (fun _ h => h) (fun _ h => h) ?_)
    rintro _ s₃ d₃ ⟨hs₃, hd₃⟩
    exact keeps_pure ⟨rfl, FrameRel.trans hs₁ (FrameRel.trans hs₂ hs₃), hd₃⟩
  · refine keeps_bind (keeps_orElse (E := anyError) ?_ fun _ _ => trivial)
    refine keeps_bind (keeps_readFile hd (fun _ => trivial) fun found hfound => ?_)
    rw [hsource d hd, Option.some.injEq] at hfound
    subst hfound
    refine keeps_bind (keeps_mono (keeps_within (respects_progressFor _) hclosed hd)
      (fun _ h => h) (fun _ h => h) ?_)
    rintro _ s₁ d₁ ⟨hs₁, hd₁⟩
    refine keeps_pure (keeps_bind (keeps_orElse (keeps_mono (keeps_within
      (env.respects_hashFile destination) hclosed hd₁) (fun _ h => h) (fun _ h => h) ?_)
      fun _ _ => trivial))
    rintro _ s₂ d₂ ⟨hs₂, hd₂⟩
    refine keeps_bind (keeps_check (fun _ => ⟨hd₂, trivial⟩) fun _ => ?_)
    exact keeps_pure ⟨rfl, FrameRel.trans hs₁ hs₂, hd₂⟩
  · exact keeps_throw hd trivial

end Copies

/-! ## The names below the state root -/

namespace Env

theorem snapshotEvidencePath_inj {i j : Nat}
    (h : env.snapshotEvidencePath i = env.snapshotEvidencePath j) : i = j := by
  simp only [snapshotEvidencePath, List.append_cancel_left_eq, List.cons.injEq, and_true] at h
  have hlist := congrArg String.toList h
  simp only [String.toList_append, List.append_cancel_left_eq, Nat.toString_eq_repr,
    Nat.toList_repr] at hlist
  have hvalue := congrArg (fun digits => Nat.ofDigitChars 10 digits 0) hlist
  simpa only [Nat.ofDigitChars_ten_toDigits] using hvalue

theorem snapshotEvidencePath_ne_part (i j : Nat) :
    env.snapshotEvidencePath i ≠ addSuffix (env.snapshotEvidencePath j) ".part" := by
  intro h
  simp only [snapshotEvidencePath, addSuffix_concat, List.append_cancel_left_eq, List.cons.injEq,
    and_true] at h
  have hlist := congrArg String.toList h
  simp only [String.toList_append, List.append_assoc, List.append_cancel_left_eq] at hlist
  have hp : 'p' ∈ (toString i).toList := by
    rw [hlist]
    exact List.mem_append_right _ (by decide)
  have hdigit := Nat.isDigit_of_mem_toDigits (by decide) (by decide) (Nat.toList_repr ▸ hp)
  revert hdigit
  decide

/-- The names of plans and of evidence files begin differently. -/
theorem planName_ne_evidenceName (finalPlan : Bool) (rest rest' : String) :
    (if finalPlan = true then "content-plan" else "content-plan.prepared") ++ rest ≠
      "snapshot-" ++ rest' := by
  intro h
  have hlist := congrArg (fun name => name.toList.head?) h
  cases finalPlan <;> simp [String.toList_append] at hlist

/-- No plan has the name of an evidence file or of its temporary. -/
theorem contentPlanPath_ne_evidence (env : Env) (finalPlan : Bool) (index : Nat) :
    env.contentPlanPath finalPlan ≠ env.snapshotEvidencePath index ∧
      env.contentPlanPath finalPlan ≠ addSuffix (env.snapshotEvidencePath index) ".part" := by
  unfold contentPlanPath snapshotEvidencePath
  rw [addSuffix_concat]
  constructor
  · simpa using planName_ne_evidenceName finalPlan "" (toString index)
  · simpa [String.append_assoc] using
      planName_ne_evidenceName finalPlan "" (toString index ++ ".part")

theorem planTemporary_ne_evidence (env : Env) (finalPlan : Bool) (index : Nat) :
    env.planTemporary finalPlan ≠ env.snapshotEvidencePath index := by
  unfold planTemporary contentPlanPath snapshotEvidencePath
  rw [addSuffix_concat]
  simpa using planName_ne_evidenceName finalPlan ".part" (toString index)

theorem snapshotEvidencePath_ne_nil (index : Nat) : env.snapshotEvidencePath index ≠ [] := by
  simp [snapshotEvidencePath]

theorem root_le_snapshotEvidencePath (env : Env) (index : Nat) :
    env.root <+: env.snapshotEvidencePath index ∧
      env.root <+: addSuffix (env.snapshotEvidencePath index) ".part" := by
  unfold snapshotEvidencePath
  rw [addSuffix_concat]
  simp [stateRoot]

/-! ## What a snapshot's copy may change -/

/-- The snapshot tree. -/
def snapshotFootprint (env : Env) : Footprint where
  file p := env.snapshotRoot <+: p
  appear p := ∃ file ∈ env.asset.files, p ∈ properAncestors (env.snapshot file)
  vanish _ := False

theorem publishes_snapshot {file : ManifestFile} (hmem : file ∈ env.asset.files)
    (hpath : file.path ≠ []) : Publishes env.snapshotFootprint (env.snapshot file) where
  file := List.prefix_append _ _
  part := prefix_addSuffix hpath _
  ancestors := fun _ h => ⟨file, hmem, h⟩

/-- A path outside the snapshot tree keeps its node, as its parents are there. -/
theorem snapshot_frame {d' : Volume} (h : Within env.snapshotFootprint d d')
    (hroot : d.nodeAt env.root = some .directory) {p : Path} (hp : ¬env.snapshotRoot <+: p) :
    d'.nodeAt p = d.nodeAt p := by
  by_cases hdirectory : d.nodeAt p = some .directory
  · rcases h p with hsame | ⟨-, -, hvanish⟩
    · exact hsame
    · exact (hvanish hdirectory).elim
  by_cases happear : env.snapshotFootprint.appear p
  · obtain ⟨file, -, hmem⟩ := happear
    obtain ⟨-, hinit, -⟩ := mem_properAncestors.mp hmem
    refine absurd ?_ hdirectory
    rcases List.prefix_or_prefix_of_prefix hinit (List.prefix_append _ file.path) with hle | hle
    · have hparent : p <+: env.root := by
        unfold snapshotRoot at hle
        rcases List.prefix_concat_iff.mp hle with rfl | hle
        · exact absurd (List.prefix_refl _) hp
        · exact hle
      by_cases hsame : p = env.root
      · rw [hsame, hroot]
      · exact d.nodeAt_of_isPrefix hparent hsame (by simp [hroot])
    · exact absurd hle hp
  · exact h.nodeAt_eq hp happear id

/-! ## The volume between the two plans -/

/-- What the live volume has at the path of a manifest file. -/
def oldFile (env : Env) (d : Volume) (file : ManifestFile) : OldFile :=
  match d.fileAt file.path with
  | none => ⟨false, 0, .zero 32⟩
  | some content => ⟨true, content.length, env.sha256 content⟩

theorem oldFile_encodable {file : ManifestFile} (h : SizesFit d) :
    (env.oldFile d file).Encodable := by
  unfold oldFile
  cases hfile : d.fileAt file.path with
  | none => exact ⟨by simp, fun _ => ⟨rfl, rfl⟩⟩
  | some content => exact ⟨h _ _ hfile, fun hnot => by cases hnot⟩

/-- The requests and live volumes a plan can be made for: paths are not empty and
lie outside the transaction root, and configurations are what consent was given
for. -/
structure PlanSite (env : Env) (d₀ : Volume) : Prop where
  files : env.asset.files.length ≤ kMaximumManifestFiles
  paths : ∀ file ∈ env.asset.files, file.path ≠ []
  outside : env.LiveOutside
  sizes : SizesFit d₀
  consented : env.Consented d₀

theorem PlanSite.files_le {d₀ : Volume} (h : env.PlanSite d₀) :
    env.asset.files.length ≤ 2 ^ 32 :=
  h.files.trans (by unfold kMaximumManifestFiles; omega)

/-- The prepared plan has no digest of an old file that a snapshot is taken of. -/
def Unknown (env : Env) (d₀ : Volume) (file : ManifestFile) : Prop :=
  file.policy.isSnapshot = true ∧ (env.sourceRecord d₀ file).sourceExisted = true ∧
    (env.sourceRecord d₀ file).oldDigestValid = false

/-- The volume while snapshots are taken of the live files of `d₀`: these are as
they were, and an evidence file that is there says what they were. -/
structure Recorded (env : Env) (d₀ d : Volume) : Prop where
  live : ∀ file ∈ env.asset.files, d.nodeAt file.path = d₀.nodeAt file.path
  state : d.nodeAt env.stateRoot = some .directory
  final : d.nodeAt (env.contentPlanPath true) = none
  evidence : ∀ index file, env.asset.files[index]? = some file →
    d.nodeAt (env.snapshotEvidencePath index) = none ∨
      d.nodeAt (env.snapshotEvidencePath index) =
        some (.file (snapshotEvidenceContent (env.oldFile d₀ file)))

/-- The same once the prepared plan is there, and the evidence of the files with
an index in `taken` as far as the plan does not make it needless. -/
structure Planned (env : Env) (d₀ : Volume) (taken : Nat → Prop) (d : Volume) : Prop
    extends env.Recorded d₀ d where
  plan : env.PlanOn false (env.sourceRecords d₀) d
  taken : ∀ index file, env.asset.files[index]? = some file → taken index →
    env.Unknown d₀ file → d.nodeAt (env.snapshotEvidencePath index) ≠ none

variable {d₀ : Volume} {taken : Nat → Prop}

theorem Recorded.root (h : env.Recorded d₀ d) : d.nodeAt env.root = some .directory := by
  refine d.nodeAt_of_isPrefix (q := env.stateRoot) (List.prefix_append _ _) ?_ (by simp [h.state])
  unfold stateRoot
  simp

theorem Planned.selects (h : env.Planned d₀ taken d) : env.Selects false false d where
  files kind := by
    obtain ⟨encoded, hfile, -⟩ := h.plan
    cases kind with
    | true => simp [h.final]
    | false => simp [Volume.fileAt_eq_some_iff.mp hfile]
  prepared _ := ⟨h.final, rfl⟩

theorem Planned.mono {taken' : Nat → Prop} (h : env.Planned d₀ taken d)
    (htaken : ∀ index, taken' index → taken index) : env.Planned d₀ taken' d :=
  { h with taken := fun index file hfile hindex => h.taken index file hfile (htaken index hindex) }

/-- A change that leaves the live files, the plans, the evidence and the state
root alone. -/
theorem Recorded.congr {d' : Volume} (h : env.Recorded d₀ d)
    (hlive : ∀ file ∈ env.asset.files, d'.nodeAt file.path = d.nodeAt file.path)
    (hstate : d'.nodeAt env.stateRoot = d.nodeAt env.stateRoot)
    (hfinal : d'.nodeAt (env.contentPlanPath true) = d.nodeAt (env.contentPlanPath true))
    (hevidence : ∀ index, d'.nodeAt (env.snapshotEvidencePath index) =
      d.nodeAt (env.snapshotEvidencePath index)) : env.Recorded d₀ d' where
  live file hmem := (hlive file hmem).trans (h.live file hmem)
  state := hstate.trans h.state
  final := hfinal.trans h.final
  evidence index file hfile := by
    rw [hevidence]
    exact h.evidence index file hfile

theorem PlanOn.congr {d' : Volume} {finalPlan : Bool} {records : List ContentPlanRecord}
    (h : env.PlanOn finalPlan records d)
    (hplan : d'.nodeAt (env.contentPlanPath finalPlan) =
      d.nodeAt (env.contentPlanPath finalPlan)) : env.PlanOn finalPlan records d' := by
  obtain ⟨encoded, hfile, hparse⟩ := h
  refine ⟨encoded, ?_, hparse⟩
  unfold Volume.fileAt
  rw [hplan]
  exact hfile

theorem Planned.congr {d' : Volume} (h : env.Planned d₀ taken d)
    (hlive : ∀ file ∈ env.asset.files, d'.nodeAt file.path = d.nodeAt file.path)
    (hstate : d'.nodeAt env.stateRoot = d.nodeAt env.stateRoot)
    (hplan : ∀ kind, d'.nodeAt (env.contentPlanPath kind) = d.nodeAt (env.contentPlanPath kind))
    (hevidence : ∀ index, d'.nodeAt (env.snapshotEvidencePath index) =
      d.nodeAt (env.snapshotEvidencePath index)) : env.Planned d₀ taken d' where
  toRecorded := h.toRecorded.congr hlive hstate (hplan true) hevidence
  plan := h.plan.congr (hplan false)
  taken index file hfile hindex hunknown := by
    rw [hevidence]
    exact h.taken index file hfile hindex hunknown

theorem not_snapshotRoot_le_state (name : String) :
    ¬env.snapshotRoot <+: env.stateRoot ++ [name] := by
  unfold snapshotRoot stateRoot
  rw [List.append_assoc, List.prefix_append_right_inj]
  simp [List.cons_prefix_cons]

/-- Changes of the snapshot tree leave all this alone. -/
theorem Planned.within {d' : Volume} (hsite : env.PlanSite d₀) (h : env.Planned d₀ taken d)
    (hwithin : Within env.snapshotFootprint d d') : env.Planned d₀ taken d' := by
  refine h.congr (fun file hmem => ?_) ?_ (fun kind => ?_) fun index => ?_
  · refine snapshot_frame hwithin h.root fun hle => hsite.outside file hmem ?_
    exact (List.prefix_append env.root ["snapshot"]).trans hle
  · refine snapshot_frame hwithin h.root ?_
    unfold snapshotRoot stateRoot
    rw [List.prefix_append_right_inj]
    simp [List.cons_prefix_cons]
  · exact snapshot_frame hwithin h.root (not_snapshotRoot_le_state _)
  · exact snapshot_frame hwithin h.root (not_snapshotRoot_le_state _)

/-- Writing the evidence of one file leaves all this alone, and adds its index. -/
theorem Planned.evidenceKept {d' : Volume} {index : Nat} {file : ManifestFile}
    (hsite : env.PlanSite d₀) (h : env.Planned d₀ taken d)
    (hfile : env.asset.files[index]? = some file)
    (hkept : EvidenceKept (env.snapshotEvidencePath index)
      (snapshotEvidenceContent (env.oldFile d₀ file)) d d') : env.Planned d₀ taken d' := by
  have hoff : ∀ p, ¬(p = env.snapshotEvidencePath index ∨
      p = addSuffix (env.snapshotEvidencePath index) ".part") → d'.nodeAt p = d.nodeAt p :=
    hkept.1
  have hself : d'.nodeAt (env.snapshotEvidencePath index) =
        d.nodeAt (env.snapshotEvidencePath index) ∨
      d'.nodeAt (env.snapshotEvidencePath index) =
        some (.file (snapshotEvidenceContent (env.oldFile d₀ file))) := hkept.2
  have hother : ∀ j, j ≠ index → d'.nodeAt (env.snapshotEvidencePath j) =
      d.nodeAt (env.snapshotEvidencePath j) := by
    intro j hj
    refine hoff _ fun hp => hp.elim (fun hp => hj (snapshotEvidencePath_inj hp)) fun hp => ?_
    exact snapshotEvidencePath_ne_part j index hp
  have hplan : ∀ kind, d'.nodeAt (env.contentPlanPath kind) =
      d.nodeAt (env.contentPlanPath kind) := by
    intro kind
    have hne := env.contentPlanPath_ne_evidence kind index
    exact hoff _ fun hp => hp.elim hne.1 hne.2
  refine
    { live := fun other hmem => ?_
      state := ?_
      final := by rw [hplan]; exact h.final
      evidence := fun j other hother' => ?_
      plan := ?_
      taken := fun j other hother' hindex hunknown => ?_ }
  · rw [hoff, h.live other hmem]
    have hle := env.root_le_snapshotEvidencePath index
    rintro (hp | hp)
    · exact hsite.outside other hmem (hp ▸ hle.1)
    · exact hsite.outside other hmem (hp ▸ hle.2)
  · rw [hoff, h.state]
    have hlength : ∀ suffix : String,
        env.stateRoot ≠ env.stateRoot ++ ["snapshot-" ++ toString index ++ suffix] := by
      intro suffix hp
      have := congrArg List.length hp
      simp at this
    unfold snapshotEvidencePath
    rw [addSuffix_concat]
    rintro (hp | hp)
    · have := congrArg List.length hp
      simp at this
    · exact hlength _ hp
  · by_cases hj : j = index
    · subst hj
      obtain rfl : file = other := by simpa [hfile] using hother'
      rcases hself with hself | hself
      · rw [hself]
        exact h.evidence j file hfile
      · exact Or.inr hself
    · rw [hother j hj]
      exact h.evidence j other hother'
  · exact h.plan.congr (hplan false)
  · by_cases hj : j = index
    · subst hj
      rcases hself with hself | hself
      · rw [hself]
        exact h.taken j other hother' hindex hunknown
      · simp [hself]
    · rw [hother j hj]
      exact h.taken j other hother' hindex hunknown

/-- One more index. -/
theorem Planned.take {index : Nat} (h : env.Planned d₀ taken d)
    (htaken : ∀ file, env.asset.files[index]? = some file → env.Unknown d₀ file →
      d.nodeAt (env.snapshotEvidencePath index) ≠ none) :
    env.Planned d₀ (fun j => taken j ∨ j = index) d :=
  { h with
    taken := by
      rintro j file hfile (hj | rfl) hunknown
      · exact h.taken j file hfile hj hunknown
      · exact htaken file hfile hunknown }

theorem keeps_writeSnapshotEvidence {index : Nat} {file : ManifestFile} {old : OldFile}
    (hsite : env.PlanSite d₀) (h : env.Planned d₀ taken d)
    (hfile : env.asset.files[index]? = some file) (hold : old = env.oldFile d₀ file) :
    keeps anyFault (env.Planned d₀ taken) anyError (env.writeSnapshotEvidence index old)
      (fun _ s' d' => s' = s ∧ env.Planned d₀ (fun j => taken j ∨ j = index) d') s d := by
  subst hold
  refine keeps_mono (keeps_writeFreshEvidence _ (snapshotEvidencePath_ne_nil index))
    (fun d' hkept => h.evidenceKept hsite hfile hkept) (fun _ h => h) ?_
  rintro _ s' d' ⟨rfl, hkept, hnode⟩
  exact ⟨rfl, (h.evidenceKept hsite hfile hkept).take fun _ _ _ => by simp [hnode]⟩

/-! ## One snapshot step -/

/-- The plan in memory is the prepared plan of the live tree. -/
def PreparedInMemory (env : Env) (d₀ : Volume) (s : EngineState) : Prop :=
  InMemory s false (env.sourceRecords d₀)

/-- A look at the evidence that succeeds has found it, unless the plan makes it
needless. -/
theorem keeps_readSnapshotEvidence {index : Nat} {file : ManifestFile}
    (h : env.Planned d₀ taken d) (hfile : env.asset.files[index]? = some file)
    (hs : env.PreparedInMemory d₀ s) :
    keeps anyFault (fun d' => d' = d) anyError (env.readSnapshotEvidence index)
      (fun _ _ d' => d' = d ∧ (env.Unknown d₀ file →
        d.nodeAt (env.snapshotEvidencePath index) ≠ none)) s d := by
  refine keeps_bind (keeps_readContentPlanRecord rfl h.plan h.selects hs
    (getElem?_sourceRecords hfile) ?_)
  refine keeps_ite (fun hexisted => ?_) fun hexisted => ?_
  · refine keeps_pure ⟨rfl, fun hunknown => ?_⟩
    have hpresent := hunknown.2.1
    rw [hexisted] at hpresent
    cases hpresent
  refine keeps_ite (fun hvalid => ?_) fun hvalid => ?_
  · refine keeps_pure ⟨rfl, fun hunknown => ?_⟩
    rw [hunknown.2.2] at hvalid
    exact absurd hvalid (by decide)
  refine keeps_bind (keeps_loadedContentPlan rfl h.plan h.selects (inMemory_loadedState _ _ _) ?_)
  refine keeps_bind (keeps_check (fun _ => ⟨rfl, trivial⟩) fun _ => ?_)
  refine keeps_bind (keeps_bind (keeps_orElse (E := anyError) (keeps_stat rfl ?_)
    fun _ _ => trivial))
  refine keeps_ite (fun _ => ?_) fun hpresent => ?_
  · exact keeps_pure (keeps_throw rfl trivial)
  · refine keeps_bind (keeps_check (fun _ => ⟨rfl, trivial⟩) fun _ => ?_)
    refine keeps_bind (keeps_orElse (E := anyError) (keeps_readFile rfl (fun _ => trivial)
      fun content _ => ?_) fun _ _ => trivial)
    refine keeps_pure ?_
    rw [statOf_type_eq_missing] at hpresent
    cases hparse : (some content).bind parseSnapshotEvidence with
    | none => exact keeps_throw rfl trivial
    | some old => exact keeps_pure ⟨rfl, fun _ => hpresent⟩

theorem respects_snapshotKnown_tree {file : ManifestFile} (hsite : env.PlanSite d₀)
    (hmem : file ∈ env.asset.files) (source target : UpdateFileStat) (old : OldFile) :
    Respects PlanStays (Within env.snapshotFootprint)
      (env.snapshotKnown file source target old) := by
  unfold snapshotKnown
  split
  · exact .check _ _
  split
  · exact env.respects_copyFileAtomicExpected (publishes_snapshot hmem (hsite.paths _ hmem))
  · exact .orElse _ (env.respects_verifyFile _ _ _)

theorem keeps_snapshotUnknown {index : Nat} {file : ManifestFile} (hsite : env.PlanSite d₀)
    (h : env.Planned d₀ taken d) (hfile : env.asset.files[index]? = some file)
    (target : UpdateFileStat) :
    keeps anyFault (env.Planned d₀ taken) anyError
      (env.snapshotUnknown index file (statOf (d₀.nodeAt file.path)) target)
      (fun _ s' d' => PlanStays s s' ∧ env.Planned d₀ (fun j => taken j ∨ j = index) d') s d := by
  have hmem := List.mem_of_getElem? hfile
  rcases hnode : d₀.nodeAt file.path with _ | content | _
  · have hold : (⟨false, 0, .zero 32⟩ : OldFile) = env.oldFile d₀ file := by
      simp [oldFile, Volume.fileAt, hnode]
    refine keeps_bind (keeps_check (fun _ => ⟨h, trivial⟩) fun _ => ?_)
    refine keeps_done (keeps_writeSnapshotEvidence hsite h hfile hold) ?_
    rintro _ s' d' ⟨rfl, hd'⟩
    exact ⟨fun _ h => h, hd'⟩
  · have hcontent : d₀.fileAt file.path = some content := Volume.fileAt_eq_some_iff.mpr hnode
    have hold : (⟨true, content.length, env.sha256 content⟩ : OldFile) =
        env.oldFile d₀ file := by
      simp [oldFile, hcontent]
    have hsource : ∀ d', env.Planned d₀ taken d' → d'.fileAt file.path = some content := by
      intro d' hd'
      unfold Volume.fileAt
      rw [hd'.live file hmem]
      exact hcontent
    refine keeps_bind (keeps_done (keeps_copyFileAtomic
      (fun d d' hd hwithin => hd.within hsite hwithin) hsource
      (publishes_snapshot hmem (hsite.paths _ hmem)) h) ?_)
    rintro copied s₁ d₁ ⟨rfl, hs₁, hd₁⟩
    refine keeps_bind (keeps_check (fun _ => ⟨hd₁, trivial⟩) fun _ => ?_)
    refine keeps_done (keeps_writeSnapshotEvidence hsite hd₁ hfile hold) ?_
    rintro _ s' d' ⟨rfl, hd'⟩
    exact ⟨hs₁, hd'⟩
  · exact keeps_throw h trivial

theorem sourceRecord_valid_of_noop {file : ManifestFile}
    (h : (env.sourceRecord d file).noop = true) :
    (env.sourceRecord d file).oldDigestValid = true := by
  unfold sourceRecord at h ⊢
  split at h
  · cases h
  split at h
  · rfl
  split at h
  · rw [if_pos ‹_›]
    rfl
  · simp [classifyRecord] at h

/-- One turn of the snapshot loop: whatever it meets, the volume stays as it has
to be, and a turn that returns has the file's index taken. -/
theorem keeps_snapshotFile {index : Nat} {file : ManifestFile} (hsite : env.PlanSite d₀)
    (h : env.Planned d₀ taken d) (hfile : env.asset.files[index]? = some file)
    (hs : env.PreparedInMemory d₀ s) :
    keeps anyFault (env.Planned d₀ taken) anyError (env.snapshotFile index file)
      (fun _ s' d' => env.PreparedInMemory d₀ s' ∧
        env.Planned d₀ (fun j => taken j ∨ j = index) d') s d := by
  have hmem := List.mem_of_getElem? hfile
  have hclosed : ∀ d d', env.Planned d₀ taken d → Within env.snapshotFootprint d d' →
      env.Planned d₀ taken d' := fun d d' hd hwithin => hd.within hsite hwithin
  refine keeps_bind (keeps_orElse (E := anyError) (keeps_stat h ?_) fun _ _ => trivial)
  rw [h.live file hmem]
  refine keeps_bind (keeps_orElse (E := anyError) (keeps_stat h ?_) fun _ _ => trivial)
  refine keeps_bind (keeps_isNoop h h.plan h.selects hs (getElem?_sourceRecords hfile) ?_)
  -- From here on the plan is in memory, and stays there.
  have hloaded : ∀ s', PlanStays (loadedState s false (env.sourceRecords d₀)) s' →
      env.PreparedInMemory d₀ s' := fun s' hs' => Or.inr (hs' _ rfl)
  refine keeps_ite (fun hnoop => ?_) fun _ => ?_
  · refine keeps_pure ⟨hloaded _ fun _ h => h, h.take fun other hother hunknown => ?_⟩
    obtain rfl : file = other := by simpa [hfile] using hother
    have hvalid := sourceRecord_valid_of_noop hnoop
    rw [hunknown.2.2] at hvalid
    cases hvalid
  refine keeps_bind (keeps_mono (keeps_within (env.respects_checkConsentedSource file _) hclosed
    h) (fun _ h => h) (fun _ h => h) ?_)
  rintro _ s₁ d₁ ⟨hs₁, hd₁⟩
  refine keeps_bind (keeps_attempt (S := PlanStays) (J := fun d' => d' = d₁) (E := anyError)
    (keeps_readSnapshotEvidence hd₁ hfile (hloaded s₁ hs₁))
    ((env.respects_readSnapshotEvidence (R := Eq) index).steady anyFault) ?_ ?_ ?_)
  · rintro _ rfl
    exact hd₁
  · rintro old s₂ d₂ hs₂ ⟨rfl, hfound⟩
    refine keeps_mono (keeps_within (respects_snapshotKnown_tree hsite hmem _ _ old)
      (fun d d' (hd : env.Planned d₀ (fun j => taken j ∨ j = index) d) hwithin =>
        hd.within hsite hwithin) ?_) ?_ (fun _ h => h) ?_
    · refine hd₁.take fun other hother hunknown => ?_
      obtain rfl : file = other := by simpa [hfile] using hother
      exact hfound hunknown
    · exact fun d' hd' => hd'.mono fun _ => Or.inl
    · rintro _ s₃ d₃ ⟨hs₃, hd₃⟩
      exact ⟨hloaded s₃ (FrameRel.trans hs₁ (FrameRel.trans hs₂ hs₃)), hd₃⟩
  · rintro failure s₂ d₂ hs₂ rfl -
    cases failure with
    | rollbackEvidenceMissing =>
        refine keeps_done (keeps_snapshotUnknown hsite hd₁ hfile _) ?_
        rintro _ s₃ d₃ ⟨hs₃, hd₃⟩
        exact ⟨hloaded s₃ (FrameRel.trans hs₁ (FrameRel.trans hs₂ hs₃)), hd₃⟩
    | _ => exact keeps_throw hd₁ trivial

end Env

end BmxUpdate
