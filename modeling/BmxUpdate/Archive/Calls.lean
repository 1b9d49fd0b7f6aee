import BmxUpdate.Archive.Storage

/-!
# What the calls of the storage do

For every step of the sink and of the cleanup: the nodes it can touch, what it leaves
where it returns, and, for `Finish`, exactly when it returns.
-/

namespace BmxUpdate

namespace Archive

open Wire Crash Volumes FatPath

/-- Files may change at `files`, and directories may come at `directories`. -/
def touching (files directories : Path → Prop) : Footprint := ⟨files, directories, fun _ => False⟩

/-- Nothing else appears. -/
def noPath : Path → Prop := fun _ => False

/-- The part of a download. -/
def partOf (paths : FatFsUpdateArchivePaths) : Path → Prop := (· = nodePath paths.partPath)

/-- Both files of a download. -/
def filesOf (paths : FatFsUpdateArchivePaths) : Path → Prop := fun path =>
  path = nodePath paths.partPath ∨ path = nodePath paths.finalPath

/-- The directories above a download. -/
def aboveOf (paths : FatFsUpdateArchivePaths) : Path → Prop :=
  (· ∈ parentPaths (nodePath paths.partPath))

/-- The archive that a binding or a sink asks for. -/
structure IsArchive (size : Nat) (digest : Digest) (content : Content) : Prop where
  size : content.length = size
  digest : sha256 content = digest

instance (size : Nat) (digest : Digest) (content : Content) :
    Decidable (IsArchive size digest content) :=
  decidable_of_iff (content.length = size ∧ sha256 content = digest)
    ⟨fun h => ⟨h.1, h.2⟩, fun h => ⟨h.size, h.digest⟩⟩

/-- A program that may do anything. -/
theorem keeps_anything {ε α : Type} {m : Proc ε Unit Volume α} {d : Volume} :
    keeps anyFault (fun _ => True) anyError m (fun _ _ _ => True) () d := by
  intro faults _
  cases m () ⟨d, faults⟩ with
  | done a s w => exact ⟨trivial, fun _ _ => trivial⟩
  | error e s w => exact ⟨⟨trivial, Or.inl trivial⟩, fun _ _ => trivial⟩
  | cut d' => exact ⟨trivial, 0, trivial⟩

/-! ## The sink -/

namespace FatFsDownloadSink

section Start

variable {current : Option FatFsDownloadSink} {partPath finalPath : Bytes} {size : Nat}
  {digest : Digest}

theorem respects_start :
    Respects (fun _ _ : Unit => True)
      (Within (touching (· = nodePath partPath) (· ∈ parentPaths (nodePath partPath))))
      (start current partPath finalPath size digest) :=
  (Respects.check _ _).bind fun _ => (respects_validated _).bind fun _ =>
    (respects_validated _).bind fun _ => (Respects.check _ _).bind fun _ =>
    (respects_fatFsStatPath _).bind fun _ => (Respects.check _ _).bind fun _ =>
    (respects_fatFsRemoveFileIfPresent (respects_removeFile rfl)).bind fun _ =>
    (respects_ensureParentDirectories fun _ h => h).bind fun _ =>
    ((respects_createFileFresh rfl).orElse _).bind fun _ => .pure _

/-- A part is begun only where there is no final file, and there is none afterwards. -/
theorem keeps_start {d : Volume} (hpart : validateFatFsAbsolutePath partPath = .ok ())
    (hfinal : validateFatFsAbsolutePath finalPath = .ok ())
    (hne : nodePath finalPath ≠ nodePath partPath)
    (habove : nodePath finalPath ∉ parentPaths (nodePath partPath)) :
    keeps anyFault (fun _ => True) anyError (start current partPath finalPath size digest)
      (fun sink _ d' => sink = ⟨size, digest, [], partPath, finalPath⟩ ∧
        d'.nodeAt (nodePath finalPath) = none ∧ d'.nodeAt (nodePath partPath) = some (.file []))
      () d := by
  have hsteps : keeps anyFault (fun _ => True) anyError
      (start current partPath finalPath size digest)
      (fun sink _ d' => sink = ⟨size, digest, [], partPath, finalPath⟩ ∧
        d.nodeAt (nodePath finalPath) = none ∧ d'.nodeAt (nodePath partPath) = some (.file []))
      () d := by
    refine keeps_bind (keeps_check (fun _ => ⟨trivial, trivial⟩) fun _ => ?_)
    refine keeps_bind (keeps_validated hpart (keeps_bind (keeps_validated hfinal ?_)))
    refine keeps_bind (keeps_check (fun _ => ⟨trivial, trivial⟩) fun _ => ?_)
    refine keeps_bind (keeps_fatFsStatPath hfinal trivial ?_)
    refine keeps_bind (keeps_check (fun _ => ⟨trivial, trivial⟩) fun hmissing => ?_)
    have hnone : d.nodeAt (nodePath finalPath) = none := by simpa using hmissing
    refine keeps_bind (keeps_done keeps_anything fun _ _ d₁ _ => ?_)
    refine keeps_bind (keeps_done keeps_anything fun _ _ d₂ _ => ?_)
    refine keeps_bind (keeps_orElse (E := anyError) (keeps_createFileFresh trivial
      (fun _ => trivial) fun d₃ _ hget => ⟨trivial, keeps_pure ⟨rfl, hnone, ?_⟩⟩)
      fun _ _ => trivial)
    rw [hget, if_pos rfl]
  have htouched := (@respects_start current partPath finalPath size digest).keeps () d
  refine wp_mono (wp_and hsteps htouched) ?_ (fun _ _ _ h => h.1) fun _ h => h.1
  rintro sink _ d' ⟨⟨hsink, hnone, hnode⟩, -, hwithin⟩
  have hsame : d'.nodeAt (nodePath finalPath) = d.nodeAt (nodePath finalPath) :=
    hwithin.nodeAt_eq hne habove id
  exact ⟨hsink, hsame.trans hnone, hnode⟩

end Start

variable {sink : FatFsDownloadSink} {data : Bytes} {d : Volume}

theorem respects_write :
    Respects (fun _ _ : Unit => True) (Within (touching (· = nodePath sink.partPath) noPath))
      (sink.write data) :=
  (Respects.check _ _).bind fun _ =>
    (Respects.when ((respects_fWrite rfl _).orElse _)).bind fun _ => .pure _

/-- A write appends what it was given, or returns nothing: it is refused for its size, or
the part is left as some file. -/
theorem keeps_write {allow : Fault → Prop} {content : Content}
    (hnode : d.nodeAt (nodePath sink.partPath) = some (.file content)) :
    keeps allow (fun d' => (∃ content', d'.nodeAt (nodePath sink.partPath) =
        some (.file content')) ∧ (d' = d ∨ MayFail allow ∨ MayCut allow)) anyError
      (sink.write data)
      (fun next _ d' => next = { sink with accepted := sink.accepted ++ data } ∧
        d'.nodeAt (nodePath sink.partPath) = some (.file (content ++ data))) () d := by
  refine keeps_bind (keeps_check (fun _ => ⟨⟨⟨content, hnode⟩, Or.inl rfl⟩, trivial⟩)
    fun _ => keeps_bind (keeps_when (fun _ => ?_) fun hempty => keeps_pure ⟨rfl, ?_⟩))
  · refine keeps_orElse (E := anyError) (keeps_fWrite (Volume.fileAt_eq_some_iff.mpr hnode)
      (fun hfault n d' hget => ⟨⟨_, by rw [hget, if_pos rfl]⟩, Or.inr hfault⟩)
      fun d' hget => keeps_pure ⟨rfl, by rw [hget, if_pos rfl]⟩) fun _ _ => trivial
  · rw [not_not.mp hempty, List.append_nil, hnode]

theorem respects_flush {files : Path → Prop} (hpart : files (nodePath sink.partPath)) :
    Respects (fun _ _ : Unit => True) (Within (touching files noPath))
      (fFlush (nodePath sink.partPath)) :=
  respects_fFlush hpart

theorem respects_flush_part (sink : FatFsDownloadSink) :
    Respects (fun _ _ : Unit => True) (Within (touching (· = nodePath sink.partPath) noPath))
      (fFlush (nodePath sink.partPath)) :=
  respects_flush rfl

/-- The files of a sink. -/
def files (sink : FatFsDownloadSink) : Path → Prop := fun path =>
  path = nodePath sink.partPath ∨ path = nodePath sink.finalPath

theorem respects_finish :
    Respects (fun _ _ : Unit => True) (Within (touching sink.files noPath)) sink.finish := by
  have hflush : Respects (fun _ _ : Unit => True) (Within (touching sink.files noPath))
      (fFlush (nodePath sink.partPath)) := respects_flush (Or.inl rfl)
  have hrename : Respects (fun _ _ : Unit => True) (Within (touching sink.files noPath))
      (rename (nodePath sink.partPath) (nodePath sink.finalPath) false) :=
    respects_rename (Or.inl rfl) (Or.inr rfl)
  unfold finish publish
  split
  · exact (Respects.throw _).inSpite (hflush.orElse _)
  · exact ((hflush.orElse _).inSpite (hflush.orElse _)).bind fun _ =>
      (Respects.check _ _).bind fun _ => (respects_hashFile _ _).bind fun _ =>
      (Respects.check _ _).bind fun _ => (respects_fatFsStatPath _).bind fun _ =>
      (Respects.check _ _).bind fun _ => (hrename.orElse _).bind fun _ =>
      ((respects_hashFile _ _).orElse _).bind fun _ => Respects.check _ _

theorem respects_abort :
    Respects (fun _ _ : Unit => True) (Within (touching (· = nodePath sink.partPath) noPath))
      (abort (some sink)) :=
  (respects_flush_part sink).attempt.bind fun _ => .pure _

section Finish

variable {content : Content}

/-- The final file has not changed, or it is the archive. -/
def Published (sink : FatFsDownloadSink) (d d' : Volume) : Prop :=
  d'.nodeAt (nodePath sink.finalPath) = d.nodeAt (nodePath sink.finalPath) ∨
    ∃ content, IsArchive sink.expectedSize sink.expectedSha256 content ∧
      d'.nodeAt (nodePath sink.finalPath) = some (.file content)

/-- A flush leaves the final file alone, and where it returns the part too. -/
theorem keeps_flush {E : FatFsStorageStatus → Prop} {e : FatFsStorageStatus}
    {Q : Unit → Unit → Volume → Prop} {d₁ : Volume}
    (hne : nodePath sink.partPath ≠ nodePath sink.finalPath)
    (hnode : d₁.nodeAt (nodePath sink.partPath) = some (.file content))
    (hfinal : d₁.nodeAt (nodePath sink.finalPath) = d.nodeAt (nodePath sink.finalPath))
    (h : ∀ d₂, d₂.nodeAt (nodePath sink.partPath) = some (.file content) →
      d₂.nodeAt (nodePath sink.finalPath) = d.nodeAt (nodePath sink.finalPath) → Q () () d₂) :
    keeps anyFault (sink.Published d) E
      (Proc.orElse e (fFlush (nodePath sink.partPath))) Q () d₁ := by
  have hsame : ∀ {node d₂}, Updates d₁ (nodePath sink.partPath) node d₂ →
      d₂.nodeAt (nodePath sink.finalPath) = d.nodeAt (nodePath sink.finalPath) := by
    intro node d₂ hget
    rw [hget, if_neg (Ne.symm hne), hfinal]
  refine keeps_orElse (E := noError) (keeps_fWrite (Volume.fileAt_eq_some_iff.mpr hnode)
    (fun _ n d₂ hget => Or.inl (hsame hget)) fun d₂ hget => h d₂ ?_ (hsame hget)) nofun
  rw [hget, if_pos rfl, List.append_nil]

/-- A flush made in spite of a failure. -/
theorem published_flush {e e' : FatFsStorageStatus} {d₁ : Volume}
    (hne : nodePath sink.partPath ≠ nodePath sink.finalPath) (hd : sink.Published d d₁) :
    wp anyFault (Proc.orElse e (fFlush (nodePath sink.partPath)))
      (⟨fun _ _ d₂ => sink.Published d d₂ ∧ (anyError e' ∨ MayFail anyFault),
        fun _ _ d₂ => sink.Published d d₂ ∧ (anyError e' ∨ MayFail anyFault),
        fun d₂ => sink.Published d d₂ ∧ MayCut anyFault⟩ : Post FatFsStorageStatus Unit Volume Unit)
      () d₁ := by
  have hflush := (respects_flush_part sink).orElse e
  have hkept : ∀ {d₂}, Within (touching (· = nodePath sink.partPath) noPath) d₁ d₂ →
      sink.Published d d₂ := by
    intro d₂ hwithin
    have hsame : d₂.nodeAt (nodePath sink.finalPath) = d₁.nodeAt (nodePath sink.finalPath) :=
      hwithin.nodeAt_eq (Ne.symm hne) id id
    unfold Published at hd ⊢
    rwa [hsame]
  exact wp_mono (hflush.keeps () d₁) (fun _ _ _ h => ⟨hkept h.2, Or.inl trivial⟩)
    (fun _ _ _ h => ⟨hkept h.1, Or.inl trivial⟩) fun _ h => ⟨hkept h.1, h.2⟩

/-- `Finish` returns only for the archive, in the sink as in the part, and moves it. -/
theorem keeps_finish (hvalid : validateFatFsAbsolutePath sink.finalPath = .ok ())
    (hne : nodePath sink.partPath ≠ nodePath sink.finalPath)
    (hnode : d.nodeAt (nodePath sink.partPath) = some (.file content)) :
    keeps anyFault (sink.Published d) anyError sink.finish
      (fun _ _ d' => IsArchive sink.expectedSize sink.expectedSha256 sink.accepted ∧
        IsArchive sink.expectedSize sink.expectedSha256 content ∧
        d.nodeAt (nodePath sink.finalPath) = none ∧
        d'.nodeAt (nodePath sink.finalPath) = some (.file content) ∧
        d'.nodeAt (nodePath sink.partPath) = none) () d := by
  unfold finish
  split
  next hsize =>
    exact wp_inSpite (wp_throw (published_flush hne (Or.inl rfl)))
  next hsize =>
    have hsize := not_not.mp hsize
    refine keeps_bind (wp_inSpite (wp_mono (keeps_flush (E := noError) hne hnode rfl
      fun d₁ hpart₁ hfinal₁ => keeps_flush hne hpart₁ hfinal₁ fun d₂ hpart₂ hfinal₂ => ?_)
      (fun _ _ _ h => h) (fun e _ d₁ h => published_flush hne h.1) fun _ h => h))
    have hI : sink.Published d d₂ := Or.inl hfinal₂
    have hfile₂ := Volume.fileAt_eq_some_iff.mpr hpart₂
    refine keeps_bind (keeps_check (fun _ => ⟨hI, trivial⟩) fun hstream => ?_)
    refine keeps_bind (keeps_hashFile hI (fun _ _ => trivial) fun content' hcontent' hbounded => ?_)
    rw [hfile₂] at hcontent'
    cases hcontent'
    refine keeps_bind (keeps_check (fun _ => ⟨hI, trivial⟩) fun hdisk => ?_)
    have harchive : IsArchive sink.expectedSize sink.expectedSha256 content :=
      ⟨hdisk.1, hdisk.2.1⟩
    refine keeps_bind (keeps_fatFsStatPath hvalid hI ?_)
    refine keeps_bind (keeps_check (fun _ => ⟨hI, trivial⟩) fun hmissing => ?_)
    have hnone : d.nodeAt (nodePath sink.finalPath) = none := by
      rw [← hfinal₂]
      simpa using hmissing
    refine keeps_bind (keeps_orElse (E := anyError) (keeps_rename hI (fun _ => trivial)
      fun content' d₃ hcontent' _ hmoves => ?_) fun _ _ => trivial)
    rw [hfile₂] at hcontent'
    cases hcontent'
    have hpart₃ : d₃.nodeAt (nodePath sink.partPath) = none := by rw [hmoves, if_pos rfl]
    have hfinal₃ : d₃.nodeAt (nodePath sink.finalPath) = some (.file content) := by
      rw [hmoves, if_neg (Ne.symm hne), if_pos rfl]
    have hI₃ : sink.Published d d₃ := Or.inr ⟨content, harchive, hfinal₃⟩
    refine ⟨hI₃, ?_⟩
    refine keeps_bind (keeps_orElse (E := anyError) (keeps_hashFile hI₃ (fun _ _ => trivial)
      fun content' _ _ => ?_) fun _ _ => trivial)
    exact keeps_check (fun _ => ⟨hI₃, trivial⟩) fun _ =>
      ⟨⟨hsize, hstream⟩, harchive, hnone, hfinal₃, hpart₃⟩

/-- The calls of FatFs that a `Finish` makes when all of them succeed. -/
def finishCalls : Nat := 16

theorem demands_stat (path : Path) :
    Demands (stat path) () d 1 (statOf (d.nodeAt path)) () d :=
  Demands.observe (f := fun v : Volume => some (statOf (v.nodeAt path))) rfl

theorem demands_barrier {e : FatFsStorageStatus} :
    Demands (Proc.orElse e barrier) () d 1 () () d :=
  (Demands.observe (f := fun _ : Volume => some ()) rfl).orElse e

theorem demands_validated {path : Bytes} (hvalid : validateFatFsAbsolutePath path = .ok ()) :
    Demands (validated path) () d 0 () () d := by
  unfold validated
  rw [hvalid]
  exact .pure ()

theorem demands_hashFile {path : Bytes} {maximumBytes : Nat}
    (hnode : d.nodeAt (nodePath path) = some (.file content))
    (hbounded : content.length ≤ maximumBytes) :
    Demands (hashFile path maximumBytes) () d 6 (content.length, sha256 content) () d := by
  have hfile := Volume.fileAt_eq_some_iff.mpr hnode
  have hstat : Demands (stat (nodePath path)) () d 1 ⟨.regularFile, content.length⟩ () d := by
    have h := demands_stat (d := d) (nodePath path)
    rwa [hnode] at h
  have hread : Demands (readFile (nodePath path)) () d 1 content () d :=
    Demands.observe (f := fun v : Volume => v.fileAt (nodePath path)) hfile
  exact .step (hstat.orElse _) rfl <| .step (.check (by simp)) rfl <|
    .step (.check (by simp)) rfl <| .step (.check hbounded) rfl <|
    .step demands_barrier rfl <| .step (hread.orElse _) rfl <| .step demands_barrier rfl <|
    .step demands_barrier rfl <| .step (hstat.orElse _) rfl <|
    .step (.check ⟨rfl, rfl⟩) rfl (.pure _)

theorem demands_flush {e : FatFsStorageStatus} {d₁ : Volume}
    (hne : nodePath sink.partPath ≠ nodePath sink.finalPath)
    (hnode : d₁.nodeAt (nodePath sink.partPath) = some (.file content))
    (hfinal : d₁.nodeAt (nodePath sink.finalPath) = d.nodeAt (nodePath sink.finalPath)) :
    ∃ d₂, Demands (Proc.orElse e (fFlush (nodePath sink.partPath))) () d₁ 1 () () d₂ ∧
      d₂.nodeAt (nodePath sink.partPath) = some (.file content) ∧
      d₂.nodeAt (nodePath sink.finalPath) = d.nodeAt (nodePath sink.finalPath) := by
  have hfile := Volume.fileAt_eq_some_iff.mpr hnode
  obtain ⟨d₂, hwrite, hget⟩ :=
    @writeFile_updates d₁ (nodePath sink.partPath) content (content ++ []) hfile
  have hflush : Demands (fFlush (nodePath sink.partPath)) () d₁ 1 () () d₂ := by
    have heffect : ((d₁.fileAt (nodePath sink.partPath)).bind fun old =>
        (d₁.writeFile (nodePath sink.partPath) (old ++ [])).map fun w => (⟨(), w, fun k =>
          (d₁.writeFile (nodePath sink.partPath) ((old ++ []).take k)).getD d₁⟩ :
            Effect Volume Unit)) = some ⟨(), d₂, fun k =>
          (d₁.writeFile (nodePath sink.partPath) ((content ++ []).take k)).getD d₁⟩ := by
      rw [hfile, Option.bind_some, hwrite, Option.map_some]
    unfold fFlush fWrite
    apply Demands.act
    exact heffect
  exact ⟨d₂, hflush.orElse e, by rw [hget, if_pos rfl, List.append_nil],
    by rw [hget, if_neg (Ne.symm hne), hfinal]⟩

/-- For the archive `Finish` returns when all of its calls succeed, and only then. -/
theorem demands_finish (hvalid : validateFatFsAbsolutePath sink.finalPath = .ok ())
    (hne : nodePath sink.partPath ≠ nodePath sink.finalPath)
    (hparent : (nodePath sink.partPath).dropLast = (nodePath sink.finalPath).dropLast)
    (hnode : d.nodeAt (nodePath sink.partPath) = some (.file content))
    (hnone : d.nodeAt (nodePath sink.finalPath) = none)
    (haccepted : IsArchive sink.expectedSize sink.expectedSha256 sink.accepted)
    (hcontent : IsArchive sink.expectedSize sink.expectedSha256 content) :
    ∃ d', Demands sink.finish () d finishCalls () () d' := by
  obtain ⟨d₁, hsync, hpart₁, hfinal₁⟩ := @demands_flush sink d content .syncFailed d hne hnode rfl
  obtain ⟨d₂, hclose, hpart₂, hfinal₂⟩ :=
    @demands_flush sink d content .closeFailed d₁ hne hpart₁ hfinal₁
  rw [hnone] at hfinal₂
  have hdirectory := d₂.nodeAt_dropLast (p := nodePath sink.partPath)
    (fun hroot => by rw [hroot] at hpart₂; cases hpart₂) (by rw [hpart₂]; simp)
  rw [hparent] at hdirectory
  obtain ⟨d₃, hmove, hget⟩ := Volume.moveFile_eq_some (Volume.fileAt_eq_some_iff.mpr hpart₂) hne
    hdirectory (by rw [hfinal₂]; simp)
  have hfinal₃ : d₃.nodeAt (nodePath sink.finalPath) = some (.file content) := by
    rw [hget, if_neg (Ne.symm hne), if_pos rfl]
  have hrename : Demands (rename (nodePath sink.partPath) (nodePath sink.finalPath) false) () d₂ 1
      () () d₃ := by
    have heffect : (if nodePath sink.partPath = nodePath sink.finalPath then none
        else if d₂.nodeAt (nodePath sink.finalPath) ≠ none ∧ false = false then none
        else atomically d₂ (d₂.moveFile (nodePath sink.partPath) (nodePath sink.finalPath))) =
          some ⟨(), d₃, fun k => if k = 0 then d₂ else d₃⟩ := by
      rw [if_neg hne, if_neg (by simp [hfinal₂]), hmove]
      rfl
    unfold rename
    apply Demands.act
    exact heffect
  have hstat : Demands (fatFsStatPath sink.finalPath) () d₂ 1 ⟨.missing, 0⟩ () d₂ := by
    have h := demands_stat (d := d₂) (nodePath sink.finalPath)
    rw [hfinal₂] at h
    exact .step (demands_validated hvalid) rfl (h.orElse _)
  refine ⟨d₃, ?_⟩
  unfold finish publish
  rw [if_neg (by simp [haccepted.size])]
  exact .step (hsync.inSpite hclose) rfl <| .step (.check haccepted.digest) rfl <|
    .step (demands_hashFile hpart₂ hcontent.size.le) rfl <|
    .step (.check ⟨hcontent.size, hcontent.digest,
      hcontent.digest.trans haccepted.digest.symm⟩) rfl <|
    .step hstat rfl <| .step (.check rfl) rfl <| .step (hrename.orElse _) rfl <|
    .step ((demands_hashFile hfinal₃ hcontent.size.le).orElse _) rfl <|
    .check ⟨hcontent.size, hcontent.digest⟩

/-- `Finish` returns exactly for the archive, in the sink as in the part, where all of its
calls succeed. -/
theorem finish_returns_iff (hvalid : validateFatFsAbsolutePath sink.finalPath = .ok ())
    (hne : nodePath sink.partPath ≠ nodePath sink.finalPath)
    (hparent : (nodePath sink.partPath).dropLast = (nodePath sink.finalPath).dropLast)
    (hnode : d.nodeAt (nodePath sink.partPath) = some (.file content))
    (hnone : d.nodeAt (nodePath sink.finalPath) = none) (faults : List Fault) :
    (sink.finish () ⟨d, faults⟩).result = some () ↔
      IsArchive sink.expectedSize sink.expectedSha256 sink.accepted ∧
        IsArchive sink.expectedSize sink.expectedSha256 content ∧
        ∀ f ∈ faults.take finishCalls, f = .ok := by
  have hmust := keeps_finish hvalid hne hnode faults fun _ _ => trivial
  constructor
  · intro hresult
    cases hout : sink.finish () ⟨d, faults⟩ with
    | done a s w =>
        rw [hout] at hmust
        obtain ⟨haccepted, hcontent, -⟩ := hmust.1
        obtain ⟨d', hdemands⟩ := demands_finish hvalid hne hparent hnode hnone haccepted hcontent
        exact ⟨haccepted, hcontent, (hdemands.returns_iff faults).mp hresult⟩
    | error e s w =>
        rw [hout] at hresult
        cases hresult
    | cut d' =>
        rw [hout] at hresult
        cases hresult
  · rintro ⟨haccepted, hcontent, hok⟩
    obtain ⟨d', hdemands⟩ := demands_finish hvalid hne hparent hnode hnone haccepted hcontent
    exact (hdemands.returns_iff faults).mpr hok

end Finish

end FatFsDownloadSink

/-! ## The cleanup -/

namespace FatFsUpdateArchiveStorage

variable {s : FatFsUpdateArchiveStorage} {paths : FatFsUpdateArchivePaths} {removeFinal : Bool}
  {progress : RecoveryProgress} {d : Volume}

/-- The files a cleanup removes. -/
def cleanedOf (paths : FatFsUpdateArchivePaths) (removeFinal : Bool) : Path → Prop := fun path =>
  path = nodePath paths.partPath ∨ removeFinal = true ∧ path = nodePath paths.finalPath

theorem respects_cleanup {R : Volume → Volume → Prop} [FrameRel R]
    (hactive : s.activePaths = some paths)
    (hpart : Respects (fun _ _ : Unit => True) R (removeFile (nodePath paths.partPath)))
    (hfinal : removeFinal = true →
      Respects (fun _ _ : Unit => True) R (removeFile (nodePath paths.finalPath))) :
    Respects (fun _ _ : Unit => True) R (s.cleanupRemembered removeFinal progress) := by
  unfold cleanupRemembered
  rw [hactive]
  refine (respects_fatFsRemoveFileIfPresent hpart).attempt.bind fun part => ?_
  split
  · exact .pure _
  split
  · exact .pure _
  next hremove =>
    have hfinal := hfinal (by simpa using hremove)
    refine (respects_fatFsRemoveFileIfPresent hfinal).attempt.bind fun final => ?_
    split <;> exact .pure _

theorem respects_cleaned (hactive : s.activePaths = some paths) :
    Respects (fun _ _ : Unit => True) (Within (touching (cleanedOf paths removeFinal) noPath))
      (s.cleanupRemembered removeFinal progress) :=
  respects_cleanup hactive
    (respects_removeFile (Or.inl rfl))
    fun hremove => respects_removeFile
      (Or.inr ⟨hremove, rfl⟩)

/-- Something can go wrong with the removal of a file: a call fails, or it is a directory. -/
def MayStay (allow : Fault → Prop) (d : Volume) (path : Path) : Prop :=
  MayFail allow ∨ d.nodeAt path = some .directory

/-- One removal whose result is looked at. -/
theorem keeps_removal {allow : Fault → Prop} {path : Bytes} {other : Path}
    {Q : Except FatFsStorageStatus Unit → Unit → Volume → Prop} {E : Empty → Prop}
    (hvalid : validateFatFsAbsolutePath path = .ok ()) (hne : other ≠ nodePath path)
    (hok : ∀ d', d'.nodeAt (nodePath path) = none → d'.nodeAt other = d.nodeAt other →
      Q (.ok ()) () d')
    (herror : ∀ e d', MayStay allow d (nodePath path) → d'.nodeAt other = d.nodeAt other →
      Q (.error e) () d') :
    keeps allow (fun _ => True) E (Proc.attempt (fatFsRemoveFileIfPresent path)) Q () d := by
  have hremove : keeps allow (fun d' => d'.nodeAt other = d.nodeAt other)
      (fun _ => d.nodeAt (nodePath path) = some .directory) (fatFsRemoveFileIfPresent path)
      (fun _ _ d' => d'.nodeAt (nodePath path) = none ∧ d'.nodeAt other = d.nodeAt other) () d :=
    keeps_fatFsRemoveFileIfPresent hvalid rfl id fun d' _ hget =>
      ⟨by rw [hget, if_neg hne], by rw [hget, if_pos rfl], by rw [hget, if_neg hne]⟩
  refine wp_attempt (wp_mono hremove ?_ ?_ fun _ h => ⟨trivial, h.2⟩)
  · exact fun _ _ d' h => hok d' h.1 h.2
  · exact fun e _ d' h => herror e d' h.2.symm h.1

/-- A cleanup that is done has removed what it was to remove; that it is not has a reason. -/
theorem keeps_cleanup {allow : Fault → Prop} {E : Empty → Prop}
    (hactive : s.activePaths = some paths)
    (hpart : validateFatFsAbsolutePath paths.partPath = .ok ())
    (hfinal : validateFatFsAbsolutePath paths.finalPath = .ok ())
    (hne : nodePath paths.partPath ≠ nodePath paths.finalPath) :
    keeps allow (fun _ => True) E (s.cleanupRemembered removeFinal progress)
      (fun cleanup _ d' =>
        (cleanup = .done → d'.nodeAt (nodePath paths.partPath) = none ∧
          (removeFinal = true → d'.nodeAt (nodePath paths.finalPath) = none)) ∧
        (cleanup ≠ .done → MayStay allow d (nodePath paths.partPath) ∨
          removeFinal = true ∧ MayStay allow d (nodePath paths.finalPath) ∨
          progress.afterPart = false ∨ progress.afterFinal = false)) () d := by
  unfold cleanupRemembered
  rw [hactive]
  refine keeps_bind (keeps_removal hpart (Ne.symm hne) ?_ ?_)
  · intro d₁ hgone hsame
    refine keeps_ite (fun hprogress => keeps_pure ⟨nofun, fun _ => ?_⟩) fun _ => ?_
    · exact Or.inr (Or.inr (Or.inl hprogress.2))
    refine keeps_ite (fun hkeep => keeps_pure ⟨fun _ => ⟨hgone, ?_⟩, ?_⟩) fun hremove => ?_
    · rw [hkeep]
      exact nofun
    · exact fun hnot => absurd rfl hnot
    have hremove : removeFinal = true := by simpa using hremove
    refine keeps_bind (keeps_removal hfinal hne ?_ ?_)
    · intro d₂ hfinalGone hsame₂
      refine keeps_ite (fun hprogress => keeps_pure ⟨nofun, fun _ => ?_⟩) fun _ => keeps_pure ?_
      · exact Or.inr (Or.inr (Or.inr hprogress.2))
      · exact ⟨fun _ => ⟨hsame₂.trans hgone, fun _ => hfinalGone⟩, fun hnot => absurd rfl hnot⟩
    · intro e d₂ hstay _
      refine keeps_ite (fun hprogress => nomatch hprogress.1) fun _ => keeps_pure ⟨nofun, fun _ => ?_⟩
      unfold MayStay at hstay ⊢
      rw [hsame] at hstay
      exact Or.inr (Or.inl ⟨hremove, hstay⟩)
  · intro e d₁ hstay hsame
    refine keeps_ite (fun hprogress => nomatch hprogress.1) fun _ => ?_
    refine keeps_ite (fun _ => keeps_pure ⟨nofun, fun _ => Or.inl hstay⟩) fun _ => ?_
    refine keeps_bind (keeps_removal hfinal hne ?_ ?_)
    · intro d₂ _ _
      refine keeps_ite (fun hprogress => keeps_pure ⟨nofun, fun _ => ?_⟩) fun _ =>
        keeps_pure ⟨nofun, fun _ => Or.inl hstay⟩
      exact Or.inr (Or.inr (Or.inr hprogress.2))
    · intro e d₂ _ _
      exact keeps_ite (fun hprogress => nomatch hprogress.1) fun _ =>
        keeps_pure ⟨nofun, fun _ => Or.inl hstay⟩

end FatFsUpdateArchiveStorage

end Archive

end BmxUpdate
