import BmxUpdate.Archive.History

/-!
# Only complete archives

What a storage object guarantees over all of its runs: which files a call can touch, that a
final file is always a whole archive, when `Finish` and `Discard` return Ok, what an `Abort`
may remove, and from where the object gets back to idle.
-/

namespace BmxUpdate

namespace Archive

open Wire Crash Volumes FatPath

/-! ## What a call can touch -/

/-- The paths a call works on: those of its binding, or those the object remembers. -/
def handled (s : FatFsUpdateArchiveStorage) (call : Call) : Option FatFsUpdateArchivePaths :=
  match call.binding? with
  | some binding => s.pathsFor binding
  | none => s.activePaths

/-- The part of these paths, if there are any. -/
def partAt (paths? : Option FatFsUpdateArchivePaths) : Path → Prop := fun p =>
  ∃ paths, paths? = some paths ∧ partOf paths p

/-- The two files of these paths, if there are any. -/
def filesAt (paths? : Option FatFsUpdateArchivePaths) : Path → Prop := fun p =>
  ∃ paths, paths? = some paths ∧ filesOf paths p

/-- `Begin` makes the directories above the part. -/
def directoriesAt (call : Call) (paths? : Option FatFsUpdateArchivePaths) : Path → Prop := fun p =>
  (∃ binding, call = .begin binding) ∧ ∃ paths, paths? = some paths ∧ aboveOf paths p

section Touches

variable {volume : Bytes} {since : Since} {s : FatFsUpdateArchiveStorage} {d : Volume}
  {binding : AuthenticatedUpdateBinding}

theorem within_touching {files files' directories directories' : Path → Prop} {d d' : Volume}
    (h : Within (touching files directories) d d') (hfiles : ∀ p, files p → files' p)
    (hdirectories : ∀ p, directories p → directories' p) :
    Within (touching files' directories') d d' :=
  h.mono hfiles hdirectories fun _ h => h

theorem respects_begin :
    Respects (fun _ _ : Unit => True) (Within (touching (partAt (s.pathsFor binding))
      (directoriesAt (.begin binding) (s.pathsFor binding)))) (s.begin binding) := by
  unfold FatFsUpdateArchiveStorage.begin FatFsUpdateArchiveStorage.pathsFor
  cases hvolume : s.volume with
  | none => exact .pure _
  | some root =>
      dsimp only
      split
      · exact .pure _
      cases hbuild : buildFatFsUpdateArchivePaths root binding with
      | error status => exact .pure _
      | ok paths =>
          have hpaths : (some root).bind
              (fun volume => (buildFatFsUpdateArchivePaths volume binding).toOption) =
                some paths := by
            rw [Option.bind_some, hbuild]
            rfl
          refine Respects.bind (Respects.attempt (FatFsDownloadSink.respects_start.mono
            fun d d' h => within_touching h (fun p hp => ⟨paths, hpaths, hp⟩)
              fun p hp => ⟨⟨binding, rfl⟩, paths, hpaths, hp⟩)) fun started => ?_
          cases started <;> exact .pure _

theorem respects_write {data : Bytes} (h : Consistent volume since s d) :
    Respects (fun _ _ : Unit => True) (Within (touching (partAt s.activePaths) noPath))
      (s.write data) := by
  unfold FatFsUpdateArchiveStorage.write
  split
  · exact .pure _
  next hstate =>
    obtain ⟨download, paths, content, hwriting⟩ := h.writing (not_not.mp hstate)
    rw [hwriting.sink]
    have hwrite : Respects (fun _ _ : Unit => True) (Within (touching (partAt s.activePaths) noPath))
        ((sinkOf download.binding paths download.accepted).write data) :=
      FatFsDownloadSink.respects_write.mono fun d d' h =>
        within_touching h (fun p hp => ⟨paths, hwriting.active, hp⟩) fun _ h => h
    refine hwrite.attempt.bind fun written => ?_
    cases written <;> exact .pure _

theorem respects_finish (h : Consistent volume since s d) :
    Respects (fun _ _ : Unit => True) (Within (touching (filesAt s.activePaths) noPath))
      s.finish := by
  unfold FatFsUpdateArchiveStorage.finish
  split
  · exact .pure _
  next hstate =>
    obtain ⟨download, paths, content, hwriting⟩ := h.writing (not_not.mp hstate)
    rw [hwriting.sink]
    have hfinish : Respects (fun _ _ : Unit => True)
        (Within (touching (filesAt s.activePaths) noPath))
        (sinkOf download.binding paths download.accepted).finish :=
      FatFsDownloadSink.respects_finish.mono fun d d' h =>
        within_touching h (fun p hp => ⟨paths, hwriting.active, hp⟩) fun _ h => h
    refine hfinish.attempt.bind fun finished => ?_
    cases finished <;> exact .pure _

theorem respects_flush (h : Consistent volume since s d) :
    Respects (fun _ _ : Unit => True) (Within (touching (partAt s.activePaths) noPath))
      (FatFsDownloadSink.abort s.download) := by
  by_cases hstate : s.state = .writing
  · obtain ⟨download, paths, content, hwriting⟩ := h.writing hstate
    exact (respects_sinkAbort h hwriting.active).mono fun d d' hd =>
      within_touching hd (fun p hp => ⟨paths, hwriting.active, hp⟩) fun _ h => h
  · rw [h.closed hstate]
    exact .pure ()

/-- An `Abort`, for whatever its flush and its removals respect. -/
theorem respects_abort {R : Volume → Volume → Prop} [FrameRel R] (h : Consistent volume since s d)
    (hflush : Respects (fun _ _ : Unit => True) R (FatFsDownloadSink.abort s.download))
    (hremove : ∀ paths, s.activePaths = some paths → ∀ p, p = nodePath paths.partPath ∨
      s.failedFinishMayHaveFinal = true ∧ p = nodePath paths.finalPath →
      Respects (fun _ _ : Unit => True) R (removeFile p)) :
    Respects (fun _ _ : Unit => True) R s.abort := by
  unfold FatFsUpdateArchiveStorage.abort
  split
  · exact .pure _
  next hstate =>
    have hidle : s.state ≠ .idle := fun hidle => hstate (by simp [hidle])
    obtain ⟨-, -, paths, -, hactive⟩ := h.remembered hidle
    have hremove := hremove paths hactive
    refine hflush.bind fun _ => ?_
    refine Respects.bind (FatFsUpdateArchiveStorage.respects_cleanup hactive
      (hremove _ (Or.inl rfl)) fun hflag => hremove _ (Or.inr ⟨hflag, rfl⟩)) fun cleanup => ?_
    split <;> exact .pure _

/-- A `Discard`, for whatever its removals respect. -/
theorem respects_discard {R : Volume → Volume → Prop} [FrameRel R] {progress : RecoveryProgress}
    (h : Consistent volume since s d)
    (hremove : ∀ paths, s.pathsFor binding = some paths → ∀ p, filesOf paths p →
      Respects (fun _ _ : Unit => True) R (removeFile p)) :
    Respects (fun _ _ : Unit => True) R (s.discard binding progress) := by
  unfold FatFsUpdateArchiveStorage.discard
  unfold FatFsUpdateArchiveStorage.pathsFor at hremove
  cases hvolume : s.volume with
  | none => exact .pure _
  | some root =>
      rw [hvolume] at hremove
      dsimp only
      split
      · exact .pure _
      next hstate =>
        rw [not_or] at hstate
        cases hbuild : buildFatFsUpdateArchivePaths root binding with
        | error status => exact .pure _
        | ok paths =>
            have hremove := hremove paths (by rw [Option.bind_some, hbuild]; rfl)
            dsimp only
            split
            · exact .pure _
            rw [h.closed hstate.1]
            refine (Respects.pure ()).bind fun _ => ?_
            refine Respects.bind (@FatFsUpdateArchiveStorage.respects_cleanup _ paths _ _ R _ rfl
              (hremove _ (Or.inl rfl)) fun _ => hremove _ (Or.inr rfl)) fun cleanup => ?_
            cases cleanup <;> exact .pure _

/-- A call is its method, as far as the volume is concerned. -/
theorem respects_call {α : Type} {R : Volume → Volume → Prop} [FrameRel R]
    {m : StorageProc (α × FatFsUpdateArchiveStorage)} {f : α → Answer}
    (h : Respects (fun _ _ : Unit => True) R m) :
    Respects (fun _ _ : Unit => True) R (m >>= fun r => pure (f r.1, r.2)) :=
  h.bind fun _ => .pure _

theorem preserves_call {α : Type} {m : StorageProc (α × FatFsUpdateArchiveStorage)}
    {f : α → Answer} (h : ReadOnly m) : ReadOnly (m >>= fun r => pure (f r.1, r.2)) :=
  h.bind fun _ => .pure _

theorem preserves_openRead : ReadOnly (s.openRead binding) := by
  intro allow u v
  cases u
  exact wp_mono (@keeps_openRead s v binding allow fun _ => True) (fun _ _ _ h => h.1.symm)
    (fun e => nomatch e) fun _ h => h.1.symm

theorem preserves_closeRead : ReadOnly s.closeRead := by
  intro allow u v
  cases u
  exact wp_mono (@keeps_closeRead s v allow fun _ => True) (fun _ _ _ h => h.1.symm)
    (fun e => nomatch e) fun _ h => h.1.symm

/-- Files come, change and go at the two paths of the call only, and directories come above
the part when a `Begin` makes them; this holds wherever the call is cut. -/
theorem call_touches (h : Consistent volume since s d) (call : Call) (faults : List Fault) :
    Within (touching (filesAt (handled s call)) (directoriesAt call (handled s call))) d
      (call.run s () ⟨d, faults⟩).disk := by
  have hdisk : ∀ {R : Volume → Volume → Prop} [FrameRel R]
      {m : StorageProc (Answer × FatFsUpdateArchiveStorage)},
      Respects (fun _ _ : Unit => True) R m → R d (m () ⟨d, faults⟩).disk :=
    fun hm => hm.preserves.disk () ⟨d, faults⟩
  have hpart : ∀ {paths?} p, partAt paths? p → filesAt paths? p :=
    fun p ⟨paths, hpaths, hp⟩ => ⟨paths, hpaths, Or.inl hp⟩
  have hnone : ∀ {F : Path → Prop} p, noPath p → F p := fun _ h => h.elim
  cases call with
  | begin binding =>
      exact within_touching (hdisk (respects_call respects_begin)) hpart fun _ h => h
  | write data =>
      exact within_touching (hdisk (respects_call (respects_write h))) hpart hnone
  | finish =>
      exact within_touching (hdisk (respects_call (respects_finish h))) (fun _ h => h) hnone
  | abort =>
      have habort := respects_abort (R := Within (touching (filesAt s.activePaths) noPath)) h
        ((respects_flush h).mono fun d d' hd => within_touching hd hpart fun _ h => h)
        fun paths hactive p hp => respects_removeFile
          ⟨paths, hactive, hp.imp id And.right⟩
      exact within_touching (hdisk (respects_call (f := fun _ => Answer.nothing) habort))
        (fun _ h => h) hnone
  | openRead binding =>
      have hsame := preserves_call (f := Answer.status) (@preserves_openRead s binding)
      exact (hsame.disk () ⟨d, faults⟩) ▸ FrameRel.refl d
  | closeRead =>
      have hsame := preserves_call (f := Answer.status) (preserves_closeRead (s := s))
      exact (hsame.disk () ⟨d, faults⟩) ▸ FrameRel.refl d
  | discard binding progress =>
      have hdiscard := @respects_discard volume since s d binding
        (Within (touching (filesAt (s.pathsFor binding)) noPath)) _ progress h
        fun paths hpaths p hp => respects_removeFile ⟨paths, hpaths, hp⟩
      exact within_touching (hdisk (respects_call hdiscard)) (fun _ h => h) hnone

end Touches

/-! ## Final files -/

/-- The archive of a binding. -/
abbrev ArchiveOf (binding : AuthenticatedUpdateBinding) (content : Content) : Prop :=
  IsArchive binding.archiveSize.toNat binding.archiveSha256 content

section Finals

variable {volume : Bytes} {since : Since} {s : FatFsUpdateArchiveStorage} {d : Volume}
  {faults : List Fault}

/-- A file where none may come or change was there before. -/
theorem file_of_within {files directories : Path → Prop} {d' : Volume} {p : Path}
    {content : Content} (h : Within (touching files directories) d d') (hp : ¬files p)
    (hfile : d'.nodeAt p = some (.file content)) : d.nodeAt p = some (.file content) := by
  rcases h p with hsame | ⟨hfiles, -, -⟩
  · rw [← hsame, hfile]
  · exact absurd (hfiles (Or.inr (by rw [hfile]; trivial))) hp

/-- Wherever a `Finish` is cut, its final file has not changed or is the archive. -/
theorem published_of_finish (h : Consistent volume since s d) {download : Download}
    {paths : FatFsUpdateArchivePaths} {part : Content}
    (hwriting : Writing since s d download paths part) (faults : List Fault) :
    (sinkOf download.binding paths download.accepted).Published d
      (Call.finish.run s () ⟨d, faults⟩).disk := by
  have hfit := FatFsUpdateArchiveStorage.pathsFit_of_pathsFor hwriting.built
  have hstate : s.state = .writing := by
    by_contra hnot
    have hclosed := h.closed hnot
    rw [hwriting.sink] at hclosed
    cases hclosed
  have hsink := @FatFsDownloadSink.keeps_finish
    (sinkOf download.binding paths download.accepted) d part hfit.final hwriting.ne hwriting.part
  have hfinish : keeps anyFault ((sinkOf download.binding paths download.accepted).Published d)
      (fun _ => True) (Call.finish.run s) (fun _ _ d' =>
        (sinkOf download.binding paths download.accepted).Published d d') () d := by
    refine keeps_bind ?_
    unfold FatFsUpdateArchiveStorage.finish
    rw [if_neg (by simp [hstate]), hwriting.sink]
    refine keeps_bind (wp_attempt (wp_mono hsink ?_ ?_ fun _ h => h))
    · rintro _ _ d' ⟨-, harchive, -, hnode, -⟩
      exact keeps_pure (keeps_pure (Or.inr ⟨part, harchive, hnode⟩))
    · exact fun status _ d' hpublished => keeps_pure (keeps_pure hpublished.1)
  exact keeps_disk hfinish fun _ _ => trivial

/-- What a `Finish` can leave at a path that is no part, wherever it is cut. -/
theorem finish_leaves (h : Consistent volume since s d) {p : Path} {content : Content}
    (hp : ¬partAt s.activePaths p)
    (hfile : (Call.finish.run s () ⟨d, faults⟩).disk.nodeAt p = some (.file content)) :
    d.nodeAt p = some (.file content) ∨ ∃ (download : Download) (paths : FatFsUpdateArchivePaths),
      download.binding ∈ since.given ∧ s.pathsFor download.binding = some paths ∧ p = nodePath paths.finalPath ∧
      ArchiveOf download.binding content := by
  have htouched := call_touches h .finish faults
  by_cases hstate : s.state = .writing
  · obtain ⟨download, paths, part, hwriting⟩ := h.writing hstate
    by_cases hfinal : p = nodePath paths.finalPath
    · have hpublished := published_of_finish h hwriting faults
      rw [hfinal] at hfile ⊢
      rcases hpublished with hsame | ⟨content', harchive, hnode⟩
      · exact Or.inl (hsame.symm.trans hfile)
      · have heq : content' = content := by
          have hboth := Option.some.inj (hnode.symm.trans hfile)
          cases hboth
          rfl
        exact Or.inr ⟨download, paths, hwriting.given, hwriting.built, rfl, heq ▸ harchive⟩
    · refine Or.inl (file_of_within htouched ?_ hfile)
      rintro ⟨paths', hpaths', hp' | hp'⟩
      · exact hp ⟨paths', hpaths', hp'⟩
      · have heq : paths = paths' := Option.some.inj (hwriting.active.symm.trans hpaths')
        exact hfinal (heq ▸ hp')
  · have hsame : Call.finish.run s () ⟨d, faults⟩ = .done (.status .failed, s) () ⟨d, faults⟩ := by
      show ((s.finish >>= fun r => pure (Answer.status r.1, r.2)) : StorageProc _) () ⟨d, faults⟩ = _
      unfold FatFsUpdateArchiveStorage.finish
      rw [if_pos hstate]
      rfl
    rw [hsame] at hfile
    exact Or.inl hfile

theorem fading_of_within {files : Path → Prop} {d d' : Volume}
    (h : Within (touching files noPath) d d') : Fading files d d' :=
  fun _ hp => Or.inl (h.nodeAt_eq hp id id)

theorem file_of_fading {files : Path → Prop} {d' : Volume} {p : Path} {content : Content}
    (h : Fading files d d') (hp : ¬files p) (hfile : d'.nodeAt p = some (.file content)) :
    d.nodeAt p = some (.file content) := by
  rcases h p hp with hsame | hgone
  · rw [← hsame, hfile]
  · rw [hfile] at hgone
    cases hgone

/-- A final path is no part, neither of a binding nor of what the object remembers. -/
theorem final_not_part (h : Consistent volume since s d) {binding : AuthenticatedUpdateBinding}
    {paths : FatFsUpdateArchivePaths} (hbuilt : s.pathsFor binding = some paths) :
    (∀ other, ¬partAt (s.pathsFor other) (nodePath paths.finalPath)) ∧
      ¬partAt s.activePaths (nodePath paths.finalPath) := by
  have hfit := FatFsUpdateArchiveStorage.pathsFit_of_pathsFor hbuilt
  have hother : ∀ other, ¬partAt (s.pathsFor other) (nodePath paths.finalPath) := by
    rintro other ⟨paths', hpaths', hpart⟩
    exact part_ne_final (FatFsUpdateArchiveStorage.pathsFit_of_pathsFor hpaths') hfit hpart.symm
  refine ⟨hother, ?_⟩
  rintro ⟨paths', hactive, hpart⟩
  have hidle : s.state ≠ .idle := fun hidle => by
    rw [h.idle hidle] at hactive
    cases hactive
  obtain ⟨other, -, paths'', hbuilt', hactive'⟩ := h.remembered hidle
  have heq : paths'' = paths' := Option.some.inj (hactive'.symm.trans hactive)
  exact hother other ⟨paths', heq ▸ hbuilt', hpart⟩

/-- Only a `Finish` brings a final file, and then it is the archive of its binding. -/
theorem final_step (h : Consistent volume since s d) (call : Call)
    {binding : AuthenticatedUpdateBinding} {paths : FatFsUpdateArchivePaths} {content : Content}
    (hbuilt : s.pathsFor binding = some paths)
    (hfile : (call.run s () ⟨d, faults⟩).disk.nodeAt (nodePath paths.finalPath) =
      some (.file content)) :
    d.nodeAt (nodePath paths.finalPath) = some (.file content) ∨
      ∃ (download : Download) (paths' : FatFsUpdateArchivePaths),
        download.binding ∈ since.given ∧ s.pathsFor download.binding = some paths' ∧
          nodePath paths.finalPath = nodePath paths'.finalPath ∧
          ArchiveOf download.binding content := by
  have hdisk : ∀ {R : Volume → Volume → Prop} [FrameRel R]
      {m : StorageProc (Answer × FatFsUpdateArchiveStorage)},
      Respects (fun _ _ : Unit => True) R m → R d (m () ⟨d, faults⟩).disk :=
    fun hm => hm.preserves.disk () ⟨d, faults⟩
  obtain ⟨hother, hactive⟩ := final_not_part h hbuilt
  cases call with
  | begin other =>
      exact Or.inl (file_of_within (hdisk (respects_call respects_begin)) (hother other) hfile)
  | write data =>
      exact Or.inl (file_of_within (hdisk (respects_call (respects_write h))) hactive hfile)
  | finish => exact finish_leaves h hactive hfile
  | abort =>
      have habort := respects_abort (R := Fading (partAt s.activePaths)) h
        ((respects_flush h).mono fun _ _ => fading_of_within)
        fun _ _ _ _ => respects_removeFile_fading
      exact Or.inl (file_of_fading
        (hdisk (respects_call (f := fun _ => Answer.nothing) habort)) hactive hfile)
  | openRead other =>
      have hsame := (preserves_call (f := Answer.status) (@preserves_openRead s other)).disk ()
        ⟨d, faults⟩
      exact Or.inl ((congrArg (·.nodeAt (nodePath paths.finalPath)) hsame).trans hfile)
  | closeRead =>
      have hsame := (preserves_call (f := Answer.status) (@preserves_closeRead s)).disk ()
        ⟨d, faults⟩
      exact Or.inl ((congrArg (·.nodeAt (nodePath paths.finalPath)) hsame).trans hfile)
  | discard other progress =>
      have hdiscard := @respects_discard volume since s d other
        (Fading (partAt (s.pathsFor other))) _ progress h
        fun _ _ _ _ => respects_removeFile_fading
      exact Or.inl (file_of_fading (hdisk (respects_call hdiscard)) (hother other) hfile)

end Finals

/-- No binding of the history is told from this one by all but the hash of their texts. -/
def Uncollided (history : List Entry) (binding : AuthenticatedUpdateBinding) : Prop :=
  ∀ entry ∈ history, ∀ other, entry.call.binding? = some other →
    sha256 (bindingText other) = sha256 (bindingText binding) →
    bindingText other = bindingText binding

/-- Every binding the object was given stands in the history. -/
theorem mem_history_of_given {history : List Entry} {binding : AuthenticatedUpdateBinding}
    (h : binding ∈ (sinceOf history).given) :
    ∃ entry ∈ history, entry.call.binding? = some binding := by
  induction history using List.reverseRecOn with
  | nil => cases h
  | append_singleton front entry ih =>
      rw [sinceOf_concat] at h
      unfold Since.after at h
      cases hanswer : entry.answer with
      | none =>
          rw [hanswer] at h
          cases h
      | some answer =>
          rw [hanswer] at h
          rcases List.mem_append.mp h with hnow | hbefore
          · exact ⟨entry, by simp, by simpa using hnow⟩
          · obtain ⟨earlier, hmem, hbinding⟩ := ih hbefore
            exact ⟨earlier, by simp [hmem], hbinding⟩

/-- The volume of an object is that of its run. -/
theorem pathsFor_of_run {volume : Bytes} {start d : Volume} {history : List Entry}
    {s : FatFsUpdateArchiveStorage} (h : Run volume start history s d)
    (binding : AuthenticatedUpdateBinding) :
    s.pathsFor binding = (FatFsUpdateArchiveStorage.new volume).pathsFor binding := by
  unfold FatFsUpdateArchiveStorage.pathsFor
  rw [(consistent_of_run h).volume]
  rfl

/-- In every run a final file is the archive of its binding, if it was so at the start. -/
theorem final_complete {volume : Bytes} {start d : Volume} {history : List Entry}
    {s : FatFsUpdateArchiveStorage} (h : Run volume start history s d)
    {binding : AuthenticatedUpdateBinding} {paths : FatFsUpdateArchivePaths}
    (hbuilt : (FatFsUpdateArchiveStorage.new volume).pathsFor binding = some paths)
    (hfree : Uncollided history binding)
    (hstart : ∀ content, start.nodeAt (nodePath paths.finalPath) = some (.file content) →
      ArchiveOf binding content) :
    ∀ content, d.nodeAt (nodePath paths.finalPath) = some (.file content) →
      ArchiveOf binding content := by
  have hstep : ∀ {history s d} (call : Call) (faults : List Fault),
      Run volume start history s d → Uncollided history binding →
      (∀ content, d.nodeAt (nodePath paths.finalPath) = some (.file content) →
        ArchiveOf binding content) →
      ∀ content, (call.run s () ⟨d, faults⟩).disk.nodeAt (nodePath paths.finalPath) =
        some (.file content) → ArchiveOf binding content := by
    intro history s d call faults hrun hfree hbefore content hfile
    have hpaths := (pathsFor_of_run hrun binding).trans hbuilt
    rcases final_step (consistent_of_run hrun) call hpaths hfile with
      hsame | ⟨download, paths', hgiven, hpaths', hfinal, harchive⟩
    · exact hbefore content hsame
    · -- One final path has one digest, and so one binding.
      have hfit := FatFsUpdateArchiveStorage.pathsFit_of_pathsFor hpaths
      have hfit' := FatFsUpdateArchiveStorage.pathsFit_of_pathsFor hpaths'
      have hdigest := digest_eq_of_final hfit hfit' hfinal
      rw [hfit.digest, hfit'.digest] at hdigest
      obtain ⟨entry, hmem, hbinding⟩ := mem_history_of_given hgiven
      have htext := hfree entry hmem download.binding hbinding hdigest.symm
      rw [bindingText_inj hfit' hfit htext] at harchive
      exact harchive
  induction h with
  | start => exact hstart
  | @returned history s d call faults answer next w hbefore hrun ih =>
      have hfree' : Uncollided history binding := fun entry hmem => hfree entry (by simp [hmem])
      have hnow := hstep call faults hbefore hfree' (ih hfree')
      rw [hrun] at hnow
      exact hnow
  | @cut history s d call faults d' hbefore hrun ih =>
      have hfree' : Uncollided history binding := fun entry hmem => hfree entry (by simp [hmem])
      have hnow := hstep call faults hbefore hfree' (ih hfree')
      rw [hrun] at hnow
      exact hnow

/-! ## Finish, Abort and Discard -/

section Ends

variable {volume : Bytes} {since : Since} {s : FatFsUpdateArchiveStorage} {d : Volume}
  {faults : List Fault}

/-- What a call answers, unless it is cut. -/
def answerOf (call : Call) (s : FatFsUpdateArchiveStorage) (d : Volume) (faults : List Fault) :
    Option Answer :=
  (call.run s () ⟨d, faults⟩).result.map Prod.fst

/-- A `Finish` answers Ok when its sink returns. -/
theorem answerOf_finish {sink : FatFsDownloadSink} (hstate : s.state = .writing)
    (hsink : s.download = some sink) :
    answerOf .finish s d faults = some (.status .ok) ↔
      (sink.finish () ⟨d, faults⟩).result = some () := by
  have hrun : Call.finish.run s () ⟨d, faults⟩ = match sink.finish () ⟨d, faults⟩ with
      | .done _ _ w => .done (.status .ok, { s with
          download := none, failedFinishMayHaveFinal := false, state := .completed }) () w
      | .error status _ w => .done (.status (mapStorageStatus status), { s with
          download := none, failedFinishMayHaveFinal := true, state := .cleanupPending }) () w
      | .cut d' => .cut d' := by
    show Proc.bind s.finish (fun r => Proc.pure (Answer.status r.1, r.2)) () ⟨d, faults⟩ = _
    unfold FatFsUpdateArchiveStorage.finish Proc.bind
    rw [if_neg (by simp [hstate]), hsink]
    dsimp only
    rw [Proc.attempt_bind]
    cases sink.finish () ⟨d, faults⟩ <;> rfl
  unfold answerOf
  rw [hrun]
  cases sink.finish () ⟨d, faults⟩ with
  | done u u' w => exact ⟨fun _ => rfl, fun _ => rfl⟩
  | error status u w =>
      refine ⟨fun hanswer => ?_, nofun⟩
      have hstatus := Option.some.inj hanswer
      exact absurd (Answer.status.inj hstatus) (mapStorageStatus_ne_ok status)
  | cut d' => exact ⟨nofun, nofun⟩

/-- `Finish` returns Ok exactly where a download is being written, the bytes accepted and
the part are the bound archive, and all of its calls succeed. -/
theorem finish_ok_iff (h : Consistent volume since s d) :
    answerOf .finish s d faults = some (.status .ok) ↔
      s.state = .writing ∧ (∀ f ∈ faults.take FatFsDownloadSink.finishCalls, f = .ok) ∧
        ∃ (download : Download) (paths : FatFsUpdateArchivePaths) (content : Content),
          since.download = some download ∧ s.pathsFor download.binding = some paths ∧
            d.nodeAt (nodePath paths.partPath) = some (.file content) ∧
            ArchiveOf download.binding download.accepted ∧
            ArchiveOf download.binding content := by
  by_cases hstate : s.state = .writing
  · obtain ⟨download, paths, content, hwriting⟩ := h.writing hstate
    have hfit := FatFsUpdateArchiveStorage.pathsFit_of_pathsFor hwriting.built
    have hsink := @FatFsDownloadSink.finish_returns_iff
      (sinkOf download.binding paths download.accepted) d content hfit.final hwriting.ne
      (dropLast_part_eq hfit) hwriting.part hwriting.final faults
    rw [answerOf_finish hstate hwriting.sink, hsink]
    constructor
    · rintro ⟨haccepted, hcontent, hok⟩
      exact ⟨hstate, hok, download, paths, content, hwriting.began, hwriting.built,
        hwriting.part, haccepted, hcontent⟩
    · rintro ⟨-, hok, download', paths', content', hbegan, hbuilt, hpart, haccepted, hcontent⟩
      have hdownload : download = download' := Option.some.inj (hwriting.began.symm.trans hbegan)
      subst hdownload
      have hpaths : paths = paths' := Option.some.inj (hwriting.built.symm.trans hbuilt)
      subst hpaths
      rw [hwriting.part] at hpart
      cases hpart
      exact ⟨haccepted, hcontent, hok⟩
  · refine ⟨fun hanswer => ?_, fun hall => absurd hall.1 hstate⟩
    have hrun : Call.finish.run s () ⟨d, faults⟩ = .done (.status .failed, s) () ⟨d, faults⟩ := by
      show Proc.bind s.finish (fun r => Proc.pure (Answer.status r.1, r.2)) () ⟨d, faults⟩ = _
      unfold FatFsUpdateArchiveStorage.finish Proc.bind
      rw [if_pos hstate]
      rfl
    unfold answerOf at hanswer
    rw [hrun] at hanswer
    cases hanswer

/-- Where every write found its file operations working, the part is what was accepted. -/
theorem part_of_clean (h : Consistent volume since s d) (hstate : s.state = .writing)
    {download : Download} {paths : FatFsUpdateArchivePaths} (hbegan : since.download = some download)
    (hbuilt : s.pathsFor download.binding = some paths) (hclean : download.clean = true) :
    d.nodeAt (nodePath paths.partPath) = some (.file download.accepted) := by
  obtain ⟨download', paths', content, hwriting⟩ := h.writing hstate
  have hdownload : download' = download := Option.some.inj (hwriting.began.symm.trans hbegan)
  subst hdownload
  have hpaths : paths' = paths := Option.some.inj (hwriting.built.symm.trans hbuilt)
  subst hpaths
  rw [hwriting.part, hwriting.clean hclean]

/-- An `Abort` takes a final file away only after a `Finish` of the same `Begin` or a
`Discard` failed. -/
theorem failed_of_abort (h : Consistent volume since s d) {binding : AuthenticatedUpdateBinding}
    {paths : FatFsUpdateArchivePaths} (hbuilt : s.pathsFor binding = some paths)
    (hthere : d.nodeAt (nodePath paths.finalPath) ≠ none)
    (hgone : (Call.abort.run s () ⟨d, faults⟩).disk.nodeAt (nodePath paths.finalPath) = none) :
    since.failed = true := by
  by_cases hflag : s.failedFinishMayHaveFinal = true
  · exact (h.flag hflag).2
  have habort := respects_abort (R := Within (touching (partAt s.activePaths) noPath)) h
    (respects_flush h) fun paths' hactive p hp => respects_removeFile
      ⟨paths', hactive, hp.resolve_right fun hfinal => hflag hfinal.1⟩
  have hwithin := (respects_call (f := fun _ => Answer.nothing) habort).preserves.disk ()
    ⟨d, faults⟩
  have hsame : (Call.abort.run s () ⟨d, faults⟩).disk.nodeAt (nodePath paths.finalPath) =
      d.nodeAt (nodePath paths.finalPath) :=
    hwithin.nodeAt_eq (final_not_part h hbuilt).2 id id
  exact absurd (hsame.symm.trans hgone) hthere

/-- A `Discard` that answers Ok leaves neither file of its binding. -/
theorem gone_of_discard (h : Consistent volume since s d) {binding : AuthenticatedUpdateBinding}
    {progress : RecoveryProgress}
    (hok : answerOf (.discard binding progress) s d faults = some (.status .ok)) :
    ∃ paths, s.pathsFor binding = some paths ∧
      ((Call.discard binding progress).run s () ⟨d, faults⟩).disk.nodeAt
        (nodePath paths.partPath) = none ∧
      ((Call.discard binding progress).run s () ⟨d, faults⟩).disk.nodeAt
        (nodePath paths.finalPath) = none := by
  unfold answerOf at hok
  obtain ⟨⟨answer, next⟩, hresult, rfl⟩ := Option.map_eq_some_iff.mp hok
  cases hout : (Call.discard binding progress).run s () ⟨d, faults⟩ with
  | error e u w => exact nomatch e
  | cut d' =>
      rw [hout] at hresult
      cases hresult
  | done result u w =>
      rw [hout] at hresult
      cases hresult
      obtain ⟨r, hmethod, hstatus⟩ := of_call hout
      have hends := of_returned (keeps_discard h (E := anyError)) (fun _ _ => trivial) hmethod
      rcases hends with ⟨hne, -⟩ | ⟨-, -, paths, cleanup, hpaths, -, hends, hr⟩
      · exact absurd (Answer.status.inj hstatus).symm hne
      · cases cleanup with
        | done => exact ⟨paths, hpaths, (hends.done rfl).1, (hends.done rfl).2 rfl⟩
        | failed => cases hr; cases hstatus
        | progressFailed => cases hr; cases hstatus

end Ends

/-! ## Back to idle -/

/-- The calls that end what the object is at. -/
def Call.IsEnding : Call → Prop
  | .abort | .closeRead | .discard _ _ => True
  | _ => False

/-- One call while the storage works. -/
def quietly (s : FatFsUpdateArchiveStorage) (d : Volume) (call : Call) :
    FatFsUpdateArchiveStorage × Volume :=
  match call.run s () ⟨d, []⟩ with
  | .done (_, next) _ w => (next, w.disk)
  -- Without a fault nothing is cut.
  | .cut _ => (s, d)

/-- The object after some of these calls, while the storage works. -/
inductive Reaches : FatFsUpdateArchiveStorage → Volume → FatFsUpdateArchiveStorage → Prop
  | here (s : FatFsUpdateArchiveStorage) (d : Volume) : Reaches s d s
  | call {s d last} (call : Call) (hending : call.IsEnding)
      (h : Reaches (quietly s d call).1 (quietly s d call).2 last) : Reaches s d last

/-- A directory stands where the object has a file to remove. -/
def Obstructed (s : FatFsUpdateArchiveStorage) (d : Volume) : Prop :=
  ∃ paths, s.activePaths = some paths ∧ (d.nodeAt (nodePath paths.partPath) = some .directory ∨
    d.nodeAt (nodePath paths.finalPath) = some .directory)

section Idle

variable {volume : Bytes} {since : Since} {s : FatFsUpdateArchiveStorage} {d : Volume}

/-- What a call establishes while the storage works. -/
theorem quietly_of_keeps {α : Type} {m : StorageProc (α × FatFsUpdateArchiveStorage)}
    {f : α → Answer} {Q : α × FatFsUpdateArchiveStorage → Unit → Volume → Prop}
    {I : Volume → Prop} (call : Call) (hcall : call.run s = m >>= fun r => pure (f r.1, r.2))
    (hm : keeps noFault I noError m Q () d) :
    ∃ r, Q r () (quietly s d call).2 ∧ (quietly s d call).1 = r.2 := by
  obtain ⟨r, u, w, hrun, hQ⟩ := keeps_uninterrupted hm
  have hdone : call.run s () ⟨d, []⟩ = .done (f r.1, r.2) () w := by
    rw [hcall]
    show Proc.bind m (fun r => Proc.pure (f r.1, r.2)) () ⟨d, []⟩ = _
    unfold Proc.bind
    rw [hrun]
    rfl
  refine ⟨r, ?_, ?_⟩
  · unfold quietly
    rw [hdone]
    exact hQ
  · unfold quietly
    rw [hdone]

theorem consistent_quietly (h : Consistent volume since s d) (call : Call) :
    ∃ since', Consistent volume since' (quietly s d call).1 (quietly s d call).2 := by
  unfold quietly
  cases hrun : call.run s () ⟨d, []⟩ with
  | done result u w => exact ⟨_, consistent_step h hrun⟩
  | error e u w => exact nomatch e
  | cut d' => exact ⟨since, h⟩

theorem not_mayStay {path : Path} (h : d.nodeAt path ≠ some .directory) :
    ¬FatFsUpdateArchiveStorage.MayStay noFault d path :=
  fun hstay => hstay.elim not_mayFail_noFault h

/-- A cleanup that nothing stands against is done. -/
theorem CleanupEnds.isDone {paths : FatFsUpdateArchivePaths} {removeFinal : Bool} {cleanup : Cleanup}
    {d' : Volume} (hends : CleanupEnds noFault paths removeFinal .absent d cleanup d')
    (hpart : d.nodeAt (nodePath paths.partPath) ≠ some .directory)
    (hfinal : d.nodeAt (nodePath paths.finalPath) ≠ some .directory) : cleanup = .done := by
  by_contra hnot
  rcases hends.stays hnot with hstay | ⟨-, hstay⟩ | hno | hno
  · exact not_mayStay hpart hstay
  · exact not_mayStay hfinal hstay
  · cases hno
  · cases hno

/-- `Discard` of what is remembered gets a completed object back to idle. -/
theorem idle_of_discard (h : Consistent volume since s d) (hstate : s.state = .completed)
    (hfree : ¬Obstructed s d) : ∃ last, Reaches s d last ∧ last.state = .idle := by
  obtain ⟨binding, -, paths, hbuilt, hactive⟩ := h.remembered (by simp [hstate])
  have hclear : d.nodeAt (nodePath paths.partPath) ≠ some .directory ∧
      d.nodeAt (nodePath paths.finalPath) ≠ some .directory := by
    rw [← not_or]
    exact fun hdirectory => hfree ⟨paths, hactive, hdirectory⟩
  obtain ⟨r, hends, hnext⟩ := quietly_of_keeps (.discard binding .absent) rfl
    (keeps_discard h)
  refine ⟨_, .call (.discard binding .absent) trivial (.here _ _), ?_⟩
  rw [hnext]
  rcases hends with ⟨-, -, -, hrefused⟩ | ⟨-, -, paths', cleanup, hbuilt', -, hends, hr⟩
  · exact absurd ⟨by simp [hstate], by simp [hstate], paths, hbuilt, Or.inr hactive⟩ hrefused
  · have heq : paths = paths' := Option.some.inj (hbuilt.symm.trans hbuilt')
    subst heq
    obtain rfl := hends.isDone hclear.1 hclear.2
    rw [hr]
    rfl

/-- Without an obstacle every state leads back to idle. -/
theorem idle_of_free (h : Consistent volume since s d) (hfree : ¬Obstructed s d) :
    ∃ last, Reaches s d last ∧ last.state = .idle := by
  have habort : s.state = .writing ∨ s.state = .cleanupPending →
      ∃ last, Reaches s d last ∧ last.state = .idle := by
    intro hstate
    obtain ⟨binding, -, paths, hbuilt, hactive⟩ := h.remembered
      (by rcases hstate with hstate | hstate <;> simp [hstate])
    have hclear : d.nodeAt (nodePath paths.partPath) ≠ some .directory ∧
        d.nodeAt (nodePath paths.finalPath) ≠ some .directory := by
      rw [← not_or]
      exact fun hdirectory => hfree ⟨paths, hactive, hdirectory⟩
    obtain ⟨r, ⟨cleanup, hends, hr⟩, hnext⟩ := quietly_of_keeps .abort
      (f := fun _ => Answer.nothing) rfl (keeps_abort h hstate hactive
        (FatFsUpdateArchiveStorage.pathsFit_of_pathsFor hbuilt))
    refine ⟨_, .call .abort trivial (.here _ _), ?_⟩
    obtain rfl := hends.isDone hclear.1 hclear.2
    rw [hnext, hr]
    rfl
  cases hstate : s.state with
  | idle => exact ⟨s, .here s d, hstate⟩
  | writing => exact habort (Or.inl hstate)
  | cleanupPending => exact habort (Or.inr hstate)
  | completed => exact idle_of_discard h hstate hfree
  | reading =>
      obtain ⟨r, ⟨hdisk, hends⟩, hnext⟩ := quietly_of_keeps .closeRead rfl
        (keeps_closeRead (s := s) (d := d))
      have hclosed := hends.resolve_left fun hnot => hnot.1 hstate
      obtain ⟨since', hnow⟩ := consistent_quietly h .closeRead
      rw [hdisk, hnext, hclosed.2] at hnow
      obtain ⟨last, hreaches, hidle⟩ := idle_of_discard hnow rfl hfree
      refine ⟨last, .call .closeRead trivial ?_, hidle⟩
      rw [hdisk, hnext, hclosed.2]
      exact hreaches

/-- An object that cannot finish its cleanup. -/
structure Stuck (s : FatFsUpdateArchiveStorage) (d : Volume) : Prop where
  obstructed : Obstructed s d
  state : s.state = .completed ∨ s.state = .reading ∨
    s.state = .cleanupPending ∧ s.failedFinishMayHaveFinal = true

theorem stuck_of_obstructed (h : Consistent volume since s d) (hobstructed : Obstructed s d) :
    Stuck s d := by
  refine ⟨hobstructed, ?_⟩
  obtain ⟨paths, hactive, hdirectory⟩ := hobstructed
  have hwithout : ¬((s.state = .writing ∨ s.state = .cleanupPending) ∧
      s.failedFinishMayHaveFinal = false) := by
    rintro ⟨hstate, hflag⟩
    obtain ⟨hpart, hfinal⟩ := h.withoutFinal hstate hflag hactive
    rcases hdirectory with hdirectory | hdirectory
    · exact hpart hdirectory
    · rw [hfinal] at hdirectory
      cases hdirectory
  cases hstate : s.state with
  | idle =>
      rw [h.idle hstate] at hactive
      cases hactive
  | writing =>
      obtain ⟨download, paths', content, hwriting⟩ := h.writing hstate
      exact absurd ⟨Or.inl hstate, hwriting.flag⟩ hwithout
  | completed => exact Or.inl rfl
  | reading => exact Or.inr (Or.inl rfl)
  | cleanupPending =>
      refine Or.inr (Or.inr ⟨rfl, ?_⟩)
      by_contra hflag
      exact hwithout ⟨Or.inr hstate, by simpa using hflag⟩

/-- Directories stay. -/
theorem directory_stays {files : Path → Prop} {d' : Volume} {path : Path}
    (h : Within (touching files noPath) d d') (hdirectory : d.nodeAt path = some .directory) :
    d'.nodeAt path = some .directory := by
  rcases h path with hsame | ⟨-, -, hvanish⟩
  · rw [hsame, hdirectory]
  · exact (hvanish hdirectory).elim

theorem Obstructed.stays {paths : FatFsUpdateArchivePaths} {files : Path → Prop} {d' : Volume}
    (h : Obstructed s d) (hactive : s.activePaths = some paths)
    (htouched : Within (touching files noPath) d d') :
    d'.nodeAt (nodePath paths.partPath) = some .directory ∨
      d'.nodeAt (nodePath paths.finalPath) = some .directory := by
  obtain ⟨paths', hactive', hdirectory⟩ := h
  have heq : paths' = paths := Option.some.inj (hactive'.symm.trans hactive)
  subst heq
  exact hdirectory.imp (directory_stays htouched) (directory_stays htouched)

/-- A cleanup of both files does not end well while a directory stands there. -/
theorem CleanupEnds.notDone {allow : Fault → Prop} {paths : FatFsUpdateArchivePaths}
    {progress : RecoveryProgress} {cleanup : Cleanup} {d' : Volume}
    (hends : CleanupEnds allow paths true progress d cleanup d')
    (hdirectory : d'.nodeAt (nodePath paths.partPath) = some .directory ∨
      d'.nodeAt (nodePath paths.finalPath) = some .directory) : cleanup ≠ .done := by
  rintro rfl
  obtain ⟨hpart, hfinal⟩ := hends.done rfl
  rcases hdirectory with hdirectory | hdirectory
  · rw [hpart] at hdirectory
    cases hdirectory
  · rw [hfinal rfl] at hdirectory
    cases hdirectory

theorem stuck_quietly (h : Consistent volume since s d) (hstuck : Stuck s d) {call : Call}
    (hending : call.IsEnding) : Stuck (quietly s d call).1 (quietly s d call).2 := by
  obtain ⟨paths, hactive, -⟩ := id hstuck.obstructed
  have hidle : s.state ≠ .idle := fun hidle => by
    rw [h.idle hidle] at hactive
    cases hactive
  obtain ⟨binding, -, paths', hbuilt, hactive'⟩ := h.remembered hidle
  have heq : paths' = paths := Option.some.inj (hactive'.symm.trans hactive)
  subst heq
  cases call with
  | begin b => exact hending.elim
  | write data => exact hending.elim
  | finish => exact hending.elim
  | openRead b => exact hending.elim
  | closeRead =>
      obtain ⟨r, ⟨hdisk, hends⟩, hnext⟩ := quietly_of_keeps .closeRead rfl
        (keeps_closeRead (s := s) (d := d))
      rw [hdisk, hnext]
      rcases hends with ⟨-, hsame⟩ | ⟨-, hclosed⟩
      · rw [hsame]
        exact hstuck
      · rw [hclosed]
        exact ⟨hstuck.obstructed, Or.inl rfl⟩
  | abort =>
      by_cases hstate : s.state = .cleanupPending
      · have hflag : s.failedFinishMayHaveFinal = true := by
          rcases hstuck.state with hother | hother | ⟨-, hflag⟩
          · rw [hstate] at hother
            cases hother
          · rw [hstate] at hother
            cases hother
          · exact hflag
        obtain ⟨r, ⟨cleanup, hends, hr⟩, hnext⟩ := quietly_of_keeps .abort
          (f := fun _ => Answer.nothing) rfl (keeps_abort h (Or.inr hstate) hactive
            (FatFsUpdateArchiveStorage.pathsFit_of_pathsFor hbuilt))
        rw [hflag] at hends
        have hdirectory := hstuck.obstructed.stays hactive hends.touched
        rw [hnext, hr]
        cases cleanup with
        | done => exact absurd rfl (hends.notDone hdirectory)
        | failed => exact ⟨⟨paths', hactive, hdirectory⟩, Or.inr (Or.inr ⟨rfl, hflag⟩)⟩
        | progressFailed => exact ⟨⟨paths', hactive, hdirectory⟩, Or.inr (Or.inr ⟨rfl, hflag⟩)⟩
      · have hsame : quietly s d .abort = (s, d) := by
          have hwriting : s.state ≠ .writing := by
            rcases hstuck.state with hother | hother | ⟨hother, -⟩ <;> simp [hother]
          unfold quietly Call.run FatFsUpdateArchiveStorage.abort
          rw [if_pos ⟨hwriting, hstate⟩]
          rfl
        rw [hsame]
        exact hstuck
  | discard b progress =>
      obtain ⟨r, hends, hnext⟩ := quietly_of_keeps (.discard b progress) rfl
        (keeps_discard h)
      rw [hnext]
      rcases hends with ⟨-, hsame, hdisk, -⟩ | ⟨-, -, paths, cleanup, -, hmatch, hends, hr⟩
      · rw [hsame, hdisk]
        exact hstuck
      · have hsame : s.activePaths = some paths := hmatch.resolve_left (by simp [hactive])
        have hdirectory := hstuck.obstructed.stays hsame hends.touched
        rw [hr]
        cases cleanup with
        | done => exact absurd rfl (hends.notDone hdirectory)
        | failed => exact ⟨⟨paths, rfl, hdirectory⟩, Or.inr (Or.inr ⟨rfl, rfl⟩)⟩
        | progressFailed => exact ⟨⟨paths, rfl, hdirectory⟩, Or.inr (Or.inr ⟨rfl, rfl⟩)⟩

/-- The object gets back to idle exactly where no directory stands in its way. -/
theorem idle_iff (h : Consistent volume since s d) :
    (∃ last, Reaches s d last ∧ last.state = .idle) ↔ ¬Obstructed s d := by
  refine ⟨?_, idle_of_free h⟩
  rintro ⟨last, hreaches, hidle⟩ hobstructed
  have hstuck := stuck_of_obstructed h hobstructed
  clear hobstructed
  induction hreaches generalizing since with
  | here s d => rcases hstuck.state with hother | hother | ⟨hother, -⟩ <;> simp [hidle] at hother
  | call call hending hrest ih =>
      obtain ⟨since', hnow⟩ := consistent_quietly h call
      exact ih hnow hidle (stuck_quietly h hstuck hending)

end Idle

/-! ## The storage as a whole -/

/-- What holds after every run: of the volume, and of whatever call comes next. -/
structure CompleteArchives (volume : Bytes) (start : Volume) (history : List Entry)
    (s : FatFsUpdateArchiveStorage) (d : Volume) : Prop where
  complete : ∀ binding paths, (FatFsUpdateArchiveStorage.new volume).pathsFor binding = some paths →
    Uncollided history binding →
    (∀ content, start.nodeAt (nodePath paths.finalPath) = some (.file content) →
      ArchiveOf binding content) →
    ∀ content, d.nodeAt (nodePath paths.finalPath) = some (.file content) →
      ArchiveOf binding content
  finish : ∀ faults, answerOf .finish s d faults = some (.status .ok) ↔
    s.state = .writing ∧ (∀ f ∈ faults.take FatFsDownloadSink.finishCalls, f = .ok) ∧
      ∃ (download : Download) (paths : FatFsUpdateArchivePaths) (content : Content),
        (sinceOf history).download = some download ∧
          s.pathsFor download.binding = some paths ∧
          d.nodeAt (nodePath paths.partPath) = some (.file content) ∧
          ArchiveOf download.binding download.accepted ∧ ArchiveOf download.binding content
  clean : s.state = .writing → ∀ download paths, (sinceOf history).download = some download →
    s.pathsFor download.binding = some paths → download.clean = true →
    d.nodeAt (nodePath paths.partPath) = some (.file download.accepted)
  abort : ∀ faults binding paths, s.pathsFor binding = some paths →
    d.nodeAt (nodePath paths.finalPath) ≠ none →
    (Call.abort.run s () ⟨d, faults⟩).disk.nodeAt (nodePath paths.finalPath) = none →
    (sinceOf history).failed = true
  discard : ∀ faults binding progress,
    answerOf (.discard binding progress) s d faults = some (.status .ok) →
    ∃ paths, s.pathsFor binding = some paths ∧
      ((Call.discard binding progress).run s () ⟨d, faults⟩).disk.nodeAt
        (nodePath paths.partPath) = none ∧
      ((Call.discard binding progress).run s () ⟨d, faults⟩).disk.nodeAt
        (nodePath paths.finalPath) = none
  touched : ∀ call faults, Within (touching (filesAt (handled s call))
    (directoriesAt call (handled s call))) d (call.run s () ⟨d, faults⟩).disk
  remembered : ∀ paths, s.activePaths = some paths →
    ∃ binding ∈ (sinceOf history).given, s.pathsFor binding = some paths
  idle : (∃ last, Reaches s d last ∧ last.state = .idle) ↔ ¬Obstructed s d

/-- Archive storage keeps only complete archives. -/
theorem archive_storage_complete {volume : Bytes} {start d : Volume} {history : List Entry}
    {s : FatFsUpdateArchiveStorage} (h : Run volume start history s d) :
    CompleteArchives volume start history s d := by
  have hconsistent := consistent_of_run h
  exact {
    complete := fun binding paths hbuilt hfree hstart => final_complete h hbuilt hfree hstart
    finish := fun faults => finish_ok_iff hconsistent
    clean := fun hstate download paths hbegan hbuilt =>
      part_of_clean hconsistent hstate hbegan hbuilt
    abort := fun faults binding paths hbuilt => failed_of_abort hconsistent hbuilt
    discard := fun faults binding progress => gone_of_discard hconsistent
    touched := call_touches hconsistent
    remembered := fun paths hactive => by
      have hidle : s.state ≠ .idle := fun hidle => by
        rw [hconsistent.idle hidle] at hactive
        cases hactive
      obtain ⟨binding, hgiven, paths', hbuilt, hactive'⟩ := hconsistent.remembered hidle
      have heq : paths' = paths := Option.some.inj (hactive'.symm.trans hactive)
      exact ⟨binding, hgiven, heq ▸ hbuilt⟩
    idle := idle_iff hconsistent }

/-! ### Runs that are played -/

/-- The history, the object and the volume after one more call. -/
def playOne (volume : Bytes) (now : List Entry × FatFsUpdateArchiveStorage × Volume)
    (next : Call × List Fault) : List Entry × FatFsUpdateArchiveStorage × Volume :=
  match next.1.run now.2.1 () ⟨now.2.2, next.2⟩ with
  | .done (answer, s) _ w => (now.1 ++ [⟨next.1, next.2, some answer⟩], s, w.disk)
  | .cut d => (now.1 ++ [⟨next.1, next.2, none⟩], .new volume, d)

def play (volume : Bytes) (start : Volume) (calls : List (Call × List Fault)) :
    List Entry × FatFsUpdateArchiveStorage × Volume :=
  calls.foldl (playOne volume) ([], .new volume, start)

theorem run_play (volume : Bytes) (start : Volume) (calls : List (Call × List Fault)) :
    Run volume start (play volume start calls).1 (play volume start calls).2.1
      (play volume start calls).2.2 := by
  unfold play
  induction calls using List.reverseRecOn with
  | nil => exact .start
  | append_singleton front next ih =>
      rw [List.foldl_concat]
      unfold playOne
      split
      next heq => exact ih.returned heq
      next heq => exact ih.cut heq

/-- A binding whose archive is one byte. -/
def smallBinding : AuthenticatedUpdateBinding where
  archiveUrl := bytesOf "https://github.com/kdre/bmx/releases/download/v2/bmx.zip"
  archiveFilename := bytesOf "bmx.zip"
  transactionRoot := bytesOf "bmx/t1"
  board := .pi4Pi400
  sourceReleaseSequence := 1
  targetReleaseSequence := 2
  oldBootGeneration := 1
  newBootGeneration := 2
  archiveSize := 1
  transactionId := .ofBytes 16 [1]
  archiveSha256 := sha256 [0x50]
  manifestSha256 := .ofBytes 32 [1]
  consentSha256 := .ofBytes 32 [1]
  resetRequired := false
  resetApproved := false

/-- A download that is finished, after its first attempt was cut. -/
def smallCalls : List (Call × List Fault) :=
  [(.begin smallBinding, []), (.write [0x50], [.cut 0]), (.begin smallBinding, []),
    (.write [0x50], []), (.finish, [])]

theorem archive_storage_complete_small :
    (play (bytesOf "SYS:") .empty smallCalls).2.1.state = .completed ∧
      CompleteArchives (bytesOf "SYS:") .empty (play (bytesOf "SYS:") .empty smallCalls).1
        (play (bytesOf "SYS:") .empty smallCalls).2.1 (play (bytesOf "SYS:") .empty smallCalls).2.2 :=
  ⟨by decide +kernel, archive_storage_complete (run_play (bytesOf "SYS:") .empty smallCalls)⟩

/-- A binding whose transaction root is the final path of `smallBinding`. -/
def nestedBinding : AuthenticatedUpdateBinding :=
  { smallBinding with
    transactionRoot := bytesOf "bmx/t1/" ++ archiveName (sha256 (bindingText smallBinding)) }

/-- A write that fails without leaving anything, and its repetition. -/
def repeatedWrite : List (Call × List Fault) :=
  [(.begin smallBinding, []), (.write [0x50], [.fail 0]), (.write [0x50], [])]

/-- A write that fails but leaves its byte, and its repetition. -/
def tornWrite : List (Call × List Fault) :=
  [(.begin smallBinding, []), (.write [0x50], [.fail 1]), (.write [0x50], [])]

/-- A download above whose part the final path of another is a directory. -/
def nestedDownload : List (Call × List Fault) :=
  [(.begin nestedBinding, []), (.abort, []), (.discard smallBinding .absent, [])]

/-- These calls on an empty volume. -/
def playSmall (calls : List (Call × List Fault)) :
    List Entry × FatFsUpdateArchiveStorage × Volume :=
  play (bytesOf "SYS:") .empty calls

theorem run_playSmall (calls : List (Call × List Fault)) :
    Run (bytesOf "SYS:") .empty (playSmall calls).1 (playSmall calls).2.1 (playSmall calls).2.2 :=
  run_play (bytesOf "SYS:") .empty calls

/-- A `Finish` may return Ok after a failed write, and may fail although the bytes accepted
are the archive and nothing fails any more; a `Begin` makes a directory that is neither of
its paths; and a directory that it made can keep another download from ever being idle. -/
theorem archive_storage_not_always :
    ((playSmall repeatedWrite).1.map Entry.answer =
        [some (.status .ok), some (.written false), some (.written true)] ∧
      answerOf .finish (playSmall repeatedWrite).2.1 (playSmall repeatedWrite).2.2 [] =
        some (.status .ok)) ∧
    ((sinceOf (playSmall tornWrite).1).download.map Download.accepted = some [0x50] ∧
      answerOf .finish (playSmall tornWrite).2.1 (playSmall tornWrite).2.2 [] =
        some (.status .failed)) ∧
    (Volume.empty.nodeAt ["bmx"] = none ∧
      (playSmall [(.begin smallBinding, [])]).2.2.nodeAt ["bmx"] = some .directory ∧
      ((playSmall [(.begin smallBinding, [])]).2.1.activePaths.all fun paths =>
        nodePath paths.partPath ≠ ["bmx"] ∧ nodePath paths.finalPath ≠ ["bmx"]) = true) ∧
    ¬∃ last, Reaches (playSmall nestedDownload).2.1 (playSmall nestedDownload).2.2 last ∧
      last.state = .idle := by
  refine ⟨by decide +kernel, by decide +kernel, by decide +kernel, ?_⟩
  have hobstructed : ((playSmall nestedDownload).2.1.activePaths.any fun paths =>
      (playSmall nestedDownload).2.2.nodeAt (nodePath paths.finalPath) = some .directory) =
        true := by decide +kernel
  rw [idle_iff (consistent_of_run (run_playSmall nestedDownload)), not_not]
  cases hactive : (playSmall nestedDownload).2.1.activePaths with
  | none =>
      rw [hactive] at hobstructed
      cases hobstructed
  | some paths =>
      rw [hactive] at hobstructed
      exact ⟨paths, hactive, Or.inr (of_decide_eq_true hobstructed)⟩

end Archive

end BmxUpdate
