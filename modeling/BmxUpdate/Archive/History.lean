import BmxUpdate.Archive.Calls

/-!
# Runs of the storage

The calls of a storage object one after the other, any call of which may be cut: a new
object then finds the volume that is left.  `Since` is what the calls and their answers say
about the object that is there, and `Consistent` is what every run keeps between that, the
object and the volume.
-/

namespace BmxUpdate

namespace Archive

open Wire Crash Volumes FatPath

/-! ## Calls and their history -/

/-- The calls of the storage object. -/
inductive Call where
  | begin (binding : AuthenticatedUpdateBinding)
  | write (data : Bytes)
  | finish
  | abort
  | openRead (binding : AuthenticatedUpdateBinding)
  | closeRead
  | discard (binding : AuthenticatedUpdateBinding) (progress : RecoveryProgress)
deriving DecidableEq

/-- What a call returns. -/
inductive Answer where
  | status (status : ArchiveStorageStatus)
  | written (ok : Bool)
  | nothing
deriving DecidableEq

namespace Call

def run (s : FatFsUpdateArchiveStorage) : Call → StorageProc (Answer × FatFsUpdateArchiveStorage)
  | begin binding => do
      let result ← s.begin binding
      return (.status result.1, result.2)
  | write data => do
      let result ← s.write data
      return (.written result.1, result.2)
  | finish => do
      let result ← s.finish
      return (.status result.1, result.2)
  | abort => do
      let result ← s.abort
      return (.nothing, result.2)
  | openRead binding => do
      let result ← s.openRead binding
      return (.status result.1, result.2)
  | closeRead => do
      let result ← s.closeRead
      return (.status result.1, result.2)
  | discard binding progress => do
      let result ← s.discard binding progress
      return (.status result.1, result.2)

/-- The binding a call is given. -/
def binding? : Call → Option AuthenticatedUpdateBinding
  | begin binding | openRead binding | discard binding _ => some binding
  | _ => none

end Call

/-- A call, what happened to its file operations, and its answer unless it was cut. -/
structure Entry where
  call : Call
  faults : List Fault
  answer : Option Answer
deriving DecidableEq

/-- The calls from a volume on, the object after them, and the volume. -/
inductive Run (volume : Bytes) (start : Volume) :
    List Entry → FatFsUpdateArchiveStorage → Volume → Prop
  | start : Run volume start [] (.new volume) start
  | returned {history s d call faults answer next w} (h : Run volume start history s d)
      (hrun : call.run s () ⟨d, faults⟩ = .done (answer, next) () w) :
      Run volume start (history ++ [⟨call, faults, some answer⟩]) next w.disk
  | cut {history s d call faults d'} (h : Run volume start history s d)
      (hrun : call.run s () ⟨d, faults⟩ = .cut d') :
      Run volume start (history ++ [⟨call, faults, none⟩]) (.new volume) d'

/-- A `Begin` that returned Ok, the bytes accepted since, and whether every write since
found its file operations working. -/
structure Download where
  binding : AuthenticatedUpdateBinding
  accepted : Bytes
  clean : Bool

/-- What happened since the object was made. -/
structure Since where
  download : Option Download
  failed : Bool
  given : List AuthenticatedUpdateBinding

namespace Since

def initial : Since := ⟨none, false, []⟩

/-- The last download that began. -/
def downloadAfter (clean : Bool) : Option Download → Call → Answer → Option Download
  | _, .begin binding, .status .ok => some ⟨binding, [], true⟩
  | old, .write data, .written accepted => old.map fun download =>
      { download with
        accepted := if accepted then download.accepted ++ data else download.accepted
        clean := download.clean && clean }
  | old, _, _ => old

/-- Whether a `Finish` failed since the last `Begin`, or a `Discard` did. -/
def failedAfter : Bool → Call → Answer → Bool
  | _, .begin _, .status .ok => false
  | old, .finish, .status status => old || status ≠ .ok
  | _, .discard _ _, .status status => status ≠ .ok
  | old, _, _ => old

/-- One more call; a cut leaves nothing of the object. -/
def after (since : Since) (entry : Entry) : Since :=
  match entry.answer with
  | none => initial
  | some answer =>
      { download := downloadAfter (entry.faults.all (· = .ok)) since.download entry.call answer
        failed := failedAfter since.failed entry.call answer
        given := entry.call.binding?.toList ++ since.given }

end Since

/-- What happened since the object that is there was made. -/
def sinceOf (history : List Entry) : Since := history.foldl Since.after .initial

theorem sinceOf_concat (history : List Entry) (entry : Entry) :
    sinceOf (history ++ [entry]) = (sinceOf history).after entry := by
  unfold sinceOf
  rw [List.foldl_concat]

/-! ## What every run keeps -/

namespace FatFsUpdateArchiveStorage

/-- The paths of a binding on the volume of the object. -/
def pathsFor (s : FatFsUpdateArchiveStorage) (binding : AuthenticatedUpdateBinding) :
    Option FatFsUpdateArchivePaths :=
  s.volume.bind fun volume => (buildFatFsUpdateArchivePaths volume binding).toOption

theorem pathsFit_of_pathsFor {s : FatFsUpdateArchiveStorage}
    {binding : AuthenticatedUpdateBinding} {paths : FatFsUpdateArchivePaths}
    (h : s.pathsFor binding = some paths) : PathsFit binding paths := by
  obtain ⟨volume, -, h⟩ := Option.bind_eq_some_iff.mp h
  cases hbuild : buildFatFsUpdateArchivePaths volume binding with
  | error status =>
      rw [hbuild] at h
      cases h
  | ok built =>
      rw [hbuild] at h
      cases h
      exact pathsFit_of_build hbuild

end FatFsUpdateArchiveStorage

/-- The sink of a download that has accepted these bytes. -/
def sinkOf (binding : AuthenticatedUpdateBinding) (paths : FatFsUpdateArchivePaths)
    (accepted : Bytes) : FatFsDownloadSink :=
  ⟨binding.archiveSize.toNat, binding.archiveSha256, accepted, paths.partPath, paths.finalPath⟩

/-- A download that is being written. -/
structure Writing (since : Since) (s : FatFsUpdateArchiveStorage) (d : Volume)
    (download : Download) (paths : FatFsUpdateArchivePaths) (content : Content) : Prop where
  began : since.download = some download
  given : download.binding ∈ since.given
  built : s.pathsFor download.binding = some paths
  active : s.activePaths = some paths
  sink : s.download = some (sinkOf download.binding paths download.accepted)
  part : d.nodeAt (nodePath paths.partPath) = some (.file content)
  final : d.nodeAt (nodePath paths.finalPath) = none
  clean : download.clean = true → content = download.accepted
  flag : s.failedFinishMayHaveFinal = false

/-- What holds between the calls of a run, the object and the volume. -/
structure Consistent (volume : Bytes) (since : Since) (s : FatFsUpdateArchiveStorage)
    (d : Volume) : Prop where
  volume : s.volume = (normalizeVolume volume).toOption
  idle : s.state = .idle → s.activePaths = none
  remembered : s.state ≠ .idle → ∃ binding ∈ since.given, ∃ paths,
    s.pathsFor binding = some paths ∧ s.activePaths = some paths
  source : s.sourceOpen = true → s.state = .reading
  closed : s.state ≠ .writing → s.download = none
  flag : s.failedFinishMayHaveFinal = true → s.state = .cleanupPending ∧ since.failed = true
  writing : s.state = .writing → ∃ download paths content, Writing since s d download paths content
  unfinished : s.state = .cleanupPending → s.failedFinishMayHaveFinal = false →
    ∀ paths, s.activePaths = some paths → d.nodeAt (nodePath paths.partPath) ≠ some .directory ∧
      d.nodeAt (nodePath paths.finalPath) = none

theorem consistent_new (volume : Bytes) (d : Volume) :
    Consistent volume .initial (.new volume) d where
  volume := rfl
  idle := fun _ => rfl
  remembered := fun h => absurd rfl h
  source := nofun
  closed := fun _ => rfl
  flag := nofun
  writing := nofun
  unfinished := nofun

/-- A call that leaves the object as it was, and the volume too unless the object is idle. -/
theorem Consistent.same {volume : Bytes} {since since' : Since} {s : FatFsUpdateArchiveStorage}
    {d d' : Volume} (h : Consistent volume since s d)
    (hgiven : ∀ binding ∈ since.given, binding ∈ since'.given)
    (hfailed : since.failed = true → since'.failed = true)
    (hdownload : s.state = .writing → since'.download = since.download)
    (hdisk : s.state ≠ .idle → d' = d) :
    Consistent volume since' s d' where
  volume := h.volume
  idle := h.idle
  remembered := fun hstate => by
    obtain ⟨binding, hmem, hpaths⟩ := h.remembered hstate
    exact ⟨binding, hgiven binding hmem, hpaths⟩
  source := h.source
  closed := h.closed
  flag := fun hflag => ⟨(h.flag hflag).1, hfailed (h.flag hflag).2⟩
  writing := fun hstate => by
    obtain ⟨download, paths, content, hwriting⟩ := h.writing hstate
    rw [hdisk (by simp [hstate])]
    exact ⟨download, paths, content, 
      { hwriting with
        began := (hdownload hstate).trans hwriting.began
        given := hgiven _ hwriting.given }⟩
  unfinished := fun hstate => by
    rw [hdisk (by simp [hstate])]
    exact h.unfinished hstate

theorem mapStorageStatus_ne_ok (status : FatFsStorageStatus) : mapStorageStatus status ≠ .ok := by
  cases status <;> decide

section Steps

variable {volume : Bytes} {since : Since} {s : FatFsUpdateArchiveStorage} {d : Volume}
  {faults : List Fault} {binding : AuthenticatedUpdateBinding}

/-- A call that leaves the object and its volume alone and is no `Write`. -/
theorem Consistent.refused (h : Consistent volume since s d) {call : Call}
    {status : ArchiveStorageStatus} {d' : Volume} (hbegin : ∀ b, call = .begin b → status ≠ .ok)
    (hdiscard : ∀ b p, call = .discard b p → status ≠ .ok)
    (hwrite : ∀ data, call ≠ .write data) (hdisk : s.state ≠ .idle → d' = d) :
    Consistent volume (since.after ⟨call, faults, some (.status status)⟩) s d' := by
  refine h.same (fun b hb => List.mem_append_right _ hb) (fun hfailed => ?_) (fun _ => ?_) hdisk
  · cases call with
    | begin b =>
        have hne := hbegin b rfl
        cases status <;> first | exact hfailed | exact absurd rfl hne
    | finish =>
        show (since.failed || _) = true
        rw [hfailed]
        rfl
    | discard b p => exact decide_eq_true (hdiscard b p rfl)
    | _ => exact hfailed
  · cases call with
    | begin b =>
        have hne := hbegin b rfl
        cases status <;> first | rfl | exact absurd rfl hne
    | write data => exact absurd rfl (hwrite data)
    | _ => rfl

theorem keeps_begin (h : Consistent volume since s d) :
    keeps anyFault (fun _ => True) anyError (s.begin binding) (fun r _ d' => Consistent volume
      (since.after ⟨.begin binding, faults, some (.status r.1)⟩) r.2 d') () d := by
  have hrefused : ∀ {status d'}, status ≠ .ok → (s.state ≠ .idle → d' = d) → Consistent volume
      (since.after ⟨.begin binding, faults, some (.status status)⟩) s d' := fun hne hdisk =>
    h.refused (fun _ _ => hne) nofun nofun hdisk
  unfold FatFsUpdateArchiveStorage.begin
  cases hvolume : s.volume with
  | none => exact keeps_pure (hrefused (by simp) fun _ => rfl)
  | some root =>
      refine keeps_ite (fun _ => keeps_pure (hrefused (by simp) fun _ => rfl)) fun hidle => ?_
      have hidle := not_not.mp hidle
      cases hbuild : buildFatFsUpdateArchivePaths root binding with
      | error status => exact keeps_pure (hrefused (mapStorageStatus_ne_ok _) fun _ => rfl)
      | ok paths =>
          have hfit := pathsFit_of_build hbuild
          have hpaths : s.pathsFor binding = some paths := by
            unfold FatFsUpdateArchiveStorage.pathsFor
            rw [hvolume, Option.bind_some, hbuild]
            rfl
          have hstart := @FatFsDownloadSink.keeps_start s.download paths.partPath paths.finalPath
            binding.archiveSize.toNat binding.archiveSha256 d hfit.part hfit.final
            (Ne.symm (part_ne_final hfit hfit)) (notMem_parentPaths hfit)
          refine keeps_bind (wp_attempt (wp_mono hstart ?_ ?_ fun _ h => h))
          · rintro sink _ d' ⟨rfl, hfinal, hpart⟩
            refine keeps_pure ?_
            exact {
              volume := h.volume
              idle := nofun
              remembered := fun _ => ⟨binding, List.mem_cons_self, paths, hpaths, rfl⟩
              source := fun hopen => by
                have hreading := h.source hopen
                rw [hidle] at hreading
                cases hreading
              closed := fun hstate => absurd rfl hstate
              flag := nofun
              writing := fun _ => ⟨⟨binding, [], true⟩, paths, [], {
                began := rfl
                given := List.mem_cons_self
                built := hpaths
                active := rfl
                sink := rfl
                part := hpart
                final := hfinal
                clean := fun _ => rfl
                flag := rfl }⟩
              unfinished := nofun }
          · exact fun status _ d' _ => keeps_pure
              (hrefused (mapStorageStatus_ne_ok _) fun hbusy => absurd hidle hbusy)

/-- The files of a download are two. -/
theorem Writing.ne {download : Download} {paths : FatFsUpdateArchivePaths} {content : Content}
    (h : Writing since s d download paths content) :
    nodePath paths.partPath ≠ nodePath paths.finalPath :=
  part_ne_final (FatFsUpdateArchiveStorage.pathsFit_of_pathsFor h.built)
    (FatFsUpdateArchiveStorage.pathsFit_of_pathsFor h.built)

/-- A download that goes on. -/
theorem Consistent.still (h : Consistent volume since s d) (hstate : s.state = .writing)
    {since' : Since} {sink : Option FatFsDownloadSink} {d' : Volume} {download : Download}
    {paths : FatFsUpdateArchivePaths} {content : Content}
    (hgiven : since'.given = since.given)
    (hwriting : Writing since' { s with download := sink } d' download paths content) :
    Consistent volume since' { s with download := sink } d' where
  volume := h.volume
  idle := h.idle
  remembered := by
    rw [hgiven]
    exact h.remembered
  source := h.source
  closed := fun hnot => absurd hstate hnot
  flag := fun hflag => absurd (hflag.symm.trans hwriting.flag) nofun
  writing := fun _ => ⟨download, paths, content, hwriting⟩
  unfinished := fun hpending => absurd (hstate.symm.trans hpending) nofun

/-- The runs of a `Write` are clean where its entry says so. -/
theorem keeps_write {allow : Fault → Prop} {data : Bytes} (h : Consistent volume since s d)
    (hclean : faults.all (· = .ok) = true → ¬(MayFail allow ∨ MayCut allow)) :
    keeps allow (fun _ => True) anyError (s.write data) (fun r _ d' => Consistent volume
      (since.after ⟨.write data, faults, some (.written r.1)⟩) r.2 d') () d := by
  unfold FatFsUpdateArchiveStorage.write
  refine keeps_ite (fun hstate => keeps_pure ?_) fun hstate => ?_
  · exact h.same (fun _ hb => hb) id (fun hwriting => absurd hwriting hstate) fun _ => rfl
  have hstate := not_not.mp hstate
  obtain ⟨download, paths, content, hwriting⟩ := h.writing hstate
  rw [hwriting.sink]
  have hwrite := FatFsDownloadSink.respects_write.preserves.wp_and
    (@FatFsDownloadSink.keeps_write (sinkOf download.binding paths download.accepted) data d allow
      content hwriting.part)
  have hfinal : ∀ {d'}, Within (touching (· = nodePath paths.partPath) noPath) d d' →
      d'.nodeAt (nodePath paths.finalPath) = none := by
    intro d' hwithin
    have hsame : d'.nodeAt (nodePath paths.finalPath) = d.nodeAt (nodePath paths.finalPath) :=
      hwithin.nodeAt_eq (Ne.symm hwriting.ne) id id
    exact hsame.trans hwriting.final
  refine keeps_bind (wp_attempt (wp_mono hwrite ?_ ?_ ?_))
  · rintro next _ d' ⟨⟨rfl, hpart⟩, hwithin⟩
    have hnext : Writing (since.after ⟨.write data, faults, some (.written true)⟩)
        { s with download := some (sinkOf download.binding paths (download.accepted ++ data)) } d'
        ⟨download.binding, download.accepted ++ data,
          download.clean && faults.all (· = .ok)⟩ paths (content ++ data) :=
      { began := by simp [Since.after, Since.downloadAfter, hwriting.began]
        given := hwriting.given
        built := hwriting.built
        active := hwriting.active
        sink := rfl
        part := hpart
        final := hfinal hwithin
        clean := fun hboth => by rw [hwriting.clean (Bool.and_eq_true_iff.mp hboth).1]
        flag := hwriting.flag }
    exact keeps_pure (h.still hstate rfl hnext)
  · rintro status _ d' ⟨⟨⟨⟨content', hpart⟩, hsame⟩, -⟩, hwithin⟩
    have hnext : Writing (since.after ⟨.write data, faults, some (.written false)⟩) s d'
        { download with clean := download.clean && faults.all (· = .ok) } paths content' :=
      { hwriting with
        began := by simp [Since.after, Since.downloadAfter, hwriting.began]
        part := hpart
        final := hfinal hwithin
        clean := fun hboth => by
          obtain ⟨hbefore, hnow⟩ := Bool.and_eq_true_iff.mp hboth
          have hd := hsame.resolve_right (hclean hnow)
          rw [hd, sinkOf, hwriting.part] at hpart
          cases hpart
          exact hwriting.clean hbefore }
    exact keeps_pure (h.still hstate rfl hnext)
  · exact fun d' hcut => ⟨trivial, hcut.1.2⟩

theorem keeps_finish (h : Consistent volume since s d) :
    keeps anyFault (fun _ => True) anyError s.finish (fun r _ d' => Consistent volume
      (since.after ⟨.finish, faults, some (.status r.1)⟩) r.2 d') () d := by
  unfold FatFsUpdateArchiveStorage.finish
  refine keeps_ite (fun _ => keeps_pure (h.refused nofun nofun nofun fun _ => rfl)) fun hstate => ?_
  have hstate := not_not.mp hstate
  obtain ⟨download, paths, content, hwriting⟩ := h.writing hstate
  have hsource : s.sourceOpen ≠ true := fun hopen => by
    have hreading := h.source hopen
    rw [hstate] at hreading
    cases hreading
  rw [hwriting.sink]
  refine keeps_bind (wp_attempt (wp_mono (keeps_anything (m := (sinkOf download.binding paths
    download.accepted).finish)) ?_ ?_ fun _ h => h))
  · exact fun _ _ d' _ => keeps_pure {
      volume := h.volume
      idle := nofun
      remembered := fun _ => h.remembered (by simp [hstate])
      source := fun hopen => absurd hopen hsource
      closed := fun _ => rfl
      flag := nofun
      writing := nofun
      unfinished := nofun }
  · refine fun status _ d' _ => keeps_pure ?_
    have hfailed : (since.failed || decide (mapStorageStatus status ≠ .ok)) = true := by
      rw [decide_eq_true (mapStorageStatus_ne_ok status), Bool.or_true]
    exact {
      volume := h.volume
      idle := nofun
      remembered := fun _ => h.remembered (by simp [hstate])
      source := fun hopen => absurd hopen hsource
      closed := fun _ => rfl
      flag := fun _ => ⟨rfl, hfailed⟩
      writing := nofun
      unfinished := fun _ => nofun }

/-- No directory appears where none is made. -/
theorem directory_of_within {files : Path → Prop} {d d' : Volume} {path : Path}
    (h : Within (touching files noPath) d d') (hdirectory : d'.nodeAt path = some .directory) :
    d.nodeAt path = some .directory := by
  rcases h path with hsame | ⟨-, happear, -⟩
  · rw [← hsame, hdirectory]
  · exact (happear hdirectory).elim

/-- Where an `Abort` that is not to remove the final file finds none. -/
theorem Consistent.withoutFinal (h : Consistent volume since s d)
    (hstate : s.state = .writing ∨ s.state = .cleanupPending)
    (hflag : s.failedFinishMayHaveFinal = false) {paths : FatFsUpdateArchivePaths}
    (hactive : s.activePaths = some paths) : d.nodeAt (nodePath paths.partPath) ≠ some .directory ∧
      d.nodeAt (nodePath paths.finalPath) = none := by
  rcases hstate with hstate | hstate
  · obtain ⟨download, paths', content, hwriting⟩ := h.writing hstate
    have heq : paths' = paths := Option.some.inj (hwriting.active.symm.trans hactive)
    rw [← heq]
    exact ⟨by simp [hwriting.part], hwriting.final⟩
  · exact h.unfinished hstate hflag paths hactive

theorem Consistent.sourceClosed (h : Consistent volume since s d) (hstate : s.state ≠ .reading) :
    s.sourceOpen ≠ true :=
  fun hopen => hstate (h.source hopen)

/-- An object that is idle again. -/
theorem Consistent.cleared (h : Consistent volume since s d) (hstate : s.state ≠ .reading)
    (since' : Since) (d' : Volume) : Consistent volume since'
      { s with
        download := none, activePaths := none, failedFinishMayHaveFinal := false, state := .idle }
      d' where
  volume := h.volume
  idle := fun _ => rfl
  remembered := fun hnot => absurd rfl hnot
  source := fun hopen => absurd hopen (h.sourceClosed hstate)
  closed := fun _ => rfl
  flag := nofun
  writing := nofun
  unfinished := nofun

/-- The flush that `Abort` makes of an open part touches the part only. -/
theorem respects_sinkAbort (h : Consistent volume since s d) {paths : FatFsUpdateArchivePaths}
    (hactive : s.activePaths = some paths) :
    Respects (fun _ _ : Unit => True) (Within (touching (partOf paths) noPath))
      (FatFsDownloadSink.abort s.download) := by
  by_cases hstate : s.state = .writing
  · obtain ⟨download, paths', content, hwriting⟩ := h.writing hstate
    have heq : paths' = paths := Option.some.inj (hwriting.active.symm.trans hactive)
    subst heq
    rw [hwriting.sink]
    exact @FatFsDownloadSink.respects_abort (sinkOf download.binding paths' download.accepted)
  · rw [h.closed hstate]
    exact .pure ()

/-- How a cleanup can end: with nothing left of what it was to remove, or for a reason. -/
structure CleanupEnds (allow : Fault → Prop) (paths : FatFsUpdateArchivePaths)
    (removeFinal : Bool) (progress : RecoveryProgress) (d : Volume) (cleanup : Cleanup)
    (d' : Volume) : Prop where
  touched : Within (touching (FatFsUpdateArchiveStorage.cleanedOf paths removeFinal) noPath) d d'
  done : cleanup = .done → d'.nodeAt (nodePath paths.partPath) = none ∧
    (removeFinal = true → d'.nodeAt (nodePath paths.finalPath) = none)
  stays : cleanup ≠ .done →
    FatFsUpdateArchiveStorage.MayStay allow d (nodePath paths.partPath) ∨
      removeFinal = true ∧ FatFsUpdateArchiveStorage.MayStay allow d (nodePath paths.finalPath) ∨
      progress.afterPart = false ∨ progress.afterFinal = false

/-- A cleanup after the sink was closed. -/
theorem keeps_closing {α : Type} {allow : Fault → Prop} {held : FatFsUpdateArchiveStorage}
    {paths : FatFsUpdateArchivePaths} {removeFinal : Bool} {progress : RecoveryProgress}
    {sink : Option FatFsDownloadSink} {k : Cleanup → StorageProc (α × FatFsUpdateArchiveStorage)}
    {Q : α × FatFsUpdateArchiveStorage → Unit → Volume → Prop} {E : Empty → Prop}
    (hfit : PathsFit binding paths) (hheld : held.activePaths = some paths)
    (hsink : Respects (fun _ _ : Unit => True) (Within (touching (partOf paths) noPath))
      (FatFsDownloadSink.abort sink))
    (hk : ∀ cleanup d', CleanupEnds allow paths removeFinal progress d cleanup d' →
      keeps allow (fun _ => True) E (k cleanup) Q () d') :
    keeps allow (fun _ => True) E (do
      FatFsDownloadSink.abort sink
      let cleanup ← held.cleanupRemembered removeFinal progress
      k cleanup) Q () d := by
  have hnothing : keeps allow (fun _ => True) E (FatFsDownloadSink.abort sink)
      (fun _ _ d₁ => Within (touching (partOf paths) noPath) d d₁) () d := by
    have hends : keeps allow (fun _ => True) E (FatFsDownloadSink.abort sink)
        (fun _ _ _ => True) () d := by
      cases sink with
      | none => exact keeps_pure trivial
      | some sink =>
          exact keeps_bind (wp_attempt (wp_mono keeps_fWrite_trivial
            (fun _ _ _ _ => keeps_pure trivial) (fun _ _ _ _ => keeps_pure trivial)
            fun _ h => h))
    exact wp_mono (hsink.preserves.wp_and hends) (fun _ _ _ h => h.2) (fun e => nomatch e)
      fun _ h => ⟨trivial, h.1.2⟩
  refine keeps_bind (keeps_done hnothing fun _ _ d₁ hflushed => ?_)
  have htouches := @FatFsUpdateArchiveStorage.respects_cleaned held paths removeFinal progress hheld
  have hcleanup := htouches.preserves.wp_and (@FatFsUpdateArchiveStorage.keeps_cleanup held paths
    removeFinal progress d₁ allow E hheld hfit.part hfit.final (part_ne_final hfit hfit))
  refine keeps_bind (wp_mono hcleanup ?_ (fun e => nomatch e) fun _ h => ⟨trivial, h.1.2⟩)
  rintro cleanup _ d' ⟨⟨hdone, hstays⟩, htouched⟩
  have hpart : Within (touching (FatFsUpdateArchiveStorage.cleanedOf paths removeFinal) noPath)
      d d₁ := hflushed.mono (fun p hp => Or.inl hp) (fun _ hp => hp) fun _ hp => hp
  have hstay : ∀ {path}, FatFsUpdateArchiveStorage.MayStay allow d₁ path →
      FatFsUpdateArchiveStorage.MayStay allow d path := fun hstay =>
    hstay.imp id (directory_of_within hflushed)
  exact hk cleanup d' ⟨FrameRel.trans hpart htouched, hdone, fun hnot =>
    (hstays hnot).imp hstay (Or.imp (And.imp id hstay) id)⟩

/-- The object after an `Abort`. -/
def aborted (s : FatFsUpdateArchiveStorage) : Cleanup → FatFsUpdateArchiveStorage
  | .done => { s with
      download := none, activePaths := none, failedFinishMayHaveFinal := false, state := .idle }
  | _ => { s with download := none, state := .cleanupPending }

theorem keeps_abort {allow : Fault → Prop} {E : Empty → Prop} {paths : FatFsUpdateArchivePaths}
    (h : Consistent volume since s d) (hstate : s.state = .writing ∨ s.state = .cleanupPending)
    (hactive : s.activePaths = some paths) (hfit : PathsFit binding paths) :
    keeps allow (fun _ => True) E s.abort (fun r _ d' => ∃ cleanup,
      CleanupEnds allow paths s.failedFinishMayHaveFinal .absent d cleanup d' ∧
        r.2 = aborted s cleanup) () d := by
  unfold FatFsUpdateArchiveStorage.abort
  refine keeps_ite (fun hneither => (hstate.elim hneither.1 hneither.2).elim) fun _ => ?_
  refine keeps_closing hfit hactive (respects_sinkAbort h hactive) fun cleanup d' hends => ?_
  refine keeps_ite (fun hdone => keeps_pure ⟨cleanup, hends, ?_⟩) fun hnot =>
    keeps_pure ⟨cleanup, hends, ?_⟩
  · rw [hdone]
    rfl
  · cases cleanup with
    | done => exact absurd rfl hnot
    | failed => rfl
    | progressFailed => rfl

/-- The object after a `Discard` that was not refused, and its answer. -/
def discarded (s : FatFsUpdateArchiveStorage) (paths : FatFsUpdateArchivePaths) :
    Cleanup → ArchiveStorageStatus × FatFsUpdateArchiveStorage
  | .done => (.ok, { s with
      download := none, activePaths := none, failedFinishMayHaveFinal := false, state := .idle })
  | .failed => (.failed, { s with
      download := none, activePaths := some paths, failedFinishMayHaveFinal := true
      state := .cleanupPending })
  | .progressFailed => (.recoveryProgressFailed, { s with
      download := none, activePaths := some paths, failedFinishMayHaveFinal := true
      state := .cleanupPending })

/-- A `Discard` removes both files of its binding, or it is refused and changes nothing. -/
theorem keeps_discard {allow : Fault → Prop} {E : Empty → Prop} {progress : RecoveryProgress}
    (h : Consistent volume since s d) :
    keeps allow (fun _ => True) E (s.discard binding progress) (fun r _ d' =>
      (r.1 ≠ .ok ∧ r.2 = s ∧ d' = d ∧ ¬(s.state ≠ .writing ∧ s.state ≠ .reading ∧
        (∃ paths, s.pathsFor binding = some paths ∧
          (s.activePaths = none ∨ s.activePaths = some paths)))) ∨
      (s.state ≠ .writing ∧ s.state ≠ .reading ∧ ∃ paths cleanup,
        s.pathsFor binding = some paths ∧
          (s.activePaths = none ∨ s.activePaths = some paths) ∧
          CleanupEnds allow paths true progress d cleanup d' ∧ r = discarded s paths cleanup))
      () d := by
  unfold FatFsUpdateArchiveStorage.discard FatFsUpdateArchiveStorage.pathsFor
  cases hvolume : s.volume with
  | none => exact keeps_pure (Or.inl ⟨by simp, rfl, rfl, by simp⟩)
  | some root =>
      refine keeps_ite (fun hbusy => keeps_pure (Or.inl ⟨by simp, rfl, rfl, ?_⟩)) fun hstate => ?_
      · exact fun hnot => hbusy.elim hnot.1 hnot.2.1
      rw [not_or] at hstate
      cases hbuild : buildFatFsUpdateArchivePaths root binding with
      | error status =>
          exact keeps_pure (Or.inl ⟨mapStorageStatus_ne_ok _, rfl, rfl, by simp [hbuild, Except.toOption]⟩)
      | ok paths =>
          have hpaths : (buildFatFsUpdateArchivePaths root binding).toOption = some paths := by
            rw [hbuild]
            rfl
          refine keeps_ite (fun hother => keeps_pure (Or.inl ⟨by simp, rfl, rfl, ?_⟩))
            fun hmatch => ?_
          · rintro ⟨-, -, paths', hpaths', hactive⟩
            rw [Option.bind_some, hpaths] at hpaths'
            cases hpaths'
            exact hactive.elim hother.1 hother.2
          have hactive : s.activePaths = none ∨ s.activePaths = some paths := by
            by_cases hnone : s.activePaths = none
            · exact Or.inl hnone
            · exact Or.inr (not_not.mp fun hnot => hmatch ⟨hnone, hnot⟩)
          have hsink : Respects (fun _ _ : Unit => True) (Within (touching (partOf paths) noPath))
              (FatFsDownloadSink.abort s.download) := by
            rw [h.closed hstate.1]
            exact .pure ()
          refine keeps_closing (pathsFit_of_build hbuild) rfl hsink fun cleanup d' hends => ?_
          have hend : (s.state ≠ .writing ∧ s.state ≠ .reading ∧ ∃ paths' cleanup',
              (some root).bind (fun volume => (buildFatFsUpdateArchivePaths volume binding).toOption) =
                some paths' ∧ (s.activePaths = none ∨ s.activePaths = some paths') ∧
                CleanupEnds allow paths' true progress d cleanup' d' ∧
                discarded s paths cleanup = discarded s paths' cleanup') :=
            ⟨hstate.1, hstate.2, paths, cleanup, hpaths, hactive, hends, rfl⟩
          cases cleanup with
          | done => exact keeps_pure (Or.inr hend)
          | failed => exact keeps_pure (Or.inr hend)
          | progressFailed => exact keeps_pure (Or.inr hend)

/-- The object while its archive is read. -/
def reading (s : FatFsUpdateArchiveStorage) (paths : FatFsUpdateArchivePaths) :
    FatFsUpdateArchiveStorage :=
  { s with activePaths := some paths, sourceOpen := true, state := .reading }

theorem keeps_openRead {allow : Fault → Prop} {E : Empty → Prop} :
    keeps allow (· = d) E (s.openRead binding) (fun r _ d' => d' = d ∧
      (r.1 ≠ .ok ∧ r.2 = s ∨ (s.state = .idle ∨ s.state = .completed) ∧ ∃ paths,
        s.pathsFor binding = some paths ∧ (s.state = .completed → s.activePaths = some paths) ∧
          r = (.ok, reading s paths))) () d := by
  unfold FatFsUpdateArchiveStorage.openRead FatFsUpdateArchiveStorage.pathsFor
  cases hvolume : s.volume with
  | none => exact keeps_pure ⟨rfl, Or.inl ⟨by simp, rfl⟩⟩
  | some root =>
      refine keeps_ite (fun _ => keeps_pure ⟨rfl, Or.inl ⟨by simp, rfl⟩⟩) fun hstate => ?_
      have hstate : s.state = .idle ∨ s.state = .completed := by
        cases hs : s.state <;> simp [hs] at hstate ⊢
      cases hbuild : buildFatFsUpdateArchivePaths root binding with
      | error status => exact keeps_pure ⟨rfl, Or.inl ⟨mapStorageStatus_ne_ok _, rfl⟩⟩
      | ok paths =>
          refine keeps_ite (fun _ => keeps_pure ⟨rfl, Or.inl ⟨by simp, rfl⟩⟩) fun hmatch => ?_
          have hactive : s.state = .completed → s.activePaths = some paths := fun hcompleted =>
            not_not.mp fun hnot => hmatch ⟨hcompleted, hnot⟩
          have hsource : keeps allow (· = d) anyError
              (FatFsUpdateArchiveStorage.openSource s.sourceOpen paths.finalPath) (fun _ _ d' => d' = d) () d := by
            refine keeps_bind (keeps_check (fun _ => ⟨rfl, trivial⟩) fun _ => ?_)
            refine keeps_bind (keeps_fatFsStatPath (pathsFit_of_build hbuild).final rfl ?_)
            refine keeps_bind (keeps_check (fun _ => ⟨rfl, trivial⟩) fun _ => ?_)
            refine keeps_bind (keeps_check (fun _ => ⟨rfl, trivial⟩) fun _ => ?_)
            exact keeps_orElse (E := noError) (keeps_barrier rfl rfl) nofun
          refine keeps_bind (wp_attempt (wp_mono hsource ?_ ?_ fun _ h => h))
          · exact fun _ _ d' hsame => keeps_pure ⟨hsame, Or.inr ⟨hstate, paths, by
              rw [Option.bind_some, hbuild]; rfl, hactive, rfl⟩⟩
          · exact fun status _ d' hsame => keeps_pure ⟨hsame.1, Or.inl
              ⟨mapStorageStatus_ne_ok _, rfl⟩⟩

theorem keeps_closeRead {allow : Fault → Prop} {E : Empty → Prop} :
    keeps allow (· = d) E s.closeRead (fun r _ d' => d' = d ∧
      (s.state ≠ .reading ∧ r.2 = s ∨
        s.state = .reading ∧ r.2 = { s with sourceOpen := false, state := .completed })) () d := by
  unfold FatFsUpdateArchiveStorage.closeRead
  refine keeps_ite (fun hbusy => keeps_pure ⟨rfl, Or.inl ⟨?_, rfl⟩⟩) fun _ => ?_
  · rcases hbusy with hbusy | hbusy <;> simp [hbusy]
  refine keeps_ite (fun hnot => keeps_pure ⟨rfl, Or.inl ⟨hnot, rfl⟩⟩) fun hreading => ?_
  have hreading := not_not.mp hreading
  have hclose : keeps allow (· = d) noError (Proc.when (s.sourceOpen = true) barrier)
      (fun _ _ d' => d' = d) () d :=
    keeps_when (fun _ => keeps_barrier rfl rfl) fun _ => rfl
  refine keeps_bind (wp_attempt (wp_mono hclose ?_ ?_ fun _ h => h))
  · exact fun _ _ d' hsame => keeps_pure ⟨hsame, Or.inr ⟨hreading, rfl⟩⟩
  · exact fun e _ d' hsame => keeps_pure ⟨hsame.1, Or.inr ⟨hreading, rfl⟩⟩

/-! ### Every call -/

theorem consistent_abort (h : Consistent volume since s d) :
    keeps anyFault (fun _ => True) anyError s.abort (fun r _ d' => Consistent volume
      (since.after ⟨.abort, faults, some .nothing⟩) r.2 d') () d := by
  have hgiven : ∀ b ∈ since.given, b ∈ (since.after ⟨.abort, faults, some .nothing⟩).given :=
    fun _ hb => hb
  by_cases hstate : s.state = .writing ∨ s.state = .cleanupPending
  · have hbusy : s.state ≠ .idle ∧ s.state ≠ .reading := by
      rcases hstate with hstate | hstate <;> simp [hstate]
    obtain ⟨b, hmem, paths, hpaths, hactive⟩ := h.remembered hbusy.1
    have hfit := FatFsUpdateArchiveStorage.pathsFit_of_pathsFor hpaths
    refine keeps_mono (keeps_abort h hstate hactive hfit) (fun _ h => h) (fun _ h => h) ?_
    rintro r _ d' ⟨cleanup, hends, hnext⟩
    rw [hnext]
    have hpending : Consistent volume (since.after ⟨.abort, faults, some .nothing⟩)
        { s with download := none, state := .cleanupPending } d' := {
      volume := h.volume
      idle := nofun
      remembered := fun _ => ⟨b, hmem, paths, hpaths, hactive⟩
      source := fun hopen => absurd hopen (h.sourceClosed hbusy.2)
      closed := fun _ => rfl
      flag := fun hflag => ⟨rfl, (h.flag hflag).2⟩
      writing := nofun
      unfinished := fun _ hflag paths' hactive' => by
        obtain ⟨hpart, hfinal⟩ := h.withoutFinal hstate hflag hactive'
        have heq : paths = paths' := Option.some.inj (hactive.symm.trans hactive')
        subst heq
        refine ⟨fun hdirectory => hpart (directory_of_within hends.touched hdirectory), ?_⟩
        have hsame : d'.nodeAt (nodePath paths.finalPath) = d.nodeAt (nodePath paths.finalPath) := by
          refine hends.touched.nodeAt_eq (fun hcleaned => ?_) id id
          rcases hcleaned with heq | ⟨hremove, -⟩
          · exact part_ne_final hfit hfit heq.symm
          · exact absurd (hremove.symm.trans hflag) nofun
        exact hsame.trans hfinal }
    cases cleanup with
    | done => exact h.cleared hbusy.2 _ d'
    | failed => exact hpending
    | progressFailed => exact hpending
  · unfold FatFsUpdateArchiveStorage.abort
    refine keeps_ite (fun _ => keeps_pure ?_) fun hnot => ?_
    · exact h.same hgiven id (fun _ => rfl) fun _ => rfl
    · rw [not_or] at hstate
      exact absurd hstate hnot

theorem consistent_discard {progress : RecoveryProgress} (h : Consistent volume since s d) :
    keeps anyFault (fun _ => True) anyError (s.discard binding progress) (fun r _ d' =>
      Consistent volume (since.after ⟨.discard binding progress, faults, some (.status r.1)⟩)
        r.2 d') () d := by
  refine keeps_mono (keeps_discard h) (fun _ h => h) (fun _ h => h) ?_
  rintro ⟨status, next⟩ _ d' (⟨hne, hnext, hdisk, -⟩ |
    ⟨-, hreading, paths, cleanup, hpaths, -, -, hr⟩)
  · subst hnext hdisk
    exact h.refused nofun (fun _ _ _ => hne) nofun fun _ => rfl
  · have hpending : ∀ status, status ≠ .ok → Consistent volume
        (since.after ⟨.discard binding progress, faults, some (.status status)⟩)
        { s with download := none, activePaths := some paths, failedFinishMayHaveFinal := true
                 state := .cleanupPending } d' := fun status hne => {
      volume := h.volume
      idle := nofun
      remembered := fun _ => ⟨binding, List.mem_cons_self, paths, hpaths, rfl⟩
      source := fun hopen => absurd hopen (h.sourceClosed hreading)
      closed := fun _ => rfl
      flag := fun _ => ⟨rfl, decide_eq_true hne⟩
      writing := nofun
      unfinished := fun _ => nofun }
    cases cleanup with
    | done =>
        cases hr
        exact h.cleared hreading _ d'
    | failed =>
        cases hr
        exact hpending _ (by simp)
    | progressFailed =>
        cases hr
        exact hpending _ (by simp)

theorem consistent_openRead (h : Consistent volume since s d) :
    keeps anyFault (· = d) anyError (s.openRead binding) (fun r _ d' => Consistent volume
      (since.after ⟨.openRead binding, faults, some (.status r.1)⟩) r.2 d') () d := by
  refine keeps_mono keeps_openRead (fun _ h => h) (fun _ h => h) ?_
  rintro ⟨status, next⟩ _ d' ⟨hdisk, ⟨-, hnext⟩ | ⟨hstate, paths, hpaths, -, hr⟩⟩
  · subst hnext hdisk
    exact h.refused nofun nofun nofun fun _ => rfl
  · cases hr
    have hflag : s.failedFinishMayHaveFinal ≠ true := fun hflag => by
      have hpending := (h.flag hflag).1
      rcases hstate with hstate | hstate <;> rw [hstate] at hpending <;> cases hpending
    exact {
      volume := h.volume
      idle := nofun
      remembered := fun _ => ⟨binding, List.mem_cons_self, paths, hpaths, rfl⟩
      source := fun _ => rfl
      closed := fun _ => h.closed (by rcases hstate with hstate | hstate <;> simp [hstate])
      flag := fun hset => absurd hset hflag
      writing := nofun
      unfinished := nofun }

theorem consistent_closeRead (h : Consistent volume since s d) :
    keeps anyFault (· = d) anyError s.closeRead (fun r _ d' => Consistent volume
      (since.after ⟨.closeRead, faults, some (.status r.1)⟩) r.2 d') () d := by
  refine keeps_mono keeps_closeRead (fun _ h => h) (fun _ h => h) ?_
  rintro ⟨status, next⟩ _ d' ⟨hdisk, ⟨-, hnext⟩ | ⟨hstate, hnext⟩⟩
  · subst hdisk
    dsimp only at hnext ⊢
    subst hnext
    exact h.refused nofun nofun nofun fun _ => rfl
  · dsimp only at hnext ⊢
    subst hnext
    exact {
      volume := h.volume
      idle := nofun
      remembered := fun _ => h.remembered (by simp [hstate])
      source := nofun
      closed := fun _ => h.closed (by simp [hstate])
      flag := fun hflag => absurd (hstate.symm.trans (h.flag hflag).1) nofun
      writing := nofun
      unfinished := nofun }

/-- What a call that returned has established. -/
theorem of_returned {α : Type} {allow : Fault → Prop} {I : Volume → Prop} {E : Empty → Prop}
    {m : StorageProc α} {Q : α → Unit → Volume → Prop} {r : α} {w : World Volume}
    (hm : keeps allow I E m Q () d) (hfaults : ∀ f ∈ faults, allow f)
    (hrun : m () ⟨d, faults⟩ = .done r () w) : Q r () w.disk := by
  have hmeets := hm faults hfaults
  rw [hrun] at hmeets
  exact hmeets.1

/-- A call is the method with its answer wrapped. -/
theorem of_call {α : Type} {m : StorageProc (α × FatFsUpdateArchiveStorage)} {f : α → Answer}
    {w w' : World Volume} {answer : Answer} {next : FatFsUpdateArchiveStorage}
    (hrun : (m >>= fun r => pure (f r.1, r.2)) () w = .done (answer, next) () w') :
    ∃ r, m () w = .done (r, next) () w' ∧ answer = f r := by
  change Proc.bind m (fun r => Proc.pure (f r.1, r.2)) () w = _ at hrun
  unfold Proc.bind at hrun
  cases hout : m () w with
  | done r u w₁ =>
      rw [hout] at hrun
      cases hrun
      exact ⟨r.1, rfl, rfl⟩
  | error e u w₁ =>
      rw [hout] at hrun
      cases hrun
  | cut d' =>
      rw [hout] at hrun
      cases hrun

theorem consistent_step {call : Call} {answer : Answer} {next : FatFsUpdateArchiveStorage}
    {w : World Volume} (h : Consistent volume since s d)
    (hrun : call.run s () ⟨d, faults⟩ = .done (answer, next) () w) :
    Consistent volume (since.after ⟨call, faults, some answer⟩) next w.disk := by
  have hany : ∀ f ∈ faults, anyFault f := fun _ _ => trivial
  cases call with
  | begin binding =>
      obtain ⟨r, hmethod, rfl⟩ := of_call hrun
      exact of_returned (keeps_begin h) hany hmethod
  | write data =>
      obtain ⟨r, hmethod, rfl⟩ := of_call hrun
      by_cases hok : faults.all (· = .ok) = true
      · have hclean : ∀ f ∈ faults, noFault f := by
          intro f hf
          have hf := List.all_eq_true.mp hok f hf
          obtain rfl : f = .ok := by simpa using hf
          trivial
        exact of_returned (keeps_write h fun _ => not_or.mpr
          ⟨not_mayFail_noFault, not_mayCut_noFault⟩) hclean hmethod
      · exact of_returned (keeps_write h fun hall => absurd hall hok) hany hmethod
  | finish =>
      obtain ⟨r, hmethod, rfl⟩ := of_call hrun
      exact of_returned (keeps_finish h) hany hmethod
  | abort =>
      obtain ⟨r, hmethod, rfl⟩ := of_call (f := fun _ => Answer.nothing) hrun
      exact of_returned (consistent_abort h) hany hmethod
  | openRead binding =>
      obtain ⟨r, hmethod, rfl⟩ := of_call hrun
      exact of_returned (consistent_openRead h) hany hmethod
  | closeRead =>
      obtain ⟨r, hmethod, rfl⟩ := of_call hrun
      exact of_returned (consistent_closeRead h) hany hmethod
  | discard binding progress =>
      obtain ⟨r, hmethod, rfl⟩ := of_call hrun
      exact of_returned (consistent_discard h) hany hmethod

end Steps

/-- Every run keeps it. -/
theorem consistent_of_run {volume : Bytes} {start d : Volume} {history : List Entry}
    {s : FatFsUpdateArchiveStorage} (h : Run volume start history s d) :
    Consistent volume (sinceOf history) s d := by
  induction h with
  | start => exact consistent_new volume start
  | returned _ hrun ih =>
      rw [sinceOf_concat]
      exact consistent_step ih hrun
  | @cut history s d call faults d' _ _ ih =>
      rw [sinceOf_concat]
      exact consistent_new volume d'

end Archive

end BmxUpdate
