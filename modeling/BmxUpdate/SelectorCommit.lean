import BmxUpdate.SelectorBackend
import BmxUpdate.Installer.Run

/-!
# Interrupted commits of the candidate selector

`CommitCandidate` publishes the stable kernel in the active selector, then in the
candidate selector, and last deletes the temporary kernel the candidate selector
named when the call began.  A commit that is cut between the last two leaves a
candidate selector that no longer names the temporary kernel, and no later
commit deletes it.

Between the arming and the last commit the candidate selector holds what arming
wrote, or a piece of what the commits write (`CommitTrace`).  From there the
outcome of a commit that succeeds is computed node by node.
-/

namespace BmxUpdate

open Crash Volumes Wire

/-! ## Publishing a selector -/

/-- The volume after a selector was published. -/
def Published (path : Path) (kernel : Bytes) (d d' : Volume) : Prop :=
  ∀ q, d'.nodeAt q = if q = addSuffix path ".next" then none
    else if q = path then some (.file (selectorContent kernel)) else d.nodeAt q

/-- A volume on which a selector may be half published: its temporary file is
gone or holds a first part of it. -/
def Publishing (path : Path) (kernel : Bytes) (d d' : Volume) : Prop :=
  ∀ q, d'.nodeAt q = d.nodeAt q ∨
    (q = addSuffix path ".next" ∧ (d'.nodeAt q = none ∨
      ∃ n, d'.nodeAt q = some (.file ((selectorContent kernel).take n)))) ∨
    (q = path ∧ d'.nodeAt q = some (.file (selectorContent kernel)))

theorem Published.publishing {path : Path} {kernel : Bytes} {d d' : Volume}
    (h : Published path kernel d d') : Publishing path kernel d d' := by
  intro q
  rw [h q]
  split_ifs with htemporary hpath
  · exact Or.inr (Or.inl ⟨htemporary, Or.inl rfl⟩)
  · exact Or.inr (Or.inr ⟨hpath, rfl⟩)
  · exact Or.inl rfl

/-- The temporary file with a given content, everything else as before. -/
private theorem publishing_of_temporary {path : Path} {kernel : Bytes} {d d' : Volume}
    {node : Option Node} (hnode : node = none ∨
      ∃ n, node = some (.file ((selectorContent kernel).take n)))
    (hget : ∀ q, d'.nodeAt q = if q = addSuffix path ".next" then node else d.nodeAt q) :
    Publishing path kernel d d' := by
  intro q
  rw [hget q]
  split_ifs with htemporary
  · exact Or.inr (Or.inl ⟨htemporary, hnode⟩)
  · exact Or.inl rfl

theorem keeps_publishSelectorFile {allow : Fault → Prop} {path : Path} {kernel : Bytes}
    {s : Unit} {d d₀ : Volume}
    (hd : Updates d₀ (addSuffix path ".next") (some (.file [])) d) :
    keeps allow (Publishing path kernel d₀) anyError
      (publishSelectorFile (addSuffix path ".next") path (selectorContent kernel))
      (fun _ _ d' => Published path kernel d₀ d') s d := by
  have hI : Publishing path kernel d₀ d := publishing_of_temporary (Or.inr ⟨0, by simp⟩) hd
  refine keeps_bind (keeps_write hI (fun _ => trivial) ?_ fun d₁ hd₁ => ?_)
  · intro n d' hd'
    refine publishing_of_temporary (Or.inr ⟨n, rfl⟩) fun q => ?_
    rw [hd' q]
    split_ifs with hq
    · rfl
    · rw [hd q, if_neg hq]
  have hget : Updates d₀ (addSuffix path ".next") (some (.file (selectorContent kernel))) d₁ := by
    intro q
    rw [hd₁ q]
    split_ifs with hq
    · rfl
    · rw [hd q, if_neg hq]
  have hI₁ : Publishing path kernel d₀ d₁ :=
    publishing_of_temporary (Or.inr ⟨(selectorContent kernel).length, by simp⟩) hget
  refine keeps_bind (keeps_barrier hI₁ (keeps_bind (keeps_barrier hI₁ (keeps_bind
    (keeps_rename hI₁ (fun _ => trivial) ?_)))))
  rintro content d₂ hcontent - hd₂
  obtain rfl : content = selectorContent kernel := by
    rw [Volume.fileAt_eq_some_iff, hget, if_pos rfl] at hcontent
    simpa using hcontent.symm
  have hpublished : Published path kernel d₀ d₂ := by
    intro q
    rw [hd₂ q]
    split_ifs with htemporary _
    · rfl
    · rfl
    · rw [hget q, if_neg htemporary]
  exact ⟨hpublished.publishing, keeps_syncContainingDirectory hpublished.publishing hpublished⟩

/-- `PublishSelector` replaces the selector as a whole. -/
theorem keeps_publishSelector (allow : Fault → Prop) (path : Path) (kernel : Bytes) (s : Unit)
    (d : Volume) :
    keeps allow (Publishing path kernel d) anyError (publishSelector path kernel)
      (fun _ _ d' => Published path kernel d d') s d := by
  have hrefl : Publishing path kernel d d := fun q => Or.inl rfl
  refine keeps_bind (keeps_check (fun _ => ⟨hrefl, trivial⟩) fun _ =>
    keeps_bind (keeps_check (fun _ => ⟨hrefl, trivial⟩) fun _ => ?_))
  refine keeps_bind (keeps_removeFile hrefl (fun _ => trivial) fun d₁ hd₁ => ?_)
  have hI₁ : Publishing path kernel d d₁ := publishing_of_temporary (Or.inl rfl) hd₁
  refine ⟨hI₁, keeps_bind (keeps_createFileFresh hI₁ (fun _ => trivial) fun d₂ _ hd₂ => ?_)⟩
  have hget : Updates d (addSuffix path ".next") (some (.file [])) d₂ := by
    intro q
    rw [hd₂ q]
    split_ifs with hq
    · rfl
    · rw [hd₁ q, if_neg hq]
  refine ⟨publishing_of_temporary (Or.inr ⟨0, by simp⟩) hget,
    keeps_withCleanup (keeps_publishSelectorFile hget) fun s' d' hd' => ?_⟩
  refine keeps_removeFile hd' (fun _ => trivial) fun d'' hd'' => ?_
  have hremoved : Publishing path kernel d d'' := by
    intro q
    rw [hd'' q]
    split_ifs with hq
    · exact Or.inr (Or.inl ⟨hq, Or.inl rfl⟩)
    · exact hd' q
  exact ⟨hremoved, hremoved⟩

/-! ## Reading a selector -/

/-- The selector at a path, if it is one that is accepted. -/
def selectorAt (d : Volume) (path : Path) (board : BoardFamily) :
    Option ParsedKernelSelector :=
  (d.fileAt path).bind fun content => (parseKernelSelector content board).toOption

theorem selectorAt_eq_some {d : Volume} {path : Path} {board : BoardFamily}
    {selector : ParsedKernelSelector} (h : selectorAt d path board = some selector) :
    d.fileAt path = some (selectorContent selector.kernelPath) ∧ selector.Names board ∧
      parseKernelSelector (selectorContent selector.kernelPath) board = .ok selector := by
  obtain ⟨content, hcontent, hparse⟩ := Option.bind_eq_some_iff.mp h
  cases hresult : parseKernelSelector content board with
  | error status =>
      rw [hresult] at hparse
      cases hparse
  | ok parsed =>
      rw [hresult] at hparse
      cases hparse
      obtain ⟨rfl, hnames⟩ := parseKernelSelector_eq_ok hresult
      exact ⟨hcontent, hnames, hresult⟩

theorem keeps_readSmallFile (allow : Fault → Prop) (path : Path) (s : Unit) (d : Volume) :
    keeps allow (fun d' => d' = d) anyError (readSmallFile path)
      (fun content _ d' => d' = d ∧ d.fileAt path = some content) s d := by
  unfold readSmallFile
  refine keeps_bind (keeps_stat rfl (keeps_bind (keeps_check (fun _ => ⟨rfl, trivial⟩) fun _ =>
    keeps_readFile rfl (fun _ => trivial) fun content hcontent => ⟨rfl, hcontent⟩)))

theorem keeps_readAndValidate (allow : Fault → Prop) (path : Path) (context : CandidateContext)
    (expectedSequence : UInt64) (s : Unit) (d : Volume) :
    keeps allow (fun d' => d' = d) anyError (readAndValidate path context expectedSequence)
      (fun selector _ d' => d' = d ∧ selectorAt d path context.board = some selector) s d := by
  unfold readAndValidate
  refine keeps_bind (keeps_check (fun _ => ⟨rfl, trivial⟩) fun _ => keeps_bind
    (keeps_done (keeps_readSmallFile allow path s d) ?_))
  rintro bytes s' _ ⟨rfl, hbytes⟩
  cases hparse : parseKernelSelector bytes context.board with
  | error status => exact keeps_throw rfl trivial
  | ok selector =>
      refine keeps_bind (keeps_check (fun _ => ⟨rfl, trivial⟩) fun _ => keeps_pure ⟨rfl, ?_⟩)
      simp [selectorAt, hbytes, hparse, Except.toOption]

/-- The stable kernel of the machine a selector names. -/
def ParsedKernelSelector.stable (selector : ParsedKernelSelector) : ParsedKernelSelector :=
  ⟨selector.manifestKernelPath, selector.manifestKernelPath, selector.machine, false⟩

theorem parseKernelSelector_of_names {selector : ParsedKernelSelector} {board : BoardFamily}
    (h : selector.Names board) :
    parseKernelSelector (selectorContent selector.manifestKernelPath) board =
      .ok selector.stable := by
  obtain ⟨base, hbase, hkernel⟩ := h.base
  simp only [ParsedKernelSelector.stable, hkernel]
  exact parseKernelSelector_stable hbase h.machine

/-- Two selectors that name the same stable kernel are the same. -/
theorem ParsedKernelSelector.Names.eq_stable {left right : ParsedKernelSelector}
    {board : BoardFamily} (hleft : left.Names board) (hright : right.Names board)
    (hstable : left.candidate = false) (h : left.kernelPath = right.manifestKernelPath) :
    left = right.stable := by
  obtain ⟨base, hbase, hkernel⟩ := hleft.base
  obtain ⟨base', hbase', hkernel'⟩ := hright.base
  obtain rfl : base = base' := by
    rw [hbase] at hbase'
    exact Option.some.inj hbase'
  have hsame : left.kernelPath = left.manifestKernelPath := by
    simpa [hstable] using hleft.kernelPath
  have hmachine : left.machine = right.machine := by
    rw [hsame, hkernel, hkernel'] at h
    simpa [stableKernel] using h
  cases left
  simp_all [ParsedKernelSelector.stable]

/-- A whole selector that begins another one is that one. -/
theorem selectorContent_eq_of_isPrefix {kernel kernel' : Bytes}
    (h : selectorContent kernel <+: selectorContent kernel') (hnewline : newline ∉ kernel') :
    kernel = kernel' := by
  have hline : kernel ++ [newline] <+: kernel' ++ [newline] := by
    simpa [selectorContent, List.prefix_append_right_inj] using h
  rcases List.prefix_concat_iff.mp hline with h | h
  · exact List.append_cancel_right h
  · exact absurd (h.subset (by simp)) hnewline

/-! ## One commit -/

namespace SelectorCandidateBackend

variable {backend : SelectorCandidateBackend} {context : CandidateContext}
  {armed : ParsedKernelSelector}

/-- What the candidate selector can hold between the arming and the last commit:
what arming wrote, or a first part of what the commits write. -/
def CommitTrace (backend : SelectorCandidateBackend) (armed : ParsedKernelSelector)
    (d : Volume) : Prop :=
  ∀ content, d.fileAt backend.candidateSelector = some content →
    content = selectorContent armed.kernelPath ∨
      content <+: selectorContent armed.manifestKernelPath

/-- A selector that is accepted there is the armed one or its stable kernel's. -/
theorem CommitTrace.selectorAt {d : Volume} (h : backend.CommitTrace armed d)
    {board : BoardFamily} (harmed : armed.Names board)
    (hparse : parseKernelSelector (selectorContent armed.kernelPath) board = .ok armed)
    {selector : ParsedKernelSelector}
    (hselector : selectorAt d backend.candidateSelector board = some selector) :
    selector = armed ∨ selector = armed.stable := by
  obtain ⟨hcontent, hnames, hselector⟩ := selectorAt_eq_some hselector
  rcases h _ hcontent with hsame | hpre
  · rw [hsame, hparse] at hselector
    exact Or.inl (Except.ok.inj hselector).symm
  · obtain ⟨base, hbase, hkernel⟩ := harmed.base
    have hnewline : newline ∉ armed.manifestKernelPath := by
      rw [hkernel]
      exact newline_not_mem_stableKernel hbase harmed.machine
    rw [selectorContent_eq_of_isPrefix hpre hnewline,
      parseKernelSelector_of_names harmed] at hselector
    exact Or.inr (Except.ok.inj hselector).symm

theorem CommitTrace.publishing {d d' : Volume} {path : Path}
    (h : backend.CommitTrace armed d)
    (hd' : Publishing path armed.manifestKernelPath d d') : backend.CommitTrace armed d' := by
  intro content hcontent
  rw [Volume.fileAt_eq_some_iff] at hcontent
  rcases hd' backend.candidateSelector with hsame | ⟨-, hnone | ⟨n, htorn⟩⟩ | ⟨-, hwhole⟩
  · exact h content (by rw [Volume.fileAt_eq_some_iff, ← hsame, hcontent])
  · rw [hnone] at hcontent
    cases hcontent
  · rw [htorn] at hcontent
    cases hcontent
    exact Or.inr <| List.take_prefix _ _
  · rw [hwhole] at hcontent
    cases hcontent
    exact Or.inr (List.prefix_refl _)

theorem CommitTrace.removed {d d' : Volume} {path : Path} (h : backend.CommitTrace armed d)
    (hd' : Updates d path none d') : backend.CommitTrace armed d' := by
  intro content hcontent
  rw [Volume.fileAt_eq_some_iff, hd'] at hcontent
  split_ifs at hcontent
  exact h content (Volume.fileAt_eq_some_iff.mpr hcontent)

/-- What a commit that succeeds did: it found `selector` in the candidate
selector, published its stable kernel twice, removed the kernel it named if that
was a temporary one, and read the active selector back. -/
structure Commits (backend : SelectorCandidateBackend) (board : BoardFamily)
    (selector : ParsedKernelSelector) (d d' : Volume) : Prop where
  found : selectorAt d backend.candidateSelector board = some selector
  published : ∃ d₁ d₂, Published backend.activeSelector selector.manifestKernelPath d d₁ ∧
    Published backend.candidateSelector selector.manifestKernelPath d₁ d₂ ∧
    ∀ q, d'.nodeAt q = if selector.candidate = true ∧ q = kernelPath selector.kernelPath then none
      else d₂.nodeAt q
  active : ∃ committed, selectorAt d' backend.activeSelector board = some committed ∧
    committed.candidate = false ∧ committed.kernelPath = selector.manifestKernelPath

theorem keeps_removeCandidateKernel (allow : Fault → Prop) (selector : ParsedKernelSelector)
    (s : Unit) {d : Volume} (htrace : backend.CommitTrace armed d) :
    keeps allow (backend.CommitTrace armed) anyError (removeCandidateKernel selector)
      (fun _ _ d' => backend.CommitTrace armed d' ∧ ∀ q, d'.nodeAt q =
        if selector.candidate = true ∧ q = kernelPath selector.kernelPath then none
        else d.nodeAt q) s d := by
  unfold removeCandidateKernel
  refine keeps_when (fun hcandidate => ?_) fun hstable => ⟨htrace, by simp [hstable]⟩
  refine keeps_bind (keeps_removeFile htrace (fun _ => trivial) fun d' hd' => ?_)
  have htrace' := htrace.removed hd'
  refine ⟨htrace', keeps_syncContainingDirectory htrace' ⟨htrace', fun q => ?_⟩⟩
  simpa [hcandidate] using hd' q

/-- The commit of a selector that the trace allows keeps the trace. -/
theorem keeps_commitCandidate (allow : Fault → Prop) {s : Unit} {d : Volume}
    (harmed : armed.Names context.board)
    (hparse : parseKernelSelector (selectorContent armed.kernelPath) context.board = .ok armed)
    (htrace : backend.CommitTrace armed d) :
    keeps allow (backend.CommitTrace armed) anyError (backend.commitCandidate context)
      (fun _ _ d' => backend.CommitTrace armed d' ∧
        ∃ selector, backend.Commits context.board selector d d') s d := by
  refine keeps_bind (keeps_check (fun _ => ⟨htrace, trivial⟩) fun _ => keeps_bind ?_)
  refine keeps_mono (keeps_readAndValidate allow backend.candidateSelector context
    context.targetReleaseSequence s d) (fun _ h => h ▸ htrace) (fun _ h => h) ?_
  rintro selector s d ⟨rfl, hfound⟩
  have hkernel : selector.manifestKernelPath = armed.manifestKernelPath := by
    rcases htrace.selectorAt harmed hparse hfound with rfl | rfl
    · rfl
    · rfl
  refine keeps_bind (keeps_mono (keeps_publishSelector allow backend.activeSelector
    selector.manifestKernelPath s d) (fun d' h => htrace.publishing (hkernel ▸ h))
    (fun _ h => h) ?_)
  intro _ s d₁ hd₁
  have htrace₁ : backend.CommitTrace armed d₁ := htrace.publishing (hkernel ▸ hd₁.publishing)
  refine keeps_bind (keeps_mono (keeps_publishSelector allow backend.candidateSelector
    selector.manifestKernelPath s d₁) (fun d' h => htrace₁.publishing (hkernel ▸ h))
    (fun _ h => h) ?_)
  intro _ s d₂ hd₂
  have htrace₂ : backend.CommitTrace armed d₂ := htrace₁.publishing (hkernel ▸ hd₂.publishing)
  refine keeps_bind (keeps_done (keeps_removeCandidateKernel allow selector s htrace₂) ?_)
  rintro _ s d₃ ⟨htrace₃, hd₃⟩
  refine keeps_bind (keeps_mono (keeps_readAndValidate allow backend.activeSelector context
    context.targetReleaseSequence s d₃) (fun _ h => h ▸ htrace₃) (fun _ h => h) ?_)
  rintro committed s _ ⟨rfl, hcommitted⟩
  exact keeps_check (fun _ => ⟨htrace₃, trivial⟩) fun hstable =>
    ⟨htrace₃, selector, hfound, ⟨d₁, d₂, hd₁, hd₂, hd₃⟩, committed, hcommitted, hstable⟩

/-! ## Repeated commits -/

/-- The second volume is reached from the first by commits, each of which may
fail or be cut anywhere. -/
inductive CommitRuns (backend : SelectorCandidateBackend) (context : CandidateContext)
    (d : Volume) : Volume → Prop
  | refl : CommitRuns backend context d d
  | step {d' : Volume} (faults : List Fault) (h : CommitRuns backend context d d') :
      CommitRuns backend context d (backend.commitCandidate context () ⟨d', faults⟩).disk

theorem CommitTrace.commitRuns {d d' : Volume} (harmed : armed.Names context.board)
    (hparse : parseKernelSelector (selectorContent armed.kernelPath) context.board = .ok armed)
    (htrace : backend.CommitTrace armed d) (h : backend.CommitRuns context d d') :
    backend.CommitTrace armed d' := by
  induction h with
  | refl => exact htrace
  | step faults _ ih =>
      exact keeps_disk (keeps_done (keeps_commitCandidate anyFault harmed hparse ih)
        fun _ _ _ h => h.1) fun _ _ => trivial

/-- `ArmCandidate` succeeded on `d` and left `d'`, where the candidate selector
names the temporary kernel of `armed`. -/
structure Arms (backend : SelectorCandidateBackend) (context : CandidateContext)
    (armed : ParsedKernelSelector) (d d' : Volume) : Prop where
  run : ∃ faults, (backend.armCandidate context () ⟨d, faults⟩).result = some () ∧
    (backend.armCandidate context () ⟨d, faults⟩).disk = d'
  selector : selectorAt d' backend.candidateSelector context.board = some armed
  temporary : armed.candidate = true

/-- Both selectors name the stable kernel of the armed machine, and the
temporary kernel is gone. -/
structure Committed (backend : SelectorCandidateBackend) (board : BoardFamily)
    (armed : ParsedKernelSelector) (d : Volume) : Prop where
  active : selectorAt d backend.activeSelector board = some armed.stable
  candidate : selectorAt d backend.candidateSelector board = some armed.stable
  temporary : d.nodeAt (kernelPath armed.kernelPath) = none

/-- The temporary kernel is not the temporary file of a selector. -/
theorem kernelPath_ne_addSuffix {kernel : Bytes} {path : Path} :
    kernelPath (kernel ++ candidateSuffix) ≠ addSuffix path ".next" := by
  intro h
  cases path using List.reverseRecOn with
  | nil => simp [kernelPath, addSuffix] at h
  | append_singleton front last =>
      rw [addSuffix_concat] at h
      have hname := congrArg (fun p : Path => (p.getLast?.getD "").toList.reverse.take 5) h
      simp [kernelPath, candidateSuffix, bytesOf] at hname

namespace Commits

variable {board : BoardFamily} {selector : ParsedKernelSelector} {d d' : Volume}

theorem active_eq (h : backend.Commits board selector d d') :
    selectorAt d' backend.activeSelector board = some selector.stable := by
  obtain ⟨committed, hcommitted, hstable, hkernel⟩ := h.active
  obtain ⟨-, hnames, -⟩ := selectorAt_eq_some hcommitted
  obtain ⟨-, hselector, -⟩ := selectorAt_eq_some h.found
  rw [hcommitted, hnames.eq_stable hselector hstable hkernel]

theorem candidate_eq (h : backend.Commits board selector d d')
    (hkept : ¬(selector.candidate = true ∧
      backend.candidateSelector = kernelPath selector.kernelPath)) :
    selectorAt d' backend.candidateSelector board = some selector.stable := by
  obtain ⟨hfile, hnames, -⟩ := selectorAt_eq_some h.found
  have hne : backend.candidateSelector ≠ [] := by
    intro hnil
    rw [Volume.fileAt_eq_some_iff, hnil] at hfile
    cases hfile
  obtain ⟨d₁, d₂, -, hd₂, hd'⟩ := h.published
  have hcontent : d'.fileAt backend.candidateSelector =
      some (selectorContent selector.manifestKernelPath) := by
    rw [Volume.fileAt_eq_some_iff, hd', if_neg hkept, hd₂,
      if_neg (addSuffix_ne hne (by decide)).symm, if_pos rfl]
  simp [BmxUpdate.selectorAt, hcontent, parseKernelSelector_of_names hnames, Except.toOption]

/-- A temporary kernel the candidate selector names is removed. -/
theorem temporary_eq_none (h : backend.Commits board selector d d')
    (hcandidate : selector.candidate = true) :
    d'.nodeAt (kernelPath selector.kernelPath) = none := by
  obtain ⟨d₁, d₂, -, -, hd'⟩ := h.published
  rw [hd', if_pos ⟨hcandidate, rfl⟩]

/-- A temporary kernel the candidate selector no longer names is not. -/
theorem temporary_eq_none_iff (h : backend.Commits board selector d d')
    (hstable : selector.candidate = false) (kernel : Bytes) :
    d'.nodeAt (kernelPath (kernel ++ candidateSuffix)) = none ↔
      backend.candidateSelector ≠ kernelPath (kernel ++ candidateSuffix) ∧
      backend.activeSelector ≠ kernelPath (kernel ++ candidateSuffix) ∧
      d.nodeAt (kernelPath (kernel ++ candidateSuffix)) = none := by
  obtain ⟨d₁, d₂, hd₁, hd₂, hd'⟩ := h.published
  rw [hd', if_neg (by simp [hstable]), hd₂, if_neg kernelPath_ne_addSuffix, hd₁,
    if_neg kernelPath_ne_addSuffix]
  simp only [ne_comm (b := kernelPath (kernel ++ candidateSuffix)), Ne, ite_eq_iff]
  simp

end Commits

/-- A commit that returns after an arming and any number of commits that failed
or were cut reaches the committed state exactly when the candidate selector still
named the temporary kernel before it, or that kernel was already gone. -/
theorem committed_iff {d d₁ d₂ : Volume} {faults : List Fault}
    (harms : backend.Arms context armed d d₁) (hruns : backend.CommitRuns context d₁ d₂)
    (hcommit : (backend.commitCandidate context () ⟨d₂, faults⟩).result = some ()) :
    backend.Committed context.board armed
        (backend.commitCandidate context () ⟨d₂, faults⟩).disk ↔
      backend.candidateSelector ≠ kernelPath armed.kernelPath ∧
      (selectorAt d₂ backend.candidateSelector context.board = some armed ∨
        backend.activeSelector ≠ kernelPath armed.kernelPath ∧
        d₂.nodeAt (kernelPath armed.kernelPath) = none) := by
  obtain ⟨hcontent, hnames, hparse⟩ := selectorAt_eq_some harms.selector
  have htrace : backend.CommitTrace armed d₁ := by
    intro content h
    rw [hcontent] at h
    exact Or.inl (Option.some.inj h).symm
  have htrace₂ := htrace.commitRuns hnames hparse hruns
  obtain ⟨-, selector, hcommits⟩ := wp_result
    (keeps_commitCandidate anyFault hnames hparse htrace₂) (fun _ _ => trivial) hcommit
  rcases htrace₂.selectorAt hnames hparse hcommits.found with rfl | rfl
  · -- The candidate selector was not rewritten yet.
    refine ⟨fun h => ⟨fun hsame => ?_, Or.inl hcommits.found⟩, fun h => ?_⟩
    · obtain ⟨hfile, -, -⟩ := selectorAt_eq_some h.candidate
      rw [Volume.fileAt_eq_some_iff, hsame, h.temporary] at hfile
      cases hfile
    · exact ⟨hcommits.active_eq, hcommits.candidate_eq fun hsame => h.1 hsame.2,
        hcommits.temporary_eq_none harms.temporary⟩
  · -- It was: only the stable kernel is named now.
    have hkernel : armed.kernelPath = armed.manifestKernelPath ++ candidateSuffix := by
      simpa [harms.temporary] using hnames.kernelPath
    have hfound : selectorAt d₂ backend.candidateSelector context.board ≠ some armed := by
      rw [hcommits.found]
      intro hsame
      have hcandidate := congrArg ParsedKernelSelector.candidate (Option.some.inj hsame)
      rw [harms.temporary] at hcandidate
      cases hcandidate
    have htemporary := hcommits.temporary_eq_none_iff rfl armed.manifestKernelPath
    rw [← hkernel] at htemporary
    refine ⟨fun h => ?_, fun h => ?_⟩
    · obtain ⟨hcandidate, hactive⟩ := htemporary.mp h.temporary
      exact ⟨hcandidate, Or.inr hactive⟩
    · refine ⟨hcommits.active_eq, hcommits.candidate_eq fun h => Bool.false_ne_true h.1,
        htemporary.mpr ⟨h.1, h.2.resolve_left hfound⟩⟩

end SelectorCandidateBackend

/-! ## One machine -/

/-- The selector backend of a machine with both selectors in the root. -/
def rootSelectors : SelectorCandidateBackend where
  sha256 := sha256
  durability := some ⟨true, true, true, true, true⟩
  platform := ⟨true, true, true⟩
  activeSelector := ["bmx-active-kernel.txt"]
  candidateSelector := ["bmx-tryboot-kernel.txt"]

/-- The arming of a release that replaces the kernel of the C64. -/
def kernelContext : CandidateContext where
  transactionRoot := [".bmx-update", "transaction"]
  stagingRoot := [".bmx-update", "transaction", "stage"]
  asset := (smallRequest [⟨["kernel_2712.img.c64"], .kernel, [9]⟩] []).manifest.asset
  board := .pi5Pi500
  sourceReleaseSequence := 1
  targetReleaseSequence := 2
  oldBootGeneration := 3
  newBootGeneration := 4
  transactionId := .ofBytes 16 [1]

/-- The volume before the arming, with the new kernel staged. -/
def kernelVolume : Volume :=
  volumeOf [(["kernel_2712.img.c64"], [1]),
    (["bmx-active-kernel.txt"], selectorContent (bytesOf "kernel_2712.img.c64")),
    (["bmx-tryboot-kernel.txt"], selectorContent (bytesOf "kernel_2712.img.c64")),
    ([".bmx-update", "transaction", "stage", "kernel_2712.img.c64"], [9])] []

/-- The selector of the temporary kernel. -/
def kernelCandidate : ParsedKernelSelector where
  kernelPath := bytesOf "kernel_2712.img.c64.bmx-next"
  manifestKernelPath := bytesOf "kernel_2712.img.c64"
  machine := bytesOf "c64"
  candidate := true

/-- The volume after the arming. -/
def armedVolume : Volume := (rootSelectors.armCandidate kernelContext () ⟨kernelVolume, []⟩).disk

theorem rootSelectors_arms :
    rootSelectors.Arms kernelContext kernelCandidate kernelVolume armedVolume where
  run := ⟨[], by decide, rfl⟩
  selector := by decide
  temporary := rfl

/-- A single commit reaches the committed state. -/
theorem committed_single :
    rootSelectors.Committed .pi5Pi500 kernelCandidate
      (rootSelectors.commitCandidate kernelContext () ⟨armedVolume, []⟩).disk :=
  (SelectorCandidateBackend.committed_iff rootSelectors_arms .refl (by decide +kernel)).mpr
    ⟨by decide, Or.inl rootSelectors_arms.selector⟩

/-- A commit that is cut before it deletes the temporary kernel, and repeated,
leaves that kernel behind. -/
theorem committed_fails :
    ¬∀ d₂, rootSelectors.CommitRuns kernelContext armedVolume d₂ →
      (rootSelectors.commitCandidate kernelContext () ⟨d₂, []⟩).result = some () →
      rootSelectors.Committed .pi5Pi500 kernelCandidate
        (rootSelectors.commitCandidate kernelContext () ⟨d₂, []⟩).disk := by
  intro h
  have hruns := SelectorCandidateBackend.CommitRuns.step (List.replicate 16 .ok ++ [.cut 0])
    (SelectorCandidateBackend.CommitRuns.refl : rootSelectors.CommitRuns kernelContext
      armedVolume armedVolume)
  have hcommitted := (h _ hruns (by decide +kernel)).temporary
  revert hcommitted
  decide +kernel

end BmxUpdate
