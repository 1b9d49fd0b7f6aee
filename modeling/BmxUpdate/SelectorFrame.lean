import BmxUpdate.Installer.Frame
import BmxUpdate.SelectorBackend

/-!
# What the selector backend touches

The two selectors with their temporary files, and the temporary kernels of the board.  Whatever
fails, the calls of the backend change nothing else, so the updater's own backend is one the
results about the installer are for (`candidateBackend_owns`).
-/

namespace BmxUpdate

open Crash Volumes Wire

theorem preserves_withCleanup {R : Volume → Volume → Prop} [FrameRel R]
    {step cleanup : BackendProc Unit} (hstep : Preserves R step) (hcleanup : Preserves R cleanup) :
    Preserves R (withCleanup step cleanup) := by
  refine .bind hstep.attempt fun result => ?_
  cases result with
  | ok _ => exact .pure ()
  | error _ => exact .bind hcleanup.attempt fun _ => .throw ()

/-! ## Parsed selectors -/

theorem preserves_readSmallFile {R : Volume → Volume → Prop} [FrameRel R] (path : Path) :
    Preserves R (readSmallFile path) :=
  .bind (preserves_stat _) fun _ => .bind (.check _ _) fun _ => preserves_readFile _

/-- What follows the reading of a selector need only be looked at for what the parser accepts. -/
theorem preserves_readAndValidate {α : Type} {R : Volume → Volume → Prop} [FrameRel R]
    {path : Path} {context : CandidateContext} {expectedSequence : UInt64}
    {next : ParsedKernelSelector → BackendProc α}
    (hnext : ∀ selector, selector.Names context.board → Preserves R (next selector)) :
    Preserves R (readAndValidate path context expectedSequence >>= next) := by
  unfold readAndValidate
  rw [Proc.bind_assoc]
  refine .bind (.check _ _) fun _ => ?_
  rw [Proc.bind_assoc]
  refine .bind (preserves_readSmallFile path) fun bytes => ?_
  cases hparse : parseKernelSelector bytes context.board with
  | error _ => exact .throw ()
  | ok selector =>
      dsimp only
      rw [Proc.bind_assoc]
      exact .bind (.check _ _) fun _ => hnext selector (parseKernelSelector_eq_ok hparse).2

namespace SelectorCandidateBackend

variable (backend : SelectorCandidateBackend)

/-- The temporary kernels of a board. -/
def temporaryKernels (board : BoardFamily) : List Path :=
  (kernelBase board).toList.flatMap fun base => kernelMachines.map fun machine =>
    kernelPath (stableKernel base machine ++ candidateSuffix)

/-- The paths the backend changes. -/
def ownedPaths (board : BoardFamily) : List Path :=
  [backend.activeSelector, addSuffix backend.activeSelector ".next", backend.candidateSelector,
    addSuffix backend.candidateSelector ".next"] ++ temporaryKernels board

/-- Files come, change and go on these paths. -/
def footprint (board : BoardFamily) : Footprint where
  file p := p ∈ backend.ownedPaths board
  appear _ := False
  vanish _ := False

theorem agreeOff_of_within {board : BoardFamily} {v w : Volume}
    (h : Within (backend.footprint board) v w) : AgreeOff (· ∈ backend.ownedPaths board) v w :=
  fun _ hp => h.nodeAt_eq hp id id

variable {backend} {board : BoardFamily}

theorem temporary_owned {selector : ParsedKernelSelector} (h : selector.Names board) :
    kernelPath (selector.manifestKernelPath ++ candidateSuffix) ∈ backend.ownedPaths board := by
  obtain ⟨base, hbase, hkernel⟩ := h.base
  refine List.mem_append_right _ (List.mem_flatMap.mpr ⟨base, Option.mem_toList.mpr hbase, ?_⟩)
  rw [hkernel]
  exact List.mem_map_of_mem h.machine

/-- Either selector with its temporary file. -/
theorem preserves_publishSelector {path : Path} {kernel : Bytes}
    (hpath : path ∈ backend.ownedPaths board)
    (htemporary : addSuffix path ".next" ∈ backend.ownedPaths board) :
    Preserves (Within (backend.footprint board)) (publishSelector path kernel) := by
  have hfile : Preserves (Within (backend.footprint board))
      (publishSelectorFile (addSuffix path ".next") path (selectorContent kernel)) :=
    .bind (preserves_write htemporary _) fun _ => .bind preserves_barrier fun _ =>
      .bind preserves_barrier fun _ => .bind (preserves_rename htemporary hpath) fun _ =>
      preserves_barrier
  exact .bind (.check _ _) fun _ => .bind (.check _ _) fun _ =>
    .bind (preserves_removeFile htemporary) fun _ =>
    .bind (preserves_createFileFresh htemporary) fun _ =>
    preserves_withCleanup hfile (preserves_removeFile htemporary)

theorem preserves_publishActive {kernel : Bytes} :
    Preserves (Within (backend.footprint board))
      (publishSelector backend.activeSelector kernel) :=
  preserves_publishSelector (by simp [ownedPaths]) (by simp [ownedPaths])

theorem preserves_publishCandidate {kernel : Bytes} :
    Preserves (Within (backend.footprint board))
      (publishSelector backend.candidateSelector kernel) :=
  preserves_publishSelector (by simp [ownedPaths]) (by simp [ownedPaths])

theorem preserves_removeCandidateKernel {selector : ParsedKernelSelector}
    (h : selector.Names board) :
    Preserves (Within (backend.footprint board)) (removeCandidateKernel selector) := by
  unfold removeCandidateKernel Proc.when Proc.whenOr
  split
  · next hcandidate =>
    have hkernel : kernelPath selector.kernelPath ∈ backend.ownedPaths board := by
      rw [h.kernelPath, hcandidate, if_pos rfl]
      exact temporary_owned h
    exact .bind (preserves_removeFile hkernel) fun _ => preserves_barrier
  · exact .pure ()

theorem preserves_removeNamedKernel {path : Path} {context : CandidateContext}
    (hboard : context.board = board) :
    Preserves (Within (backend.footprint board)) (removeNamedKernel path context) := by
  refine .bind (preserves_readSmallFile path).attempt fun result => ?_
  cases result with
  | error _ => exact .pure ()
  | ok bytes =>
      dsimp only
      cases hparse : parseKernelSelector bytes context.board with
      | error _ => exact .pure ()
      | ok candidate =>
          exact preserves_removeCandidateKernel (hboard ▸ (parseKernelSelector_eq_ok hparse).2)

theorem preserves_copyAndVerify {source target : Path} {expected : ManifestFile}
    (htarget : target ∈ backend.ownedPaths board) :
    Preserves (Within (backend.footprint board)) (backend.copyAndVerify source target expected) := by
  have hfill : ∀ content, Preserves (Within (backend.footprint board))
      (backend.fillCopy content target expected) := fun content =>
    .bind (preserves_write htarget _) fun _ => .bind (.check _ _) fun _ =>
      .bind preserves_barrier fun _ => .bind preserves_barrier fun _ => preserves_barrier
  exact .bind (preserves_stat _) fun _ => .bind (.check _ _) fun _ =>
    .bind (preserves_removeFile htarget) fun _ => .bind (preserves_readFile _) fun content =>
    .bind (preserves_createFileFresh htarget) fun _ =>
    preserves_withCleanup (hfill content) (preserves_removeFile htarget)

/-- The copy of the staged kernel goes to a temporary kernel of the board. -/
theorem preserves_prepareCandidateKernel {α : Type} {context : CandidateContext}
    {active : ParsedKernelSelector} (h : active.Names board)
    {next : Bytes × Bool → BackendProc α}
    (hnext : ∀ prepared : Bytes × Bool,
      (prepared.2 = true → kernelPath prepared.1 ∈ backend.ownedPaths board) →
      Preserves (Within (backend.footprint board)) (next prepared)) :
    Preserves (Within (backend.footprint board))
      (backend.prepareCandidateKernel context active >>= next) := by
  unfold prepareCandidateKernel
  split
  · next kernel _ =>
    rw [Proc.bind_assoc]
    refine .bind (preserves_stat _) fun found => ?_
    split
    · rw [Proc.bind_assoc]
      refine .bind ?_ fun _ => hnext _ nofun
      exact .bind (preserves_stat _) fun _ => .bind (.check _ _) fun _ =>
        .bind (preserves_readFile _) fun _ => .check _ _
    · exact .throw ()
    · rw [Proc.bind_assoc]
      refine .bind (.check _ _) fun _ => ?_
      rw [Proc.bind_assoc]
      exact .bind (preserves_copyAndVerify (temporary_owned h)) fun _ =>
        hnext _ fun _ => temporary_owned h
  · exact .throw ()

variable (backend)

theorem preserves_armCandidate (context : CandidateContext) :
    Preserves (Within (backend.footprint context.board)) (backend.armCandidate context) := by
  refine .bind (.check _ _) fun _ => preserves_readAndValidate fun active hactive =>
    .bind (.check _ _) fun _ => preserves_prepareCandidateKernel hactive fun prepared hprepared =>
    .bind (preserves_withCleanup preserves_publishCandidate ?_) fun _ =>
    preserves_readAndValidate fun _ _ => .check _ _
  unfold Proc.when Proc.whenOr
  split
  · next htemporary => exact preserves_removeFile (hprepared htemporary)
  · exact .pure ()

theorem preserves_commitCandidate (context : CandidateContext) :
    Preserves (Within (backend.footprint context.board)) (backend.commitCandidate context) :=
  .bind (.check _ _) fun _ => preserves_readAndValidate fun _ hcandidate =>
    .bind preserves_publishActive fun _ => .bind preserves_publishCandidate fun _ =>
    .bind (preserves_removeCandidateKernel hcandidate) fun _ =>
    preserves_readAndValidate fun _ _ => .check _ _

theorem preserves_disarmCandidate (context : CandidateContext) :
    Preserves (Within (backend.footprint context.board)) (backend.disarmCandidate context) :=
  .bind (.check _ _) fun _ => preserves_readAndValidate fun _ _ => .bind (.check _ _) fun _ =>
    .bind (preserves_removeNamedKernel rfl) fun _ => preserves_publishCandidate

/-- The updater's backend changes its selectors and temporary kernels only. -/
theorem candidateBackend_owns {env : Env} (h : env.backend = backend.candidateBackend) :
    env.BackendOwns (· ∈ backend.ownedPaths env.asset.board) := by
  have howns : ∀ {call : BackendProc Unit},
      Preserves (Within (backend.footprint env.asset.board)) call →
      Preserves (AgreeOff (· ∈ backend.ownedPaths env.asset.board)) call := fun hcall allow s d =>
    wp_mono (hcall allow s d) (fun _ _ _ => backend.agreeOff_of_within)
      (fun _ _ _ => backend.agreeOff_of_within) fun _ => backend.agreeOff_of_within
  constructor
  · rw [h]
    exact howns (backend.preserves_armCandidate env.candidate)
  · rw [h]
    exact howns (backend.preserves_commitCandidate env.candidate)
  · rw [h]
    exact howns (backend.preserves_disarmCandidate env.candidate)

end SelectorCandidateBackend

end BmxUpdate
