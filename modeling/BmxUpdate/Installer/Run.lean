import BmxUpdate.Installer.Frame
import BmxUpdate.Sha256

/-!
# Runs of the installer

A run is a sequence of calls on one volume, each under its own faults.  What a
call leaves on the volume, when it ends or is cut, is what the next one finds.
-/

namespace BmxUpdate

open Crash Volumes Wire

/-- The calls of `UpdateInstaller` that can change the volume. -/
inductive Call where
  | stage
  | armCandidate
  | markCandidateHealthy
  | commit
  | rollback
  | retireRolledBack
  | retireCommitted
deriving DecidableEq, Repr

namespace Env

variable (env : Env)

/-- The engine's part of a call. -/
def call : Call → EngineProc InstallerSuccess
  | .stage => env.stage
  | .armCandidate => env.arm
  | .markCandidateHealthy => env.healthy
  | .commit => env.commit
  | .rollback => env.rollback
  | .retireRolledBack => env.retireRolledBack
  | .retireCommitted => env.retireCommitted

/-- The second volume is reached from the first by calls out of `calls`, under
faults that satisfy `allow`. -/
inductive Runs (calls : Call → Prop) (allow : Fault → Prop) (u : Volume) : Volume → Prop
  | refl : Runs calls allow u u
  | step {v : Volume} (c : Call) (faults : List Fault) (h : Runs calls allow u v)
      (hcall : calls c) (hfaults : ∀ f ∈ faults, allow f) :
      Runs calls allow u (runCall (env.call c) v faults).volume

/-- Run some calls one after the other. -/
def runCalls (v : Volume) : List (Call × List Fault) → Volume
  | [] => v
  | (c, faults) :: rest => runCalls (runCall (env.call c) v faults).volume rest

variable {env}

/-- What a call establishes for each way it can end holds of its volume. -/
theorem runCall_volume {m : EngineProc InstallerSuccess} {allow : Fault → Prop}
    {v : Volume} {I : Volume → Prop}
    (h : wp allow m ⟨fun _ _ => I, fun _ _ => I, I⟩ .initial v) {faults : List Fault}
    (hfaults : ∀ f ∈ faults, allow f) : I (runCall m v faults).volume := by
  have hvolume : (runCall m v faults).volume = (m .initial ⟨v, faults⟩).disk := by
    unfold runCall
    cases m .initial ⟨v, faults⟩ <;> rfl
  rw [hvolume]
  exact wp_disk h hfaults

/-- A relation every call keeps to is kept by a run. -/
theorem Runs.rel {calls : Call → Prop} {allow : Fault → Prop} {R : Volume → Volume → Prop}
    [FrameRel R] (hcalls : ∀ c, calls c → Preserves R (env.call c)) {v w : Volume}
    (h : env.Runs calls allow v w) : R v w := by
  induction h with
  | refl => exact FrameRel.refl v
  | step c faults _ hcall hfaults ih =>
      exact FrameRel.trans ih (runCall_volume (hcalls c hcall allow _ _) hfaults)

/-- An invariant of every call is an invariant of a run. -/
theorem Runs.invariant {calls : Call → Prop} {allow : Fault → Prop} {I : Volume → Prop}
    (hcalls : ∀ c, calls c → ∀ v, I v →
      wp allow (env.call c) ⟨fun _ _ => I, fun _ _ => I, I⟩ .initial v)
    {v w : Volume} (h : env.Runs calls allow v w) (hv : I v) : I w := by
  induction h with
  | refl => exact hv
  | step c faults _ hcall hfaults ih => exact runCall_volume (hcalls c hcall _ ih) hfaults

theorem runs_runCalls {calls : Call → Prop} {allow : Fault → Prop} {u v : Volume}
    (h : env.Runs calls allow u v) {steps : List (Call × List Fault)}
    (hsteps : ∀ step ∈ steps, calls step.1 ∧ ∀ f ∈ step.2, allow f) :
    env.Runs calls allow u (env.runCalls v steps) := by
  induction steps generalizing v with
  | nil => exact h
  | cons step rest ih =>
      obtain ⟨hcall, hfaults⟩ := hsteps step List.mem_cons_self
      exact ih (.step step.1 step.2 h hcall hfaults)
        fun other hother => hsteps other (List.mem_cons_of_mem _ hother)

variable (env)

/-! ## The frame of a run -/

/-- A call stays within the footprint; the one that restores is `Rollback`. -/
theorem preserves_call {owned : Path → Prop} (hbackend : env.BackendOwns owned)
    {restores : Prop} (c : Call) (hrestores : c = .rollback → restores) :
    Preserves (Within (env.footprint owned restores)) (env.call c) := by
  cases c with
  | stage => exact env.respects_stage.preserves
  | armCandidate => exact (env.respects_arm hbackend).preserves
  | markCandidateHealthy => exact env.respects_healthy.preserves
  | commit => exact (env.respects_commit hbackend).preserves
  | rollback =>
      obtain rfl := eq_true (hrestores rfl)
      exact (env.respects_rollback hbackend).preserves
  | retireRolledBack => exact env.respects_retireRolledBack.preserves
  | retireCommitted => exact env.respects_retireCommitted.preserves

end Env

/-! ## Small installations -/

/-- A file of a small installation. -/
structure SmallFile where
  path : Path
  policy : ManifestFilePolicy
  content : Content

/-- The manifest entry of a small file. -/
def SmallFile.manifestFile (file : SmallFile) : ManifestFile :=
  ⟨file.path, UInt64.ofNat file.content.length, sha256 file.content, file.policy⟩

/-- An archive of three bytes with some small files. -/
def smallArchive (files : List SmallFile) : ZipArchive where
  bytes := some [1, 2, 3]
  openStatus := .ok
  inventoryArchiveSize := 3
  inventoryInstalledSize := 3
  bindStatus := .ok
  member := fun p => (files.find? (·.path = p)).map SmallFile.content

/-- The request to install some small files from an archive of three bytes. -/
def smallRequest (files : List SmallFile) (directories : List Path) : InstallerRequest where
  manifest :=
    { releaseSequence := 2
      asset :=
        { board := .pi5Pi500
          downloadSize := 3
          sha256 := sha256 [1, 2, 3]
          installedSize := 3
          files := files.map SmallFile.manifestFile
          directories := directories.map ManifestDirectory.mk } }
  downloadedZip := some (smallArchive files)
  transactionRoot := [".bmx-update", "transaction"]
  identity :=
    { transactionId := .ofBytes 16 [1]
      sourceReleaseSequence := 1
      oldBootGeneration := 3
      newBootGeneration := 4
      manifestSha256 := .ofBytes 32 [5]
      consentSha256 := .ofBytes 32 [6]
      resetRequired := false
      resetApproved := false }
  preparedConfigs := none

/-- A candidate backend with nothing to do. -/
def idleBackend : CandidateBackend where
  supported := true
  armCandidate := fun _ => return ()
  commitCandidate := fun _ => return ()
  disarmCandidate := fun _ => return ()

/-- The environment of a small installation, on a volume with a gigabyte free. -/
def smallEnv (files : List SmallFile) (directories : List Path) (backend : CandidateBackend) :
    Env where
  sha256 := sha256
  durability := some ⟨true, true, true, true, true⟩
  volumeSize := some (2 ^ 30)
  allocationUnit := some 512
  freeSpace := fun _ => some (2 ^ 30)
  backend := backend
  request := smallRequest files directories
  workspace := ⟨16, 16, 16, 4096⟩

/-- The installation of one managed file. -/
def managedEnv : Env := smallEnv [⟨["c64", "a.vkm"], .managedReplace, [9]⟩] [] idleBackend

/-- A volume with the given files and the directories above them. -/
def volumeOf (files : List (Path × Content)) (directories : List Path) : Volume :=
  let create (v : Volume) (p : Path) : Volume := (v.createDirectory p).getD v
  let parents := directories.foldl (fun v p => (properAncestors p ++ [p]).foldl create v) .empty
  files.foldl (fun v file =>
    let v := (properAncestors file.1).foldl create v
    ((v.createFile file.1).bind fun w => w.writeFile file.1 file.2).getD v) parents

end BmxUpdate
