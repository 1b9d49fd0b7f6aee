import BmxUpdate.Installer.Run
import BmxUpdate.SelectorCommit
import BmxUpdate.SelectorFrame

/-!
# The live paths a run leaves alone

A path that is neither of the manifest nor of the transaction nor of the backend
is foreign.  A run keeps every foreign path but two kinds.  A rollback puts old
files back through temporaries, which `ReplaceWithCopy` makes beside the live
file, under the live file's own name with a suffix.  And the parents of the
transaction root are made where they are missing.
-/

namespace BmxUpdate

open Crash Volumes Wire

namespace Env

variable {env : Env}

/-- The live paths a run leaves alone: nothing of the manifest, nothing below
the transaction root, and nothing of the backend. -/
structure Foreign (env : Env) (owned : Path → Prop) (p : Path) : Prop where
  root : ¬env.root <+: p
  manifest : ¬env.ManifestPath p
  parent : ∀ target, env.ManifestPath target → p ∉ properAncestors target
  backend : ¬owned p

/-- A run keeps every foreign path that is no parent it has to make above the
transaction root and, where it restores files, no temporary of one of them. -/
theorem foreign_frame {owned : Path → Prop} (hbackend : env.BackendOwns owned)
    {calls : Call → Prop} {v w : Volume} (hrun : env.Runs calls anyFault v w) {p : Path}
    (hp : env.Foreign owned p) (hmade : p ∈ properAncestors env.root → v.nodeAt p ≠ none)
    (htemporary : calls .rollback → ∀ file ∈ env.asset.files, Restorable file →
      ¬RollbackTemporary file.path p) : w.nodeAt p = v.nodeAt p := by
  have hwithin : Within (env.footprint owned (calls .rollback)) v w :=
    hrun.rel fun c hcall => env.preserves_call hbackend c (by rintro rfl; exact hcall)
  have hfile : ¬(env.footprint owned (calls .rollback)).file p := by
    rintro (h | h)
    · exact hp.backend h
    cases h with
    | kept h hkept => exact hp.root (prefix_of_withTemporaries h hkept)
    | journal slot => exact hp.root (root_le_journalPath slot)
    | journalTemp => exact hp.root (List.prefix_append _ _)
    | live h => exact hp.manifest (Or.inl ⟨_, h, rfl⟩)
    | rollback hrestores h hrestorable h' => exact htemporary hrestores _ h hrestorable h'
  have hvanish : ¬(env.footprint owned (calls .rollback)).vanish p := by
    rintro (h | h)
    · exact hp.backend h
    cases h with
    | created h => exact hp.manifest (Or.inr ⟨_, h, rfl⟩)
    | derived hbase _ _ =>
        exact hp.root ((prefix_of_mem_copyRoots hbase).trans (List.prefix_append _ _))
    | privateRoot h => exact hp.root (prefix_of_mem_privateRoots h)
  -- The only directories a run makes at foreign paths are the parents of the root.
  have hparent : (env.footprint owned (calls .rollback)).appear p →
      p ∈ properAncestors env.root := by
    rintro (h | h)
    · exact absurd h hp.backend
    have habove : ∀ target, env.root <+: target → p ∈ properAncestors target →
        p ∈ properAncestors env.root := by
      intro target htarget hmem
      obtain ⟨hne, hpre, -⟩ := mem_properAncestors.mp hmem
      rcases List.prefix_or_prefix_of_prefix hpre htarget with h | h
      · exact mem_properAncestors.mpr ⟨hne, h, by rintro rfl; exact hp.root h⟩
      · exact absurd h hp.root
    cases h with
    | privateRoot h => exact absurd (prefix_of_mem_privateRoots h) hp.root
    | directory h => exact absurd (Or.inr ⟨_, h, rfl⟩) hp.manifest
    | parent h hmem =>
        cases h with
        | privateRoot h => exact habove _ (prefix_of_mem_privateRoots h) hmem
        | directory h => exact absurd hmem (hp.parent _ (Or.inr ⟨_, h, rfl⟩))
        | live h => exact absurd hmem (hp.parent _ (Or.inl ⟨_, h, rfl⟩))
        | kept h => exact habove _ h.root_le hmem
  by_cases happear : (env.footprint owned (calls .rollback)).appear p
  · exact hwithin.nodeAt_eq_of_ne_none hfile hvanish (hmade (hparent happear))
  · exact hwithin.nodeAt_eq hfile happear hvanish

end Env

/-! ## A file beside a managed file -/

/-- A volume where the user keeps a note, and a file of their own beside the
managed one. -/
def managedVolume : Volume :=
  volumeOf [(["c64", "a.vkm"], [1]), (["c64", "a.vkm.rollback"], [2]), (["notes.txt"], [3])]
    [[".bmx-update", "transaction"]]

theorem managedEnv_backendOwns : managedEnv.BackendOwns fun _ => False where
  arm := .pure ()
  commit := .pure ()
  disarm := .pure ()

theorem managedEnv_manifestPath {p : Path} (h : managedEnv.ManifestPath p) :
    p = ["c64", "a.vkm"] := by
  rcases h with ⟨file, hfile, rfl⟩ | ⟨directory, hdirectory, rfl⟩
  · obtain rfl : file = ⟨["c64", "a.vkm"], 1, sha256 [9], .managedReplace⟩ := by
      simpa [managedEnv, smallEnv, smallRequest, SmallFile.manifestFile] using hfile
    rfl
  · simp [managedEnv, smallEnv, smallRequest] at hdirectory

/-- A path outside `c64` and the transaction root is foreign. -/
theorem managedEnv_foreign {p : Path} (hroot : ¬[".bmx-update", "transaction"] <+: p)
    (hne : p ≠ ["c64", "a.vkm"]) (hparent : p ≠ ["c64"]) :
    managedEnv.Foreign (fun _ => False) p where
  root := hroot
  manifest := fun h => hne (managedEnv_manifestPath h)
  parent := by
    intro target htarget hmem
    rw [managedEnv_manifestPath htarget] at hmem
    exact hparent (by simpa [properAncestors] using hmem)
  backend := id

/-- The same installation with the updater's own backend. -/
def selectorEnv : Env := { managedEnv with backend := rootSelectors.candidateBackend }

theorem selectorEnv_foreign {p : Path} (h : managedEnv.Foreign (fun _ => False) p)
    (howned : p ∉ rootSelectors.ownedPaths .pi5Pi500) :
    selectorEnv.Foreign (· ∈ rootSelectors.ownedPaths .pi5Pi500) p :=
  ⟨h.root, h.manifest, h.parent, howned⟩

/-- The user's note survives an installation that is rolled back, and before
the rollback the file beside the managed one is safe as well, from the updater's backend too. -/
theorem foreign_frame_notes :
    (managedEnv.runCalls managedVolume [(.stage, []), (.rollback, [])]).nodeAt ["notes.txt"] =
        managedVolume.nodeAt ["notes.txt"] ∧
      (selectorEnv.runCalls managedVolume [(.stage, []), (.armCandidate, [])]).nodeAt
        ["c64", "a.vkm.rollback"] = managedVolume.nodeAt ["c64", "a.vkm.rollback"] := by
  constructor
  · have hrun : managedEnv.Runs (fun _ => True) anyFault managedVolume
        (managedEnv.runCalls managedVolume [(.stage, []), (.rollback, [])]) :=
      Env.runs_runCalls .refl (by simp)
    refine Env.foreign_frame managedEnv_backendOwns hrun
      (managedEnv_foreign (by decide) (by decide) (by decide))
      (fun h => absurd h (by decide)) ?_
    intro _ file hfile _ htemporary
    have hpath := managedEnv_manifestPath (Or.inl ⟨file, hfile, rfl⟩)
    rw [Env.RollbackTemporary, hpath] at htemporary
    revert htemporary
    decide
  · have hrun : selectorEnv.Runs (· ≠ .rollback) anyFault managedVolume
        (selectorEnv.runCalls managedVolume [(.stage, []), (.armCandidate, [])]) :=
      Env.runs_runCalls .refl (by simp)
    exact Env.foreign_frame (rootSelectors.candidateBackend_owns rfl) hrun
      (selectorEnv_foreign (managedEnv_foreign (by decide) (by decide) (by decide))
        (by decide +kernel))
      (fun h => absurd h (by decide)) fun h => absurd rfl h

/-- The file beside the managed one does not: the rollback uses its name for a
temporary. -/
theorem foreign_frame_fails :
    ¬∀ p, managedEnv.Foreign (fun _ => False) p →
      (managedEnv.runCalls managedVolume [(.stage, []), (.rollback, [])]).nodeAt p =
        managedVolume.nodeAt p := by
  intro h
  have hkept := h ["c64", "a.vkm.rollback"]
    (managedEnv_foreign (by decide) (by decide) (by decide))
  have hlost : (managedEnv.runCalls managedVolume
      [(.stage, []), (.rollback, [])]).nodeAt ["c64", "a.vkm.rollback"] = none := by
    decide +kernel
  rw [hlost] at hkept
  revert hkept
  decide +kernel

end BmxUpdate
