import BmxUpdate.Installer.Retirement
import BmxUpdate.Installer.JournalPair

/-!
# The newest record during a call

A call works on the record it has loaded, and that record stays the newest of
the pair until the call writes the next one: no step between two writes touches
the journal files (`offJournals`), as long as no manifest path is below the
transaction root (`Apart`).
-/

namespace BmxUpdate

open Crash Volumes Wire

namespace Env

variable {env : Env}

/-- Everything but the journal files. -/
def offJournals (env : Env) : Footprint where
  file p := ∀ slot, p ≠ env.journalPath slot
  appear p := ∀ slot, p ≠ env.journalPath slot
  vanish p := ∀ slot, p ≠ env.journalPath slot

/-- The manifest's files have paths, and none of its paths is below the
transaction root. -/
structure Apart (env : Env) : Prop where
  nonempty : env.NonemptyPaths
  apart : ∀ p, env.ManifestPath p → ¬env.root <+: p

theorem Apart.file_ne {p : Path} {slot : JournalSlot} (h : env.Apart) {file : ManifestFile}
    (hfile : file ∈ env.asset.files) (hp : p.dropLast = file.path.dropLast) :
    p ≠ env.journalPath slot := by
  rintro rfl
  refine h.apart file.path (Or.inl ⟨file, hfile, rfl⟩) ?_
  have hroot : (env.journalPath slot).dropLast = env.root := by cases slot <;> simp [journalPath]
  rw [← hroot, hp]
  exact List.dropLast_prefix _

theorem journalPath_not_mem_privateRoots (slot : JournalSlot) :
    env.journalPath slot ∉ env.privateRoots := by
  cases slot <;>
    simp [journalPath, privateRoots, stageRoot, snapshotRoot, stateRoot, metadataOldRoot]

theorem Apart.not_manifestPath (h : env.Apart) (slot : JournalSlot) :
    ¬env.ManifestPath (env.journalPath slot) :=
  fun hpath => h.apart _ hpath (root_le_journalPath slot)

/-- No path the installer makes the parents of is below a journal file. -/
theorem Apart.target {p target : Path} {slot : JournalSlot} (h : env.Apart)
    (htarget : env.Target target) (hp : p ∈ properAncestors target) :
    p ≠ env.journalPath slot := by
  rintro rfl
  obtain ⟨-, hpre, hne⟩ := mem_properAncestors.mp hp
  have hlength : (env.journalPath slot).length = env.root.length + 1 := by
    cases slot <;> simp [journalPath]
  cases htarget with
  | privateRoot hroot =>
      have hshort : target.length ≤ env.root.length + 1 := by
        simp only [privateRoots, List.mem_cons, List.not_mem_nil, or_false] at hroot
        rcases hroot with rfl | rfl | rfl | rfl | rfl <;>
          simp [stageRoot, snapshotRoot, stateRoot, metadataOldRoot]
      exact hne (hpre.eq_of_length_le (by omega))
  | @directory directory hdirectory =>
      exact h.apart _ (Or.inr ⟨directory, hdirectory, rfl⟩) ((root_le_journalPath slot).trans hpre)
  | @live file hfile =>
      exact h.apart _ (Or.inl ⟨file, hfile, rfl⟩) ((root_le_journalPath slot).trans hpre)
  | kept hkept =>
      obtain ⟨base, hbase, rest, -, rfl⟩ := hkept.artifact h.nonempty
      refine not_artifact_journalPath slot ⟨base, hbase, ?_⟩
      refine List.prefix_of_prefix_length_le (List.prefix_append _ _) hpre ?_
      rw [hlength, length_of_mem_artifactRoots hbase]

/-- The files of a call other than the journals. -/
theorem Apart.covers (h : env.Apart) : env.CoversRestores env.offJournals where
  kept := by
    rintro file _ hfile hp slot rfl
    exact not_artifact_journalPath slot (hfile.artifact_temporaries h.nonempty hp)
  live hfile slot := h.file_ne hfile rfl
  rollback := by
    rintro file p hfile - (rfl | rfl) slot
    · exact h.file_ne hfile (dropLast_addSuffix _ _)
    · exact h.file_ne hfile (by simp)
  directory := by
    intro p hp slot heq
    cases hp with
    | privateRoot hroot => exact journalPath_not_mem_privateRoots slot (heq ▸ hroot)
    | directory hdirectory => exact h.not_manifestPath slot (Or.inr ⟨_, hdirectory, heq.symm⟩)
    | parent htarget hp => exact h.target htarget hp heq
  removed := by
    intro p hp slot heq
    cases hp with
    | created hdirectory => exact h.not_manifestPath slot (Or.inr ⟨_, hdirectory, heq.symm⟩)
    | derived hbase _ depth =>
        refine not_artifact_journalPath slot ⟨_, mem_artifactRoots_of_mem_copyRoots hbase, ?_⟩
        rw [← heq]
        exact List.prefix_append _ _
    | privateRoot hroot => exact journalPath_not_mem_privateRoots slot (heq ▸ hroot)

theorem nodeAt_of_offJournals {d d' : Volume} (h : Within env.offJournals d d')
    (slot : JournalSlot) : d'.nodeAt (env.journalPath slot) = d.nodeAt (env.journalPath slot) :=
  h.nodeAt_eq (fun hp => hp slot rfl) (fun hp => hp slot rfl) fun hp => hp slot rfl

end Env

end BmxUpdate
