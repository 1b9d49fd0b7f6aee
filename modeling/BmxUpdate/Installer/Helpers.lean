import BmxUpdate.Installer.Basic

/-!
# What the shared helpers do

One specification for each helper of `Installer.Basic`, in the form in which
its callers use it: the property of the volume that the helper keeps when it is
cut or fails, the nodes it fails at by itself, and what it has changed when it
returns.
-/

namespace BmxUpdate

open Crash Volumes

variable {allow : Fault → Prop} {I : Volume → Prop} {s : EngineState} {d : Volume}

/-- No progress report has failed but at an injected fault. -/
def Fine (allow : Fault → Prop) (s : EngineState) : Prop :=
  s.progressFailed = true → MayFail allow

theorem fine_of_eq_false (h : s.progressFailed = false) : Fine allow s := by
  intro hfailed
  rw [h] at hfailed
  cases hfailed

theorem keeps_progress {E : Unit → Prop} {Q : Unit → EngineState → Volume → Prop} (hI : I d)
    (hfine : Fine allow s) (h : Q () s d) : keeps allow I E progress Q s d := by
  refine keeps_bind (keeps_get ?_)
  cases hfailed : s.progressFailed with
  | true => exact wp_throw ⟨hI, Or.inr (hfine hfailed)⟩
  | false =>
      refine keeps_bind (wp_attempt (wp_barrier (keeps_pure h) ⟨fun hcut => ⟨hI, hcut⟩,
        fun hfail _ _ => ?_⟩))
      exact wp_bind (wp_modify (wp_throw ⟨hI, Or.inr hfail⟩))

theorem keeps_progressFor {E : Unit → Prop} {Q : Unit → EngineState → Volume → Prop}
    {content : Content} (hI : I d) (hfine : Fine allow s) (h : Q () s d) :
    keeps allow I E (progressFor content) Q s d := by
  unfold progressFor
  split
  · exact keeps_pure h
  · exact keeps_progress hI hfine h

theorem keeps_removeIfPresent {E : Unit → Prop} {Q : Unit → EngineState → Volume → Prop}
    {path : Path} (hI : I d) (hrefused : d.nodeAt path = some .directory → E ())
    (h : ∀ d', d.nodeAt path ≠ some .directory → Updates d path none d' → I d' ∧ Q () s d') :
    keeps allow I E (removeIfPresent path) Q s d := by
  refine keeps_bind (keeps_stat hI ?_)
  rcases hnode : d.nodeAt path with _ | content | _
  · exact keeps_syncContainingDirectory hI (h d (by simp [hnode]) (updates_self hnode)).2
  · refine keeps_bind (keeps_removeFile hI hrefused fun d' hd' => ?_)
    have hgone := h d' (by simp [hnode]) hd'
    exact ⟨hgone.1, keeps_syncContainingDirectory hgone.1 hgone.2⟩
  · exact keeps_throw hI (hrefused hnode)

/-- A cleanup that keeps the property whatever becomes of the file it removes. -/
theorem keeps_cleanup {path : Path} (hI : I d) (h : ∀ d', Updates d path none d' → I d') :
    keeps allow I anyError (removeIfPresent path) (fun _ _ d' => I d') s d :=
  keeps_removeIfPresent hI (fun _ => trivial) fun d' _ hd' => ⟨h d' hd', h d' hd'⟩

/-! ## Removing files -/

/-- A file and the temporaries a copy or a rollback makes of it. -/
def WithTemporaries (file p : Path) : Prop :=
  p = file ∨ p = addSuffix file ".part" ∨ p = addSuffix file ".rollback"

/-- The removal of one file out of a set of them. -/
theorem keeps_removeIfPresent_clears {E : Unit → Prop} {Q : Unit → EngineState → Volume → Prop}
    {F D : Path → Prop} {d₀ : Volume} {path : Path} (hpath : F path) (hd : Clears F D d₀ d)
    (hrefused : d.nodeAt path = some .directory → E ())
    (h : ∀ d', Clears F D d₀ d' → Updates d path none d' → d.nodeAt path ≠ some .directory →
      Q () s d') :
    keeps allow (Clears F D d₀) E (removeIfPresent path) Q s d := by
  by_cases hdirectory : d.nodeAt path = some .directory
  · refine keeps_bind (keeps_stat hd ?_)
    rw [hdirectory]
    exact keeps_throw hd (hrefused hdirectory)
  · refine keeps_removeIfPresent hd (fun hnode => absurd hnode hdirectory) fun d' _ hd' => ?_
    have hclears : Clears F D d₀ d' := FrameRel.trans hd
      (clears_of_updates hd' (fun _ => hpath) fun hnode => absurd hnode hdirectory)
    exact ⟨hclears, h d' hclears hd' hdirectory⟩

/-- `RemoveFileAndTemporary` removes files only, and returns only if none of the
three names was a directory's. -/
theorem keeps_removeFileAndTemporary {E : Unit → Prop}
    {Q : Unit → EngineState → Volume → Prop} {F D : Path → Prop} {d₀ : Volume} {path : Path}
    (hpath : ∀ p, WithTemporaries path p → F p) (hd : Clears F D d₀ d)
    (hrefused : (∃ p, WithTemporaries path p ∧ d.nodeAt p = some .directory) → E ())
    (h : ∀ d', Clears F D d₀ d' → Clears (WithTemporaries path) (fun _ => False) d d' →
      (∀ p, WithTemporaries path p → d'.nodeAt p = none ∧ d.nodeAt p ≠ some .directory) →
      Q () s d') :
    keeps allow (Clears F D d₀) E (removeFileAndTemporary path) Q s d := by
  have hself : WithTemporaries path path := Or.inl rfl
  have hpart : WithTemporaries path (addSuffix path ".part") := Or.inr (Or.inl rfl)
  have hrollback : WithTemporaries path (addSuffix path ".rollback") := Or.inr (Or.inr rfl)
  have hfiles : ∀ {p d₁ d₂}, WithTemporaries path p → d₁.nodeAt p ≠ some .directory →
      Updates d₁ p none d₂ → Clears (WithTemporaries path) (fun _ => False) d₁ d₂ :=
    fun hp hnot hupdate => clears_of_updates hupdate (fun _ => hp) fun hnode => hnot hnode
  refine keeps_bind (keeps_removeIfPresent_clears (hpath _ hself) hd
    (fun hnode => hrefused ⟨_, hself, hnode⟩) fun d₁ hd₁ hupdate₁ hnot₁ => ?_)
  have hclears₁ := hfiles hself hnot₁ hupdate₁
  refine keeps_bind (keeps_removeIfPresent_clears (hpath _ hpart) hd₁ (fun hnode =>
    hrefused ⟨_, hpart, hclears₁.of_some hnode⟩)
    fun d₂ hd₂ hupdate₂ hnot₂ => ?_)
  have hclears₂ := hfiles hpart hnot₂ hupdate₂
  have hclears₁₂ := FrameRel.trans hclears₁ hclears₂
  refine keeps_removeIfPresent_clears (hpath _ hrollback) hd₂ (fun hnode =>
    hrefused ⟨_, hrollback, hclears₁₂.of_some hnode⟩)
    fun d₃ hd₃ hupdate₃ hnot₃ => ?_
  have hclears₃ := hfiles hrollback hnot₃ hupdate₃
  refine h d₃ hd₃ (FrameRel.trans hclears₁₂ hclears₃) ?_
  have hkept : ∀ {p v w}, Clears (WithTemporaries path) (fun _ => False) v w →
      w.nodeAt p ≠ some .directory → v.nodeAt p ≠ some .directory := by
    intro p v w hclears hnot hnode
    rcases hclears p with hsame | ⟨-, ⟨hfile, -⟩ | ⟨-, hfalse⟩⟩
    · exact hnot (hsame.trans hnode)
    · rw [hnode] at hfile
      exact hfile
    · exact hfalse
  rintro p (rfl | rfl | rfl)
  · exact ⟨(FrameRel.trans hclears₂ hclears₃).eq_none (by rw [hupdate₁, if_pos rfl]), hnot₁⟩
  · exact ⟨hclears₃.eq_none (by rw [hupdate₂, if_pos rfl]), hkept hclears₁ hnot₂⟩
  · exact ⟨by rw [hupdate₃, if_pos rfl], hkept hclears₁₂ hnot₃⟩

end BmxUpdate
