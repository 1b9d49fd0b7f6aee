import BmxUpdate.Installer.JournalPair
import BmxUpdate.Installer.Run

/-!
# Interrupted journal writes

A session writes the journal record by record.  Each write may return, or may
be cut or fail at any of its operations; after that the slot it was writing may
be missing, may hold its previous bytes, the whole new record, or bytes that
nothing parses, and the session goes on from what a load finds.

`journal_crash_atomic`: whatever the session, a load finds the record it is at,
and after an interrupted write it finds that record or the one being written.
-/

namespace BmxUpdate

open Crash Volumes Wire

namespace Env

variable (env : Env)

/-- A fresh load of the journal files returns, and makes `cur` current. -/
def Loads (d : Volume) (cur : Option (JournalRecord × JournalSlot)) : Prop :=
  ∃ s w, env.loadJournal true .initial ⟨d, []⟩ = .done () s w ∧ s.journal = cur

/-- The journal write a session makes after `cur`. -/
def journalWrite (cur : Option (JournalRecord × JournalSlot)) (next : JournalRecord) :
    EngineProc Unit :=
  if cur.isNone then env.writeInitialJournal next else env.writeTransition next

/-- The slot that write goes to. -/
def nextSlot (cur : Option (JournalRecord × JournalSlot)) : JournalSlot :=
  (cur.map (·.2.other)).getD .a

/-- The write is accepted: its record is valid and, after another record, one
that may follow it. -/
def Accepts (cur : Option (JournalRecord × JournalSlot)) (next : JournalRecord) : Prop :=
  RecordIsValid next ∧
    ∀ r slot, cur = some (r, slot) → validateJournalTransition r next = .allowed

/-- An engine that has loaded or written `cur` and goes on. -/
def EngineAt (s : EngineState) (cur : Option (JournalRecord × JournalSlot)) : Prop :=
  s.journal = cur ∧ s.progressFailed = false

/-- The write of `next` after `cur` did not return, and left `d'`, where its
slot may be torn. -/
def Interrupts (cur : Option (JournalRecord × JournalSlot)) (next : JournalRecord)
    (d d' : Volume) : Prop :=
  ∃ s faults, EngineAt s cur ∧ (env.journalWrite cur next s ⟨d, faults⟩).result = none ∧
    TornSlot next (d.nodeAt (env.journalPath (nextSlot cur)))
      (d'.nodeAt (env.journalPath (nextSlot cur))) ∧
    ∀ q, q ≠ env.journalPath (nextSlot cur) →
      d'.nodeAt q = (env.journalWrite cur next s ⟨d, faults⟩).disk.nodeAt q

/-- The sessions on the journal files: they start with a load, and go on with
writes that return and with loads after writes that do not. -/
inductive JournalSession : Volume → Option (JournalRecord × JournalSlot) → Prop
  | start {d cur} (h : env.Loads d cur) : JournalSession d cur
  | wrote {d cur} {next : JournalRecord} {s : EngineState} (faults : List Fault)
      (h : JournalSession d cur) (haccepts : Accepts cur next) (hs : EngineAt s cur)
      (hdone : (env.journalWrite cur next s ⟨d, faults⟩).result = some ()) :
      JournalSession (env.journalWrite cur next s ⟨d, faults⟩).disk (some (next, nextSlot cur))
  | resumed {d d' cur cur'} {next : JournalRecord} (h : JournalSession d cur)
      (haccepts : Accepts cur next) (hinterrupts : env.Interrupts cur next d d')
      (hload : env.Loads d' cur') : JournalSession d' cur'

variable {env}

/-- A load finds exactly the newest record of the pair. -/
theorem loads_iff {d : Volume} {cur : Option (JournalRecord × JournalSlot)} :
    env.Loads d cur ↔ env.JournalPair d cur := by
  constructor
  · rintro ⟨s, w, hrun, rfl⟩
    have h : keeps anyFault _ anyError (env.loadJournal true) _ .initial d :=
      keeps_loadJournal_any true (fine_of_eq_false rfl)
    replace h := h [] (by simp)
    rw [hrun] at h
    obtain ⟨⟨-, cur, hcur, hs⟩, -⟩ := h
    rwa [hs]
  · intro hpair
    obtain ⟨_, s, w, hrun, hs⟩ := keeps_uninterrupted (I := fun _ => True)
      (Q := fun _ (s : EngineState) _ => s.journal = cur)
      (m := env.loadJournal true) (s := .initial)
      (keeps_loadJournal trivial (fine_of_eq_false rfl) hpair (by simp) fun _ => rfl)
    exact ⟨s, w, hrun, hs⟩

/-- What an accepted write does to the journal files. -/
theorem keeps_journalWrite {cur : Option (JournalRecord × JournalSlot)} {next : JournalRecord}
    {s : EngineState} {d : Volume} (haccepts : Accepts cur next) (hs : EngineAt s cur) :
    keeps anyFault (env.Writing next (nextSlot cur) d) anyError (env.journalWrite cur next)
      (fun _ _ d' => env.Written next (nextSlot cur) d d') s d := by
  obtain ⟨hjournal, hfine⟩ := hs
  have hwrite : keeps anyFault (env.Writing next (nextSlot cur) d) anyError
      (env.writeJournalBytes next (nextSlot cur))
      (fun _ _ d' => env.Written next (nextSlot cur) d d') s d :=
    keeps_writeJournalBytes (fine_of_eq_false hfine) (fun _ _ => trivial) (fun _ h => h) fun _ _ h => h
  unfold journalWrite
  rcases cur with _ | ⟨r, slot⟩
  · refine keeps_bind (keeps_get (keeps_bind (keeps_check (fun hsome => ?_) fun _ => hwrite)))
    simp [hjournal] at hsome
  · refine keeps_bind (keeps_get ?_)
    rw [hjournal]
    exact keeps_bind (keeps_check (fun hdenied => absurd (haccepts.2 r slot rfl) hdenied)
      fun _ => hwrite)

theorem Accepts.generation_lt {cur : Option (JournalRecord × JournalSlot)} {next : JournalRecord}
    (h : Accepts cur next) {r : JournalRecord} {slot : JournalSlot} (hcur : cur = some (r, slot)) :
    r.generation < next.generation :=
  generation_lt_of_allowed (h.2 r slot hcur)

/-- An interrupted write tears at most the slot it was writing. -/
theorem Interrupts.torn {cur : Option (JournalRecord × JournalSlot)} {next : JournalRecord}
    {d d' : Volume} (h : env.Interrupts cur next d d') (haccepts : Accepts cur next) :
    env.Torn next (nextSlot cur) d d' := by
  obtain ⟨s, faults, hs, -, htorn, hother⟩ := h
  have hwriting : env.Writing next (nextSlot cur) d
      (env.journalWrite cur next s ⟨d, faults⟩).disk := by
    refine keeps_disk (keeps_mono (keeps_journalWrite haccepts hs) (fun _ h => h) (fun _ h => h)
      fun _ _ _ h => h.writing haccepts.1) fun _ _ => trivial
  refine ⟨htorn, ?_⟩
  rw [hother _ (journalPath_other_ne _)]
  exact hwriting.other _ (journalPath_ne_journalTemp _) (journalPath_other_ne _)

/-- The journal files of a session hold the record the session is at. -/
theorem JournalSession.journalPair {d : Volume} {cur : Option (JournalRecord × JournalSlot)}
    (h : env.JournalSession d cur) : env.JournalPair d cur := by
  induction h with
  | start h => exact loads_iff.mp h
  | wrote faults _ haccepts hs hdone ih =>
      exact ih.written haccepts.1 (fun r slot h => haccepts.generation_lt h) rfl
        (wp_result (keeps_journalWrite haccepts hs) (fun _ _ => trivial) hdone)
  | resumed _ _ _ hload _ => exact loads_iff.mp hload

/-- A session loads the record it is at.  After an interrupted write it loads
that record or, then in the other slot, the one being written; only before the
first record is on the volume as a whole there may be nothing to load. -/
theorem journal_crash_atomic {d : Volume} {cur : Option (JournalRecord × JournalSlot)}
    (h : env.JournalSession d cur) :
    env.Loads d cur ∧
      ∀ next d', Accepts cur next → env.Interrupts cur next d d' →
        (cur ≠ none ∨ d'.nodeAt (env.journalPath (nextSlot cur)) = recordNode next →
          env.Loads d' cur ∨ env.Loads d' (some (next, nextSlot cur))) ∧
        ∀ cur', env.Loads d' cur' → cur' = cur ∨ cur' = some (next, nextSlot cur) := by
  have hpair := h.journalPair
  refine ⟨loads_iff.mpr hpair, fun next d' haccepts hinterrupts => ?_⟩
  have htorn := hinterrupts.torn haccepts
  simp only [loads_iff]
  rcases cur with _ | ⟨r, slot⟩
  · refine ⟨fun hwhole => Or.inr ⟨recordAt_recordNode haccepts.1 ?_, ?_⟩,
      fun cur' hcur' => hpair.torn_initial htorn hcur'⟩
    · exact hwhole.resolve_left (by simp)
    · intro r' hr'
      rw [recordAt_missing (htorn.other.trans (hpair _))] at hr'
      cases hr'
  · have hloads := hpair.torn (haccepts.generation_lt rfl) htorn
    exact ⟨fun _ => hloads, fun cur' hcur' => hloads.imp (hcur'.unique ·) (hcur'.unique ·)⟩

end Env

/-! ## A small session -/

/-- The volume before the first journal write. -/
def journalVolume : Volume := volumeOf [] [[".bmx-update", "transaction"]]

/-- The record the session writes first. -/
def firstRecord : JournalRecord := makeIdleJournalRecord 1

/-- The record the session is interrupted at. -/
def secondRecord : JournalRecord :=
  managedEnv.discoveredRecord firstRecord (stepLayout managedEnv.asset)

/-- The volume with the first record written. -/
def firstVolume : Volume :=
  (managedEnv.journalWrite none firstRecord .initial ⟨journalVolume, []⟩).disk

/-- An interrupted second write leaves one of the two records. -/
theorem journal_crash_atomic_small :
    let cut := (managedEnv.journalWrite (some (firstRecord, .a)) secondRecord
      ⟨some (firstRecord, .a), false, none⟩ ⟨firstVolume, [.ok, .ok, .ok, .cut 7]⟩).disk
    managedEnv.Loads cut (some (firstRecord, .a)) ∨
      managedEnv.Loads cut (some (secondRecord, .b)) := by
  have hstart : managedEnv.JournalSession journalVolume none :=
    .start (Env.loads_iff.mpr fun slot => by cases slot <;> decide)
  have hfirst : managedEnv.JournalSession firstVolume (some (firstRecord, .a)) :=
    .wrote [] hstart ⟨by decide +kernel, by simp⟩ ⟨rfl, rfl⟩ (by decide +kernel)
  refine ((Env.journal_crash_atomic hfirst).2 secondRecord _ ⟨by decide, ?_⟩
    ⟨_, _, ⟨rfl, rfl⟩, ?_, Or.inr (Or.inl ?_), fun _ _ => rfl⟩).1 (Or.inl (by simp))
  · rintro r slot ⟨⟩
    decide
  · decide +kernel
  · decide +kernel

end BmxUpdate
