import BmxUpdate.Installer.JournalStore
import BmxUpdate.Installer.Helpers

/-!
# The journal pair

The two journal files always hold one record that is newest: the slot it was
written to holds it, and the other slot holds nothing a load could prefer
(`JournalPair`).  A write goes to that other slot, so losing it, or finding
bytes there that nothing parses, falls back to the record before the write.

`journal_crash_atomic` says so for every sequence of accepted writes, each of
which may be cut at any operation and leave its slot in any of those states.
-/

namespace BmxUpdate

open Crash Volumes Wire

/-! ## What is loaded -/

/-- The bytes `ReadJournalFile` finds at a node. -/
def journalCopyOf : Option Node → Option Bytes
  | none => none
  | some (.file content) =>
      if content.length = kJournalEncodedSize then some content else some unreadableJournal
  | some .directory => some unreadableJournal

theorem parseJournal_unreadableJournal : parseJournal unreadableJournal = .error .badMagic := by
  decide +kernel

@[simp] theorem JournalSlot.other_other (slot : JournalSlot) : slot.other.other = slot := by
  cases slot <;> rfl

namespace Env

variable (env : Env)

/-- The record in a slot, if there is a valid one. -/
def recordAt (d : Volume) (slot : JournalSlot) : Option JournalRecord :=
  copyRecord ((journalCopyOf (d.nodeAt (env.journalPath slot))).map parseJournal)

/-- The pair of journal files has a newest record and its slot, or no record
because neither file is there. -/
def JournalPair (d : Volume) : Option (JournalRecord × JournalSlot) → Prop
  | none => ∀ slot, d.nodeAt (env.journalPath slot) = none
  | some (r, slot) => env.recordAt d slot = some r ∧
      ∀ r', env.recordAt d slot.other = some r' →
        r'.generation < r.generation ∨ slot = .a ∧ r' = r

/-- What a selection makes the engine's current record. -/
def loaded (selection : JournalSelectionResult) : Option (Option (JournalRecord × JournalSlot)) :=
  match selection.status, selection.record with
  | .noJournal, _ => some none
  | .noValidCopy, _ => none
  | .ambiguousSameGeneration, _ => none
  | .selectedB, some r => some (some (r, .b))
  | _, some r => some (some (r, .a))
  | _, none => none

variable {env}

theorem journalCopyOf_eq_none {node : Option Node} : journalCopyOf node = none ↔ node = none := by
  rcases node with _ | content | _
  · simp [journalCopyOf]
  · simp only [journalCopyOf, reduceCtorEq, iff_false]
    split <;> simp
  · simp [journalCopyOf]

/-- The newer of two valid records and its slot; of two equal ones the first. -/
def newer (recordA recordB : JournalRecord) : Option (JournalRecord × JournalSlot) :=
  if recordA.generation = recordB.generation then
    if recordA = recordB then some (recordA, .a) else none
  else if recordB.generation < recordA.generation then some (recordA, .a)
  else some (recordB, .b)

/-- The selection in terms of the records in the two slots. -/
theorem loaded_selectJournalCopy_eq (copyA copyB : Option Bytes) :
    loaded (selectJournalCopy copyA copyB) =
      match copyRecord (copyA.map parseJournal), copyRecord (copyB.map parseJournal) with
      | none, none => if copyA = none ∧ copyB = none then some none else none
      | some recordA, none => some (some (recordA, .a))
      | none, some recordB => some (some (recordB, .b))
      | some recordA, some recordB => (newer recordA recordB).map some := by
  have hmissing : copyA = none → copyB = none →
      copyRecord (copyA.map parseJournal) = none ∧
        copyRecord (copyB.map parseJournal) = none := by
    rintro rfl rfl
    exact ⟨rfl, rfl⟩
  unfold selectJournalCopy
  dsimp only
  generalize copyRecord (copyA.map parseJournal) = recordA at *
  generalize copyRecord (copyB.map parseJournal) = recordB at *
  rcases recordA with _ | recordA <;> rcases recordB with _ | recordB
  case none.none => rcases copyA with _ | _ <;> rcases copyB with _ | _ <;> rfl
  all_goals
    rcases copyA with _ | bytesA <;> rcases copyB with _ | bytesB
    case none.none => simp at hmissing
    all_goals dsimp only [newer]
  all_goals first | rfl | skip
  all_goals
    simp only [journalRecordsEqual_iff]
    split_ifs <;> rfl

theorem newer_eq_some_iff {recordA recordB r : JournalRecord} {slot : JournalSlot} :
    newer recordA recordB = some (r, slot) ↔
      (slot = .a ∧ recordA = r ∧ (recordB.generation < r.generation ∨ recordB = r)) ∨
        (slot = .b ∧ recordB = r ∧ recordA.generation < r.generation) := by
  unfold newer
  grind

theorem journalPair_none_iff {d : Volume} : env.JournalPair d none ↔
    journalCopyOf (d.nodeAt (env.journalPath .a)) = none ∧
      journalCopyOf (d.nodeAt (env.journalPath .b)) = none := by
  simp only [journalCopyOf_eq_none]
  exact ⟨fun h => ⟨h .a, h .b⟩, fun h slot => by cases slot; exacts [h.1, h.2]⟩

/-- A load selects the newest record of the pair. -/
theorem loaded_eq_some_iff {d : Volume} {cur : Option (JournalRecord × JournalSlot)} :
    loaded (selectJournalCopy (journalCopyOf (d.nodeAt (env.journalPath .a)))
      (journalCopyOf (d.nodeAt (env.journalPath .b)))) = some cur ↔ env.JournalPair d cur := by
  rw [loaded_selectJournalCopy_eq]
  have hnone : journalCopyOf (d.nodeAt (env.journalPath .a)) = none →
      journalCopyOf (d.nodeAt (env.journalPath .b)) = none →
      env.recordAt d .a = none ∧ env.recordAt d .b = none := by
    intro ha hb
    simp [recordAt, ha, hb, copyRecord]
  change (match env.recordAt d .a, env.recordAt d .b with
    | none, none => _
    | some recordA, none => _
    | none, some recordB => _
    | some recordA, some recordB => _) = some cur ↔ _
  rcases cur with _ | ⟨r, slot⟩
  · rw [journalPair_none_iff]
    cases hrecordA : env.recordAt d .a <;> cases hrecordB : env.recordAt d .b <;>
      grind [Option.map_eq_some_iff]
  · cases slot <;> simp only [JournalPair, JournalSlot.other] <;>
      cases hrecordA : env.recordAt d .a <;> cases hrecordB : env.recordAt d .b <;>
      grind [newer_eq_some_iff, Option.map_eq_some_iff]

/-- A pair of journal files has one newest record. -/
theorem JournalPair.unique {d : Volume} {cur cur' : Option (JournalRecord × JournalSlot)}
    (h : env.JournalPair d cur) (h' : env.JournalPair d cur') : cur = cur' :=
  Option.some.inj ((loaded_eq_some_iff.mpr h).symm.trans (loaded_eq_some_iff.mpr h'))

/-- The pair depends on the two journal files only. -/
theorem JournalPair.of_nodeAt {d d' : Volume} {cur : Option (JournalRecord × JournalSlot)}
    (h : env.JournalPair d cur)
    (hsame : ∀ slot, d'.nodeAt (env.journalPath slot) = d.nodeAt (env.journalPath slot)) :
    env.JournalPair d' cur := by
  rw [← loaded_eq_some_iff] at h ⊢
  rwa [hsame, hsame]

/-! ## Loading -/

section Specs

variable {allow : Fault → Prop} {I : Volume → Prop} {s : EngineState} {d : Volume}

theorem keeps_readJournalFile {E : InstallerFailure → Prop} {path : Path}
    {Q : Option Bytes → EngineState → Volume → Prop} (hI : I d)
    (hfine : Fine allow s) (h : Q (journalCopyOf (d.nodeAt path)) s d) :
    keeps allow I E (readJournalFile path) Q s d := by
  refine keeps_bind (keeps_orElse (keeps_stat (E := noError) hI ?_) (fun _ h => h.elim))
  rcases hnode : d.nodeAt path with _ | content | _
  · rw [hnode] at h
    exact keeps_pure h
  · rw [hnode] at h
    simp only [statOf, reduceCtorEq, if_false, ne_eq, not_true, false_or]
    by_cases hsize : content.length = kJournalEncodedSize
    · rw [if_neg (not_not.mpr hsize)]
      have hfile : d.fileAt path = some content := Volume.fileAt_eq_some_iff.mpr hnode
      refine keeps_bind (keeps_orElse (keeps_readFile (E := noError) hI (by simp [hfile])
        fun bytes hbytes => ?_) (fun _ h => h.elim))
      rw [hfile] at hbytes
      cases hbytes
      refine keeps_bind (keeps_orElse (keeps_progress (E := noError) hI hfine ?_)
        (fun _ h => h.elim))
      refine keeps_pure ?_
      rwa [journalCopyOf, if_pos hsize] at h
    · rw [if_pos hsize]
      refine keeps_pure ?_
      rwa [journalCopyOf, if_neg hsize] at h
  · rw [hnode] at h
    exact keeps_pure h

/-- A load of a pair in order makes its newest record current. -/
theorem keeps_loadJournal {E : InstallerFailure → Prop} {Q : Unit → EngineState → Volume → Prop}
    {allowMissing : Bool} {cur : Option (JournalRecord × JournalSlot)} (hI : I d)
    (hfine : Fine allow s) (hpair : env.JournalPair d cur)
    (hmissing : cur = none → allowMissing = false → E .wrongState)
    (h : (cur = none → allowMissing = true) → Q () { s with journal := cur } d) :
    keeps allow I E (env.loadJournal allowMissing) Q s d := by
  refine keeps_bind (keeps_readJournalFile hI hfine (keeps_bind
    (keeps_readJournalFile hI hfine ?_)))
  have hloaded := loaded_eq_some_iff.mpr hpair
  generalize selectJournalCopy _ _ = selection at hloaded
  obtain ⟨status, statusA, statusB, record⟩ := selection
  cases status <;> cases record <;> simp only [loaded, Option.some.injEq, reduceCtorEq] at hloaded
  case noJournal.none | noJournal.some =>
      subst hloaded
      refine keeps_bind (keeps_modify ?_)
      cases allowMissing with
      | true => exact keeps_pure (h fun _ => rfl)
      | false => exact keeps_throw hI (hmissing rfl rfl)
  all_goals
    subst hloaded
    exact keeps_modify (h (by simp))

/-- A load that returns found a pair in order. -/
theorem keeps_loadJournal_any (allowMissing : Bool) (hfine : Fine allow s) :
    keeps allow (fun d' => d' = d) anyError (env.loadJournal allowMissing)
      (fun _ s' d' => d' = d ∧ ∃ cur, env.JournalPair d cur ∧ s' = { s with journal := cur })
      s d := by
  by_cases hpair : ∃ cur, env.JournalPair d cur
  · obtain ⟨cur, hcur⟩ := hpair
    exact keeps_loadJournal rfl hfine hcur (fun _ _ => trivial) fun _ => ⟨rfl, cur, hcur, rfl⟩
  refine keeps_bind (keeps_readJournalFile rfl hfine (keeps_bind
    (keeps_readJournalFile rfl hfine ?_)))
  have hloaded : loaded (selectJournalCopy (journalCopyOf (d.nodeAt (env.journalPath .a)))
      (journalCopyOf (d.nodeAt (env.journalPath .b)))) = none := by
    rw [Option.eq_none_iff_forall_ne_some]
    exact fun cur h => hpair ⟨cur, loaded_eq_some_iff.mp h⟩
  generalize selectJournalCopy _ _ = selection at hloaded
  obtain ⟨status, statusA, statusB, record⟩ := selection
  cases status <;> cases record <;> simp only [loaded, reduceCtorEq] at hloaded
  all_goals exact keeps_throw rfl trivial

/-! ## Writing -/

/-- The node of a journal file that holds a record. -/
def recordNode (r : JournalRecord) : Option Node := (serializeJournal r).map Node.file

/-- What a journal write needs to succeed. -/
structure CanWrite (env : Env) (next : JournalRecord) (slot : JournalSlot) (d : Volume) : Prop where
  valid : RecordIsValid next
  root : d.nodeAt env.root = some .directory
  temporary : d.nodeAt env.journalTemp ≠ some .directory
  destination : d.nodeAt (env.journalPath slot) ≠ some .directory

/-- A volume on which a record may be written to a slot or not. -/
structure Writing (env : Env) (next : JournalRecord) (slot : JournalSlot) (d d' : Volume) :
    Prop where
  temporary : d'.nodeAt env.journalTemp = some .directory →
    d.nodeAt env.journalTemp = some .directory
  destination : d'.nodeAt (env.journalPath slot) = d.nodeAt (env.journalPath slot) ∨
    RecordIsValid next ∧ d'.nodeAt (env.journalPath slot) = recordNode next
  other : ∀ q, q ≠ env.journalTemp → q ≠ env.journalPath slot → d'.nodeAt q = d.nodeAt q

/-- The volume after a record was written to a slot. -/
def Written (env : Env) (next : JournalRecord) (slot : JournalSlot) (d d' : Volume) : Prop :=
  ∀ q, d'.nodeAt q = if q = env.journalTemp then none
    else if q = env.journalPath slot then recordNode next else d.nodeAt q

theorem journalPath_ne_journalTemp (slot : JournalSlot) :
    env.journalPath slot ≠ env.journalTemp := by
  cases slot <;> simp [journalPath, journalTemp]

theorem journalPath_other_ne (slot : JournalSlot) :
    env.journalPath slot.other ≠ env.journalPath slot := by
  cases slot <;> simp [journalPath, JournalSlot.other]

theorem root_ne_journalTemp : env.root ≠ env.journalTemp := by
  simp [journalTemp]

theorem root_ne_journalPath (slot : JournalSlot) : env.root ≠ env.journalPath slot := by
  cases slot <;> simp [journalPath]

theorem Writing.refl (next : JournalRecord) (slot : JournalSlot) (d : Volume) :
    env.Writing next slot d d :=
  ⟨id, Or.inl rfl, fun _ _ _ => rfl⟩

/-- A change of the temporary file alone. -/
theorem Writing.temp {next : JournalRecord} {slot : JournalSlot} {d d' d'' : Volume}
    (h : env.Writing next slot d d') {node : Option Node} (hnode : node ≠ some .directory)
    (hd'' : Updates d' env.journalTemp node d'') : env.Writing next slot d d'' where
  temporary := by
    rw [hd'', if_pos rfl]
    exact fun hdirectory => absurd hdirectory hnode
  destination := by
    rw [hd'', if_neg (journalPath_ne_journalTemp slot)]
    exact h.destination
  other := fun q hq hq' => by
    rw [hd'', if_neg hq]
    exact h.other q hq hq'

theorem Written.writing {next : JournalRecord} {slot : JournalSlot} {d d' : Volume}
    (h : env.Written next slot d d') (hvalid : RecordIsValid next) :
    env.Writing next slot d d' where
  temporary := by simp [h _]
  destination := Or.inr ⟨hvalid, by
    rw [h, if_neg (journalPath_ne_journalTemp slot), if_pos rfl]⟩
  other := fun q hq hq' => by rw [h, if_neg hq, if_neg hq']

/-- The part of a journal write that moves the temporary file into place. -/
theorem keeps_publishJournal {E : Unit → Prop} {next : JournalRecord} {slot : JournalSlot}
    {encoded : Bytes} {d' : Volume} (hencoded : serializeJournal next = some encoded)
    (hcan : ¬env.CanWrite next slot d → E ())
    (hd' : Updates d env.journalTemp (some (.file [])) d') :
    keeps allow (env.Writing next slot d) E
      (env.publishJournal encoded (env.journalPath slot))
      (fun _ s' d'' => s' = s ∧ env.Written next slot d d'') s d' := by
  have hvalid := recordIsValid_of_parseJournal (parseJournal_serializeJournal hencoded)
  have hI := (Writing.refl next slot d).temp (by simp) hd'
  unfold publishJournal
  refine keeps_bind (keeps_write hI ?_ ?_ fun d₁ hd₁ => ?_)
  · intro hnone
    simp [Volume.fileAt, hd' env.journalTemp] at hnone
  · exact fun n d₁ hd₁ => hI.temp (by simp) hd₁
  have hI₁ := hI.temp (by simp) hd₁
  refine keeps_bind (keeps_barrier hI₁ (keeps_bind (keeps_barrier hI₁ (keeps_bind ?_))))
  refine keeps_rename hI₁ (fun hrefused => hcan fun hcan => hrefused ?_) ?_
  · have hroot : (env.journalPath slot).dropLast = env.root := by
      cases slot <;> simp [journalPath]
    refine ⟨by simp [Volume.fileAt, hd₁ env.journalTemp],
      (journalPath_ne_journalTemp slot).symm, ?_, ?_, fun _ => rfl⟩
    · rw [hroot, hd₁, if_neg root_ne_journalTemp, hd', if_neg root_ne_journalTemp, hcan.root]
    · rw [hd₁, if_neg (journalPath_ne_journalTemp slot), hd',
        if_neg (journalPath_ne_journalTemp slot)]
      exact hcan.destination
  · rintro content d₂ hcontent - hd₂
    rw [Volume.fileAt_eq_some_iff, hd₁, if_pos rfl] at hcontent
    cases hcontent
    have hwritten : env.Written next slot d d₂ := by
      intro q
      rw [hd₂ q]
      split_ifs with htemp _
      · rfl
      · simp [recordNode, hencoded]
      · rw [hd₁, if_neg htemp, hd', if_neg htemp]
    exact ⟨hwritten.writing hvalid,
      keeps_syncContainingDirectory (hwritten.writing hvalid) ⟨rfl, hwritten⟩⟩

/-- `WriteJournalBytes` writes the record as a whole or not at all. -/
theorem keeps_writeJournalBytes {E : InstallerFailure → Prop}
    {Q : Unit → EngineState → Volume → Prop} {next : JournalRecord} {slot : JournalSlot}
    (hfine : Fine allow s) (hcan : ¬env.CanWrite next slot d → ∀ e, E e)
    (hI : ∀ d', env.Writing next slot d d' → I d')
    (h : ∀ d', RecordIsValid next → env.Written next slot d d' →
      Q () { s with journal := some (next, slot) } d') :
    keeps allow I E (env.writeJournalBytes next slot) Q s d := by
  have hrefl : env.Writing next slot d d := .refl next slot d
  refine keeps_mono (I := env.Writing next slot d) ?_ hI (fun _ h => h) (fun _ _ _ h => h)
  unfold writeJournalBytes
  cases hencoded : serializeJournal next with
  | none =>
      refine keeps_throw hrefl (hcan (fun hcan => ?_) _)
      simp [serializeJournal, hcan.valid] at hencoded
  | some encoded =>
  have hparse := parseJournal_serializeJournal hencoded
  have hvalid := recordIsValid_of_parseJournal hparse
  have hroot : env.journalTemp.dropLast = env.root := by simp [journalTemp]
  -- The temporary file is created afresh.
  refine keeps_bind (keeps_orElse (E := fun _ => ¬env.CanWrite next slot d)
    (keeps_removeIfPresent hrefl (fun hdirectory hcan => hcan.temporary hdirectory)
      fun d₁ _ hd₁ => ?_) fun _ hnot => hcan hnot _)
  have hI₁ := hrefl.temp (by simp) hd₁
  refine ⟨hI₁, keeps_bind (keeps_orElse (E := fun _ => ¬env.CanWrite next slot d)
    (keeps_createFileFresh hI₁ (fun hrefused hcan => hrefused ⟨?_, ?_⟩) fun d₂ _ hd₂ => ?_)
    fun _ hnot => hcan hnot _)⟩
  · rw [hroot, hd₁, if_neg root_ne_journalTemp, hcan.root]
  · rw [hd₁, if_pos rfl]
  have hget : Updates d env.journalTemp (some (.file [])) d₂ := by
    intro q
    rw [hd₂ q]
    split_ifs with hq
    · rfl
    · rw [hd₁ q, if_neg hq]
  -- It is filled and moved into place, or removed again.
  refine ⟨hrefl.temp (by simp) hget, keeps_bind (keeps_orElse
    (E := fun _ => ¬env.CanWrite next slot d) (keeps_withCleanup (keeps_done
      (keeps_publishJournal hencoded (fun hnot => hnot) hget) ?_) ?_) fun _ hnot => hcan hnot _)⟩
  · -- The record is read back.
    rintro _ _ d' ⟨rfl, hwritten⟩
    have hI' := hwritten.writing hvalid
    have hnode : journalCopyOf (d'.nodeAt (env.journalPath slot)) = some encoded := by
      rw [hwritten, if_neg (journalPath_ne_journalTemp slot), if_pos rfl, recordNode, hencoded]
      simp [journalCopyOf, length_serializeJournal hencoded]
    refine keeps_bind (keeps_orElse (E := noError) (keeps_readJournalFile hI' hfine ?_)
      fun _ h => h.elim)
    rw [hnode]
    refine keeps_bind (keeps_check (fun hbad => absurd (by simp [hparse]) hbad) fun _ => ?_)
    refine keeps_bind (keeps_modify (keeps_orElse (E := noError)
      (keeps_progress hI' hfine (h d' hvalid hwritten)) fun _ h => h.elim))
  · exact fun s' d' hd' => keeps_cleanup hd' fun d'' hd'' => hd'.temp (by simp) hd''

end Specs

/-- A record that may follow another one is newer. -/
theorem generation_lt_of_allowed {r next : JournalRecord}
    (h : validateJournalTransition r next = .allowed) : r.generation < next.generation := by
  have hallowed := validateJournalTransition_eq_allowed_iff.mp h
  have hmax := hallowed.current_valid.1.2.1
  rw [hallowed.generation, UInt64.lt_iff_toNat_lt, UInt64.toNat_add]
  have hne : r.generation.toNat ≠ 2 ^ 64 - 1 := fun h => hmax (UInt64.toNat_inj.mp h)
  have hlt := r.generation.toNat_lt
  simp only [UInt64.toNat_one]
  omega

/-! ## Torn slots -/

/-- What the slot of an interrupted write can be found with: nothing, what it
held before, the whole record, or bytes that nothing parses. -/
def TornSlot (next : JournalRecord) (before after : Option Node) : Prop :=
  after = none ∨ after = before ∨ RecordIsValid next ∧ after = recordNode next ∨
    ∃ content, after = some (.file content) ∧ ∀ r, parseJournal content ≠ .ok r

/-- A volume on which one journal file may be torn. -/
structure Torn (env : Env) (next : JournalRecord) (slot : JournalSlot) (d d' : Volume) : Prop where
  torn : TornSlot next (d.nodeAt (env.journalPath slot)) (d'.nodeAt (env.journalPath slot))
  other : d'.nodeAt (env.journalPath slot.other) = d.nodeAt (env.journalPath slot.other)

theorem Writing.torn {next : JournalRecord} {slot : JournalSlot} {d d' : Volume}
    (h : env.Writing next slot d d') : env.Torn next slot d d' where
  torn := h.destination.elim (fun h => Or.inr (Or.inl h)) fun h => Or.inr (Or.inr (Or.inl h))
  other := h.other _ (journalPath_ne_journalTemp _) (journalPath_other_ne slot)

theorem recordAt_eq_of_nodeAt {d d' : Volume} {slot : JournalSlot}
    (h : d'.nodeAt (env.journalPath slot) = d.nodeAt (env.journalPath slot)) :
    env.recordAt d' slot = env.recordAt d slot := by
  rw [recordAt, recordAt, h]

theorem recordAt_missing {d : Volume} {slot : JournalSlot}
    (h : d.nodeAt (env.journalPath slot) = none) : env.recordAt d slot = none := by
  simp [recordAt, h, journalCopyOf, copyRecord]

theorem recordAt_recordNode {d : Volume} {next : JournalRecord} {slot : JournalSlot}
    (hvalid : RecordIsValid next) (h : d.nodeAt (env.journalPath slot) = recordNode next) :
    env.recordAt d slot = some next := by
  obtain ⟨encoded, hencoded⟩ : ∃ encoded, serializeJournal next = some encoded := by
    simp [serializeJournal, hvalid]
  simp [recordAt, h, recordNode, hencoded, journalCopyOf, length_serializeJournal hencoded,
    parseJournal_serializeJournal hencoded, copyRecord]

theorem recordAt_rejected {d : Volume} {slot : JournalSlot} {content : Content}
    (h : d.nodeAt (env.journalPath slot) = some (.file content))
    (hrejected : ∀ r, parseJournal content ≠ .ok r) : env.recordAt d slot = none := by
  rw [recordAt, h, journalCopyOf]
  split
  · cases hparse : parseJournal content with
    | ok r => exact absurd hparse (hrejected r)
    | error status => simp [hparse, copyRecord]
  · simp [parseJournal_unreadableJournal, copyRecord]

/-- A torn write leaves the record before it or its own. -/
theorem JournalPair.torn {d d' : Volume} {r next : JournalRecord} {slot : JournalSlot}
    (h : env.JournalPair d (some (r, slot))) (hnext : r.generation < next.generation)
    (htorn : env.Torn next slot.other d d') :
    env.JournalPair d' (some (r, slot)) ∨ env.JournalPair d' (some (next, slot.other)) := by
  obtain ⟨hr, hother⟩ := h
  have hr' : env.recordAt d' slot = some r := by
    rw [← hr]
    exact recordAt_eq_of_nodeAt (by simpa using htorn.other)
  rcases htorn.torn with hnone | hsame | ⟨hvalid, hnew⟩ | ⟨content, hfile, hrejected⟩
  · left
    exact ⟨hr', by simp [recordAt_missing hnone]⟩
  · left
    exact ⟨hr', by rwa [recordAt_eq_of_nodeAt hsame]⟩
  · right
    refine ⟨recordAt_recordNode hvalid hnew, fun r' h' => Or.inl ?_⟩
    rw [JournalSlot.other_other, hr'] at h'
    exact Option.some.inj h' ▸ hnext
  · left
    exact ⟨hr', by simp [recordAt_rejected hfile hrejected]⟩

/-- A torn first write leaves no journal, its own record, or nothing to load. -/
theorem JournalPair.torn_initial {d d' : Volume} {next : JournalRecord}
    (h : env.JournalPair d none) (htorn : env.Torn next .a d d')
    {cur : Option (JournalRecord × JournalSlot)} (hcur : env.JournalPair d' cur) :
    cur = none ∨ cur = some (next, .a) := by
  have hb : env.recordAt d' .b = none := recordAt_missing (htorn.other.trans (h .b))
  rcases cur with _ | ⟨r, slot⟩
  · exact Or.inl rfl
  right
  obtain ⟨hr, -⟩ := hcur
  cases slot with
  | b => simp [hb] at hr
  | a =>
      rcases htorn.torn with hnone | hsame | ⟨hvalid, hnew⟩ | ⟨content, hfile, hrejected⟩
      · simp [recordAt_missing hnone] at hr
      · simp [recordAt_missing (hsame.trans (h .a))] at hr
      · rw [recordAt_recordNode hvalid hnew] at hr
        rw [Option.some.inj hr]
      · simp [recordAt_rejected hfile hrejected] at hr

/-- A finished write leaves its own record. -/
theorem JournalPair.written {d d' : Volume} {cur : Option (JournalRecord × JournalSlot)}
    {next : JournalRecord} (h : env.JournalPair d cur) (hvalid : RecordIsValid next)
    (hnext : ∀ r slot, cur = some (r, slot) → r.generation < next.generation)
    {slot : JournalSlot} (hslot : slot = (cur.map (·.2.other)).getD .a)
    (hwritten : env.Written next slot d d') : env.JournalPair d' (some (next, slot)) := by
  have hnode : d'.nodeAt (env.journalPath slot) = recordNode next := by
    rw [hwritten, if_neg (journalPath_ne_journalTemp slot), if_pos rfl]
  have hother : env.recordAt d' slot.other = env.recordAt d slot.other := by
    refine recordAt_eq_of_nodeAt ?_
    rw [hwritten, if_neg (journalPath_ne_journalTemp _), if_neg (journalPath_other_ne slot)]
  refine ⟨recordAt_recordNode hvalid hnode, fun r' h' => Or.inl ?_⟩
  rw [hother] at h'
  rcases cur with _ | ⟨r, slot₀⟩
  · simp [recordAt_missing (h slot.other)] at h'
  · obtain rfl : slot = slot₀.other := hslot
    rw [JournalSlot.other_other, h.1] at h'
    exact Option.some.inj h' ▸ hnext r slot₀ rfl

end Env

end BmxUpdate
