import BmxUpdate.LocalLog.Store

/-!
# The local log over its history

Which appends a log has, whatever became of the calls that made them.

* `Logged history` says how the slots look: the newest page in one, and in the other
  nothing or the page of a shorter history.
* `loads_loadCurrent` reads that state back, and `keeps_stageRecord` carries it up to the
  rename, with the page of one entry more in the temporary file.
* `logged_call` is the step: the slots after a call, cut or failed ones included, hold
  the history before it, or that history and the entry of the call where its rename
  happened.
* `log_crash_safe` follows by induction on the calls.
-/

namespace BmxUpdate

namespace LocalLog

open Wire Crash Volumes

/-! ## The slots -/

/-- The newest page is in a slot, and the other slot has nothing or an older page. -/
structure Newest (history : List Entry) (slot : Slot) (d : Volume) : Prop where
  page : d.nodeAt slot.path = some (.file (pageOf history))
  older : d.nodeAt slot.other.path = none ∨ ∃ older, older ≠ [] ∧ Countable older ∧
    older.length < history.length ∧
    d.nodeAt slot.other.path = some (.file (pageOf older))

/-- The log holds a history. -/
structure Logged (history : List Entry) (d : Volume) : Prop where
  countable : Countable history
  none : history = [] → ∀ slot : Slot, d.nodeAt slot.path = none
  some : history ≠ [] → ∃ slot, Newest history slot d

/-- What `ParsePage` finds in the page of a history. -/
def infoOf (history : List Entry) : PageInfo :=
  ⟨UInt64.ofNat history.length, (keptRecords history).length,
    calculateCrc32 (pageBody (keptRecords history) (UInt64.ofNat history.length))⟩

theorem infoOf_generation (history : List Entry) :
    (infoOf history).generation = UInt64.ofNat history.length := by
  simp only [infoOf]

theorem infoOf_count (history : List Entry) :
    (infoOf history).count = (keptRecords history).length := by
  simp only [infoOf]

variable {history : List Entry} {entry : Entry} {d : Volume} {log : UpdateLocalLog}
  {allow : Fault → Prop}

/-- Neither slot has changed. -/
def SlotsAgree (d d' : Volume) : Prop := ∀ slot : Slot, d'.nodeAt slot.path = d.nodeAt slot.path

theorem Newest.of_agree {slot : Slot} {d' : Volume} (h : Newest history slot d)
    (hagree : SlotsAgree d d') : Newest history slot d' :=
  ⟨(hagree slot).trans h.page, by
    rw [hagree slot.other]
    exact h.older⟩

theorem Logged.of_agree {d' : Volume} (h : Logged history d) (hagree : SlotsAgree d d') :
    Logged history d' :=
  ⟨h.countable, fun hnil slot => (hagree slot).trans (h.none hnil slot), fun hne =>
    (h.some hne).imp fun _ hnewest => hnewest.of_agree hagree⟩

theorem agree_of_updates {path : Path} {node : Option Node} {d' : Volume}
    (h : Updates d path node d') (hpath : ∀ slot : Slot, slot.path ≠ path) : SlotsAgree d d' := by
  intro slot
  rw [h, if_neg (hpath slot)]

theorem slot_ne_root (slot : Slot) : slot.path ≠ kUpdateLocalLogRoot := by
  cases slot <;> decide

theorem slot_ne_temporary (slot : Slot) : slot.path ≠ kUpdateLocalLogTemporaryPath := by
  cases slot <;> decide

theorem slot_ne_other (slot : Slot) : slot.path ≠ slot.other.path := by
  cases slot <;> decide

/-! ## Loading -/

/-- What `InspectSlot` finds at a node. -/
def Inspects (node : Option Node) (info : SlotInfo) (page : Bytes) : Prop :=
  match node with
  | none => info = {}
  | some (.file content) => content.length = kUpdateLocalLogPageBytes →
      info = { present := true, page := parsePage content } ∧ page = content
  | some .directory => info = { present := true }

/-- A program that reads, and whose failures are in its result. -/
abbrev Reads {α : Type} (allow : Fault → Prop) (m : LogProc α) (d : Volume)
    (Q : α → UpdateLocalLog → Prop) (log : UpdateLocalLog) : Prop :=
  keeps allow (· = d) noError m (fun a after d' => d' = d ∧ Q a after) log d

theorem reads_attempt {α β : Type} {f : Volume → Option α} {k : Except Unit α → LogProc β}
    {Q : β → UpdateLocalLog → Prop} (hok : ∀ a, f d = some a → Reads allow (k (.ok a)) d Q log)
    (herror : MayFail allow ∨ f d = none → ∀ after, Reads allow (k (.error ())) d Q after) :
    Reads allow (Proc.attempt (η := Unit) (Proc.observe f) >>= k) d Q log := by
  refine keeps_bind (wp_attempt ?_)
  cases hf : f d with
  | none => exact wp_observe_refused hf (herror (Or.inr hf) log)
  | some a =>
      exact wp_observe hf (hok a hf) ⟨fun hcut => ⟨rfl, hcut⟩, fun hfail _ after =>
        herror (Or.inl hfail) after⟩

/-- A slot is read, or the information says that it was not. -/
theorem reads_inspectSlot (path : Path) :
    Reads allow (inspectSlot path) d (fun info after => info.ioError = true ∧ MayFail allow ∨
      Inspects (d.nodeAt path) info after.page) log := by
  refine reads_attempt (fun found hfound => ?_) fun hfail after => ?_
  · obtain rfl := Option.some.inj hfound
    cases hnode : d.nodeAt path with
    | none => exact keeps_pure ⟨rfl, Or.inr rfl⟩
    | some node =>
        cases node with
        | directory => exact keeps_pure ⟨rfl, Or.inr rfl⟩
        | file content =>
            have hfile : d.fileAt path = some content := Volume.fileAt_eq_some_iff.mpr hnode
            dsimp only [statOf]
            by_cases hlength : content.length = kUpdateLocalLogPageBytes
            · rw [if_neg (by decide), if_neg (by simp [hlength])]
              refine reads_attempt (fun found hfound => ?_) fun hfail after => ?_
              · rw [hfile] at hfound
                obtain rfl := Option.some.inj hfound
                dsimp only
                rw [if_neg (fun h => h hlength)]
                exact keeps_bind (keeps_modify (keeps_pure ⟨rfl, Or.inr fun _ => ⟨rfl, rfl⟩⟩))
              · rcases hfail with hfail | hnone
                · exact keeps_pure ⟨rfl, Or.inl ⟨rfl, hfail⟩⟩
                · rw [hfile] at hnone
                  cases hnone
            · rw [if_neg (by decide), if_pos (Or.inr hlength)]
              exact keeps_pure ⟨rfl, Or.inr fun h => absurd h hlength⟩
  · rcases hfail with hfail | hnone
    · exact keeps_pure ⟨rfl, Or.inl ⟨rfl, hfail⟩⟩
    · cases hnone

theorem reads_bind {α β : Type} {m : LogProc α} {k : α → LogProc β}
    {P : α → UpdateLocalLog → Prop} {Q : β → UpdateLocalLog → Prop}
    (hm : Reads allow m d P log) (hk : ∀ a after, P a after → Reads allow (k a) d Q after) :
    Reads allow (m >>= k) d Q log := by
  refine keeps_bind (keeps_done hm ?_)
  rintro a after d' ⟨rfl, hP⟩
  exact hk a after hP

theorem inspects_page {path : Path} {info : SlotInfo} {page : Bytes} (hne : history ≠ [])
    (hcountable : Countable history) (hnode : d.nodeAt path = some (.file (pageOf history)))
    (h : Inspects (d.nodeAt path) info page) :
    info = { present := true, page := some (infoOf history) } ∧ page = pageOf history := by
  rw [hnode] at h
  have hboth := h (length_pageOf history)
  rw [parsePage_pageOf hne hcountable] at hboth
  exact hboth

/-- What `LoadCurrent` returns of a log. -/
def Loads (allow : Fault → Prop) (history : List Entry) (d : Volume) (current : CurrentLog)
    (after : UpdateLocalLog) : Prop :=
  current.ioError = true ∧ MayFail allow ∨
    history = [] ∧ current = {} ∨
    history ≠ [] ∧ ∃ slot, Newest history slot d ∧ after.page = pageOf history ∧
      current = { selected := some slot, anyPresent := true,
                  generation := UInt64.ofNat history.length,
                  count := (keptRecords history).length }

theorem reads_loadSelected {slot : Slot} (hne : history ≠ []) (hcountable : Countable history)
    (h : Newest history slot d) :
    Reads allow (loadSelected true slot) d (Loads allow history d) log := by
  refine reads_bind (reads_inspectSlot slot.path) fun info after hinfo => ?_
  rcases hinfo with ⟨hio, hfail⟩ | hinspects
  · split
    · rw [hio, if_pos rfl]
      exact keeps_pure ⟨rfl, Or.inl ⟨rfl, hfail⟩⟩
    · exact keeps_pure ⟨rfl, Or.inl ⟨rfl, hfail⟩⟩
  · obtain ⟨rfl, hpage⟩ := inspects_page hne hcountable h.page hinspects
    dsimp only
    rw [if_neg (by simp), infoOf_generation, infoOf_count]
    exact keeps_pure ⟨rfl, Or.inr (Or.inr ⟨hne, slot, h, hpage, rfl⟩)⟩

theorem ofNat_lt {m n : Nat} (hmn : m < n) (hn : n < 2 ^ 64) :
    UInt64.ofNat m < UInt64.ofNat n := by
  rw [UInt64.lt_iff_toNat_lt, UInt64.toNat_ofNat_of_lt' (hmn.trans hn),
    UInt64.toNat_ofNat_of_lt' hn]
  exact hmn

/-- The newer of two pages is selected. -/
theorem reads_selectSlot {slot : Slot} {a b : SlotInfo} {pageA pageB : Bytes}
    (hne : history ≠ []) (hcountable : Countable history) (h : Newest history slot d)
    (ha : Inspects (d.nodeAt kUpdateLocalLogPathA) a pageA)
    (hb : Inspects (d.nodeAt kUpdateLocalLogPathB) b pageB) :
    Reads allow (selectSlot a b) d (Loads allow history d) log := by
  cases slot with
  | a =>
      obtain ⟨rfl, -⟩ := inspects_page hne hcountable h.page ha
      rcases h.older with hnone | ⟨older, holder, hcount, hless, hnode⟩
      · have hmissing : d.nodeAt kUpdateLocalLogPathB = none := hnone
        rw [hmissing] at hb
        obtain rfl : b = {} := hb
        exact reads_loadSelected hne hcountable h
      · obtain ⟨rfl, -⟩ := inspects_page holder hcount hnode hb
        have hlt := ofNat_lt hless hcountable.length
        unfold selectSlot
        dsimp only
        rw [if_neg (by simp), if_neg, if_pos]
        · exact reads_loadSelected hne hcountable h
        · exact hlt
        · rw [infoOf_generation, infoOf_generation]
          exact fun heq => UInt64.lt_irrefl _ (heq ▸ hlt)
  | b =>
      obtain ⟨rfl, -⟩ := inspects_page hne hcountable h.page hb
      rcases h.older with hnone | ⟨older, holder, hcount, hless, hnode⟩
      · have hmissing : d.nodeAt kUpdateLocalLogPathA = none := hnone
        rw [hmissing] at ha
        obtain rfl : a = {} := ha
        exact reads_loadSelected hne hcountable h
      · obtain ⟨rfl, -⟩ := inspects_page holder hcount hnode ha
        have hlt := ofNat_lt hless hcountable.length
        unfold selectSlot
        dsimp only
        rw [if_neg (by simp), if_neg, if_neg]
        · exact reads_loadSelected hne hcountable h
        · rw [infoOf_generation, infoOf_generation]
          exact fun hgt => UInt64.lt_irrefl _ (UInt64.lt_trans hgt hlt)
        · rw [infoOf_generation, infoOf_generation]
          exact fun heq => UInt64.lt_irrefl _ (heq ▸ hlt)

/-- `LoadCurrent` finds the newest page of a log. -/
theorem reads_loadCurrent (h : Logged history d) :
    Reads allow loadCurrent d (Loads allow history d) log := by
  refine reads_bind (reads_inspectSlot _) fun a afterA ha => ?_
  refine reads_bind (reads_inspectSlot _) fun b afterB hb => ?_
  have hfailed : (a.ioError || b.ioError) = true → MayFail allow →
      Reads allow (selectSlot a b) d (Loads allow history d) afterB := by
    intro hio hfail
    unfold selectSlot
    dsimp only
    rw [if_pos hio]
    exact keeps_pure ⟨rfl, Or.inl ⟨rfl, hfail⟩⟩
  rcases ha with ⟨hio, hfail⟩ | ha
  · exact hfailed (by rw [hio]; rfl) hfail
  rcases hb with ⟨hio, hfail⟩ | hb
  · exact hfailed (by rw [hio]; exact Bool.or_true _) hfail
  by_cases hne : history = []
  · have hmissingA : d.nodeAt kUpdateLocalLogPathA = none := h.none hne .a
    have hmissingB : d.nodeAt kUpdateLocalLogPathB = none := h.none hne .b
    rw [hmissingA] at ha
    rw [hmissingB] at hb
    obtain rfl : a = {} := ha
    obtain rfl : b = {} := hb
    exact keeps_pure ⟨rfl, Or.inr (Or.inl ⟨hne, rfl⟩)⟩
  · obtain ⟨slot, hnewest⟩ := h.some hne
    exact reads_selectSlot hne h.countable hnewest ha hb

/-! ## Up to the rename -/

/-- A program that writes, under every fault: whatever becomes of it, the log holds the
history. -/
abbrev Holding {α : Type} (history : List Entry) (m : LogProc α)
    (Q : α → UpdateLocalLog → Volume → Prop) (log : UpdateLocalLog) (d : Volume) : Prop :=
  keeps anyFault (Logged history) anyError m Q log d

theorem holding_caught {α β : Type} {m : LogProc α} {k : Except Unit α → LogProc β}
    {P : α → UpdateLocalLog → Volume → Prop} {Q : β → UpdateLocalLog → Volume → Prop}
    (hm : Holding history m P log d)
    (hok : ∀ a after d', P a after d' → Holding history (k (.ok a)) Q after d')
    (herror : ∀ after d', Logged history d' → Holding history (k (.error ())) Q after d') :
    Holding history (Proc.attempt (η := Unit) m >>= k) Q log d :=
  keeps_bind (wp_attempt (wp_mono hm hok (fun _ after d' h => herror after d' h.1)
    fun _ h => h))

/-- What is read while the log holds the history. -/
theorem holding_of_reads {α : Type} {m : LogProc α} {P : α → UpdateLocalLog → Prop}
    (hm : Reads anyFault m d P log) (h : Logged history d) :
    Holding history m (fun a after d' => d' = d ∧ P a after) log d :=
  keeps_mono hm (fun _ heq => heq ▸ h) (fun _ _ => trivial) fun _ _ _ hQ => hQ

/-- The page of one entry more is in the buffer, and the target is the slot without the
newest page. -/
structure Ready (history : List Entry) (entry : Entry) (prepared : Prepared)
    (d : Volume) : Prop where
  logged : Logged history d
  countable : Countable (history ++ [entry])
  target : history ≠ [] → Newest history prepared.target.other d
  current : prepared.current.selected = none → prepared.current.anyPresent = false

theorem Ready.of_agree {prepared : Prepared} {d' : Volume} (h : Ready history entry prepared d)
    (hagree : SlotsAgree d d') : Ready history entry prepared d' :=
  ⟨h.logged.of_agree hagree, h.countable, fun hne => (h.target hne).of_agree hagree,
    h.current⟩

theorem holding_ensureRoot (h : Logged history d) :
    Holding history ensureRoot (fun _ _ => Logged history) log d := by
  refine keeps_bind (keeps_stat h ?_)
  refine keeps_ite (fun _ => keeps_pure h) fun _ => ?_
  refine keeps_bind (keeps_check (fun _ => ⟨h, trivial⟩) fun _ => ?_)
  refine keeps_bind (keeps_createDirectory h (fun _ => trivial) (fun _ => ?_) ?_)
  · exact keeps_syncContainingDirectory h h
  · intro d' _ hupdates
    have hnext := h.of_agree (agree_of_updates hupdates slot_ne_root)
    exact ⟨hnext, keeps_syncContainingDirectory hnext hnext⟩

theorem countable_append (h : Countable history) (hadmissible : entry.Admissible)
    (hgeneration : UInt64.ofNat history.length ≠ 0xffffffffffffffff) :
    Countable (history ++ [entry]) := by
  refine ⟨?_, fun other hother => ?_⟩
  · rw [List.length_append, List.length_singleton]
    have hlength := h.length
    have hne : history.length ≠ 2 ^ 64 - 1 := by
      intro heq
      exact hgeneration (by rw [heq]; rfl)
    omega
  · rcases List.mem_append.mp hother with hold | hnew
    · exact h.admissible other hold
    · rw [List.mem_singleton.mp hnew]
      exact hadmissible

theorem ofNat_succ (n : Nat) : UInt64.ofNat n + 1 = UInt64.ofNat (n + 1) :=
  (UInt64.ofNat_add n 1).symm

/-- What `Append` hands on about the page it has built. -/
theorem infoOf_append (history : List Entry) (entry : Entry) :
    (⟨UInt64.ofNat (history.length + 1), (keptRecords (history ++ [entry])).length,
      calculateCrc32 ((pageOf (history ++ [entry])).take kLogCrcOffset)⟩ : PageInfo) =
      infoOf (history ++ [entry]) := by
  have hbody : (pageOf (history ++ [entry])).take kLogCrcOffset =
      pageBody (keptRecords (history ++ [entry]))
        (UInt64.ofNat (history ++ [entry]).length) := by
    unfold pageOf pageWith
    exact List.take_left' (length_pageBody (length_keptRecords_le _))
  rw [hbody, infoOf, List.length_append, List.length_singleton]

/-- The page that `Append` builds over the one it loaded. -/
theorem built_page {selected : Bool} {count : Nat} {generation : UInt64} {page : Bytes}
    (hselected : selected = decide (history ≠ []))
    (hcount : count = (keptRecords history).length)
    (hgeneration : generation = UInt64.ofNat history.length)
    (hpage : history ≠ [] → page = pageOf history) :
    let room := makeRoom selected count page
    let built := writeRecord ⟨entry.scope, classifyCode entry.code, entry.code, generation + 1,
      entry.completed, entry.total⟩ room.2 room.1
    built = pageOf (history ++ [entry]) ∧
      (⟨generation + 1, room.2 + 1, calculateCrc32 (built.take kLogCrcOffset)⟩ : PageInfo) =
        infoOf (history ++ [entry]) := by
  rw [hselected, hcount, hgeneration]
  have hbuilt := @writeRecord_pageOf page history entry hpage
  unfold recordAt at hbuilt
  dsimp only at hbuilt ⊢
  rw [ofNat_succ, hbuilt.1, hbuilt.2]
  exact ⟨rfl, infoOf_append history entry⟩

theorem holding_preparePage (h : Logged history d) :
    Holding history (preparePage entry) (fun prepared after d' =>
      Ready history entry prepared d' ∧ after.page = pageOf (history ++ [entry]) ∧
        prepared.page = infoOf (history ++ [entry])) log d := by
  refine keeps_bind (keeps_check (fun _ => ⟨h, trivial⟩) fun hadmissible => ?_)
  refine keeps_bind (keeps_done (holding_ensureRoot h) fun _ after d' h => ?_)
  refine keeps_bind (keeps_done (holding_of_reads (reads_loadCurrent h) h) ?_)
  rintro current loaded d' ⟨rfl, hloads⟩
  refine keeps_bind (keeps_check (fun _ => ⟨h, trivial⟩) fun hchecked => ?_)
  refine keeps_bind (keeps_get (keeps_bind (keeps_modify (keeps_pure ?_))))
  rcases hloads with ⟨hio, -⟩ | ⟨rfl, rfl⟩ | ⟨hne, slot, hnewest, hpage, rfl⟩
  · rw [hchecked.1] at hio
    cases hio
  · obtain ⟨hbuilt, hinfo⟩ := @built_page [] entry false 0 0 loaded.page rfl
      (length_keptRecords []).symm rfl nofun
    exact ⟨⟨h, countable_append h.countable hadmissible hchecked.2, nofun, fun _ => rfl⟩,
      hbuilt, hinfo⟩
  · have hbuilt := @built_page history entry true (keptRecords history).length
      (UInt64.ofNat history.length) loaded.page (decide_eq_true hne).symm rfl rfl fun _ => hpage
    dsimp only at hbuilt hchecked
    dsimp only [Option.isSome_some]
    refine ⟨⟨h, countable_append h.countable hadmissible hchecked.2, fun _ => ?_, nofun⟩, ?_, ?_⟩
    · cases slot <;> exact hnewest
    · exact hbuilt.1
    · exact hbuilt.2

/-- The page of one entry more is in the temporary file, and the target is free. -/
structure Staged (history : List Entry) (entry : Entry) (prepared : Prepared)
    (d : Volume) : Prop extends Ready history entry prepared d where
  free : d.nodeAt prepared.target.path = none
  temporary : d.nodeAt kUpdateLocalLogTemporaryPath = some (.file (pageOf (history ++ [entry])))

/-- Removing the target leaves the newest page. -/
theorem Ready.removed {prepared : Prepared} {d' : Volume} (h : Ready history entry prepared d)
    (hupdates : Updates d prepared.target.path none d') : Ready history entry prepared d' := by
  have hfree : d'.nodeAt prepared.target.path = none := by
    rw [hupdates, if_pos rfl]
  have hother : ∀ target : Slot, target.other.other = target := fun target => by
    cases target <;> rfl
  have hnewest : history ≠ [] → Newest history prepared.target.other d' := by
    intro hne
    refine ⟨?_, Or.inl ?_⟩
    · rw [hupdates, if_neg (slot_ne_other _).symm]
      exact (h.target hne).page
    · rw [hother]
      exact hfree
  refine ⟨⟨h.logged.countable, fun hnil slot => ?_, fun hne => ⟨_, hnewest hne⟩⟩, h.countable,
    hnewest, h.current⟩
  rw [hupdates]
  split
  · rfl
  · exact h.logged.none hnil slot

theorem holding_stagePage {prepared : Prepared} (h : Ready history entry prepared d)
    (hpage : log.page = pageOf (history ++ [entry])) :
    Holding history (stagePage prepared.target prepared.page)
      (fun _ _ d' => Staged history entry prepared d') log d := by
  refine keeps_bind (keeps_removeFile h.logged (fun _ => trivial) fun d' hupdates => ?_)
  have h := h.of_agree (agree_of_updates hupdates slot_ne_temporary)
  refine ⟨h.logged, keeps_bind (keeps_syncContainingDirectory h.logged ?_)⟩
  refine keeps_bind (keeps_createFileFresh h.logged (fun _ => trivial) fun d' _ hupdates => ?_)
  have h := h.of_agree (agree_of_updates hupdates slot_ne_temporary)
  refine ⟨h.logged, keeps_bind (keeps_get ?_)⟩
  have hwrite : Holding history (do
      write kUpdateLocalLogTemporaryPath log.page
      barrier) (fun _ _ d' => Ready history entry prepared d' ∧
        d'.nodeAt kUpdateLocalLogTemporaryPath = some (.file (pageOf (history ++ [entry]))))
      log d' := by
    refine keeps_bind (keeps_write h.logged (fun _ => trivial) (fun _ d'' hupdates => ?_)
      fun d'' hupdates => ?_)
    · exact h.logged.of_agree (agree_of_updates hupdates slot_ne_temporary)
    · have h := h.of_agree (agree_of_updates hupdates slot_ne_temporary)
      refine keeps_barrier h.logged ⟨h, ?_⟩
      rw [hupdates, if_pos rfl, hpage]
  have hfail : ∀ after d', Logged history d' →
      Holding history (do
        let _ ← Proc.attempt (η := Unit) (removeFile kUpdateLocalLogTemporaryPath)
        Proc.throw ()) (fun (_ : Unit) _ d' => Staged history entry prepared d') after d' := by
    intro after d' hlogged
    refine holding_caught (P := fun _ _ => Logged history) ?_ ?_ ?_
    · refine keeps_removeFile hlogged (fun _ => trivial) fun d'' hupdates => ?_
      have hnext := hlogged.of_agree (agree_of_updates hupdates slot_ne_temporary)
      exact ⟨hnext, hnext⟩
    · exact fun _ _ _ hlogged => keeps_throw hlogged trivial
    · exact fun _ _ hlogged => keeps_throw hlogged trivial
  have hfinish : ∀ verified after d', Logged history d' → (verified = true →
      Ready history entry prepared d' ∧
        d'.nodeAt kUpdateLocalLogTemporaryPath = some (.file (pageOf (history ++ [entry])))) →
      Holding history (if verified = false then do
          let _ ← Proc.attempt (η := Unit) (removeFile kUpdateLocalLogTemporaryPath)
          Proc.throw ()
        else do
          removeFile prepared.target.path
          syncContainingDirectory prepared.target.path)
        (fun _ _ d' => Staged history entry prepared d') after d' := by
    intro verified after d' hlogged hverified
    refine keeps_ite (fun _ => hfail after d' hlogged) fun htrue => ?_
    obtain ⟨h, htemporary⟩ := hverified (eq_true_of_ne_false htrue)
    refine keeps_bind (keeps_removeFile h.logged (fun _ => trivial) fun d'' hupdates => ?_)
    have hremoved := h.removed hupdates
    refine ⟨hremoved.logged, keeps_syncContainingDirectory hremoved.logged ⟨hremoved, ?_, ?_⟩⟩
    · rw [hupdates, if_pos rfl]
    · rw [hupdates, if_neg (slot_ne_temporary _).symm]
      exact htemporary
  refine holding_caught hwrite (fun _ after d'' hwritten => ?_) fun after d'' hlogged => ?_
  · refine holding_caught (P := fun _ _ d' => d' = d'')
      (keeps_barrier hwritten.1.logged rfl) ?_ ?_
    · rintro _ closed _ rfl
      refine keeps_bind (keeps_done (holding_of_reads (P := fun _ _ => True) ?_
        hwritten.1.logged) ?_)
      · exact reads_bind (reads_inspectSlot _) fun _ _ _ => keeps_pure ⟨rfl, trivial⟩
      · rintro verified matched _ ⟨rfl, -⟩
        exact hfinish verified matched _ hwritten.1.logged fun _ => hwritten
    · intro closed d' hlogged
      exact keeps_bind (keeps_pure (hfinish false closed d' hlogged nofun))
  · refine holding_caught (P := fun _ _ => Logged history) (keeps_barrier hlogged hlogged) ?_ ?_
    · exact fun _ closed d' hlogged =>
        keeps_bind (keeps_pure (hfinish false closed d' hlogged nofun))
    · exact fun closed d' hlogged =>
        keeps_bind (keeps_pure (hfinish false closed d' hlogged nofun))

theorem holding_stageRecord (h : Logged history d) :
    Holding history (stageRecord entry) (fun prepared _ d' => Staged history entry prepared d')
      log d := by
  refine keeps_bind (keeps_done (holding_preparePage h) ?_)
  rintro prepared after d' ⟨hready, hpage, -⟩
  refine keeps_bind (keeps_done (holding_stagePage hready hpage) ?_)
  exact fun _ _ _ hstaged => keeps_pure hstaged

/-! ## From the rename on -/

/-- After the rename the log holds the entry too. -/
theorem Staged.renamed {prepared : Prepared} {d' : Volume} {content : Content}
    (h : Staged history entry prepared d)
    (hcontent : d.fileAt kUpdateLocalLogTemporaryPath = some content)
    (hmoves : Moves d kUpdateLocalLogTemporaryPath prepared.target.path content d') :
    Logged (history ++ [entry]) d' := by
  rw [Volume.fileAt_eq_some_iff, h.temporary] at hcontent
  obtain rfl : pageOf (history ++ [entry]) = content := by simpa using hcontent
  refine ⟨h.countable, fun hnil => absurd hnil (by simp), fun _ => ⟨prepared.target, ?_, ?_⟩⟩
  · rw [hmoves, if_neg (slot_ne_temporary _), if_pos rfl]
  · rw [hmoves, if_neg (slot_ne_temporary _), if_neg (slot_ne_other _).symm]
    by_cases hne : history = []
    · exact Or.inl (h.logged.none hne _)
    · refine Or.inr ⟨history, hne, h.logged.countable, ?_, (h.target hne).page⟩
      rw [List.length_append, List.length_singleton]
      exact Nat.lt_succ_self _

/-- Whether the rename has happened: the temporary file is gone. -/
def Renamed (history : List Entry) (entry : Entry) (d : Volume) : Prop :=
  d.nodeAt kUpdateLocalLogTemporaryPath ≠ none ∧ Logged history d ∨
    d.nodeAt kUpdateLocalLogTemporaryPath = none ∧ Logged (history ++ [entry]) d

theorem keeps_publish {prepared : Prepared} (h : Staged history entry prepared d) :
    keeps anyFault (Renamed history entry) anyError (publish prepared.target)
      (fun _ _ d' => d'.nodeAt kUpdateLocalLogTemporaryPath = none ∧
        Logged (history ++ [entry]) d') log d := by
  refine keeps_rename (Or.inl ⟨by rw [h.temporary]; nofun, h.logged⟩) (fun _ => trivial) ?_
  intro content d' hcontent _ hmoves
  have hboth : d'.nodeAt kUpdateLocalLogTemporaryPath = none ∧
      Logged (history ++ [entry]) d' := ⟨by rw [hmoves, if_pos rfl], h.renamed hcontent hmoves⟩
  exact ⟨Or.inr hboth, hboth⟩

/-- What follows the rename leaves the slots alone, since no other slot was present. -/
theorem holding_settle {prepared : Prepared}
    (hcurrent : prepared.current.selected = none → prepared.current.anyPresent = false)
    (h : Logged history d) :
    Holding history (settle prepared) (fun _ _ => Logged history) log d := by
  refine keeps_bind (keeps_syncContainingDirectory h ?_)
  refine keeps_bind (keeps_done (holding_of_reads (P := fun _ _ => True) ?_ h) ?_)
  · exact reads_bind (reads_inspectSlot _) fun _ _ _ => keeps_pure ⟨rfl, trivial⟩
  rintro verified after _ ⟨rfl, -⟩
  refine keeps_bind (keeps_check (fun _ => ⟨h, trivial⟩) fun _ => ?_)
  refine keeps_ite (fun hcleanup => ?_) fun _ => keeps_pure h
  rw [hcurrent hcleanup.1] at hcleanup
  exact absurd hcleanup.2.2 (by simp)

/-! ## Calls -/

/-- A call of `Record`: the object and its workspace as the call finds them, what it is
given, and what becomes of its operations. -/
structure Call where
  log : UpdateLocalLog
  entry : Entry
  faults : List Fault

/-- The volume after a call. -/
def Call.disk (call : Call) (d : Volume) : Volume :=
  (record call.entry call.log ⟨d, call.faults⟩).disk

/-- Whether the final rename of a call happened: the call came to it, and it took the
temporary file away. -/
def Call.renames (call : Call) (d : Volume) : Bool :=
  match stageRecord call.entry call.log ⟨d, call.faults⟩ with
  | .done prepared after world =>
      ((publish prepared.target after world).disk.nodeAt kUpdateLocalLogTemporaryPath).isNone
  | _ => false

theorem disk_record (entry : Entry) (log : UpdateLocalLog) (w : World Volume) :
    (record entry log w).disk = (append entry log w).disk := by
  unfold record
  rw [Proc.attempt_bind]
  cases append entry log w <;> rfl

/-- A call leaves the history, or the history with its own entry where it renamed. -/
theorem logged_call (call : Call) (h : Logged history d) :
    Logged (history ++ if call.renames d then [call.entry] else []) (call.disk d) := by
  obtain ⟨log, entry, faults⟩ := call
  have hstage := @holding_stageRecord history entry d log h faults fun _ _ => trivial
  unfold Call.disk
  rw [disk_record]
  unfold append
  change Logged _ (Proc.bind (stageRecord entry) (fun prepared =>
    publish prepared.target >>= fun _ => settle prepared) log ⟨d, faults⟩).disk
  unfold Proc.bind
  cases hrun : stageRecord entry log ⟨d, faults⟩ with
  | error e after world =>
      have hnot : Call.renames ⟨log, entry, faults⟩ d = false := by
        unfold Call.renames
        rw [hrun]
      rw [hrun] at hstage
      rw [hnot, if_neg (by simp), List.append_nil]
      exact hstage.1.1
  | cut d' =>
      have hnot : Call.renames ⟨log, entry, faults⟩ d = false := by
        unfold Call.renames
        rw [hrun]
      rw [hrun] at hstage
      rw [hnot, if_neg (by simp), List.append_nil]
      exact hstage.1
  | done prepared after world =>
      have hrenames : Call.renames ⟨log, entry, faults⟩ d = ((publish prepared.target after
          world).disk.nodeAt kUpdateLocalLogTemporaryPath).isNone := by
        unfold Call.renames
        rw [hrun]
      rw [hrun] at hstage
      have hpublish := @keeps_publish _ _ _ after _ hstage.1 world.faults fun _ _ => trivial
      dsimp only
      change Logged _ (Proc.bind (publish prepared.target) (fun _ => settle prepared) after
        world).disk
      unfold Proc.bind
      have hchoice : ∀ {d' : Volume}, Renamed history entry d' →
          Call.renames ⟨log, entry, faults⟩ d =
            (d'.nodeAt kUpdateLocalLogTemporaryPath).isNone →
          Logged (history ++
            if Call.renames ⟨log, entry, faults⟩ d = true then [entry] else []) d' := by
        rintro d' (⟨hpresent, hlogged⟩ | ⟨hgone, hlogged⟩) heq
        · rwa [heq, if_neg (by simpa using hpresent), List.append_nil]
        · rwa [heq, if_pos (by simpa using hgone)]
      cases hrename : publish prepared.target after world with
      | error e after' world' =>
          rw [hrename] at hpublish hrenames
          exact hchoice hpublish.1.1 hrenames
      | cut d' =>
          rw [hrename] at hpublish hrenames
          exact hchoice hpublish.1 hrenames
      | done a after' world' =>
          rw [hrename] at hpublish hrenames
          have hsettle := @holding_settle _ _ after' _ hstage.1.current hpublish.1.2
          have hgone : (world'.disk.nodeAt kUpdateLocalLogTemporaryPath).isNone = true :=
            Option.isNone_iff_eq_none.mpr hpublish.1.1
          rw [hrenames.trans hgone, if_pos rfl]
          exact keeps_disk hsettle fun _ _ => trivial

/-- The volume after a sequence of calls. -/
def runCalls : List Call → Volume → Volume
  | [], d => d
  | call :: rest, d => runCalls rest (call.disk d)

/-- The entries of the calls whose final rename happened, in the order of the calls. -/
def published : List Call → Volume → List Entry
  | [], _ => []
  | call :: rest, d =>
      (if call.renames d then [call.entry] else []) ++ published rest (call.disk d)

/-- Every run of calls leaves the log of what was published. -/
theorem logged_run (calls : List Call) : ∀ {history : List Entry} {d : Volume},
    Logged history d → Logged (history ++ published calls d) (runCalls calls d) := by
  induction calls with
  | nil =>
      intro history d h
      rwa [published, List.append_nil]
  | cons call rest ih =>
      intro history d h
      rw [published, ← List.append_assoc]
      exact ih (logged_call call h)

/-! ## Reading -/

theorem decodeRecords_flatMap (records : List UpdateLocalLogRecord) (rest : Bytes)
    (hvalid : ∀ record ∈ records, Recordable record) :
    decodeRecords records.length (records.flatMap encodeRecord ++ rest) = some records := by
  induction records with
  | nil => rfl
  | cons record records ih =>
      have htake : ((record :: records).flatMap encodeRecord ++ rest).take
          kUpdateLocalLogRecordBytes = encodeRecord record := by
        rw [List.flatMap_cons, List.append_assoc]
        exact List.take_left' (length_encodeRecord record)
      have hdrop : ((record :: records).flatMap encodeRecord ++ rest).drop
          kUpdateLocalLogRecordBytes = records.flatMap encodeRecord ++ rest := by
        rw [List.flatMap_cons, List.append_assoc]
        exact List.drop_left' (length_encodeRecord record)
      rw [List.length_cons, decodeRecords, htake, hdrop,
        decodeRecord_encodeRecord (hvalid record List.mem_cons_self),
        ih fun other hother => hvalid other (List.mem_cons_of_mem _ hother)]
      rfl

/-- What `Read` returns of a history. -/
def readOf (capacity : Nat) (history : List Entry) : ReadResult :=
  if history = [] then ⟨.noLog, 0, 0, []⟩
  else if capacity < (keptRecords history).length then
    ⟨.bufferTooSmall, (keptRecords history).length, UInt64.ofNat history.length, []⟩
  else
    ⟨.ok, (keptRecords history).length, UInt64.ofNat history.length, keptRecords history⟩

theorem reads_read (capacity : Nat) (h : Logged history d) :
    Reads allow (read capacity) d (fun result _ => result.status = .ioError ∧ MayFail allow ∨
      result = readOf capacity history) log := by
  refine reads_bind (reads_loadCurrent h) fun current after hloads => ?_
  rcases hloads with ⟨hio, hfail⟩ | ⟨rfl, rfl⟩ | ⟨hne, slot, hnewest, hpage, rfl⟩
  · rw [hio, if_pos rfl]
    exact keeps_pure ⟨rfl, Or.inl ⟨rfl, hfail⟩⟩
  · have hnil : readOf capacity [] = ⟨.noLog, 0, 0, []⟩ := if_pos rfl
    rw [hnil, if_neg (by simp), if_pos rfl, if_neg (by simp)]
    exact keeps_pure ⟨rfl, Or.inr rfl⟩
  · unfold readOf
    rw [if_neg (by simp), if_neg (by simp), if_neg hne]
    dsimp only
    have hdecode : decodeRecords (keptRecords history).length
        (after.page.drop kUpdateLocalLogHeaderBytes) = some (keptRecords history) := by
      rw [hpage, pageOf, drop_pageWith]
      exact decodeRecords_flatMap _ _ fun _ => recordable_of_mem h.countable
    by_cases hsmall : capacity < (keptRecords history).length
    · rw [if_pos hsmall, if_pos hsmall]
      exact keeps_pure ⟨rfl, Or.inr rfl⟩
    · rw [if_neg hsmall, if_neg hsmall]
      refine keeps_bind (keeps_get ?_)
      rw [hdecode]
      exact keeps_pure ⟨rfl, Or.inr rfl⟩

/-- A read whose operations all work returns what the history says. -/
theorem read_eq (capacity : Nat) (h : Logged history d) (log : UpdateLocalLog)
    {faults : List Fault} (hworks : ∀ f ∈ faults, f = .ok) :
    (read capacity log ⟨d, faults⟩).result = some (readOf capacity history) := by
  have hread := @reads_read history d log noFault capacity h faults
    fun f hf => by rw [hworks f hf]; trivial
  cases hrun : read capacity log ⟨d, faults⟩ with
  | done result after world =>
      rw [hrun] at hread
      rcases hread.1.2 with ⟨-, hfail⟩ | heq
      · exact absurd hfail not_mayFail_noFault
      · exact congrArg some heq
  | error e after world =>
      rw [hrun] at hread
      exact absurd (hread.1.2.resolve_left id) not_mayFail_noFault
  | cut d' =>
      rw [hrun] at hread
      exact absurd hread.2 not_mayCut_noFault

/-- No log: neither slot is there. -/
def NoLog (d : Volume) : Prop := ∀ slot : Slot, d.nodeAt slot.path = none

theorem logged_nil (h : NoLog d) : Logged [] d :=
  ⟨⟨by decide, nofun⟩, fun _ => h, fun hne => absurd rfl hne⟩

/-- The log is crash safe.  After any calls, each cut or failed anywhere, a read that
works returns the last records of the entries published so far, numbered in order, and
one more call adds its own entry to them or nothing. -/
theorem log_crash_safe (d : Volume) (hnone : NoLog d) (calls : List Call) :
    (∀ (capacity : Nat) (log : UpdateLocalLog) (faults : List Fault),
      (∀ f ∈ faults, f = .ok) →
      (read capacity log ⟨runCalls calls d, faults⟩).result =
        some (readOf capacity (published calls d))) ∧
    (keptRecords (published calls d)).length =
      min (published calls d).length kUpdateLocalLogMaximumRecords ∧
    ((keptRecords (published calls d)).Pairwise fun left right =>
      left.ordinal < right.ordinal) ∧
    (published calls d ≠ [] → (keptRecords (published calls d)).getLast?.map (·.ordinal) =
      some (UInt64.ofNat (published calls d).length)) ∧
    ∀ (call : Call) (capacity : Nat) (log : UpdateLocalLog) (faults : List Fault),
      (∀ f ∈ faults, f = .ok) →
      (read capacity log ⟨call.disk (runCalls calls d), faults⟩).result =
        some (readOf capacity (if call.renames (runCalls calls d)
          then published calls d ++ [call.entry] else published calls d)) := by
  have hlogged : Logged (published calls d) (runCalls calls d) := by
    have hrun := logged_run calls (logged_nil hnone)
    rwa [List.nil_append] at hrun
  refine ⟨fun capacity log faults hworks => read_eq capacity hlogged log hworks,
    length_keptRecords _, (increasing_keptRecords hlogged.countable).2,
    fun hne => getLast?_keptRecords hne, ?_⟩
  intro call capacity log faults hworks
  rw [read_eq capacity (logged_call call hlogged) log hworks]
  split
  · rfl
  · rw [List.append_nil]

/-- A first call that is cut before the rename, and one that is not. -/
def firstCalls : List Call :=
  [⟨⟨[], false⟩, ⟨.online, .onlineRequested, 0, 0⟩, [.ok, .ok, .cut 0]⟩,
   ⟨⟨[], false⟩, ⟨.online, .onlineDiscoveryStarted, 1, 2⟩, []⟩]

theorem log_crash_safe_first :
    (read 126 ⟨[], false⟩ ⟨runCalls firstCalls Volume.empty, []⟩).result =
      some ⟨.ok, 1, 1, [⟨.online, .state, .onlineDiscoveryStarted, 1, 1, 2⟩]⟩ := by
  have hnone : NoLog Volume.empty := fun slot => by cases slot <;> rfl
  have hpublished : published firstCalls Volume.empty =
      [⟨.online, .onlineDiscoveryStarted, 1, 2⟩] := by decide +kernel
  have hsafe := (log_crash_safe Volume.empty hnone firstCalls).1 126 ⟨[], false⟩ [] nofun
  rw [hpublished] at hsafe
  exact hsafe.trans (by decide +kernel)

end LocalLog

end BmxUpdate
