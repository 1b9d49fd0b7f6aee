import BmxUpdate.Foreground.Progress
import Mathlib.Data.List.Induction

/-!
# A session of the foreground progress

What holds from a `BeginExplicit` that succeeds to the next `EndExplicit`, for any calls
in between and any input of the user (`session_kept`).

- The values: every one is at most 1000, and a mark is shown as it is.
- `checkpoint_latched`, `report_cases`: what one call can do.
- `Tracked`: what the object remembers of the calls since the session began.
- The marks: what `Report` presents for a phase never falls.

Two calls stay outside (`session_kept_fails`): the checkpoint inside `BeginExplicit` swallows
a request, and a report without a share of the Hash phase shows its own counter there.
-/

namespace BmxUpdate

namespace Foreground

/-! ## Values -/

theorem toUInt16_le {scaled : UInt64} :
    (if 1000 < scaled then 1000 else scaled).toUInt16 ≤ 1000 := by
  split
  · decide
  · next h =>
      have hscaled : scaled.toNat ≤ 1000 := by
        have := UInt64.le_iff_toNat_le.mp (UInt64.not_lt.mp h)
        exact this
      rw [UInt16.le_iff_toNat_le, UInt64.toNat_toUInt16]
      show scaled.toNat % 2 ^ 16 ≤ 1000
      omega

theorem ratioPerMille_le (completedBytes totalBytes : UInt64) :
    ratioPerMille completedBytes totalBytes ≤ 1000 := by
  unfold ratioPerMille
  split
  · decide
  · split
    · exact UInt16.le_refl _
    · exact toUInt16_le

theorem ratioPerMille_mark {mark : UInt16} (h : mark ≤ 1000) :
    ratioPerMille mark.toUInt64 1000 = mark := by
  have hmark : mark.toNat ≤ 1000 := UInt16.le_iff_toNat_le.mp h
  have hbytes : mark.toUInt64.toNat = mark.toNat := UInt16.toNat_toUInt64 mark
  unfold ratioPerMille
  rw [if_neg (by decide)]
  split
  · next hall =>
      have hfull : 1000 ≤ mark.toNat := by
        have := UInt64.le_iff_toNat_le.mp hall
        rwa [hbytes] at this
      apply UInt16.toNat.inj
      show 1000 = _
      omega
  · next hpart =>
      have hless : mark.toNat < 1000 := by
        have := UInt64.lt_iff_toNat_lt.mp (UInt64.not_le.mp hpart)
        rwa [hbytes] at this
      have hremainder : (mark.toUInt64 % 1000).toNat = mark.toNat := by
        rw [UInt64.toNat_mod, hbytes]
        show mark.toNat % 1000 = _
        omega
      have hwhole : mark.toUInt64 / 1000 = 0 := by
        apply UInt64.toNat.inj
        rw [UInt64.toNat_div, hbytes]
        show mark.toNat / 1000 = 0
        omega
      have hsmall : mark.toUInt64 % 1000 ≤ 0xffffffffffffffff / 1000 := by
        rw [UInt64.le_iff_toNat_le, hremainder]
        show _ ≤ 18446744073709551
        omega
      have hscaled : (mark.toUInt64 / 1000 * 1000 + mark.toUInt64 % 1000 * 1000 / 1000).toNat =
          mark.toNat := by
        rw [hwhole, UInt64.zero_mul, UInt64.zero_add, UInt64.toNat_div, UInt64.toNat_mul,
          hremainder]
        show mark.toNat * 1000 % 2 ^ 64 / 1000 = _
        omega
      dsimp only
      rw [if_pos hsmall, if_neg]
      · apply UInt16.toNat.inj
        rw [UInt64.toNat_toUInt16, hscaled]
        omega
      · rw [UInt64.lt_iff_toNat_lt, hscaled]
        show ¬1000 < _
        omega

theorem span_le {ratio start span : Nat} (hratio : ratio ≤ 1000) (hspan : start + span ≤ 1000) :
    (start + ratio * span % 2 ^ 32 / 1000) % 2 ^ 32 % 2 ^ 16 ≤ 1000 := by
  have hproduct : ratio * span ≤ 1000 * span := Nat.mul_le_mul_right span hratio
  have hshare : ratio * span / 1000 ≤ span := Nat.div_le_of_le_mul hproduct
  rw [Nat.mod_eq_of_lt (a := ratio * span) (by omega), Nat.mod_eq_of_lt (b := 2 ^ 32) (by omega),
    Nat.mod_eq_of_lt (by omega)]
  omega

theorem hashPhasePerMille_le {event : UpdateRecoveryProgressEvent} {start stop : UInt16}
    (h : hashPhaseSpan event.kind = some (start, stop)) :
    hashPhasePerMille event start stop ≤ 1000 := by
  have hratio : (ratioPerMille event.completedBytes event.totalBytes).toNat ≤ 1000 :=
    UInt16.le_iff_toNat_le.mp (ratioPerMille_le _ _)
  have hspan : start.toNat + (stop - start).toNat ≤ 1000 := by
    unfold hashPhaseSpan at h
    split at h <;> cases h <;> decide
  unfold hashPhasePerMille
  rw [UInt16.le_iff_toNat_le, UInt32.toNat_toUInt16, UInt32.toNat_add, UInt32.toNat_div,
    UInt32.toNat_mul, UInt16.toNat_toUInt32, UInt16.toNat_toUInt32, UInt16.toNat_toUInt32]
  exact span_le hratio hspan
/-! ## One call -/

namespace UpdateForegroundProgress

variable {object : UpdateForegroundProgress} {pumped : Bool}

/-- What a report or checkpoint of an open session yields: the latch of the request. -/
structure Latched (object : UpdateForegroundProgress) (cancelable pumped : Bool)
    (outcome : Outcome) : Prop where
  active : outcome.object.active = true
  ui : outcome.object.ui = true
  result : outcome.result = (object.mandatoryOperationActive || object.stopSignaled ||
    !cancelable || !(object.cancelRequested || pumped))
  cancelRequested : outcome.object.cancelRequested = (object.cancelRequested || pumped)
  stopSignaled : outcome.object.stopSignaled = (object.stopSignaled || !outcome.result)
  depth : outcome.object.mandatoryOperationDepth = object.mandatoryOperationDepth
  overflowed : outcome.object.mandatoryOperationOverflowed = object.mandatoryOperationOverflowed
  stopped : object.stopSignaled = true →
    ∀ event ∈ outcome.presented, event.cancelEnabled = false

theorem checkpoint_latched {phase : UpdateForegroundPhase} {completedBytes totalBytes : UInt64}
    {behavior : UpdateForegroundCancelBehavior} (hactive : object.active = true)
    (hui : object.ui = true) :
    Latched object (behavior = .cancelAtCheckpoint) pumped
      (object.checkpoint phase completedBytes totalBytes behavior pumped) := by
  unfold checkpoint
  rw [if_neg (by simp [hactive]), if_neg (by simp [hui])]
  dsimp only
  have hmandatory : decide (object.effectiveBehavior behavior = .mandatoryCompletion) =
      (object.mandatoryOperationActive || object.stopSignaled ||
        !decide (behavior = .cancelAtCheckpoint)) := by
    unfold effectiveBehavior
    cases object.mandatoryOperationActive || object.stopSignaled <;> cases behavior <;> rfl
  refine ⟨hactive, hui, ?_, rfl, rfl, rfl, rfl, ?_⟩
  · rw [hmandatory, Bool.or_comm]
  · intro hstopped event hevent
    have hforced : object.effectiveBehavior behavior = .mandatoryCompletion := by
      rw [effectiveBehavior, hstopped, Bool.or_true, if_pos rfl]
    rw [hforced] at hevent
    cases hevent with
    | head => rfl
    | tail _ hagain =>
        split at hagain
        · rw [List.mem_singleton.mp hagain]
          rfl
        · cases hagain

theorem checkpoint_presented {phase : UpdateForegroundPhase} {completedBytes totalBytes : UInt64}
    {behavior : UpdateForegroundCancelBehavior} :
    ∀ event ∈ (object.checkpoint phase completedBytes totalBytes behavior pumped).presented,
      event.phase = phase ∧
        event.progressPerMille =
          if totalBytes ≠ 0 then ratioPerMille completedBytes totalBytes else 0 := by
  intro event hevent
  unfold checkpoint at hevent
  split at hevent
  · cases hevent
  · split at hevent
    · cases hevent
    · cases hevent with
      | head => exact ⟨rfl, rfl⟩
      | tail _ hagain =>
          split at hagain
          · rw [List.mem_singleton.mp hagain]
            exact ⟨rfl, rfl⟩
          · cases hagain

/-- The four ways of `Report` in an open session. -/
theorem report_cases {event : UpdateRecoveryProgressEvent} {P : Outcome → Prop}
    (hactive : object.active = true)
    (hspan : ∀ start stop, hashPhaseSpan event.kind = some (start, stop) →
      let mark := raise object.hashProgressPerMille (hashPhasePerMille event start stop)
      let outcome := { object with hashProgressPerMille := mark }.checkpoint .hash mark.toUInt64
        1000 (object.reportBehavior event.kind) pumped
      ∀ complete, P { outcome with
        object := { outcome.object with hashContentsComplete := complete } })
    (hverified : event.kind = .preparedFileVerified →
      P (object.checkpoint .hash object.hashProgressPerMille.toUInt64 1000
        (object.reportBehavior event.kind) pumped))
    (hstage :
      let mark := raise object.stageProgressPerMille (object.stageCandidate event)
      P ({ object with stageProgressPerMille := mark }.checkpoint .stage mark.toUInt64 1000
        (object.reportBehavior event.kind) pumped))
    (hother : ∀ phase, object.reportPhase event = phase → phase ≠ .stage →
      (phase = .hash → hashPhaseSpan event.kind = none) →
      P (object.checkpoint phase event.completedBytes event.totalBytes
        (object.reportBehavior event.kind) pumped)) :
    P (object.report event pumped) := by
  unfold report
  rw [if_neg (by simp [hactive])]
  dsimp only
  split
  · next start stop hphase hstart => exact hspan start stop hstart _
  · next hnone =>
      split
      · next h => exact hverified h.2.2
      · split
        · exact hstage
        · next hother' =>
            refine hother _ rfl hother' fun hhash => ?_
            cases hspan' : hashPhaseSpan event.kind with
            | none => rfl
            | some span => exact absurd hspan' (hnone span.1 span.2 hhash)

theorem reportBehavior_latched {kind : UpdateRecoveryProgressKind} {outcome : Outcome}
    (h : Latched object (object.reportBehavior kind = .cancelAtCheckpoint) pumped outcome) :
    Latched object (!isMandatoryProgress kind) pumped outcome := by
  refine { h with result := ?_ }
  rw [h.result, reportBehavior]
  cases object.mandatoryOperationActive <;> cases object.stopSignaled <;>
    cases isMandatoryProgress kind <;> rfl

theorem report_latched {event : UpdateRecoveryProgressEvent} (hactive : object.active = true)
    (hui : object.ui = true) :
    Latched object (!isMandatoryProgress event.kind) pumped (object.report event pumped) := by
  apply reportBehavior_latched
  apply report_cases hactive
  · intro start stop _ mark outcome complete
    have h : Latched { object with hashProgressPerMille := mark } _ pumped outcome :=
      checkpoint_latched hactive hui
    exact ⟨h.active, h.ui, h.result, h.cancelRequested, h.stopSignaled, h.depth, h.overflowed,
      h.stopped⟩
  · intro _
    exact checkpoint_latched hactive hui
  · intro mark
    have h : Latched { object with stageProgressPerMille := mark }
        (object.reportBehavior event.kind = .cancelAtCheckpoint) pumped
        ({ object with stageProgressPerMille := mark }.checkpoint .stage mark.toUInt64 1000
          (object.reportBehavior event.kind) pumped) := checkpoint_latched hactive hui
    exact ⟨h.active, h.ui, h.result, h.cancelRequested, h.stopSignaled, h.depth, h.overflowed,
      h.stopped⟩
  · intro phase _ _ _
    exact checkpoint_latched hactive hui

/-- A report that is shown in the Hash phase without a share of it. -/
def Unspanned (object : UpdateForegroundProgress) (event : UpdateRecoveryProgressEvent) : Prop :=
  object.reportPhase event = .hash ∧ hashPhaseSpan event.kind = none

/-- What a report leaves of the marks and presents of them. -/
structure Shows (object : UpdateForegroundProgress) (event : UpdateRecoveryProgressEvent)
    (outcome : Outcome) : Prop where
  hash_le : object.hashProgressPerMille ≤ outcome.object.hashProgressPerMille
  stage_le : object.stageProgressPerMille ≤ outcome.object.stageProgressPerMille
  hash_bounded : outcome.object.hashProgressPerMille ≤ 1000
  stage_bounded : outcome.object.stageProgressPerMille ≤ 1000
  hash : ¬object.Unspanned event → ∀ shown ∈ outcome.presented, shown.phase = .hash →
    shown.progressPerMille = outcome.object.hashProgressPerMille
  stage : ∀ shown ∈ outcome.presented, shown.phase = .stage →
    shown.progressPerMille = outcome.object.stageProgressPerMille
  bounded : ∀ shown ∈ outcome.presented, shown.progressPerMille ≤ 1000

theorem raise_spec {mark candidate : UInt16} (hmark : mark ≤ 1000) (hcandidate : candidate ≤ 1000) :
    mark ≤ raise mark candidate ∧ raise mark candidate ≤ 1000 := by
  unfold raise
  split
  · next h => exact ⟨UInt16.le_of_lt h, hcandidate⟩
  · exact ⟨UInt16.le_refl _, hmark⟩

theorem stageCandidate_le {event : UpdateRecoveryProgressEvent}
    (h : object.stageProgressPerMille ≤ 1000) : object.stageCandidate event ≤ 1000 := by
  unfold stageCandidate
  split
  · exact ratioPerMille_le _ _
  · split
    · exact UInt16.le_refl _
    · exact h

theorem checkpoint_marks {phase : UpdateForegroundPhase} {completedBytes totalBytes : UInt64}
    {behavior : UpdateForegroundCancelBehavior} :
    (object.checkpoint phase completedBytes totalBytes behavior
        pumped).object.hashProgressPerMille = object.hashProgressPerMille ∧
      (object.checkpoint phase completedBytes totalBytes behavior
        pumped).object.stageProgressPerMille = object.stageProgressPerMille := by
  unfold checkpoint
  split
  · exact ⟨rfl, rfl⟩
  · split
    · exact ⟨rfl, rfl⟩
    · exact ⟨rfl, rfl⟩

/-- A checkpoint that presents a mark presents that value. -/
theorem presented_mark {phase : UpdateForegroundPhase} {mark : UInt16} (hmark : mark ≤ 1000)
    {behavior : UpdateForegroundCancelBehavior} {shown : UpdateForegroundUiEvent}
    (h : shown ∈ (object.checkpoint phase mark.toUInt64 1000 behavior pumped).presented) :
    shown.phase = phase ∧ shown.progressPerMille = mark := by
  obtain ⟨hphase, hvalue⟩ := checkpoint_presented shown h
  rw [if_pos (by decide), ratioPerMille_mark hmark] at hvalue
  exact ⟨hphase, hvalue⟩

/-- A report that presents one value of one phase. -/
theorem shows_of_presented {event : UpdateRecoveryProgressEvent} {outcome : Outcome}
    {phase : UpdateForegroundPhase} {value hashMark stageMark : UInt16}
    (hmarks : outcome.object.hashProgressPerMille = hashMark ∧
      outcome.object.stageProgressPerMille = stageMark)
    (hpresented : ∀ shown ∈ outcome.presented,
      shown.phase = phase ∧ shown.progressPerMille = value)
    (hhash : object.hashProgressPerMille ≤ hashMark ∧ hashMark ≤ 1000)
    (hstage : object.stageProgressPerMille ≤ stageMark ∧ stageMark ≤ 1000)
    (hvalue : value ≤ 1000) (hashValue : phase = .hash → ¬object.Unspanned event → value = hashMark)
    (stageValue : phase = .stage → value = stageMark) :
    Shows object event outcome := by
  obtain ⟨rfl, rfl⟩ := hmarks
  refine ⟨hhash.1, hstage.1, hhash.2, hstage.2, ?_, ?_, ?_⟩
  · intro hspanned shown hshown hphase
    rw [(hpresented shown hshown).2]
    exact hashValue ((hpresented shown hshown).1.symm.trans hphase) hspanned
  · intro shown hshown hphase
    rw [(hpresented shown hshown).2]
    exact stageValue ((hpresented shown hshown).1.symm.trans hphase)
  · intro shown hshown
    rw [(hpresented shown hshown).2]
    exact hvalue

theorem report_shows {event : UpdateRecoveryProgressEvent} (hactive : object.active = true)
    (hhash : object.hashProgressPerMille ≤ 1000) (hstage : object.stageProgressPerMille ≤ 1000) :
    Shows object event (object.report event pumped) := by
  have hhash' := And.intro (UInt16.le_refl object.hashProgressPerMille) hhash
  have hstage' := And.intro (UInt16.le_refl object.stageProgressPerMille) hstage
  apply report_cases hactive
  · intro start stop hspan mark outcome complete
    have hmark := raise_spec hhash (hashPhasePerMille_le hspan)
    have hmarks : outcome.object.hashProgressPerMille = mark ∧
        outcome.object.stageProgressPerMille = object.stageProgressPerMille := checkpoint_marks
    exact shows_of_presented hmarks (fun shown h => presented_mark hmark.2 h) hmark hstage' hmark.2
      (fun _ _ => rfl) nofun
  · intro _
    exact shows_of_presented checkpoint_marks (fun shown h => presented_mark hhash h) hhash' hstage'
      hhash (fun _ _ => rfl) nofun
  · intro mark
    have hcandidate : object.stageCandidate event ≤ 1000 := stageCandidate_le hstage
    have hmark := raise_spec hstage hcandidate
    refine shows_of_presented (?_ : _ = object.hashProgressPerMille ∧ _ = mark)
      (fun shown h => presented_mark hmark.2 h) hhash' hmark hmark.2 nofun (fun _ => rfl)
    exact checkpoint_marks
  · intro phase hphase hnotStage hnone
    refine shows_of_presented checkpoint_marks checkpoint_presented hhash' hstage' ?_
      (fun h hspanned => ?_) (fun h => absurd h hnotStage)
    · split
      · exact ratioPerMille_le _ _
      · decide
    · exact absurd ⟨hphase.trans h, hnone h⟩ hspanned

end UpdateForegroundProgress

/-! ## Sessions -/

/-- A call whose result its owner acts on. -/
def Call.isCheckpoint : Call → Bool
  | .report .. | .checkpoint .. => true
  | _ => false

/-- A call that its owner can be stopped at. -/
def Call.cancelable : Call → Bool
  | .report event _ => !isMandatoryProgress event.kind
  | .checkpoint _ _ _ behavior _ => behavior = .cancelAtCheckpoint
  | _ => false

/-- The input that is read during a call of an open session. -/
def Call.pumped : Call → Bool
  | .report _ pumped => pumped
  | .checkpoint _ _ _ _ pumped => pumped
  | _ => false

/-- The user asked to cancel; `pumped` is what was read while the session began. -/
def asked (pumped : Bool) (calls : List Call) : Bool := pumped || calls.any Call.pumped

def nested (depth : Nat) : Call → Nat
  | .beginMandatoryOperation => depth + 1
  | .endMandatoryOperation => depth - 1
  | _ => depth

/-- The number of mandatory operations that are open. -/
def openOperations (calls : List Call) : Nat := calls.foldl nested 0

/-- More operations were open at once than the counter holds. -/
def Saturated (calls : List Call) : Prop :=
  ∃ earlier, earlier <+: calls ∧ 2 ^ 32 ≤ openOperations earlier

namespace UpdateForegroundProgress

variable {object : UpdateForegroundProgress}

/-- A report or checkpoint returns false. -/
def refuses (object : UpdateForegroundProgress) (call : Call) : Bool :=
  call.isCheckpoint && !(object.step call).result

/-- One of the calls is refused. -/
def refusesIn (object : UpdateForegroundProgress) : List Call → Bool
  | [] => false
  | call :: calls => object.refuses call || refusesIn (object.step call).object calls

/-- What a call presents of a phase, if it is a report. -/
def shownValues (object : UpdateForegroundProgress) (phase : UpdateForegroundPhase)
    (call : Call) : List UInt16 :=
  match call with
  | .report .. =>
      ((object.step call).presented.filter (·.phase = phase)).map (·.progressPerMille)
  | _ => []

/-- What reports present of a phase. -/
def reported (phase : UpdateForegroundPhase) (object : UpdateForegroundProgress) :
    List Call → List UInt16
  | [] => []
  | call :: calls =>
      object.shownValues phase call ++ reported phase (object.step call).object calls

/-- What a session keeps: `start` is the object after `BeginExplicit`. -/
structure SessionKept (start : UpdateForegroundProgress) (pumped : Bool) (calls : List Call) :
    Prop where
  once : ∀ earlier call later, calls = earlier ++ call :: later →
    (start.after earlier).refuses call = true →
    start.refusesIn earlier = false ∧
      ((start.after earlier).step call).object.refusesIn later = false
  justified : ∀ earlier call later, calls = earlier ++ call :: later →
    (start.after earlier).refuses call = true →
    call.cancelable = true ∧ openOperations earlier = 0 ∧ asked pumped (earlier ++ [call]) = true
  notLost : ∀ earlier call later, calls = earlier ++ call :: later →
    call.cancelable = true → openOperations earlier = 0 → ¬Saturated earlier →
    asked pumped (earlier ++ [call]) = true → start.refusesIn (earlier ++ [call]) = true
  disabled : ∀ earlier call later, calls = earlier ++ call :: later →
    (start.after earlier).refuses call = true →
    ∀ event ∈ ((start.after earlier).step call).object.presented later,
      event.cancelEnabled = false
  bounded : ∀ value ∈ start.reported .hash calls ++ start.reported .stage calls, value ≤ 1000
  hash : (start.reported .hash calls).Pairwise (· ≤ ·)
  stage : (start.reported .stage calls).Pairwise (· ≤ ·)

/-! ## The nesting -/

theorem openOperations_snoc (calls : List Call) (call : Call) :
    openOperations (calls ++ [call]) = nested (openOperations calls) call := by
  rw [openOperations, List.foldl_append]
  rfl

theorem saturated_snoc {calls : List Call} {call : Call} :
    Saturated (calls ++ [call]) ↔
      Saturated calls ∨ 2 ^ 32 ≤ openOperations (calls ++ [call]) := by
  constructor
  · rintro ⟨earlier, hinit, hdepth⟩
    rcases List.prefix_concat_iff.mp hinit with rfl | hinit
    · exact .inr hdepth
    · exact .inl ⟨earlier, hinit, hdepth⟩
  · rintro (⟨earlier, hinit, hdepth⟩ | hdepth)
    · exact ⟨earlier, hinit.trans (List.prefix_append _ _), hdepth⟩
    · exact ⟨_, List.prefix_refl _, hdepth⟩

/-- The counter of the object is the number of open operations until it saturates. -/
structure Counted (object : UpdateForegroundProgress) (calls : List Call) : Prop where
  overflowed : object.mandatoryOperationOverflowed = true ↔ Saturated calls
  depth : object.mandatoryOperationOverflowed = false →
    object.mandatoryOperationDepth.toNat = openOperations calls

theorem Counted.mandatory_iff {calls : List Call} (h : Counted object calls) :
    object.mandatoryOperationActive = true ↔ openOperations calls ≠ 0 ∨ Saturated calls := by
  rw [← h.overflowed, mandatoryOperationActive, Bool.or_eq_true, bne_iff_ne]
  cases hoverflowed : object.mandatoryOperationOverflowed with
  | true => simp
  | false =>
      have hdepth : object.mandatoryOperationDepth = 0 ↔ openOperations calls = 0 := by
        rw [← h.depth hoverflowed, ← UInt32.toNat_inj]
        rfl
      simp only [Bool.false_eq_true, or_false, ne_eq, hdepth]

/-- An operation that is open makes the object defer a request. -/
theorem Counted.mandatory_of_open {calls : List Call} (h : Counted object calls)
    (hopen : openOperations calls ≠ 0) : object.mandatoryOperationActive = true :=
  h.mandatory_iff.mpr (.inl hopen)

/-- A call that neither opens nor closes an operation. -/
theorem Counted.keep {calls : List Call} {call : Call} {next : UpdateForegroundProgress}
    (h : Counted object calls) (hcall : ∀ depth, nested depth call = depth)
    (hdepth : next.mandatoryOperationDepth = object.mandatoryOperationDepth)
    (hoverflowed : next.mandatoryOperationOverflowed = object.mandatoryOperationOverflowed) :
    Counted next (calls ++ [call]) := by
  have hopen : openOperations (calls ++ [call]) = openOperations calls := by
    rw [openOperations_snoc, hcall]
  constructor
  · rw [hoverflowed, h.overflowed, saturated_snoc, hopen]
    constructor
    · exact .inl
    · rintro (hsaturated | hmany)
      · exact hsaturated
      · exact ⟨calls, List.prefix_refl _, hmany⟩
  · rw [hoverflowed, hdepth, hopen]
    exact h.depth

/-- The counter after an operation was opened or closed without saturation. -/
theorem Counted.count {calls : List Call} {call : Call} {next : UpdateForegroundProgress}
    (h : Counted object calls) (hfits : object.mandatoryOperationOverflowed = false)
    (hdepth : next.mandatoryOperationDepth.toNat = openOperations (calls ++ [call]))
    (hoverflowed : next.mandatoryOperationOverflowed = false) : Counted next (calls ++ [call]) := by
  constructor
  · rw [hoverflowed, saturated_snoc, ← h.overflowed, hfits, ← hdepth]
    have hlt := next.mandatoryOperationDepth.toNat_lt
    simp only [Bool.false_eq_true, false_or, false_iff]
    omega
  · intro _
    exact hdepth

theorem Counted.saturated {calls : List Call} {call : Call} {next : UpdateForegroundProgress}
    (h : Saturated (calls ++ [call])) (hoverflowed : next.mandatoryOperationOverflowed = true) :
    Counted next (calls ++ [call]) := by
  constructor
  · exact ⟨fun _ => h, fun _ => hoverflowed⟩
  · rw [hoverflowed]
    exact nofun

theorem Counted.begin {calls : List Call} (h : Counted object calls)
    (hactive : object.active = true) :
    Counted object.beginMandatoryOperation.object (calls ++ [.beginMandatoryOperation]) := by
  have hopen : openOperations (calls ++ [.beginMandatoryOperation]) = openOperations calls + 1 :=
    openOperations_snoc calls _
  unfold beginMandatoryOperation
  rw [if_neg (by simp [hactive])]
  split
  · next hoverflowed =>
      exact .saturated (saturated_snoc.mpr (.inl (h.overflowed.mp hoverflowed))) hoverflowed
  · next hfits =>
      rw [Bool.not_eq_true] at hfits
      have hdepth := h.depth hfits
      split
      · next hfull =>
          refine .saturated (saturated_snoc.mpr (.inr ?_)) rfl
          rw [hopen, ← hdepth, hfull]
          decide
      · next hroom =>
          refine h.count hfits ?_ hfits
          have hne : object.mandatoryOperationDepth.toNat ≠ 4294967295 := fun hfull =>
            hroom (UInt32.toNat_inj.mp hfull)
          have hlt := object.mandatoryOperationDepth.toNat_lt
          show (object.mandatoryOperationDepth + 1).toNat = _
          rw [UInt32.toNat_add, hopen, ← hdepth]
          show (_ + 1) % 2 ^ 32 = _
          omega

theorem Counted.finish {calls : List Call} (h : Counted object calls) :
    Counted object.endMandatoryOperation.object (calls ++ [.endMandatoryOperation]) := by
  have hopen : openOperations (calls ++ [.endMandatoryOperation]) = openOperations calls - 1 :=
    openOperations_snoc calls _
  unfold endMandatoryOperation
  split
  · next hoverflowed =>
      exact .saturated (saturated_snoc.mpr (.inl (h.overflowed.mp hoverflowed))) hoverflowed
  · next hfits =>
      rw [Bool.not_eq_true] at hfits
      have hdepth := h.depth hfits
      split
      · next hpositive =>
          refine h.count hfits ?_ hfits
          have hone : 1 ≤ object.mandatoryOperationDepth := by
            rw [UInt32.le_iff_toNat_le]
            show 1 ≤ _
            have hne : object.mandatoryOperationDepth.toNat ≠ 0 := fun hzero =>
              hpositive (UInt32.toNat_inj.mp hzero)
            omega
          show (object.mandatoryOperationDepth - 1).toNat = _
          rw [UInt32.toNat_sub_of_le _ _ hone, hopen, ← hdepth]
          rfl
      · next hzero =>
          refine h.count hfits ?_ hfits
          rw [not_not] at hzero
          rw [hopen, ← hdepth, hzero]
          rfl

/-! ## The calls of a session -/

theorem after_snoc (start : UpdateForegroundProgress) (calls : List Call) (call : Call) :
    start.after (calls ++ [call]) = ((start.after calls).step call).object := by
  rw [after, List.foldl_append]
  rfl

theorem refusesIn_append (start : UpdateForegroundProgress) (calls more : List Call) :
    start.refusesIn (calls ++ more) =
      (start.refusesIn calls || (start.after calls).refusesIn more) := by
  induction calls generalizing start with
  | nil => rfl
  | cons call calls ih =>
      rw [List.cons_append, refusesIn, ih, refusesIn, Bool.or_assoc]
      rfl

theorem refusesIn_snoc (start : UpdateForegroundProgress) (calls : List Call) (call : Call) :
    start.refusesIn (calls ++ [call]) =
      (start.refusesIn calls || (start.after calls).refuses call) := by
  rw [refusesIn_append, refusesIn, refusesIn, Bool.or_false]

theorem asked_snoc (pumped : Bool) (calls : List Call) (call : Call) :
    asked pumped (calls ++ [call]) = (asked pumped calls || call.pumped) := by
  rw [asked, List.any_append, List.any_cons, List.any_nil, Bool.or_false, ← Bool.or_assoc]
  rfl

theorem step_latched {call : Call} (hactive : object.active = true) (hui : object.ui = true)
    (hcall : call.isCheckpoint = true) :
    Latched object call.cancelable call.pumped (object.step call) := by
  cases call with
  | report event pumped => exact report_latched hactive hui
  | checkpoint => exact checkpoint_latched hactive hui
  | _ => cases hcall

/-- A call that is no report or checkpoint presents nothing and leaves the latch alone. -/
structure Quiet (object : UpdateForegroundProgress) (outcome : Outcome) : Prop where
  presented : outcome.presented = []
  active : outcome.object.active = object.active
  ui : outcome.object.ui = object.ui
  cancelRequested : outcome.object.cancelRequested = object.cancelRequested
  stopSignaled : outcome.object.stopSignaled = object.stopSignaled
  hash : outcome.object.hashProgressPerMille = object.hashProgressPerMille
  stage : outcome.object.stageProgressPerMille = object.stageProgressPerMille

theorem step_quiet {call : Call} (hactive : object.active = true) (hend : call ≠ .endExplicit)
    (hcall : call.isCheckpoint = false) : Quiet object (object.step call) := by
  cases call with
  | beginExplicit begun pumped =>
      have hrefused : object.step (.beginExplicit begun pumped) = ⟨false, [], object⟩ := by
        show object.beginExplicit begun pumped = _
        rw [beginExplicit, if_pos (by simp [hactive])]
      rw [hrefused]
      exact ⟨rfl, rfl, rfl, rfl, rfl, rfl, rfl⟩
  | endExplicit => exact absurd rfl hend
  | beginMandatoryOperation =>
      show Quiet object object.beginMandatoryOperation
      unfold beginMandatoryOperation
      repeat' split
      all_goals exact ⟨rfl, rfl, rfl, rfl, rfl, rfl, rfl⟩
  | endMandatoryOperation =>
      show Quiet object object.endMandatoryOperation
      unfold endMandatoryOperation
      repeat' split
      all_goals exact ⟨rfl, rfl, rfl, rfl, rfl, rfl, rfl⟩
  | report => cases hcall
  | checkpoint => cases hcall

/-- The marks after a call of a session. -/
theorem step_marks {call : Call} (hactive : object.active = true) (hend : call ≠ .endExplicit)
    (hhash : object.hashProgressPerMille ≤ 1000) (hstage : object.stageProgressPerMille ≤ 1000) :
    (object.hashProgressPerMille ≤ (object.step call).object.hashProgressPerMille ∧
        (object.step call).object.hashProgressPerMille ≤ 1000) ∧
      object.stageProgressPerMille ≤ (object.step call).object.stageProgressPerMille ∧
        (object.step call).object.stageProgressPerMille ≤ 1000 := by
  cases hcall : call.isCheckpoint with
  | false =>
      have h := step_quiet hactive hend hcall
      rw [h.hash, h.stage]
      exact ⟨⟨UInt16.le_refl _, hhash⟩, UInt16.le_refl _, hstage⟩
  | true =>
      cases call with
      | report event pumped =>
          have h : Shows object event (object.report event pumped) :=
            report_shows hactive hhash hstage
          exact ⟨⟨h.hash_le, h.hash_bounded⟩, h.stage_le, h.stage_bounded⟩
      | checkpoint phase completedBytes totalBytes behavior pumped =>
          have h : (object.step (.checkpoint phase completedBytes totalBytes behavior
              pumped)).object.hashProgressPerMille = object.hashProgressPerMille ∧
            (object.step (.checkpoint phase completedBytes totalBytes behavior
              pumped)).object.stageProgressPerMille = object.stageProgressPerMille :=
            checkpoint_marks
          rw [h.1, h.2]
          exact ⟨⟨UInt16.le_refl _, hhash⟩, UInt16.le_refl _, hstage⟩
      | _ => cases hcall

/-- What the object remembers of the calls of its session. -/
structure Tracked (start : UpdateForegroundProgress) (pumped : Bool) (calls : List Call)
    (object : UpdateForegroundProgress) : Prop where
  active : object.active = true
  ui : object.ui = true
  requested : object.cancelRequested = asked pumped calls
  stopped : object.stopSignaled = (pumped || start.refusesIn calls)
  counted : Counted object calls
  hash : object.hashProgressPerMille ≤ 1000
  stage : object.stageProgressPerMille ≤ 1000

variable {start : UpdateForegroundProgress} {pumped : Bool} {calls : List Call}

theorem Tracked.step {call : Call} (h : Tracked start pumped calls (start.after calls))
    (hend : call ≠ .endExplicit) :
    Tracked start pumped (calls ++ [call]) (start.after (calls ++ [call])) := by
  rw [after_snoc]
  have hmarks := step_marks h.active hend h.hash h.stage
  cases hcall : call.isCheckpoint with
  | true =>
      have hlatched := step_latched h.active h.ui hcall
      have hnested : ∀ depth, nested depth call = depth := by
        cases call <;> first | exact fun _ => rfl | cases hcall
      refine ⟨hlatched.active, hlatched.ui, ?_, ?_,
        h.counted.keep hnested hlatched.depth hlatched.overflowed, hmarks.1.2, hmarks.2.2⟩
      · rw [hlatched.cancelRequested, h.requested, asked_snoc]
      · rw [hlatched.stopSignaled, h.stopped, refusesIn_snoc, refuses, hcall, Bool.true_and,
          Bool.or_assoc]
  | false =>
      have hquiet := step_quiet h.active hend hcall
      have hpumped : call.pumped = false := by
        cases call <;> first | rfl | cases hcall
      refine ⟨hquiet.active.trans h.active, hquiet.ui.trans h.ui, ?_, ?_, ?_, hmarks.1.2,
        hmarks.2.2⟩
      · rw [hquiet.cancelRequested, h.requested, asked_snoc, hpumped, Bool.or_false]
      · rw [hquiet.stopSignaled, h.stopped, refusesIn_snoc, refuses, hcall, Bool.false_and,
          Bool.or_false]
      · cases call with
        | beginExplicit begun pumped =>
            have hrefused : (start.after calls).step (.beginExplicit begun pumped) =
                ⟨false, [], start.after calls⟩ := by
              show (start.after calls).beginExplicit begun pumped = _
              rw [beginExplicit, if_pos (by simp [h.active])]
            rw [hrefused]
            exact h.counted.keep (fun _ => rfl) rfl rfl
        | endExplicit => exact absurd rfl hend
        | beginMandatoryOperation => exact h.counted.begin h.active
        | endMandatoryOperation => exact h.counted.finish
        | report => cases hcall
        | checkpoint => cases hcall

theorem beginExplicit_opened {begun : Bool}
    (h : (object.beginExplicit begun pumped).result = true) :
    object.ui = true ∧ (object.beginExplicit begun pumped).object =
      (object.opened.checkpoint .discovery 0 0 .cancelAtCheckpoint pumped).object := by
  unfold beginExplicit at h ⊢
  split at h
  · cases h
  · next hbegun =>
      rw [if_neg hbegun]
      refine ⟨?_, rfl⟩
      cases hui : object.ui with
      | true => rfl
      | false => simp [hui] at hbegun

/-- The object of a session that has just begun. -/
theorem tracked_begin {begun : Bool} (h : (object.beginExplicit begun pumped).result = true) :
    Tracked (object.beginExplicit begun pumped).object pumped []
      (object.beginExplicit begun pumped).object := by
  obtain ⟨hui, hobject⟩ := beginExplicit_opened h
  rw [hobject]
  have hlatched : Latched object.opened (.cancelAtCheckpoint =
      UpdateForegroundCancelBehavior.cancelAtCheckpoint) pumped
      (object.opened.checkpoint .discovery 0 0 .cancelAtCheckpoint pumped) :=
    checkpoint_latched rfl hui
  obtain ⟨hhash, hstage⟩ : (object.opened.checkpoint .discovery 0 0 .cancelAtCheckpoint
        pumped).object.hashProgressPerMille = 0 ∧
      (object.opened.checkpoint .discovery 0 0 .cancelAtCheckpoint
        pumped).object.stageProgressPerMille = 0 := checkpoint_marks
  refine ⟨hlatched.active, hlatched.ui, ?_, ?_, ⟨?_, ?_⟩, ?_, ?_⟩
  · rw [hlatched.cancelRequested]
    cases pumped <;> rfl
  · rw [hlatched.stopSignaled, hlatched.result]
    cases pumped <;> rfl
  · rw [hlatched.overflowed]
    constructor
    · exact nofun
    · rintro ⟨earlier, hinit, hmany⟩
      rw [List.prefix_nil.mp hinit] at hmany
      exact absurd hmany (by decide)
  · intro _
    rw [hlatched.depth]
    rfl
  · rw [hhash]
    decide
  · rw [hstage]
    decide

theorem tracked_of_begin {begun : Bool} (h : (object.beginExplicit begun pumped).result = true)
    (hend : .endExplicit ∉ calls) :
    Tracked (object.beginExplicit begun pumped).object pumped calls
      ((object.beginExplicit begun pumped).object.after calls) := by
  induction calls using List.reverseRecOn with
  | nil => exact tracked_begin h
  | append_singleton calls call ih =>
      have hsplit : .endExplicit ∉ calls ∧ call ≠ .endExplicit := by
        constructor
        · intro hmem
          exact hend (List.mem_append_left _ hmem)
        · rintro rfl
          exact hend (List.mem_append_right _ (List.mem_singleton.mpr rfl))
      exact (ih hsplit.1).step hsplit.2

/-! ## Refusals -/

/-- What a refusal says of the object and the call. -/
theorem refuses_iff {call : Call} (hactive : object.active = true) (hui : object.ui = true) :
    object.refuses call = true ↔
      (object.mandatoryOperationActive = false ∧ object.stopSignaled = false) ∧
        call.cancelable = true ∧ (object.cancelRequested || call.pumped) = true := by
  unfold refuses
  cases hcall : call.isCheckpoint with
  | true =>
      rw [(step_latched hactive hui hcall).result]
      simp only [Bool.true_and, Bool.not_eq_eq_eq_not, Bool.not_true, Bool.or_eq_false_iff,
        Bool.not_false, and_assoc]
  | false =>
      have hcancelable : call.cancelable = false := by
        cases call <;> first | rfl | cases hcall
      simp [hcancelable]

/-- After a refusal no call is refused and no event offers to cancel. -/
theorem stopped_later {later : List Call} (hactive : object.active = true)
    (hui : object.ui = true) (hstopped : object.stopSignaled = true)
    (hend : .endExplicit ∉ later) :
    object.refusesIn later = false ∧
      ∀ event ∈ object.presented later, event.cancelEnabled = false := by
  induction later generalizing object with
  | nil => exact ⟨rfl, nofun⟩
  | cons call later ih =>
      rw [List.mem_cons, not_or] at hend
      have hrefuses : object.refuses call = false := by
        rw [← Bool.not_eq_true, refuses_iff hactive hui, hstopped]
        exact fun h => nomatch h.1.2
      cases hcall : call.isCheckpoint with
      | true =>
          have h := step_latched hactive hui hcall
          have hnext := ih h.active h.ui (by rw [h.stopSignaled, hstopped, Bool.true_or]) hend.2
          refine ⟨by rw [refusesIn, hrefuses, hnext.1]; rfl, ?_⟩
          intro event hevent
          rcases List.mem_append.mp hevent with hevent | hevent
          · exact h.stopped hstopped event hevent
          · exact hnext.2 event hevent
      | false =>
          have h := step_quiet hactive (Ne.symm hend.1) hcall
          have hnext := ih (h.active.trans hactive) (h.ui.trans hui)
            (h.stopSignaled.trans hstopped) hend.2
          refine ⟨by rw [refusesIn, hrefuses, hnext.1]; rfl, ?_⟩
          intro event hevent
          rw [presented, h.presented, List.nil_append] at hevent
          exact hnext.2 event hevent

/-! ## The values presented -/

/-- Every report of the calls that is shown in the Hash phase has a share of it. -/
def SpannedIn (object : UpdateForegroundProgress) : List Call → Prop
  | [] => True
  | call :: calls =>
      (match call with
        | .report event _ => ¬object.Unspanned event
        | _ => True) ∧ SpannedIn (object.step call).object calls

theorem mem_shownValues {phase : UpdateForegroundPhase} {call : Call} {value : UInt16}
    (h : value ∈ object.shownValues phase call) :
    ∃ event pumped, call = .report event pumped ∧
      ∃ shown ∈ (object.report event pumped).presented,
        shown.phase = phase ∧ shown.progressPerMille = value := by
  cases call with
  | report event pumped =>
      obtain ⟨shown, hshown, rfl⟩ := List.mem_map.mp h
      obtain ⟨hpresented, hphase⟩ := List.mem_filter.mp hshown
      exact ⟨event, pumped, rfl, shown, hpresented, of_decide_eq_true hphase, rfl⟩
  | _ => cases h

/-- What a mark of the object says of the values of a phase. -/
structure Rises (mark : UpdateForegroundProgress → UInt16) (phase : UpdateForegroundPhase)
    (object : UpdateForegroundProgress) (calls : List Call) : Prop where
  above : ∀ value ∈ object.reported phase calls, mark object ≤ value
  sorted : (object.reported phase calls).Pairwise (· ≤ ·)

/-- Values that are all the mark after the call. -/
theorem Rises.cons {mark : UpdateForegroundProgress → UInt16} {phase : UpdateForegroundPhase}
    {call : Call} (h : Rises mark phase (object.step call).object calls)
    (hmark : mark object ≤ mark (object.step call).object)
    (hvalues : ∀ value ∈ object.shownValues phase call, value = mark (object.step call).object) :
    Rises mark phase object (call :: calls) := by
  have hsplit : object.reported phase (call :: calls) =
      object.shownValues phase call ++ (object.step call).object.reported phase calls := rfl
  constructor
  · intro value hvalue
    rw [hsplit, List.mem_append] at hvalue
    rcases hvalue with hvalue | hvalue
    · rw [hvalues value hvalue]
      exact hmark
    · exact UInt16.le_trans hmark (h.above value hvalue)
  · rw [hsplit, List.pairwise_append]
    refine ⟨?_, h.sorted, ?_⟩
    · refine List.pairwise_of_forall_mem_list fun a ha b hb => ?_
      rw [hvalues a ha, hvalues b hb]
      exact UInt16.le_refl _
    · intro a ha b hb
      rw [hvalues a ha]
      exact h.above b hb

/-- The object of an open session with its marks in bounds. -/
structure Open (object : UpdateForegroundProgress) : Prop where
  active : object.active = true
  ui : object.ui = true
  hash : object.hashProgressPerMille ≤ 1000
  stage : object.stageProgressPerMille ≤ 1000

theorem Open.step {call : Call} (h : Open object) (hend : call ≠ .endExplicit) :
    Open (object.step call).object := by
  have hmarks := step_marks h.active hend h.hash h.stage
  cases hcall : call.isCheckpoint with
  | true =>
      have hlatched := step_latched h.active h.ui hcall
      exact ⟨hlatched.active, hlatched.ui, hmarks.1.2, hmarks.2.2⟩
  | false =>
      have hquiet := step_quiet h.active hend hcall
      exact ⟨hquiet.active.trans h.active, hquiet.ui.trans h.ui, hmarks.1.2, hmarks.2.2⟩

theorem Open.bounded (h : Open object) (hend : .endExplicit ∉ calls)
    (phase : UpdateForegroundPhase) : ∀ value ∈ object.reported phase calls, value ≤ 1000 := by
  induction calls generalizing object with
  | nil => exact nofun
  | cons call calls ih =>
      rw [List.mem_cons, not_or] at hend
      intro value hvalue
      rcases List.mem_append.mp hvalue with hvalue | hvalue
      · obtain ⟨event, pumped, rfl, shown, hshown, -, rfl⟩ := mem_shownValues hvalue
        exact (report_shows h.active h.hash h.stage).bounded shown hshown
      · exact ih (h.step (Ne.symm hend.1)) hend.2 value hvalue

theorem Open.stage_rises (h : Open object) (hend : .endExplicit ∉ calls) :
    Rises (·.stageProgressPerMille) .stage object calls := by
  induction calls generalizing object with
  | nil => exact ⟨nofun, .nil⟩
  | cons call calls ih =>
      rw [List.mem_cons, not_or] at hend
      refine (ih (h.step (Ne.symm hend.1)) hend.2).cons
        (step_marks h.active (Ne.symm hend.1) h.hash h.stage).2.1 ?_
      intro value hvalue
      obtain ⟨event, pumped, rfl, shown, hshown, hphase, rfl⟩ := mem_shownValues hvalue
      exact (report_shows h.active h.hash h.stage).stage shown hshown hphase

theorem Open.hash_rises (h : Open object) (hend : .endExplicit ∉ calls)
    (hspanned : SpannedIn object calls) :
    Rises (·.hashProgressPerMille) .hash object calls := by
  induction calls generalizing object with
  | nil => exact ⟨nofun, .nil⟩
  | cons call calls ih =>
      rw [List.mem_cons, not_or] at hend
      refine (ih (h.step (Ne.symm hend.1)) hend.2 hspanned.2).cons
        (step_marks h.active (Ne.symm hend.1) h.hash h.stage).1.1 ?_
      intro value hvalue
      obtain ⟨event, pumped, rfl, shown, hshown, hphase, rfl⟩ := mem_shownValues hvalue
      exact (report_shows h.active h.hash h.stage).hash hspanned.1 shown hshown hphase

/-! ## The session -/

/-- In every session whose `BeginExplicit` reads no request and that has no report shown in the
Hash phase without a share of it: at most one report or checkpoint is refused, only one that may
be, and not before the user asked; a request is not lost; nothing after the refusal offers to
cancel; and what is reported of the Hash and of the Stage phase never falls and is at most 1000. -/
theorem session_kept (object : UpdateForegroundProgress) (begun : Bool) (calls : List Call)
    (hbegin : (object.beginExplicit begun false).result = true)
    (hend : .endExplicit ∉ calls)
    (hspanned : SpannedIn (object.beginExplicit begun false).object calls) :
    SessionKept (object.beginExplicit begun false).object false calls := by
  have htracked : ∀ earlier later, calls = earlier ++ later →
      Tracked (object.beginExplicit begun false).object false earlier
        ((object.beginExplicit begun false).object.after earlier) := by
    intro earlier later hsplit
    apply tracked_of_begin hbegin
    intro hmem
    rw [hsplit] at hend
    exact hend (List.mem_append_left _ hmem)
  have hopen : Open (object.beginExplicit begun false).object := by
    have h := htracked [] calls rfl
    exact ⟨h.active, h.ui, h.hash, h.stage⟩
  generalize (object.beginExplicit begun false).object = start at *
  -- A refusal stops the session.
  have hstop : ∀ earlier call later, calls = earlier ++ call :: later →
      (start.after earlier).refuses call = true →
      ((start.after earlier).step call).object.refusesIn later = false ∧
        ∀ event ∈ ((start.after earlier).step call).object.presented later,
          event.cancelEnabled = false := by
    intro earlier call later hsplit hrefuses
    have hnext := htracked (earlier ++ [call]) later (by rw [hsplit, List.append_cons])
    rw [after_snoc] at hnext
    refine stopped_later hnext.active hnext.ui ?_ ?_
    · rw [hnext.stopped, refusesIn_snoc, hrefuses, Bool.or_true, Bool.or_true]
    · intro hmem
      rw [hsplit] at hend
      exact hend (List.mem_append_right _ (List.mem_cons_of_mem _ hmem))
  constructor
  case once =>
    intro earlier call later hsplit hrefuses
    have h := htracked earlier _ hsplit
    have hfree := ((refuses_iff h.active h.ui).mp hrefuses).1.2
    rw [h.stopped, Bool.false_or] at hfree
    exact ⟨hfree, (hstop earlier call later hsplit hrefuses).1⟩
  case justified =>
    intro earlier call later hsplit hrefuses
    have h := htracked earlier _ hsplit
    obtain ⟨⟨hidle, -⟩, hcancelable, hasked⟩ := (refuses_iff h.active h.ui).mp hrefuses
    refine ⟨hcancelable, ?_, ?_⟩
    · by_contra hopen
      rw [h.counted.mandatory_of_open hopen] at hidle
      cases hidle
    · rw [asked_snoc, ← h.requested]
      exact hasked
  case notLost =>
    intro earlier call later hsplit hcancelable hclosed hfits hasked
    have h := htracked earlier _ hsplit
    have hidle : (start.after earlier).mandatoryOperationActive = false := by
      rw [← Bool.not_eq_true, h.counted.mandatory_iff]
      simp only [hclosed, hfits, ne_eq, not_true_eq_false, or_self, not_false_eq_true]
    rw [refusesIn_snoc, Bool.or_eq_true]
    cases hstopped : (start.after earlier).stopSignaled with
    | true =>
        rw [h.stopped, Bool.false_or] at hstopped
        exact .inl hstopped
    | false =>
        rw [asked_snoc, ← h.requested] at hasked
        exact .inr ((refuses_iff h.active h.ui).mpr ⟨⟨hidle, hstopped⟩, hcancelable, hasked⟩)
  case disabled =>
    intro earlier call later hsplit hrefuses
    exact (hstop earlier call later hsplit hrefuses).2
  case bounded =>
    intro value hvalue
    rcases List.mem_append.mp hvalue with hvalue | hvalue
    · exact hopen.bounded hend _ value hvalue
    · exact hopen.bounded hend _ value hvalue
  case hash => exact (hopen.hash_rises hend hspanned).sorted
  case stage => exact (hopen.stage_rises hend).sorted

/-- The user cancels in the middle of the Hash phase: the next report is refused. -/
theorem session_kept_cancel :
    let begun := (new true).beginExplicit true false
    let calls : List Call :=
      [.report ⟨.storedArchiveHashed, 1, 2⟩ false, .beginMandatoryOperation,
        .report ⟨.preparedFileVerified, 1, 1⟩ true, .endMandatoryOperation,
        .report ⟨.storedArchiveHashed, 2, 2⟩ false]
    SessionKept begun.object false calls ∧ begun.object.refusesIn calls = true ∧
      begun.object.reported .hash calls = [80, 80, 80, 160, 160] := by
  refine ⟨session_kept (new true) true _ rfl (by simp) ?_, by decide, by decide⟩
  simp only [SpannedIn, true_and, and_true]
  exact ⟨fun h => (nomatch h.2), fun h => (nomatch h.1), fun h => (nomatch h.2)⟩

/-- A request that is read while the session begins refuses nothing, and a file hash before the
staging lowers the Hash phase. -/
theorem session_kept_fails :
    (((new true).beginExplicit true true).result = true ∧
      ¬SessionKept ((new true).beginExplicit true true).object true
        [.checkpoint .manifest 0 0 .cancelAtCheckpoint false]) ∧
      ((new true).beginExplicit true false).result = true ∧
        ¬SessionKept ((new true).beginExplicit true false).object false
          [.report ⟨.storedArchiveHashed, 100, 100⟩ false,
            .report ⟨.installerFileHashed, 0, 100⟩ false] := by
  constructor
  · refine ⟨rfl, fun h => ?_⟩
    have hfits : ¬Saturated [] := by
      rintro ⟨earlier, hinit, hmany⟩
      rw [List.prefix_nil.mp hinit] at hmany
      exact absurd hmany (by decide)
    exact absurd (h.notLost [] _ [] rfl rfl rfl hfits rfl) (by decide)
  · exact ⟨rfl, fun h => absurd h.hash (by decide)⟩

end UpdateForegroundProgress

end Foreground

end BmxUpdate
