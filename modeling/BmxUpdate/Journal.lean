import BmxUpdate.Library.Wire

/-!
# The update journal

The record of an update transaction (`update_journal.cpp`): which records are
valid, how one is written to and read from its 188-byte file, which of the two
journal files is selected, and which record may follow which.

The ten flags are a 16-bit word in the source and stay one here.  Generation
and sequence numbers are 64-bit words, so `generation + 1` wraps as it does in
the source; the step counters, which a valid record bounds by 65535, are
natural numbers.
-/

namespace BmxUpdate

open Wire

/-! ## Board families -/

inductive BoardFamily where
  | unknown
  | pi4Pi400
  | pi5Pi500
deriving DecidableEq, Repr

/-- `IsKnownBoardFamily` -/
def isKnownBoardFamily : BoardFamily → Bool
  | .unknown => false
  | .pi4Pi400 | .pi5Pi500 => true

def BoardFamily.toByte : BoardFamily → UInt8
  | .unknown => 0
  | .pi4Pi400 => 1
  | .pi5Pi500 => 2

/-- The family of an encoded byte.  The source casts the byte and rejects the
values without a name in `RecordIsValid`. -/
def BoardFamily.ofByte (b : UInt8) : Option BoardFamily :=
  if b = 0 then some .unknown
  else if b = 1 then some .pi4Pi400
  else if b = 2 then some .pi5Pi500
  else none

@[simp] theorem BoardFamily.ofByte_toByte (board : BoardFamily) :
    BoardFamily.ofByte board.toByte = some board := by
  cases board <;> rfl

/-! ## Records -/

inductive JournalState where
  | idle
  | discovered
  | downloaded
  | prepared
  | staged
  | candidatePending
  | candidateHealthy
  | committing
  | committed
  | rollingBack
deriving DecidableEq, Repr

def JournalState.toByte : JournalState → UInt8
  | .idle => 0
  | .discovered => 1
  | .downloaded => 2
  | .prepared => 3
  | .staged => 4
  | .candidatePending => 5
  | .candidateHealthy => 6
  | .committing => 7
  | .committed => 8
  | .rollingBack => 9

/-- The state of an encoded byte; `none` is the failure of `IsKnownState`. -/
def JournalState.ofByte (b : UInt8) : Option JournalState :=
  if b = 0 then some .idle
  else if b = 1 then some .discovered
  else if b = 2 then some .downloaded
  else if b = 3 then some .prepared
  else if b = 4 then some .staged
  else if b = 5 then some .candidatePending
  else if b = 6 then some .candidateHealthy
  else if b = 7 then some .committing
  else if b = 8 then some .committed
  else if b = 9 then some .rollingBack
  else none

@[simp] theorem JournalState.ofByte_toByte (state : JournalState) :
    JournalState.ofByte state.toByte = some state := by
  cases state <;> rfl

abbrev JournalFlags := UInt16

namespace JournalFlags

def userApproved : JournalFlags := (1 : UInt16) <<< 0
def resetRequired : JournalFlags := (1 : UInt16) <<< 1
def resetApproved : JournalFlags := (1 : UInt16) <<< 2
def downloadVerified : JournalFlags := (1 : UInt16) <<< 3
def snapshotComplete : JournalFlags := (1 : UInt16) <<< 4
def stagingComplete : JournalFlags := (1 : UInt16) <<< 5
def trybootArmed : JournalFlags := (1 : UInt16) <<< 6
def candidateHealthy : JournalFlags := (1 : UInt16) <<< 7
def selectorCommitted : JournalFlags := (1 : UInt16) <<< 8
def rollbackRequested : JournalFlags := (1 : UInt16) <<< 9

/-- `kKnownJournalFlags` -/
def known : JournalFlags :=
  userApproved ||| resetRequired ||| resetApproved ||| downloadVerified |||
    snapshotComplete ||| stagingComplete ||| trybootArmed ||| candidateHealthy |||
    selectorCommitted ||| rollbackRequested

/-- Every flag of `required` is set in `flags`. -/
def Has (flags required : JournalFlags) : Prop := flags &&& required = required

instance (flags required : JournalFlags) : Decidable (Has flags required) :=
  inferInstanceAs (Decidable (_ = _))

end JournalFlags

/-- `kTransactionIdBytes` -/
abbrev TransactionId := Block 16

/-- A SHA-256 digest, `kSha256DigestBytes` long. -/
abbrev Digest := Block 32

def kMaximumJournalSteps : Nat := 65535

/-- A record of the journal: where a transaction stands. -/
structure JournalRecord where
  generation : UInt64
  transactionId : TransactionId
  state : JournalState
  substate : UInt8
  flags : JournalFlags
  sourceReleaseSequence : UInt64
  targetReleaseSequence : UInt64
  board : BoardFamily
  manifestSha256 : Digest
  zipSha256 : Digest
  consentSha256 : Digest
  oldBootGeneration : UInt64
  newBootGeneration : UInt64
  completedSteps : Nat
  totalSteps : Nat
deriving DecidableEq

/-- `MakeIdleJournalRecord` -/
def makeIdleJournalRecord (generation : UInt64) : JournalRecord where
  generation := generation
  transactionId := .zero 16
  state := .idle
  substate := 0
  flags := 0
  sourceReleaseSequence := 0
  targetReleaseSequence := 0
  board := .unknown
  manifestSha256 := .zero 32
  zipSha256 := .zero 32
  consentSha256 := .zero 32
  oldBootGeneration := 0
  newBootGeneration := 0
  completedSteps := 0
  totalSteps := 0

/-! ## Valid records -/

open JournalFlags in
/-- `RequiredFlagsForState` -/
def requiredFlagsForState : JournalState → JournalFlags
  | .downloaded | .prepared => userApproved ||| downloadVerified
  | .staged =>
      userApproved ||| downloadVerified ||| snapshotComplete ||| stagingComplete
  | .candidatePending =>
      userApproved ||| downloadVerified ||| snapshotComplete ||| stagingComplete |||
        trybootArmed
  | .candidateHealthy | .committing =>
      userApproved ||| downloadVerified ||| snapshotComplete ||| stagingComplete |||
        trybootArmed ||| candidateHealthy
  | .committed =>
      userApproved ||| downloadVerified ||| snapshotComplete ||| stagingComplete |||
        trybootArmed ||| candidateHealthy ||| selectorCommitted
  | .rollingBack => userApproved ||| downloadVerified ||| rollbackRequested
  | .idle | .discovered => 0

open JournalFlags in
/-- `AllowedFlagsForState` -/
def allowedFlagsForState : JournalState → JournalFlags
  | .idle => 0
  | .discovered => resetRequired
  | .downloaded => requiredFlagsForState .downloaded ||| (resetRequired ||| resetApproved)
  | .prepared =>
      requiredFlagsForState .prepared ||| (resetRequired ||| resetApproved) |||
        snapshotComplete
  | .staged => requiredFlagsForState .staged ||| (resetRequired ||| resetApproved)
  | .candidatePending =>
      requiredFlagsForState .candidatePending ||| (resetRequired ||| resetApproved)
  | .candidateHealthy =>
      requiredFlagsForState .candidateHealthy ||| (resetRequired ||| resetApproved)
  | .committing =>
      requiredFlagsForState .committing ||| (resetRequired ||| resetApproved) |||
        selectorCommitted
  | .committed => requiredFlagsForState .committed ||| (resetRequired ||| resetApproved)
  | .rollingBack => known

/-- The part of `RecordIsValid` every record meets. -/
def RecordBoundsValid (r : JournalRecord) : Prop :=
  r.generation ≠ 0 ∧ r.generation ≠ 0xffffffffffffffff ∧ r.substate ≤ 31 ∧
    r.flags &&& ~~~JournalFlags.known = 0 ∧
    r.completedSteps ≤ r.totalSteps ∧ r.totalSteps ≤ kMaximumJournalSteps

/-- The part of `RecordIsValid` for a record between transactions. -/
def IdleRecordValid (r : JournalRecord) : Prop :=
  r.flags = 0 ∧ r.substate = 0 ∧ r.transactionId = .zero 16 ∧
    r.sourceReleaseSequence = 0 ∧ r.targetReleaseSequence = 0 ∧ r.board = .unknown ∧
    r.manifestSha256 = .zero 32 ∧ r.zipSha256 = .zero 32 ∧ r.consentSha256 = .zero 32 ∧
    r.oldBootGeneration = 0 ∧ r.newBootGeneration = 0 ∧
    r.completedSteps = 0 ∧ r.totalSteps = 0

/-- The part of `RecordIsValid` for a record inside a transaction. -/
def TransactionRecordValid (r : JournalRecord) : Prop :=
  r.transactionId ≠ .zero 16 ∧ r.sourceReleaseSequence ≠ 0 ∧
    r.sourceReleaseSequence < r.targetReleaseSequence ∧
    isKnownBoardFamily r.board = true ∧
    r.manifestSha256 ≠ .zero 32 ∧ r.zipSha256 ≠ .zero 32 ∧ r.consentSha256 ≠ .zero 32 ∧
    r.oldBootGeneration ≠ 0 ∧ r.newBootGeneration ≠ 0 ∧
    r.oldBootGeneration ≠ r.newBootGeneration ∧ r.totalSteps ≠ 0 ∧
    r.flags.Has (requiredFlagsForState r.state) ∧
    r.flags &&& ~~~(allowedFlagsForState r.state) = 0 ∧
    (r.flags &&& JournalFlags.resetApproved ≠ 0 →
      r.flags &&& JournalFlags.resetRequired ≠ 0) ∧
    (r.flags &&& JournalFlags.resetRequired ≠ 0 → r.state ≠ .discovered →
      r.flags &&& JournalFlags.resetApproved ≠ 0)

instance (r : JournalRecord) : Decidable (RecordBoundsValid r) :=
  inferInstanceAs (Decidable (_ ∧ _))

instance (r : JournalRecord) : Decidable (IdleRecordValid r) :=
  inferInstanceAs (Decidable (_ ∧ _))

instance (r : JournalRecord) : Decidable (TransactionRecordValid r) :=
  inferInstanceAs (Decidable (_ ∧ _))

/-- `RecordIsValid` -/
def RecordIsValid (r : JournalRecord) : Prop :=
  RecordBoundsValid r ∧
    if r.state = .idle then IdleRecordValid r else TransactionRecordValid r

instance (r : JournalRecord) : Decidable (RecordIsValid r) :=
  inferInstanceAs (Decidable (_ ∧ _))

/-! ## Transitions -/

/-- `SameTransaction` -/
def SameTransaction (left right : JournalRecord) : Prop :=
  left.transactionId = right.transactionId

/-- `SameImmutableFields` -/
def SameImmutableFields (left right : JournalRecord) : Prop :=
  left.sourceReleaseSequence = right.sourceReleaseSequence ∧
    left.targetReleaseSequence = right.targetReleaseSequence ∧
    left.board = right.board ∧
    left.manifestSha256 = right.manifestSha256 ∧
    left.zipSha256 = right.zipSha256 ∧
    left.consentSha256 = right.consentSha256 ∧
    left.oldBootGeneration = right.oldBootGeneration ∧
    left.newBootGeneration = right.newBootGeneration

instance (left right : JournalRecord) : Decidable (SameTransaction left right) :=
  inferInstanceAs (Decidable (_ = _))

instance (left right : JournalRecord) : Decidable (SameImmutableFields left right) :=
  inferInstanceAs (Decidable (_ ∧ _))

/-- The `switch` that ends `StateEdgeAllowed`: the one forward edge of a state. -/
def forwardEdge : JournalState → JournalState → Bool
  | .idle, .discovered | .discovered, .downloaded | .downloaded, .prepared
  | .prepared, .staged | .staged, .candidatePending
  | .candidatePending, .candidateHealthy | .candidateHealthy, .committing
  | .committing, .committed => true
  | _, _ => false

/-- `StateEdgeAllowed` -/
def stateEdgeAllowed (current next : JournalState) : Bool :=
  if current = next ∧ current ≠ .idle then true
  else if next = .idle then
    current = .discovered ∨ current = .downloaded ∨ current = .committed ∨
      current = .rollingBack
  else if next = .rollingBack then
    current = .prepared ∨ current = .staged ∨ current = .candidatePending ∨
      current = .candidateHealthy ∨ current = .committing ∨ current = .committed
  else forwardEdge current next

inductive JournalTransitionStatus where
  | allowed
  | invalidCurrentRecord
  | invalidNextRecord
  | generationMismatch
  | stateTransitionDenied
  | transactionMismatch
  | immutableFieldChanged
  | flagsRegressed
  | progressRegressed
deriving DecidableEq, Repr

/-- `ValidateJournalTransition` -/
def validateJournalTransition (current next : JournalRecord) : JournalTransitionStatus :=
  if ¬RecordIsValid current then .invalidCurrentRecord
  else if ¬RecordIsValid next then .invalidNextRecord
  else if current.generation = 0xffffffffffffffff ∨
      next.generation ≠ current.generation + 1 then .generationMismatch
  else if ¬stateEdgeAllowed current.state next.state then .stateTransitionDenied
  else if current.state = .idle then .allowed
  else if next.state = .idle then .allowed
  else if ¬SameTransaction current next then .transactionMismatch
  else if ¬SameImmutableFields current next then .immutableFieldChanged
  else if ¬next.flags.Has current.flags then .flagsRegressed
  else if next.completedSteps < current.completedSteps ∨
      next.totalSteps ≠ current.totalSteps then .progressRegressed
  else .allowed

/-- What a record may change of the record before it in the same transaction. -/
structure Continues (current next : JournalRecord) : Prop where
  transaction : SameTransaction current next
  immutable : SameImmutableFields current next
  flags : next.flags.Has current.flags
  completedSteps : current.completedSteps ≤ next.completedSteps
  totalSteps : next.totalSteps = current.totalSteps

/-- Everything an allowed transition says of its two records. -/
structure Allowed (current next : JournalRecord) : Prop where
  current_valid : RecordIsValid current
  next_valid : RecordIsValid next
  generation : next.generation = current.generation + 1
  edge : stateEdgeAllowed current.state next.state = true
  continues : current.state ≠ .idle → next.state ≠ .idle → Continues current next

theorem validateJournalTransition_eq_allowed_iff {current next : JournalRecord} :
    validateJournalTransition current next = .allowed ↔ Allowed current next := by
  unfold validateJournalTransition
  constructor
  · intro h
    split at h
    · cases h
    split at h
    · cases h
    split at h
    · cases h
    split at h
    · cases h
    rename_i hcurrent hnext hgeneration hedge
    simp only [not_not] at hcurrent hnext hedge
    push Not at hgeneration
    refine ⟨hcurrent, hnext, hgeneration.2, hedge, fun hidle hidle' => ?_⟩
    rw [if_neg hidle, if_neg hidle'] at h
    split at h
    · cases h
    split at h
    · cases h
    split at h
    · cases h
    split at h
    · cases h
    rename_i htransaction himmutable hflags hprogress
    push Not at htransaction himmutable hflags hprogress
    exact ⟨htransaction, himmutable, hflags, hprogress.1, hprogress.2⟩
  · intro h
    have hmax : current.generation ≠ 0xffffffffffffffff := h.current_valid.1.2.1
    rw [if_neg (not_not.mpr h.current_valid), if_neg (not_not.mpr h.next_valid),
      if_neg (by simp [hmax, h.generation]), if_neg (by simp [h.edge])]
    by_cases hidle : current.state = .idle
    · rw [if_pos hidle]
    by_cases hidle' : next.state = .idle
    · rw [if_neg hidle, if_pos hidle']
    have hc := h.continues hidle hidle'
    rw [if_neg hidle, if_neg hidle', if_neg (not_not.mpr hc.transaction),
      if_neg (not_not.mpr hc.immutable), if_neg (not_not.mpr hc.flags),
      if_neg (by simp [hc.completedSteps, hc.totalSteps])]

end BmxUpdate
