import BmxUpdate.Journal
import Mathlib.Data.List.Chain
import Mathlib.Data.List.Induction

/-!
# Histories of journal records

What `ValidateJournalTransition` makes of a whole chain of records.  A chain
starts at an Idle record and each record is an allowed successor of the one
before it.  Inside one transaction (a stretch of records between two Idle ones)
`Continues` is transitive, so every field it speaks of is monotone over the
stretch, not only over one step.

The order of the states is carried by `statesBefore`: the forward path that
leads to a state.  A self loop keeps the path and a forward edge extends it by
one state, so the states of a transaction up to a record contain its path.
-/

namespace BmxUpdate

/-! ## Flags and edges -/

theorem JournalFlags.Has.trans {a b c : JournalFlags} (hab : a.Has b) (hbc : b.Has c) :
    a.Has c := by
  unfold Has at *
  rw [← hbc, ← UInt16.and_assoc, hab]

/-- An edge out of a state is a self loop, an edge to Idle, an edge to
RollingBack, or the one forward edge of the state. -/
theorem stateEdgeAllowed_cases {current next : JournalState}
    (h : stateEdgeAllowed current next = true) :
    next = current ∨ next = .idle ∨ next = .rollingBack ∨ forwardEdge current next = true := by
  cases current <;> cases next <;> simp_all [stateEdgeAllowed]

theorem state_of_rollingBack_edge {next : JournalState}
    (h : stateEdgeAllowed .rollingBack next = true) : next = .rollingBack ∨ next = .idle := by
  cases next <;> simp_all [stateEdgeAllowed, forwardEdge]

/-- The states on the forward path from Idle to a state, both ends left out.
RollingBack can be entered from anywhere and has no path. -/
def statesBefore : JournalState → List JournalState
  | .idle | .rollingBack | .discovered => []
  | .downloaded => [.discovered]
  | .prepared => [.discovered, .downloaded]
  | .staged => [.discovered, .downloaded, .prepared]
  | .candidatePending => [.discovered, .downloaded, .prepared, .staged]
  | .candidateHealthy => [.discovered, .downloaded, .prepared, .staged, .candidatePending]
  | .committing =>
      [.discovered, .downloaded, .prepared, .staged, .candidatePending, .candidateHealthy]
  | .committed =>
      [.discovered, .downloaded, .prepared, .staged, .candidatePending, .candidateHealthy,
        .committing]

/-- A forward edge out of a transaction's state appends that state to the path. -/
theorem statesBefore_of_forwardEdge {current next : JournalState}
    (hidle : current ≠ .idle) (h : forwardEdge current next = true) :
    statesBefore next = statesBefore current ++ [current] := by
  cases current <;> cases next <;> simp_all [forwardEdge, statesBefore]

/-! ## Chains -/

/-- Every record of the chain may follow the record before it. -/
def JournalChain (chain : List JournalRecord) : Prop :=
  chain.IsChain fun current next => validateJournalTransition current next = .allowed

instance (chain : List JournalRecord) : Decidable (JournalChain chain) :=
  inferInstanceAs (Decidable (List.IsChain _ chain))

theorem JournalChain.allowed {chain : List JournalRecord} (h : JournalChain chain) :
    chain.IsChain Allowed :=
  h.imp fun _ _ => validateJournalTransition_eq_allowed_iff.mp

theorem Continues.trans {a b c : JournalRecord} (hab : Continues a b) (hbc : Continues b c) :
    Continues a c where
  transaction := Eq.trans hab.transaction hbc.transaction
  immutable := by
    obtain ⟨h1, h2, h3, h4, h5, h6, h7, h8⟩ := hab.immutable
    obtain ⟨k1, k2, k3, k4, k5, k6, k7, k8⟩ := hbc.immutable
    exact ⟨h1.trans k1, h2.trans k2, h3.trans k3, h4.trans k4, h5.trans k5, h6.trans k6,
      h7.trans k7, h8.trans k8⟩
  flags := hbc.flags.trans hab.flags
  completedSteps := hab.completedSteps.trans hbc.completedSteps
  totalSteps := hbc.totalSteps.trans hab.totalSteps

instance : Trans Continues Continues Continues := ⟨Continues.trans⟩

/-- An allowed successor has the next generation as a number: the 64-bit
addition did not wrap, since no valid record holds the largest generation. -/
theorem Allowed.toNat_generation {current next : JournalRecord} (h : Allowed current next) :
    next.generation.toNat = current.generation.toNat + 1 := by
  have hmax : current.generation ≠ 0xffffffffffffffff := h.current_valid.1.2.1
  have hlt := current.generation.toNat_lt
  have hne : current.generation.toNat ≠ 18446744073709551615 := by
    intro heq
    exact hmax (UInt64.toNat.inj heq)
  rw [h.generation, UInt64.toNat_add]
  simp
  omega

theorem toNat_generation_of_isChain {chain : List JournalRecord}
    (h : chain.IsChain Allowed) (i : Nat) (hi : i < chain.length) :
    chain[i].generation.toNat = chain[0].generation.toNat + i := by
  induction i with
  | zero => rfl
  | succ i ih =>
      have hstep : Allowed chain[i] chain[i + 1] := List.isChain_iff_getElem.mp h i hi
      rw [hstep.toNat_generation, ih (by omega)]
      omega

/-- Inside a stretch without Idle records, every earlier record is continued by
every later one. -/
theorem pairwise_continues_of_isChain {stretch : List JournalRecord}
    (h : stretch.IsChain Allowed) (hidle : ∀ r ∈ stretch, r.state ≠ .idle) :
    stretch.Pairwise Continues := by
  rw [← List.isChain_iff_pairwise]
  rw [List.isChain_iff_getElem] at h ⊢
  intro i hi
  exact (h i hi).continues (hidle _ (List.getElem_mem _)) (hidle _ (List.getElem_mem _))

/-- Inside a transaction, what comes after a RollingBack record is RollingBack. -/
theorem rollingBack_of_isChain {first : JournalRecord} {rest : List JournalRecord}
    (h : (first :: rest).IsChain Allowed) (hfirst : first.state = .rollingBack)
    (hidle : ∀ r ∈ rest, r.state ≠ .idle) : ∀ r ∈ rest, r.state = .rollingBack := by
  induction rest generalizing first with
  | nil => simp
  | cons next rest ih =>
      rw [List.isChain_cons_cons] at h
      have hnext : next.state = .rollingBack := by
        have hedge := h.1.edge
        rw [hfirst] at hedge
        exact (state_of_rollingBack_edge hedge).resolve_right (hidle next List.mem_cons_self)
      intro r hr
      rcases List.mem_cons.mp hr with rfl | hr
      · exact hnext
      · exact ih h.2 hnext (fun q hq => hidle q (List.mem_cons_of_mem _ hq)) r hr

/-- The states of a transaction before one of its records contain the forward
path to that record's state, in order.  The induction is on the records before
it, newest last. -/
theorem statesBefore_sublist_of_isChain {idle last : JournalRecord}
    {before : List JournalRecord} (h : (idle :: (before ++ [last])).IsChain Allowed)
    (hidle : idle.state = .idle) (hbefore : ∀ r ∈ before, r.state ≠ .idle)
    (hlast : last.state ≠ .idle) (hrolling : last.state ≠ .rollingBack) :
    (statesBefore last.state).Sublist (before.map JournalRecord.state) := by
  induction before using List.reverseRecOn generalizing last with
  | nil =>
      have hedge := (List.isChain_cons_cons.mp h).1.edge
      rw [hidle] at hedge
      have hdiscovered : last.state = .discovered := by
        cases hs : last.state <;> simp_all [stateEdgeAllowed, forwardEdge]
      simp [hdiscovered, statesBefore]
  | append_singleton earlier prev ih =>
      have hprev : prev.state ≠ .idle := hbefore prev (by simp)
      have hchain : (idle :: (earlier ++ [prev])).IsChain Allowed ∧ Allowed prev last := by
        rw [show idle :: (earlier ++ [prev] ++ [last]) =
          (idle :: earlier) ++ prev :: [last] by simp, List.isChain_split] at h
        exact ⟨by simpa using h.1, (List.isChain_cons_cons.mp h.2).1⟩
      obtain ⟨hfront, hstep⟩ := hchain
      have hprev_rolling : prev.state ≠ .rollingBack := by
        intro heq
        have hedge := hstep.edge
        rw [heq] at hedge
        rcases state_of_rollingBack_edge hedge with h | h
        · exact hrolling h
        · exact hlast h
      have hpath := ih hfront (fun r hr => hbefore r (by simp [hr])) hprev hprev_rolling
      rw [List.map_append, List.map_singleton]
      rcases stateEdgeAllowed_cases hstep.edge with hself | hto | hto | hforward
      · rw [hself]
        exact hpath.trans (List.sublist_append_left _ _)
      · exact absurd hto hlast
      · exact absurd hto hrolling
      · rw [statesBefore_of_forwardEdge hprev hforward]
        exact hpath.append (List.Sublist.refl _)

/-! ## The law of a journal chain -/

/-- What holds of the records of one transaction, `transaction` being the
non-Idle records that follow an Idle one. -/
structure TransactionLaw (transaction : List JournalRecord) : Prop where
  /-- Identity and totals are constant, flags and progress never decrease. -/
  continues : transaction.Pairwise Continues
  /-- A Committed record comes after the seven states that lead to it, in order. -/
  committed : ∀ before r after, transaction = before ++ r :: after → r.state = .committed →
    [.discovered, .downloaded, .prepared, .staged, .candidatePending, .candidateHealthy,
      .committing].Sublist (before.map JournalRecord.state)
  /-- Nothing but RollingBack follows RollingBack before the next Idle record. -/
  rollingBack : ∀ before r after, transaction = before ++ r :: after →
    r.state = .rollingBack → ∀ q ∈ after, q.state = .rollingBack

theorem transactionLaw_of_isChain {idle : JournalRecord} {transaction : List JournalRecord}
    (h : (idle :: transaction).IsChain Allowed) (hidle : idle.state = .idle)
    (hstates : ∀ r ∈ transaction, r.state ≠ .idle) : TransactionLaw transaction where
  continues := pairwise_continues_of_isChain h.tail hstates
  committed := by
    rintro before r after rfl hr
    have hfront : (idle :: (before ++ [r])).IsChain Allowed := by
      have hsplit : idle :: (before ++ r :: after) = (idle :: before) ++ r :: after := rfl
      rw [hsplit, List.isChain_split] at h
      simpa using h.1
    have hpath := statesBefore_sublist_of_isChain hfront hidle
      (fun q hq => hstates q (by simp [hq])) (by simp [hr]) (by simp [hr])
    rw [hr] at hpath
    exact hpath
  rollingBack := by
    rintro before r after rfl hr
    have hback : (r :: after).IsChain Allowed := by
      have hsplit : idle :: (before ++ r :: after) = (idle :: before) ++ r :: after := rfl
      rw [hsplit, List.isChain_split] at h
      exact h.2
    exact rollingBack_of_isChain hback hr fun q hq => hstates q (by simp [hq])

/-- A valid record past Discovered that needs a reset has it approved. -/
theorem resetApproved_of_recordIsValid {r : JournalRecord} (h : RecordIsValid r)
    (hidle : r.state ≠ .idle) (hdiscovered : r.state ≠ .discovered)
    (hreset : r.flags &&& JournalFlags.resetRequired ≠ 0) :
    r.flags &&& JournalFlags.resetApproved ≠ 0 := by
  have htransaction := h.2
  rw [if_neg hidle] at htransaction
  obtain ⟨-, -, -, -, -, -, -, -, -, -, -, -, -, -, happroved⟩ := htransaction
  exact happroved hreset hdiscovered

/-- A record of a chain that does not consist of a single record is valid. -/
theorem recordIsValid_of_isChain {first : JournalRecord} {rest : List JournalRecord}
    (h : (first :: rest).IsChain Allowed) : ∀ r ∈ rest, RecordIsValid r := by
  induction rest generalizing first with
  | nil => simp
  | cons next rest ih =>
      rw [List.isChain_cons_cons] at h
      intro r hr
      rcases List.mem_cons.mp hr with rfl | hr
      · exact h.1.next_valid
      · exact ih h.2 r hr

/-- The temporal law of the journal: over every chain of allowed records that
starts at an Idle record, generations count up by one without wrapping, every
transaction keeps `TransactionLaw`, and past Discovered a required reset is an
approved one. -/
theorem journalChain_law (first : JournalRecord) (rest : List JournalRecord)
    (hfirst : first.state = .idle) (hchain : JournalChain (first :: rest)) :
    (∀ (i : Nat) (hi : i < (first :: rest).length),
      (first :: rest)[i].generation.toNat = first.generation.toNat + i) ∧
    (∀ before idle transaction after,
      first :: rest = before ++ idle :: (transaction ++ after) →
      idle.state = .idle → (∀ r ∈ transaction, r.state ≠ .idle) →
      TransactionLaw transaction) ∧
    (∀ r ∈ first :: rest, r.state ≠ .idle → r.state ≠ .discovered →
      r.flags &&& JournalFlags.resetRequired ≠ 0 →
      r.flags &&& JournalFlags.resetApproved ≠ 0) := by
  have hallowed := hchain.allowed
  refine ⟨?_, ?_, ?_⟩
  · intro i hi
    exact toNat_generation_of_isChain hallowed i hi
  · intro before idle transaction after hsplit hidle hstates
    have hstretch : (idle :: transaction).IsChain Allowed := by
      rw [hsplit] at hallowed
      have hback := hallowed.right_of_append
      rw [← List.cons_append] at hback
      exact hback.left_of_append
    exact transactionLaw_of_isChain hstretch hidle hstates
  · intro r hr hidle hdiscovered hreset
    rcases List.mem_cons.mp hr with rfl | hr
    · exact absurd hfirst hidle
    · exact resetApproved_of_recordIsValid (recordIsValid_of_isChain hallowed r hr) hidle
        hdiscovered hreset

/-- A record of a small transaction that runs from release 1 to release 2. -/
def smallRecord (generation : UInt64) (state : JournalState) (flags : JournalFlags)
    (completedSteps : Nat) : JournalRecord where
  generation := generation
  transactionId := .ofBytes 16 [1]
  state := state
  substate := 0
  flags := flags
  sourceReleaseSequence := 1
  targetReleaseSequence := 2
  board := .pi5Pi500
  manifestSha256 := .ofBytes 32 [2]
  zipSha256 := .ofBytes 32 [3]
  consentSha256 := .ofBytes 32 [4]
  oldBootGeneration := 5
  newBootGeneration := 6
  completedSteps := completedSteps
  totalSteps := 4

/-- The records of the small transaction from Discovered to Committed. -/
def smallTransaction : List JournalRecord :=
  [smallRecord 2 .discovered (allowedFlagsForState .discovered) 0,
    smallRecord 3 .downloaded (allowedFlagsForState .downloaded) 0,
    smallRecord 4 .prepared (allowedFlagsForState .downloaded) 0,
    smallRecord 5 .prepared (allowedFlagsForState .downloaded) 1,
    smallRecord 6 .staged (allowedFlagsForState .staged) 1,
    smallRecord 7 .candidatePending (allowedFlagsForState .candidatePending) 2,
    smallRecord 8 .candidateHealthy (allowedFlagsForState .candidateHealthy) 3,
    smallRecord 9 .committing (allowedFlagsForState .candidateHealthy) 3,
    smallRecord 10 .committing (allowedFlagsForState .committed) 4,
    smallRecord 11 .committed (allowedFlagsForState .committed) 4]

/-- The law holds of the small transaction, closed by an Idle record. -/
theorem journalChain_law_small : TransactionLaw smallTransaction :=
  (journalChain_law (makeIdleJournalRecord 1)
    (smallTransaction ++ [makeIdleJournalRecord 12]) rfl (by decide)).2.1
    [] (makeIdleJournalRecord 1) smallTransaction [makeIdleJournalRecord 12] rfl rfl
    (by decide)

end BmxUpdate
