import Mathlib.Data.BitVec
import Mathlib.Tactic.IntervalCases

/-!
# The one-shot authorization of an update

`OneShotForegroundUpdateAuthorizationSource` (`update_authorization_adapters.cpp`):
one pending token at a time, issued for the confirmed menu action and consumed when
the update starts.  Every call holds the lock, so a run is a list of calls.  What
the clock, the entropy source and the network answer during a call stands in the
call.
-/

namespace BmxUpdate

namespace Authorization

/-- `TokensEqual`: all bytes of the difference are folded into the last one. -/
def tokensEqual (left right : UInt64) : Bool :=
  let difference := left ^^^ right
  let difference := difference ||| (difference >>> 32)
  let difference := difference ||| (difference >>> 16)
  let difference := difference ||| (difference >>> 8)
  (difference &&& 0xff) == 0

inductive UpdateInvocation where
  | unknown | confirmedUpdateMenuAction | boot | emulatorStart | networkEnabled
  | networkBecameReady | menuOpened | menuIdle
deriving DecidableEq, Repr

structure UpdateStartContext where
  invocation : UpdateInvocation
  networkFeatureEnabled : Bool
  networkReady : Bool
deriving DecidableEq, Repr

/-- What the constructor sets once: whether each collaborator is there, and the lifetime. -/
structure OneShotForegroundUpdateAuthorizationSource where
  entropy : Bool
  clock : Bool
  network : Bool
  lifetimeMilliseconds : UInt64

/-- The fields that the calls change. -/
structure State where
  pendingToken : UInt64
  lastToken : UInt64
  issuedAtMilliseconds : UInt64
  pending : Bool
deriving DecidableEq, Repr

def kMaximumForegroundAuthorizationLifetimeMilliseconds : UInt64 := 5 * 60 * 1000

namespace State

/-- The state the constructor leaves. -/
def initial : State := ⟨0, 0, 0, false⟩

/-- Nothing is pending any more; the last token is kept. -/
def cleared (state : State) : State :=
  { state with pendingToken := 0, issuedAtMilliseconds := 0, pending := false }

end State

/-- A call with what the collaborators answer while it runs: a reading of the clock
is `none` when the clock fails, and so is an answer of the entropy source or the
network. -/
inductive Call where
  | issue (hasToken : Bool) (clock : Option UInt64) (entropy : Fin 4 → Option UInt64)
  | revokePending
  | consumeAndReadCurrent (token : UInt64) (hasCurrent : Bool) (clock : Option UInt64)
      (network : Option (Bool × Bool))

/-- What a run shows of a call: the reading of the clock and the result. -/
inductive Event where
  | issue (clock : Option UInt64) (result : Option UInt64)
  | revokePending
  | consumeAndReadCurrent (token : UInt64) (hasCurrent : Bool) (clock : Option UInt64)
      (result : Option UpdateStartContext)

/-- The loop over the attempts: a token that is zero or the last one is drawn again. -/
def drawCandidate (lastToken : UInt64) : List (Option UInt64) → Option UInt64
  | [] => none
  | none :: _ => none
  | some candidate :: attempts =>
      if candidate ≠ 0 ∧ tokensEqual candidate lastToken = false then some candidate
      else drawCandidate lastToken attempts

namespace OneShotForegroundUpdateAuthorizationSource

variable (source : OneShotForegroundUpdateAuthorizationSource)

/-- Whether a token issued at `issuedAt` is valid at the reading `now`. -/
def timeValid (issuedAt now : UInt64) : Bool :=
  decide (issuedAt ≤ now) && decide (now - issuedAt < source.lifetimeMilliseconds)

/-- `Issue` -/
def issue (state : State) (hasToken : Bool) (clock : Option UInt64)
    (entropy : Fin 4 → Option UInt64) : Option UInt64 × State :=
  if hasToken = false then (none, state)
  else if source.entropy = false ∨ source.clock = false ∨ source.network = false ∨
      source.lifetimeMilliseconds = 0 ∨
      kMaximumForegroundAuthorizationLifetimeMilliseconds < source.lifetimeMilliseconds then
    (none, state)
  else
    match clock with
    | none => (none, state)
    | some now =>
        if state.pending = true ∧ source.timeValid state.issuedAtMilliseconds now = true then
          (none, state)
        else
          let state := if state.pending = true then state.cleared else state
          match drawCandidate state.lastToken (List.ofFn entropy) with
          | none => (none, state)
          | some candidate =>
              (some candidate,
                { pendingToken := candidate, lastToken := candidate,
                  issuedAtMilliseconds := now, pending := true })

/-- `ConsumeAndReadCurrent` -/
def consumeAndReadCurrent (state : State) (token : UInt64) (hasCurrent : Bool)
    (clock : Option UInt64) (network : Option (Bool × Bool)) :
    Option UpdateStartContext × State :=
  if hasCurrent = false then (none, state)
  else if token = 0 then (none, state)
  else if state.pending = false ∨ tokensEqual token state.pendingToken = false then (none, state)
  else
    let valid := source.clock && clock.any fun now =>
      source.timeValid state.issuedAtMilliseconds now
    -- The token is used up before the network is asked.
    let state := state.cleared
    if valid = false then (none, state)
    else if source.network = false then (none, state)
    else
      match network with
      | none => (none, state)
      | some (featureEnabled, ready) =>
          (some ⟨.confirmedUpdateMenuAction, featureEnabled, ready⟩, state)

/-- One call. -/
def step (state : State) : Call → Event × State
  | .issue hasToken clock entropy =>
      let (result, state) := source.issue state hasToken clock entropy
      (.issue clock result, state)
  | .revokePending => (.revokePending, state.cleared)
  | .consumeAndReadCurrent token hasCurrent clock network =>
      let (result, state) := source.consumeAndReadCurrent state token hasCurrent clock network
      (.consumeAndReadCurrent token hasCurrent clock result, state)

/-- A run: the events, oldest first, and the state after the last call. -/
def run (state : State) : List Call → List Event × State
  | [] => ([], state)
  | call :: calls =>
      let (event, next) := source.step state call
      let (events, last) := run next calls
      (event :: events, last)

end OneShotForegroundUpdateAuthorizationSource

/-! ## The comparison of tokens -/

/-- Folding eight bytes into one loses no bit. -/
theorem eq_zero_of_folded {x : BitVec 64}
    (h : ∀ j < 8, (x ||| x >>> 32 ||| (x ||| x >>> 32) >>> 16 |||
      (x ||| x >>> 32 ||| (x ||| x >>> 32) >>> 16) >>> 8).getLsbD j = false) : x = 0#64 := by
  apply BitVec.eq_of_getLsbD_eq
  intro i hi
  rw [BitVec.getLsbD_zero]
  have hj := h (i % 8) (Nat.mod_lt i (by decide))
  simp only [BitVec.getLsbD_or, BitVec.getLsbD_ushiftRight, Bool.or_eq_false_iff] at hj
  obtain ⟨⟨⟨h0, h32⟩, h16, h48⟩, ⟨h8, h40⟩, h24, h56⟩ := hj
  simp only [← Nat.add_assoc, Nat.reduceAdd] at h24 h48 h40 h56
  have hbyte : i / 8 < 8 := by omega
  have hsplit : i = 8 * (i / 8) + i % 8 := (Nat.div_add_mod i 8).symm
  -- One of the eight bytes of `x` has the bit.
  rw [hsplit]
  generalize i % 8 = r at h0 h8 h16 h24 h32 h40 h48 h56 ⊢
  generalize i / 8 = q at hbyte ⊢
  interval_cases q
  · simpa using h0
  · exact h8
  · exact h16
  · exact h24
  · exact h32
  · exact h40
  · exact h48
  · exact h56

theorem tokensEqual_iff {left right : UInt64} : tokensEqual left right = true ↔ left = right := by
  constructor
  · intro h
    have hfold := beq_iff_eq.mp h
    rw [← UInt64.toBitVec_inj] at hfold
    simp only [UInt64.toBitVec_and, UInt64.toBitVec_or, UInt64.toBitVec_shiftRight,
      UInt64.toBitVec_xor] at hfold
    have hzero : left.toBitVec ^^^ right.toBitVec = 0#64 := by
      apply eq_zero_of_folded
      intro j hj
      have hbit := congrArg (fun x => BitVec.getLsbD x j) hfold
      have hmask : (255#64).getLsbD j = true := by interval_cases j <;> rfl
      simpa [hmask] using hbit
    rw [← UInt64.toBitVec_inj]
    exact BitVec.xor_eq_zero_iff.mp hzero
  · rintro rfl
    simp [tokensEqual]

/-! ## One call -/

namespace Event

/-- A successful `Issue`, with its token and the reading of the clock. -/
def Issued (token now : UInt64) (event : Event) : Prop := event = .issue (some now) (some token)

def IsIssued (event : Event) : Prop := ∃ token now, event.Issued token now

/-- A `ConsumeAndReadCurrent` that presents the token, whatever its result. -/
def Presents (token : UInt64) : Event → Prop
  | .consumeAndReadCurrent presented hasCurrent _ _ => presented = token ∧ hasCurrent = true
  | _ => False

/-- A successful `ConsumeAndReadCurrent`. -/
def Consumed (token now : UInt64) (event : Event) : Prop :=
  ∃ current, event = .consumeAndReadCurrent token true (some now) (some current)

theorem Consumed.presents {token now : UInt64} {event : Event} (h : event.Consumed token now) :
    event.Presents token := by
  obtain ⟨current, rfl⟩ := h
  exact ⟨rfl, rfl⟩

/-- An event that leaves a pending token as it is. -/
structure Spares (token : UInt64) (event : Event) : Prop where
  notIssued : ¬event.IsIssued
  notRevoked : event ≠ .revokePending
  notPresented : ¬event.Presents token

end Event

/-- The token of the last successful `Issue`, which nothing has touched since. -/
def Outstanding (past : List Event) (token issuedAt : UInt64) : Prop :=
  ∃ older newer issue, past = older ++ issue :: newer ∧ issue.Issued token issuedAt ∧
    ∀ event ∈ newer, event.Spares token

theorem Outstanding.snoc {past : List Event} {token issuedAt : UInt64} {event : Event}
    (h : Outstanding past token issuedAt) (hspares : event.Spares token) :
    Outstanding (past ++ [event]) token issuedAt := by
  obtain ⟨older, newer, issue, rfl, hissue, hnewer⟩ := h
  refine ⟨older, newer ++ [event], issue, by simp, hissue, ?_⟩
  intro e he
  rcases List.mem_append.mp he with he | he
  · exact hnewer e he
  · rw [List.mem_singleton.mp he]
    exact hspares

theorem Outstanding.of_issued {past : List Event} {token issuedAt : UInt64} {event : Event}
    (h : event.Issued token issuedAt) : Outstanding (past ++ [event]) token issuedAt :=
  ⟨past, [], event, rfl, h, nofun⟩

/-- What is pending in the state is outstanding in the past. -/
def Tracks (past : List Event) (state : State) : Prop :=
  state.pending = true →
    state.pendingToken ≠ 0 ∧ Outstanding past state.pendingToken state.issuedAtMilliseconds

theorem Tracks.cleared {past : List Event} (state : State) : Tracks past state.cleared := nofun

/-- The candidate is drawn behind attempts that gave zero or the last token. -/
theorem drawCandidate_of_usable {lastToken candidate : UInt64} (hzero : candidate ≠ 0)
    (hlast : candidate ≠ lastToken) {wasted rest : List (Option UInt64)}
    (hwasted : ∀ attempt ∈ wasted, attempt = some 0 ∨ attempt = some lastToken) :
    drawCandidate lastToken (wasted ++ some candidate :: rest) = some candidate := by
  induction wasted with
  | nil =>
    have hequal : tokensEqual candidate lastToken = false :=
      Bool.not_eq_true _ |>.mp fun h => hlast (tokensEqual_iff.mp h)
    rw [List.nil_append, drawCandidate, if_pos ⟨hzero, hequal⟩]
  | cons attempt wasted ih =>
    have hrest := ih fun a ha => hwasted a (List.mem_cons_of_mem attempt ha)
    rcases hwasted attempt List.mem_cons_self with rfl | rfl
    · rw [List.cons_append, drawCandidate, if_neg fun h => h.1 rfl, hrest]
    · rw [List.cons_append, drawCandidate, if_neg, hrest]
      rintro ⟨-, hequal⟩
      rw [tokensEqual_iff.mpr rfl] at hequal
      cases hequal

theorem drawCandidate_ne_zero {lastToken candidate : UInt64} {attempts : List (Option UInt64)}
    (h : drawCandidate lastToken attempts = some candidate) : candidate ≠ 0 := by
  fun_induction drawCandidate lastToken attempts with
  | case1 => cases h
  | case2 => cases h
  | case3 _ _ hdrawn =>
    cases h
    exact hdrawn.1
  | case4 _ _ _ ih => exact ih h

namespace OneShotForegroundUpdateAuthorizationSource

variable {source : OneShotForegroundUpdateAuthorizationSource} {state next : State}

theorem timeValid_iff {issuedAt now : UInt64} :
    source.timeValid issuedAt now = true ↔
      issuedAt ≤ now ∧ now.toNat < issuedAt.toNat + source.lifetimeMilliseconds.toNat := by
  rw [timeValid, Bool.and_eq_true, decide_eq_true_iff, decide_eq_true_iff]
  apply and_congr_right
  intro hle
  rw [UInt64.lt_iff_toNat_lt, UInt64.toNat_sub_of_le _ _ hle]
  have := UInt64.le_iff_toNat_le.mp hle
  omega

/-- `Issue` fails and keeps the token or drops it, or puts a new token in. -/
theorem issue_cases {hasToken : Bool} {clock : Option UInt64} {entropy : Fin 4 → Option UInt64}
    {result : Option UInt64} (h : source.issue state hasToken clock entropy = (result, next)) :
    (result = none ∧ (next = state ∨ next = state.cleared)) ∨
      ∃ now candidate, clock = some now ∧ result = some candidate ∧ candidate ≠ 0 ∧
        next = ⟨candidate, candidate, now, true⟩ := by
  unfold issue at h
  split at h
  · cases h
    exact .inl ⟨rfl, .inl rfl⟩
  split at h
  · cases h
    exact .inl ⟨rfl, .inl rfl⟩
  cases clock with
  | none =>
    cases h
    exact .inl ⟨rfl, .inl rfl⟩
  | some now =>
    dsimp only at h
    split at h
    · cases h
      exact .inl ⟨rfl, .inl rfl⟩
    split at h
    · cases h
      refine .inl ⟨rfl, ?_⟩
      split
      · exact .inr rfl
      · exact .inl rfl
    · rename_i hdrawn
      cases h
      exact .inr ⟨now, _, rfl, rfl, drawCandidate_ne_zero hdrawn, rfl⟩

/-- A consume that does not match changes nothing; one that matches clears the state,
and succeeds only in time. -/
theorem consumeAndReadCurrent_cases {token : UInt64} {hasCurrent : Bool} {clock : Option UInt64}
    {network : Option (Bool × Bool)} {result : Option UpdateStartContext}
    (h : source.consumeAndReadCurrent state token hasCurrent clock network = (result, next)) :
    (result = none ∧ next = state ∧
        (hasCurrent = true → state.pending = true → token = state.pendingToken →
          state.pendingToken = 0)) ∨
      (hasCurrent = true ∧ state.pending = true ∧ token = state.pendingToken ∧
        next = state.cleared ∧ ∀ current, result = some current →
          ∃ now, clock = some now ∧
            source.timeValid state.issuedAtMilliseconds now = true) := by
  unfold consumeAndReadCurrent at h
  split at h
  · rename_i habsent
    cases h
    exact .inl ⟨rfl, rfl, fun hcurrent => by rw [habsent] at hcurrent; cases hcurrent⟩
  rename_i hcurrent
  split at h
  · rename_i hzero
    cases h
    exact .inl ⟨rfl, rfl, fun _ _ heq => heq.symm.trans hzero⟩
  split at h
  · rename_i hmismatch
    cases h
    refine .inl ⟨rfl, rfl, fun _ hpending heq => ?_⟩
    rcases hmismatch with hmismatch | hmismatch
    · rw [hpending] at hmismatch
      cases hmismatch
    · rw [tokensEqual_iff.mpr heq] at hmismatch
      cases hmismatch
  rename_i hmatch
  rw [not_or, Bool.not_eq_false, Bool.not_eq_false, tokensEqual_iff] at hmatch
  refine .inr ⟨by simpa using hcurrent, hmatch.1, hmatch.2, ?_⟩
  dsimp only at h
  split at h
  · cases h
    exact ⟨rfl, nofun⟩
  rename_i hvalid
  rw [Bool.not_eq_false, Bool.and_eq_true] at hvalid
  obtain ⟨now, hclock, htime⟩ := Option.any_eq_true .. |>.mp hvalid.2
  split at h
  · cases h
    exact ⟨rfl, nofun⟩
  split at h
  · cases h
    exact ⟨rfl, nofun⟩
  · cases h
    exact ⟨rfl, fun _ _ => ⟨now, hclock, htime⟩⟩

/-- One call keeps the state in step with the past, and what it consumes was
outstanding and in time. -/
theorem step_tracks {past : List Event} {call : Call} {event : Event} (htracks : Tracks past state)
    (h : source.step state call = (event, next)) :
    Tracks (past ++ [event]) next ∧
      (∀ token now, event.Consumed token now → ∃ issuedAt, Outstanding past token issuedAt ∧
        source.timeValid issuedAt now = true) ∧
      (∀ token, event.Presents token →
        (state.pending = true → state.pendingToken = token) → next.pending = false) := by
  cases call with
  | issue hasToken clock entropy =>
    cases hissue : source.issue state hasToken clock entropy with
    | mk result after =>
    simp only [step, hissue, Prod.mk.injEq] at h
    obtain ⟨rfl, rfl⟩ := h
    refine ⟨?_, fun _ _ hconsumed => ?_, nofun⟩
    · rcases issue_cases hissue with ⟨rfl, rfl | rfl⟩ | ⟨now, token, rfl, rfl, hne, rfl⟩
      · intro hpending
        obtain ⟨hne, hout⟩ := htracks hpending
        refine ⟨hne, hout.snoc ⟨?_, nofun, nofun⟩⟩
        rintro ⟨_, _, hissued⟩
        cases hissued
      · exact .cleared state
      · exact fun _ => ⟨hne, .of_issued rfl⟩
    · obtain ⟨_, hconsumed⟩ := hconsumed
      cases hconsumed
  | revokePending =>
    cases h
    refine ⟨.cleared state, fun _ _ hconsumed => ?_, nofun⟩
    obtain ⟨_, hconsumed⟩ := hconsumed
    cases hconsumed
  | consumeAndReadCurrent token hasCurrent clock network =>
    cases hconsume : source.consumeAndReadCurrent state token hasCurrent clock network with
    | mk result after =>
    simp only [step, hconsume, Prod.mk.injEq] at h
    obtain ⟨rfl, rfl⟩ := h
    rcases consumeAndReadCurrent_cases hconsume with
      ⟨rfl, rfl, hmismatch⟩ | ⟨rfl, hpending, rfl, rfl, hresult⟩
    · refine ⟨fun hpending => ?_, fun _ _ hconsumed => ?_, fun presented hpresents hsame => ?_⟩
      · obtain ⟨hne, hout⟩ := htracks hpending
        refine ⟨hne, hout.snoc ⟨?_, nofun, fun hpresents => ?_⟩⟩
        · rintro ⟨_, _, hissued⟩
          cases hissued
        · exact hne (hmismatch hpresents.2 hpending hpresents.1)
      · obtain ⟨_, hconsumed⟩ := hconsumed
        cases hconsumed
      · cases hpending : after.pending with
        | false => rfl
        | true =>
          have heq : token = after.pendingToken := hpresents.1.trans (hsame hpending).symm
          exact absurd (hmismatch hpresents.2 hpending heq) (htracks hpending).1
    · refine ⟨.cleared state, fun presented now hconsumed => ?_, fun _ _ _ => rfl⟩
      obtain ⟨current, hconsumed⟩ := hconsumed
      cases hconsumed
      obtain ⟨_, hclock, htime⟩ := hresult current rfl
      cases hclock
      exact ⟨state.issuedAtMilliseconds, (htracks hpending).2, htime⟩

/-- Each event of a run is one call from a state that is in step with the events
before it. -/
theorem run_split (calls : List Call) :
    ∀ {state : State} {past before after : List Event} {event : Event},
      Tracks past state → (source.run state calls).1 = before ++ event :: after →
      ∃ current call next rest, Tracks (past ++ before) current ∧
        source.step current call = (event, next) ∧
        source.run next rest = (after, (source.run state calls).2) := by
  induction calls with
  | nil =>
    intro state past before after event _ h
    cases before <;> cases h
  | cons call calls ih =>
    intro state past before after event htracks h
    cases hstep : source.step state call with
    | mk first second =>
    simp only [run, hstep] at h ⊢
    cases before with
    | nil =>
      rw [List.nil_append, List.cons.injEq] at h
      obtain ⟨rfl, hafter⟩ := h
      exact ⟨state, call, second, calls, by simpa using htracks, hstep, by rw [← hafter]⟩
    | cons head before =>
      rw [List.cons_append, List.cons.injEq] at h
      obtain ⟨rfl, hrest⟩ := h
      obtain ⟨current, call', next, rest, hcurrent, hcall, hafter⟩ :=
        ih (step_tracks htracks hstep).1 hrest
      exact ⟨current, call', next, rest, by simpa using hcurrent, hcall, hafter⟩

/-- A successful `Issue` leaves its token pending. -/
theorem step_issued {call : Call} {event : Event} {token now : UInt64}
    (h : source.step state call = (event, next)) (hissued : event.Issued token now) :
    next = ⟨token, token, now, true⟩ := by
  cases call with
  | issue hasToken clock entropy =>
    cases hissue : source.issue state hasToken clock entropy with
    | mk result after =>
    simp only [step, hissue, Prod.mk.injEq] at h
    obtain ⟨rfl, rfl⟩ := h
    rcases issue_cases hissue with ⟨rfl, -⟩ | ⟨_, _, rfl, rfl, -, rfl⟩
    · cases hissued
    · cases hissued
      rfl
  | revokePending =>
    cases h
    cases hissued
  | consumeAndReadCurrent token hasCurrent clock network =>
    cases h
    cases hissued

/-- When nothing is pending, only an `Issue` changes that, and no consume succeeds. -/
theorem step_idle {call : Call} {event : Event} (hidle : state.pending = false)
    (h : source.step state call = (event, next)) :
    (¬event.IsIssued → next.pending = false) ∧ ∀ token now, ¬event.Consumed token now := by
  cases call with
  | issue hasToken clock entropy =>
    cases hissue : source.issue state hasToken clock entropy with
    | mk result after =>
    simp only [step, hissue, Prod.mk.injEq] at h
    obtain ⟨rfl, rfl⟩ := h
    refine ⟨fun hnot => ?_, nofun⟩
    rcases issue_cases hissue with ⟨-, rfl | rfl⟩ | ⟨now, token, rfl, rfl, -, rfl⟩
    · exact hidle
    · rfl
    · exact absurd ⟨token, now, rfl⟩ hnot
  | revokePending =>
    cases h
    exact ⟨fun _ => rfl, nofun⟩
  | consumeAndReadCurrent token hasCurrent clock network =>
    cases hconsume : source.consumeAndReadCurrent state token hasCurrent clock network with
    | mk result after =>
    simp only [step, hconsume, Prod.mk.injEq] at h
    obtain ⟨rfl, rfl⟩ := h
    rcases consumeAndReadCurrent_cases hconsume with ⟨rfl, rfl, -⟩ | ⟨-, hpending, -⟩
    · refine ⟨fun _ => hidle, fun _ _ hconsumed => ?_⟩
      obtain ⟨_, hconsumed⟩ := hconsumed
      cases hconsumed
    · rw [hidle] at hpending
      cases hpending

theorem run_idle (calls : List Call) :
    ∀ {state : State} {before after : List Event} {event : Event}, state.pending = false →
      (source.run state calls).1 = before ++ event :: after →
      (∀ e ∈ before, ¬e.IsIssued) → ∀ token now, ¬event.Consumed token now := by
  induction calls with
  | nil =>
    intro state before after event _ h
    cases before <;> cases h
  | cons call calls ih =>
    intro state before after event hidle h hnone
    cases hstep : source.step state call with
    | mk first second =>
    simp only [run, hstep] at h
    have hfirst := step_idle hidle hstep
    cases before with
    | nil =>
      rw [List.nil_append, List.cons.injEq] at h
      obtain ⟨rfl, -⟩ := h
      exact hfirst.2
    | cons head before =>
      rw [List.cons_append, List.cons.injEq] at h
      obtain ⟨rfl, hrest⟩ := h
      exact ih (hfirst.1 (hnone first List.mem_cons_self)) hrest
        fun e he => hnone e (List.mem_cons_of_mem first he)

/-- While the pending token has not expired, `Issue` fails and changes nothing. -/
theorem issue_of_pending {hasToken : Bool} {clock : Option UInt64}
    {entropy : Fin 4 → Option UInt64} (hpending : state.pending = true)
    (htime : ∀ now, clock = some now →
      source.timeValid state.issuedAtMilliseconds now = true) :
    source.issue state hasToken clock entropy = (none, state) := by
  unfold issue
  split
  · rfl
  split
  · rfl
  cases clock with
  | none => rfl
  | some now =>
    dsimp only
    rw [if_pos ⟨hpending, htime now rfl⟩]

/-- The collaborators are there, and the lifetime is one that is allowed. -/
structure Configured (source : OneShotForegroundUpdateAuthorizationSource) : Prop where
  entropy : source.entropy = true
  clock : source.clock = true
  network : source.network = true
  positive : source.lifetimeMilliseconds ≠ 0
  bounded : source.lifetimeMilliseconds ≤ kMaximumForegroundAuthorizationLifetimeMilliseconds

/-- Only a source that is configured issues a token. -/
theorem configured_of_issued {hasToken : Bool} {clock : Option UInt64}
    {entropy : Fin 4 → Option UInt64} {token : UInt64}
    (h : source.issue state hasToken clock entropy = (some token, next)) :
    source.Configured := by
  unfold issue at h
  split at h
  · cases h
  split at h
  · cases h
  rename_i hready
  simp only [not_or, Bool.not_eq_false] at hready
  obtain ⟨hentropy, hclock, hnetwork, hpositive, hbounded⟩ := hready
  exact ⟨hentropy, hclock, hnetwork, hpositive, UInt64.not_lt.mp hbounded⟩

/-- With nothing pending, or a token that has expired, `Issue` puts in the candidate it
draws. -/
theorem issue_succeeds (hconfigured : source.Configured) {now candidate : UInt64}
    {entropy : Fin 4 → Option UInt64}
    (hfree : state.pending = true → source.timeValid state.issuedAtMilliseconds now = false)
    (hdrawn : drawCandidate state.lastToken (List.ofFn entropy) = some candidate) :
    source.issue state true (some now) entropy =
      (some candidate, ⟨candidate, candidate, now, true⟩) := by
  obtain ⟨hentropy, hclock, hnetwork, hpositive, hbounded⟩ := hconfigured
  have hready : ¬(source.entropy = false ∨ source.clock = false ∨ source.network = false ∨
      source.lifetimeMilliseconds = 0 ∨
      kMaximumForegroundAuthorizationLifetimeMilliseconds < source.lifetimeMilliseconds) := by
    simp only [hentropy, hclock, hnetwork, Bool.true_eq_false, false_or, not_or]
    exact ⟨hpositive, UInt64.not_lt.mpr hbounded⟩
  have hexpired : ¬(state.pending = true ∧
      source.timeValid state.issuedAtMilliseconds now = true) := by
    rintro ⟨hpending, htime⟩
    rw [hfree hpending] at htime
    cases htime
  have hlast : (if state.pending = true then state.cleared else state).lastToken =
      state.lastToken := by
    split <;> rfl
  rw [issue, if_neg (by decide), if_neg hready]
  dsimp only
  rw [if_neg hexpired, hlast, hdrawn]

variable (state) in
/-- The pending token is consumed in time, as far as the network answers. -/
theorem consume_succeeds (hconfigured : source.Configured) {now : UInt64}
    (hpending : state.pending = true) (hzero : state.pendingToken ≠ 0)
    (htime : source.timeValid state.issuedAtMilliseconds now = true) (featureEnabled ready : Bool) :
    source.consumeAndReadCurrent state state.pendingToken true (some now)
        (some (featureEnabled, ready)) =
      (some ⟨.confirmedUpdateMenuAction, featureEnabled, ready⟩, state.cleared) := by
  have hmatch : ¬(state.pending = false ∨
      tokensEqual state.pendingToken state.pendingToken = false) := by
    rw [hpending, tokensEqual_iff.mpr rfl]
    simp
  rw [consumeAndReadCurrent, if_neg (by decide), if_neg hzero, if_neg hmatch]
  simp [hconfigured.clock, hconfigured.network, htime]

end OneShotForegroundUpdateAuthorizationSource

/-- An event during which the token stays pending: an `Issue` reads the clock in time. -/
structure Event.Holds (source : OneShotForegroundUpdateAuthorizationSource)
    (token issuedAt : UInt64) (event : Event) : Prop extends event.Spares token where
  inTime : ∀ now result, event = .issue (some now) result → source.timeValid issuedAt now = true

namespace OneShotForegroundUpdateAuthorizationSource

variable {source : OneShotForegroundUpdateAuthorizationSource} {state next : State}

theorem step_holds {call : Call} {event : Event} (hpending : state.pending = true)
    (h : source.step state call = (event, next))
    (hholds : event.Holds source state.pendingToken state.issuedAtMilliseconds) :
    next = state := by
  cases call with
  | issue hasToken clock entropy =>
    cases hissue : source.issue state hasToken clock entropy with
    | mk result after =>
    simp only [step, hissue, Prod.mk.injEq] at h
    obtain ⟨rfl, rfl⟩ := h
    rw [issue_of_pending hpending fun now hnow => hholds.inTime now result (by rw [hnow])] at hissue
    cases hissue
    rfl
  | revokePending =>
    cases h
    exact absurd rfl hholds.notRevoked
  | consumeAndReadCurrent token hasCurrent clock network =>
    cases hconsume : source.consumeAndReadCurrent state token hasCurrent clock network with
    | mk result after =>
    simp only [step, hconsume, Prod.mk.injEq] at h
    obtain ⟨rfl, rfl⟩ := h
    rcases consumeAndReadCurrent_cases hconsume with ⟨-, rfl, -⟩ | ⟨rfl, -, rfl, -⟩
    · rfl
    · exact absurd ⟨rfl, rfl⟩ hholds.notPresented

theorem run_holds (calls : List Call) {state : State} (hpending : state.pending = true)
    (hholds : ∀ event ∈ (source.run state calls).1,
      event.Holds source state.pendingToken state.issuedAtMilliseconds) :
    (source.run state calls).2 = state := by
  induction calls with
  | nil => rfl
  | cons call calls ih =>
    cases hstep : source.step state call with
    | mk first second =>
    simp only [run, hstep] at hholds ⊢
    obtain rfl := step_holds hpending hstep (hholds first List.mem_cons_self)
    exact ih fun event he => hholds event (List.mem_cons_of_mem first he)

/-- A consume takes the token of the last `Issue`, in time and untouched since. -/
theorem consume_outstanding (calls : List Call) {before after : List Event} {consume : Event}
    {token now : UInt64} (h : (source.run .initial calls).1 = before ++ consume :: after)
    (hconsumed : consume.Consumed token now) :
    ∃ issuedAt, Outstanding before token issuedAt ∧ issuedAt ≤ now ∧
      now.toNat < issuedAt.toNat + source.lifetimeMilliseconds.toNat := by
  have hinitial : Tracks [] State.initial := nofun
  obtain ⟨current, call, next, rest, htracks, hstep, -⟩ := run_split calls hinitial h
  obtain ⟨issuedAt, hout, htime⟩ := (step_tracks htracks hstep).2.1 token now hconsumed
  exact ⟨issuedAt, hout, timeValid_iff.mp htime⟩

end OneShotForegroundUpdateAuthorizationSource

/-- The last `Issue` before an event is one event. -/
theorem lastIssue_unique {older newer older' newer' : List Event} {issue issue' : Event}
    (h : older ++ issue :: newer = older' ++ issue' :: newer') (hissue : issue.IsIssued)
    (hissue' : issue'.IsIssued) (hnewer : ∀ e ∈ newer, ¬e.IsIssued)
    (hnewer' : ∀ e ∈ newer', ¬e.IsIssued) : issue = issue' := by
  rcases List.append_eq_append_iff.mp h with ⟨middle, rfl, hsplit⟩ | ⟨middle, rfl, hsplit⟩
  · cases middle with
    | nil => exact (List.cons.inj hsplit).1
    | cons head middle =>
      obtain ⟨-, rfl⟩ := List.cons.inj hsplit
      exact absurd hissue' (hnewer issue' (by simp))
  · cases middle with
    | nil => exact (List.cons.inj hsplit).1.symm
    | cons head middle =>
      obtain ⟨-, rfl⟩ := List.cons.inj hsplit
      exact absurd hissue (hnewer' issue (by simp))

namespace OneShotForegroundUpdateAuthorizationSource

variable {source : OneShotForegroundUpdateAuthorizationSource}

/-- Presenting the token of the last `Issue` uses it up, whatever comes of it: what
follows starts with nothing pending. -/
theorem presented_clears (calls : List Call) {older newer after : List Event}
    {issue presented : Event} {token issuedAt : UInt64}
    (h : (source.run .initial calls).1 = (older ++ issue :: newer) ++ presented :: after)
    (hissue : issue.Issued token issuedAt) (hnewer : ∀ e ∈ newer, ¬e.IsIssued)
    (hpresented : presented.Presents token) :
    ∃ next rest, next.pending = false ∧
      source.run next rest = (after, (source.run .initial calls).2) := by
  have hinitial : Tracks [] State.initial := nofun
  obtain ⟨current, call, next, rest, htracks, hstep, hrest⟩ := run_split calls hinitial h
  rw [List.nil_append] at htracks
  refine ⟨next, rest, ?_, hrest⟩
  apply (step_tracks htracks hstep).2.2 token hpresented
  intro hpending
  obtain ⟨-, older', newer', issue', hsplit, hissue', hnewer'⟩ := htracks hpending
  have hsame := lastIssue_unique hsplit ⟨token, issuedAt, hissue⟩ ⟨_, _, hissue'⟩ hnewer
    fun e he => (hnewer' e he).notIssued
  rw [hissue, hissue'] at hsame
  cases hsame
  rfl

theorem presented_usedUp (calls : List Call) {older newer middle after : List Event}
    {issue presented consume : Event} {token issuedAt : UInt64}
    (h : (source.run .initial calls).1 =
      (older ++ issue :: newer) ++ presented :: (middle ++ consume :: after))
    (hissue : issue.Issued token issuedAt) (hnewer : ∀ e ∈ newer, ¬e.IsIssued)
    (hpresented : presented.Presents token) (hmiddle : ∀ e ∈ middle, ¬e.IsIssued)
    (other now : UInt64) : ¬consume.Consumed other now := by
  obtain ⟨next, rest, hidle, hrest⟩ := presented_clears calls h hissue hnewer hpresented
  exact run_idle rest hidle (by rw [hrest]) hmiddle other now

theorem presented_last (calls : List Call) {older newer : List Event}
    {issue presented : Event} {token issuedAt : UInt64}
    (h : (source.run .initial calls).1 = (older ++ issue :: newer) ++ [presented])
    (hissue : issue.Issued token issuedAt) (hnewer : ∀ e ∈ newer, ¬e.IsIssued)
    (hpresented : presented.Presents token) :
    (source.run .initial calls).2.pending = false := by
  obtain ⟨next, rest, hidle, hrest⟩ := presented_clears calls h hissue hnewer hpresented
  cases rest with
  | nil =>
    have hlast : next = (source.run .initial calls).2 := congrArg Prod.snd hrest
    rwa [← hlast]
  | cons call rest => cases congrArg Prod.fst hrest

/-- What a run leaves pending has not been touched since it was issued. -/
theorem pending_of_holds (calls : List Call) {older newer : List Event} {issue : Event}
    {token issuedAt : UInt64} (h : (source.run .initial calls).1 = older ++ issue :: newer)
    (hissue : issue.Issued token issuedAt) (hnewer : ∀ e ∈ newer, e.Holds source token issuedAt) :
    source.Configured ∧ token ≠ 0 ∧
      (source.run .initial calls).2 = ⟨token, token, issuedAt, true⟩ := by
  have hinitial : Tracks [] State.initial := nofun
  obtain ⟨current, call, next, rest, htracks, hstep, hrest⟩ := run_split calls hinitial h
  have hzero := ((step_tracks htracks hstep).1 (by rw [step_issued hstep hissue])).1
  obtain rfl := step_issued hstep hissue
  have hlast := run_holds rest rfl (by rw [hrest]; exact hnewer)
  rw [hrest] at hlast
  refine ⟨?_, hzero, hlast⟩
  cases call with
  | issue hasToken clock entropy =>
    rw [hissue] at hstep
    simp only [step, Prod.mk.injEq, Event.issue.injEq] at hstep
    exact configured_of_issued (Prod.ext hstep.1.2 rfl)
  | revokePending =>
    rw [hissue] at hstep
    cases hstep
  | consumeAndReadCurrent token hasCurrent clock network =>
    rw [hissue] at hstep
    cases hstep

/-- One-shot authorization.  In every run from the start, a consume succeeds only with
the token of the last successful `Issue`, in time, with nothing in between that
revoked it, replaced it or presented it; presenting it uses it up, whatever comes of
it, so no two consumes succeed without an `Issue` between them; while it is pending
and has not expired, `Issue` fails and changes nothing, and a consume of it in time
succeeds if the network answers.  With nothing pending, or a token that has expired, a
source that is configured issues the first candidate that is not zero and not the last
token. -/
theorem oneShot_authorization (source : OneShotForegroundUpdateAuthorizationSource)
    (calls : List Call) :
    (∀ (before after : List Event) consume token now,
      (source.run .initial calls).1 = before ++ consume :: after →
      consume.Consumed token now →
      ∃ (older newer : List Event) (issue : Event) (issuedAt : UInt64),
        before = older ++ issue :: newer ∧
        issue.Issued token issuedAt ∧ issuedAt ≤ now ∧
        now.toNat < issuedAt.toNat + source.lifetimeMilliseconds.toNat ∧
        ∀ event ∈ newer, event.Spares token) ∧
    (∀ (older : List Event) issue (newer : List Event) presented (middle : List Event) consume
        (after : List Event) token issuedAt,
      (source.run .initial calls).1 =
        (older ++ issue :: newer) ++ presented :: (middle ++ consume :: after) →
      issue.Issued token issuedAt → (∀ event ∈ newer, ¬event.IsIssued) →
      presented.Presents token → (∀ event ∈ middle, ¬event.IsIssued) →
      ∀ other now, ¬consume.Consumed other now) ∧
    (∀ (before : List Event) first (middle : List Event) second (after : List Event) token₁ now₁
        token₂ now₂,
      (source.run .initial calls).1 = before ++ first :: (middle ++ second :: after) →
      first.Consumed token₁ now₁ → second.Consumed token₂ now₂ →
      ∃ event ∈ middle, event.IsIssued) ∧
    (∀ (older : List Event) issue (newer : List Event) token issuedAt,
      (source.run .initial calls).1 = older ++ issue :: newer →
      issue.Issued token issuedAt →
      (∀ event ∈ newer, event.Holds source token issuedAt) →
      (source.run .initial calls).2.pending = true ∧
      (source.run .initial calls).2.pendingToken = token ∧
      (∀ hasToken clock entropy,
        (∀ now, clock = some now → source.timeValid issuedAt now = true) →
        source.issue (source.run .initial calls).2 hasToken clock entropy =
          (none, (source.run .initial calls).2)) ∧
      ∀ now featureEnabled ready, source.timeValid issuedAt now = true →
        source.consumeAndReadCurrent (source.run .initial calls).2 token true (some now)
            (some (featureEnabled, ready)) =
          (some ⟨.confirmedUpdateMenuAction, featureEnabled, ready⟩,
            (source.run .initial calls).2.cleared)) ∧
    (∀ (older : List Event) issue (newer : List Event) presented token issuedAt,
      (source.run .initial calls).1 = (older ++ issue :: newer) ++ [presented] →
      issue.Issued token issuedAt → (∀ event ∈ newer, ¬event.IsIssued) →
      presented.Presents token → (source.run .initial calls).2.pending = false) ∧
    ∀ now candidate wasted rest entropy, source.Configured →
      ((source.run .initial calls).2.pending = true →
        source.timeValid (source.run .initial calls).2.issuedAtMilliseconds now = false) →
      List.ofFn entropy = wasted ++ some candidate :: rest →
      candidate ≠ 0 → candidate ≠ (source.run .initial calls).2.lastToken →
      (∀ attempt ∈ wasted,
        attempt = some 0 ∨ attempt = some (source.run .initial calls).2.lastToken) →
      source.issue (source.run .initial calls).2 true (some now) entropy =
        (some candidate, ⟨candidate, candidate, now, true⟩) := by
  refine ⟨?_, ?_, ?_, ?_, ?_, ?_⟩
  · intro before after consume token now h hconsumed
    obtain ⟨issuedAt, ⟨older, newer, issue, hbefore, hissue, hnewer⟩, htime⟩ :=
      consume_outstanding calls h hconsumed
    exact ⟨older, newer, issue, issuedAt, hbefore, hissue, htime.1, htime.2, hnewer⟩
  · intro older issue newer presented middle consume after token issuedAt h hissue hnewer
      hpresented hmiddle other now
    exact presented_usedUp calls h hissue hnewer hpresented hmiddle other now
  · intro before first middle second after token₁ now₁ token₂ now₂ h hfirst hsecond
    by_contra hnone
    obtain ⟨issuedAt, ⟨older, newer, issue, rfl, hissue, hnewer⟩, -⟩ :=
      consume_outstanding calls h hfirst
    exact presented_usedUp calls h hissue (fun e he => (hnewer e he).notIssued) hfirst.presents
      (fun e he hissued => hnone ⟨e, he, hissued⟩) token₂ now₂ hsecond
  · intro older issue newer token issuedAt h hissue hnewer
    obtain ⟨hconfigured, hzero, hlast⟩ := pending_of_holds calls h hissue hnewer
    rw [hlast]
    refine ⟨rfl, rfl, fun hasToken clock entropy htime => issue_of_pending rfl htime, ?_⟩
    intro now featureEnabled ready htime
    exact consume_succeeds ⟨token, token, issuedAt, true⟩ hconfigured rfl hzero htime featureEnabled
      ready
  · intro older issue newer presented token issuedAt h hissue hnewer hpresented
    exact presented_last calls h hissue hnewer hpresented
  · intro now candidate wasted rest entropy hconfigured hfree hattempts hzero hlast hwasted
    apply issue_succeeds hconfigured hfree
    rw [hattempts]
    exact drawCandidate_of_usable hzero hlast hwasted

/-- A source with a lifetime of one second. -/
def menuSource : OneShotForegroundUpdateAuthorizationSource := ⟨true, true, true, 1000⟩

/-- The answers of the entropy source, attempt by attempt. -/
def menuEntropy (answers : List UInt64) (attempt : Fin 4) : Option UInt64 := answers[attempt.val]?

/-- `Issue`, whose first draw is zero. -/
def menuIssue : Call := .issue true (some 50) (menuEntropy [0, 7])

/-- The token is presented while the network fails. -/
def menuFailure : Call := .consumeAndReadCurrent 7 true (some 60) none

/-- The pending token is consumed in time; a consume that failed has used it up, and after
it `Issue` gives another one. -/
theorem oneShot_authorization_menu :
    (menuSource.consumeAndReadCurrent (menuSource.run .initial [menuIssue]).2 7 true (some 1049)
        (some (true, false))).1 = some ⟨.confirmedUpdateMenuAction, true, false⟩ ∧
      (menuSource.run .initial [menuIssue, menuFailure]).2.pending = false ∧
      (menuSource.issue (menuSource.run .initial [menuIssue, menuFailure]).2 true (some 80)
        (menuEntropy [7, 9])).1 = some 9 := by
  obtain ⟨-, -, -, hheld, -, -⟩ := oneShot_authorization menuSource [menuIssue]
  obtain ⟨-, -, -, -, hpresented, hfresh⟩ :=
    oneShot_authorization menuSource [menuIssue, menuFailure]
  have hissue : (menuSource.run .initial [menuIssue]).1 = [] ++ [.issue (some 50) (some 7)] := by
    rfl
  have hlast : (menuSource.run .initial [menuIssue, menuFailure]).2 = ⟨0, 7, 0, false⟩ := by rfl
  refine ⟨?_, ?_, ?_⟩
  · obtain ⟨-, -, -, hconsume⟩ := hheld _ _ _ 7 50 hissue rfl nofun
    rw [hconsume 1049 true false (by decide)]
  · exact hpresented [] (.issue (some 50) (some 7)) []
      (.consumeAndReadCurrent 7 true (some 60) none) 7 50 (by rfl) rfl nofun ⟨rfl, rfl⟩
  · rw [hlast] at hfresh ⊢
    rw [hfresh 80 9 [some 7] [none, none] (menuEntropy [7, 9])
      ⟨rfl, rfl, rfl, by decide, by decide⟩ nofun (by decide) (by decide) (by decide)
      fun _ h => Or.inr (List.mem_singleton.mp h)]

end OneShotForegroundUpdateAuthorizationSource

end Authorization

end BmxUpdate
