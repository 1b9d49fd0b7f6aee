import BmxUpdate.JournalCodec
import BmxUpdate.Zip.Extract

/-!
# The extraction protocol

What a run of `StreamFile` asks of the two sinks, read off its trace: one
session with each, in which every chunk goes to the hash sink and then to the
extract sink, and which is closed whatever fails (`streamFile_session`).  A
commit is only asked for a file whose written bytes are the declared ones.
-/

namespace BmxUpdate

namespace Zip

open Wire Interaction Program

abbrev StreamTrace := List (Event StreamOp StreamAnswer)

abbrev HashEvent := Event HashOp HashAnswer

abbrev SinkEvent := Event SinkOp SinkAnswer

/-! ## Parts of a trace -/

def hashEvent : Event StreamOp StreamAnswer → Option HashEvent
  | ⟨.hash op, x⟩ => some ⟨op, x⟩
  | _ => none

def sinkEvent : Event StreamOp StreamAnswer → Option SinkEvent
  | ⟨.sink op, x⟩ => some ⟨op, x⟩
  | _ => none

/-- What an event gives of the contents of a file. -/
def eventContents (compression : ZipCompression) : Event StreamOp StreamAnswer → Bytes
  | ⟨.source (.readAt _ size), x⟩ =>
      match compression, (x : Option (Block size)) with
      | .store, some block => block.bytes
      | _, _ => []
  | ⟨.inflate input room _, x⟩ =>
      match compression with
      | .store => []
      | .deflate => (x : Inflated input.length room).output
  | _ => []

/-- The calls of the hash sink. -/
def hashCalls (t : StreamTrace) : List HashEvent := t.filterMap hashEvent

/-- The calls of the extract sink. -/
def sinkCalls (t : StreamTrace) : List SinkEvent := t.filterMap sinkEvent

/-- The bytes of a file that a trace has read, or inflated. -/
def contentsOf (compression : ZipCompression) (t : StreamTrace) : Bytes :=
  t.flatMap (eventContents compression)

section Parts

variable (t u : StreamTrace)

@[simp] theorem hashCalls_nil : hashCalls [] = [] := rfl
@[simp] theorem sinkCalls_nil : sinkCalls [] = [] := rfl
@[simp] theorem contentsOf_nil (compression : ZipCompression) : contentsOf compression [] = [] :=
  rfl

@[simp] theorem hashCalls_append : hashCalls (t ++ u) = hashCalls t ++ hashCalls u :=
  List.filterMap_append

@[simp] theorem sinkCalls_append : sinkCalls (t ++ u) = sinkCalls t ++ sinkCalls u :=
  List.filterMap_append

@[simp] theorem contentsOf_append (compression : ZipCompression) :
    contentsOf compression (t ++ u) = contentsOf compression t ++ contentsOf compression u :=
  List.flatMap_append

@[simp] theorem hashCalls_source (op : ZipOp) (x : ZipAnswer op) :
    hashCalls (⟨.source op, x⟩ :: t) = hashCalls t := rfl

@[simp] theorem sinkCalls_source (op : ZipOp) (x : ZipAnswer op) :
    sinkCalls (⟨.source op, x⟩ :: t) = sinkCalls t := rfl

@[simp] theorem hashCalls_inflate (input : Bytes) (room : Nat) (more : Bool)
    (x : Inflated input.length room) :
    hashCalls (⟨.inflate input room more, x⟩ :: t) = hashCalls t := rfl

@[simp] theorem sinkCalls_inflate (input : Bytes) (room : Nat) (more : Bool)
    (x : Inflated input.length room) :
    sinkCalls (⟨.inflate input room more, x⟩ :: t) = sinkCalls t := rfl

@[simp] theorem hashCalls_hash (op : HashOp) (x : HashAnswer op) :
    hashCalls (⟨.hash op, x⟩ :: t) = ⟨op, x⟩ :: hashCalls t := rfl

@[simp] theorem sinkCalls_hash (op : HashOp) (x : HashAnswer op) :
    sinkCalls (⟨.hash op, x⟩ :: t) = sinkCalls t := rfl

@[simp] theorem hashCalls_sink (op : SinkOp) (x : SinkAnswer op) :
    hashCalls (⟨.sink op, x⟩ :: t) = hashCalls t := rfl

@[simp] theorem sinkCalls_sink (op : SinkOp) (x : SinkAnswer op) :
    sinkCalls (⟨.sink op, x⟩ :: t) = ⟨op, x⟩ :: sinkCalls t := rfl

@[simp] theorem contentsOf_hash (compression : ZipCompression) (op : HashOp)
    (x : HashAnswer op) :
    contentsOf compression (⟨.hash op, x⟩ :: t) = contentsOf compression t := rfl

@[simp] theorem contentsOf_sink (compression : ZipCompression) (op : SinkOp)
    (x : SinkAnswer op) :
    contentsOf compression (⟨.sink op, x⟩ :: t) = contentsOf compression t := rfl

end Parts

/-! ## One operation -/

section Asks

variable {β : Type} {t : StreamTrace} {b : β}

theorem runs_getSize {k : Option UInt64 → StreamProc β} :
    Runs (sourceGetSize >>= k) t b ↔
      ∃ (x : Option UInt64) (u : StreamTrace), t = ⟨.source .getSize, x⟩ :: u ∧ Runs (k x) u b := runs_ask

theorem runs_readAt {offset size : Nat} {k : Option (Block size) → StreamProc β} :
    Runs (sourceReadAt offset size >>= k) t b ↔
      ∃ (x : Option (Block size)) (u : StreamTrace),
        t = ⟨.source (.readAt offset size), x⟩ :: u ∧ Runs (k x) u b := runs_ask

theorem runs_inflate {input : Bytes} {room : Nat} {more : Bool}
    {k : Inflated input.length room → StreamProc β} :
    Runs (tinflDecompress input room more >>= k) t b ↔
      ∃ (x : Inflated input.length room) (u : StreamTrace),
        t = ⟨.inflate input room more, x⟩ :: u ∧ Runs (k x) u b := runs_ask

theorem runs_beginFile {path : Bytes} {size : Nat} {k : Bool → StreamProc β} :
    Runs (hashBeginFile path size >>= k) t b ↔
      ∃ (x : Bool) (u : StreamTrace),
        t = ⟨.hash (.beginFile path size), x⟩ :: u ∧ Runs (k x) u b := runs_ask

theorem runs_finishFile {k : Option Digest → StreamProc β} :
    Runs (hashFinishFile >>= k) t b ↔
      ∃ (x : Option Digest) (u : StreamTrace), t = ⟨.hash .finishFile, x⟩ :: u ∧ Runs (k x) u b := runs_ask

theorem runs_beginEntry {entry : ZipEntry} {k : Bool → StreamProc β} :
    Runs (sinkBeginEntry entry >>= k) t b ↔
      ∃ (x : Bool) (u : StreamTrace),
        t = ⟨.sink (.beginEntry entry), x⟩ :: u ∧ Runs (k x) u b := runs_ask

theorem runs_commitEntry {entry : ZipEntry} {k : Bool → StreamProc β} :
    Runs (sinkCommitEntry entry >>= k) t b ↔
      ∃ (x : Bool) (u : StreamTrace),
        t = ⟨.sink (.commitEntry entry), x⟩ :: u ∧ Runs (k x) u b := runs_ask

theorem runs_abortEntry {entry : ZipEntry} {k : Unit → StreamProc β} :
    Runs (sinkAbortEntry entry >>= k) t b ↔
      ∃ (x : Unit) (u : StreamTrace),
        t = ⟨.sink (.abortEntry entry), x⟩ :: u ∧ Runs (k x) u b := runs_ask

/-- One operation and nothing more. -/
theorem runs_ask_only {op : StreamOp} {x : StreamAnswer op}
    (h : Runs (Program.ask op : StreamProc (StreamAnswer op)) t x) : t = [⟨op, x⟩] := by
  obtain _ | h := h
  obtain _ | _ := h
  rfl

end Asks

/-! ## Chunks passed on -/

/-- Chunks the hash sink has taken. -/
def updates (chunks : List Bytes) : List HashEvent := chunks.map fun chunk => ⟨.update chunk, true⟩

/-- Chunks the extract sink has taken. -/
def writes (chunks : List Bytes) : List SinkEvent := chunks.map fun chunk => ⟨.write chunk, true⟩

/-- A chunk that one of the sinks refused, if any. -/
inductive Refusal where
  | nothing
  | byHash (chunk : Bytes)
  | bySink (chunk : Bytes)

namespace Refusal

def updates : Refusal → List HashEvent
  | .nothing => []
  | .byHash chunk => [⟨.update chunk, false⟩]
  | .bySink chunk => [⟨.update chunk, true⟩]

def writes : Refusal → List SinkEvent
  | .nothing => []
  | .byHash _ => []
  | .bySink chunk => [⟨.write chunk, false⟩]

end Refusal

/-- The trace passes the chunks on, and perhaps one that is refused. -/
structure Passed (hash sink : Bool) (t : StreamTrace) (chunks : List Bytes)
    (refusal : Refusal) : Prop where
  hashed : hashCalls t = if hash then updates chunks ++ refusal.updates else []
  written : sinkCalls t = if sink then writes chunks ++ refusal.writes else []

variable {hash sink : Bool} {t u : StreamTrace} {chunks : List Bytes} {refusal : Refusal}

theorem Passed.append {more : List Bytes} (h : Passed hash sink t chunks .nothing)
    (h' : Passed hash sink u more refusal) : Passed hash sink (t ++ u) (chunks ++ more) refusal := by
  constructor
  · rw [hashCalls_append, h.hashed, h'.hashed]
    cases hash
    · rfl
    · simp [updates, Refusal.updates]
  · rw [sinkCalls_append, h.written, h'.written]
    cases sink
    · rfl
    · simp [writes, Refusal.writes]

/-- A trace that calls neither sink. -/
theorem passed_nothing (hhash : hashCalls t = []) (hsink : sinkCalls t = []) :
    Passed hash sink t [] .nothing := by
  constructor
  · rw [hhash]
    cases hash <;> rfl
  · rw [hsink]
    cases sink <;> rfl

theorem updateStarted_runs {chunk : Bytes} {hashed : Bool}
    (h : Runs (updateStarted hash chunk) t hashed) :
    (∀ compression, contentsOf compression t = []) ∧ sinkCalls t = [] ∧
      hashCalls t = (if hash then [⟨.update chunk, hashed⟩] else []) := by
  unfold updateStarted at h
  cases hash
  · obtain ⟨rfl, rfl⟩ := runs_pure.mp h
    exact ⟨fun _ => rfl, rfl, rfl⟩
  · obtain rfl := runs_ask_only h
    exact ⟨fun _ => rfl, rfl, rfl⟩

theorem writeStarted_runs {chunk : Bytes} {written : Bool}
    (h : Runs (writeStarted sink chunk) t written) :
    (∀ compression, contentsOf compression t = []) ∧ hashCalls t = [] ∧
      sinkCalls t = (if sink then [⟨.write chunk, written⟩] else []) := by
  unfold writeStarted at h
  cases sink
  · obtain ⟨rfl, rfl⟩ := runs_pure.mp h
    exact ⟨fun _ => rfl, rfl, rfl⟩
  · obtain rfl := runs_ask_only h
    exact ⟨fun _ => rfl, rfl, rfl⟩

theorem passOn_runs {chunk : Bytes} {status : Option ZipStatus}
    (h : Runs (passOn hash sink chunk) t status) :
    (∀ compression, contentsOf compression t = []) ∧
      ((status = none ∧ Passed hash sink t [chunk] .nothing) ∨
        (status ≠ none ∧ ∃ refusal, Passed hash sink t [] refusal)) := by
  unfold passOn at h
  obtain ⟨t₁, t₂, hashed, rfl, hhash, h⟩ := runs_bind.mp h
  obtain ⟨hcontents₁, hsink₁, hhash₁⟩ := updateStarted_runs hhash
  by_cases hrefused : hashed = false
  · rw [if_pos hrefused] at h
    obtain ⟨rfl, rfl⟩ := runs_pure.mp h
    rw [List.append_nil]
    refine ⟨hcontents₁, .inr ⟨nofun, .byHash chunk, ?_, ?_⟩⟩
    · rw [hhash₁, hrefused]
      rfl
    · rw [hsink₁]
      cases sink <;> rfl
  · rw [if_neg hrefused] at h
    rw [Bool.not_eq_false] at hrefused
    obtain ⟨t₃, t₄, written, rfl, hsink, h⟩ := runs_bind.mp h
    obtain ⟨hcontents₃, hhash₃, hsink₃⟩ := writeStarted_runs hsink
    by_cases hrefused' : written = false
    · rw [if_pos hrefused'] at h
      obtain ⟨rfl, rfl⟩ := runs_pure.mp h
      refine ⟨by simp [hcontents₁, hcontents₃], .inr ⟨nofun, .bySink chunk, ?_, ?_⟩⟩
      · simp only [hashCalls_append, hhash₁, hhash₃, hrefused, List.append_nil]
        rfl
      · simp only [sinkCalls_append, hsink₁, hsink₃, hrefused', List.append_nil,
          List.nil_append]
        rfl
    · rw [if_neg hrefused'] at h
      rw [Bool.not_eq_false] at hrefused'
      obtain ⟨rfl, rfl⟩ := runs_pure.mp h
      refine ⟨by simp [hcontents₁, hcontents₃], .inl ⟨rfl, ?_, ?_⟩⟩
      · simp only [hashCalls_append, hhash₁, hhash₃, hrefused, List.append_nil]
        rfl
      · simp only [sinkCalls_append, hsink₁, hsink₃, hrefused', List.append_nil,
          List.nil_append]
        rfl

/-! ## The loops -/

variable {entry : ZipEntry} {produced crc : Nat} {contents : Contents}

/-- What a loop over the contents does: it passes chunks on, and where it ends well it has passed
on the contents it read. -/
def Streams (hash sink : Bool) (entry : ZipEntry) (t : StreamTrace) (produced crc : Nat)
    (contents : Contents) : Prop :=
  ∃ chunks refusal, Passed hash sink t chunks refusal ∧
    (contents.result = none → refusal = .nothing ∧
      contents.produced = produced + chunks.flatten.length ∧
      contents.crc = updateCrc32 crc chunks.flatten ∧
      contentsOf entry.compression t = chunks.flatten)

theorem Streams.stopped (h : Passed hash sink t chunks refusal) (hresult : contents.result ≠ none) :
    Streams hash sink entry t produced crc contents :=
  ⟨chunks, refusal, h, fun hok => absurd hok hresult⟩

theorem Streams.after (h : Passed hash sink t chunks .nothing)
    (hcontents : contentsOf entry.compression t = chunks.flatten)
    (hrest : Streams hash sink entry u (produced + chunks.flatten.length)
      (updateCrc32 crc chunks.flatten) contents) :
    Streams hash sink entry (t ++ u) produced crc contents := by
  obtain ⟨more, refusal, hpassed, hend⟩ := hrest
  refine ⟨chunks ++ more, refusal, h.append hpassed, ?_⟩
  intro hresult
  obtain ⟨hrefusal, hproduced, hcrc, hread⟩ := hend hresult
  refine ⟨hrefusal, ?_, ?_, ?_⟩
  · rw [hproduced, List.flatten_append, List.length_append]
    omega
  · rw [hcrc, List.flatten_append, updateCrc32, updateCrc32, updateCrc32, List.foldl_append]
  · rw [contentsOf_append, hcontents, hread, List.flatten_append]

/-- The loop over a stored file. -/
theorem storeLoop_runs {remaining offset : Nat} (hstore : entry.compression = .store)
    (h : Runs (storeLoop hash sink entry remaining offset produced crc) t contents) :
    Streams hash sink entry t produced crc contents := by
  induction remaining using Nat.strong_induction_on generalizing offset produced crc t with
  | _ remaining ih =>
    rw [storeLoop] at h
    split at h
    · obtain ⟨rfl, rfl⟩ := runs_pure.mp h
      exact ⟨[], .nothing, passed_nothing rfl rfl, fun _ => ⟨rfl, rfl, rfl, rfl⟩⟩
    · next hremaining =>
      obtain ⟨answer, u, rfl, hanswered⟩ := runs_readAt.mp h
      clear h
      cases answer with
      | none =>
          obtain ⟨rfl, rfl⟩ := runs_pure.mp hanswered
          exact .stopped (passed_nothing rfl rfl : Passed _ _ _ [] _) nofun
      | some input =>
          dsimp only at hanswered
          split at hanswered
          · obtain ⟨rfl, rfl⟩ := runs_pure.mp hanswered
            exact .stopped (passed_nothing rfl rfl : Passed _ _ _ [] _) nofun
          · obtain ⟨t₁, t₂, status, rfl, hpass, h⟩ := runs_bind.mp hanswered
            clear hanswered
            obtain ⟨hnone, hpassed⟩ := passOn_runs hpass
            have hread : Passed hash sink [⟨.source (.readAt offset _), some input⟩] [] .nothing :=
              passed_nothing rfl rfl
            rcases hpassed with ⟨rfl, hpassed⟩ | ⟨hstatus, refusal, hpassed⟩
            · rw [if_neg (by simp)] at h
              have hchunk := hread.append hpassed
              have hamount : input.bytes.length = min remaining kZipInputBufferBytes :=
                input.length_bytes
              have hless : remaining - min remaining kZipInputBufferBytes < remaining := by
                have : 0 < kZipInputBufferBytes := by decide
                omega
              refine Streams.after hchunk ?_ ?_
              · rw [contentsOf_append, hnone, hstore]
                simp [contentsOf, eventContents]
              · simp only [List.nil_append, List.flatten_singleton, hamount]
                exact ih _ hless h
            · rw [if_pos hstatus] at h
              obtain ⟨rfl, rfl⟩ := runs_pure.mp h
              rw [List.append_nil]
              exact .stopped (hread.append hpassed) hstatus

/-- The input a loop over a deflated file has left. -/
def InflateState.left (state : InflateState) : Nat := state.pending.length + state.remaining

theorem refill_runs (hash sink : Bool) {before : InflateState} {filled : Option InflateState}
    (h : Runs (refill before) t filled) :
    Passed hash sink t [] .nothing ∧ contentsOf .deflate t = [] ∧
      ∀ state, filled = some state → state.produced = before.produced ∧ state.crc = before.crc ∧
        state.left = before.left ∧ (state.pending = [] → state.remaining = 0) := by
  unfold refill at h
  split at h
  · next hempty =>
      obtain ⟨answer, u, rfl, hanswered⟩ := runs_readAt.mp h
      clear h
      cases answer with
      | none =>
          obtain ⟨rfl, rfl⟩ := runs_pure.mp hanswered
          exact ⟨passed_nothing rfl rfl, rfl, nofun⟩
      | some input =>
          obtain ⟨rfl, rfl⟩ := runs_pure.mp hanswered
          refine ⟨passed_nothing rfl rfl, rfl, ?_⟩
          rintro state ⟨⟩
          have hlength := input.length_bytes
          have hpositive : 0 < kZipInputBufferBytes := by decide
          refine ⟨rfl, rfl, ?_, ?_⟩
          · simp only [InflateState.left, hlength, hempty.1, List.length_nil]
            omega
          · intro hnone
            dsimp only at hnone
            rw [hnone, List.length_nil] at hlength
            omega
  · next hfull =>
      obtain ⟨rfl, rfl⟩ := runs_pure.mp h
      refine ⟨passed_nothing rfl rfl, rfl, ?_⟩
      rintro state ⟨⟩
      refine ⟨rfl, rfl, rfl, ?_⟩
      intro hnone
      by_contra hremaining
      exact hfull ⟨hnone, hremaining⟩

theorem passOutput_runs {output : Bytes} {status : Option ZipStatus}
    (h : Runs (passOutput hash sink output) t status) :
    (∀ compression, contentsOf compression t = []) ∧
      ((status = none ∧ ∃ chunks, Passed hash sink t chunks .nothing ∧ chunks.flatten = output) ∨
        (status ≠ none ∧ ∃ refusal, Passed hash sink t [] refusal)) := by
  unfold passOutput at h
  split at h
  · next hnone =>
      obtain ⟨rfl, rfl⟩ := runs_pure.mp h
      exact ⟨fun _ => rfl, .inl ⟨rfl, [], passed_nothing rfl rfl, hnone.symm⟩⟩
  · obtain ⟨hcontents, ⟨hstatus, hpassed⟩ | hrefused⟩ := passOn_runs h
    · exact ⟨hcontents, .inl ⟨hstatus, [output], hpassed, by simp⟩⟩
    · exact ⟨hcontents, .inr hrefused⟩

/-- A turn that leaves the loop well leaves what it has produced. -/
theorem afterOutput_ok {state : InflateState} {status : TinflStatus} {consumed outputSize : Nat}
    (h : afterOutput state status consumed outputSize = some contents)
    (hresult : contents.result = none) :
    contents.produced = state.produced ∧ contents.crc = state.crc := by
  unfold afterOutput at h
  split at h
  case h_1 =>
    cases h
    cases hresult
  case h_2 =>
    split at h
    · cases h
      cases hresult
    · cases h
      exact ⟨rfl, rfl⟩
  case h_3 | h_4 =>
    split at h
    · split at h
      · cases h
      · cases h
        cases hresult
    · split at h
      · cases h
        cases hresult
      · cases h

/-- The loop over a deflated file. -/
theorem inflateLoop_runs {turns : Nat} {before : InflateState}
    (hdeflate : entry.compression = .deflate)
    (h : Runs (inflateLoop hash sink entry turns before) t contents) :
    Streams hash sink entry t before.produced before.crc contents := by
  induction turns generalizing before t with
  | zero =>
      obtain ⟨rfl, rfl⟩ := runs_pure.mp h
      exact .stopped (passed_nothing rfl rfl : Passed _ _ _ [] _) nofun
  | succ turns ih =>
      rw [inflateLoop] at h
      obtain ⟨t₁, t₂, filled, rfl, hrefill, h⟩ := runs_bind.mp h
      obtain ⟨hfilled, hcontents, hkeeps⟩ := refill_runs hash sink hrefill
      cases filled with
      | none =>
          obtain ⟨rfl, rfl⟩ := runs_pure.mp h
          rw [List.append_nil]
          exact .stopped hfilled nofun
      | some state =>
          obtain ⟨hproduced, hcrc, -, -⟩ := hkeeps state rfl
          dsimp only at h
          obtain ⟨inflated, u, rfl, hanswered⟩ := runs_inflate.mp h
          clear h
          have hstep : ∀ more, Passed hash sink
              (t₁ ++ [⟨.inflate state.pending (tinflLzDictSize - state.dictionaryOffset) more,
                inflated⟩]) [] .nothing :=
            fun _ => hfilled.append (passed_nothing rfl rfl)
          split at hanswered
          · obtain ⟨rfl, rfl⟩ := runs_pure.mp hanswered
            exact .stopped (hstep _) nofun
          · obtain ⟨t₃, t₄, status, rfl, hpass, h⟩ := runs_bind.mp hanswered
            clear hanswered
            obtain ⟨hnone, hpassed⟩ := passOutput_runs hpass
            have hsplit : ∀ e : Event StreamOp StreamAnswer,
                t₁ ++ e :: (t₃ ++ t₄) = t₁ ++ [e] ++ t₃ ++ t₄ := by
              intro e
              simp
            rw [hsplit]
            rcases hpassed with ⟨rfl, chunks, hpassed, hflat⟩ | ⟨hstatus, refusal, hpassed⟩
            · rw [if_neg (by simp)] at h
              have hread : ∀ more, contentsOf entry.compression
                  (t₁ ++ [⟨.inflate state.pending (tinflLzDictSize - state.dictionaryOffset) more,
                    inflated⟩] ++ t₃) = chunks.flatten := by
                intro more
                rw [hdeflate, contentsOf_append, contentsOf_append, hcontents, hnone, hflat]
                simp [contentsOf, eventContents]
              refine Streams.after ((hstep _).append hpassed) (by simpa using hread _) ?_
              rw [← hproduced, ← hcrc]
              split at h
              · next left hleft =>
                  obtain ⟨rfl, rfl⟩ := runs_pure.mp h
                  refine ⟨[], .nothing, passed_nothing rfl rfl, ?_⟩
                  intro hresult
                  obtain ⟨hproduced', hcrc'⟩ := afterOutput_ok hleft hresult
                  refine ⟨rfl, ?_, ?_, rfl⟩
                  · rw [hproduced', ← hflat]
                    simp
                  · rw [hcrc', ← hflat]
                    simp [updateCrc32]
              · have hnext := ih h
                simpa [hflat] using hnext
            · rw [if_pos hstatus] at h
              obtain ⟨rfl, rfl⟩ := runs_pure.mp h
              rw [List.append_nil]
              exact .stopped ((hstep _).append hpassed) hstatus

/-- A turn that goes on has used input or produced output. -/
theorem afterOutput_none {state : InflateState} {status : TinflStatus} {consumed outputSize : Nat}
    (h : afterOutput state status consumed outputSize = none) :
    0 < consumed ∨ 0 < outputSize ∨ (state.pending = [] ∧ state.remaining ≠ 0) := by
  unfold afterOutput at h
  split at h
  case h_1 => cases h
  case h_2 => split at h <;> cases h
  case h_3 | h_4 =>
    split at h
    · split at h
      · next hrefill => exact .inr (.inr hrefill)
      · cases h
    · next hmoved => omega

/-- The turns a loop can still make. -/
def InflateState.turns (state : InflateState) (entry : ZipEntry) : Nat :=
  state.left + (entry.size - state.produced)

/-- The loop ends before its turns do: more of them change nothing. -/
theorem inflateLoop_stable {turns more : Nat} {before : InflateState}
    (hturns : before.turns entry < turns) (hmore : before.turns entry < more)
    (h : Runs (inflateLoop hash sink entry turns before) t contents) :
    Runs (inflateLoop hash sink entry more before) t contents := by
  induction turns generalizing more before t with
  | zero => omega
  | succ turns ih =>
      obtain ⟨more, rfl⟩ : ∃ n, more = n + 1 := ⟨more - 1, by omega⟩
      rw [inflateLoop] at h ⊢
      obtain ⟨t₁, t₂, filled, rfl, hrefill, h⟩ := runs_bind.mp h
      obtain ⟨-, -, hkeeps⟩ := refill_runs hash sink hrefill
      refine runs_bind.mpr ⟨t₁, t₂, filled, rfl, hrefill, ?_⟩
      cases filled with
      | none => exact h
      | some state =>
          obtain ⟨hproduced, -, hleft, hfull⟩ := hkeeps state rfl
          dsimp only at h ⊢
          obtain ⟨inflated, u, rfl, hanswered⟩ := runs_inflate.mp h
          clear h
          refine runs_inflate.mpr ⟨inflated, u, rfl, ?_⟩
          split at hanswered
          · next hover =>
              rw [if_pos hover]
              exact hanswered
          · next hover =>
              rw [if_neg hover]
              obtain ⟨t₃, t₄, status, rfl, hpass, h⟩ := runs_bind.mp hanswered
              clear hanswered
              refine runs_bind.mpr ⟨t₃, t₄, status, rfl, hpass, ?_⟩
              split at h
              · next hstatus =>
                  rw [if_pos hstatus]
                  exact h
              · next hstatus =>
                  rw [if_neg hstatus]
                  split at h
                  · exact h
                  · next hgoes =>
                      have hconsumed := inflated.consumed_le
                      have hmoved : ∀ n, before.turns entry < n + 1 →
                          InflateState.turns
                            { state with
                              pending := state.pending.drop inflated.consumed
                              crc := updateCrc32 state.crc inflated.output
                              produced := state.produced + inflated.output.length
                              dictionaryOffset :=
                                (state.dictionaryOffset + inflated.output.length) %
                                  tinflLzDictSize } entry < n := by
                        intro n hn
                        rw [not_or, not_lt, not_lt] at hover
                        unfold InflateState.turns InflateState.left at hn ⊢
                        unfold InflateState.left at hleft
                        simp only [List.length_drop]
                        rcases afterOutput_none hgoes with hused | hmade | ⟨hempty, hremaining⟩
                        · omega
                        · omega
                        · dsimp only at hempty hremaining
                          have hdrop := congrArg List.length hempty
                          rw [List.length_drop, List.length_nil] at hdrop
                          have hused : inflated.consumed ≠ 0 := by
                            intro hzero
                            have hnone : state.pending = [] := by
                              rw [hzero] at hempty
                              exact hempty
                            exact hremaining (hfull hnone)
                          omega
                      exact ih (hmoved _ hturns) (hmoved _ hmore) h

theorem streamContents_runs (h : Runs (streamContents hash sink entry) t contents) :
    Streams hash sink entry t 0 0xffffffff contents := by
  unfold streamContents at h
  cases hcompression : entry.compression with
  | store =>
      rw [hcompression] at h
      exact storeLoop_runs hcompression h
  | deflate =>
      rw [hcompression] at h
      exact inflateLoop_runs hcompression h

/-! ## Sessions -/

/-- The digests of the hash sink are those of what it was given. -/
def HonestHash (calls : List HashEvent) : Prop :=
  ∀ before path size chunks digest after,
    calls = before ++ ⟨.beginFile path size, true⟩ ::
      (updates chunks ++ ⟨.finishFile, some digest⟩ :: after) →
    digest = sha256 chunks.flatten

/-- Bytes that are what the archive and the inventory say of a file. -/
structure Genuine (entry : ZipEntry) (expected : ZipExpectedFile) (hashed : List HashEvent)
    (bytes : Bytes) : Prop where
  size : bytes.length = entry.size
  crc : calculateCrc32 bytes = entry.crc32
  digest : ∀ digest, expected.sha256 = some digest → HonestHash hashed → sha256 bytes = digest

/-- A session with the hash sink after it has begun. -/
inductive HashTail : List HashEvent → Prop
  | finished (chunks : List Bytes) (digest : Digest) :
      HashTail (updates chunks ++ [⟨.finishFile, some digest⟩])
  | unfinished (chunks : List Bytes) :
      HashTail (updates chunks ++ [⟨.finishFile, none⟩, ⟨.abortFile, ()⟩])
  | refused (chunks : List Bytes) (chunk : Bytes) :
      HashTail (updates chunks ++ [⟨.update chunk, false⟩, ⟨.abortFile, ()⟩])
  | aborted (chunks : List Bytes) : HashTail (updates chunks ++ [⟨.abortFile, ()⟩])

/-- A session with the extract sink after it has begun, by the status of the run. -/
inductive SinkTail (entry : ZipEntry) (good : Bytes → Prop) :
    List SinkEvent → Option ZipStatus → Prop
  | committed (chunks : List Bytes) (hgood : good chunks.flatten) :
      SinkTail entry good (writes chunks ++ [⟨.commitEntry entry, true⟩]) none
  | uncommitted (chunks : List Bytes) (hgood : good chunks.flatten) (status : ZipStatus) :
      SinkTail entry good
        (writes chunks ++ [⟨.commitEntry entry, false⟩, ⟨.abortEntry entry, ()⟩]) (some status)
  | refused (chunks : List Bytes) (chunk : Bytes) (status : ZipStatus) :
      SinkTail entry good
        (writes chunks ++ [⟨.write chunk, false⟩, ⟨.abortEntry entry, ()⟩]) (some status)
  | aborted (chunks : List Bytes) (status : ZipStatus) :
      SinkTail entry good (writes chunks ++ [⟨.abortEntry entry, ()⟩]) (some status)

/-- A session with the hash sink. -/
inductive HashSession (entry : ZipEntry) : List HashEvent → Prop
  | unused : HashSession entry []
  | refused : HashSession entry [⟨.beginFile entry.path entry.size, false⟩]
  | begun (tail : List HashEvent) (htail : HashTail tail) :
      HashSession entry (⟨.beginFile entry.path entry.size, true⟩ :: tail)

/-- A session with the extract sink, if there is one. -/
inductive SinkSession (entry : ZipEntry) (good : Bytes → Prop) (sink : Bool) :
    List SinkEvent → Option ZipStatus → Prop
  | unused (status : Option ZipStatus) (hsink : sink = true → status ≠ none) :
      SinkSession entry good sink [] status
  | refused (status : ZipStatus) :
      SinkSession entry good sink [⟨.beginEntry entry, false⟩] (some status)
  | begun (tail : List SinkEvent) (status : Option ZipStatus)
      (htail : SinkTail entry good tail status) :
      SinkSession entry good sink (⟨.beginEntry entry, true⟩ :: tail) status

/-! ## The end of a file -/

variable {expected : ZipExpectedFile} {result : Option ZipStatus}

theorem checkContents_ok (h : checkContents entry contents = none) :
    contents.result = none ∧ contents.produced = entry.size ∧
      contents.crc ^^^ 0xffffffff = entry.crc32 := by
  unfold checkContents at h
  split at h
  · next hresult => exact absurd h hresult
  · next hresult =>
      split at h
      · cases h
      · next hsize =>
          split at h
          · cases h
          · next hcrc => exact ⟨not_not.mp hresult, not_not.mp hsize, not_not.mp hcrc⟩

/-- What the end of the hash calls, and what it leaves. -/
inductive HashEnd (expected : ZipExpectedFile) (result : Option ZipStatus) :
    Bool → List HashEvent → Option ZipStatus × Bool → Prop
  | skipped (hash : Bool) (hskipped : result = none → hash = false) :
      HashEnd expected result hash [] (result, hash)
  | failed (hresult : result = none) :
      HashEnd expected result true [⟨.finishFile, none⟩] (some .hashSinkError, true)
  | mismatch (hresult : result = none) (digest : Digest) :
      HashEnd expected result true [⟨.finishFile, some digest⟩] (some .hashMismatch, false)
  | finished (hresult : result = none) (digest : Digest)
      (hdigest : ∀ wanted, expected.sha256 = some wanted → wanted = digest) :
      HashEnd expected result true [⟨.finishFile, some digest⟩] (none, false)

theorem finishHash_runs {after : Option ZipStatus × Bool}
    (h : Runs (finishHash expected result hash) t after) :
    sinkCalls t = [] ∧ (∀ compression, contentsOf compression t = []) ∧
      HashEnd expected result hash (hashCalls t) after := by
  unfold finishHash at h
  split at h
  · next hopen =>
      obtain ⟨hresult, rfl⟩ := hopen
      obtain ⟨answer, u, rfl, hanswered⟩ := runs_finishFile.mp h
      clear h
      cases answer with
      | none =>
          obtain ⟨rfl, rfl⟩ := runs_pure.mp hanswered
          exact ⟨rfl, fun _ => rfl, .failed hresult⟩
      | some digest =>
          dsimp only at hanswered
          split at hanswered
          · obtain ⟨rfl, rfl⟩ := runs_pure.mp hanswered
            exact ⟨rfl, fun _ => rfl, .mismatch hresult digest⟩
          · next hequal =>
              obtain ⟨rfl, rfl⟩ := runs_pure.mp hanswered
              refine ⟨rfl, fun _ => rfl, .finished hresult digest ?_⟩
              intro wanted hwanted
              simpa [hwanted] using hequal
  · next hskipped =>
      obtain ⟨rfl, rfl⟩ := runs_pure.mp h
      refine ⟨rfl, fun _ => rfl, .skipped hash ?_⟩
      intro hresult
      rw [not_and, Bool.not_eq_true] at hskipped
      exact hskipped hresult

/-- What the end of the extraction calls, and what it leaves. -/
inductive SinkEnd (entry : ZipEntry) (result : Option ZipStatus) :
    Bool → List SinkEvent → Option ZipStatus × Bool → Prop
  | skipped (sink : Bool) (hskipped : result = none → sink = false) :
      SinkEnd entry result sink [] (result, sink)
  | refused (hresult : result = none) :
      SinkEnd entry result true [⟨.commitEntry entry, false⟩] (some .sinkError, true)
  | committed (hresult : result = none) :
      SinkEnd entry result true [⟨.commitEntry entry, true⟩] (none, false)

theorem commitExtraction_runs {after : Option ZipStatus × Bool}
    (h : Runs (commitExtraction entry result sink) t after) :
    hashCalls t = [] ∧ (∀ compression, contentsOf compression t = []) ∧
      SinkEnd entry result sink (sinkCalls t) after := by
  unfold commitExtraction at h
  split at h
  · next hopen =>
      obtain ⟨hresult, rfl⟩ := hopen
      obtain ⟨committed, u, rfl, hanswered⟩ := runs_commitEntry.mp h
      clear h
      cases committed with
      | false =>
          rw [if_pos rfl] at hanswered
          obtain ⟨rfl, rfl⟩ := runs_pure.mp hanswered
          exact ⟨rfl, fun _ => rfl, .refused hresult⟩
      | true =>
          rw [if_neg (by simp)] at hanswered
          obtain ⟨rfl, rfl⟩ := runs_pure.mp hanswered
          exact ⟨rfl, fun _ => rfl, .committed hresult⟩
  · next hskipped =>
      obtain ⟨rfl, rfl⟩ := runs_pure.mp h
      refine ⟨rfl, fun _ => rfl, .skipped sink ?_⟩
      intro hresult
      rw [not_and, Bool.not_eq_true] at hskipped
      exact hskipped hresult

theorem abortHash_runs (h : Runs (abortHash hash) t ()) :
    sinkCalls t = [] ∧ (∀ compression, contentsOf compression t = []) ∧
      hashCalls t = if hash then [⟨.abortFile, ()⟩] else [] := by
  unfold abortHash at h
  cases hash
  · obtain ⟨rfl, -⟩ := runs_pure.mp h
    exact ⟨rfl, fun _ => rfl, rfl⟩
  · obtain rfl := runs_ask_only h
    exact ⟨rfl, fun _ => rfl, rfl⟩

theorem abortExtraction_runs (h : Runs (abortExtraction entry sink) t ()) :
    hashCalls t = [] ∧ (∀ compression, contentsOf compression t = []) ∧
      sinkCalls t = if sink then [⟨.abortEntry entry, ()⟩] else [] := by
  unfold abortExtraction at h
  cases sink
  · obtain ⟨rfl, -⟩ := runs_pure.mp h
    exact ⟨rfl, fun _ => rfl, rfl⟩
  · obtain rfl := runs_ask_only h
    exact ⟨rfl, fun _ => rfl, rfl⟩

/-- The hash session is closed, whatever the contents came to. -/
theorem HashEnd.tail {calls : List HashEvent} {after : Option ZipStatus × Bool}
    (h : HashEnd expected result true calls after) (hrefusal : result = none → refusal = .nothing) :
    HashTail (updates chunks ++ refusal.updates ++ calls ++
      if after.2 then [⟨.abortFile, ()⟩] else []) := by
  cases h with
  | skipped _ hskipped =>
      cases refusal with
      | nothing => simpa [Refusal.updates] using HashTail.aborted chunks
      | byHash chunk => simpa [Refusal.updates] using HashTail.refused chunks chunk
      | bySink chunk =>
          simpa [Refusal.updates, updates] using HashTail.aborted (chunks ++ [chunk])
  | failed hresult =>
      obtain rfl := hrefusal hresult
      simpa [Refusal.updates] using HashTail.unfinished chunks
  | mismatch hresult digest =>
      obtain rfl := hrefusal hresult
      simpa [Refusal.updates] using HashTail.finished chunks digest
  | finished hresult digest _ =>
      obtain rfl := hrefusal hresult
      simpa [Refusal.updates] using HashTail.finished chunks digest

/-- The extraction is closed, and committed only where the contents are good. -/
theorem SinkEnd.tail {calls : List SinkEvent} {after : Option ZipStatus × Bool}
    {good : Bytes → Prop} (h : SinkEnd entry result true calls after)
    (hgood : result = none → refusal = .nothing ∧ good chunks.flatten) :
    SinkTail entry good (writes chunks ++ refusal.writes ++ calls ++
      if after.2 then [⟨.abortEntry entry, ()⟩] else []) after.1 := by
  cases h with
  | skipped _ hskipped =>
      cases result with
      | none => exact absurd (hskipped rfl) (by simp)
      | some status =>
          cases refusal with
          | nothing => simpa [Refusal.writes] using SinkTail.aborted chunks status
          | byHash chunk => simpa [Refusal.writes] using SinkTail.aborted chunks status
          | bySink chunk => simpa [Refusal.writes] using SinkTail.refused chunks chunk status
  | refused hresult =>
      obtain ⟨rfl, hflat⟩ := hgood hresult
      simpa [Refusal.writes] using SinkTail.uncommitted chunks hflat .sinkError
  | committed hresult =>
      obtain ⟨rfl, hflat⟩ := hgood hresult
      simpa [Refusal.writes] using SinkTail.committed chunks hflat

/-- A hash that ends well has given the digest of the file. -/
theorem HashEnd.ok {calls : List HashEvent} {stillOpen : Bool}
    (h : HashEnd expected result hash calls (none, stillOpen)) :
    result = none ∧ (hash = true → ∃ digest, calls = [⟨.finishFile, some digest⟩] ∧
      stillOpen = false ∧ ∀ wanted, expected.sha256 = some wanted → wanted = digest) := by
  cases h with
  | skipped _ hskipped =>
      refine ⟨rfl, ?_⟩
      rintro rfl
      exact absurd (hskipped rfl) (by simp)
  | finished hresult digest hdigest => exact ⟨hresult, fun _ => ⟨digest, rfl, rfl, hdigest⟩⟩

theorem HashEnd.unused {calls : List HashEvent} {after : Option ZipStatus × Bool}
    (h : HashEnd expected result false calls after) : calls = [] ∧ after.2 = false := by
  cases h
  exact ⟨rfl, rfl⟩

theorem SinkEnd.unused {calls : List SinkEvent} {after : Option ZipStatus × Bool}
    (h : SinkEnd entry result false calls after) : calls = [] ∧ after.2 = false := by
  cases h
  exact ⟨rfl, rfl⟩

theorem SinkEnd.ok {calls : List SinkEvent} {stillOpen : Bool}
    (h : SinkEnd entry result sink calls (none, stillOpen)) : result = none := by
  cases h with
  | skipped => rfl
  | committed hresult => exact hresult

/-- The calls of the hash sink from the begin of a session on. -/
def hashSession (entry : ZipEntry) (hash : Bool) (calls : List HashEvent) : List HashEvent :=
  if hash then ⟨.beginFile entry.path entry.size, true⟩ :: calls else []

theorem updateCrc32_eq (bytes : Bytes) :
    updateCrc32 0xffffffff bytes ^^^ 0xffffffff = calculateCrc32 bytes := rfl

/-- `StreamFile` after both sinks have begun: both sessions are closed. -/
theorem streamStarted_runs {status : Option ZipStatus}
    (hrequired : hash = false → expected.sha256 = none)
    (h : Runs (streamStarted entry expected hash sink) t status) :
    (if hash then HashTail (hashCalls t) else hashCalls t = []) ∧
      (if sink then
          SinkTail entry (Genuine entry expected (hashSession entry hash (hashCalls t)))
            (sinkCalls t) status
        else sinkCalls t = []) ∧
      (status = none → Genuine entry expected (hashSession entry hash (hashCalls t))
        (contentsOf entry.compression t)) := by
  unfold streamStarted at h
  obtain ⟨t₁, u₁, contents, rfl, hcontents, h₁⟩ := runs_bind.mp h
  clear h
  obtain ⟨t₂, u₂, ⟨result, hashOpen⟩, rfl, hfinish, h₂⟩ := runs_bind.mp h₁
  clear h₁
  obtain ⟨t₃, u₃, ⟨result', sinkOpen⟩, rfl, hcommit, h₃⟩ := runs_bind.mp h₂
  clear h₂
  obtain ⟨t₄, u₄, _, rfl, habortHash, h₄⟩ := runs_bind.mp h₃
  clear h₃
  obtain ⟨t₅, u₅, _, rfl, habortSink, h₅⟩ := runs_bind.mp h₄
  clear h₄
  obtain ⟨rfl, rfl⟩ := runs_pure.mp h₅
  obtain ⟨chunks, refusal, hpassed, hread⟩ := streamContents_runs hcontents
  obtain ⟨hsink₂, hnone₂, hend⟩ := finishHash_runs hfinish
  obtain ⟨hhash₃, hnone₃, hclose⟩ := commitExtraction_runs hcommit
  obtain ⟨hsink₄, hnone₄, hhash₄⟩ := abortHash_runs habortHash
  obtain ⟨hhash₅, hnone₅, hsink₅⟩ := abortExtraction_runs habortSink
  have hhashCalls : hashCalls (t₁ ++ (t₂ ++ (t₃ ++ (t₄ ++ (t₅ ++ []))))) =
      hashCalls t₁ ++ hashCalls t₂ ++ if hashOpen then [⟨.abortFile, ()⟩] else [] := by
    simp [hhash₃, hhash₄, hhash₅]
  have hsinkCalls : sinkCalls (t₁ ++ (t₂ ++ (t₃ ++ (t₄ ++ (t₅ ++ []))))) =
      sinkCalls t₁ ++ sinkCalls t₃ ++ if sinkOpen then [⟨.abortEntry entry, ()⟩] else [] := by
    simp [hsink₂, hsink₄, hsink₅]
  have hcontentsOf : contentsOf entry.compression (t₁ ++ (t₂ ++ (t₃ ++ (t₄ ++ (t₅ ++ []))))) =
      contentsOf entry.compression t₁ := by
    simp [hnone₂, hnone₃, hnone₄, hnone₅]
  rw [hhashCalls, hsinkCalls, hcontentsOf]
  have hrefusal : checkContents entry contents = none → refusal = .nothing :=
    fun hok => (hread (checkContents_ok hok).1).1
  -- where the hash has ended well, the chunks are the file
  have hgenuine : result = none → refusal = .nothing ∧
      contentsOf entry.compression t₁ = chunks.flatten ∧
      Genuine entry expected (hashSession entry hash
        (hashCalls t₁ ++ hashCalls t₂ ++ if hashOpen then [⟨.abortFile, ()⟩] else []))
        chunks.flatten := by
    rintro rfl
    obtain ⟨hok, hfinished⟩ := hend.ok
    obtain ⟨hresult, hsize, hcrc⟩ := checkContents_ok hok
    obtain ⟨hnothing, hproduced, hupdated, hcontentsOf⟩ := hread hresult
    refine ⟨hnothing, hcontentsOf, ?_, ?_, ?_⟩
    · omega
    · rw [← updateCrc32_eq, ← hupdated, hcrc]
    · intro wanted hwanted honest
      cases hash
      · rw [hrequired rfl] at hwanted
        cases hwanted
      · obtain ⟨digest, hcalls, rfl, hdigest⟩ := hfinished rfl
        rw [hpassed.hashed, hnothing, hcalls] at honest
        rw [hdigest wanted hwanted]
        symm
        refine honest [] entry.path entry.size chunks digest [] ?_
        simp [hashSession, Refusal.updates]
  refine ⟨?_, ?_, ?_⟩
  · cases hash
    · obtain ⟨hcalls, hclosed⟩ := hend.unused
      rw [hpassed.hashed, hcalls, show hashOpen = false from hclosed]
      rfl
    · rw [hpassed.hashed]
      exact hend.tail hrefusal
  · cases sink
    · obtain ⟨hcalls, hclosed⟩ := hclose.unused
      rw [hpassed.written, hcalls, show sinkOpen = false from hclosed]
      rfl
    · have hwritten := hpassed.written
      rw [if_pos rfl] at hwritten
      rw [hwritten, if_pos rfl]
      exact hclose.tail fun hresult => ⟨(hgenuine hresult).1, (hgenuine hresult).2.2⟩
  · intro hstatus
    subst hstatus
    have hresult : result = none := hclose.ok
    obtain ⟨-, hflat, hgood⟩ := hgenuine hresult
    rw [hflat]
    exact hgood

/-! ## A file -/

/-- The bytes are those of the entry, as the inventory expects it. -/
def Expected (entry : ZipEntry) (expected : Option ZipExpectedFile) (hashed : List HashEvent)
    (bytes : Bytes) : Prop :=
  ∃ wanted, expected = some wanted ∧ Genuine entry wanted hashed bytes

/-- What a run of `StreamFile` did. -/
structure FileSession (entry : ZipEntry) (expected : Option ZipExpectedFile) (sink : Bool)
    (t : StreamTrace) (status : Option ZipStatus) : Prop where
  hashed : HashSession entry (hashCalls t)
  extracted : SinkSession entry (Expected entry expected (hashCalls t)) sink (sinkCalls t) status
  unwritten : sink = false → sinkCalls t = []
  contents : status = none →
    Expected entry expected (hashCalls t) (contentsOf entry.compression t)

theorem SinkTail.mono {good good' : Bytes → Prop} (hgood : ∀ bytes, good bytes → good' bytes)
    {calls : List SinkEvent} {status : Option ZipStatus} (h : SinkTail entry good calls status) :
    SinkTail entry good' calls status := by
  cases h with
  | committed chunks h => exact .committed chunks (hgood _ h)
  | uncommitted chunks h status => exact .uncommitted chunks (hgood _ h) status
  | refused chunks chunk status => exact .refused chunks chunk status
  | aborted chunks status => exact .aborted chunks status

theorem SinkSession.mono {good good' : Bytes → Prop} (hgood : ∀ bytes, good bytes → good' bytes)
    {calls : List SinkEvent} {status : Option ZipStatus}
    (h : SinkSession entry good sink calls status) :
    SinkSession entry good' sink calls status := by
  cases h with
  | unused status hsink => exact .unused status hsink
  | refused status => exact .refused status
  | begun tail status htail => exact .begun tail status (htail.mono hgood)

/-- A run that stops before any sink is asked. -/
theorem fileSession_stopped {expected : Option ZipExpectedFile} {status : ZipStatus}
    (hhash : hashCalls t = []) (hsink : sinkCalls t = []) :
    FileSession entry expected sink t (some status) := by
  constructor
  · rw [hhash]
    exact .unused
  · rw [hsink]
    exact .unused _ fun _ => nofun
  · exact fun _ => hsink
  · nofun

/-- The two sessions of a file, when the hash sink has begun or there is none. -/
theorem streamHashed_runs {status : Option ZipStatus}
    (hrequired : hash = false → expected.sha256 = none)
    (h : Runs (streamHashed entry expected hash sink) t status) :
    (if hash then HashTail (hashCalls t) else hashCalls t = []) ∧
      SinkSession entry (Genuine entry expected (hashSession entry hash (hashCalls t))) sink
        (sinkCalls t) status ∧
      (sink = false → sinkCalls t = []) ∧
      (status = none → Genuine entry expected (hashSession entry hash (hashCalls t))
        (contentsOf entry.compression t)) := by
  unfold streamHashed at h
  cases sink
  · rw [if_neg (by simp)] at h
    obtain ⟨hhash, hsink, hcontents⟩ := streamStarted_runs hrequired h
    rw [if_neg (by simp)] at hsink
    refine ⟨hhash, ?_, fun _ => hsink, hcontents⟩
    rw [hsink]
    exact .unused _ nofun
  · rw [if_pos rfl] at h
    obtain ⟨begun, u, rfl, hbegun⟩ := runs_beginEntry.mp h
    clear h
    cases begun
    · rw [if_pos rfl] at hbegun
      obtain ⟨t₁, t₂, _, rfl, habort, hend⟩ := runs_bind.mp hbegun
      obtain ⟨rfl, rfl⟩ := runs_pure.mp hend
      obtain ⟨hsink, -, hhash⟩ := abortHash_runs habort
      refine ⟨?_, ?_, nofun, nofun⟩
      · cases hash
        · simpa using hhash
        · rw [if_pos rfl, hashCalls_sink, List.append_nil, hhash]
          exact .aborted []
      · rw [sinkCalls_sink, List.append_nil, hsink]
        exact .refused _
    · rw [if_neg (by simp)] at hbegun
      obtain ⟨hhash, hsink, hcontents⟩ := streamStarted_runs hrequired hbegun
      rw [if_pos rfl] at hsink
      rw [sinkCalls_sink, hashCalls_sink, contentsOf_sink]
      exact ⟨hhash, .begun _ _ hsink, nofun, hcontents⟩

/-- `StreamFile` has one session with each sink, and commits only a file that is the declared
one. -/
theorem streamFile_session {reader : ZipReader} {expected : Option ZipExpectedFile}
    {status : Option ZipStatus}
    (h : Runs (reader.streamFile entry expected hash sink) t status) :
    FileSession entry expected sink t status := by
  unfold ZipReader.streamFile at h
  cases expected with
  | none =>
      obtain ⟨rfl, rfl⟩ := runs_pure.mp h
      exact fileSession_stopped rfl rfl
  | some expected =>
      dsimp only at h
      split at h
      · obtain ⟨rfl, rfl⟩ := runs_pure.mp h
        exact fileSession_stopped rfl rfl
      split at h
      · obtain ⟨rfl, rfl⟩ := runs_pure.mp h
        exact fileSession_stopped rfl rfl
      obtain ⟨answer, u, rfl, hanswered⟩ := runs_getSize.mp h
      clear h
      cases answer with
      | none =>
          obtain ⟨rfl, rfl⟩ := runs_pure.mp hanswered
          exact fileSession_stopped rfl rfl
      | some currentSize =>
          dsimp only at hanswered
          split at hanswered
          · obtain ⟨rfl, rfl⟩ := runs_pure.mp hanswered
            exact fileSession_stopped rfl rfl
          cases hash
          · rw [if_neg (by simp)] at hanswered
            split at hanswered
            · obtain ⟨rfl, rfl⟩ := runs_pure.mp hanswered
              exact fileSession_stopped rfl rfl
            · next hsha =>
                rw [Bool.not_eq_true, Option.isSome_eq_false_iff, Option.isNone_iff_eq_none] at hsha
                obtain ⟨hhash, hsink, hunwritten, hcontents⟩ :=
                  streamHashed_runs (fun _ => hsha) hanswered
                rw [if_neg (by simp)] at hhash
                rw [hhash] at hsink hcontents
                constructor
                · rw [hashCalls_source, hhash]
                  exact .unused
                · rw [hashCalls_source, sinkCalls_source, hhash]
                  exact hsink.mono fun _ hgood => ⟨expected, rfl, hgood⟩
                · exact hunwritten
                · intro hstatus
                  rw [hashCalls_source, hhash]
                  exact ⟨expected, rfl, hcontents hstatus⟩
          · rw [if_pos rfl] at hanswered
            obtain ⟨begun, u', rfl, hbegun⟩ := runs_beginFile.mp hanswered
            clear hanswered
            cases begun
            · rw [if_pos rfl] at hbegun
              obtain ⟨rfl, rfl⟩ := runs_pure.mp hbegun
              constructor
              · exact .refused
              · exact .unused _ fun _ => nofun
              · exact fun _ => rfl
              · nofun
            · rw [if_neg (by simp)] at hbegun
              have hrequired : true = false → expected.sha256 = none := nofun
              obtain ⟨hhash, hsink, hunwritten, hcontents⟩ := streamHashed_runs hrequired hbegun
              constructor
              · rw [hashCalls_source, hashCalls_hash]
                exact .begun _ hhash
              · exact hsink.mono fun _ hgood => ⟨expected, rfl, hgood⟩
              · exact hunwritten
              · intro hstatus
                exact ⟨expected, rfl, hcontents hstatus⟩

end Zip

end BmxUpdate
