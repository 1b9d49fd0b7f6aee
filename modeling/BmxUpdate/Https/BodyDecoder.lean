import BmxUpdate.Https.ResponseHead
import BmxUpdate.Library.Interaction

/-!
# Decoding a response body

`HttpBodyDecoder` (`http_response_parser.cpp`): fed with the received bytes in
any pieces, it writes the payload to a sink.  The sink is a parameter, in any
monad.

`Awaits decoder encoded payload` says which bytes complete the body from the
state of a decoder, and with what payload.  A step of the decoder takes a
derivative of it: one lemma for each kind of byte.  `rank` bounds the steps a
decoder can make.
-/

namespace BmxUpdate

namespace Https

open Wire Http Interaction

inductive HttpBodyStatus where
  | ok | complete | invalidArgument | tooLarge | sinkRejected | invalidChunk | unexpectedData
  | truncated
deriving DecidableEq, Repr

inductive HttpBodyState where
  | contentLength | chunkSize | chunkSizeLf | chunkData | chunkDataCr | chunkDataLf
  | finalCr | finalLf | complete | failed
deriving DecidableEq, Repr

/-- The decoder of one body. -/
structure HttpBodyDecoder where
  state : HttpBodyState
  remaining : Nat
  decodedBytes : Nat
  maximumBodyBytes : Nat
  chunkLine : Bytes
deriving DecidableEq, Repr

/-- The size of `chunk_line_`. -/
def chunkLineCapacity : Nat := 18

namespace HttpBodyDecoder

/-- The constructor. -/
def new (head : HttpResponseHead) (maximumBodyBytes : Nat) : HttpBodyDecoder :=
  let remaining := if head.hasContentLength then head.contentLength else 0
  { state :=
      if head.hasContentLength = head.chunked then .failed
      else if ¬head.chunked ∧ maximumBodyBytes < remaining then .failed
      else if ¬head.chunked ∧ remaining = 0 then .complete
      else if head.chunked then .chunkSize
      else .contentLength
    remaining, decodedBytes := 0, maximumBodyBytes, chunkLine := [] }

/-- `complete()` -/
def isComplete (decoder : HttpBodyDecoder) : Bool := decoder.state = .complete

/-- `Fail` -/
def fail (decoder : HttpBodyDecoder) (status : HttpBodyStatus) : HttpBodyStatus × HttpBodyDecoder :=
  (status, { decoder with state := .failed })

/-- The size in a chunk's first line. -/
def chunkSizeOf (line : Bytes) : Option Nat :=
  line.foldlM (fun size c =>
    match hexValue c with
    | some digit => if size ≤ (2 ^ 64 - 1 - digit) / 16 then some (size * 16 + digit) else none
    | none => none) 0

/-- The states in which a byte is only looked at; `none` is an invalid chunk. -/
def acceptByte (decoder : HttpBodyDecoder) (c : UInt8) : Option HttpBodyDecoder :=
  match decoder.state with
  | .chunkSize =>
      if c = 0x0d then
        if decoder.chunkLine = [] then none
        else (chunkSizeOf decoder.chunkLine).map fun size =>
          { decoder with remaining := size, chunkLine := [], state := .chunkSizeLf }
      else if c = 0x0a ∨ c = 0x3b ∨ chunkLineCapacity ≤ decoder.chunkLine.length then none
      else some { decoder with chunkLine := decoder.chunkLine ++ [c] }
  | .chunkSizeLf =>
      if c = 0x0a then
        some { decoder with state := if decoder.remaining = 0 then .finalCr else .chunkData }
      else none
  | .chunkDataCr => if c = 0x0d then some { decoder with state := .chunkDataLf } else none
  | .chunkDataLf => if c = 0x0a then some { decoder with state := .chunkSize } else none
  | .finalCr => if c = 0x0d then some { decoder with state := .finalLf } else none
  | .finalLf => if c = 0x0a then some { decoder with state := .complete } else none
  -- not reached: these states are handled where the bytes are taken
  | .contentLength | .chunkData | .complete | .failed => none

section Feed

variable {m : Type → Type} [Monad m] (sink : Bytes → m Bool)

/-- `Write` -/
def write (decoder : HttpBodyDecoder) (data : Bytes) : m (HttpBodyStatus × HttpBodyDecoder) :=
  if data = [] then pure (.ok, decoder)
  else if decoder.maximumBodyBytes < decoder.decodedBytes ∨
      decoder.maximumBodyBytes - decoder.decodedBytes < data.length then
    pure (decoder.fail .tooLarge)
  else do
    if ← sink data then
      return (.ok, { decoder with decodedBytes := decoder.decodedBytes + data.length })
    else return decoder.fail .sinkRejected

/-- The end of a piece: what `Feed` returns where the body is complete. -/
def completed (decoder : HttpBodyDecoder) (rest : Bytes) : HttpBodyStatus × HttpBodyDecoder :=
  (if rest = [] then .complete else .unexpectedData, { decoder with state := .complete })

/-- The loop of `Feed`. -/
def feedBytes (decoder : HttpBodyDecoder) (data : Bytes) : m (HttpBodyStatus × HttpBodyDecoder) :=
  match data with
  | [] => pure (.ok, decoder)
  | c :: rest =>
      match decoder.state with
      | .contentLength => do
          let available := min (c :: rest).length decoder.remaining
          let (status, decoder) ← decoder.write sink ((c :: rest).take available)
          if status ≠ .ok then return (status, decoder)
          let decoder := { decoder with remaining := decoder.remaining - available }
          if decoder.remaining = 0 then return decoder.completed ((c :: rest).drop available)
          -- the whole piece is taken
          return (.ok, decoder)
      | .chunkData => do
          let (status, decoder) ← decoder.write sink [c]
          if status ≠ .ok then return (status, decoder)
          let decoder := { decoder with remaining := decoder.remaining - 1 }
          let available := min rest.length decoder.remaining
          let (status, decoder) ← decoder.write sink (rest.take available)
          if status ≠ .ok then return (status, decoder)
          let decoder := { decoder with remaining := decoder.remaining - available }
          let state := if decoder.remaining = 0 then .chunkDataCr else decoder.state
          feedBytes { decoder with state := state } (rest.drop available)
      | _ =>
          match decoder.acceptByte c with
          | none => return decoder.fail .invalidChunk
          | some decoder =>
              if decoder.isComplete then return decoder.completed rest
              else feedBytes decoder rest
termination_by data.length
decreasing_by
  · simp only [List.length_drop, List.length_cons]
    omega
  · exact Nat.lt_succ_self _

/-- `Feed` -/
def feed (decoder : HttpBodyDecoder) (data : Bytes) : m (HttpBodyStatus × HttpBodyDecoder) :=
  match decoder.state with
  | .failed => return (.invalidArgument, decoder)
  | .complete => return (if data = [] then .complete else .unexpectedData, decoder)
  | _ => decoder.feedBytes sink data

end Feed

/-- `Finish` -/
def finish (decoder : HttpBodyDecoder) : HttpBodyStatus × HttpBodyDecoder :=
  match decoder.state with
  | .complete => (.complete, decoder)
  | .failed => (.invalidArgument, decoder)
  | _ => decoder.fail .truncated

theorem isComplete_finish {decoder : HttpBodyDecoder} (h : ¬decoder.isComplete = true) :
    ¬decoder.finish.2.isComplete = true := by
  unfold finish
  split
  · exact h
  · exact h
  · nofun

/-! ## What a decoder waits for -/

/-- What follows the size line of a chunk of `size` bytes. -/
def AfterSize (size : Nat) (encoded payload : Bytes) : Prop :=
  if size = 0 then encoded = crlf ∧ payload = []
  else ∃ data encoded' payload', data.length = size ∧ encoded = data ++ crlf ++ encoded' ∧
    payload = data ++ payload' ∧ Chunked chunkLineCapacity encoded' payload'

/-- The bytes that complete the body, and the payload they add. -/
def Awaits (decoder : HttpBodyDecoder) (encoded payload : Bytes) : Prop :=
  match decoder.state with
  | .contentLength => encoded = payload ∧ payload.length = decoder.remaining
  | .chunkSize => Chunked chunkLineCapacity (decoder.chunkLine ++ encoded) payload
  | .chunkSizeLf => ∃ rest, encoded = 0x0a :: rest ∧ AfterSize decoder.remaining rest payload
  | .chunkData => AfterSize decoder.remaining encoded payload
  | .chunkDataCr => ∃ rest, encoded = crlf ++ rest ∧ Chunked chunkLineCapacity rest payload
  | .chunkDataLf => ∃ rest, encoded = 0x0a :: rest ∧ Chunked chunkLineCapacity rest payload
  | .finalCr => encoded = crlf ∧ payload = []
  | .finalLf => encoded = [0x0a] ∧ payload = []
  | .complete => encoded = [] ∧ payload = []
  | .failed => False

/-- A bound for the steps before the next byte of payload. -/
def phase (decoder : HttpBodyDecoder) : Nat :=
  match decoder.state with
  | .chunkDataCr => 60
  | .chunkDataLf => 55
  | .chunkSize => 50 - decoder.chunkLine.length
  | .chunkSizeLf => 20
  | .chunkData | .finalCr => 10
  | .finalLf => 5
  | .contentLength | .complete | .failed => 0

theorem phase_le (decoder : HttpBodyDecoder) : decoder.phase ≤ 60 := by
  unfold phase
  split <;> omega

/-- A bound for the bytes a decoder can still take. -/
def rank (decoder : HttpBodyDecoder) : Nat :=
  (decoder.maximumBodyBytes - decoder.decodedBytes) * 64 + decoder.phase

/-- What holds of a decoder between two bytes. -/
structure Valid (decoder : HttpBodyDecoder) : Prop where
  line : decoder.chunkLine.length ≤ chunkLineCapacity
  lineEmpty : decoder.state ≠ .chunkSize → decoder.chunkLine = []
  remaining : decoder.state = .contentLength ∨ decoder.state = .chunkData → 0 < decoder.remaining
  decoded : decoder.decodedBytes ≤ decoder.maximumBodyBytes

theorem hexFrom_of_foldlM {line : Bytes} {n size : Nat}
    (h : line.foldlM (fun size c =>
      match hexValue c with
      | some digit => if size ≤ (2 ^ 64 - 1 - digit) / 16 then some (size * 16 + digit) else none
      | none => none) n = some size) : HexFrom n line size := by
  induction line generalizing n with
  | nil =>
      cases h
      exact .done _
  | cons c line ih =>
      rw [List.foldlM_cons] at h
      obtain ⟨next, hnext, h⟩ := Option.bind_eq_some_iff.mp h
      split at hnext
      · next digit hdigit =>
          split at hnext
          · cases hnext
            exact .digit hdigit (ih h)
          · cases hnext
      · cases hnext

theorem hexFrom_of_chunkSizeOf {line : Bytes} {size : Nat} (h : chunkSizeOf line = some size) :
    HexFrom 0 line size := hexFrom_of_foldlM h

/-- A size line and what follows it are a chunked body. -/
theorem chunked_of_afterSize {line rest payload : Bytes} {size : Nat}
    (hline : ChunkSize chunkLineCapacity line size) (h : AfterSize size rest payload) :
    Chunked chunkLineCapacity (line ++ crlf ++ rest) payload := by
  unfold AfterSize at h
  split at h
  · next hzero =>
      obtain ⟨rfl, rfl⟩ := h
      rw [hzero] at hline
      exact .last hline
  · next hsize =>
      obtain ⟨data, encoded, payload', hdata, rfl, rfl, hrest⟩ := h
      have hchunk := Chunked.chunk (hdata ▸ hline)
        (fun hnil => hsize (by rw [← hdata, hnil]; rfl)) hrest
      simpa only [List.append_assoc] using hchunk

/-- The derivative by a byte that is only looked at. -/
structure Accepted (decoder : HttpBodyDecoder) (c : UInt8) (next : HttpBodyDecoder) : Prop where
  valid : next.Valid
  maximum : next.maximumBodyBytes = decoder.maximumBodyBytes
  decoded : next.decodedBytes = decoder.decodedBytes
  phase : next.phase < decoder.phase
  awaits : ∀ encoded payload, Awaits next encoded payload → Awaits decoder (c :: encoded) payload

section Accepts

variable {decoder next : HttpBodyDecoder} {c : UInt8}

/-- In a size line: its end, or one more character of it. -/
theorem accepted_chunkSize (hstate : decoder.state = .chunkSize) (hvalid : decoder.Valid)
    (h : decoder.acceptByte c = some next) : Accepted decoder c next := by
  obtain ⟨hline, -, -, hdecoded⟩ := hvalid
  obtain ⟨state, remaining, decodedBytes, maximumBodyBytes, chunkLine⟩ := decoder
  obtain rfl : state = .chunkSize := hstate
  unfold acceptByte at h
  dsimp only at h hline
  split at h
  · next hcr =>
      split at h
      · cases h
      · next hnonempty =>
          obtain ⟨size, hsize, rfl⟩ := Option.map_eq_some_iff.mp h
          refine ⟨⟨by simp, fun _ => rfl, by simp, hdecoded⟩, rfl, rfl, ?_, ?_⟩
          · unfold chunkLineCapacity at hline
            simp only [HttpBodyDecoder.phase]
            omega
          · rintro encoded payload ⟨rest, rfl, hrest⟩
            have hchunked := chunked_of_afterSize
              ⟨hnonempty, hline, hexFrom_of_chunkSizeOf hsize⟩ hrest
            simp only [Awaits, hcr]
            simpa [crlf] using hchunked
  · split at h
    · cases h
    · next hroom =>
        cases h
        rw [not_or, not_or] at hroom
        have hlonger : chunkLine.length + 1 ≤ chunkLineCapacity := by omega
        refine ⟨⟨by simpa using hlonger, fun hne => absurd rfl hne, by simp, hdecoded⟩,
          rfl, rfl, ?_, ?_⟩
        · unfold chunkLineCapacity at hlonger
          simp only [HttpBodyDecoder.phase, List.length_append, List.length_cons, List.length_nil]
          omega
        · intro encoded payload hawaits
          simpa [Awaits] using hawaits

/-- After a size line: what comes next depends on the size. -/
theorem accepted_chunkSizeLf (hstate : decoder.state = .chunkSizeLf) (hvalid : decoder.Valid)
    (h : decoder.acceptByte c = some next) : Accepted decoder c next := by
  obtain ⟨hline, hlineEmpty, -, hdecoded⟩ := hvalid
  obtain ⟨state, remaining, decodedBytes, maximumBodyBytes, chunkLine⟩ := decoder
  obtain rfl : state = .chunkSizeLf := hstate
  unfold acceptByte at h
  dsimp only at h
  split at h
  · next hlf =>
      cases h
      have hempty := hlineEmpty nofun
      dsimp only at hempty
      by_cases hzero : remaining = 0
      · refine ⟨⟨hline, fun _ => hempty, by simp [hzero], hdecoded⟩, rfl, rfl, ?_, ?_⟩
        · simp [HttpBodyDecoder.phase, hzero]
        · intro encoded payload hawaits
          simp only [Awaits, hzero, if_pos] at hawaits
          exact ⟨encoded, by rw [hlf], by simpa [AfterSize, hzero] using hawaits⟩
      · refine ⟨⟨hline, fun _ => hempty, fun _ => Nat.pos_of_ne_zero hzero, hdecoded⟩,
          rfl, rfl, ?_, ?_⟩
        · simp [HttpBodyDecoder.phase, hzero]
        · intro encoded payload hawaits
          simp only [Awaits, if_neg hzero] at hawaits
          exact ⟨encoded, by rw [hlf], hawaits⟩
  · cases h

/-- The first byte after the data of a chunk. -/
theorem accepted_chunkDataCr (hstate : decoder.state = .chunkDataCr) (hvalid : decoder.Valid)
    (h : decoder.acceptByte c = some next) : Accepted decoder c next := by
  obtain ⟨hline, hlineEmpty, -, hdecoded⟩ := hvalid
  obtain ⟨state, remaining, decodedBytes, maximumBodyBytes, chunkLine⟩ := decoder
  obtain rfl : state = .chunkDataCr := hstate
  unfold acceptByte at h
  dsimp only at h
  split at h
  · next hcr =>
      cases h
      refine ⟨⟨hline, fun _ => hlineEmpty nofun, by simp, hdecoded⟩, rfl, rfl, ?_, ?_⟩
      · simp [HttpBodyDecoder.phase]
      · rintro encoded payload ⟨rest, rfl, hrest⟩
        exact ⟨rest, by rw [hcr]; rfl, hrest⟩
  · cases h

/-- The end of a chunk: the next size line begins. -/
theorem accepted_chunkDataLf (hstate : decoder.state = .chunkDataLf) (hvalid : decoder.Valid)
    (h : decoder.acceptByte c = some next) : Accepted decoder c next := by
  obtain ⟨hline, hlineEmpty, -, hdecoded⟩ := hvalid
  obtain ⟨state, remaining, decodedBytes, maximumBodyBytes, chunkLine⟩ := decoder
  obtain rfl : state = .chunkDataLf := hstate
  unfold acceptByte at h
  dsimp only at h
  split at h
  · next hlf =>
      cases h
      have hempty := hlineEmpty nofun
      dsimp only at hempty
      refine ⟨⟨hline, fun _ => hempty, by simp, hdecoded⟩, rfl, rfl, ?_, ?_⟩
      · simp only [HttpBodyDecoder.phase]
        omega
      · intro encoded payload hawaits
        refine ⟨encoded, by rw [hlf], ?_⟩
        simpa [Awaits, hempty] using hawaits
  · cases h

/-- The first byte after the last size line. -/
theorem accepted_finalCr (hstate : decoder.state = .finalCr) (hvalid : decoder.Valid)
    (h : decoder.acceptByte c = some next) : Accepted decoder c next := by
  obtain ⟨hline, hlineEmpty, -, hdecoded⟩ := hvalid
  obtain ⟨state, remaining, decodedBytes, maximumBodyBytes, chunkLine⟩ := decoder
  obtain rfl : state = .finalCr := hstate
  unfold acceptByte at h
  dsimp only at h
  split at h
  · next hcr =>
      cases h
      refine ⟨⟨hline, fun _ => hlineEmpty nofun, by simp, hdecoded⟩, rfl, rfl, ?_, ?_⟩
      · simp [HttpBodyDecoder.phase]
      · rintro encoded payload ⟨rfl, rfl⟩
        exact ⟨by rw [hcr]; rfl, rfl⟩
  · cases h

/-- The last byte of a chunked body. -/
theorem accepted_finalLf (hstate : decoder.state = .finalLf) (hvalid : decoder.Valid)
    (h : decoder.acceptByte c = some next) : Accepted decoder c next := by
  obtain ⟨hline, hlineEmpty, -, hdecoded⟩ := hvalid
  obtain ⟨state, remaining, decodedBytes, maximumBodyBytes, chunkLine⟩ := decoder
  obtain rfl : state = .finalLf := hstate
  unfold acceptByte at h
  dsimp only at h
  split at h
  · next hlf =>
      cases h
      refine ⟨⟨hline, fun _ => hlineEmpty nofun, by simp, hdecoded⟩, rfl, rfl, ?_, ?_⟩
      · simp [HttpBodyDecoder.phase]
      · rintro encoded payload ⟨rfl, rfl⟩
        exact ⟨by rw [hlf], rfl⟩
  · cases h

theorem accepted (hvalid : decoder.Valid) (h : decoder.acceptByte c = some next) :
    Accepted decoder c next := by
  cases hstate : decoder.state with
  | chunkSize => exact accepted_chunkSize hstate hvalid h
  | chunkSizeLf => exact accepted_chunkSizeLf hstate hvalid h
  | chunkDataCr => exact accepted_chunkDataCr hstate hvalid h
  | chunkDataLf => exact accepted_chunkDataLf hstate hvalid h
  | finalCr => exact accepted_finalCr hstate hvalid h
  | finalLf => exact accepted_finalLf hstate hvalid h
  | contentLength | chunkData | complete | failed =>
      unfold acceptByte at h
      rw [hstate] at h
      cases h

end Accepts

/-! ## Feeding -/

/-- What feeding `data` to a decoder that wrote `written` has done. -/
structure Fed (decoder : HttpBodyDecoder) (data written : Bytes) (status : HttpBodyStatus)
    (next : HttpBodyDecoder) : Prop where
  maximum : next.maximumBodyBytes = decoder.maximumBodyBytes
  decoded : next.decodedBytes = decoder.decodedBytes + written.length
  bounded : next.decodedBytes ≤ next.maximumBodyBytes
  valid : status = .ok → next.Valid
  complete : status = .complete → next.state = .complete
  untruncated : status ≠ .truncated
  awaits : status = .ok ∨ status = .complete → ∀ encoded payload,
    Awaits next encoded payload → Awaits decoder (data ++ encoded) (written ++ payload)
  rank : status = .ok → next.rank + data.length ≤ decoder.rank

variable {decoder next mid : HttpBodyDecoder} {data data' written written' : Bytes}
  {status status' : HttpBodyStatus}

/-- A piece that was taken, then the rest. -/
theorem Fed.trans (h : Fed decoder data written .ok mid)
    (h' : Fed mid data' written' status next) :
    Fed decoder (data ++ data') (written ++ written') status next where
  maximum := h'.maximum.trans h.maximum
  decoded := by
    rw [h'.decoded, h.decoded, List.length_append]
    omega
  bounded := h'.bounded
  valid := h'.valid
  complete := h'.complete
  untruncated := h'.untruncated
  awaits := by
    intro hstatus encoded payload hawaits
    rw [List.append_assoc, List.append_assoc]
    exact h.awaits (.inl rfl) _ _ (h'.awaits hstatus _ _ hawaits)
  rank := by
    intro hstatus
    have hfirst := h.rank rfl
    have hsecond := h'.rank hstatus
    rw [List.length_append]
    omega

theorem Fed.nothing (hvalid : decoder.Valid) : Fed decoder [] [] .ok decoder where
  maximum := rfl
  decoded := rfl
  bounded := hvalid.decoded
  valid := fun _ => hvalid
  complete := nofun
  untruncated := nofun
  awaits := fun _ _ _ hawaits => hawaits
  rank := fun _ => Nat.le_refl _

/-- A decoder that gave up. -/
theorem Fed.failed (hnext : next = { decoder with state := .failed })
    (hdecoded : decoder.decodedBytes ≤ decoder.maximumBodyBytes)
    (hok : status ≠ .ok) (hcomplete : status ≠ .complete) (htruncated : status ≠ .truncated) :
    Fed decoder data [] status next where
  maximum := by rw [hnext]
  decoded := by rw [hnext]; rfl
  bounded := by rw [hnext]; exact hdecoded
  valid := fun h => absurd h hok
  complete := fun h => absurd h hcomplete
  untruncated := htruncated
  awaits := fun h => (h.elim hok hcomplete).elim
  rank := fun h => absurd h hok

/-- A byte that is only looked at. -/
theorem fed_acceptByte {c : UInt8} (hvalid : decoder.Valid)
    (h : decoder.acceptByte c = some next) : Fed decoder [c] [] .ok next := by
  have haccepted := accepted hvalid h
  exact {
    maximum := haccepted.maximum
    decoded := haccepted.decoded
    bounded := haccepted.valid.decoded
    valid := fun _ => haccepted.valid
    complete := nofun
    untruncated := nofun
    awaits := fun _ encoded payload hrest => haccepted.awaits encoded payload hrest
    rank := fun _ => by
      have hphase := haccepted.phase
      unfold rank
      rw [haccepted.maximum, haccepted.decoded, List.length_singleton]
      omega }

/-- The end of the body. -/
theorem fed_completed (hnext : next.state = .complete) (hdecoded : next.decodedBytes ≤ next.maximumBodyBytes)
    (rest : Bytes) :
    Fed next rest [] (next.completed rest).1 (next.completed rest).2 where
  maximum := rfl
  decoded := rfl
  bounded := hdecoded
  valid := by
    intro h
    simp only [completed] at h
    split at h <;> cases h
  complete := fun _ => rfl
  untruncated := by
    simp only [completed]
    split <;> nofun
  awaits := by
    intro h encoded payload hawaits
    simp only [completed] at h
    split at h
    · next hrest =>
        rw [hrest]
        simpa [Awaits, completed, hnext] using hawaits
    · exact h.elim nofun nofun
  rank := by
    intro h
    simp only [completed] at h
    split at h <;> cases h

/-- The decoder after `n` bytes of payload. -/
def taken (decoder : HttpBodyDecoder) (n : Nat) : HttpBodyDecoder :=
  { decoder with
    decodedBytes := decoder.decodedBytes + n
    remaining := decoder.remaining - n
    state :=
      if decoder.remaining = n then
        if decoder.state = .contentLength then .complete else .chunkDataCr
      else decoder.state }

theorem valid_taken {n : Nat} (hvalid : decoder.Valid)
    (hstate : decoder.state = .contentLength ∨ decoder.state = .chunkData)
    (hn : n ≤ decoder.remaining)
    (hroom : decoder.decodedBytes + n ≤ decoder.maximumBodyBytes) : (decoder.taken n).Valid := by
  have hempty : decoder.chunkLine = [] := by
    apply hvalid.lineEmpty
    rcases hstate with hstate | hstate <;> rw [hstate] <;> nofun
  refine ⟨hvalid.line, fun _ => hempty, ?_, hroom⟩
  unfold taken
  dsimp only
  split
  · split <;> simp
  · intro _
    omega

theorem awaits_taken (hstate : decoder.state = .contentLength ∨ decoder.state = .chunkData)
    (hpositive : 0 < decoder.remaining) (hn : data.length ≤ decoder.remaining)
    {encoded payload : Bytes} (h : Awaits (decoder.taken data.length) encoded payload) :
    Awaits decoder (data ++ encoded) (data ++ payload) := by
  obtain ⟨state, remaining, decodedBytes, maximumBodyBytes, chunkLine⟩ := decoder
  dsimp only at hstate hpositive hn
  rcases hstate with rfl | rfl
  · simp only [taken, if_true] at h
    split at h
    · next hall =>
        obtain ⟨rfl, rfl⟩ := h
        exact ⟨rfl, by rw [List.append_nil, hall]⟩
    · obtain ⟨rfl, hlength⟩ := h
      refine ⟨rfl, ?_⟩
      dsimp only at hlength ⊢
      rw [List.length_append, hlength]
      omega
  · have hne : remaining ≠ 0 := by omega
    simp only [Awaits, AfterSize, if_neg hne]
    simp only [taken, reduceCtorEq, if_false] at h
    split at h
    · next hall =>
        obtain ⟨rest, rfl, hrest⟩ := h
        exact ⟨data, rest, payload, hall.symm, by simp, rfl, hrest⟩
    · next hmore =>
        simp only [Awaits, AfterSize] at h
        rw [if_neg (by omega)] at h
        obtain ⟨data', rest, payload', hdata', rfl, rfl, hrest⟩ := h
        refine ⟨data ++ data', rest, payload', ?_, by simp, by simp, hrest⟩
        rw [List.length_append]
        omega

/-- Payload that was written. -/
theorem fed_taken (data : Bytes) (hvalid : decoder.Valid)
    (hstate : decoder.state = .contentLength ∨ decoder.state = .chunkData) (hdata : data ≠ [])
    (hn : data.length ≤ decoder.remaining)
    (hroom : decoder.decodedBytes + data.length ≤ decoder.maximumBodyBytes) :
    Fed decoder data data .ok (decoder.taken data.length) where
  maximum := rfl
  decoded := rfl
  bounded := hroom
  valid := fun _ => valid_taken hvalid hstate hn hroom
  complete := nofun
  untruncated := nofun
  awaits := fun _ _ _ => awaits_taken hstate (hvalid.remaining hstate) hn
  rank := fun _ => by
    have hpositive := List.length_pos_iff.mpr hdata
    have hphase := phase_le (decoder.taken data.length)
    unfold rank
    show (decoder.maximumBodyBytes - (decoder.decodedBytes + data.length)) * 64 + _ + _ ≤ _
    omega

/-! ## The loop of `Feed`, state by state -/

section Loop

variable {m : Type → Type} [Monad m] {sink : Bytes → m Bool} {c : UInt8} {rest : Bytes}

theorem feedBytes_contentLength (hstate : decoder.state = .contentLength) :
    decoder.feedBytes sink (c :: rest) = (do
      let available := min (c :: rest).length decoder.remaining
      let (status, decoder) ← decoder.write sink ((c :: rest).take available)
      if status ≠ .ok then return (status, decoder)
      let decoder := { decoder with remaining := decoder.remaining - available }
      if decoder.remaining = 0 then return decoder.completed ((c :: rest).drop available)
      return (.ok, decoder)) := by
  rw [feedBytes]
  simp only [hstate]

theorem feedBytes_chunkData (hstate : decoder.state = .chunkData) :
    decoder.feedBytes sink (c :: rest) = (do
      let (status, decoder) ← decoder.write sink [c]
      if status ≠ .ok then return (status, decoder)
      let decoder := { decoder with remaining := decoder.remaining - 1 }
      let available := min rest.length decoder.remaining
      let (status, decoder) ← decoder.write sink (rest.take available)
      if status ≠ .ok then return (status, decoder)
      let decoder := { decoder with remaining := decoder.remaining - available }
      let state := if decoder.remaining = 0 then .chunkDataCr else decoder.state
      feedBytes sink { decoder with state := state } (rest.drop available)) := by
  rw [feedBytes]
  simp only [hstate]

theorem feedBytes_acceptByte (hlength : decoder.state ≠ .contentLength)
    (hdata : decoder.state ≠ .chunkData) :
    decoder.feedBytes sink (c :: rest) =
      match decoder.acceptByte c with
      | none => pure (decoder.fail .invalidChunk)
      | some next =>
          if next.isComplete then pure (next.completed rest) else next.feedBytes sink rest := by
  rw [feedBytes]
  split
  · next h => exact absurd h hlength
  · next h => exact absurd h hdata
  · rfl

end Loop

/-! ## Feeding in a program -/

section Program

variable {Op : Type} {Answer : Op → Type} {W : Type} {E : Surroundings Op Answer W}
  {guard : W → Op → Prop} {sink : Bytes → Program Op Answer Bool} {maximum : Nat}
  {Delivered : Bytes → W → Prop}

/-- The sink takes a write or refuses it; `Delivered` says what it has taken. -/
abbrev Sinks (E : Surroundings Op Answer W) (guard : W → Op → Prop)
    (sink : Bytes → Program Op Answer Bool) (maximum : Nat) (Delivered : Bytes → W → Prop) : Prop :=
  ∀ before data world, Delivered before world → before.length + data.length ≤ maximum →
    (sink data).Guarded E guard
      (fun accepted world' => Delivered (if accepted then before ++ data else before) world') world

theorem guarded_write (hsink : Sinks E guard sink maximum Delivered) {before : Bytes} {world : W}
    (hmaximum : decoder.maximumBodyBytes = maximum) (hbefore : decoder.decodedBytes = before.length)
    (hbounded : decoder.decodedBytes ≤ decoder.maximumBodyBytes) (h : Delivered before world) :
    (decoder.write sink data).Guarded E guard
      (fun result world' =>
        (result = (.ok, { decoder with decodedBytes := decoder.decodedBytes + data.length }) ∧
          decoder.decodedBytes + data.length ≤ decoder.maximumBodyBytes ∧
          Delivered (before ++ data) world') ∨
        (result.1 ≠ .ok ∧ result.1 ≠ .complete ∧ result.1 ≠ .truncated) ∧ data ≠ [] ∧
          result.2 = { decoder with state := .failed } ∧ Delivered before world') world := by
  unfold write
  split
  · next hdata =>
      rw [hdata, List.append_nil]
      exact Program.guarded_pure (.inl ⟨rfl, hbounded, h⟩)
  · next hdata =>
    split
    · exact Program.guarded_pure (.inr ⟨⟨nofun, nofun, nofun⟩, hdata, rfl, h⟩)
    · next hroom =>
        apply Program.guarded_bind
        refine Program.guarded_mono (hsink before data world h (by omega)) ?_
        intro accepted world' hworld'
        cases accepted with
        | true => exact Program.guarded_pure (.inl ⟨rfl, by omega, hworld'⟩)
        | false => exact Program.guarded_pure (.inr ⟨⟨nofun, nofun, nofun⟩, hdata, rfl, hworld'⟩)

/-- What `Feed` leaves behind. -/
def FedFrom (decoder : HttpBodyDecoder) (data before : Bytes) (Delivered : Bytes → W → Prop)
    (result : HttpBodyStatus × HttpBodyDecoder) (world : W) : Prop :=
  ∃ written, Delivered (before ++ written) world ∧ Fed decoder data written result.1 result.2

theorem guarded_contentLength (hsink : Sinks E guard sink maximum Delivered) {c : UInt8}
    {rest before : Bytes} {world : W} (hstate : decoder.state = .contentLength)
    (hvalid : decoder.Valid) (hmaximum : decoder.maximumBodyBytes = maximum)
    (hbefore : decoder.decodedBytes = before.length) (h : Delivered before world) :
    (decoder.feedBytes sink (c :: rest)).Guarded E guard
      (FedFrom decoder (c :: rest) before Delivered) world := by
  rw [feedBytes_contentLength hstate]
  apply Program.guarded_bind
  refine Program.guarded_mono (guarded_write hsink hmaximum hbefore hvalid.decoded h) ?_
  rintro ⟨status, next⟩ world' hwrite
  have hremaining := hvalid.remaining (.inl hstate)
  generalize hdata : c :: rest = data at hwrite ⊢
  have hpositive : 0 < data.length := by
    rw [← hdata]
    exact Nat.succ_pos _
  rcases hwrite with ⟨heq, hroom, hworld'⟩ | ⟨⟨hok, hcomplete, htruncated⟩, -, hnext, hworld'⟩
  · cases heq
    have htake : (data.take (min data.length decoder.remaining)).length =
        min data.length decoder.remaining := by
      rw [List.length_take]
      omega
    have hfed := fed_taken (data.take (min data.length decoder.remaining)) hvalid (.inl hstate)
      (by rw [← List.length_pos_iff, htake]; omega) (by rw [htake]; omega) hroom
    rw [htake] at hfed
    dsimp only
    rw [if_neg (by simp)]
    split
    · next hall =>
        have hcomplete : (decoder.taken (min data.length decoder.remaining)).state = .complete := by
          simp only [taken, hstate, if_true]
          rw [if_pos (by omega)]
        have hend := hfed.trans (fed_completed hcomplete hfed.bounded
          (data.drop (min data.length decoder.remaining)))
        rw [List.take_append_drop, List.append_nil] at hend
        refine Program.guarded_pure ⟨_, hworld', ?_⟩
        rw [htake]
        exact hend
    · next hmore =>
        have hwhole : min data.length decoder.remaining = data.length := by omega
        have hnext : decoder.taken data.length =
            { decoder with
              decodedBytes := decoder.decodedBytes + data.length
              remaining := decoder.remaining - data.length } := by
          simp only [taken]
          rw [if_neg (by omega)]
        rw [hwhole, List.take_length] at hfed hworld' ⊢
        rw [hnext] at hfed
        exact Program.guarded_pure ⟨_, hworld', hfed⟩
  · dsimp only at hok ⊢
    rw [if_pos hok]
    refine Program.guarded_pure ⟨[], by rwa [List.append_nil], ?_⟩
    exact Fed.failed hnext hvalid.decoded hok hcomplete htruncated

theorem FedFrom.trans {before : Bytes} {result : HttpBodyStatus × HttpBodyDecoder} {world : W}
    (h : Fed decoder data written .ok mid)
    (h' : FedFrom mid data' (before ++ written) Delivered result world) :
    FedFrom decoder (data ++ data') before Delivered result world := by
  obtain ⟨more, hmore, hfed⟩ := h'
  refine ⟨written ++ more, ?_, h.trans hfed⟩
  rwa [← List.append_assoc]

/-- A write failed after `written` had been taken. -/
theorem FedFrom.failed {before : Bytes} {world : W} (h : Fed decoder data written .ok mid)
    (hnext : next = { mid with state := .failed }) (hok : status ≠ .ok)
    (hcomplete : status ≠ .complete) (htruncated : status ≠ .truncated)
    (hworld : Delivered (before ++ written) world) :
    FedFrom decoder (data ++ data') before Delivered (status, next) world := by
  have hfailed : Fed decoder (data ++ data') (written ++ []) status next :=
    h.trans (Fed.failed hnext h.bounded hok hcomplete htruncated)
  rw [List.append_nil] at hfailed
  exact ⟨written, hworld, hfailed⟩

theorem guarded_chunkData (hsink : Sinks E guard sink maximum Delivered) {c : UInt8}
    {rest before : Bytes} {world : W} (hstate : decoder.state = .chunkData)
    (hvalid : decoder.Valid) (hmaximum : decoder.maximumBodyBytes = maximum)
    (hbefore : decoder.decodedBytes = before.length) (h : Delivered before world)
    (ih : ∀ (next : HttpBodyDecoder) (data before : Bytes) (world : W), data.length ≤ rest.length →
      next.Valid → next.maximumBodyBytes = maximum → next.decodedBytes = before.length →
      Delivered before world →
      (next.feedBytes sink data).Guarded E guard (FedFrom next data before Delivered) world) :
    (decoder.feedBytes sink (c :: rest)).Guarded E guard
      (FedFrom decoder (c :: rest) before Delivered) world := by
  rw [feedBytes_chunkData hstate]
  apply Program.guarded_bind
  refine Program.guarded_mono (guarded_write hsink hmaximum hbefore hvalid.decoded h) ?_
  rintro ⟨status, first⟩ world' hwrite
  have hremaining := hvalid.remaining (.inr hstate)
  rcases hwrite with ⟨heq, hroom, hworld'⟩ | ⟨⟨hok, hcomplete, htruncated⟩, -, hnext, hworld'⟩
  · cases heq
    dsimp only
    rw [if_neg (by simp)]
    generalize hn : min rest.length (decoder.remaining - 1) = available
    apply Program.guarded_bind
    refine Program.guarded_mono (guarded_write hsink hmaximum
      (by rw [List.length_append, ← hbefore]) hroom hworld') ?_
    rintro ⟨status, second⟩ world'' hwrite
    rcases hwrite with ⟨heq, hroom', hworld''⟩ | ⟨⟨hok, hcomplete, htruncated⟩, hdata, hnext, hworld''⟩
    · cases heq
      dsimp only at hroom' ⊢
      rw [if_neg (by simp)]
      have htake : (rest.take available).length = available := by
        rw [List.length_take]
        omega
      have hlength : (c :: rest.take available).length = available + 1 := by
        rw [List.length_cons, htake]
      have hfed := fed_taken (c :: rest.take available) hvalid (.inr hstate) nofun
        (by omega) (by rw [List.length_singleton] at hroom'; rw [hlength]; omega)
      have hnext : decoder.taken (c :: rest.take available).length =
          { decoder with
            decodedBytes := decoder.decodedBytes + [c].length + (rest.take available).length
            remaining := decoder.remaining - 1 - available
            state := if decoder.remaining - 1 - available = 0 then .chunkDataCr
              else decoder.state } := by
        rw [hlength, htake]
        unfold taken
        rw [hstate]
        congr 1
        · by_cases hall : decoder.remaining = available + 1
          · rw [if_pos hall, if_neg nofun, if_pos (by omega)]
          · rw [if_neg hall, if_neg (by omega)]
        · omega
        · rw [List.length_singleton]
          omega
      rw [hnext] at hfed
      have hcont := ih _ (rest.drop available) (before ++ (c :: rest.take available)) world''
        (by rw [List.length_drop]; omega) (hfed.valid rfl) hmaximum
        (by rw [List.length_append, ← hbefore]; exact hfed.decoded)
        (by simpa using hworld'')
      refine Program.guarded_mono hcont ?_
      intro result world₃ hresult
      have hwhole := FedFrom.trans hfed hresult
      rwa [List.cons_append, List.take_append_drop] at hwhole
    · dsimp only at hok ⊢
      rw [if_pos hok]
      have hmore : 0 < (rest.take available).length := List.length_pos_iff.mpr hdata
      rw [List.length_take] at hmore
      have hfed := fed_taken [c] hvalid (.inr hstate) nofun
        (by rw [List.length_singleton]; omega) hroom
      have htaken : decoder.taken [c].length =
          { decoder with
            decodedBytes := decoder.decodedBytes + [c].length
            remaining := decoder.remaining - 1 } := by
        unfold taken
        rw [List.length_singleton, if_neg (by omega)]
      rw [htaken] at hfed
      exact Program.guarded_pure (FedFrom.failed hfed hnext hok hcomplete htruncated
        hworld'')
  · dsimp only at hok ⊢
    rw [if_pos hok]
    refine Program.guarded_pure ⟨[], by rwa [List.append_nil], ?_⟩
    exact Fed.failed hnext hvalid.decoded hok hcomplete htruncated

theorem guarded_feedBytes (hsink : Sinks E guard sink maximum Delivered) {before : Bytes}
    {world : W} (hvalid : decoder.Valid) (hmaximum : decoder.maximumBodyBytes = maximum)
    (hbefore : decoder.decodedBytes = before.length) (h : Delivered before world) :
    (decoder.feedBytes sink data).Guarded E guard (FedFrom decoder data before Delivered)
      world := by
  induction hn : data.length using Nat.strong_induction_on generalizing decoder data before world with
  | _ n ih =>
    subst hn
    cases data with
    | nil =>
        rw [feedBytes]
        exact Program.guarded_pure ⟨[], by rwa [List.append_nil], Fed.nothing hvalid⟩
    | cons c rest =>
      by_cases hlength : decoder.state = .contentLength
      · exact guarded_contentLength hsink hlength hvalid hmaximum hbefore h
      by_cases hdata : decoder.state = .chunkData
      · apply guarded_chunkData hsink hdata hvalid hmaximum hbefore h
        intro next data before world hshorter hvalid hmaximum hbefore h
        exact ih data.length (Nat.lt_succ_of_le hshorter) hvalid hmaximum hbefore h rfl
      rw [feedBytes_acceptByte hlength hdata]
      cases haccept : decoder.acceptByte c with
      | none =>
          refine Program.guarded_pure ⟨[], by rwa [List.append_nil], ?_⟩
          exact Fed.failed rfl hvalid.decoded nofun nofun nofun
      | some next =>
          have hfed := fed_acceptByte hvalid haccept
          have hnext := hfed.valid rfl
          dsimp only
          split
          · next hcomplete =>
              refine Program.guarded_pure ⟨[], by rwa [List.append_nil], ?_⟩
              exact hfed.trans (fed_completed (of_decide_eq_true hcomplete) hnext.decoded rest)
          · refine Program.guarded_mono (ih rest.length (Nat.lt_succ_self _) hnext
              (hfed.maximum.trans hmaximum) (hfed.decoded.trans hbefore) h rfl) ?_
            intro result world' hresult
            exact FedFrom.trans hfed (by rwa [List.append_nil])

theorem guarded_feed (hsink : Sinks E guard sink maximum Delivered) {before : Bytes}
    {world : W} (hvalid : decoder.Valid) (hmaximum : decoder.maximumBodyBytes = maximum)
    (hbefore : decoder.decodedBytes = before.length) (h : Delivered before world) :
    (decoder.feed sink data).Guarded E guard (FedFrom decoder data before Delivered) world := by
  unfold feed
  split
  · next hfailed =>
      refine Program.guarded_pure ⟨[], by rwa [List.append_nil], ?_⟩
      exact Fed.failed (by rw [← hfailed]) hvalid.decoded nofun nofun nofun
  · next hcomplete =>
      refine Program.guarded_pure ⟨[], by rwa [List.append_nil], ?_⟩
      have hfed := fed_completed hcomplete hvalid.decoded data
      unfold completed at hfed
      rwa [← hcomplete] at hfed
  · exact guarded_feedBytes hsink hvalid hmaximum hbefore h

end Program

/-! ## A new decoder -/

theorem valid_new (head : HttpResponseHead) (maximum : Nat) : (new head maximum).Valid := by
  refine ⟨Nat.zero_le _, fun _ => rfl, ?_, Nat.zero_le _⟩
  intro hstate
  unfold new at hstate ⊢
  dsimp only at hstate ⊢
  generalize (if head.hasContentLength = true then head.contentLength else 0) = remaining
    at hstate ⊢
  apply Nat.pos_of_ne_zero
  intro hzero
  revert hstate
  cases head.hasContentLength <;> cases head.chunked <;> simp [hzero]

end HttpBodyDecoder

/-- The bytes after a head that are its body, and the payload they carry. -/
def HttpResponseHead.Frames (head : HttpResponseHead) (encoded payload : Bytes) : Prop :=
  if head.chunked then
    head.hasContentLength = false ∧ Chunked chunkLineCapacity encoded payload
  else head.hasContentLength = true ∧ encoded = payload ∧ payload.length = head.contentLength

theorem frames_of_awaits {head : HttpResponseHead} {maximum : Nat} {encoded payload : Bytes}
    (h : (HttpBodyDecoder.new head maximum).Awaits encoded payload) :
    head.Frames encoded payload := by
  unfold HttpBodyDecoder.new HttpBodyDecoder.Awaits at h
  unfold HttpResponseHead.Frames
  dsimp only at h
  cases hlength : head.hasContentLength <;> cases hchunked : head.chunked
  · simp [hlength, hchunked] at h
  · simpa [hlength, hchunked] using h
  · simp only [hlength, hchunked] at h
    by_cases htoo : maximum < head.contentLength
    · simp [htoo] at h
    by_cases hzero : head.contentLength = 0
    · simp [hzero] at h
      simp [hzero, h]
    · simpa [htoo, hzero] using h
  · simp [hlength, hchunked] at h

end Https

end BmxUpdate
