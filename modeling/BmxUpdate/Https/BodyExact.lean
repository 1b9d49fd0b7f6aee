import BmxUpdate.Https.BodyDecoder

/-!
# What a body decoder accepts

`HttpBodyDecoder` one byte at a time: `step` looks at a byte, `run` at a stream.
A decoder that is fed a stream in pieces ends as `run` does on the whole, with a
sink that takes everything (`feedAll_run`); the copying of chunk data in bulk
only changes how much was written when the limit is hit.

`run` is exact: it completes on the bodies the head frames, within the limit
(`run_complete_iff`), and writes what the bytes carry of a body (`Carries`).
-/

namespace BmxUpdate

namespace Https

open Wire Http

/-! ## Partly received bodies -/

/-- The bytes begin a chunked body that carries the payload; it may go on or be broken. -/
inductive Carried (capacity : Nat) : Bytes → Bytes → Prop
  | nothing (encoded : Bytes) : Carried capacity encoded []
  | part {digits data rest : Bytes} {size : Nat} (hsize : ChunkSize capacity digits size)
      (hdata : data.length ≤ size) : Carried capacity (digits ++ crlf ++ (data ++ rest)) data
  | chunk {digits data rest payload : Bytes} (hsize : ChunkSize capacity digits data.length)
      (hdata : data ≠ []) (hrest : Carried capacity rest payload) :
      Carried capacity (digits ++ crlf ++ data ++ crlf ++ rest) (data ++ payload)

/-- The bytes received carry the payload. -/
def HttpResponseHead.Carries (head : HttpResponseHead) (encoded payload : Bytes) : Prop :=
  if head.chunked then Carried chunkLineCapacity encoded payload
  else payload <+: encoded ∧ payload.length ≤ head.contentLength

/-- A prefix of two texts ends in the first or goes on into the second. -/
theorem prefix_append_cases {α : Type} {p s t : List α} (h : p <+: s ++ t) :
    p <+: s ∨ ∃ p', p = s ++ p' ∧ p' <+: t := by
  obtain ⟨more, hmore⟩ := h
  rcases List.append_eq_append_iff.mp hmore with ⟨x, hs, -⟩ | ⟨x, hp, ht⟩
  · exact .inl ⟨x, hs.symm⟩
  · exact .inr ⟨x, hp, ⟨more, ht.symm⟩⟩

/-- Less than what is carried is carried too. -/
theorem Carried.of_prefix {capacity : Nat} {encoded payload payload' : Bytes}
    (h : Carried capacity encoded payload) (hinit : payload' <+: payload) :
    Carried capacity encoded payload' := by
  induction h generalizing payload' with
  | nothing encoded =>
      obtain rfl := List.prefix_nil.mp hinit
      exact .nothing encoded
  | part hsize hdata =>
      obtain ⟨more, rfl⟩ := hinit
      rw [List.length_append] at hdata
      rw [List.append_assoc payload']
      exact .part hsize (by omega)
  | @chunk digits data rest _ hsize hdata hrest ih =>
      rcases prefix_append_cases hinit with ⟨more, rfl⟩ | ⟨p', rfl, hp'⟩
      · have hlength : payload'.length ≤ (payload' ++ more).length := by
          rw [List.length_append]
          omega
        have hpart : Carried capacity (digits ++ crlf ++ (payload' ++ (more ++ crlf ++ rest)))
          payload' := .part hsize hlength
        simpa only [List.append_assoc] using hpart
      · exact .chunk hsize hdata (ih hp')

namespace HttpBodyDecoder

/-! ## One byte at a time -/

/-- One byte: what is written and the next decoder, or the status that ends it. -/
def step (decoder : HttpBodyDecoder) (c : UInt8) :
    Except HttpBodyStatus (Bytes × HttpBodyDecoder) :=
  match decoder.state with
  | .complete => .error .unexpectedData
  | .failed => .error .invalidArgument
  | .contentLength | .chunkData =>
      if decoder.decodedBytes < decoder.maximumBodyBytes then .ok ([c], decoder.taken 1)
      else .error .tooLarge
  | _ =>
      match decoder.acceptByte c with
      | none => .error .invalidChunk
      | some next => .ok ([], next)

/-- What a decoder says when there is nothing to look at. -/
def idle (decoder : HttpBodyDecoder) : HttpBodyStatus :=
  match decoder.state with
  | .complete => .complete
  | .failed => .invalidArgument
  | _ => .ok

/-- A stream: the status, the decoder where it goes on, and what was written. -/
def run (decoder : HttpBodyDecoder) : Bytes → HttpBodyStatus × HttpBodyDecoder × Bytes
  | [] => (decoder.idle, decoder, [])
  | c :: rest =>
      match decoder.step c with
      | .error status => (status, decoder, [])
      | .ok (written, next) =>
          let result := next.run rest
          (result.1, result.2.1, written ++ result.2.2)

/-- A decoder that was fed pieces, with the verdict. -/
def verdict (decoder : HttpBodyDecoder) (data : Bytes) : HttpBodyStatus :=
  match (decoder.run data).1 with
  | .ok => .truncated
  | status => status

/-! ## Exactness of a step -/

theorem hexFrom_unique {n m m' : Nat} {digits : Bytes} (h : HexFrom n digits m)
    (h' : HexFrom n digits m') : m = m' := by
  induction h with
  | done =>
      cases h'
      rfl
  | digit hc _ ih =>
      obtain _ | ⟨hc', hrest'⟩ := h'
      rw [hc] at hc'
      cases hc'
      exact ih hrest'

theorem hexFrom_mem {n m : Nat} {digits : Bytes} (h : HexFrom n digits m) :
    ∀ c ∈ digits, (hexValue c).isSome = true := by
  induction h with
  | done => simp
  | digit hc _ ih =>
      intro c hmem
      rcases List.mem_cons.mp hmem with rfl | hmem
      · rw [hc]
        rfl
      · exact ih c hmem

theorem hexFrom_le {n m : Nat} {digits : Bytes} (h : HexFrom n digits m) : n ≤ m := by
  induction h with
  | done => exact Nat.le_refl _
  | digit _ _ ih => omega

/-- A size that does not fit in 64 bits is not read. -/
theorem foldlM_of_hexFrom {n m : Nat} {digits : Bytes} (h : HexFrom n digits m) (hn : n < 2 ^ 64) :
    digits.foldlM (fun size c =>
      match hexValue c with
      | some digit => if size ≤ (2 ^ 64 - 1 - digit) / 16 then some (size * 16 + digit) else none
      | none => none) n = if m < 2 ^ 64 then some m else none := by
  induction h with
  | done => rw [List.foldlM_nil, if_pos hn]; rfl
  | @digit n d m c digits hc hrest ih =>
      have hle := hexFrom_le hrest
      have hdigit : d < 16 := by
        unfold hexValue at hc
        split at hc
        · next hrange =>
            cases hc
            have := UInt8.le_iff_toNat_le.mp hrange.2
            have hnine : (0x39 : UInt8).toNat = 0x39 := rfl
            omega
        · split at hc
          · next hrange =>
              cases hc
              have := UInt8.le_iff_toNat_le.mp hrange.2
              have hf : (0x66 : UInt8).toNat = 0x66 := rfl
              omega
          · split at hc
            · next hrange =>
                cases hc
                have := UInt8.le_iff_toNat_le.mp hrange.2
                have hf : (0x46 : UInt8).toNat = 0x46 := rfl
                omega
            · cases hc
      rw [List.foldlM_cons, hc]
      dsimp only
      by_cases hfits : n ≤ (2 ^ 64 - 1 - d) / 16
      · rw [if_pos hfits]
        exact ih (by omega)
      · rw [if_neg hfits, if_neg (by omega)]
        rfl

theorem chunkSizeOf_eq {digits : Bytes} {size : Nat} (h : HexFrom 0 digits size) :
    chunkSizeOf digits = if size < 2 ^ 64 then some size else none :=
  foldlM_of_hexFrom h (by decide)

/-- A chunked body is a size line and what follows it. -/
theorem chunked_iff {capacity : Nat} {encoded payload : Bytes}
    (hcapacity : capacity = chunkLineCapacity) :
    Chunked capacity encoded payload ↔
      ∃ digits size rest, encoded = digits ++ crlf ++ rest ∧ ChunkSize chunkLineCapacity digits size ∧
        AfterSize size rest payload := by
  subst hcapacity
  constructor
  · intro h
    cases h with
    | @last digits hsize => exact ⟨digits, 0, crlf, rfl, hsize, rfl, rfl⟩
    | @chunk digits data encoded payload hsize hdata hrest =>
        refine ⟨digits, data.length, data ++ crlf ++ encoded, by simp, hsize, ?_⟩
        have hne : data.length ≠ 0 := fun h => hdata (List.length_eq_zero_iff.mp h)
        unfold AfterSize
        rw [if_neg hne]
        exact ⟨data, encoded, payload, rfl, rfl, rfl, hrest⟩
  · rintro ⟨digits, size, rest, rfl, hsize, hrest⟩
    exact chunked_of_afterSize hsize hrest

theorem afterSize_length {size : Nat} {rest payload : Bytes} (h : AfterSize size rest payload) :
    size ≤ payload.length := by
  unfold AfterSize at h
  split at h
  · omega
  · obtain ⟨data, _, payload', rfl, -, rfl, -⟩ := h
    rw [List.length_append]
    omega

theorem hexValue_cr : hexValue 0x0d = none := by decide

/-- No CR is in the line a decoder has read of a size. -/
def Plain (decoder : HttpBodyDecoder) : Prop := (0x0d : UInt8) ∉ decoder.chunkLine

variable {decoder next : HttpBodyDecoder} {c : UInt8} {written encoded payload : Bytes}

/-- A chunked body that starts with the line so far: the line goes on with a digit, or ends. -/
theorem chunked_line {line : Bytes} (hline : (0x0d : UInt8) ∉ line)
    (h : Chunked chunkLineCapacity (line ++ c :: encoded) payload) :
    (c = 0x0d ∧ ∃ size rest, ChunkSize chunkLineCapacity line size ∧ encoded = 0x0a :: rest ∧
        AfterSize size rest payload) ∨
      (c ≠ 0x0d ∧ (hexValue c).isSome = true ∧ line.length < chunkLineCapacity) := by
  obtain ⟨digits, size, rest, hbytes, hsize, hrest⟩ := (chunked_iff rfl).mp h
  have hdigits := hexFrom_mem hsize.2.2
  have hcr : (0x0d : UInt8) ∉ digits := by
    intro hmem
    have := hdigits 0x0d hmem
    rw [hexValue_cr] at this
    cases this
  have hsplit : line ++ c :: encoded = digits ++ 0x0d :: (0x0a :: rest) := by
    rw [hbytes]
    simp [crlf]
  by_cases hc : c = 0x0d
  · subst hc
    obtain ⟨rfl, hencoded⟩ := split_unique hline hcr hsplit
    exact .inl ⟨rfl, size, rest, hsize, hencoded, hrest⟩
  · right
    -- the first CR comes after `c`
    have hinit : line ++ [c] <+: digits := by
      rcases List.append_eq_append_iff.mp hsplit with ⟨more, hdigits, hmore⟩ | ⟨more, hline', hmore⟩
      · cases more with
        | nil =>
            rw [List.nil_append] at hmore
            exact absurd (List.cons.inj hmore).1 hc
        | cons d more =>
            obtain ⟨rfl, -⟩ := List.cons.inj hmore
            exact ⟨more, by rw [hdigits]; simp⟩
      · cases more with
        | nil =>
            rw [List.nil_append] at hmore
            exact absurd (List.cons.inj hmore).1.symm hc
        | cons d more =>
            obtain ⟨rfl, -⟩ := List.cons.inj hmore
            exact absurd (by rw [hline']; simp) hline
    have hmem : c ∈ digits := hinit.subset (by simp)
    have hlength := hinit.length_le
    have hcapacity := hsize.2.1
    rw [List.length_append, List.length_singleton] at hlength
    exact ⟨hc, hdigits c hmem, by omega⟩

/-- The converse of `accepted`: a byte that is refused begins no body, unless that is too
long for 64 bits. -/
theorem awaits_acceptByte (hvalid : decoder.Valid) (hplain : decoder.Plain)
    (hlength : decoder.state ≠ .contentLength) (hdata : decoder.state ≠ .chunkData)
    (h : Awaits decoder (c :: encoded) payload) :
    match decoder.acceptByte c with
    | some next => Awaits next encoded payload
    | none => 2 ^ 64 ≤ payload.length := by
  obtain ⟨state, remaining, decodedBytes, maximumBodyBytes, chunkLine⟩ := decoder
  cases state with
  | contentLength => exact absurd rfl hlength
  | chunkData => exact absurd rfl hdata
  | complete => cases h.1
  | failed => exact h.elim
  | chunkSize =>
      unfold acceptByte
      rcases chunked_line hplain h with ⟨rfl, size, rest, hsize, rfl, hrest⟩ | ⟨hc, hhex, hroom⟩
      · dsimp only
        rw [if_pos rfl, if_neg hsize.1, chunkSizeOf_eq hsize.2.2]
        by_cases hfits : size < 2 ^ 64
        · rw [if_pos hfits]
          exact ⟨rest, rfl, hrest⟩
        · rw [if_neg hfits]
          exact (not_lt.mp hfits).trans (afterSize_length hrest)
      · have hlf : c ≠ 0x0a := by
          rintro rfl
          exact absurd hhex (by decide)
        have hsemicolon : c ≠ 0x3b := by
          rintro rfl
          exact absurd hhex (by decide)
        have hfree : ¬(c = 0x0a ∨ c = 0x3b ∨ chunkLineCapacity ≤ chunkLine.length) := by
          rw [not_or, not_or]
          exact ⟨hlf, hsemicolon, by dsimp only at hroom; omega⟩
        dsimp only
        rw [if_neg hc, if_neg hfree]
        show Chunked chunkLineCapacity (chunkLine ++ [c] ++ encoded) payload
        rw [List.append_assoc]
        exact h
  | chunkSizeLf =>
      obtain ⟨rest, hbytes, hrest⟩ := h
      obtain ⟨rfl, rfl⟩ := List.cons.inj hbytes
      unfold acceptByte
      dsimp only at hrest ⊢
      rw [if_pos rfl]
      by_cases hzero : remaining = 0
      · simpa [Awaits, hzero, AfterSize] using hrest
      · simpa [Awaits, hzero] using hrest
  | chunkDataCr =>
      obtain ⟨rest, hbytes, hrest⟩ := h
      obtain ⟨rfl, rfl⟩ := List.cons.inj hbytes
      exact ⟨rest, rfl, hrest⟩
  | chunkDataLf =>
      obtain ⟨rest, hbytes, hrest⟩ := h
      obtain ⟨rfl, rfl⟩ := List.cons.inj hbytes
      have hempty : chunkLine = [] := hvalid.lineEmpty (by rintro ⟨⟩)
      subst hempty
      exact hrest
  | finalCr =>
      obtain ⟨hbytes, rfl⟩ := h
      obtain ⟨rfl, rfl⟩ := List.cons.inj hbytes
      exact ⟨rfl, rfl⟩
  | finalLf =>
      obtain ⟨hbytes, rfl⟩ := h
      obtain ⟨rfl, rfl⟩ := List.cons.inj hbytes
      exact ⟨rfl, rfl⟩

theorem plain_acceptByte (hplain : decoder.Plain) (h : decoder.acceptByte c = some next) :
    next.Plain := by
  obtain ⟨state, remaining, decodedBytes, maximumBodyBytes, chunkLine⟩ := decoder
  unfold acceptByte at h
  unfold Plain at hplain ⊢
  dsimp only at h hplain
  cases state with
  | chunkSize =>
      dsimp only at h
      split at h
      · split at h
        · cases h
        · obtain ⟨size, -, rfl⟩ := Option.map_eq_some_iff.mp h
          exact List.not_mem_nil
      · next hc =>
          split at h
          · cases h
          · cases h
            rw [List.mem_append, List.mem_singleton, not_or]
            exact ⟨hplain, fun h => hc h.symm⟩
  | contentLength => cases h
  | chunkData => cases h
  | complete => cases h
  | failed => cases h
  | chunkSizeLf =>
      dsimp only at h
      split at h
      · cases h
        exact hplain
      · cases h
  | chunkDataCr =>
      dsimp only at h
      split at h
      · cases h
        exact hplain
      · cases h
  | chunkDataLf =>
      dsimp only at h
      split at h
      · cases h
        exact hplain
      · cases h
  | finalCr =>
      dsimp only at h
      split at h
      · cases h
        exact hplain
      · cases h
  | finalLf =>
      dsimp only at h
      split at h
      · cases h
        exact hplain
      · cases h

/-- A byte that is accepted does not fail the decoder. -/
theorem acceptByte_going (h : decoder.acceptByte c = some next) : next.state ≠ .failed := by
  obtain ⟨state, remaining, decodedBytes, maximumBodyBytes, chunkLine⟩ := decoder
  unfold acceptByte at h
  cases state with
  | chunkSize =>
      dsimp only at h
      split at h
      · split at h
        · cases h
        · obtain ⟨size, -, rfl⟩ := Option.map_eq_some_iff.mp h
          nofun
      · split at h
        · cases h
        · cases h
          nofun
  | contentLength => cases h
  | chunkData => cases h
  | complete => cases h
  | failed => cases h
  | chunkSizeLf =>
      dsimp only at h
      split at h
      · cases h
        dsimp only
        split <;> nofun
      · cases h
  | chunkDataCr =>
      dsimp only at h
      split at h
      · cases h
        nofun
      · cases h
  | chunkDataLf =>
      dsimp only at h
      split at h
      · cases h
        nofun
      · cases h
  | finalCr =>
      dsimp only at h
      split at h
      · cases h
        nofun
      · cases h
  | finalLf =>
      dsimp only at h
      split at h
      · cases h
        nofun
      · cases h

/-- The converse of `awaits_taken`, for a byte. -/
theorem awaits_of_taken (hstate : decoder.state = .contentLength ∨ decoder.state = .chunkData)
    (hpositive : 0 < decoder.remaining) (h : Awaits decoder (c :: encoded) payload) :
    ∃ payload', payload = c :: payload' ∧ Awaits (decoder.taken 1) encoded payload' := by
  obtain ⟨state, remaining, decodedBytes, maximumBodyBytes, chunkLine⟩ := decoder
  dsimp only at hstate hpositive
  rcases hstate with rfl | rfl
  · obtain ⟨rfl, hlength⟩ := h
    refine ⟨encoded, rfl, ?_⟩
    simp only [List.length_cons] at hlength
    simp only [taken, if_true]
    by_cases hlast : remaining = 1
    · rw [if_pos hlast]
      have hnil : encoded = [] := List.length_eq_zero_iff.mp (by omega)
      exact ⟨hnil, hnil⟩
    · rw [if_neg hlast]
      exact ⟨rfl, by dsimp only; omega⟩
  · have hne : remaining ≠ 0 := by omega
    simp only [Awaits, AfterSize, if_neg hne] at h
    obtain ⟨data, rest, payload', hdata, hbytes, rfl, hrest⟩ := h
    cases data with
    | nil => exact absurd hdata.symm hne
    | cons d data =>
        obtain ⟨rfl, rfl⟩ := List.cons.inj hbytes
        rw [List.length_cons] at hdata
        refine ⟨data ++ payload', rfl, ?_⟩
        simp only [taken, reduceCtorEq, if_false]
        by_cases hlast : remaining = 1
        · have hnil : data = [] := List.length_eq_zero_iff.mp (by omega)
          rw [if_pos hlast, hnil]
          exact ⟨rest, rfl, hrest⟩
        · rw [if_neg hlast]
          have hmore : remaining - 1 ≠ 0 := by omega
          simp only [Awaits, AfterSize, if_neg hmore]
          exact ⟨data, rest, payload', by omega, rfl, rfl, hrest⟩

/-- Between two bytes, with no CR in the size line. -/
structure Sound (decoder : HttpBodyDecoder) : Prop where
  valid : decoder.Valid
  plain : decoder.Plain

theorem sound_taken (h : decoder.Sound)
    (hstate : decoder.state = .contentLength ∨ decoder.state = .chunkData)
    (hroom : decoder.decodedBytes < decoder.maximumBodyBytes) : (decoder.taken 1).Sound :=
  ⟨valid_taken h.valid hstate (h.valid.remaining hstate) hroom, h.plain⟩

/-- What a byte that is taken does. -/
structure Stepped (decoder : HttpBodyDecoder) (c : UInt8) (written : Bytes)
    (next : HttpBodyDecoder) : Prop where
  sound : next.Sound
  maximum : next.maximumBodyBytes = decoder.maximumBodyBytes
  decoded : next.decodedBytes = decoder.decodedBytes + written.length
  awaits : ∀ encoded payload, Awaits decoder (c :: encoded) payload ↔
    ∃ payload', payload = written ++ payload' ∧ Awaits next encoded payload'

theorem step_ok (h : decoder.Sound) (hstep : decoder.step c = .ok (written, next)) :
    Stepped decoder c written next := by
  have htaken : decoder.state = .contentLength ∨ decoder.state = .chunkData →
      decoder.decodedBytes < decoder.maximumBodyBytes →
        Stepped decoder c [c] (decoder.taken 1) := by
    intro hstate hroom
    have hpositive := h.valid.remaining hstate
    refine ⟨sound_taken h hstate hroom, rfl, rfl, ?_⟩
    intro encoded payload
    constructor
    · exact awaits_of_taken hstate hpositive
    · rintro ⟨payload', rfl, hrest⟩
      exact awaits_taken hstate hpositive (show [c].length ≤ _ from hpositive) hrest
  have haccept : decoder.state ≠ .contentLength → decoder.state ≠ .chunkData →
      decoder.acceptByte c = some next → Stepped decoder c [] next := by
    intro hlength hdata haccept
    have haccepted := accepted h.valid haccept
    refine ⟨⟨haccepted.valid, plain_acceptByte h.plain haccept⟩, haccepted.maximum,
      haccepted.decoded, ?_⟩
    intro encoded payload
    constructor
    · intro hawaiting
      have hnext := awaits_acceptByte h.valid h.plain hlength hdata hawaiting
      rw [haccept] at hnext
      exact ⟨payload, rfl, hnext⟩
    · rintro ⟨payload', rfl, hrest⟩
      exact haccepted.awaits encoded _ hrest
  unfold step at hstep
  split at hstep
  · cases hstep
  · cases hstep
  · next hstate =>
      split at hstep
      · next hroom =>
          cases hstep
          exact htaken (.inl hstate) hroom
      · cases hstep
  · next hstate =>
      split at hstep
      · next hroom =>
          cases hstep
          exact htaken (.inr hstate) hroom
      · cases hstep
  · next hcomplete hfailed hlength hdata =>
      split at hstep
      · cases hstep
      · next haccepted =>
          cases hstep
          exact haccept hlength hdata haccepted

/-- A byte that ends the stream begins no body within the limit. -/
theorem step_error {status : HttpBodyStatus} (h : decoder.Sound)
    (hmaximum : decoder.maximumBodyBytes < 2 ^ 64) (hstep : decoder.step c = .error status) :
    (status ≠ .ok ∧ status ≠ .complete) ∧ ∀ encoded payload,
      Awaits decoder (c :: encoded) payload →
        decoder.maximumBodyBytes < decoder.decodedBytes + payload.length := by
  have hfull : decoder.state = .contentLength ∨ decoder.state = .chunkData →
      ¬decoder.decodedBytes < decoder.maximumBodyBytes → ∀ encoded payload,
        Awaits decoder (c :: encoded) payload →
          decoder.maximumBodyBytes < decoder.decodedBytes + payload.length := by
    intro hstate hroom encoded payload hawaits
    obtain ⟨payload', rfl, -⟩ := awaits_of_taken hstate (h.valid.remaining hstate) hawaits
    rw [List.length_cons]
    omega
  unfold step at hstep
  split at hstep
  · next hstate =>
      cases hstep
      refine ⟨⟨by decide, by decide⟩, ?_⟩
      intro encoded payload hawaits
      unfold Awaits at hawaits
      rw [hstate] at hawaits
      cases hawaits.1
  · next hstate =>
      cases hstep
      refine ⟨⟨by decide, by decide⟩, ?_⟩
      intro encoded payload hawaits
      unfold Awaits at hawaits
      rw [hstate] at hawaits
      exact hawaits.elim
  · next hstate =>
      split at hstep
      · cases hstep
      · next hroom =>
          cases hstep
          exact ⟨⟨by decide, by decide⟩, hfull (.inl hstate) hroom⟩
  · next hstate =>
      split at hstep
      · cases hstep
      · next hroom =>
          cases hstep
          exact ⟨⟨by decide, by decide⟩, hfull (.inr hstate) hroom⟩
  · next hcomplete hfailed hlength hdata =>
      split at hstep
      · next haccept =>
          cases hstep
          refine ⟨⟨by decide, by decide⟩, ?_⟩
          intro encoded payload hawaits
          have hlong := awaits_acceptByte h.valid h.plain hlength hdata hawaits
          rw [haccept] at hlong
          dsimp only at hlong
          omega
      · cases hstep

/-- Nothing more completes a body only where it is complete. -/
theorem awaits_nil (h : decoder.Sound) :
    Awaits decoder [] payload ↔ decoder.state = .complete ∧ payload = [] := by
  obtain ⟨state, remaining, decodedBytes, maximumBodyBytes, chunkLine⟩ := decoder
  constructor
  · intro hawaits
    cases state with
    | complete => exact ⟨rfl, hawaits.2⟩
    | contentLength =>
        obtain ⟨rfl, hlength⟩ := hawaits
        have hpositive := h.valid.remaining (.inl rfl)
        dsimp only at hlength hpositive
        rw [List.length_nil] at hlength
        omega
    | chunkSize =>
        have hchunked : Chunked chunkLineCapacity (chunkLine ++ []) payload := hawaits
        obtain ⟨digits, size, rest, hbytes, -⟩ := (chunked_iff rfl).mp hchunked
        rw [List.append_nil] at hbytes
        exact absurd (by rw [hbytes]; simp [crlf]) h.plain
    | chunkSizeLf =>
        obtain ⟨rest, hbytes, -⟩ := hawaits
        cases hbytes
    | chunkData =>
        have hpositive := h.valid.remaining (.inr rfl)
        dsimp only at hpositive
        have hafter : AfterSize remaining [] payload := hawaits
        unfold AfterSize at hafter
        rw [if_neg (by omega)] at hafter
        obtain ⟨data, rest, payload', hdata, hbytes, -⟩ := hafter
        have hnil := (List.append_eq_nil_iff.mp hbytes.symm).1
        cases (List.append_eq_nil_iff.mp hnil).2
    | chunkDataCr =>
        obtain ⟨rest, hbytes, -⟩ := hawaits
        cases hbytes
    | chunkDataLf =>
        obtain ⟨rest, hbytes, -⟩ := hawaits
        cases hbytes
    | finalCr => cases hawaits.1
    | finalLf => cases hawaits.1
    | failed => exact hawaits.elim
  · rintro ⟨hstate, rfl⟩
    dsimp only at hstate
    subst hstate
    exact ⟨rfl, rfl⟩

theorem idle_eq_complete : decoder.idle = .complete ↔ decoder.state = .complete := by
  unfold idle
  split <;> simp_all

/-- A stream is complete if it completes the body within the limit, and that is written. -/
theorem run_complete_iff (h : decoder.Sound) (hmaximum : decoder.maximumBodyBytes < 2 ^ 64)
    (data : Bytes) :
    ((decoder.run data).1 = .complete ↔
      ∃ payload, Awaits decoder data payload ∧
        decoder.decodedBytes + payload.length ≤ decoder.maximumBodyBytes) ∧
    ((decoder.run data).1 = .complete → Awaits decoder data (decoder.run data).2.2) := by
  induction data generalizing decoder with
  | nil =>
      have hdecoded := h.valid.decoded
      simp only [run, idle_eq_complete, awaits_nil h]
      constructor
      · constructor
        · intro hcomplete
          exact ⟨[], ⟨hcomplete, rfl⟩, hdecoded⟩
        · rintro ⟨_, ⟨hcomplete, -⟩, -⟩
          exact hcomplete
      · intro hcomplete
        exact ⟨hcomplete, trivial⟩
  | cons c data ih =>
      unfold run
      cases hstep : decoder.step c with
      | error status =>
          obtain ⟨⟨-, hcomplete⟩, hlong⟩ := step_error h hmaximum hstep
          refine ⟨⟨fun heq => absurd heq hcomplete, ?_⟩, fun heq => absurd heq hcomplete⟩
          rintro ⟨payload, hawaits, hfits⟩
          have := hlong data payload hawaits
          omega
      | ok result =>
          obtain ⟨written, next⟩ := result
          have hstepped := step_ok h hstep
          obtain ⟨hiff, hwritten⟩ := ih hstepped.sound (hstepped.maximum ▸ hmaximum)
          dsimp only
          rw [hiff, hstepped.maximum, hstepped.decoded]
          refine ⟨?_, ?_⟩
          · constructor
            · rintro ⟨payload, hawaits, hfits⟩
              refine ⟨written ++ payload, (hstepped.awaits _ _).mpr ⟨payload, rfl, hawaits⟩, ?_⟩
              rw [List.length_append]
              omega
            · rintro ⟨payload, hawaits, hfits⟩
              obtain ⟨payload', rfl, hrest⟩ := (hstepped.awaits _ _).mp hawaits
              rw [List.length_append] at hfits
              exact ⟨payload', hrest, by omega⟩
          · intro hexists
            rw [hstepped.maximum, hstepped.decoded] at hiff
            exact (hstepped.awaits _ _).mpr ⟨_, rfl, hwritten (hiff.mpr hexists)⟩

/-! ## What is written -/

/-- What the bytes after a size line carry. -/
def CarriesAfter (size : Nat) (encoded payload : Bytes) : Prop :=
  (payload <+: encoded ∧ payload.length ≤ size) ∨
    ∃ data rest payload', data.length = size ∧ size ≠ 0 ∧ encoded = data ++ crlf ++ rest ∧
      payload = data ++ payload' ∧ Carried chunkLineCapacity rest payload'

/-- What the bytes carry for a decoder that goes on with them. -/
def Receives (decoder : HttpBodyDecoder) (encoded payload : Bytes) : Prop :=
  match decoder.state with
  | .contentLength => payload <+: encoded ∧ payload.length ≤ decoder.remaining
  | .chunkSize => Carried chunkLineCapacity (decoder.chunkLine ++ encoded) payload
  | .chunkSizeLf => payload = [] ∨
      ∃ rest, encoded = 0x0a :: rest ∧ CarriesAfter decoder.remaining rest payload
  | .chunkData => CarriesAfter decoder.remaining encoded payload
  | .chunkDataCr => payload = [] ∨
      ∃ rest, encoded = crlf ++ rest ∧ Carried chunkLineCapacity rest payload
  | .chunkDataLf => payload = [] ∨
      ∃ rest, encoded = 0x0a :: rest ∧ Carried chunkLineCapacity rest payload
  | _ => payload = []

theorem receives_nil (decoder : HttpBodyDecoder) (encoded : Bytes) :
    Receives decoder encoded [] := by
  unfold Receives
  split
  · exact ⟨List.nil_prefix, Nat.zero_le _⟩
  · exact .nothing _
  · exact .inl rfl
  · exact .inl ⟨List.nil_prefix, Nat.zero_le _⟩
  · exact .inl rfl
  · exact .inl rfl
  · rfl

/-- A size line before what a chunk carries. -/
theorem carried_of_carriesAfter {digits rest : Bytes} {size : Nat}
    (hsize : ChunkSize chunkLineCapacity digits size) (h : CarriesAfter size rest payload) :
    Carried chunkLineCapacity (digits ++ crlf ++ rest) payload := by
  rcases h with ⟨⟨more, rfl⟩, hlength⟩ | ⟨data, rest', payload', hdata, hne, rfl, rfl, hrest⟩
  · exact .part hsize hlength
  · subst hdata
    have hchunk := Carried.chunk hsize
      (fun hnil => hne (List.length_eq_zero_iff.mpr hnil)) hrest
    simpa only [List.append_assoc] using hchunk

/-- A byte of payload before what follows it. -/
theorem receives_taken (hstate : decoder.state = .contentLength ∨ decoder.state = .chunkData)
    (hpositive : 0 < decoder.remaining) (h : Receives (decoder.taken 1) encoded payload) :
    Receives decoder (c :: encoded) (c :: payload) := by
  obtain ⟨state, remaining, decodedBytes, maximumBodyBytes, chunkLine⟩ := decoder
  dsimp only at hstate hpositive
  have hcons : ∀ {s t : Bytes}, s <+: t → c :: s <+: c :: t := by
    rintro s t ⟨more, rfl⟩
    exact ⟨more, rfl⟩
  rcases hstate with rfl | rfl
  · simp only [taken, if_true] at h
    split at h
    · obtain rfl : payload = [] := h
      exact ⟨hcons List.nil_prefix, hpositive⟩
    · obtain ⟨hinit, hlength⟩ := h
      refine ⟨hcons hinit, ?_⟩
      dsimp only at hlength ⊢
      rw [List.length_cons]
      omega
  · simp only [taken, reduceCtorEq, if_false] at h
    show CarriesAfter remaining (c :: encoded) (c :: payload)
    split at h
    · next hlast =>
        rcases h with rfl | ⟨rest, rfl, hrest⟩
        · exact .inl ⟨hcons List.nil_prefix, hpositive⟩
        · exact .inr ⟨[c], rest, payload, hlast.symm, by omega, by simp, rfl, hrest⟩
    · rcases h with ⟨hinit, hlength⟩ | ⟨data, rest, payload', hdata, hne, rfl, rfl, hrest⟩
      · refine .inl ⟨hcons hinit, ?_⟩
        dsimp only at hlength
        rw [List.length_cons]
        omega
      · dsimp only at hdata
        refine .inr ⟨c :: data, rest, payload', ?_, by omega, rfl, rfl, hrest⟩
        rw [List.length_cons]
        omega

/-- A byte that is only looked at. -/
theorem receives_acceptByte (hvalid : decoder.Valid) (haccept : decoder.acceptByte c = some next)
    (h : Receives next encoded payload) : Receives decoder (c :: encoded) payload := by
  obtain ⟨state, remaining, decodedBytes, maximumBodyBytes, chunkLine⟩ := decoder
  unfold acceptByte at haccept
  cases state with
  | contentLength => cases haccept
  | chunkData => cases haccept
  | complete => cases haccept
  | failed => cases haccept
  | chunkSize =>
      have hline := hvalid.line
      dsimp only at haccept hline
      split at haccept
      · next hcr =>
          split at haccept
          · cases haccept
          · next hnonempty =>
              obtain ⟨size, hsize, rfl⟩ := Option.map_eq_some_iff.mp haccept
              subst hcr
              rcases h with rfl | ⟨rest, rfl, hrest⟩
              · exact .nothing _
              · have hcarried := carried_of_carriesAfter
                  ⟨hnonempty, hline, hexFrom_of_chunkSizeOf hsize⟩ hrest
                show Carried chunkLineCapacity (chunkLine ++ 0x0d :: 0x0a :: rest) payload
                simpa [crlf] using hcarried
      · split at haccept
        · cases haccept
        · cases haccept
          show Carried chunkLineCapacity (chunkLine ++ c :: encoded) payload
          have hnext : Carried chunkLineCapacity (chunkLine ++ [c] ++ encoded) payload := h
          rwa [List.append_assoc] at hnext
  | chunkSizeLf =>
      dsimp only at haccept
      split at haccept
      · next hlf =>
          subst hlf
          cases haccept
          by_cases hzero : remaining = 0
          · rw [if_pos hzero] at h
            exact .inl h
          · rw [if_neg hzero] at h
            exact .inr ⟨encoded, rfl, h⟩
      · cases haccept
  | chunkDataCr =>
      dsimp only at haccept
      split at haccept
      · next hcr =>
          subst hcr
          cases haccept
          rcases h with rfl | ⟨rest, rfl, hrest⟩
          · exact .inl rfl
          · exact .inr ⟨rest, rfl, hrest⟩
      · cases haccept
  | chunkDataLf =>
      dsimp only at haccept
      split at haccept
      · next hlf =>
          subst hlf
          cases haccept
          have hempty : chunkLine = [] := hvalid.lineEmpty (by rintro ⟨⟩)
          subst hempty
          exact .inr ⟨encoded, rfl, h⟩
      · cases haccept
  | finalCr =>
      dsimp only at haccept
      split at haccept
      · cases haccept
        exact h
      · cases haccept
  | finalLf =>
      dsimp only at haccept
      split at haccept
      · cases haccept
        exact h
      · cases haccept

theorem receives_step (h : decoder.Sound) (hstep : decoder.step c = .ok (written, next))
    (hnext : Receives next encoded payload) :
    Receives decoder (c :: encoded) (written ++ payload) := by
  unfold step at hstep
  split at hstep
  · cases hstep
  · cases hstep
  · next hstate =>
      split at hstep
      · cases hstep
        exact receives_taken (.inl hstate) (h.valid.remaining (.inl hstate)) hnext
      · cases hstep
  · next hstate =>
      split at hstep
      · cases hstep
        exact receives_taken (.inr hstate) (h.valid.remaining (.inr hstate)) hnext
      · cases hstep
  · split at hstep
    · cases hstep
    · next haccepted =>
        cases hstep
        exact receives_acceptByte h.valid haccepted hnext

/-- What is written of a stream is what it carries, within the limit. -/
theorem run_receives (h : decoder.Sound) (data : Bytes) :
    Receives decoder data (decoder.run data).2.2 ∧
      decoder.decodedBytes + (decoder.run data).2.2.length ≤ decoder.maximumBodyBytes := by
  induction data generalizing decoder with
  | nil => exact ⟨receives_nil decoder [], h.valid.decoded⟩
  | cons c data ih =>
      unfold run
      cases hstep : decoder.step c with
      | error status => exact ⟨receives_nil decoder _, h.valid.decoded⟩
      | ok result =>
          obtain ⟨written, next⟩ := result
          have hstepped := step_ok h hstep
          obtain ⟨hreceives, hroom⟩ := ih hstepped.sound
          rw [hstepped.decoded, hstepped.maximum] at hroom
          refine ⟨receives_step h hstep hreceives, ?_⟩
          dsimp only
          rw [List.length_append]
          omega

theorem carriesAfter_of_prefix {size : Nat} {payload' : Bytes}
    (h : CarriesAfter size encoded payload) (hinit : payload' <+: payload) :
    CarriesAfter size encoded payload' := by
  rcases h with ⟨hencoded, hlength⟩ | ⟨data, rest, p, hdata, hne, rfl, rfl, hrest⟩
  · exact .inl ⟨hinit.trans hencoded, hinit.length_le.trans hlength⟩
  · rcases prefix_append_cases hinit with hfirst | ⟨p', rfl, hp'⟩
    · have hlength := hfirst.length_le
      refine .inl ⟨?_, by omega⟩
      rw [List.append_assoc]
      exact hfirst.trans (List.prefix_append data _)
    · exact .inr ⟨data, rest, p', hdata, hne, rfl, rfl, hrest.of_prefix hp'⟩

theorem receives_of_isPrefix {payload' : Bytes} (h : Receives decoder encoded payload)
    (hinit : payload' <+: payload) : Receives decoder encoded payload' := by
  have hnone : payload = [] → payload' = [] := by
    rintro rfl
    exact List.prefix_nil.mp hinit
  unfold Receives at h ⊢
  split at h
  · exact ⟨hinit.trans h.1, hinit.length_le.trans h.2⟩
  · exact h.of_prefix hinit
  · rcases h with h | ⟨rest, hrest, hcarries⟩
    · exact .inl (hnone h)
    · exact .inr ⟨rest, hrest, carriesAfter_of_prefix hcarries hinit⟩
  · exact carriesAfter_of_prefix h hinit
  · rcases h with h | ⟨rest, hrest, hcarried⟩
    · exact .inl (hnone h)
    · exact .inr ⟨rest, hrest, hcarried.of_prefix hinit⟩
  · rcases h with h | ⟨rest, hrest, hcarried⟩
    · exact .inl (hnone h)
    · exact .inr ⟨rest, hrest, hcarried.of_prefix hinit⟩
  · exact hnone h

/-! ## Runs of payload -/

/-- Payload within the limit is written. -/
theorem run_taken (hstate : decoder.state = .contentLength ∨ decoder.state = .chunkData)
    (hpositive : 0 < decoder.remaining) (data : Bytes) (hn : data.length ≤ decoder.remaining)
    (hroom : decoder.decodedBytes + data.length ≤ decoder.maximumBodyBytes) (rest : Bytes) :
    decoder.run (data ++ rest) =
      let result := (decoder.taken data.length).run rest
      (result.1, result.2.1, data ++ result.2.2) := by
  induction data generalizing decoder with
  | nil =>
      have htaken : decoder.taken 0 = decoder := by
        unfold taken
        rw [if_neg (by omega)]
        rfl
      rw [List.length_nil, htaken]
      rfl
  | cons c data ih =>
      rw [List.length_cons] at hn hroom
      have hstep : decoder.step c = .ok ([c], decoder.taken 1) := by
        unfold step
        rcases hstate with hstate | hstate
        · rw [hstate]
          exact if_pos (by omega)
        · rw [hstate]
          exact if_pos (by omega)
      rw [List.cons_append, run, hstep]
      dsimp only
      by_cases hlast : data = []
      · subst hlast
        rfl
      · have hmore : 0 < data.length := List.length_pos_iff.mpr hlast
        have hnext : (decoder.taken 1).state = decoder.state := by
          unfold taken
          exact if_neg (by omega)
        have htaken : (decoder.taken 1).taken data.length = decoder.taken (data.length + 1) := by
          unfold taken
          dsimp only
          rw [if_neg (show ¬decoder.remaining = 1 by omega)]
          congr 1
          · by_cases hall : decoder.remaining = data.length + 1
            · rw [if_pos (by omega), if_pos hall]
            · rw [if_neg (by omega), if_neg hall]
          · omega
          · omega
        have hstate' : (decoder.taken 1).state = .contentLength ∨
            (decoder.taken 1).state = .chunkData := by
          rw [hnext]
          exact hstate
        have hrun := ih hstate' (by show 0 < decoder.remaining - 1; omega)
          (by show data.length ≤ decoder.remaining - 1; omega)
          (by show decoder.decodedBytes + 1 + data.length ≤ decoder.maximumBodyBytes; omega)
        rw [hrun, htaken]
        rfl

/-- Payload past the limit is written up to it. -/
theorem run_tooLarge (hstate : decoder.state = .contentLength ∨ decoder.state = .chunkData)
    (data : Bytes) (hn : data.length ≤ decoder.remaining)
    (hdecoded : decoder.decodedBytes ≤ decoder.maximumBodyBytes)
    (hroom : decoder.maximumBodyBytes < decoder.decodedBytes + data.length) (rest : Bytes) :
    (decoder.run (data ++ rest)).1 = .tooLarge ∧
      (decoder.run (data ++ rest)).2.2 =
        data.take (decoder.maximumBodyBytes - decoder.decodedBytes) := by
  generalize hfirst : data.take (decoder.maximumBodyBytes - decoder.decodedBytes) = first
  have hlength : first.length = decoder.maximumBodyBytes - decoder.decodedBytes := by
    rw [← hfirst, List.length_take]
    omega
  obtain ⟨c, more, hmore⟩ : ∃ c more, data = first ++ c :: more := by
    have hdrop := List.take_append_drop (decoder.maximumBodyBytes - decoder.decodedBytes) data
    cases hrest : data.drop (decoder.maximumBodyBytes - decoder.decodedBytes) with
    | nil =>
        have := congrArg List.length hrest
        rw [List.length_drop, List.length_nil] at this
        omega
    | cons c more => exact ⟨c, more, by rw [← hdrop, hfirst, hrest]⟩
  subst hmore
  rw [List.length_append, List.length_cons] at hn
  have hpositive : 0 < decoder.remaining := by omega
  have hnext : (decoder.taken first.length).state = decoder.state := by
    unfold taken
    exact if_neg (by omega)
  have hstep : (decoder.taken first.length).step c = .error .tooLarge := by
    unfold step
    have hnone : ¬decoder.decodedBytes + first.length < decoder.maximumBodyBytes := by omega
    rcases hstate with hstate | hstate
    · rw [hnext, hstate]
      exact if_neg hnone
    · rw [hnext, hstate]
      exact if_neg hnone
  rw [List.append_assoc, run_taken hstate hpositive first (by omega) (by omega),
    List.cons_append, run, hstep]
  exact ⟨rfl, List.append_nil _⟩

/-! ## Feeding in pieces -/

/-- A sink that takes everything; its state is what it has been given. -/
def acceptAll (data : Bytes) : StateM Bytes Bool := do
  modify (· ++ data)
  return true

/-- Feeds pieces until one of them fails, then finishes. -/
def feedAll (decoder : HttpBodyDecoder) :
    List Bytes → StateM Bytes (HttpBodyStatus × HttpBodyDecoder)
  | [] => return decoder.finish
  | piece :: pieces => do
      let (status, next) ← decoder.feed acceptAll piece
      if status = .ok ∨ status = .complete then feedAll next pieces else return (status, next)

/-- A piece was fed, with the sink at `before`, and ended as `run` does. -/
structure FedAs (decoder : HttpBodyDecoder) (data written : Bytes)
    (result : HttpBodyStatus × HttpBodyDecoder) : Prop where
  status : result.1 = (decoder.run data).1
  wrote : written <+: (decoder.run data).2.2
  goes : result.1 = .ok ∨ result.1 = .complete →
    result.2 = (decoder.run data).2.1 ∧ written = (decoder.run data).2.2
  stops : result.1 ≠ .ok → result.2.state = .complete ∨ result.2.state = .failed
  decoded : result.2.decodedBytes = decoder.decodedBytes + written.length

/-- The result of a computation with the sink, as an equation. -/
def Gives {α : Type} (m : StateM Bytes α) (before : Bytes) (a : α) (after : Bytes) : Prop :=
  m.run before = (a, after)

theorem gives_bind {α β : Type} {m : StateM Bytes α} {k : α → StateM Bytes β}
    {before mid after : Bytes} {a : α} {b : β} (h : Gives m before a mid)
    (hk : Gives (k a) mid b after) : Gives (m >>= k) before b after := by
  unfold Gives at h hk ⊢
  rw [StateT.run_bind, h]
  exact hk

theorem gives_pure {α : Type} (a : α) (before : Bytes) :
    Gives (pure a : StateM Bytes α) before a before := rfl

theorem gives_write (decoder : HttpBodyDecoder) (data before : Bytes) :
    Gives (decoder.write acceptAll data) before
      (if data = [] then (.ok, decoder)
        else if decoder.maximumBodyBytes < decoder.decodedBytes ∨
            decoder.maximumBodyBytes - decoder.decodedBytes < data.length then
          decoder.fail .tooLarge
        else (.ok, { decoder with decodedBytes := decoder.decodedBytes + data.length }))
      (if data = [] then before
        else if decoder.maximumBodyBytes < decoder.decodedBytes ∨
            decoder.maximumBodyBytes - decoder.decodedBytes < data.length then before
        else before ++ data) := by
  unfold write
  split
  · exact gives_pure _ _
  · split
    · exact gives_pure _ _
    · rfl

/-- A write within the limit. -/
theorem gives_write_ok (decoder : HttpBodyDecoder) (data before : Bytes)
    (hroom : decoder.decodedBytes + data.length ≤ decoder.maximumBodyBytes) :
    Gives (decoder.write acceptAll data) before
      (.ok, { decoder with decodedBytes := decoder.decodedBytes + data.length })
      (before ++ data) := by
  have h := gives_write decoder data before
  have hfits : ¬(decoder.maximumBodyBytes < decoder.decodedBytes ∨
      decoder.maximumBodyBytes - decoder.decodedBytes < data.length) := by omega
  rw [if_neg hfits, if_neg hfits] at h
  by_cases hnil : data = []
  · subst hnil
    rw [if_pos rfl, if_pos rfl] at h
    rw [List.append_nil]
    exact h
  · rw [if_neg hnil, if_neg hnil] at h
    exact h

/-- A write past the limit. -/
theorem gives_write_tooLarge (decoder : HttpBodyDecoder) (data before : Bytes)
    (hdecoded : decoder.decodedBytes ≤ decoder.maximumBodyBytes)
    (hroom : decoder.maximumBodyBytes < decoder.decodedBytes + data.length) :
    Gives (decoder.write acceptAll data) before (decoder.fail .tooLarge) before := by
  have h := gives_write decoder data before
  have hover : decoder.maximumBodyBytes < decoder.decodedBytes ∨
      decoder.maximumBodyBytes - decoder.decodedBytes < data.length := by omega
  have hne : data ≠ [] := by
    rintro rfl
    rw [List.length_nil] at hroom
    omega
  rw [if_pos hover, if_pos hover, if_neg hne, if_neg hne] at h
  exact h

/-- The loop gives what `run` does. -/
def FeedsAs (decoder : HttpBodyDecoder) (data before : Bytes)
    (m : StateM Bytes (HttpBodyStatus × HttpBodyDecoder)) : Prop :=
  ∃ result written, Gives m before result (before ++ written) ∧ FedAs decoder data written result

theorem feedsAs_of_nothing {data before : Bytes}
    {m : StateM Bytes (HttpBodyStatus × HttpBodyDecoder)}
    {result : HttpBodyStatus × HttpBodyDecoder} (hgives : Gives m before result before)
    (h : FedAs decoder data [] result) : FeedsAs decoder data before m :=
  ⟨result, [], by rwa [List.append_nil], h⟩

/-- A write failed after `first` had been written. -/
theorem fedAs_tooLarge {mid : HttpBodyDecoder} {data first : Bytes}
    (hrun : (decoder.run data).1 = .tooLarge ∧
      (decoder.run data).2.2 = (data.take (decoder.maximumBodyBytes - decoder.decodedBytes)))
    (hfirst : first <+: data)
    (hroom : decoder.decodedBytes + first.length ≤ decoder.maximumBodyBytes)
    (hdecoded : mid.decodedBytes = decoder.decodedBytes + first.length) :
    FedAs decoder data first (mid.fail .tooLarge) where
  status := hrun.1.symm
  wrote := by
    rw [hrun.2]
    exact List.prefix_take_iff.mpr ⟨hfirst, by omega⟩
  goes := fun h => h.elim nofun nofun
  stops := fun _ => .inr rfl
  decoded := hdecoded

/-- A piece that was taken, then the rest. -/
theorem FedAs.after {mid : HttpBodyDecoder} {rest written : Bytes}
    {result : HttpBodyStatus × HttpBodyDecoder} (h : FedAs mid rest written result)
    (decoder : HttpBodyDecoder) (data first : Bytes)
    (hrun : decoder.run (data ++ rest) =
      ((mid.run rest).1, (mid.run rest).2.1, first ++ (mid.run rest).2.2))
    (hdecoded : mid.decodedBytes = decoder.decodedBytes + first.length) :
    FedAs decoder (data ++ rest) (first ++ written) result where
  status := by
    rw [hrun]
    exact h.status
  wrote := by
    rw [hrun]
    exact (List.prefix_append_right_inj first).mpr h.wrote
  goes := by
    intro hgoes
    obtain ⟨hnext, hwritten⟩ := h.goes hgoes
    rw [hrun, hwritten]
    exact ⟨hnext, rfl⟩
  stops := h.stops
  decoded := by
    rw [h.decoded, hdecoded, List.length_append]
    omega

theorem fedAs_completed {next : HttpBodyDecoder} (hstate : next.state = .complete)
    (rest : Bytes) : FedAs next rest [] (next.completed rest) := by
  have hnext : ({ next with state := .complete } : HttpBodyDecoder) = next := by
    rw [← hstate]
  have hcompleted : next.completed rest =
      (if rest = [] then .complete else .unexpectedData, next) := by
    unfold completed
    rw [hnext]
  rw [hcompleted]
  cases rest with
  | nil =>
      have hidle : next.idle = .complete := idle_eq_complete.mpr hstate
      exact
        { status := hidle.symm
          wrote := List.nil_prefix
          goes := fun _ => ⟨rfl, rfl⟩
          stops := fun _ => .inl hstate
          decoded := rfl }
  | cons c rest =>
      have hstep : next.step c = .error .unexpectedData := by
        unfold step
        rw [hstate]
      have hrun : next.run (c :: rest) = (.unexpectedData, next, []) := by
        rw [run, hstep]
      exact
        { status := by
            rw [hrun]
            rfl
          wrote := List.nil_prefix
          goes := fun h => h.elim nofun nofun
          stops := fun _ => .inl hstate
          decoded := rfl }

/-- Nothing to look at. -/
theorem fedAs_nil (hcomplete : decoder.state ≠ .complete) (hfailed : decoder.state ≠ .failed) :
    FedAs decoder [] [] (.ok, decoder) := by
  have hidle : decoder.idle = .ok := by
    unfold idle
    split
    · next h => exact absurd h hcomplete
    · next h => exact absurd h hfailed
    · rfl
  exact
    { status := hidle.symm
      wrote := List.nil_prefix
      goes := fun _ => ⟨rfl, rfl⟩
      stops := fun h => absurd rfl h
      decoded := rfl }

theorem feedsAs_contentLength {rest before : Bytes} (h : decoder.Sound)
    (hstate : decoder.state = .contentLength) :
    FeedsAs decoder (c :: rest) before (decoder.feedBytes acceptAll (c :: rest)) := by
  have hpositive := h.valid.remaining (.inl hstate)
  have hdecoded := h.valid.decoded
  rw [feedBytes_contentLength hstate]
  generalize hdata : c :: rest = data
  have hnonempty : 0 < data.length := by
    rw [← hdata]
    exact Nat.succ_pos _
  generalize havailable : min data.length decoder.remaining = available
  have htake : (data.take available).length = available := by
    rw [List.length_take]
    omega
  have hsplit := List.take_append_drop available data
  by_cases hroom : decoder.decodedBytes + available ≤ decoder.maximumBodyBytes
  · have hwrite := gives_write_ok decoder (data.take available) before
      (by omega)
    rw [htake] at hwrite
    have hrun := run_taken (.inl hstate) hpositive (data.take available) (by omega) (by omega)
      (data.drop available)
    rw [htake] at hrun
    by_cases hlast : decoder.remaining - available = 0
    · have hcomplete : (decoder.taken available).state = .complete := by
        unfold taken
        dsimp only
        rw [if_pos (by omega), if_pos hstate]
      have hfed := (fedAs_completed hcomplete (data.drop available)).after decoder
        (data.take available) (data.take available) hrun (by rw [htake]; rfl)
      rw [hsplit, List.append_nil] at hfed
      refine ⟨_, _, gives_bind hwrite ?_, hfed⟩
      dsimp only
      rw [if_neg (by simp), if_pos hlast]
      exact gives_pure _ _
    · have hwhole : available = data.length := by omega
      subst hwhole
      have hnext : decoder.taken data.length =
          { decoder with
            decodedBytes := decoder.decodedBytes + data.length
            remaining := decoder.remaining - data.length } := by
        unfold taken
        rw [if_neg (by omega)]
      have hdrop : data.drop data.length = [] := List.drop_length
      rw [hdrop] at hrun hsplit
      have hgoes : (decoder.taken data.length).state = .contentLength := by
        rw [hnext]
        exact hstate
      have hfed := (fedAs_nil (by rw [hgoes]; nofun) (by rw [hgoes]; nofun)).after
        decoder (data.take data.length) (data.take data.length) hrun (by rw [htake]; rfl)
      rw [hsplit, hnext] at hfed
      refine ⟨_, _, gives_bind hwrite ?_, hfed⟩
      dsimp only
      rw [if_neg (by simp), if_neg hlast, List.take_length]
      exact gives_pure _ _
  · have hwrite := gives_write_tooLarge decoder (data.take available) before hdecoded
      (by omega)
    have hover := run_tooLarge (.inl hstate) (data.take available) (by omega) hdecoded (by omega)
      (data.drop available)
    rw [hsplit, List.take_take, Nat.min_eq_left (by omega)] at hover
    exact feedsAs_of_nothing (gives_bind hwrite (gives_pure _ _))
      (fedAs_tooLarge hover List.nil_prefix hdecoded rfl)

/-- In a chunk, where the body is full: the first write fails. -/
theorem feedsAs_chunkData_full {rest before : Bytes} (h : decoder.Sound)
    (hstate : decoder.state = .chunkData)
    (hfull : decoder.maximumBodyBytes < decoder.decodedBytes + 1) :
    FeedsAs decoder (c :: rest) before (decoder.feedBytes acceptAll (c :: rest)) := by
  have hpositive := h.valid.remaining (.inr hstate)
  have hdecoded := h.valid.decoded
  rw [feedBytes_chunkData hstate]
  have hwrite := gives_write_tooLarge decoder [c] before hdecoded
    (by rw [List.length_singleton]; exact hfull)
  have hover := run_tooLarge (.inr hstate) [c]
    (by rw [List.length_singleton]; exact hpositive) hdecoded
    (by rw [List.length_singleton]; exact hfull) rest
  have htakes : [c].take (decoder.maximumBodyBytes - decoder.decodedBytes) =
      (c :: rest).take (decoder.maximumBodyBytes - decoder.decodedBytes) := by
    have hzero : decoder.maximumBodyBytes - decoder.decodedBytes = 0 := by omega
    rw [hzero]
    rfl
  rw [htakes] at hover
  exact feedsAs_of_nothing (gives_bind hwrite (gives_pure _ _))
    (fedAs_tooLarge hover List.nil_prefix hdecoded rfl)

/-- In a chunk, where the rest of the piece does not fit: the second write fails. -/
theorem feedsAs_chunkData_tooLarge {rest before : Bytes} {available : Nat} (h : decoder.Sound)
    (hstate : decoder.state = .chunkData)
    (hfirst : decoder.decodedBytes + 1 ≤ decoder.maximumBodyBytes)
    (havailable : min rest.length (decoder.remaining - 1) = available)
    (hover : decoder.maximumBodyBytes < decoder.decodedBytes + (available + 1)) :
    FeedsAs decoder (c :: rest) before (decoder.feedBytes acceptAll (c :: rest)) := by
  have hpositive := h.valid.remaining (.inr hstate)
  have hdecoded := h.valid.decoded
  rw [feedBytes_chunkData hstate]
  have htake : (rest.take available).length = available := by
    rw [List.length_take]
    omega
  have hlength : (c :: rest.take available).length = available + 1 := by
    rw [List.length_cons, htake]
  have hsplit : c :: rest.take available ++ rest.drop available = c :: rest := by
    rw [List.cons_append, List.take_append_drop]
  have hwrite := gives_write_ok decoder [c] before
    (by rw [List.length_singleton]; exact hfirst)
  have hmore := gives_write_tooLarge
    { decoder with
      decodedBytes := decoder.decodedBytes + [c].length, remaining := decoder.remaining - 1 }
    (rest.take available) (before ++ [c])
    (by
      show decoder.decodedBytes + [c].length ≤ decoder.maximumBodyBytes
      rw [List.length_singleton]
      exact hfirst)
    (by
      show decoder.maximumBodyBytes < decoder.decodedBytes + [c].length + _
      rw [List.length_singleton, htake]
      omega)
  have hrun := run_tooLarge (.inr hstate) (c :: rest.take available) (by omega) hdecoded
    (by omega) (rest.drop available)
  rw [hsplit] at hrun
  have htakes : (c :: rest.take available).take
      (decoder.maximumBodyBytes - decoder.decodedBytes) =
      (c :: rest).take (decoder.maximumBodyBytes - decoder.decodedBytes) := by
    rw [← hsplit, List.take_append_of_le_length (by omega)]
  rw [htakes] at hrun
  have hfed : FedAs decoder (c :: rest) [c]
      (HttpBodyDecoder.fail { decoder with
        decodedBytes := decoder.decodedBytes + [c].length
        remaining := decoder.remaining - 1 } .tooLarge) :=
    fedAs_tooLarge hrun ⟨rest, rfl⟩ hfirst rfl
  refine ⟨_, [c], gives_bind hwrite ?_, hfed⟩
  dsimp only
  rw [if_neg (by simp), havailable]
  refine gives_bind hmore ?_
  exact gives_pure _ _

/-- In a chunk, the two writes of a piece leave what taking its bytes one by one leaves. -/
theorem taken_chunkData {available : Nat} (hstate : decoder.state = .chunkData)
    (hpositive : 0 < decoder.remaining) (havailable : available ≤ decoder.remaining - 1) :
    decoder.taken (available + 1) =
      { decoder with
        decodedBytes := decoder.decodedBytes + 1 + available
        remaining := decoder.remaining - 1 - available
        state := if decoder.remaining - 1 - available = 0 then .chunkDataCr
          else decoder.state } := by
  unfold taken
  rw [hstate]
  congr 1
  · by_cases hall : decoder.remaining = available + 1
    · rw [if_pos hall, if_neg nofun, if_pos (by omega)]
    · rw [if_neg hall, if_neg (by omega)]
  · omega
  · omega

/-- In a chunk, where the piece fits: both writes succeed, and the rest of the data follows. -/
theorem feedsAs_chunkData_fits {rest before : Bytes} {available : Nat} (h : decoder.Sound)
    (hstate : decoder.state = .chunkData)
    (havailable : min rest.length (decoder.remaining - 1) = available)
    (hroom : decoder.decodedBytes + (available + 1) ≤ decoder.maximumBodyBytes)
    (ih : ∀ (next : HttpBodyDecoder) (data before : Bytes), data.length ≤ rest.length →
      next.Sound → next.state ≠ .complete → next.state ≠ .failed →
      FeedsAs next data before (next.feedBytes acceptAll data)) :
    FeedsAs decoder (c :: rest) before (decoder.feedBytes acceptAll (c :: rest)) := by
  have hpositive := h.valid.remaining (.inr hstate)
  rw [feedBytes_chunkData hstate]
  have htake : (rest.take available).length = available := by
    rw [List.length_take]
    omega
  have hlength : (c :: rest.take available).length = available + 1 := by
    rw [List.length_cons, htake]
  have hsplit : c :: rest.take available ++ rest.drop available = c :: rest := by
    rw [List.cons_append, List.take_append_drop]
  have hwrite := gives_write_ok decoder [c] before
    (by rw [List.length_singleton]; omega)
  have hmore := gives_write_ok
    { decoder with
      decodedBytes := decoder.decodedBytes + [c].length, remaining := decoder.remaining - 1 }
    (rest.take available) (before ++ [c])
    (by
      show decoder.decodedBytes + [c].length + _ ≤ decoder.maximumBodyBytes
      rw [List.length_singleton, htake]
      omega)
  have hrun := run_taken (.inr hstate) hpositive (c :: rest.take available)
    (by omega) (by omega) (rest.drop available)
  rw [hlength] at hrun
  have hnext := taken_chunkData hstate hpositive (by omega : available ≤ decoder.remaining - 1)
  have hsound : (decoder.taken (available + 1)).Sound :=
    ⟨valid_taken h.valid (.inr hstate) (by omega) hroom, h.plain⟩
  have hgoes : (decoder.taken (available + 1)).state = .chunkDataCr ∨
      (decoder.taken (available + 1)).state = .chunkData := by
    rw [hnext]
    dsimp only
    split
    · exact .inl rfl
    · exact .inr hstate
  obtain ⟨result, written, hgives, hfed⟩ := ih (decoder.taken (available + 1))
    (rest.drop available) (before ++ [c] ++ rest.take available)
    (by rw [List.length_drop]; omega) hsound
    (by rcases hgoes with hgoes | hgoes <;> rw [hgoes] <;> nofun)
    (by rcases hgoes with hgoes | hgoes <;> rw [hgoes] <;> nofun)
  have hafter := hfed.after decoder (c :: rest.take available)
    (c :: rest.take available) hrun (by rw [hlength]; rfl)
  rw [hsplit] at hafter
  refine ⟨result, c :: rest.take available ++ written, gives_bind hwrite ?_, hafter⟩
  dsimp only
  rw [if_neg (by simp), havailable]
  refine gives_bind hmore ?_
  dsimp only
  rw [if_neg (by simp)]
  rw [hnext] at hgives
  simpa [htake] using hgives

theorem feedsAs_chunkData {rest before : Bytes} (h : decoder.Sound)
    (hstate : decoder.state = .chunkData)
    (ih : ∀ (next : HttpBodyDecoder) (data before : Bytes), data.length ≤ rest.length →
      next.Sound → next.state ≠ .complete → next.state ≠ .failed →
      FeedsAs next data before (next.feedBytes acceptAll data)) :
    FeedsAs decoder (c :: rest) before (decoder.feedBytes acceptAll (c :: rest)) := by
  by_cases hfirst : decoder.decodedBytes + 1 ≤ decoder.maximumBodyBytes
  · by_cases hroom : decoder.decodedBytes + (min rest.length (decoder.remaining - 1) + 1) ≤
        decoder.maximumBodyBytes
    · exact feedsAs_chunkData_fits h hstate rfl hroom ih
    · exact feedsAs_chunkData_tooLarge h hstate hfirst rfl (not_le.mp hroom)
  · exact feedsAs_chunkData_full h hstate (not_le.mp hfirst)

theorem step_of_none (hcomplete : decoder.state ≠ .complete) (hfailed : decoder.state ≠ .failed)
    (hlength : decoder.state ≠ .contentLength) (hdata : decoder.state ≠ .chunkData)
    (haccept : decoder.acceptByte c = none) : decoder.step c = .error .invalidChunk := by
  unfold step
  split
  · next hstate => exact absurd hstate hcomplete
  · next hstate => exact absurd hstate hfailed
  · next hstate => exact absurd hstate hlength
  · next hstate => exact absurd hstate hdata
  · rw [haccept]

theorem step_of_some (hcomplete : decoder.state ≠ .complete) (hfailed : decoder.state ≠ .failed)
    (hlength : decoder.state ≠ .contentLength) (hdata : decoder.state ≠ .chunkData)
    (haccept : decoder.acceptByte c = some next) : decoder.step c = .ok ([], next) := by
  unfold step
  split
  · next hstate => exact absurd hstate hcomplete
  · next hstate => exact absurd hstate hfailed
  · next hstate => exact absurd hstate hlength
  · next hstate => exact absurd hstate hdata
  · rw [haccept]

/-- The loop of `Feed` ends as `run` does. -/
theorem feedsAs_feedBytes {data before : Bytes} (h : decoder.Sound)
    (hcomplete : decoder.state ≠ .complete) (hfailed : decoder.state ≠ .failed) :
    FeedsAs decoder data before (decoder.feedBytes acceptAll data) := by
  induction hn : data.length using Nat.strong_induction_on generalizing decoder data before with
  | _ n ih =>
    subst hn
    cases data with
    | nil =>
        rw [feedBytes]
        exact feedsAs_of_nothing (gives_pure _ _) (fedAs_nil hcomplete hfailed)
    | cons c rest =>
      by_cases hlength : decoder.state = .contentLength
      · exact feedsAs_contentLength h hlength
      by_cases hdata : decoder.state = .chunkData
      · apply feedsAs_chunkData h hdata
        intro next data before hshorter hsound hcomplete hfailed
        exact ih data.length (Nat.lt_succ_of_le hshorter) hsound hcomplete hfailed rfl
      rw [feedBytes_acceptByte hlength hdata]
      cases haccept : decoder.acceptByte c with
      | none =>
          have hstep := step_of_none hcomplete hfailed hlength hdata haccept
          have hrun : decoder.run (c :: rest) = (.invalidChunk, decoder, []) := by
            rw [run, hstep]
          refine feedsAs_of_nothing (gives_pure _ _) ?_
          exact
            { status := by
                rw [hrun]
                rfl
              wrote := List.nil_prefix
              goes := fun h => by rcases h with h | h <;> cases h
              stops := fun _ => .inr rfl
              decoded := rfl }
      | some next =>
          have hstep := step_of_some hcomplete hfailed hlength hdata haccept
          have hstepped := step_ok h hstep
          have hrun : decoder.run ([c] ++ rest) =
              ((next.run rest).1, (next.run rest).2.1, [] ++ (next.run rest).2.2) := by
            rw [List.singleton_append, run, hstep]
          have hdecoded : next.decodedBytes = decoder.decodedBytes + ([] : Bytes).length :=
            hstepped.decoded
          dsimp only
          by_cases hdone : next.isComplete = true
          · rw [if_pos hdone]
            exact feedsAs_of_nothing (gives_pure _ _)
              ((fedAs_completed (of_decide_eq_true hdone) rest).after decoder [c] [] hrun hdecoded)
          · rw [if_neg hdone]
            have hnext : next.state ≠ .complete := fun hstate =>
              hdone (decide_eq_true hstate)
            obtain ⟨result, written, hgives, hfed⟩ := ih rest.length (Nat.lt_succ_self _)
              hstepped.sound hnext (acceptByte_going haccept) rfl
            exact ⟨result, written, hgives, hfed.after decoder [c] [] hrun hdecoded⟩

theorem feedsAs_feed {data before : Bytes} (h : decoder.Sound) :
    FeedsAs decoder data before (decoder.feed acceptAll data) := by
  unfold feed
  split
  · next hfailed =>
      have hrun : (decoder.run data).1 = .invalidArgument ∧ (decoder.run data).2.2 = [] := by
        cases data with
        | nil =>
            unfold run idle
            rw [hfailed]
            exact ⟨rfl, rfl⟩
        | cons c rest =>
            unfold run step
            rw [hfailed]
            exact ⟨rfl, rfl⟩
      refine feedsAs_of_nothing (gives_pure _ _) ?_
      exact
        { status := hrun.1.symm
          wrote := List.nil_prefix
          goes := fun h => h.elim nofun nofun
          stops := fun _ => .inr hfailed
          decoded := rfl }
  · next hcomplete =>
      have hfed := fedAs_completed hcomplete data
      unfold completed at hfed
      rw [← hcomplete] at hfed
      exact feedsAs_of_nothing (gives_pure _ _) hfed
  · next hfailed hcomplete => exact feedsAs_feedBytes h hcomplete hfailed

/-- The decoder after a stream that did not end in an error. -/
theorem sound_run (h : decoder.Sound) (data : Bytes) :
    (decoder.run data).2.1.Sound ∧
      ((decoder.run data).1 = .ok ∨ (decoder.run data).1 = .complete →
        (decoder.run data).2.1.decodedBytes =
          decoder.decodedBytes + (decoder.run data).2.2.length) := by
  induction data generalizing decoder with
  | nil => exact ⟨h, fun _ => rfl⟩
  | cons c data ih =>
      unfold run
      cases hstep : decoder.step c with
      | error status => exact ⟨h, fun _ => rfl⟩
      | ok result =>
          obtain ⟨written, next⟩ := result
          have hstepped := step_ok h hstep
          obtain ⟨hsound, hdecoded⟩ := ih hstepped.sound
          refine ⟨hsound, ?_⟩
          intro hgoes
          dsimp only at hgoes ⊢
          rw [hdecoded hgoes, hstepped.decoded, List.length_append]
          omega

theorem step_error_status {status : HttpBodyStatus} (h : decoder.step c = .error status) :
    status ≠ .ok ∧ status ≠ .complete := by
  unfold step at h
  split at h
  · cases h
    exact ⟨by decide, by decide⟩
  · cases h
    exact ⟨by decide, by decide⟩
  · split at h
    · cases h
    · cases h
      exact ⟨by decide, by decide⟩
  · split at h
    · cases h
    · cases h
      exact ⟨by decide, by decide⟩
  · split at h
    · cases h
      exact ⟨by decide, by decide⟩
    · cases h

/-- A stream in two parts. -/
theorem run_append (decoder : HttpBodyDecoder) (data rest : Bytes) :
    decoder.run (data ++ rest) =
      if (decoder.run data).1 = .ok ∨ (decoder.run data).1 = .complete then
        (((decoder.run data).2.1.run rest).1, ((decoder.run data).2.1.run rest).2.1,
          (decoder.run data).2.2 ++ ((decoder.run data).2.1.run rest).2.2)
      else decoder.run data := by
  induction data generalizing decoder with
  | nil =>
      show decoder.run rest = if decoder.idle = .ok ∨ decoder.idle = .complete then _ else _
      split
      · rfl
      · next hidle =>
          have hfailed : decoder.state = .failed := by
            unfold idle at hidle
            split at hidle
            · exact absurd (.inr rfl) hidle
            · next hstate => exact hstate
            · exact absurd (.inl rfl) hidle
          have hinvalid : decoder.idle = .invalidArgument := by
            unfold idle
            rw [hfailed]
          cases rest with
          | nil => rfl
          | cons c rest =>
              have hstep : decoder.step c = .error .invalidArgument := by
                unfold step
                rw [hfailed]
              have hrun : decoder.run (c :: rest) = (.invalidArgument, decoder, []) := by
                rw [run, hstep]
              rw [hrun]
              show _ = (decoder.idle, decoder, [])
              rw [hinvalid]
  | cons c data ih =>
      rw [List.cons_append, run, run]
      cases hstep : decoder.step c with
      | error status =>
          obtain ⟨hok, hcomplete⟩ := step_error_status hstep
          rw [if_neg (by rw [not_or]; exact ⟨hok, hcomplete⟩)]
      | ok result =>
          obtain ⟨written, next⟩ := result
          dsimp only
          rw [ih next]
          split
          · rw [List.append_assoc]
          · rfl

/-- What feeding in pieces has done at the end. -/
structure FedAllAs (decoder : HttpBodyDecoder) (data written : Bytes)
    (result : HttpBodyStatus × HttpBodyDecoder) : Prop where
  verdict : result.1 = decoder.verdict data
  wrote : written <+: (decoder.run data).2.2
  whole : result.1 = .complete → written = (decoder.run data).2.2 ∧
    result.2.decodedBytes = decoder.decodedBytes + written.length
  stopped : result.2.state = .complete ∨ result.2.state = .failed

theorem fedAllAs_finish (decoder : HttpBodyDecoder) : FedAllAs decoder [] [] decoder.finish := by
  unfold finish
  split
  · next hstate =>
      have hverdict : decoder.verdict [] = .complete := by
        unfold verdict run idle
        rw [hstate]
      exact ⟨hverdict.symm, List.nil_prefix, fun _ => ⟨rfl, rfl⟩, .inl hstate⟩
  · next hstate =>
      have hverdict : decoder.verdict [] = .invalidArgument := by
        unfold verdict run idle
        rw [hstate]
      exact ⟨hverdict.symm, List.nil_prefix, by rintro ⟨⟩, .inr hstate⟩
  · next hcomplete hfailed =>
      have hidle : decoder.idle = .ok := by
        unfold idle
        split
        · next hstate => exact absurd hstate hcomplete
        · next hstate => exact absurd hstate hfailed
        · rfl
      have hverdict : decoder.verdict [] = .truncated := by
        unfold verdict run
        rw [hidle]
      exact ⟨hverdict.symm, List.nil_prefix, by rintro ⟨⟩, .inr rfl⟩

/-- A piece that is taken, then the other pieces. -/
theorem FedAllAs.after {piece rest first written : Bytes}
    {result next : HttpBodyStatus × HttpBodyDecoder} (hfed : FedAs decoder piece first next)
    (hgoes : next.1 = .ok ∨ next.1 = .complete) (h : FedAllAs next.2 rest written result) :
    FedAllAs decoder (piece ++ rest) (first ++ written) result := by
  obtain ⟨hnext, hfirst⟩ := hfed.goes hgoes
  have hrun := decoder.run_append piece rest
  rw [hfed.status] at hgoes
  rw [if_pos hgoes, ← hnext, ← hfirst] at hrun
  have hverdict : decoder.verdict (piece ++ rest) = next.2.verdict rest := by
    unfold HttpBodyDecoder.verdict
    rw [hrun]
  constructor
  · rw [hverdict]
    exact h.verdict
  · rw [hrun]
    exact (List.prefix_append_right_inj first).mpr h.wrote
  · intro hcomplete
    obtain ⟨hwritten, hdecoded⟩ := h.whole hcomplete
    rw [hrun, hwritten, hdecoded, hfed.decoded, List.length_append, hwritten]
    exact ⟨rfl, by omega⟩
  · exact h.stopped

/-- A piece that fails. -/
theorem FedAs.failed {piece rest : Bytes} {next : HttpBodyStatus × HttpBodyDecoder}
    (h : FedAs decoder piece written next) (hgoes : ¬(next.1 = .ok ∨ next.1 = .complete)) :
    FedAllAs decoder (piece ++ rest) written next := by
  have hrun := decoder.run_append piece rest
  rw [if_neg (by rwa [← h.status])] at hrun
  rw [not_or] at hgoes
  have hverdict : next.1 = decoder.verdict (piece ++ rest) := by
    unfold verdict
    rw [hrun, ← h.status]
    split
    · next hok => exact absurd hok hgoes.1
    · rfl
  constructor
  · exact hverdict
  · rw [hrun]
    exact h.wrote
  · intro hcomplete
    exact absurd hcomplete hgoes.2
  · exact h.stops hgoes.1

/-- A decoder fed with the pieces of a stream ends as `run` does on the stream. -/
theorem feedAll_run (h : decoder.Sound) (pieces : List Bytes) (before : Bytes) :
    ∃ result written, Gives (decoder.feedAll pieces) before result (before ++ written) ∧
      FedAllAs decoder pieces.flatten written result := by
  induction pieces generalizing decoder before with
  | nil =>
      refine ⟨decoder.finish, [], ?_, fedAllAs_finish decoder⟩
      rw [List.append_nil]
      exact gives_pure _ _
  | cons piece pieces ih =>
      obtain ⟨next, first, hgives, hfed⟩ := @feedsAs_feed _ piece before h
      rw [List.flatten_cons]
      by_cases hgoes : next.1 = .ok ∨ next.1 = .complete
      · have hsound : next.2.Sound := by
          rw [(hfed.goes hgoes).1]
          exact (sound_run h piece).1
        obtain ⟨result, written, hrest, hall⟩ := ih hsound (before ++ first)
        refine ⟨result, first ++ written, ?_, hall.after hfed hgoes⟩
        rw [List.append_assoc] at hrest
        apply gives_bind hgives
        dsimp only
        rw [if_pos hgoes]
        exact hrest
      · refine ⟨next, first, ?_, hfed.failed hgoes⟩
        apply gives_bind hgives
        dsimp only
        rw [if_neg hgoes]
        exact gives_pure _ _

/-- A decoder that has stopped writes nothing more. -/
theorem feed_stopped (h : decoder.state = .complete ∨ decoder.state = .failed)
    (data before : Bytes) : ∃ status, Gives (decoder.feed acceptAll data) before
      (status, decoder) before := by
  unfold feed
  rcases h with h | h
  · rw [h]
    exact ⟨_, gives_pure _ _⟩
  · rw [h]
    exact ⟨_, gives_pure _ _⟩

/-- What a stream carries begins every body that goes on with the stream or begins it. -/
theorem prefix_of_chunked {capacity : Nat} {encoded body payload whole : Bytes}
    (h : Carried capacity encoded payload) (hbody : Chunked capacity body whole)
    {more more' : Bytes} (hsame : encoded ++ more = body ++ more') : payload <+: whole := by
  have hdigits : ∀ {digits : Bytes} {size : Nat}, ChunkSize capacity digits size →
      (0x0d : UInt8) ∉ digits := by
    intro digits size hsize hmem
    have := hexFrom_mem hsize.2.2 0x0d hmem
    rw [hexValue_cr] at this
    cases this
  induction h generalizing body whole with
  | nothing => exact List.nil_prefix
  | @part digits data rest size hsize hdata =>
      cases hbody with
      | @last digits' hsize' =>
          have hsplit : digits ++ 0x0d :: (0x0a :: (data ++ rest ++ more)) =
              digits' ++ 0x0d :: (0x0a :: (crlf ++ more')) := by
            simpa [crlf] using hsame
          obtain ⟨rfl, -⟩ := split_unique (hdigits hsize) (hdigits hsize') hsplit
          obtain rfl := hexFrom_unique hsize.2.2 hsize'.2.2
          have hnil : data = [] := List.length_eq_zero_iff.mp (by omega)
          exact hnil ▸ List.nil_prefix
      | @chunk digits' data' encoded' payload' hsize' hne hrest =>
          have hsplit : digits ++ 0x0d :: (0x0a :: (data ++ (rest ++ more))) =
              digits' ++ 0x0d :: (0x0a :: (data' ++ (crlf ++ encoded' ++ more'))) := by
            simpa [crlf] using hsame
          obtain ⟨rfl, htail⟩ := split_unique (hdigits hsize) (hdigits hsize') hsplit
          obtain rfl := hexFrom_unique hsize.2.2 hsize'.2.2
          have hdata' := (List.cons.inj htail).2
          have hinit : data <+: data' :=
            List.prefix_of_prefix_length_le ⟨_, hdata'⟩ ⟨_, rfl⟩ hdata
          exact hinit.trans (List.prefix_append data' payload')
  | @chunk digits data rest payload hsize hne hrest ih =>
      cases hbody with
      | @last digits' hsize' =>
          have hsplit : digits ++ 0x0d :: (0x0a :: (data ++ crlf ++ rest ++ more)) =
              digits' ++ 0x0d :: (0x0a :: (crlf ++ more')) := by
            simpa [crlf] using hsame
          obtain ⟨rfl, -⟩ := split_unique (hdigits hsize) (hdigits hsize') hsplit
          have hzero := hexFrom_unique hsize.2.2 hsize'.2.2
          exact absurd (List.length_eq_zero_iff.mp hzero) hne
      | @chunk digits' data' encoded' payload' hsize' hne' hrest' =>
          have hsplit : digits ++ 0x0d :: (0x0a :: (data ++ (crlf ++ (rest ++ more)))) =
              digits' ++ 0x0d :: (0x0a :: (data' ++ (crlf ++ (encoded' ++ more')))) := by
            simpa [crlf] using hsame
          obtain ⟨rfl, htail⟩ := split_unique (hdigits hsize) (hdigits hsize') hsplit
          have hlength := hexFrom_unique hsize.2.2 hsize'.2.2
          obtain ⟨rfl, hafter⟩ := List.append_inj (List.cons.inj htail).2 hlength
          have hmore := List.append_cancel_left hafter
          exact (List.prefix_append_right_inj data).mpr (ih hrest' hmore)

/-- What the bytes carry begins every body they begin, or that begins them. -/
theorem prefix_of_frames {head : HttpResponseHead}
    {body whole : Bytes} (h : head.Carries encoded payload) (hframes : head.Frames body whole)
    (hsame : encoded <+: body ∨ body <+: encoded) : payload <+: whole := by
  obtain ⟨more, more', hsame⟩ : ∃ more more', encoded ++ more = body ++ more' := by
    rcases hsame with ⟨more, rfl⟩ | ⟨more, rfl⟩
    · exact ⟨more, [], (List.append_nil _).symm⟩
    · exact ⟨[], more, List.append_nil _⟩
  unfold HttpResponseHead.Carries at h
  unfold HttpResponseHead.Frames at hframes
  split at h
  · next hchunked =>
      rw [if_pos hchunked] at hframes
      exact prefix_of_chunked h hframes.2 hsame
  · next hchunked =>
      rw [if_neg hchunked] at hframes
      obtain ⟨-, rfl, hlength⟩ := hframes
      obtain ⟨⟨rest, rfl⟩, hwithin⟩ := h
      rw [List.append_assoc] at hsame
      exact List.prefix_of_prefix_length_le ⟨_, hsame⟩ ⟨_, rfl⟩ (by omega)

/-! ## From the head -/

theorem sound_new (head : HttpResponseHead) (maximum : Nat) : (new head maximum).Sound :=
  ⟨valid_new head maximum, List.not_mem_nil⟩

/-- A new decoder waits for a body of its head, unless that is declared above the limit. -/
theorem awaits_new_iff {head : HttpResponseHead} {maximum : Nat}
    (hfits : payload.length ≤ maximum) :
    Awaits (new head maximum) encoded payload ↔ head.Frames encoded payload := by
  constructor
  · exact frames_of_awaits
  · unfold HttpResponseHead.Frames new Awaits
    cases hlength : head.hasContentLength <;> cases hchunked : head.chunked
    · simp
    · intro h
      simpa using h
    · simp only [Bool.false_eq_true, if_false, if_true]
      rintro ⟨-, rfl, hdeclared⟩
      have hwithin : ¬maximum < head.contentLength := by omega
      by_cases hzero : head.contentLength = 0
      · have hnil : encoded = [] := List.length_eq_zero_iff.mp (hdeclared.trans hzero)
        simp [hzero, hnil]
      · simp [hwithin, hzero, hdeclared]
    · simp

theorem carries_of_receives {head : HttpResponseHead} {maximum : Nat}
    (hframing : head.hasContentLength ≠ head.chunked)
    (h : Receives (new head maximum) encoded payload) : head.Carries encoded payload := by
  have hnothing : ∀ {head : HttpResponseHead}, head.Carries encoded [] := by
    intro head
    unfold HttpResponseHead.Carries
    split
    · exact .nothing encoded
    · exact ⟨List.nil_prefix, Nat.zero_le _⟩
  unfold new Receives at h
  cases hlength : head.hasContentLength <;> cases hchunked : head.chunked
  · rw [hlength, hchunked] at hframing
    exact absurd rfl hframing
  · rw [hlength, hchunked] at h
    unfold HttpResponseHead.Carries
    rw [hchunked]
    simpa using h
  · rw [hlength, hchunked] at h
    by_cases htoo : maximum < head.contentLength
    · obtain rfl : payload = [] := by simpa [htoo] using h
      exact hnothing
    by_cases hzero : head.contentLength = 0
    · obtain rfl : payload = [] := by simpa [hzero] using h
      exact hnothing
    unfold HttpResponseHead.Carries
    rw [hchunked]
    simpa [htoo, hzero] using h
  · rw [hlength, hchunked] at hframing
    exact absurd rfl hframing

/-- Bytes fed to a new decoder: what the verdict says of them, and what was written. -/
structure Decoded (head : HttpResponseHead) (maximum : Nat) (data written : Bytes)
    (status : HttpBodyStatus) (decoder : HttpBodyDecoder) : Prop where
  complete : status = .complete ↔
    ∃ payload, head.Frames data payload ∧ payload.length ≤ maximum
  body : status = .complete → head.Frames data written ∧ decoder.decodedBytes = written.length
  carries : head.Carries data written
  begins : ∀ encoded payload, head.Frames encoded payload →
    data <+: encoded ∨ encoded <+: data → written <+: payload
  limit : written.length ≤ maximum
  closed : ∀ more before, ∃ status, Gives (decoder.feed acceptAll more) before
    (status, decoder) before

theorem decoded_of_fedAllAs {head : HttpResponseHead} {maximum : Nat} {data : Bytes}
    {result : HttpBodyStatus × HttpBodyDecoder}
    (hframing : head.hasContentLength ≠ head.chunked) (hmaximum : maximum < 2 ^ 64)
    (h : FedAllAs (new head maximum) data written result) :
    Decoded head maximum data written result.1 result.2 := by
  obtain ⟨hiff, hbody⟩ := run_complete_iff (sound_new head maximum) hmaximum data
  obtain ⟨hreceives, hroom⟩ := run_receives (sound_new head maximum) data
  have hverdict : result.1 = .complete ↔ ((new head maximum).run data).1 = .complete := by
    rw [h.verdict, verdict]
    split
    · next hok => rw [hok]; exact ⟨nofun, nofun⟩
    · exact Iff.rfl
  have hlength := h.wrote.length_le
  have hmaximum' : (new head maximum).maximumBodyBytes = maximum := rfl
  have hdecoded : (new head maximum).decodedBytes = 0 := rfl
  rw [hmaximum', hdecoded, Nat.zero_add] at hroom
  constructor
  · rw [hverdict, hiff]
    constructor
    · rintro ⟨payload, hawaits, hfits⟩
      rw [hmaximum', hdecoded, Nat.zero_add] at hfits
      exact ⟨payload, (awaits_new_iff hfits).mp hawaits, hfits⟩
    · rintro ⟨payload, hframes, hfits⟩
      refine ⟨payload, (awaits_new_iff hfits).mpr hframes, ?_⟩
      rw [hmaximum', hdecoded, Nat.zero_add]
      exact hfits
  · intro hcomplete
    obtain ⟨hwritten, hcount⟩ := h.whole hcomplete
    rw [hdecoded, Nat.zero_add] at hcount
    rw [hwritten] at hcount ⊢
    exact ⟨frames_of_awaits (hbody (hverdict.mp hcomplete)), hcount⟩
  · exact carries_of_receives hframing (receives_of_isPrefix hreceives h.wrote)
  · intro encoded payload hframes hsame
    have hcarries := carries_of_receives hframing (receives_of_isPrefix hreceives h.wrote)
    exact prefix_of_frames hcarries hframes hsame
  · omega
  · intro more before
    exact feed_stopped h.stopped more before

/-- **The decoder is exact, however its input is cut.**  The verdict is that on the whole stream
in one piece; it is complete exactly on the bodies the head frames within the limit, and then the
body is what was written; otherwise what was written is what the stream carries of one, and
nothing is written later. -/
theorem feedAll_exact (head : HttpResponseHead) (maximum : Nat)
    (hframing : head.hasContentLength ≠ head.chunked) (hmaximum : maximum < 2 ^ 64)
    (pieces : List Bytes) :
    ∃ status decoder written,
      ((new head maximum).feedAll pieces).run [] = ((status, decoder), written) ∧
      (((new head maximum).feedAll [pieces.flatten]).run []).1.1 = status ∧
      Decoded head maximum pieces.flatten written status decoder := by
  obtain ⟨result, written, hgives, hfed⟩ := feedAll_run (sound_new head maximum) pieces []
  obtain ⟨whole, written', hwhole, hfed'⟩ :=
    feedAll_run (sound_new head maximum) [pieces.flatten] []
  refine ⟨result.1, result.2, written, hgives, ?_, decoded_of_fedAllAs hframing hmaximum hfed⟩
  rw [hwhole, hfed.verdict, hfed'.verdict, List.flatten_singleton]

/-- A chunk cut in its data: the pieces give the body of the stream. -/
theorem feedAll_exact_cutChunk :
    let head : HttpResponseHead :=
      { statusCode := 200, hasContentLength := false, contentLength := 0, chunked := true
        connectionClose := true, location := [], contentType := [] }
    let pieces := [bytesOf "3" ++ crlf ++ bytesOf "ab", bytesOf "c" ++ crlf ++ bytesOf "0" ++ crlf,
      crlf]
    head.hasContentLength ≠ head.chunked ∧ 3 < 2 ^ 64 ∧
      ∃ status decoder written,
        ((new head 3).feedAll pieces).run [] = ((status, decoder), written) ∧
        (((new head 3).feedAll [pieces.flatten]).run []).1.1 = status ∧
        Decoded head 3 pieces.flatten written status decoder :=
  ⟨by decide, by decide, feedAll_exact _ 3 (by decide) (by decide) _⟩

end HttpBodyDecoder

end Https

end BmxUpdate
