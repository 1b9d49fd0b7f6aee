import BmxUpdate.Library.Trace
import BmxUpdate.Zip.Reader

/-!
# Searching for a signature

`ContainsSignature` and `FindLastSignature` (`zip_reader.cpp`) as they work on
their buffer of 4096 + 3 bytes.  Every computation of an offset or an index and
every access to the buffer is a test here: one that leaves its range ends the
search with a fault of its own.

* `searchContains_eq` and `searchLast_eq`: no such fault occurs.  The searches
  are those that `Open` makes on lists of bytes.
* `runs_containsSignature` and `runs_findLastSignature`: a search finds what
  stands in its range, wherever the reads end.
-/

namespace BmxUpdate

namespace Zip

open Wire Interaction
open Program (Runs)

/-! ## The searches on their buffer -/

/-- What can end a search: its arguments, an offset or index outside its type, an access
outside the buffer, or the source. -/
inductive SearchFault where
  | invalidArgument | arithmetic | buffer | source
deriving DecidableEq, Repr

abbrev SearchProc := Fallible ZipOp ZipAnswer SearchFault

def kSearchBufferBytes : Nat := 4096 + 3

/-- `left - right` of unsigned words. -/
def minus (left right : Nat) : SearchProc Nat := do
  Fallible.check (right ≤ left) .arithmetic
  return left - right

/-- `left + right` of unsigned words of `width` bits. -/
def plus (width left right : Nat) : SearchProc Nat := do
  Fallible.check (left + right < 2 ^ width) .arithmetic
  return left + right

/-- `source->ReadAt(offset, buffer + kept, amount)` -/
def readBehind (buffer : Bytes) (kept offset amount : Nat) : SearchProc Bytes := do
  Fallible.check (kept + amount ≤ buffer.length) .buffer
  let chunk ← Fallible.rename (fun _ => SearchFault.source) (readAt offset amount)
  return buffer.take kept ++ chunk ++ buffer.drop (kept + amount)

/-- The indices, `index + 4U <= available`, at which `memcmp` finds the signature. -/
def signatureIndices (signature buffer : Bytes) (available : Nat) : List Nat :=
  (List.range (available - 3)).filter fun index => slice index 4 buffer = signature

/-- The last bytes of a round to the front of the buffer, and how many they are. -/
def keepBytes (buffer : Bytes) (available : Nat) : SearchProc (Bytes × Nat) := do
  let kept := if available < 3 then available else 3
  if kept ≠ 0 then do
    let origin ← minus available kept
    Fallible.check (origin + kept ≤ buffer.length) .buffer
    return (slice origin kept buffer ++ buffer.drop kept, kept)
  else return (buffer, kept)

/-- The loop of `ContainsSignature`. -/
def containsLoop (signature : Bytes) (stop : Nat) : Nat → Bytes → Nat → Nat → SearchProc Bool
  | 0, _, _, _ => return false
  | rounds + 1, buffer, kept, offset => do
      if offset < stop then do
        let remaining ← minus stop offset
        let amount := if remaining < 4096 then remaining else 4096
        let buffer ← readBehind buffer kept offset amount
        let available ← plus 32 kept amount
        if signatureIndices signature buffer available ≠ [] then return true
        else do
          let (buffer, kept) ← keepBytes buffer available
          let offset ← plus 64 offset amount
          containsLoop signature stop rounds buffer kept offset
      else return false

/-- `ContainsSignature`, on a buffer that holds anything. -/
def searchContains (buffer : Block kSearchBufferBytes) (start stop : Nat) (signature : Bytes) :
    SearchProc Bool := do
  Fallible.check (start ≤ stop) .invalidArgument
  containsLoop signature stop (stop - start) buffer.bytes 0 start

/-- `*last_offset = offset - prefix + index` at every match in turn. -/
def lastOffset (offset kept : Nat) : List Nat → Option Nat → SearchProc (Option Nat)
  | [], found => return found
  | index :: rest, _ => do
      let origin ← minus offset kept
      let position ← plus 64 origin index
      lastOffset offset kept rest (some position)

/-- The loop of `FindLastSignature`. -/
def lastLoop (signature : Bytes) (stop : Nat) :
    Nat → Bytes → Nat → Nat → Option Nat → SearchProc (Option Nat)
  | 0, _, _, _, found => return found
  | rounds + 1, buffer, kept, offset, found => do
      if offset < stop then do
        let remaining ← minus stop offset
        let amount := if remaining < 4096 then remaining else 4096
        let buffer ← readBehind buffer kept offset amount
        let available ← plus 32 kept amount
        let found ← lastOffset offset kept (signatureIndices signature buffer available) found
        let (buffer, kept) ← keepBytes buffer available
        let offset ← plus 64 offset amount
        lastLoop signature stop rounds buffer kept offset found
      else return found

/-- `FindLastSignature`, on a buffer that holds anything. -/
def searchLast (buffer : Block kSearchBufferBytes) (start stop : Nat) (signature : Bytes) :
    SearchProc (Option Nat) := do
  Fallible.check (start ≤ stop) .invalidArgument
  lastLoop signature stop (stop - start) buffer.bytes 0 start none

/-! ## No fault -/

theorem minus_of_le {left right : Nat} (h : right ≤ left) :
    minus left right = pure (left - right) := by
  unfold minus
  rw [Fallible.check_of h]
  rfl

theorem plus_of_lt {width left right : Nat} (h : left + right < 2 ^ width) :
    plus width left right = pure (left + right) := by
  unfold plus
  rw [Fallible.check_of h]
  rfl

/-- A program whose errors are all the source's. -/
def fromSource {α : Type} (p : ZipProc α) : SearchProc α :=
  Fallible.rename (fun _ => SearchFault.source) p

section Rounds

variable {α : Type} {signature buffer : Bytes} {kept offset amount available stop : Nat}

/-- What the buffer holds after a read. -/
def filled (buffer chunk : Bytes) (kept : Nat) : Bytes :=
  buffer.take kept ++ chunk ++ buffer.drop (kept + chunk.length)

theorem readBehind_bind {k : Bytes → SearchProc α} {k' : Bytes → ZipProc α}
    (hroom : kept + amount ≤ buffer.length)
    (hk : ∀ block : Block amount,
      k (filled buffer block.bytes kept) = fromSource (k' block.bytes)) :
    readBehind buffer kept offset amount >>= k =
      fromSource (readAt offset amount >>= k') := by
  unfold readBehind
  rw [Fallible.check_of hroom]
  refine congrArg (Program.call (ZipOp.readAt offset amount)) (funext fun x => ?_)
  cases x with
  | none => rfl
  | some block =>
      have hblock := hk block
      unfold filled at hblock
      rw [block.length_bytes] at hblock
      exact hblock

theorem length_filled {chunk : Bytes} (hroom : kept + chunk.length ≤ buffer.length) :
    (filled buffer chunk kept).length = buffer.length := by
  unfold filled
  rw [List.length_append, List.length_append, List.length_take, List.length_drop]
  omega

theorem take_filled {chunk : Bytes} (hroom : kept + chunk.length ≤ buffer.length) :
    (filled buffer chunk kept).take (kept + chunk.length) = buffer.take kept ++ chunk := by
  unfold filled
  apply List.take_left'
  rw [List.length_append, List.length_take]
  omega

theorem slice_take {index n : Nat} {bytes : Bytes} (h : index + n ≤ available) :
    slice index n (bytes.take available) = slice index n bytes := by
  unfold slice
  rw [List.drop_take, List.take_take]
  congr 1
  omega

/-- The matches in the buffer are those in the bytes that were read into it. -/
theorem signatureIndices_eq (h : available ≤ buffer.length) :
    signatureIndices signature buffer available =
      signatureMatches signature (buffer.take available) := by
  unfold signatureIndices signatureMatches
  rw [List.length_take, Nat.min_eq_left h]
  apply List.filter_congr
  intro index hindex
  have hindex := List.mem_range.mp hindex
  rw [slice_take (by omega)]

theorem keepBytes_eq (h : available ≤ buffer.length) :
    ∃ buffer', keepBytes buffer available = pure (buffer', min 3 available) ∧
      buffer'.length = buffer.length ∧
      buffer'.take (min 3 available) = keptTail (buffer.take available) := by
  have hkept : (if available < 3 then available else 3) = min 3 available := by
    split <;> omega
  have htail : keptTail (buffer.take available) =
      slice (available - min 3 available) (min 3 available) buffer := by
    unfold keptTail slice
    rw [List.length_take, Nat.min_eq_left h, List.drop_take]
    congr 1
    omega
  unfold keepBytes
  rw [hkept]
  dsimp only
  split
  · refine ⟨slice (available - min 3 available) (min 3 available) buffer ++
      buffer.drop (min 3 available), ?_, ?_, ?_⟩
    · rw [minus_of_le (Nat.min_le_right _ _)]
      show (Fallible.check _ _ >>= fun _ => _) = _
      rw [Fallible.check_of (by omega)]
      rfl
    · rw [List.length_append, length_slice (by omega), List.length_drop]
      omega
    · rw [List.take_left' (length_slice (by omega)), htail]
  · next hzero =>
      have hzero : min 3 available = 0 := Decidable.not_not.mp hzero
      refine ⟨buffer, by rw [hzero], rfl, ?_⟩
      rw [htail, hzero]
      rfl

/-- The matches of one round are at offsets that exist. -/
theorem lastOffset_eq {indices : List Nat} {found : Option Nat} (hkept : kept ≤ offset)
    (hindices : ∀ index ∈ indices, offset - kept + index < 2 ^ 64) :
    lastOffset offset kept indices found =
      pure ((indices.getLast?.map (offset - kept + ·)).or found) := by
  induction indices generalizing found with
  | nil => rfl
  | cons index rest ih =>
      unfold lastOffset
      rw [minus_of_le hkept]
      show (plus 64 (offset - kept) index >>= fun _ => _) = _
      rw [plus_of_lt (hindices index List.mem_cons_self)]
      show lastOffset offset kept rest _ = _
      rw [ih fun i hi => hindices i (List.mem_cons_of_mem _ hi)]
      cases rest with
      | nil => rfl
      | cons next rest => rfl

theorem amount_eq : (if stop - offset < 4096 then stop - offset else 4096) =
    min (stop - offset) 4096 := by
  split <;> omega

/-- What one round leaves for the next. -/
theorem filled_round {chunk : Bytes} (hbuffer : buffer.length = kSearchBufferBytes)
    (hkept : kept ≤ 3) (hchunk : chunk.length = amount) (hamount : amount ≤ 4096) :
    plus 32 kept amount = pure (kept + amount) ∧
      (filled buffer chunk kept).length = kSearchBufferBytes ∧
      kept + amount ≤ (filled buffer chunk kept).length ∧
      (filled buffer chunk kept).take (kept + amount) = buffer.take kept ++ chunk := by
  have hroom : kept + chunk.length ≤ buffer.length := by
    rw [hbuffer]
    unfold kSearchBufferBytes
    omega
  have hlength := (length_filled hroom).trans hbuffer
  refine ⟨plus_of_lt (by omega), hlength, ?_, hchunk ▸ take_filled hroom⟩
  rw [hlength]
  unfold kSearchBufferBytes
  omega

theorem containsLoop_eq {rounds : Nat} (hbuffer : buffer.length = kSearchBufferBytes)
    (hkept : kept ≤ 3) (hstop : stop < 2 ^ 64) :
    containsLoop signature stop rounds buffer kept offset =
      fromSource (containsSignatureFrom signature stop rounds offset (buffer.take kept)) := by
  induction rounds generalizing buffer kept offset with
  | zero => rfl
  | succ rounds ih =>
      unfold containsLoop containsSignatureFrom
      split
      · next hoffset =>
          rw [minus_of_le (Nat.le_of_lt hoffset)]
          show (readBehind buffer kept offset _ >>= fun _ => _) = _
          rw [amount_eq]
          have hroom : kept + min (stop - offset) 4096 ≤ buffer.length := by
            rw [hbuffer]
            unfold kSearchBufferBytes
            omega
          refine readBehind_bind hroom ?_
          intro block
          obtain ⟨hplus, hlength, havailable, htake⟩ := filled_round hbuffer hkept
            block.length_bytes (Nat.min_le_right _ _)
          rw [hplus]
          show (if signatureIndices _ _ _ ≠ [] then _ else _) = _
          rw [signatureIndices_eq havailable, htake]
          dsimp only
          split
          · rfl
          · obtain ⟨buffer', hkeep, hlength', htake'⟩ := keepBytes_eq havailable
            rw [hkeep]
            show (plus 64 offset _ >>= fun _ => _) = _
            rw [plus_of_lt (by omega)]
            show containsLoop signature stop rounds buffer' _ _ = _
            rw [ih (hlength'.trans hlength) (Nat.min_le_left _ _), htake', htake]
      · rfl

theorem lastLoop_eq {rounds : Nat} {found : Option Nat}
    (hbuffer : buffer.length = kSearchBufferBytes) (hkept : kept ≤ 3) (hoffset : kept ≤ offset)
    (hstop : stop < 2 ^ 64) :
    lastLoop signature stop rounds buffer kept offset found =
      fromSource
        (findLastSignatureFrom signature stop rounds offset (buffer.take kept) found) := by
  induction rounds generalizing buffer kept offset found with
  | zero => rfl
  | succ rounds ih =>
      unfold lastLoop findLastSignatureFrom
      split
      · next hbelow =>
          rw [minus_of_le (Nat.le_of_lt hbelow)]
          show (readBehind buffer kept offset _ >>= fun _ => _) = _
          rw [amount_eq]
          have hroom : kept + min (stop - offset) 4096 ≤ buffer.length := by
            rw [hbuffer]
            unfold kSearchBufferBytes
            omega
          have htaken : (buffer.take kept).length = kept := by
            rw [List.length_take]
            omega
          refine readBehind_bind hroom ?_
          intro block
          obtain ⟨hplus, hlength, havailable, htake⟩ := filled_round hbuffer hkept
            block.length_bytes (Nat.min_le_right _ _)
          have hindices : ∀ index ∈ signatureIndices signature (filled buffer block.bytes kept)
              (kept + min (stop - offset) 4096), offset - kept + index < 2 ^ 64 := by
            intro index hindex
            have hindex := List.mem_range.mp (List.mem_filter.mp hindex).1
            omega
          rw [hplus]
          show (lastOffset offset kept (signatureIndices _ _ _) found >>= fun _ => _) = _
          rw [lastOffset_eq hoffset hindices, signatureIndices_eq havailable, htake]
          obtain ⟨buffer', hkeep, hlength', htake'⟩ := keepBytes_eq havailable
          show (keepBytes _ _ >>= fun _ => _) = _
          rw [hkeep]
          show (plus 64 offset _ >>= fun _ => _) = _
          rw [plus_of_lt (by omega)]
          show lastLoop signature stop rounds buffer' _ _ _ = _
          rw [ih (hlength'.trans hlength) (Nat.min_le_left _ _) (by omega), htake', htake]
          dsimp only
          rw [htaken]
      · rfl

end Rounds

/-- No computation of `ContainsSignature` leaves its range: it is the search of `Open`. -/
theorem searchContains_eq {start stop : Nat} (hrange : start ≤ stop) (hstop : stop < 2 ^ 64)
    (buffer : Block kSearchBufferBytes) (signature : Bytes) :
    searchContains buffer start stop signature =
      fromSource (containsSignature start stop signature) := by
  unfold searchContains containsSignature
  rw [Fallible.check_of hrange, Fallible.check_of hrange]
  exact containsLoop_eq buffer.length_bytes (Nat.zero_le 3) hstop

/-- No computation of `FindLastSignature` leaves its range: it is the search of `Open`. -/
theorem searchLast_eq {start stop : Nat} (hrange : start ≤ stop) (hstop : stop < 2 ^ 64)
    (buffer : Block kSearchBufferBytes) (signature : Bytes) :
    searchLast buffer start stop signature =
      fromSource (findLastSignature start stop signature) := by
  unfold searchLast findLastSignature
  rw [Fallible.check_of hrange, Fallible.check_of hrange]
  exact lastLoop_eq buffer.length_bytes (Nat.zero_le 3) (Nat.zero_le start) hstop

/-! ## What a search finds -/

/-- The signature stands at `offset`, inside the range. -/
def SignatureAt (bytes signature : Bytes) (start stop offset : Nat) : Prop :=
  start ≤ offset ∧ offset + 4 ≤ stop ∧ slice offset 4 bytes = signature

/-- The last place of the signature in the range, if it has one. -/
def LastSignatureAt (bytes signature : Bytes) (start stop : Nat) : Option Nat → Prop
  | none => ∀ offset, ¬SignatureAt bytes signature start stop offset
  | some last => SignatureAt bytes signature start stop last ∧
      ∀ offset, SignatureAt bytes signature start stop offset → offset ≤ last

/-- An answer of a source that holds `bytes`. -/
def ServedFrom (bytes : Bytes) : Event ZipOp ZipAnswer → Prop
  | ⟨.getSize, x⟩ => ∀ size, (x : Option UInt64) = some size → size.toNat = bytes.length
  | ⟨.readAt offset n, x⟩ =>
      ∀ block, (x : Option (Block n)) = some block → block.bytes = slice offset n bytes

/-- A read of bytes of the range only. -/
def ReadsWithin (start stop : Nat) : Event ZipOp ZipAnswer → Prop
  | ⟨.getSize, _⟩ => False
  | ⟨.readAt offset n, _⟩ => start ≤ offset ∧ offset + n ≤ stop

/-- The source failed. -/
def SourceFailed : Event ZipOp ZipAnswer → Prop
  | ⟨.getSize, x⟩ => (x : Option UInt64) = none
  | ⟨.readAt _ n, x⟩ => (x : Option (Block n)) = none

/-- A search that reads its range only, and ends in `Q` or with a read that failed. -/
structure SearchRun {α ε : Type} (start stop : Nat) (t : List (Event ZipOp ZipAnswer))
    (r : Except ε α) (Q : α → Prop) : Prop where
  within : ∀ e ∈ t, ReadsWithin start stop e
  result : match r with
    | .ok found => Q found ∧ ∀ e ∈ t, ¬SourceFailed e
    | .error _ => ∃ e ∈ t, SourceFailed e

section Searches

variable {bytes signature kept : Bytes} {start stop offset : Nat}
  {t : List (Event ZipOp ZipAnswer)}

theorem runs_readRange {α : Type} {n : Nat} {k : Bytes → ZipProc α} {r : Except ZipStatus α} :
    Runs (readAt offset n >>= k).run t r ↔
      (∃ (block : Block n) (u : List (Event ZipOp ZipAnswer)),
        t = ⟨.readAt offset n, some block⟩ :: u ∧ Runs (k block.bytes).run u r) ∨
      (t = [⟨.readAt offset n, (none : Option (Block n))⟩] ∧ r = .error .sourceIo) := by
  constructor
  · intro h
    obtain ⟨x, u, rfl, hrest⟩ := Program.runs_call.mp h
    cases x with
    | some block => exact Or.inl ⟨block, u, rfl, hrest⟩
    | none =>
        cases hrest
        exact Or.inr ⟨rfl, rfl⟩
  · rintro (⟨block, u, rfl, h⟩ | ⟨rfl, rfl⟩)
    · exact Program.runs_call.mpr ⟨_, _, rfl, h⟩
    · exact Program.runs_call.mpr ⟨_, _, rfl, .pure _⟩

theorem SearchRun.pure {α ε : Type} {Q : α → Prop} {a : α} (h : Q a) :
    SearchRun start stop [] (.ok a : Except ε α) Q :=
  ⟨nofun, h, nofun⟩

theorem SearchRun.failed {α ε : Type} {Q : α → Prop} {n : Nat} {e : ε} (hstart : start ≤ offset)
    (hstop : offset + n ≤ stop) :
    SearchRun start stop [⟨.readAt offset n, (none : Option (Block n))⟩]
      (.error e : Except ε α) Q := by
  refine ⟨?_, _, List.mem_cons_self, rfl⟩
  intro e he
  rw [List.mem_singleton.mp he]
  exact ⟨hstart, hstop⟩

/-- A read of the range, then the rest of the search. -/
theorem SearchRun.read {α ε : Type} {Q : α → Prop} {n : Nat} {block : Block n}
    {r : Except ε α} (hstart : start ≤ offset) (hstop : offset + n ≤ stop)
    (h : SearchRun start stop t r Q) :
    SearchRun start stop (⟨.readAt offset n, some block⟩ :: t) r Q := by
  refine ⟨List.forall_mem_cons.mpr ⟨⟨hstart, hstop⟩, h.within⟩, ?_⟩
  have hresult := h.result
  cases r with
  | ok found => exact ⟨hresult.1, List.forall_mem_cons.mpr ⟨nofun, hresult.2⟩⟩
  | error e =>
      obtain ⟨e, he, hfailed⟩ := hresult
      exact ⟨e, List.mem_cons_of_mem _ he, hfailed⟩

/-! ### One window -/

/-- What a round keeps of the bytes before `offset`: the last three of the range. -/
structure KeptFrom (bytes : Bytes) (start offset : Nat) (kept : Bytes) : Prop where
  start_le : start ≤ offset
  length : kept.length = min 3 (offset - start)
  bytes : kept = slice (offset - kept.length) kept.length bytes

theorem keptFrom_start : KeptFrom bytes start start [] :=
  ⟨Nat.le_refl start, by simp, by simp [slice]⟩

/-- The window of one round is a part of the source. -/
theorem KeptFrom.window {n : Nat} (h : KeptFrom bytes start offset kept) :
    kept ++ slice offset n bytes =
      slice (offset - kept.length) (kept.length + n) bytes := by
  have hlength := h.length
  have hstart := h.start_le
  calc kept ++ slice offset n bytes
      = slice (offset - kept.length) kept.length bytes ++ slice offset n bytes := by
        rw [← h.bytes]
    _ = slice (offset - kept.length) (kept.length + n) bytes :=
        slice_append_slice (by omega) bytes

theorem KeptFrom.next {n : Nat} (h : KeptFrom bytes start offset kept)
    (hread : (slice offset n bytes).length = n) :
    KeptFrom bytes start (offset + n) (keptTail (kept ++ slice offset n bytes)) := by
  have hlength := h.length
  have hstart := h.start_le
  have hwindow : (kept ++ slice offset n bytes).length = kept.length + n := by
    rw [List.length_append, hread]
  have htail : (keptTail (kept ++ slice offset n bytes)).length = min 3 (kept.length + n) := by
    unfold keptTail
    rw [List.length_drop, hwindow]
    omega
  refine ⟨by omega, by omega, ?_⟩
  rw [htail]
  unfold keptTail
  rw [hwindow, h.window]
  unfold slice
  rw [List.drop_take, List.drop_drop]
  congr 2 <;> omega

/-- The matches of a window are the places of the signature in it. -/
theorem mem_signatureMatches {origin n index : Nat} {window : Bytes}
    (hwindow : window = slice origin n bytes) (hlength : window.length = n) :
    index ∈ signatureMatches signature window ↔
      SignatureAt bytes signature origin (origin + n) (origin + index) := by
  have hslice : ∀ i, i + 4 ≤ n → slice i 4 window = slice (origin + i) 4 bytes := by
    intro i hi
    rw [hwindow]
    unfold slice
    rw [List.drop_take, List.take_take, List.drop_drop]
    congr 1
    omega
  unfold signatureMatches SignatureAt
  rw [List.mem_filter, List.mem_range, decide_eq_true_eq, hlength]
  constructor
  · rintro ⟨hindex, hmatch⟩
    exact ⟨by omega, by omega, by rw [← hslice index (by omega), hmatch]⟩
  · rintro ⟨-, hindex, hmatch⟩
    exact ⟨by omega, by rw [hslice index (by omega), hmatch]⟩

/-- A place of the signature that ends after `offset` lies in the window. -/
theorem SignatureAt.in_window {position last : Nat} (h : KeptFrom bytes start offset kept)
    (hat : SignatureAt bytes signature start last position) (hafter : offset < position + 4) :
    SignatureAt bytes signature (offset - kept.length) last position := by
  have hlength := h.length
  obtain ⟨hstart, hlast, hmatch⟩ := hat
  exact ⟨by omega, hlast, hmatch⟩

theorem SignatureAt.widen {start' stop' position : Nat}
    (hat : SignatureAt bytes signature start stop position) (hstart : start' ≤ start)
    (hstop : stop ≤ stop') : SignatureAt bytes signature start' stop' position := by
  obtain ⟨hfrom, hto, hmatch⟩ := hat
  exact ⟨by omega, by omega, hmatch⟩

/-- A match of the window, as a place of the range. -/
theorem KeptFrom.found {n index : Nat} (h : KeptFrom bytes start offset kept)
    (hread : (slice offset n bytes).length = n)
    (hindex : index ∈ signatureMatches signature (kept ++ slice offset n bytes)) :
    SignatureAt bytes signature start (offset + n) (offset - kept.length + index) := by
  have hlength := h.length
  have hstart := h.start_le
  have hat := (mem_signatureMatches h.window (by rw [List.length_append, hread])).mp hindex
  exact hat.widen (by omega) (by omega)

/-- A place of the range that ends after `offset` is a match of the window. -/
theorem KeptFrom.complete {n position : Nat} (h : KeptFrom bytes start offset kept)
    (hread : (slice offset n bytes).length = n)
    (hat : SignatureAt bytes signature start (offset + n) position)
    (hafter : offset < position + 4) :
    ∃ index ∈ signatureMatches signature (kept ++ slice offset n bytes),
      position = offset - kept.length + index := by
  have hlength := h.length
  have hstart := h.start_le
  have hinside := hat.in_window h hafter
  have hposition : position = offset - kept.length + (position - (offset - kept.length)) := by
    have hfrom := hinside.1
    omega
  refine ⟨position - (offset - kept.length), ?_, hposition⟩
  rw [mem_signatureMatches h.window (by rw [List.length_append, hread]), ← hposition]
  exact hinside.widen (Nat.le_refl _) (by omega)

/-! ### The loops -/

theorem found_nowhere
    (hbefore : ∀ position, ¬SignatureAt bytes signature start offset position)
    (hend : offset = stop) :
    false = true ↔ ∃ position, SignatureAt bytes signature start stop position := by
  subst hend
  exact ⟨nofun, fun ⟨position, hat⟩ => absurd hat (hbefore position)⟩

theorem runs_containsSignatureFrom {rounds : Nat} {r : Except ZipStatus Bool}
    (hkept : KeptFrom bytes start offset kept)
    (hbefore : ∀ position, ¬SignatureAt bytes signature start offset position)
    (hoffset : offset ≤ stop) (hrounds : stop - offset ≤ rounds)
    (hserved : ∀ e ∈ t, ServedFrom bytes e)
    (h : Runs (containsSignatureFrom signature stop rounds offset kept).run t r) :
    SearchRun start stop t r fun found =>
      found = true ↔ ∃ position, SignatureAt bytes signature start stop position := by
  induction rounds generalizing offset kept t with
  | zero =>
      obtain ⟨rfl, rfl⟩ := Program.runs_pure.mp h
      exact .pure (found_nowhere hbefore (by omega))
  | succ rounds ih =>
      unfold containsSignatureFrom at h
      split at h
      · next hbelow =>
          have hstart := hkept.start_le
          obtain ⟨block, u, rfl, hrest⟩ | ⟨rfl, rfl⟩ := runs_readRange.mp h
          · obtain ⟨hread, hserved⟩ := List.forall_mem_cons.mp hserved
            have hread : block.bytes = slice offset _ bytes := hread block rfl
            have hlength := block.length_bytes
            rw [hread] at hlength hrest
            refine .read hstart (by omega) ?_
            dsimp only at hrest
            split at hrest
            · next hmatches =>
                obtain ⟨rfl, rfl⟩ := Program.runs_pure.mp hrest
                obtain ⟨index, hindex⟩ := List.exists_mem_of_ne_nil _ hmatches
                have hat := hkept.found hlength hindex
                exact .pure ⟨fun _ => ⟨_, hat.widen (Nat.le_refl _) (by omega)⟩, fun _ => rfl⟩
            · next hmatches =>
                have hmatches := Decidable.not_not.mp hmatches
                have hafter : ∀ position, ¬SignatureAt bytes signature start
                    (offset + min (stop - offset) 4096) position := by
                  intro position hat
                  by_cases hbehind : offset < position + 4
                  · obtain ⟨index, hindex, -⟩ := hkept.complete hlength hat hbehind
                    rw [hmatches] at hindex
                    cases hindex
                  · exact hbefore position ⟨hat.1, by omega, hat.2.2⟩
                exact ih (hkept.next hlength) hafter (by omega) (by omega) hserved hrest
          · exact .failed hstart (by omega)
      · obtain ⟨rfl, rfl⟩ := Program.runs_pure.mp h
        exact .pure (found_nowhere hbefore (by omega))

/-- The last match of a window. -/
theorem getLast?_signatureMatches (window : Bytes) :
    match (signatureMatches signature window).getLast? with
    | none => signatureMatches signature window = []
    | some last => last ∈ signatureMatches signature window ∧
        ∀ index ∈ signatureMatches signature window, index ≤ last := by
  have hsorted : (signatureMatches signature window).Pairwise (· < ·) :=
    List.pairwise_lt_range.filter _
  generalize signatureMatches signature window = found at hsorted
  split
  · next hlast => exact List.getLast?_eq_none_iff.mp hlast
  · next last hlast =>
      obtain ⟨front, rfl⟩ := List.getLast?_eq_some_iff.mp hlast
      refine ⟨List.mem_append_right _ List.mem_cons_self, ?_⟩
      intro index hindex
      obtain hindex | hindex := List.mem_append.mp hindex
      · have hbelow := (List.pairwise_append.mp hsorted).2.2 index hindex last List.mem_cons_self
        omega
      · rw [List.mem_singleton.mp hindex]

/-- What one round of `FindLastSignature` does to the last place so far. -/
theorem lastSignatureAt_round {n : Nat} {found : Option Nat}
    (hkept : KeptFrom bytes start offset kept) (hread : (slice offset n bytes).length = n)
    (hfound : LastSignatureAt bytes signature start offset found) :
    LastSignatureAt bytes signature start (offset + n)
      (((signatureMatches signature (kept ++ slice offset n bytes)).getLast?.map
        (offset - kept.length + ·)).or found) := by
  have hlast := @getLast?_signatureMatches signature (kept ++ slice offset n bytes)
  cases hmatch : (signatureMatches signature (kept ++ slice offset n bytes)).getLast? with
  | none =>
      rw [hmatch] at hlast
      have hbefore : ∀ position, SignatureAt bytes signature start (offset + n) position →
          SignatureAt bytes signature start offset position := by
        intro position hat
        by_cases hbehind : offset < position + 4
        · obtain ⟨index, hindex, -⟩ := hkept.complete hread hat hbehind
          rw [hlast] at hindex
          cases hindex
        · exact ⟨hat.1, by omega, hat.2.2⟩
      cases found with
      | none => exact fun position hat => hfound position (hbefore position hat)
      | some last =>
          exact ⟨hfound.1.widen (Nat.le_refl _) (by omega),
            fun position hat => hfound.2 position (hbefore position hat)⟩
  | some last =>
      rw [hmatch] at hlast
      have hat := hkept.found hread hlast.1
      refine ⟨hat, ?_⟩
      intro position hother
      show position ≤ offset - kept.length + last
      by_cases hbehind : offset < position + 4
      · obtain ⟨index, hindex, rfl⟩ := hkept.complete hread hother hbehind
        have hle := hlast.2 index hindex
        omega
      · have hlength := hkept.length
        omega

theorem runs_findLastSignatureFrom {rounds : Nat} {found : Option Nat}
    {r : Except ZipStatus (Option Nat)} (hkept : KeptFrom bytes start offset kept)
    (hfound : LastSignatureAt bytes signature start offset found)
    (hoffset : offset ≤ stop) (hrounds : stop - offset ≤ rounds)
    (hserved : ∀ e ∈ t, ServedFrom bytes e)
    (h : Runs (findLastSignatureFrom signature stop rounds offset kept found).run t r) :
    SearchRun start stop t r (LastSignatureAt bytes signature start stop) := by
  induction rounds generalizing offset kept found t with
  | zero =>
      obtain ⟨rfl, rfl⟩ := Program.runs_pure.mp h
      have hend : offset = stop := by omega
      exact .pure (hend ▸ hfound)
  | succ rounds ih =>
      unfold findLastSignatureFrom at h
      split at h
      · have hstart := hkept.start_le
        obtain ⟨block, u, rfl, hrest⟩ | ⟨rfl, rfl⟩ := runs_readRange.mp h
        · obtain ⟨hread, hserved⟩ := List.forall_mem_cons.mp hserved
          have hread : block.bytes = slice offset _ bytes := hread block rfl
          have hlength := block.length_bytes
          rw [hread] at hlength hrest
          refine .read hstart (by omega) ?_
          exact ih (hkept.next hlength) (lastSignatureAt_round hkept hlength hfound) (by omega)
            (by omega) hserved hrest
        · exact .failed hstart (by omega)
      · obtain ⟨rfl, rfl⟩ := Program.runs_pure.mp h
        have hend : offset = stop := by omega
        exact .pure (hend ▸ hfound)

theorem runs_containsSignature {r : Except ZipStatus Bool} (hrange : start ≤ stop)
    (hserved : ∀ e ∈ t, ServedFrom bytes e)
    (h : Runs (containsSignature start stop signature).run t r) :
    SearchRun start stop t r fun found =>
      found = true ↔ ∃ position, SignatureAt bytes signature start stop position := by
  unfold containsSignature at h
  rw [Fallible.check_of hrange] at h
  refine runs_containsSignatureFrom keptFrom_start ?_ hrange (Nat.le_refl _) hserved h
  intro position hat
  have hfrom := hat.1
  have hto := hat.2.1
  omega

theorem runs_findLastSignature {r : Except ZipStatus (Option Nat)} (hrange : start ≤ stop)
    (hserved : ∀ e ∈ t, ServedFrom bytes e)
    (h : Runs (findLastSignature start stop signature).run t r) :
    SearchRun start stop t r (LastSignatureAt bytes signature start stop) := by
  unfold findLastSignature at h
  rw [Fallible.check_of hrange] at h
  refine runs_findLastSignatureFrom keptFrom_start ?_ hrange (Nat.le_refl _) hserved h
  intro position hat
  have hfrom := hat.1
  have hto := hat.2.1
  omega

/-- A run of a search on its buffer is a run of the search of `Open`. -/
theorem SearchRun.of_fromSource {α : Type} {Q : α → Prop} {p : ZipProc α}
    {r : Except SearchFault α} (h : Runs (fromSource p).run t r)
    (hp : ∀ r', Runs p.run t r' → SearchRun start stop t r' Q) :
    SearchRun start stop t r Q ∧ ∀ fault, r = .error fault → fault = .source := by
  obtain ⟨r', rfl, hrun⟩ := Fallible.runs_rename.mp h
  have hsearch := hp r' hrun
  cases r' with
  | ok found => exact ⟨⟨hsearch.within, hsearch.result⟩, nofun⟩
  | error status =>
      refine ⟨⟨hsearch.within, hsearch.result⟩, ?_⟩
      rintro fault ⟨⟩
      rfl

/-- Both searches read their range only, compute no offset or index outside its type, and
unless a read fails they find exactly what stands in the range. -/
theorem signature_searches_exact (buffer : Block kSearchBufferBytes) (signature : Block 4)
    (hrange : start ≤ stop) (hstop : stop < 2 ^ 64) (hserved : ∀ e ∈ t, ServedFrom bytes e) :
    (∀ r, Runs (searchContains buffer start stop signature.bytes).run t r →
      SearchRun start stop t r (fun found =>
        found = true ↔
          ∃ position, SignatureAt bytes signature.bytes start stop position) ∧
        ∀ fault, r = .error fault → fault = .source) ∧
    (∀ r, Runs (searchLast buffer start stop signature.bytes).run t r →
      SearchRun start stop t r (LastSignatureAt bytes signature.bytes start stop) ∧
        ∀ fault, r = .error fault → fault = .source) := by
  constructor
  · intro r h
    rw [searchContains_eq hrange hstop] at h
    exact SearchRun.of_fromSource h fun _ => runs_containsSignature hrange hserved
  · intro r h
    rw [searchLast_eq hrange hstop] at h
    exact SearchRun.of_fromSource h fun _ => runs_findLastSignature hrange hserved

end Searches

/-- A signature that overlaps itself, twice in six bytes. -/
def overlapping : Block 6 := ⟨[1, 1, 1, 1, 1, 0], rfl⟩

/-- The one read of a search through six bytes. -/
def overlappingTrace : List (Event ZipOp ZipAnswer) := [⟨.readAt 0 6, some overlapping⟩]

theorem signature_searches_exact_overlapping :
    SearchRun 0 6 overlappingTrace (.ok (some 1) : Except SearchFault (Option Nat))
      (LastSignatureAt overlapping.bytes [1, 1, 1, 1] 0 6) := by
  have hserved : ∀ e ∈ overlappingTrace, ServedFrom overlapping.bytes e := by
    intro e he
    rw [List.mem_singleton.mp he]
    rintro block ⟨⟩
    rfl
  have hrun : Runs (findLastSignature 0 6 [1, 1, 1, 1]).run overlappingTrace (.ok (some 1)) :=
    runs_readRange.mpr (Or.inl ⟨overlapping, [], rfl, .pure _⟩)
  have hsearch := signature_searches_exact (Block.zero kSearchBufferBytes) ⟨[1, 1, 1, 1], rfl⟩
    (Nat.zero_le 6) (by decide) hserved
  refine (hsearch.2 _ ?_).1
  rw [searchLast_eq (Nat.zero_le 6) (by decide)]
  exact Fallible.runs_rename.mpr ⟨_, rfl, hrun⟩

end Zip

end BmxUpdate
