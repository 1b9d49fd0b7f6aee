import BmxUpdate.Sha256
import BmxUpdate.Library.Fips180

/-!
# The object and the standard

The class `Sha256` with its calls (`sha256.cpp`), and that it computes the digest of
FIPS 180-4 however the message is split.

- The object: `update` and `final` over the bytes it holds back.
- Any updates, then `final`: the digest of the whole message (`final_updates`).
- The words of the source are those of the standard (`transform_vars`).
- Padding and blocks, byte by byte and bit by bit (`bits_sha256`).
-/

namespace BmxUpdate

open Wire

/-- The class `Sha256`; `buffer` is the first `buffer_size_` bytes of `buffer_`. -/
structure Sha256 where
  state : Sha256.HashState
  totalBytes : Nat
  buffer : Bytes
  finalized : Bool
deriving DecidableEq

namespace Sha256

/-- The constructor. -/
def new : Sha256 := ⟨.initial, 0, [], false⟩

/-- `Reset` -/
def reset (object : Sha256) : Sha256 :=
  { object with state := .initial, totalBytes := 0, buffer := [], finalized := false }

/-- The loop of `Update`; each round copies at least one byte. -/
def absorb : Nat → HashState → Bytes → Bytes → HashState × Bytes
  | 0, state, buffer, _ => (state, buffer)
  | fuel + 1, state, buffer, input =>
      if input = [] then (state, buffer)
      else
        let copySize := min (64 - buffer.length) input.length
        let filled := buffer ++ input.take copySize
        if filled.length = 64 then absorb fuel (transform state filled) [] (input.drop copySize)
        else absorb fuel state filled (input.drop copySize)

/-- `Update`, with its result. -/
def update (object : Sha256) (data : Bytes) : Bool × Sha256 :=
  if object.finalized = true ∨ 2 ^ 64 - 1 - object.totalBytes < data.length then (false, object)
  else
    let (state, buffer) := absorb data.length object.state object.buffer data
    (true, { object with state, buffer, totalBytes := object.totalBytes + data.length })

/-- `Final`, with the digest it writes. -/
def final (object : Sha256) : Option Digest × Sha256 :=
  if object.finalized = true ∨ (2 ^ 64 - 1) / 8 < object.totalBytes then (none, object)
  else
    let totalBits := object.totalBytes * 8
    let ended := object.buffer ++ [0x80]
    let (state, ended) :=
      if 56 < ended.length then
        (transform object.state (ended ++ List.replicate (64 - ended.length) 0), [])
      else (object.state, ended)
    let block := ended ++ List.replicate (56 - ended.length) 0 ++ encodeBe 8 totalBits
    let state := transform state block
    (some (.ofBytes 32 state.bytes),
      { object with state, buffer := List.replicate ended.length 0, finalized := true })

/-- Calls of `Update` in turn, with their results. -/
def updates : Sha256 → List Bytes → List Bool × Sha256
  | object, [] => ([], object)
  | object, piece :: pieces =>
      let (succeeded, object) := object.update piece
      let (rest, object) := updates object pieces
      (succeeded :: rest, object)

/-! ## The message so far -/

theorem transformBlocks_add (m n : Nat) (s : HashState) (message : Bytes) :
    transformBlocks (m + n) s message =
      transformBlocks n (transformBlocks m s message) (message.drop (64 * m)) := by
  induction m generalizing s message with
  | zero => simp [transformBlocks]
  | succ m ih =>
      rw [Nat.succ_add, transformBlocks, ih, transformBlocks, List.drop_drop, Nat.mul_succ,
        Nat.add_comm (64 * m)]

/-- Whole blocks do not depend on what follows them. -/
theorem transformBlocks_append {n : Nat} {message : Bytes} (h : 64 * n ≤ message.length)
    (s : HashState) (more : Bytes) :
    transformBlocks n s (message ++ more) = transformBlocks n s message := by
  induction n generalizing s message with
  | zero => rfl
  | succ n ih =>
      rw [transformBlocks, transformBlocks, List.take_append_of_le_length (by omega),
        List.drop_append_of_le_length (by omega)]
      apply ih
      rw [List.length_drop]
      omega

theorem transformBlocks_short {message : Bytes} (h : message.length < 64) (s : HashState) :
    transformBlocks (message.length / 64) s message = s := by
  rw [Nat.div_eq_of_lt h]
  rfl

/-- The loop transforms the whole blocks and holds back the rest. -/
theorem absorb_eq {fuel : Nat} {state : HashState} {buffer input : Bytes}
    (hbuffer : buffer.length < 64) (hfuel : input.length ≤ fuel) :
    absorb fuel state buffer input =
      (transformBlocks ((buffer ++ input).length / 64) state (buffer ++ input),
        (buffer ++ input).drop (64 * ((buffer ++ input).length / 64))) := by
  induction fuel generalizing state buffer input with
  | zero =>
      have hinput : input = [] := List.eq_nil_of_length_eq_zero (by omega)
      rw [hinput, List.append_nil, transformBlocks_short hbuffer, Nat.div_eq_of_lt hbuffer]
      rfl
  | succ fuel ih =>
      rw [absorb]
      by_cases hinput : input = []
      · rw [if_pos hinput, hinput, List.append_nil, transformBlocks_short hbuffer,
          Nat.div_eq_of_lt hbuffer]
        rfl
      · rw [if_neg hinput]
        have hpositive := List.length_pos_iff.mpr hinput
        have hsplit : buffer ++ input = (buffer ++ input.take (min (64 - buffer.length)
            input.length)) ++ input.drop (min (64 - buffer.length) input.length) := by
          rw [List.append_assoc, List.take_append_drop]
        dsimp only
        split
        · next hfull =>
            -- A block is complete.
            rw [List.length_append, List.length_take] at hfull
            rw [ih (by simp) (by rw [List.length_drop]; omega), hsplit, List.nil_append]
            generalize hfilled : buffer ++ input.take (min (64 - buffer.length) input.length) =
              filled
            generalize input.drop (min (64 - buffer.length) input.length) = rest
            have hlength : filled.length = 64 := by
              rw [← hfilled, List.length_append, List.length_take]
              exact hfull
            have hcount : (filled ++ rest).length / 64 = 1 + rest.length / 64 := by
              rw [List.length_append, hlength]
              omega
            have hone : transformBlocks 1 state (filled ++ rest) = transform state filled := by
              rw [transformBlocks_append (by omega)]
              show transform state (filled.take 64) = _
              rw [List.take_of_length_le (by omega)]
            rw [hcount, transformBlocks_add, hone, Nat.mul_add, ← List.drop_drop,
              List.drop_left' (by omega)]
        · next hfull =>
            -- All of the input was copied.
            rw [List.length_append, List.length_take] at hfull
            have hall : min (64 - buffer.length) input.length = input.length := by omega
            have hshort : (buffer ++ input).length < 64 := by
              rw [List.length_append]
              omega
            rw [ih (by rw [hall, List.take_length]; exact hshort)
              (by rw [List.length_drop]; omega), ← hsplit]

/-- What the object is after a message. -/
def after (message : Bytes) : Sha256 where
  state := transformBlocks (message.length / 64) .initial message
  totalBytes := message.length
  buffer := message.drop (64 * (message.length / 64))
  finalized := false

theorem length_buffer_after (message : Bytes) :
    (after message).buffer.length = message.length % 64 := by
  show (message.drop _).length = _
  rw [List.length_drop]
  omega

theorem update_after {message data : Bytes} (h : message.length + data.length < 2 ^ 64) :
    (after message).update data = (true, after (message ++ data)) := by
  unfold update
  rw [if_neg]
  · have hlength := length_buffer_after message
    rw [absorb_eq (by omega) (le_refl _)]
    have hblocks : message.length / 64 + ((after message).buffer ++ data).length / 64 =
        (message ++ data).length / 64 := by
      rw [List.length_append, List.length_append, hlength]
      omega
    have hfits : 64 * (((after message).buffer ++ data).length / 64) ≤
        ((after message).buffer ++ data).length := by omega
    have hwhole : 64 * (message.length / 64) ≤ message.length := by omega
    have hdrop : (message ++ data).drop (64 * (message.length / 64)) =
        (after message).buffer ++ data := List.drop_append_of_le_length hwhole
    have hstate : transformBlocks ((message ++ data).length / 64) .initial (message ++ data) =
        transformBlocks (((after message).buffer ++ data).length / 64) (after message).state
          ((after message).buffer ++ data) := by
      rw [← hblocks, transformBlocks_add, hdrop, transformBlocks_append hwhole]
      rfl
    have hrest : (message ++ data).drop (64 * ((message ++ data).length / 64)) =
        ((after message).buffer ++ data).drop
          (64 * (((after message).buffer ++ data).length / 64)) := by
      rw [← hblocks, Nat.mul_add, ← List.drop_drop, hdrop]
    refine Prod.ext rfl (Sha256.mk.injEq .. |>.mpr ⟨hstate.symm, ?_, hrest.symm, rfl⟩)
    exact List.length_append.symm
  · show ¬(false = true ∨ 2 ^ 64 - 1 - message.length < data.length)
    simp only [Bool.false_eq_true, false_or]
    omega

theorem updates_after {message : Bytes} {pieces : List Bytes}
    (h : message.length + pieces.flatten.length < 2 ^ 64) :
    (after message).updates pieces =
      (List.replicate pieces.length true, after (message ++ pieces.flatten)) := by
  induction pieces generalizing message with
  | nil =>
      rw [List.flatten_nil, List.append_nil]
      rfl
  | cons piece pieces ih =>
      rw [List.flatten_cons, List.length_append] at h
      rw [updates, update_after (by omega)]
      dsimp only
      rw [ih (by rw [List.length_append]; omega), List.flatten_cons, List.append_assoc,
        List.length_cons, List.replicate_succ]

/-- `Final` pads the message and transforms the blocks that are left. -/
theorem final_after {message : Bytes} (h : message.length < 2 ^ 61) :
    ∃ object, (after message).final = (some (sha256 message), object) ∧
      object.finalized = true := by
  have hlength := length_buffer_after message
  have hpadding : (padding message.length).length = 9 + (119 - message.length % 64) % 64 := by
    simp [padding]
    omega
  have hwhole : 64 * (message.length / 64) ≤ message.length := by omega
  have hstate : transformBlocks (message.length / 64) .initial (message ++ padding message.length) =
      (after message).state := transformBlocks_append hwhole _ _
  have hdrop : (message ++ padding message.length).drop (64 * (message.length / 64)) =
      (after message).buffer ++ padding message.length := List.drop_append_of_le_length hwhole
  have hguard : ¬((after message).finalized = true ∨
      (2 ^ 64 - 1) / 8 < (after message).totalBytes) := by
    show ¬(false = true ∨ (2 ^ 64 - 1) / 8 < message.length)
    simp only [Bool.false_eq_true, false_or]
    omega
  unfold final
  rw [if_neg hguard]
  dsimp only
  refine ⟨_, Prod.ext ?_ rfl, rfl⟩
  refine congrArg some (congrArg (fun s : HashState => Block.ofBytes 32 s.bytes) ?_)
  by_cases hlong : 56 < ((after message).buffer ++ [0x80]).length
  · -- The length does not fit the block: two blocks are left.
    rw [if_pos hlong]
    rw [List.length_append, List.length_singleton, hlength] at hlong
    have hblocks : (message ++ padding message.length).length / 64 = message.length / 64 + 2 := by
      rw [List.length_append, hpadding]
      omega
    have hrest : (after message).buffer ++ padding message.length =
        ((after message).buffer ++ [0x80] ++
            List.replicate (64 - ((after message).buffer ++ [0x80]).length) 0) ++
          (List.replicate 56 0 ++ encodeBe 8 (message.length * 8)) := by
      have hzeros : (119 - message.length % 64) % 64 =
          64 - ((after message).buffer ++ [(0x80 : UInt8)]).length + 56 := by
        rw [List.length_append, List.length_singleton, hlength]
        omega
      rw [padding, hzeros, List.replicate_add]
      simp [encodeBe]
    have hfirst : ((after message).buffer ++ [(0x80 : UInt8)] ++
        List.replicate (64 - ((after message).buffer ++ [(0x80 : UInt8)]).length) 0).length =
          64 := by
      simp only [List.length_append, List.length_singleton, List.length_replicate, hlength]
      omega
    rw [hblocks, transformBlocks_add, hstate, hdrop, hrest]
    show _ = transform (transform _ (List.take 64 _)) (List.take 64 (List.drop 64 _))
    rw [List.take_left' hfirst, List.drop_left' hfirst,
      List.take_of_length_le (by simp [encodeBe])]
    rfl
  · rw [if_neg hlong]
    rw [List.length_append, List.length_singleton, hlength] at hlong
    have hblocks : (message ++ padding message.length).length / 64 = message.length / 64 + 1 := by
      rw [List.length_append, hpadding]
      omega
    have hrest : (after message).buffer ++ padding message.length =
        (after message).buffer ++ [0x80] ++
          List.replicate (56 - ((after message).buffer ++ [0x80]).length) 0 ++
            encodeBe 8 (message.length * 8) := by
      have hzeros : (119 - message.length % 64) % 64 =
          56 - ((after message).buffer ++ [(0x80 : UInt8)]).length := by
        rw [List.length_append, List.length_singleton, hlength]
        omega
      rw [padding, hzeros]
      simp [encodeBe]
    rw [hblocks, transformBlocks_add, hstate, hdrop, hrest]
    show _ = transform _ (List.take 64 _)
    rw [List.take_of_length_le]
    · rfl
    · simp only [List.length_append, List.length_singleton, List.length_replicate, hlength,
        length_encodeBe]
      omega

/-- A finished object fails every further call. -/
theorem finalized_fails {object : Sha256} (h : object.finalized = true) :
    (∀ data, object.update data = (false, object)) ∧ object.final = (none, object) := by
  constructor
  · intro data
    rw [update, if_pos (.inl h)]
  · rw [final, if_pos (.inl h)]

/-! ## Bits of bytes -/

/-- A byte string as a bit string, most significant bits first. -/
def bits (bytes : Bytes) : Fips180.Bits := bytes.flatMap fun byte => Fips180.bitsOf 8 byte.toNat

theorem bits_append (left right : Bytes) : bits (left ++ right) = bits left ++ bits right :=
  List.flatMap_append

@[simp]
theorem length_bits (bytes : Bytes) : (bits bytes).length = 8 * bytes.length := by
  induction bytes with
  | nil => rfl
  | cons byte bytes ih =>
      show (Fips180.bitsOf 8 byte.toNat ++ bits bytes).length = _
      rw [List.length_append, ih, Fips180.length_bitsOf, List.length_cons]
      omega

theorem bits_drop (n : Nat) (bytes : Bytes) : (bits bytes).drop (8 * n) = bits (bytes.drop n) := by
  by_cases h : n ≤ bytes.length
  · conv_lhs => rw [← List.take_append_drop n bytes, bits_append]
    rw [List.drop_left']
    rw [length_bits, List.length_take]
    omega
  · rw [List.drop_eq_nil_of_le (by rw [length_bits]; omega), List.drop_eq_nil_of_le (by omega)]
    rfl

theorem bits_take (n : Nat) (bytes : Bytes) : (bits bytes).take (8 * n) = bits (bytes.take n) := by
  by_cases h : n ≤ bytes.length
  · conv_lhs => rw [← List.take_append_drop n bytes, bits_append]
    rw [List.take_left']
    rw [length_bits, List.length_take]
    omega
  · rw [List.take_of_length_le (by rw [length_bits]; omega), List.take_of_length_le (by omega)]

theorem bits_encodeBe (n value : Nat) : bits (encodeBe n value) = Fips180.bitsOf (8 * n) value := by
  induction n generalizing value with
  | zero => rfl
  | succ n ih =>
      have hlast : encodeBe (n + 1) value = encodeBe n (value / 256) ++ [UInt8.ofNat value] := by
        simp [encodeBe, encodeLe]
      have hbyte : bits [UInt8.ofNat value] = Fips180.bitsOf 8 value := by
        show Fips180.bitsOf 8 (UInt8.ofNat value).toNat ++ [] = _
        rw [List.append_nil, UInt8.toNat_ofNat']
        exact Fips180.bitsOf_mod (le_refl 8)
      rw [hlast, bits_append, ih, hbyte, Nat.mul_succ, Fips180.bitsOf_add]
      rfl

theorem bits_zeros (n : Nat) : bits (List.replicate n 0) = List.replicate (8 * n) false := by
  induction n with
  | zero => rfl
  | succ n ih =>
      show List.replicate 8 false ++ bits (List.replicate n 0) = _
      rw [ih, ← List.replicate_add, Nat.mul_succ, Nat.add_comm]

/-- A big-endian word is the number its bits denote. -/
theorem loadBigEndian32_eq (input : Bytes) :
    loadBigEndian32 input = Fips180.valueOf (bits (input.take 4)) := by
  have hall : ∀ bytes : Bytes,
      bytes.foldl (fun value byte => value <<< 8 ||| byte.toNat) 0 =
        Fips180.valueOf (bits bytes) := by
    intro bytes
    induction bytes using List.reverseRecOn with
    | nil => rfl
    | append_singleton bytes byte ih =>
        have hbyte : bits [byte] = Fips180.bitsOf 8 byte.toNat := List.append_nil _
        have hlt : byte.toNat < 2 ^ 8 := byte.toNat_lt
        rw [List.foldl_append, ih, bits_append, hbyte, Fips180.valueOf_append,
          Fips180.valueOf_bitsOf, Fips180.length_bitsOf, Nat.mod_eq_of_lt hlt, ← Nat.shiftLeft_eq,
          Nat.shiftLeft_add_eq_or_of_lt hlt]
        rfl
  exact hall (input.take 4)

/-! ## Words -/

/-- The words of the source as those of the standard. -/
def HashState.ofVars (v : Fips180.Vars) : HashState :=
  ⟨v.a.toNat, v.b.toNat, v.c.toNat, v.d.toNat, v.e.toNat, v.f.toNat, v.g.toNat, v.h.toNat⟩

theorem rotateRight_toNat (x : Fips180.Word) {count : Nat} (h : count < 32) :
    rotateRight x.toNat count = (x.rotateRight count).toNat := by
  rw [BitVec.toNat_rotateRight, Nat.mod_eq_of_lt h]
  rfl

theorem not_toNat (x : Fips180.Word) : wordModulus - 1 - x.toNat = (~~~x).toNat := by
  rw [BitVec.toNat_not]
  rfl

theorem toNat_bigSigma0 (x : Fips180.Word) :
    (Fips180.bigSigma0 x).toNat =
      rotateRight x.toNat 2 ^^^ rotateRight x.toNat 13 ^^^ rotateRight x.toNat 22 := by
  rw [Fips180.bigSigma0, BitVec.toNat_xor, BitVec.toNat_xor, rotateRight_toNat x (by decide),
    rotateRight_toNat x (by decide), rotateRight_toNat x (by decide)]

theorem toNat_bigSigma1 (x : Fips180.Word) :
    (Fips180.bigSigma1 x).toNat =
      rotateRight x.toNat 6 ^^^ rotateRight x.toNat 11 ^^^ rotateRight x.toNat 25 := by
  rw [Fips180.bigSigma1, BitVec.toNat_xor, BitVec.toNat_xor, rotateRight_toNat x (by decide),
    rotateRight_toNat x (by decide), rotateRight_toNat x (by decide)]

theorem toNat_smallSigma0 (x : Fips180.Word) :
    (Fips180.smallSigma0 x).toNat =
      rotateRight x.toNat 7 ^^^ rotateRight x.toNat 18 ^^^ x.toNat >>> 3 := by
  rw [Fips180.smallSigma0, BitVec.toNat_xor, BitVec.toNat_xor, rotateRight_toNat x (by decide),
    rotateRight_toNat x (by decide), BitVec.toNat_ushiftRight]

theorem toNat_smallSigma1 (x : Fips180.Word) :
    (Fips180.smallSigma1 x).toNat =
      rotateRight x.toNat 17 ^^^ rotateRight x.toNat 19 ^^^ x.toNat >>> 10 := by
  rw [Fips180.smallSigma1, BitVec.toNat_xor, BitVec.toNat_xor, rotateRight_toNat x (by decide),
    rotateRight_toNat x (by decide), BitVec.toNat_ushiftRight]

theorem toNat_Ch (x y z : Fips180.Word) :
    (Fips180.Ch x y z).toNat =
      (x.toNat &&& y.toNat) ^^^ ((wordModulus - 1 - x.toNat) &&& z.toNat) := by
  rw [Fips180.Ch, BitVec.toNat_xor, BitVec.toNat_and, BitVec.toNat_and, not_toNat]

theorem toNat_Maj (x y z : Fips180.Word) :
    (Fips180.Maj x y z).toNat =
      (x.toNat &&& y.toNat) ^^^ (x.toNat &&& z.toNat) ^^^ (y.toNat &&& z.toNat) := by
  simp only [Fips180.Maj, BitVec.toNat_xor, BitVec.toNat_and]

theorem round_ofVars (v : Fips180.Vars) (constant word : Fips180.Word) :
    round (.ofVars v) word.toNat constant.toNat = .ofVars (Fips180.round v constant word) := by
  have hmodulus : wordModulus = 2 ^ 32 := rfl
  unfold round Fips180.round HashState.ofVars
  dsimp only
  rw [← toNat_bigSigma1, ← toNat_Ch, ← toNat_bigSigma0, ← toNat_Maj]
  simp only [HashState.mk.injEq, and_true, true_and]
  constructor
  · simp only [hmodulus, BitVec.toNat_add, Nat.add_mod_mod, Nat.mod_add_mod]
  · simp only [hmodulus, BitVec.toNat_add, Nat.add_mod_mod, Nat.mod_add_mod]

/-! ## The message schedule and the rounds -/

section Block

variable (block : Nat → Fips180.Word)

/-- A word of the message schedule, as the source stores it. -/
def scheduled (t : Nat) : Word := (Fips180.schedule block t).toNat

theorem scheduled_next (t : Nat) :
    scheduled block (t + 16) =
      (scheduled block t + (rotateRight (scheduled block (t + 1)) 7 ^^^
            rotateRight (scheduled block (t + 1)) 18 ^^^ scheduled block (t + 1) >>> 3) +
          scheduled block (t + 9) +
        (rotateRight (scheduled block (t + 14)) 17 ^^^ rotateRight (scheduled block (t + 14)) 19 ^^^
          scheduled block (t + 14) >>> 10)) % wordModulus := by
  have hmodulus : wordModulus = 2 ^ 32 := rfl
  unfold scheduled
  rw [← toNat_smallSigma0, ← toNat_smallSigma1, Fips180.schedule_add, hmodulus]
  simp only [BitVec.toNat_add, Nat.mod_add_mod]
  congr 1
  ac_rfl

/-- The loop extends sixteen words of the schedule. -/
theorem scheduleWords_eq (n t : Nat) :
    scheduleWords n ((List.range' t 16).map (scheduled block)) =
      (List.range' (t + 16) n).map (scheduled block) := by
  induction n generalizing t with
  | zero => simp [scheduleWords]
  | succ n ih =>
      have hnext := ih (t + 1)
      rw [List.range'_succ (s := t + 16), List.map_cons, Nat.add_right_comm t 16 1, ← hnext]
      simp only [List.range', List.map_cons, List.map_nil, Nat.add_assoc, Nat.reduceAdd]
      rw [scheduleWords, ← scheduled_next]
      rfl

theorem roundConstants_eq : kRoundConstants = Fips180.constants.map BitVec.toNat := rfl

theorem drop_roundConstants {t : Nat} (h : t < 64) :
    kRoundConstants.drop t = (Fips180.constants.getD t 0).toNat :: kRoundConstants.drop (t + 1) := by
  have hlength : t < Fips180.constants.length := h
  rw [roundConstants_eq, List.drop_eq_getElem_cons (by rw [List.length_map]; exact hlength),
    List.getElem_map, List.getD_eq_getElem?_getD, List.getElem?_eq_getElem hlength]
  rfl

/-- The rounds that are left after `t`. -/
theorem rounds_eq (start : Fips180.Vars) {n t : Nat} (h : t + n = 64) :
    rounds (.ofVars (Fips180.rounds block start t)) ((List.range' t n).map (scheduled block))
        (kRoundConstants.drop t) =
      .ofVars (Fips180.rounds block start 64) := by
  induction n generalizing t with
  | zero =>
      obtain rfl : t = 64 := h
      rfl
  | succ n ih =>
      rw [drop_roundConstants (by omega), List.range'_succ, List.map_cons]
      show rounds (round _ (Fips180.schedule block t).toNat _) _ _ = _
      rw [round_ofVars]
      exact ih (t := t + 1) (by omega)

theorem blockWords_eq (n : Nat) (bytes : Bytes) :
    blockWords n bytes = (List.range n).map fun j => loadBigEndian32 (bytes.drop (4 * j)) := by
  induction n generalizing bytes with
  | zero => rfl
  | succ n ih =>
      rw [blockWords, ih, List.range_succ_eq_map, List.map_cons, List.map_map]
      congr 1
      apply List.map_congr_left
      intro j _
      show loadBigEndian32 ((bytes.drop 4).drop (4 * j)) =
        loadBigEndian32 (bytes.drop (4 * (j + 1)))
      rw [List.drop_drop, Nat.mul_succ, Nat.add_comm]

variable {block}

/-- The words of a block of bytes. -/
def IsBlock (block : Nat → Fips180.Word) (bytes : Bytes) : Prop :=
  ∀ j < 16, (block j).toNat = loadBigEndian32 (bytes.drop (4 * j))

theorem IsBlock.words {bytes : Bytes} (h : IsBlock block bytes) :
    blockWords 16 bytes = (List.range' 0 16).map (scheduled block) := by
  rw [blockWords_eq, List.range_eq_range']
  apply List.map_congr_left
  intro j hj
  have hlt : j < 16 := by
    rw [List.mem_range'_1] at hj
    omega
  rw [scheduled, Fips180.schedule_of_lt hlt, h j hlt]

/-- `Transform` is one step of the hash computation of the standard. -/
theorem transform_ofVars {bytes : Bytes} (h : IsBlock block bytes) (hash : Fips180.Vars) :
    transform (.ofVars hash) bytes = .ofVars (Fips180.compress hash block) := by
  have hwords : blockWords 16 bytes ++ scheduleWords 48 (blockWords 16 bytes) =
      (List.range' 0 64).map (scheduled block) := by
    rw [h.words, scheduleWords_eq block 48 0, ← List.map_append]
    rfl
  have hrounds := rounds_eq block hash (n := 64) (t := 0) rfl
  unfold transform
  dsimp only
  rw [hwords]
  have hstart : rounds (.ofVars hash) ((List.range' 0 64).map (scheduled block)) kRoundConstants =
      .ofVars (Fips180.rounds block hash 64) := hrounds
  rw [hstart]
  have hadd : ∀ x y : Fips180.Word, (x.toNat + y.toNat) % wordModulus = (y + x).toNat := by
    intro x y
    rw [BitVec.toNat_add, Nat.add_comm]
    rfl
  simp only [HashState.ofVars, hadd]
  rfl

end Block

/-! ## The padded message -/

/-- The padding of the source is that of the standard. -/
theorem bits_padded (message : Bytes) :
    bits (message ++ padding message.length) = Fips180.pad (bits message) := by
  have hone : bits [0x80] = [true] ++ List.replicate 7 false := rfl
  have hzeros : Fips180.zeros (bits message).length =
      7 + 8 * ((119 - message.length % 64) % 64) := by
    rw [Fips180.zeros, length_bits]
    omega
  have hparts : padding message.length =
      [0x80] ++ List.replicate ((119 - message.length % 64) % 64) 0 ++
        encodeBe 8 (message.length * 8) := by
    simp [padding, encodeBe]
  rw [hparts, bits_append, bits_append, bits_append, hone, bits_zeros, bits_encodeBe, Fips180.pad,
    hzeros, List.replicate_add, length_bits, Nat.mul_comm message.length]
  simp only [List.append_assoc]

theorem isBlock_padded (padded : Bytes) (i : Nat) :
    IsBlock (Fips180.block (bits padded) i) ((padded.drop (64 * i)).take 64) := by
  intro j hj
  have hplace : 512 * i + 32 * j = 8 * (64 * i + 4 * j) := by omega
  have hbytes : (((padded.drop (64 * i)).take 64).drop (4 * j)).take 4 =
      (padded.drop (64 * i + 4 * j)).take 4 := by
    rw [List.drop_take, List.drop_drop, List.take_take, Nat.min_eq_left (by omega)]
  have hbits : ((bits padded).drop (512 * i + 32 * j)).take 32 =
      bits ((padded.drop (64 * i + 4 * j)).take 4) := by
    rw [hplace, bits_drop]
    exact bits_take 4 _
  have hlt := Fips180.valueOf_lt (((bits padded).drop (512 * i + 32 * j)).take 32)
  have hlength : (((bits padded).drop (512 * i + 32 * j)).take 32).length ≤ 32 :=
    List.length_take_le _ _
  have hword := hlt.trans_le (Nat.pow_le_pow_right (by decide) hlength)
  rw [Fips180.block, BitVec.toNat_ofNat, Nat.mod_eq_of_lt hword, hbits, loadBigEndian32_eq, hbytes]

/-- The blocks of a message, transformed in order. -/
theorem transformBlocks_eq (padded : Bytes) (n : Nat) :
    transformBlocks n .initial padded = .ofVars (Fips180.hashValue (bits padded) n) := by
  induction n with
  | zero => rfl
  | succ n ih =>
      rw [transformBlocks_add n 1, ih]
      exact transform_ofVars (isBlock_padded padded n) _

theorem bits_storeBigEndian32 (word : Fips180.Word) :
    bits (storeBigEndian32 word.toNat) = Fips180.bitsOf 32 word.toNat := by
  have hbytes : storeBigEndian32 word.toNat = encodeBe 4 word.toNat := by
    simp [storeBigEndian32, encodeBe, encodeLe, Nat.shiftRight_eq_div_pow, Nat.div_div_eq_div_mul]
  rw [hbytes, bits_encodeBe]

theorem bits_ofVars (v : Fips180.Vars) :
    bits (HashState.ofVars v).bytes = v.words.flatMap fun word => Fips180.bitsOf 32 word.toNat := by
  simp only [HashState.bytes, HashState.ofVars, Fips180.Vars.words, List.flatMap_cons,
    List.flatMap_nil, bits_append, bits_storeBigEndian32]
  rfl

/-- The digest of a message is that of the standard. -/
theorem bits_sha256 (message : Bytes) :
    bits (sha256 message).bytes = Fips180.sha256 (bits message) := by
  have hcount : (message ++ padding message.length).length / 64 =
      (bits (message ++ padding message.length)).length / 512 := by
    rw [length_bits]
    omega
  have hlength : ∀ v : Fips180.Vars, (HashState.ofVars v).bytes.length = 32 := by
    intro v
    rfl
  unfold BmxUpdate.sha256
  dsimp only
  rw [transformBlocks_eq, Block.bytes_ofBytes (hlength _), bits_ofVars, hcount, bits_padded]
  rfl

/-! ## The object -/

/-- For every message of fewer than 2 ^ 61 bytes and every way of splitting it into calls of
`Update`, each call succeeds and `Final` yields the digest of FIPS 180-4; every later call fails
and leaves the object as it is, and `Reset` makes any object a new one. -/
theorem sha256_standard (pieces : List Bytes) :
    pieces.flatten.length < 2 ^ 61 →
      (new.updates pieces).1 = List.replicate pieces.length true ∧
      (∃ digest finished,
        (new.updates pieces).2.final = (some digest, finished) ∧
        bits digest.bytes = Fips180.sha256 (bits pieces.flatten) ∧
        (∀ data, finished.update data = (false, finished)) ∧
        finished.final = (none, finished)) ∧
      ∀ object : Sha256, object.reset = new := by
  intro h
  have hstart : new = after [] := rfl
  have hupdates : (after []).updates pieces =
      (List.replicate pieces.length true, after ([] ++ pieces.flatten)) := by
    apply updates_after
    show 0 + _ < _
    omega
  rw [List.nil_append, ← hstart] at hupdates
  rw [hupdates]
  refine ⟨rfl, ?_, fun _ => rfl⟩
  obtain ⟨finished, hfinal, hfinalized⟩ := final_after h
  exact ⟨sha256 pieces.flatten, finished, hfinal, bits_sha256 _, finalized_fails hfinalized⟩

/-- The message of the standard's first example, in three pieces. -/
theorem sha256_standard_abc :
    let pieces : List Bytes := [[0x61, 0x62], [], [0x63]]
    pieces.flatten.length < 2 ^ 61 ∧
      ∃ digest finished,
        (new.updates pieces).2.final = (some digest, finished) ∧
        bits digest.bytes = Fips180.sha256 (bits pieces.flatten) := by
  intro pieces
  have hlength : pieces.flatten.length < 2 ^ 61 := by decide
  obtain ⟨-, ⟨digest, finished, hfinal, hbits, -⟩, -⟩ := sha256_standard pieces hlength
  exact ⟨hlength, digest, finished, hfinal, hbits⟩

end Sha256

end BmxUpdate
