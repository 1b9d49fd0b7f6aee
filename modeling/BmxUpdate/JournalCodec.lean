import BmxUpdate.Journal

/-!
# The journal file format

`SerializeJournal`, `ParseJournal` and `SelectJournalCopy`
(`update_journal.cpp`).  A journal file is a 188-byte record: magic, version,
size, the fields of the record, seven reserved zero bytes, and a CRC-32 of the
184 bytes before it.

`parseJournal_serializeJournal` is the round trip a journal write relies on
when it reads its file back.
-/

namespace BmxUpdate

open Wire

/-! ## CRC-32 -/

/-- One turn of the bit loop of `CalculateCrc32` on a 32-bit word: the mask is the
polynomial where the low bit is set, and zero where it is not. -/
def crc32Bit (crc : Nat) : Nat := crc >>> 1 ^^^ 0xedb88320 * (crc &&& 1)

/-- One turn of the byte loop of `CalculateCrc32`. -/
def crc32Byte (crc : Nat) (byte : UInt8) : Nat :=
  Nat.repeat crc32Bit 8 (crc ^^^ byte.toNat)

/-- `CalculateCrc32` -/
def calculateCrc32 (bytes : Bytes) : Nat :=
  bytes.foldl crc32Byte 0xffffffff ^^^ 0xffffffff

theorem crc32Bit_lt {crc : Nat} (h : crc < 2 ^ 32) : crc32Bit crc < 2 ^ 32 := by
  have hlow : crc &&& 1 ≤ 1 := Nat.and_le_right
  have hmask : 0xedb88320 * (crc &&& 1) < 2 ^ 32 := by omega
  have hshift : crc >>> 1 < 2 ^ 32 := by
    rw [Nat.shiftRight_eq_div_pow]
    omega
  exact Nat.xor_lt_two_pow hshift hmask

theorem crc32Byte_lt {crc : Nat} (h : crc < 2 ^ 32) (byte : UInt8) :
    crc32Byte crc byte < 2 ^ 32 := by
  have hrepeat : ∀ n, Nat.repeat crc32Bit n (crc ^^^ byte.toNat) < 2 ^ 32 := by
    intro n
    induction n with
    | zero => exact Nat.xor_lt_two_pow h (by have := byte.toNat_lt; omega)
    | succ n ih => exact crc32Bit_lt ih
  exact hrepeat 8

/-- A CRC is a 32-bit word. -/
theorem calculateCrc32_lt (bytes : Bytes) : calculateCrc32 bytes < 2 ^ 32 := by
  have hfold : ∀ (bytes : Bytes) {crc : Nat}, crc < 2 ^ 32 →
      bytes.foldl crc32Byte crc < 2 ^ 32 := by
    intro bytes
    induction bytes with
    | nil => exact fun h => h
    | cons byte rest ih => exact fun h => ih (crc32Byte_lt h byte)
  exact Nat.xor_lt_two_pow (hfold bytes (by norm_num)) (by norm_num)

/-! ## Encoding -/

def kJournalEncodedSize : Nat := 188

/-- "BMXJNL1" and a zero byte. -/
def kJournalMagic : Bytes := [0x42, 0x4d, 0x58, 0x4a, 0x4e, 0x4c, 0x31, 0]

def kJournalFormatVersion : Nat := 1

def kJournalCrcOffset : Nat := kJournalEncodedSize - 4

/-- The bytes of a record before its CRC, in the order of their offsets. -/
def journalBody (r : JournalRecord) : Bytes :=
  kJournalMagic ++ (encodeLe 2 kJournalFormatVersion ++ (encodeLe 2 kJournalEncodedSize ++
  (encodeLe 8 r.generation.toNat ++ (r.transactionId.bytes ++ ([r.state.toByte] ++
  ([r.substate] ++ (encodeLe 2 r.flags.toNat ++
  (encodeLe 8 r.sourceReleaseSequence.toNat ++ (encodeLe 8 r.targetReleaseSequence.toNat ++
  ([r.board.toByte] ++ (List.replicate 7 0 ++
  (r.manifestSha256.bytes ++ (r.zipSha256.bytes ++ (r.consentSha256.bytes ++
  (encodeLe 8 r.oldBootGeneration.toNat ++ (encodeLe 8 r.newBootGeneration.toNat ++
  (encodeLe 4 r.completedSteps ++ encodeLe 4 r.totalSteps)))))))))))))))))

/-- `SerializeJournal`, into a buffer of the right size. -/
def serializeJournal (r : JournalRecord) : Option Bytes :=
  if RecordIsValid r then
    some (journalBody r ++ encodeLe 4 (calculateCrc32 (journalBody r)))
  else none

inductive JournalCodecStatus where
  | ok
  | wrongSize
  | invalidRecord
  | badMagic
  | unsupportedVersion
  | badCrc
  | nonZeroReservedBytes
deriving DecidableEq, Repr

/-- The record of the fields `ParseJournal` reads, when the state and the board
are known values. -/
def decodeJournal (encoded : Bytes) : Option JournalRecord := do
  let state ← JournalState.ofByte ((slice 36 1 encoded).headD 0)
  let board ← BoardFamily.ofByte ((slice 56 1 encoded).headD 0)
  return {
    generation := UInt64.ofNat (decodeLe (slice 12 8 encoded))
    transactionId := .ofBytes 16 (slice 20 16 encoded)
    state := state
    substate := (slice 37 1 encoded).headD 0
    flags := UInt16.ofNat (decodeLe (slice 38 2 encoded))
    sourceReleaseSequence := UInt64.ofNat (decodeLe (slice 40 8 encoded))
    targetReleaseSequence := UInt64.ofNat (decodeLe (slice 48 8 encoded))
    board := board
    manifestSha256 := .ofBytes 32 (slice 64 32 encoded)
    zipSha256 := .ofBytes 32 (slice 96 32 encoded)
    consentSha256 := .ofBytes 32 (slice 128 32 encoded)
    oldBootGeneration := UInt64.ofNat (decodeLe (slice 160 8 encoded))
    newBootGeneration := UInt64.ofNat (decodeLe (slice 168 8 encoded))
    completedSteps := decodeLe (slice 176 4 encoded)
    totalSteps := decodeLe (slice 180 4 encoded) }

/-- `ParseJournal`: the record, or the status of the first check that fails. -/
def parseJournal (encoded : Bytes) : Except JournalCodecStatus JournalRecord :=
  if encoded.length ≠ kJournalEncodedSize then .error .wrongSize
  else if slice 0 8 encoded ≠ kJournalMagic then .error .badMagic
  else if decodeLe (slice 8 2 encoded) ≠ kJournalFormatVersion then
    .error .unsupportedVersion
  else if decodeLe (slice 10 2 encoded) ≠ kJournalEncodedSize then .error .wrongSize
  else if slice 57 7 encoded ≠ List.replicate 7 0 then .error .nonZeroReservedBytes
  else if decodeLe (slice kJournalCrcOffset 4 encoded) ≠
      calculateCrc32 (slice 0 kJournalCrcOffset encoded) then .error .badCrc
  else
    match decodeJournal encoded with
    | none => .error .invalidRecord
    | some parsed => if RecordIsValid parsed then .ok parsed else .error .invalidRecord

@[simp] theorem length_journalBody (r : JournalRecord) :
    (journalBody r).length = kJournalCrcOffset := by
  simp [journalBody, kJournalMagic, kJournalCrcOffset, kJournalEncodedSize]

theorem length_serializeJournal {r : JournalRecord} {encoded : Bytes}
    (h : serializeJournal r = some encoded) : encoded.length = kJournalEncodedSize := by
  unfold serializeJournal at h
  split at h
  · cases h
    simp [kJournalCrcOffset, kJournalEncodedSize]
  · cases h

private theorem uint16_decode_encode (v : UInt16) :
    UInt16.ofNat (decodeLe (encodeLe 2 v.toNat)) = v := by
  rw [decodeLe_encodeLe (by have := v.toNat_lt; omega)]
  exact UInt16.ofNat_toNat

/-- Every field of an encoded record is read back at its offset, whatever
follows the record. -/
theorem decodeJournal_journalBody {r : JournalRecord} (hr : RecordIsValid r)
    (rest : Bytes) : decodeJournal (journalBody r ++ rest) = some r := by
  obtain ⟨⟨-, -, -, -, hcompleted, htotal⟩, -⟩ := hr
  have hc : r.completedSteps < 256 ^ 4 := by
    unfold kMaximumJournalSteps at htotal
    omega
  have ht : r.totalSteps < 256 ^ 4 := by
    unfold kMaximumJournalSteps at htotal
    omega
  have hmagic : kJournalMagic.length = 8 := rfl
  simp only [journalBody, List.append_assoc, decodeJournal, slice_skip, slice_head, hmagic,
    length_encodeLe, Block.length_bytes, List.length_replicate, List.length_cons,
    List.length_nil, Nat.reduceAdd, Nat.reduceSub, Nat.reduceLeDiff, Nat.le_refl,
    List.headD_cons, JournalState.ofByte_toByte, BoardFamily.ofByte_toByte]
  simp [Block.ofBytes_bytes, decodeLe_encodeLe_uint64, uint16_decode_encode,
    decodeLe_encodeLe hc, decodeLe_encodeLe ht]

/-- `SerializeJournal` followed by `ParseJournal` gives the record back. -/
theorem parseJournal_serializeJournal {r : JournalRecord} {encoded : Bytes}
    (h : serializeJournal r = some encoded) : parseJournal encoded = .ok r := by
  have hlength := length_serializeJournal h
  unfold serializeJournal at h
  split at h
  case isFalse => cases h
  case isTrue hvalid =>
    cases h
    set crc := encodeLe 4 (calculateCrc32 (journalBody r)) with hcrc_def
    have hmagic : slice 0 8 (journalBody r ++ crc) = kJournalMagic := by
      simp only [journalBody, List.append_assoc]
      exact slice_head rfl
    have hversion : slice 8 2 (journalBody r ++ crc) = encodeLe 2 kJournalFormatVersion := by
      simp only [journalBody, List.append_assoc]
      rw [slice_skip (by decide)]
      exact slice_head (by simp)
    have hsize : slice 10 2 (journalBody r ++ crc) = encodeLe 2 kJournalEncodedSize := by
      simp only [journalBody, List.append_assoc]
      rw [slice_skip (by decide), slice_skip (by decide)]
      exact slice_head (by simp)
    have hreserved : slice 57 7 (journalBody r ++ crc) = List.replicate 7 0 := by
      have hlength : kJournalMagic.length = 8 := rfl
      simp only [journalBody, List.append_assoc, slice_skip, slice_head, hlength,
        length_encodeLe, Block.length_bytes, List.length_replicate, List.length_cons,
        List.length_nil, Nat.reduceAdd, Nat.reduceSub, Nat.reduceLeDiff, Nat.le_refl]
    have hbody : slice 0 kJournalCrcOffset (journalBody r ++ crc) = journalBody r :=
      slice_head (length_journalBody r)
    have hcrc : decodeLe (slice kJournalCrcOffset 4 (journalBody r ++ crc)) =
        calculateCrc32 (journalBody r) := by
      rw [slice_skip (by simp), length_journalBody, Nat.sub_self, slice_all (by simp [crc])]
      exact decodeLe_encodeLe (calculateCrc32_lt (journalBody r))
    unfold parseJournal
    rw [if_neg (by simp [hlength]), if_neg (by simp [hmagic]),
      if_neg (by rw [hversion]; decide), if_neg (by rw [hsize]; decide),
      if_neg (by simp [hreserved]), if_neg (by rw [hcrc, hbody]; simp),
      decodeJournal_journalBody hvalid]
    simp [hvalid]

theorem recordIsValid_of_parseJournal {encoded : Bytes} {r : JournalRecord}
    (h : parseJournal encoded = .ok r) : RecordIsValid r := by
  unfold parseJournal at h
  split_ifs at h
  split at h
  · cases h
  · split_ifs at h with hvalid
    cases h
    exact hvalid

/-! ## Selecting one of the two copies -/

/-- `JournalRecordsEqual` -/
def journalRecordsEqual (left right : JournalRecord) : Bool :=
  left.generation = right.generation ∧ SameTransaction left right ∧
    left.state = right.state ∧ left.substate = right.substate ∧
    left.flags = right.flags ∧ SameImmutableFields left right ∧
    left.completedSteps = right.completedSteps ∧ left.totalSteps = right.totalSteps

@[simp] theorem journalRecordsEqual_iff {left right : JournalRecord} :
    journalRecordsEqual left right = true ↔ left = right := by
  cases left
  cases right
  rw [journalRecordsEqual, decide_eq_true_iff]
  simp only [SameTransaction, SameImmutableFields, JournalRecord.mk.injEq]
  tauto

inductive JournalSelectionStatus where
  | noJournal
  | selectedA
  | selectedB
  | selectedEquivalentCopies
  | noValidCopy
  | ambiguousSameGeneration
deriving DecidableEq, Repr

/-- The result of a selection; `record` is the source's zeroed record (`none`)
where no copy is selected. -/
structure JournalSelectionResult where
  status : JournalSelectionStatus
  copyAStatus : JournalCodecStatus
  copyBStatus : JournalCodecStatus
  record : Option JournalRecord
deriving DecidableEq

/-- The codec status of a copy: `WrongSize` stands for an absent one. -/
def copyStatus : Option (Except JournalCodecStatus JournalRecord) → JournalCodecStatus
  | none => .wrongSize
  | some (.error status) => status
  | some (.ok _) => .ok

/-- The record of a copy that is present and valid. -/
def copyRecord : Option (Except JournalCodecStatus JournalRecord) → Option JournalRecord
  | some (.ok r) => some r
  | _ => none

/-- `SelectJournalCopy`; an absent copy is `none`. -/
def selectJournalCopy (copyA copyB : Option Bytes) : JournalSelectionResult :=
  let parsedA := copyA.map parseJournal
  let parsedB := copyB.map parseJournal
  let result (status : JournalSelectionStatus) (record : Option JournalRecord) :=
    { status, copyAStatus := copyStatus parsedA, copyBStatus := copyStatus parsedB, record }
  match copyA, copyB, copyRecord parsedA, copyRecord parsedB with
  | none, none, _, _ => result .noJournal none
  | _, _, none, none => result .noValidCopy none
  | _, _, some recordA, none => result .selectedA (some recordA)
  | _, _, none, some recordB => result .selectedB (some recordB)
  | _, _, some recordA, some recordB =>
      if recordA.generation = recordB.generation then
        if journalRecordsEqual recordA recordB then
          result .selectedEquivalentCopies (some recordA)
        else result .ambiguousSameGeneration none
      else if recordB.generation < recordA.generation then
        result .selectedA (some recordA)
      else result .selectedB (some recordB)

end BmxUpdate
