import BmxUpdate.JournalCodec
import BmxUpdate.Library.Crc

/-!
# The journal format is canonical

A record has one encoding, and an encoding with a short error is not one.
`serializeJournal_of_parseJournal` is the way back from bytes to bytes;
`parseJournal_burst` says that no error confined to 32 consecutive bits is read.
-/

namespace BmxUpdate

open Wire

/-! ## From bytes to bytes -/

theorem JournalState.toByte_of_ofByte {b : UInt8} {state : JournalState}
    (h : JournalState.ofByte b = some state) : state.toByte = b := by
  unfold JournalState.ofByte at h
  split_ifs at h with h0 h1 h2 h3 h4 h5 h6 h7 h8 h9 <;> cases h <;>
    first
      | exact h0.symm | exact h1.symm | exact h2.symm | exact h3.symm | exact h4.symm
      | exact h5.symm | exact h6.symm | exact h7.symm | exact h8.symm | exact h9.symm

theorem BoardFamily.toByte_of_ofByte {b : UInt8} {board : BoardFamily}
    (h : BoardFamily.ofByte b = some board) : board.toByte = b := by
  unfold BoardFamily.ofByte at h
  split_ifs at h with h0 h1 h2 <;> cases h
  · exact h0.symm
  · exact h1.symm
  · exact h2.symm

private theorem encode_uint64_slice {offset : Nat} {bytes : Bytes}
    (h : offset + 8 ≤ bytes.length) :
    encodeLe 8 (UInt64.ofNat (decodeLe (slice offset 8 bytes))).toNat = slice offset 8 bytes := by
  have hlt : decodeLe (slice offset 8 bytes) < 2 ^ 64 := by
    have hlt := decodeLe_lt (slice offset 8 bytes)
    rw [length_slice h] at hlt
    omega
  rw [UInt64.toNat_ofNat', Nat.mod_eq_of_lt hlt, encodeLe_decodeLe_slice h]

private theorem encode_uint16_slice {offset : Nat} {bytes : Bytes}
    (h : offset + 2 ≤ bytes.length) :
    encodeLe 2 (UInt16.ofNat (decodeLe (slice offset 2 bytes))).toNat = slice offset 2 bytes := by
  have hlt : decodeLe (slice offset 2 bytes) < 2 ^ 16 := by
    have hlt := decodeLe_lt (slice offset 2 bytes)
    rw [length_slice h] at hlt
    omega
  rw [UInt16.toNat_ofNat', Nat.mod_eq_of_lt hlt, encodeLe_decodeLe_slice h]

/-- What `ParseJournal` checks before it looks at the record. -/
structure JournalFraming (encoded : Bytes) : Prop where
  length : encoded.length = kJournalEncodedSize
  magic : slice 0 8 encoded = kJournalMagic
  version : decodeLe (slice 8 2 encoded) = kJournalFormatVersion
  size : decodeLe (slice 10 2 encoded) = kJournalEncodedSize
  reserved : slice 57 7 encoded = List.replicate 7 0
  crc : decodeLe (slice kJournalCrcOffset 4 encoded) =
    calculateCrc32 (slice 0 kJournalCrcOffset encoded)

/-- The bytes the CRC covers, and the CRC. -/
theorem JournalFraming.split {encoded : Bytes} (h : JournalFraming encoded) :
    slice 0 kJournalCrcOffset encoded ++ slice kJournalCrcOffset 4 encoded = encoded := by
  rw [slice_append_slice (Nat.zero_add _).symm]
  exact slice_all h.length

theorem parseJournal_eq_ok {encoded : Bytes} {r : JournalRecord}
    (h : parseJournal encoded = .ok r) :
    JournalFraming encoded ∧ decodeJournal encoded = some r ∧ RecordIsValid r := by
  have hvalid := recordIsValid_of_parseJournal h
  unfold parseJournal at h
  split_ifs at h with hlength hmagic hversion hsize hreserved hcrc
  refine ⟨⟨?_, ?_, ?_, ?_, ?_, ?_⟩, ?_, hvalid⟩
  · exact not_not.mp hlength
  · exact not_not.mp hmagic
  · exact not_not.mp hversion
  · exact not_not.mp hsize
  · exact not_not.mp hreserved
  · exact not_not.mp hcrc
  · split at h
    · cases h
    · next parsed hdecode =>
        split_ifs at h
        cases h
        exact hdecode

/-- Every byte before the CRC is a field of the record, or is checked. -/
theorem journalBody_of_decodeJournal {encoded : Bytes} {r : JournalRecord}
    (hframing : JournalFraming encoded) (h : decodeJournal encoded = some r) :
    journalBody r = slice 0 kJournalCrcOffset encoded := by
  have hlength : encoded.length = 188 := hframing.length
  simp only [decodeJournal, Option.bind_eq_bind, Option.bind_eq_some_iff, Option.pure_def,
    Option.some.injEq] at h
  obtain ⟨state, hstate, board, hboard, rfl⟩ := h
  have hversion : encodeLe 2 kJournalFormatVersion = slice 8 2 encoded := by
    rw [← hframing.version, encodeLe_decodeLe_slice (by omega)]
  have hsize : encodeLe 2 kJournalEncodedSize = slice 10 2 encoded := by
    rw [← hframing.size, encodeLe_decodeLe_slice (by omega)]
  simp only [journalBody, hversion, hsize, ← hframing.magic, ← hframing.reserved,
    JournalState.toByte_of_ofByte hstate, BoardFamily.toByte_of_ofByte hboard]
  rw [encode_uint64_slice (by omega), encode_uint64_slice (by omega),
    encode_uint64_slice (by omega), encode_uint64_slice (by omega),
    encode_uint64_slice (by omega), encode_uint16_slice (by omega),
    encodeLe_decodeLe_slice (by omega), encodeLe_decodeLe_slice (by omega),
    Block.bytes_ofBytes (length_slice (by omega)), Block.bytes_ofBytes (length_slice (by omega)),
    Block.bytes_ofBytes (length_slice (by omega)), Block.bytes_ofBytes (length_slice (by omega)),
    slice_one (by omega), slice_one (by omega), slice_one (by omega)]
  -- the fields follow one another without a gap
  simp only [slice_append_slice, Nat.reduceAdd]
  rfl

/-- An accepted encoding is the one that its record is written as. -/
theorem serializeJournal_of_parseJournal {encoded : Bytes} {r : JournalRecord}
    (h : parseJournal encoded = .ok r) : serializeJournal r = some encoded := by
  obtain ⟨hframing, hdecode, hvalid⟩ := parseJournal_eq_ok h
  have hlength : encoded.length = 188 := hframing.length
  have hcrc : encodeLe 4 (calculateCrc32 (slice 0 kJournalCrcOffset encoded)) =
      slice kJournalCrcOffset 4 encoded := by
    rw [← hframing.crc]
    exact encodeLe_decodeLe_slice (by simp [kJournalCrcOffset, kJournalEncodedSize, hlength])
  rw [serializeJournal, if_pos hvalid, journalBody_of_decodeJournal hframing hdecode, hcrc,
    hframing.split]

/-! ## Short errors -/

/-- The bytes with their CRC leave the register at one value. -/
theorem register_of_framing {encoded : Bytes} (h : JournalFraming encoded) :
    Nat.repeat (Crc.shift 0xedb88320) (8 * kJournalCrcOffset)
      (0xffffffff ^^^ decodeLe encoded) = 0xffffffff := by
  have hlength : encoded.length = 188 := h.length
  have hbody : (slice 0 kJournalCrcOffset encoded).length = kJournalCrcOffset :=
    length_slice (by simp [kJournalCrcOffset, kJournalEncodedSize, hlength])
  have hregister : calculateCrc32 (slice 0 kJournalCrcOffset encoded) =
      Nat.repeat (Crc.shift 0xedb88320) (8 * kJournalCrcOffset)
        (0xffffffff ^^^ decodeLe (slice 0 kJournalCrcOffset encoded)) ^^^ 0xffffffff := by
    have hfold := Crc.foldl_feed 0xedb88320 (slice 0 kJournalCrcOffset encoded) 0xffffffff
    rw [hbody] at hfold
    rw [← hfold]
    rfl
  calc Nat.repeat (Crc.shift 0xedb88320) (8 * kJournalCrcOffset) (0xffffffff ^^^ decodeLe encoded)
      = Nat.repeat (Crc.shift 0xedb88320) (8 * kJournalCrcOffset)
          (0xffffffff ^^^ decodeLe (slice 0 kJournalCrcOffset encoded)) ^^^
            decodeLe (slice kJournalCrcOffset 4 encoded) := by
        conv => lhs; rw [← h.split, Crc.decodeLe_append_eq_xor, hbody, ← Nat.xor_assoc,
          Crc.shifts_xor, Crc.shifts_shiftLeft]
    _ = 0xffffffff := by
        rw [h.crc, hregister, ← Nat.xor_assoc, Nat.xor_self, Nat.zero_xor]

/-- An error confined to 32 consecutive bits is not read. -/
theorem parseJournal_burst {encoded corrupted : Bytes} {r r' : JournalRecord} {start : Nat}
    (h : parseJournal encoded = .ok r) (hburst : Crc.Burst 32 start encoded corrupted) :
    parseJournal corrupted ≠ .ok r' := by
  intro h'
  obtain ⟨m, hzero, hm, hpattern⟩ := hburst.exists_pattern
  have hregister := register_of_framing (parseJournal_eq_ok h).1
  have hregister' := register_of_framing (parseJournal_eq_ok h').1
  have hsum := Crc.shifts_xor 0xedb88320 (8 * kJournalCrcOffset)
    (0xffffffff ^^^ decodeLe corrupted) (0xffffffff ^^^ decodeLe encoded)
  rw [hregister, hregister', Nat.xor_self] at hsum
  have hcancel : (0xffffffff ^^^ decodeLe corrupted) ^^^ (0xffffffff ^^^ decodeLe encoded) =
      m <<< start := by
    rw [← hpattern, Nat.xor_comm 0xffffffff (decodeLe corrupted), Nat.xor_assoc,
      ← Nat.xor_assoc 0xffffffff, Nat.xor_self, Nat.zero_xor]
  rw [hcancel] at hsum
  have hpoly : (0xedb88320 : Nat) < 2 ^ (31 + 1) := by decide
  have htop : (0xedb88320 : Nat).testBit 31 = true := by decide
  exact Crc.shifts_burst_ne_zero hpoly htop hm hzero hsum

/-- The journal codec is a bijection between the valid records and the accepted byte strings,
and reads no record from one with an error of at most 32 consecutive bits. -/
theorem journal_codec_canonical :
    (∀ r, RecordIsValid r → ∃ encoded, serializeJournal r = some encoded ∧
      encoded.length = kJournalEncodedSize ∧
        ∃ r', parseJournal encoded = .ok r' ∧ journalRecordsEqual r' r = true) ∧
    (∀ encoded r, parseJournal encoded = .ok r → serializeJournal r = some encoded) ∧
    (∀ r encoded start corrupted, serializeJournal r = some encoded →
      Crc.Burst 32 start encoded corrupted → ∀ r', parseJournal corrupted ≠ .ok r') := by
  refine ⟨?_, ?_, ?_⟩
  · intro r hvalid
    have hserialize : serializeJournal r =
        some (journalBody r ++ encodeLe 4 (calculateCrc32 (journalBody r))) := if_pos hvalid
    exact ⟨_, hserialize, length_serializeJournal hserialize, r,
      parseJournal_serializeJournal hserialize, journalRecordsEqual_iff.mpr rfl⟩
  · intro encoded r h
    exact serializeJournal_of_parseJournal h
  · intro r encoded start corrupted h hburst r'
    exact parseJournal_burst (parseJournal_serializeJournal h) hburst

end BmxUpdate
