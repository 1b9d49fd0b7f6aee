import BmxUpdate.JournalCodec
import BmxUpdate.Orchestrator.Validate

/-!
# The persisted request record

The 288-byte file in which `UpdateTransactionRequestStore` keeps a transaction
request (`update_transaction_store.cpp`).  The authentication inputs themselves
are in four payload files; the record holds their sizes and digests, the local
identity of the transaction, the digest of the root it belongs to, two reserved
ranges and a CRC-32 of everything before it.  Its integers are big-endian.

A path is the root as it is spelled, since the record binds the spelling.
-/

namespace BmxUpdate

open Wire Volumes

/-! ## Payloads -/

/-- The four payloads, in the order of `kPayloadNames`. -/
inductive Payload where
  | installed
  | gitHub
  | manifest
  | signature
deriving DecidableEq, Repr

namespace Payload

def all : List Payload := [installed, gitHub, manifest, signature]

theorem mem_all (payload : Payload) : payload ∈ all := by cases payload <;> decide

/-- What holds of every payload by its position holds of every payload. -/
theorem of_position {P : Payload → Prop}
    (h : ∀ k which, k < all.length → all[k]? = some which → P which) (which : Payload) :
    P which := by
  obtain ⟨k, hk, hget⟩ := List.mem_iff_getElem.mp (mem_all which)
  exact h k which hk (by rw [List.getElem?_eq_getElem hk, hget])

/-- `kPayloadNames` -/
def fileName : Payload → String
  | installed => "request-installed.bin"
  | gitHub => "request-github.bin"
  | manifest => "request-manifest.bin"
  | signature => "request-signature.bin"

/-- The `maximums` of `LoadNamed`. -/
def maximum : Payload → Nat
  | installed => kMaximumBuildInfoBytes
  | gitHub => kMaximumGitHubReleaseResponseBytes
  | manifest => kMaximumReleaseManifestBytes
  | signature => kMaximumSignatureEnvelopeBytes

end Payload

/-- The `payloads` of `Save`. -/
def ValidatedReleaseDownload.payload (release : ValidatedReleaseDownload) : Payload → Bytes
  | .installed => release.installedBuildInfo
  | .gitHub => release.githubResponse
  | .manifest => release.manifest
  | .signature => release.signature

/-! ## The digest of a root -/

/-- The bytes of a root as it is spelled. -/
def rootBytes : Path → Bytes
  | [] => []
  | [name] => bytesOf name
  | name :: rest => bytesOf name ++ 0x2f :: rootBytes rest

/-- The domain of `HashRoot`: "BMX-REQ-ROOT-V1" and a zero byte. -/
def rootHashDomain : Bytes :=
  [0x42, 0x4d, 0x58, 0x2d, 0x52, 0x45, 0x51, 0x2d, 0x52, 0x4f, 0x4f, 0x54, 0x2d, 0x56, 0x31, 0]

/-- What `HashRoot` hashes. -/
def rootPreimage (root : Path) : Bytes :=
  rootHashDomain ++ (encodeBe 4 (rootBytes root).length ++ rootBytes root)

/-- A valid name is a printable ASCII text without separators. -/
theorem printable_of_fatComponentValid {name : String} (h : fatComponentValid name = true) :
    name.toList ≠ [] ∧ ∀ c ∈ name.toList, c.toNat < 256 ∧ c.toNat ≠ 0x2f := by
  simp only [fatComponentValid, Bool.and_eq_true, decide_eq_true_eq, List.all_eq_true] at h
  obtain ⟨⟨⟨⟨⟨⟨hne, -⟩, hall⟩, -⟩, -⟩, -⟩, -⟩ := h
  refine ⟨hne, fun c hc => ?_⟩
  obtain ⟨⟨-, hle⟩, hallowed⟩ := hall c hc
  constructor
  · have hle' : c.toNat ≤ '~'.toNat := hle
    have htilde : '~'.toNat = 126 := rfl
    omega
  · intro hslash
    apply hallowed
    have hchar : c = '/' := Char.toNat_inj.mp hslash
    rw [hchar]
    decide

theorem bytesOf_inj {a b : String} (ha : fatComponentValid a = true)
    (hb : fatComponentValid b = true) (h : bytesOf a = bytesOf b) : a = b := by
  have hinj : ∀ (xs ys : List Char), (∀ c ∈ xs, c.toNat < 256) → (∀ c ∈ ys, c.toNat < 256) →
      (xs.map fun c => UInt8.ofNat c.toNat) = (ys.map fun c => UInt8.ofNat c.toNat) → xs = ys := by
    intro xs
    induction xs with
    | nil =>
        intro ys _ _ h
        simpa using h.symm
    | cons x xs ih =>
        intro ys hxs hys h
        cases ys with
        | nil => simp at h
        | cons y ys =>
            simp only [List.map_cons, List.cons.injEq] at h
            have hx := hxs x List.mem_cons_self
            have hy := hys y List.mem_cons_self
            have hbyte := congrArg UInt8.toNat h.1
            simp only [UInt8.toNat_ofNat'] at hbyte
            have hchar : x = y := Char.toNat_inj.mp (by omega)
            rw [hchar, ih ys (fun c hc => hxs c (List.mem_cons_of_mem _ hc))
              (fun c hc => hys c (List.mem_cons_of_mem _ hc)) h.2]
  exact String.toList_inj.mp (hinj _ _
    (fun c hc => ((printable_of_fatComponentValid ha).2 c hc).1)
    (fun c hc => ((printable_of_fatComponentValid hb).2 c hc).1) h)

theorem separator_not_mem_bytesOf {name : String} (h : fatComponentValid name = true) :
    0x2f ∉ bytesOf name := by
  intro hmem
  obtain ⟨c, hc, hbyte⟩ := List.mem_map.mp hmem
  obtain ⟨hlt, hne⟩ := (printable_of_fatComponentValid h).2 c hc
  have := congrArg UInt8.toNat hbyte
  simp only [UInt8.toNat_ofNat'] at this
  rw [Nat.mod_eq_of_lt hlt] at this
  exact hne this

/-- What stands before the first separator, and what after it. -/
theorem split_at_separator {a b x y : Bytes} (ha : 0x2f ∉ a) (hb : 0x2f ∉ b)
    (h : a ++ 0x2f :: x = b ++ 0x2f :: y) : a = b ∧ x = y := by
  induction a generalizing b with
  | nil =>
      cases b with
      | nil => exact ⟨rfl, by simpa using h⟩
      | cons c b =>
          simp only [List.nil_append, List.cons_append, List.cons.injEq] at h
          exact absurd (h.1 ▸ List.mem_cons_self) hb
  | cons c a ih =>
      cases b with
      | nil =>
          simp only [List.nil_append, List.cons_append, List.cons.injEq] at h
          exact absurd (h.1 ▸ List.mem_cons_self) ha
      | cons c' b =>
          simp only [List.cons_append, List.cons.injEq] at h
          obtain ⟨hrest, hxy⟩ := ih (fun hm => ha (List.mem_cons_of_mem _ hm))
            (fun hm => hb (List.mem_cons_of_mem _ hm)) h.2
          exact ⟨by rw [h.1, hrest], hxy⟩

/-- A spelling with a separator after every name. -/
theorem rootBytes_concat {root : Path} (hne : root ≠ []) :
    rootBytes root ++ [0x2f] = root.flatMap fun name => bytesOf name ++ [0x2f] := by
  induction root with
  | nil => exact absurd rfl hne
  | cons name rest ih =>
      cases rest with
      | nil => simp [rootBytes]
      | cons name' rest =>
          rw [List.flatMap_cons, ← ih (by simp)]
          simp [rootBytes]

theorem names_inj {a b : Path} (ha : ∀ name ∈ a, fatComponentValid name = true)
    (hb : ∀ name ∈ b, fatComponentValid name = true)
    (h : (a.flatMap fun name => bytesOf name ++ [0x2f]) =
      b.flatMap fun name => bytesOf name ++ [0x2f]) : a = b := by
  induction a generalizing b with
  | nil =>
      cases b with
      | nil => rfl
      | cons name b => simp at h
  | cons name a ih =>
      cases b with
      | nil => simp at h
      | cons name' b =>
          simp only [List.flatMap_cons, List.append_assoc, List.singleton_append] at h
          have hname := ha name List.mem_cons_self
          have hname' := hb name' List.mem_cons_self
          obtain ⟨hbytes, hrest⟩ := split_at_separator (separator_not_mem_bytesOf hname)
            (separator_not_mem_bytesOf hname') h
          rw [bytesOf_inj hname hname' hbytes,
            ih (fun n hn => ha n (List.mem_cons_of_mem _ hn))
              (fun n hn => hb n (List.mem_cons_of_mem _ hn)) hrest]

/-- A valid root is determined by what `HashRoot` hashes. -/
theorem rootPreimage_inj {a b : Path} {maximum : Nat} (ha : validRelativePath a maximum = true)
    (hb : validRelativePath b maximum = true) (h : rootPreimage a = rootPreimage b) : a = b := by
  simp only [validRelativePath, Bool.and_eq_true, decide_eq_true_eq, List.all_eq_true] at ha hb
  have hsize := List.append_cancel_left h
  have hbytes : rootBytes a = rootBytes b := (List.append_inj hsize (by simp)).2
  refine names_inj ha.2 hb.2 ?_
  rw [← rootBytes_concat ha.1.1, ← rootBytes_concat hb.1.1, hbytes]

/-! ## The record -/

def kPersistedUpdateRequestStateBytes : Nat := 288

/-- "BMXREQ1" and a zero byte. -/
def kStateMagic : Bytes := [0x42, 0x4d, 0x58, 0x52, 0x45, 0x51, 0x31, 0]

def kStateVersion : Nat := 1

def kStateCrcOffset : Nat := kPersistedUpdateRequestStateBytes - 4

def ReleaseAcquisitionMode.toByte : ReleaseAcquisitionMode → UInt8
  | .publishedStable => 0
  | .preparedDraft => 1

/-- The mode of a byte that is at most `PreparedDraft`. -/
def ReleaseAcquisitionMode.ofByte (b : UInt8) : ReleaseAcquisitionMode :=
  if b = 0 then .publishedStable else .preparedDraft

@[simp] theorem ReleaseAcquisitionMode.ofByte_toByte (mode : ReleaseAcquisitionMode) :
    ReleaseAcquisitionMode.ofByte mode.toByte = mode := by
  cases mode <;> rfl

/-- The fields of a persisted request record. -/
structure RequestState where
  board : BoardFamily
  size : Payload → Nat
  oldBootGeneration : UInt64
  newBootGeneration : UInt64
  transactionId : TransactionId
  consentSha256 : Digest
  resetRequired : Bool
  resetApproved : Bool
  acquisitionMode : ReleaseAcquisitionMode
  sha256 : Payload → Digest
  rootSha256 : Digest

namespace RequestState

/-- The bytes of a record before its CRC, in the order of `StateOffset`. -/
def body (state : RequestState) : Bytes :=
  kStateMagic ++ (encodeBe 4 kStateVersion ++ (encodeBe 4 state.board.toByte.toNat ++
  (encodeBe 4 (state.size .installed) ++ (encodeBe 4 (state.size .gitHub) ++
  (encodeBe 4 (state.size .manifest) ++ (encodeBe 4 (state.size .signature) ++
  (encodeBe 8 state.oldBootGeneration.toNat ++ (encodeBe 8 state.newBootGeneration.toNat ++
  (state.transactionId.bytes ++ (state.consentSha256.bytes ++
  ([if state.resetRequired then 1 else 0] ++ ([if state.resetApproved then 1 else 0] ++
  ([state.acquisitionMode.toByte] ++ (List.replicate 13 0 ++
  ((state.sha256 .installed).bytes ++ ((state.sha256 .gitHub).bytes ++
  ((state.sha256 .manifest).bytes ++ ((state.sha256 .signature).bytes ++
  (state.rootSha256.bytes ++ List.replicate 12 0)))))))))))))))))))

/-- The record as `Save` lays it out. -/
def encode (state : RequestState) : Bytes :=
  state.body ++ encodeBe 4 (calculateCrc32 state.body)

/-- The offsets of the fields of a payload. -/
def sizeOffset : Payload → Nat
  | .installed => 16
  | .gitHub => 20
  | .manifest => 24
  | .signature => 28

def hashOffset : Payload → Nat
  | .installed => 112
  | .gitHub => 144
  | .manifest => 176
  | .signature => 208

/-- The fields `LoadNamed` reads. -/
def decode (board : BoardFamily) (encoded : Bytes) : RequestState where
  board := board
  size := fun payload => decodeBe (slice (sizeOffset payload) 4 encoded)
  oldBootGeneration := UInt64.ofNat (decodeBe (slice 32 8 encoded))
  newBootGeneration := UInt64.ofNat (decodeBe (slice 40 8 encoded))
  transactionId := .ofBytes 16 (slice 48 16 encoded)
  consentSha256 := .ofBytes 32 (slice 64 32 encoded)
  resetRequired := (slice 96 1 encoded).headD 0 ≠ 0
  resetApproved := (slice 97 1 encoded).headD 0 ≠ 0
  acquisitionMode := .ofByte ((slice 98 1 encoded).headD 0)
  sha256 := fun payload => .ofBytes 32 (slice (hashOffset payload) 32 encoded)
  rootSha256 := .ofBytes 32 (slice 240 32 encoded)

/-- The checks `LoadNamed` makes of a record of the right size, and its fields. -/
def parse (board : BoardFamily) (encoded : Bytes) : Option RequestState :=
  let resetRequired := (slice 96 1 encoded).headD 0
  let resetApproved := (slice 97 1 encoded).headD 0
  let acquisitionMode := (slice 98 1 encoded).headD 0
  if slice 0 8 encoded = kStateMagic ∧ decodeBe (slice 8 4 encoded) = kStateVersion ∧
      decodeBe (slice 12 4 encoded) = board.toByte.toNat ∧
      slice 99 13 encoded = List.replicate 13 0 ∧ slice 272 12 encoded = List.replicate 12 0 ∧
      resetRequired ≤ 1 ∧ resetApproved ≤ 1 ∧
      acquisitionMode ≤ ReleaseAcquisitionMode.preparedDraft.toByte ∧
      resetRequired = resetApproved ∧
      decodeBe (slice kStateCrcOffset 4 encoded) =
        calculateCrc32 (slice 0 kStateCrcOffset encoded) then
    some (decode board encoded)
  else none

@[simp] theorem length_body (state : RequestState) : state.body.length = kStateCrcOffset := by
  simp [body, kStateMagic, kStateCrcOffset, kPersistedUpdateRequestStateBytes]

@[simp] theorem length_encode (state : RequestState) :
    state.encode.length = kPersistedUpdateRequestStateBytes := by
  simp [encode, kStateCrcOffset, kPersistedUpdateRequestStateBytes]

/-! ## Round trip -/

section RoundTrip

variable {state : RequestState} {board : BoardFamily} {payload : Payload}

/-- The fields of an encoded record, each at its offset. -/
theorem slices_encode (state : RequestState) :
    slice 0 8 state.encode = kStateMagic ∧
      slice 8 4 state.encode = encodeBe 4 kStateVersion ∧
      slice 12 4 state.encode = encodeBe 4 state.board.toByte.toNat ∧
      slice 96 1 state.encode = [if state.resetRequired then 1 else 0] ∧
      slice 97 1 state.encode = [if state.resetApproved then 1 else 0] ∧
      slice 98 1 state.encode = [state.acquisitionMode.toByte] ∧
      slice 99 13 state.encode = List.replicate 13 0 ∧
      slice 272 12 state.encode = List.replicate 12 0 := by
  have hmagic : kStateMagic.length = 8 := rfl
  simp only [encode, body, List.append_assoc, slice_skip, slice_head, hmagic, length_encodeBe,
    Block.length_bytes, List.length_replicate, List.length_cons, List.length_nil, Nat.reduceAdd,
    Nat.reduceSub, Nat.reduceLeDiff, Nat.le_refl, and_self]

theorem uint64_decodeBe_encodeBe (v : UInt64) :
    UInt64.ofNat (decodeBe (encodeBe 8 v.toNat)) = v := by
  rw [decodeBe_encodeBe (by have := v.toNat_lt; omega)]
  exact UInt64.ofNat_toNat

theorem decode_size_encode (hsize : state.size payload < 2 ^ 32) :
    (decode board state.encode).size payload = state.size payload := by
  have hmagic : kStateMagic.length = 8 := rfl
  have hslice : slice (sizeOffset payload) 4 state.encode = encodeBe 4 (state.size payload) := by
    cases payload <;>
      simp only [sizeOffset, encode, body, List.append_assoc, slice_skip, slice_head, hmagic,
        length_encodeBe, Nat.reduceSub, Nat.reduceLeDiff, Nat.le_refl]
  change decodeBe (slice (sizeOffset payload) 4 state.encode) = state.size payload
  rw [hslice, decodeBe_encodeBe hsize]

theorem decode_sha256_encode :
    (decode board state.encode).sha256 payload = state.sha256 payload := by
  have hmagic : kStateMagic.length = 8 := rfl
  have hslice : slice (hashOffset payload) 32 state.encode = (state.sha256 payload).bytes := by
    cases payload <;>
      simp only [hashOffset, encode, body, List.append_assoc, slice_skip, slice_head, hmagic,
        length_encodeBe, Block.length_bytes, List.length_replicate, List.length_cons,
        List.length_nil, Nat.reduceAdd, Nat.reduceSub, Nat.reduceLeDiff, Nat.le_refl]
  change Block.ofBytes 32 (slice (hashOffset payload) 32 state.encode) = state.sha256 payload
  rw [hslice, Block.ofBytes_bytes]

theorem decode_rootSha256_encode (board : BoardFamily) (state : RequestState) :
    (decode board state.encode).rootSha256 = state.rootSha256 := by
  have hmagic : kStateMagic.length = 8 := rfl
  have hslice : slice 240 32 state.encode = state.rootSha256.bytes := by
    simp only [encode, body, List.append_assoc, slice_skip, slice_head, hmagic,
      length_encodeBe, Block.length_bytes, List.length_replicate, List.length_cons,
      List.length_nil, Nat.reduceAdd, Nat.reduceSub, Nat.reduceLeDiff, Nat.le_refl]
  change Block.ofBytes 32 (slice 240 32 state.encode) = state.rootSha256
  rw [hslice, Block.ofBytes_bytes]

/-- The fields that are no function of the payload are read back. -/
theorem decode_identity_encode (board : BoardFamily) (state : RequestState) :
    (decode board state.encode).oldBootGeneration = state.oldBootGeneration ∧
      (decode board state.encode).newBootGeneration = state.newBootGeneration ∧
      (decode board state.encode).transactionId = state.transactionId ∧
      (decode board state.encode).consentSha256 = state.consentSha256 ∧
      (decode board state.encode).resetRequired = state.resetRequired ∧
      (decode board state.encode).resetApproved = state.resetApproved ∧
      (decode board state.encode).acquisitionMode = state.acquisitionMode := by
  have hmagic : kStateMagic.length = 8 := rfl
  have hold : slice 32 8 state.encode = encodeBe 8 state.oldBootGeneration.toNat := by
    simp only [encode, body, List.append_assoc, slice_skip, slice_head, hmagic,
      length_encodeBe, Nat.reduceSub, Nat.reduceLeDiff, Nat.le_refl]
  have hnew : slice 40 8 state.encode = encodeBe 8 state.newBootGeneration.toNat := by
    simp only [encode, body, List.append_assoc, slice_skip, slice_head, hmagic,
      length_encodeBe, Nat.reduceSub, Nat.reduceLeDiff, Nat.le_refl]
  have hid : slice 48 16 state.encode = state.transactionId.bytes := by
    simp only [encode, body, List.append_assoc, slice_skip, slice_head, hmagic,
      length_encodeBe, Block.length_bytes, Nat.reduceSub, Nat.reduceLeDiff, Nat.le_refl]
  have hconsent : slice 64 32 state.encode = state.consentSha256.bytes := by
    simp only [encode, body, List.append_assoc, slice_skip, slice_head, hmagic,
      length_encodeBe, Block.length_bytes, Nat.reduceSub, Nat.reduceLeDiff, Nat.le_refl]
  obtain ⟨-, -, -, hrequired, happroved, hmode, -, -⟩ := slices_encode state
  simp only [decode, hold, hnew, hid, hconsent, hrequired, happroved, hmode,
    uint64_decodeBe_encodeBe, Block.ofBytes_bytes, List.headD_cons,
    ReleaseAcquisitionMode.ofByte_toByte, true_and]
  cases state.resetRequired <;> cases state.resetApproved <;> simp

theorem decode_encode (hsize : ∀ payload, state.size payload < 2 ^ 32)
    (hboard : state.board = board) : decode board state.encode = state := by
  obtain ⟨hold, hnew, hid, hconsent, hrequired, happroved, hmode⟩ :=
    decode_identity_encode board state
  have hsizes : (decode board state.encode).size = state.size :=
    funext fun payload => decode_size_encode (hsize payload)
  have hhashes : (decode board state.encode).sha256 = state.sha256 :=
    funext fun payload => decode_sha256_encode
  have hroot := decode_rootSha256_encode board state
  have hboard' : (decode board state.encode).board = state.board := hboard.symm
  generalize decode board state.encode = read at *
  cases read
  cases state
  simp_all

theorem decodeBe_crc_encode :
    decodeBe (slice kStateCrcOffset 4 state.encode) =
      calculateCrc32 (slice 0 kStateCrcOffset state.encode) := by
  have hbody : slice 0 kStateCrcOffset state.encode = state.body := slice_head (length_body state)
  rw [hbody, encode, slice_skip (by simp), length_body, Nat.sub_self, slice_all (by simp),
    decodeBe_encodeBe (calculateCrc32_lt state.body)]

/-- A record that is read for its own board is read back. -/
theorem parse_encode (hsize : ∀ payload, state.size payload < 2 ^ 32)
    (hreset : state.resetRequired = state.resetApproved) (hboard : state.board = board) :
    parse board state.encode = some state := by
  obtain ⟨hmagic, hversion, hboard', hrequired, happroved, hmode, hreserved, hreserved'⟩ :=
    slices_encode state
  unfold parse
  dsimp only
  rw [if_pos, decode_encode hsize hboard]
  rw [hmagic, hversion, hboard', hrequired, happroved, hmode, hreserved, hreserved', hboard,
    hreset]
  refine ⟨rfl, by decide, ?_, rfl, rfl, ?_, ?_, ?_, rfl, decodeBe_crc_encode⟩
  · exact decodeBe_encodeBe (by have := board.toByte.toNat_lt; omega)
  · cases state.resetApproved <;> decide
  · cases state.resetApproved <;> decide
  · cases state.acquisitionMode <;> decide

theorem toByte_injective {a b : BoardFamily} (h : a.toByte.toNat = b.toByte.toNat) : a = b := by
  cases a <;> cases b <;> first | rfl | (revert h; decide)

/-- A record is rejected for any board but its own. -/
theorem parse_encode_of_ne (hboard : state.board ≠ board) : parse board state.encode = none := by
  obtain ⟨-, -, hboard', -⟩ := slices_encode state
  refine if_neg ?_
  rintro ⟨-, -, hread, -⟩
  rw [hboard', decodeBe_encodeBe (by have := state.board.toByte.toNat_lt; omega)] at hread
  exact hboard (toByte_injective hread)

/-- What is read is for the board it was read for. -/
theorem parse_eq_some {encoded : Bytes} (h : parse board encoded = some state) :
    state = decode board encoded := by
  unfold parse at h
  dsimp only at h
  split at h
  · exact (Option.some.inj h).symm
  · cases h

end RoundTrip

end RequestState

end BmxUpdate
