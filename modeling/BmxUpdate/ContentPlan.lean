import BmxUpdate.Installer.Basic

/-!
# The records an installation keeps about the old files

Three small file formats below the transaction's state directory
(`update_installer.cpp`):

* an existence marker says whether a directory or a file was there before;
* a snapshot evidence file gives the size and the digest of the old file a
  snapshot was taken of;
* the content plan has one record for every manifest file, between a header that
  binds it to the transaction and a footer with totals and a digest.

Each is written as a function of what it records, and each parser accepts what
its writer wrote.
-/

namespace BmxUpdate

open Volumes Wire

/-! ## Existence markers -/

/-- "BMXEXST1". -/
def kExistenceMagic : Bytes := [0x42, 0x4d, 0x58, 0x45, 0x58, 0x53, 0x54, 0x31]

def kExistenceEvidenceBytes : Nat := 20

def byteOfBool (b : Bool) : UInt8 := if b then 1 else 0

/-- The bytes of a marker before its CRC. -/
def markerBody (directory existed : Bool) (index : Nat) : Bytes :=
  kExistenceMagic ++ [byteOfBool directory, byteOfBool existed, 0, 0] ++ encodeLe 4 index

/-- The bytes `EnsureMarker` writes. -/
def markerContent (directory existed : Bool) (index : Nat) : Bytes :=
  markerBody directory existed index ++
    encodeLe 4 (calculateCrc32 (markerBody directory existed index))

/-- The checks `MarkerExists` makes of a marker's bytes: what it says existed. -/
def parseMarker (directory : Bool) (index : Nat) (encoded : Bytes) : Option Bool :=
  let existed := (slice 9 1 encoded).headD 0
  if slice 0 8 encoded = kExistenceMagic ∧ slice 8 1 encoded = [byteOfBool directory] ∧
      existed ≤ 1 ∧ slice 10 2 encoded = [0, 0] ∧ decodeLe (slice 12 4 encoded) = index ∧
      decodeLe (slice 16 4 encoded) = calculateCrc32 (slice 0 16 encoded) then
    some (existed ≠ 0)
  else none

/-! ## Snapshot evidence -/

/-- "BMXSNAP1". -/
def kSnapshotMagic : Bytes := [0x42, 0x4d, 0x58, 0x53, 0x4e, 0x41, 0x50, 0x31]

def kSnapshotEvidenceBytes : Nat := 60

/-- What is known of an old file: nothing was there, or its size and digest. -/
structure OldFile where
  existed : Bool
  size : Nat
  digest : Digest
deriving DecidableEq

/-- The bytes of a snapshot evidence file before its CRC. -/
def snapshotEvidenceBody (old : OldFile) : Bytes :=
  kSnapshotMagic ++ (byteOfBool old.existed :: List.replicate 7 0) ++ encodeLe 8 old.size ++
    old.digest.bytes

/-- The bytes `WriteSnapshotEvidence` writes. -/
def snapshotEvidenceContent (old : OldFile) : Bytes :=
  snapshotEvidenceBody old ++
    encodeLe 4 (calculateCrc32 (snapshotEvidenceBody old))

/-- The checks `ReadSnapshotEvidence` makes of an evidence file's bytes. -/
def parseSnapshotEvidence (encoded : Bytes) : Option OldFile :=
  let existed := (slice 8 1 encoded).headD 0
  let old : OldFile :=
    ⟨existed ≠ 0, decodeLe (slice 16 8 encoded), .ofBytes 32 (slice 24 32 encoded)⟩
  if slice 0 8 encoded = kSnapshotMagic ∧ existed ≤ 1 ∧
      slice 9 7 encoded = List.replicate 7 0 ∧
      decodeLe (slice 56 4 encoded) = calculateCrc32 (slice 0 56 encoded) ∧
      (old.existed = false → old.size = 0 ∧ old.digest = .zero 32) then
    some old
  else none

/-! ## Content plan records -/

/-- `ContentPlanRecord`, its flag word as three flags. -/
structure ContentPlanRecord where
  noop : Bool
  sourceExisted : Bool
  oldDigestValid : Bool
  oldSize : Nat
  oldDigest : Digest
deriving DecidableEq

/-- The flag word of a record. -/
def ContentPlanRecord.flags (r : ContentPlanRecord) : Nat :=
  (if r.noop then 1 else 0) + (if r.sourceExisted then 2 else 0) +
    (if r.oldDigestValid then 4 else 0)

def kContentPlanRecordBytes : Nat := 48

/-- `EncodeContentPlanRecord` -/
def encodeContentPlanRecord (index : Nat) (r : ContentPlanRecord) : Bytes :=
  encodeLe 4 index ++ encodeLe 4 r.flags ++ encodeLe 8 r.oldSize ++ r.oldDigest.bytes

/-- The conditions on the fields of a record `DecodeContentPlanRecord` checks. -/
def ContentPlanRecord.Consistent (r : ContentPlanRecord) : Prop :=
  (r.sourceExisted = false → r.oldSize = 0 ∧ r.oldDigest = .zero 32) ∧
    (r.oldDigestValid = false → r.oldDigest = .zero 32) ∧
    (r.oldDigestValid = true → r.sourceExisted = true) ∧
    (r.noop = true → r.sourceExisted = true ∧ r.oldDigestValid = true)

instance (r : ContentPlanRecord) : Decidable r.Consistent :=
  inferInstanceAs (Decidable (_ ∧ _))

/-- `DecodeContentPlanRecord` -/
def decodeContentPlanRecord (expectedIndex : Nat) (encoded : Bytes) :
    Option ContentPlanRecord :=
  let flags := decodeLe (slice 4 4 encoded)
  let r : ContentPlanRecord :=
    { noop := flags % 2 = 1
      sourceExisted := flags / 2 % 2 = 1
      oldDigestValid := flags / 4 % 2 = 1
      oldSize := decodeLe (slice 8 8 encoded)
      oldDigest := .ofBytes 32 (slice 16 32 encoded) }
  if decodeLe (slice 0 4 encoded) = expectedIndex ∧ flags < 8 ∧ r.Consistent then some r
  else none

/-! ## The whole plan -/

def kContentPlanHeaderBytes : Nat := 128

def kContentPlanFooterBytes : Nat := 80

/-- `kContentPlanFinalMagic` ("BMXPLN1F") and `kContentPlanPreparedMagic`
("BMXPLN1P"). -/
def contentPlanMagic (finalPlan : Bool) : Bytes :=
  [0x42, 0x4d, 0x58, 0x50, 0x4c, 0x4e, 0x31, if finalPlan then 0x46 else 0x50]

/-- "BMXPLEND". -/
def kContentPlanFooterMagic : Bytes := [0x42, 0x4d, 0x58, 0x50, 0x4c, 0x45, 0x4e, 0x44]

/-- Numbers of unchanged and changed files and their bytes. -/
structure ContentPlanTotals where
  unchangedCount : Nat
  changedCount : Nat
  unchangedBytes : Nat
  changedBytes : Nat
deriving DecidableEq

/-- `CheckedAdd` -/
def checkedAdd (left right : Nat) : Option Nat :=
  if left + right < 2 ^ 64 then some (left + right) else none

namespace Env

variable (env : Env)

/-- The header `WriteContentPlanFile` writes and `LoadContentPlan` compares
field by field. -/
def contentPlanHeader (finalPlan : Bool) : Bytes :=
  contentPlanMagic finalPlan ++ encodeLe 4 1 ++ encodeLe 4 kContentPlanHeaderBytes ++
    encodeLe 4 kContentPlanRecordBytes ++ encodeLe 4 env.asset.files.length ++
    env.request.identity.transactionId.bytes ++
    encodeLe 8 env.request.identity.sourceReleaseSequence.toNat ++
    encodeLe 8 env.request.manifest.releaseSequence.toNat ++
    env.request.identity.manifestSha256.bytes ++ env.request.identity.consentSha256.bytes ++
    [byteOfBool env.request.identity.resetRequired,
      byteOfBool env.request.identity.resetApproved] ++ List.replicate 6 0

/-- One turn of the counting of `WriteContentPlanFile` and `LoadContentPlan`. -/
def countRecord (totals : ContentPlanTotals) (file : ManifestFile) (r : ContentPlanRecord) :
    Option ContentPlanTotals :=
  if r.noop then
    (checkedAdd totals.unchangedBytes (env.effectiveSize file)).map fun bytes =>
      { totals with unchangedCount := totals.unchangedCount + 1, unchangedBytes := bytes }
  else
    (checkedAdd totals.changedBytes (env.effectiveSize file)).map fun bytes =>
      { totals with changedCount := totals.changedCount + 1, changedBytes := bytes }

/-- The totals of a plan's records; `none` where a byte count overflows. -/
def contentPlanTotals (totals : ContentPlanTotals) :
    List ManifestFile → List ContentPlanRecord → Option ContentPlanTotals
  | file :: files, r :: records =>
      (env.countRecord totals file r).bind fun next => contentPlanTotals next files records
  | _, _ => some totals

/-- The footer before its digest. -/
def contentPlanFooter (totals : ContentPlanTotals) : Bytes :=
  kContentPlanFooterMagic ++ encodeLe 4 totals.unchangedCount ++
    encodeLe 4 totals.changedCount ++ encodeLe 8 totals.unchangedBytes ++
    encodeLe 8 totals.changedBytes ++ List.replicate 16 0

/-- The encoded records, from the index of the first one. -/
def contentPlanRecords : Nat → List ContentPlanRecord → Bytes
  | _, [] => []
  | index, r :: records =>
      encodeContentPlanRecord index r ++ contentPlanRecords (index + 1) records

/-- The bytes of a plan before its digest. -/
def contentPlanBody (finalPlan : Bool) (records : List ContentPlanRecord)
    (totals : ContentPlanTotals) : Bytes :=
  env.contentPlanHeader finalPlan ++
    (contentPlanRecords 0 records ++ contentPlanFooter totals)

/-- The bytes `WriteContentPlanFile` writes for these records, unless a byte
count overflows. -/
def contentPlanContent (finalPlan : Bool) (records : List ContentPlanRecord) : Option Bytes :=
  (env.contentPlanTotals ⟨0, 0, 0, 0⟩ env.asset.files records).map fun totals =>
    env.contentPlanBody finalPlan records totals ++
      (env.sha256 (env.contentPlanBody finalPlan records totals)).bytes

/-- The size every plan of this manifest has. -/
def contentPlanSize : Nat :=
  kContentPlanHeaderBytes + env.asset.files.length * kContentPlanRecordBytes +
    kContentPlanFooterBytes

/-- Decode `n` records, the first of them with the given index. -/
def decodeContentPlanRecords : Nat → Nat → Bytes → Option (List ContentPlanRecord)
  | _, 0, _ => some []
  | index, n + 1, encoded =>
      (decodeContentPlanRecord index (encoded.take kContentPlanRecordBytes)).bind fun r =>
        (decodeContentPlanRecords (index + 1) n (encoded.drop kContentPlanRecordBytes)).map
          (r :: ·)

/-- The checks `LoadContentPlan` makes of one record against its file: a no-op
record names the file's new content, and a final plan knows the digest of every
old file that a rollback would need. -/
def planRecordFits (finalPlan : Bool) (file : ManifestFile) (r : ContentPlanRecord) : Bool :=
  (!r.noop || (r.oldSize = env.effectiveSize file && r.oldDigest = env.effectiveDigest file)) &&
    (!(finalPlan && file.policy ≠ .preserve && r.sourceExisted) || r.oldDigestValid)

/-- `LoadContentPlan` on the bytes of the plan it selected. -/
def parseContentPlan (finalPlan : Bool) (encoded : Bytes) : Option (List ContentPlanRecord) :=
  if encoded.length ≠ env.contentPlanSize then none
  else if encoded.take kContentPlanHeaderBytes ≠ env.contentPlanHeader finalPlan then none
  else do
    let records ← decodeContentPlanRecords 0 env.asset.files.length
      (encoded.drop kContentPlanHeaderBytes)
    if !(env.asset.files.zip records).all
        (fun (file, r) => env.planRecordFits finalPlan file r) then none
    else do
      let totals ← env.contentPlanTotals ⟨0, 0, 0, 0⟩ env.asset.files records
      let footerBegin := kContentPlanHeaderBytes +
        env.asset.files.length * kContentPlanRecordBytes
      if slice footerBegin 48 encoded ≠ contentPlanFooter totals then none
      else if slice (footerBegin + 48) 32 encoded ≠
          (env.sha256 (encoded.take (footerBegin + 48))).bytes then none
      else some records

/-- The bytes of the record `ReadContentPlanRecord` reads. -/
def contentPlanRecordSlice (index : Nat) (encoded : Bytes) : Bytes :=
  slice (kContentPlanHeaderBytes + index * kContentPlanRecordBytes) kContentPlanRecordBytes encoded

end Env

end BmxUpdate
