import BmxUpdate.FatPathPolicy
import BmxUpdate.Library.Checks
import BmxUpdate.Library.Interaction
import BmxUpdate.UpdateTypes

/-!
# Opening a release archive

`ZipReader::Open` (`zip_reader.cpp`): find the end record, scan the central
directory, look for files used as directories, and compare every local header
with its entry.  The archive is a `SeekableZipSource`, so `openArchive` is a program that
asks for the size and for ranges of bytes and is answered by the source.
-/

namespace BmxUpdate

namespace Zip

open Wire Interaction FatPath Checks

inductive ZipStatus where
  | invalidArgument | notOpen | sourceIo | archiveSizeInvalid | endRecordInvalid
  | archiveCommentForbidden | multiDiskForbidden | zip64Forbidden | entryCountInvalid
  | storageTooSmall | centralDirectoryInvalid | unsupportedVersion | unsupportedFlags
  | unsupportedCompression | extraFieldForbidden | memberCommentForbidden
  | specialFileForbidden | directoryMetadataInvalid | pathInvalid | pathTooLong
  | pathEncodingInvalid | nonAsciiPathUnsupported | duplicatePath | fatCaseCollision
  | fileUsedAsDirectory | memberSizeInvalid | compressionRatioInvalid | offsetInvalid
  | localHeaderMismatch | installedSizeInvalid | expectedInventoryInvalid | inventoryMismatch
  | entryNotFound | hashSinkRequired | hashSinkError | hashMismatch | sinkError
  | workspaceRequired | crcMismatch | uncompressedSizeMismatch | deflateInvalid
deriving DecidableEq, Repr

/-- The limits an archive is opened under. -/
structure ZipLimits where
  maximumArchiveBytes : Nat
  maximumEntries : Nat
  maximumPathBytes : Nat
  maximumFileBytes : Nat
  maximumInstalledBytes : Nat
  maximumCompressionRatio : Nat
deriving Repr

inductive ZipCompression where
  | store | deflate
deriving DecidableEq, Repr

/-- The number of a method in the archive. -/
def ZipCompression.code : ZipCompression → Nat
  | .store => 0
  | .deflate => 8

/-- An entry as its central header says, with where its data is. -/
structure ZipEntry where
  path : Bytes
  isDirectory : Bool
  compression : ZipCompression
  flags : Nat
  crc32 : Nat
  compressedSize : Nat
  size : Nat
  localHeaderOffset : Nat
  dataOffset : Nat
  externalAttributes : Nat
  creatorSystem : Nat
deriving DecidableEq, Repr

/-- What an archive that opened holds. -/
structure ZipInventory where
  entries : List ZipEntry
  entryCount : Nat
  fileCount : Nat
  directoryCount : Nat
  archiveSize : Nat
  installedSize : Nat
  centralDirectoryOffset : Nat
  centralDirectorySize : Nat
deriving Repr

/-! ## The source -/

/-- What the reader asks of a `SeekableZipSource`. -/
inductive ZipOp where
  | getSize
  | readAt (offset size : Nat)

/-- The answers; `none` is a failure. -/
@[reducible] def ZipAnswer : ZipOp → Type
  | .getSize => Option UInt64
  | .readAt _ size => Option (Block size)

abbrev ZipProc := Fallible ZipOp ZipAnswer ZipStatus

def getSize : ZipProc Nat := do
  let answer ← Fallible.ask ZipOp.getSize
  match (answer : Option UInt64) with
  | some size => return size.toNat
  | none => throw .sourceIo

def readAt (offset size : Nat) : ZipProc Bytes := do
  let answer ← Fallible.ask (ZipOp.readAt offset size)
  match (answer : Option (Block size)) with
  | some block => return block.bytes
  | none => throw .sourceIo

/-! ## Fields and ranges -/

def kZipMaximumPathBytes : Nat := 240
def kEndSignature : Nat := 0x06054b50
def kCentralSignature : Nat := 0x02014b50
def kLocalSignature : Nat := 0x04034b50
def kUtf8Flag : Nat := 0x800
def kEndRecordSize : Nat := 22
def kCentralHeaderSize : Nat := 46
def kLocalHeaderSize : Nat := 30

/-- `ReadU16` -/
def readU16 (bytes : Bytes) (offset : Nat) : Nat := decodeLe (slice offset 2 bytes)

/-- `ReadU32` -/
def readU32 (bytes : Bytes) (offset : Nat) : Nat := decodeLe (slice offset 4 bytes)

/-- `CheckedAdd` -/
def checkedAdd (left right : Nat) : Option Nat :=
  if left + right < 2 ^ 64 then some (left + right) else none

/-- `RangeWithin` -/
def rangeWithin (offset length boundary : Nat) : Bool :=
  (checkedAdd offset length).any (· ≤ boundary)

/-! ## Names -/

/-- `FatEqual` -/
def fatEqual (left right : Bytes) : Bool := left.map asciiLower = right.map asciiLower

/-- `FatPrefixDirectory` -/
def fatPrefixDirectory : Bytes → Bytes → Bool
  | [], child => child.head? = some 0x2f
  | _ :: _, [] => false
  | p :: parent, c :: child => asciiLower p = asciiLower c && fatPrefixDirectory parent child

/-- The length of the continuation and the payload of a first byte in `IsValidUtf8`. -/
def utf8Continuation (first : UInt8) : Option (Nat × Nat) :=
  if 0xc2 ≤ first.toNat ∧ first.toNat ≤ 0xdf then some (1, first.toNat % 32)
  else if 0xe0 ≤ first.toNat ∧ first.toNat ≤ 0xef then some (2, first.toNat % 16)
  else if 0xf0 ≤ first.toNat ∧ first.toNat ≤ 0xf4 then some (3, first.toNat % 8)
  else none

/-- `IsValidUtf8`; every round reads at least one byte. -/
def isValidUtf8 : Nat → Bytes → Bool
  | _, [] => true
  | 0, _ => false
  | rounds + 1, first :: rest =>
      if first.toNat < 0x80 then isValidUtf8 rounds rest
      else match utf8Continuation first with
        | none => false
        | some (count, payload) =>
            let next := rest.take count
            let codePoint := next.foldl (fun value c => value * 64 + c.toNat % 64) payload
            next.length = count && (next.all fun c => c.toNat / 64 = 2) &&
              !((count = 1 && codePoint < 0x80) || (count = 2 && codePoint < 0x800) ||
                (count = 3 && codePoint < 0x10000) ||
                (0xd800 ≤ codePoint && codePoint ≤ 0xdfff) || 0x10ffff < codePoint) &&
              isValidUtf8 rounds (rest.drop count)

/-- `ValidateAndCopyPath` -/
def validateAndCopyPath (raw : Bytes) (flags : Nat) (isDirectory : Bool)
    (maximumPathBytes : Nat) : Except ZipStatus Bytes :=
  if raw = [] ∨ 0 ∈ raw then throw .pathInvalid
  else if raw.any fun c => 0x80 ≤ c.toNat then
    if flags &&& kUtf8Flag = 0 ∨ isValidUtf8 raw.length raw = false then
      throw .pathEncodingInvalid
    else throw .nonAsciiPathUnsupported
  else
    let trailingSlash := decide (raw.getLast? = some 0x2f)
    if trailingSlash ≠ isDirectory then throw .directoryMetadataInvalid
    else
      let normalized := if trailingSlash then raw.dropLast else raw
      match validateFatRelativePathBytes normalized maximumPathBytes with
      | .ok => pure normalized
      | .pathTooLong => throw .pathTooLong
      | _ => throw .pathInvalid

/-- `IsDirectoryMetadata` -/
def isDirectoryMetadata (creatorSystem externalAttributes : Nat) (nameIsDirectory : Bool) :
    Except ZipStatus Unit :=
  let unixType := externalAttributes / 2 ^ 16 % 2 ^ 16 &&& 0xf000
  if creatorSystem = 3 ∧ unixType = 0xa000 then throw .specialFileForbidden
  else if creatorSystem = 3 ∧ unixType ≠ 0 ∧ unixType ≠ 0x8000 ∧ unixType ≠ 0x4000 then
    throw .specialFileForbidden
  else
    let byUnixMode := decide (creatorSystem = 3 ∧ unixType = 0x4000)
    let byDosAttribute := decide (externalAttributes &&& 0x10 ≠ 0)
    if (byUnixMode || byDosAttribute) ≠ nameIsDirectory then throw .directoryMetadataInvalid
    else pure ()

/-! ## Signatures -/

/-- Where the four bytes of a signature stand in a buffer. -/
def signatureMatches (signature buffer : Bytes) : List Nat :=
  (List.range (buffer.length - 3)).filter fun index => slice index 4 buffer = signature

/-- The three bytes of a buffer that the next round sees again. -/
def keptTail (buffer : Bytes) : Bytes := buffer.drop (buffer.length - min 3 buffer.length)

/-- The loop of `ContainsSignature` from `offset` on, in chunks of 4096 bytes. -/
def containsSignatureFrom (signature : Bytes) (stop : Nat) : Nat → Nat → Bytes → ZipProc Bool
  | 0, _, _ => return false
  | rounds + 1, offset, kept => do
      if offset < stop then do
        let amount := min (stop - offset) 4096
        let chunk ← readAt offset amount
        let buffer := kept ++ chunk
        if signatureMatches signature buffer ≠ [] then return true
        else containsSignatureFrom signature stop rounds (offset + amount) (keptTail buffer)
      else return false

def containsSignature (start stop : Nat) (signature : Bytes) : ZipProc Bool := do
  Fallible.check (start ≤ stop) .sourceIo
  containsSignatureFrom signature stop (stop - start) start []

/-- The loop of `FindLastSignature` from `offset` on. -/
def findLastSignatureFrom (signature : Bytes) (stop : Nat) :
    Nat → Nat → Bytes → Option Nat → ZipProc (Option Nat)
  | 0, _, _, found => return found
  | rounds + 1, offset, kept, found => do
      if offset < stop then do
        let amount := min (stop - offset) 4096
        let chunk ← readAt offset amount
        let buffer := kept ++ chunk
        let latest := (signatureMatches signature buffer).getLast?.map (offset - kept.length + ·)
        findLastSignatureFrom signature stop rounds (offset + amount) (keptTail buffer)
          (latest.or found)
      else return found

def findLastSignature (start stop : Nat) (signature : Bytes) : ZipProc (Option Nat) := do
  Fallible.check (start ≤ stop) .sourceIo
  findLastSignatureFrom signature stop (stop - start) start [] none

/-! ## The central directory -/

/-- The fields of a central header. -/
structure CentralHeader where
  versionMade : Nat
  versionNeeded : Nat
  flags : Nat
  method : Nat
  crc32 : Nat
  compressedSize : Nat
  size : Nat
  nameLength : Nat
  extraLength : Nat
  memberCommentLength : Nat
  diskStart : Nat
  externalAttributes : Nat
  localOffset : Nat

def CentralHeader.of (header : Bytes) : CentralHeader where
  versionMade := readU16 header 4
  versionNeeded := readU16 header 6
  flags := readU16 header 8
  method := readU16 header 10
  crc32 := readU32 header 16
  compressedSize := readU32 header 20
  size := readU32 header 24
  nameLength := readU16 header 28
  extraLength := readU16 header 30
  memberCommentLength := readU16 header 32
  diskStart := readU16 header 34
  externalAttributes := readU32 header 38
  localOffset := readU32 header 42

/-- The checks of a central header that need no other bytes. -/
def CentralHeader.check (header : CentralHeader) : Except ZipStatus Unit := do
  reject (20 < header.versionNeeded) .unsupportedVersion
  reject (header.flags &&& 0xf7ff ≠ 0) .unsupportedFlags
  reject (header.method ≠ ZipCompression.store.code ∧
    header.method ≠ ZipCompression.deflate.code) .unsupportedCompression
  reject (header.diskStart ≠ 0) .multiDiskForbidden
  reject (header.compressedSize = 0xffffffff ∨ header.size = 0xffffffff ∨
    header.localOffset = 0xffffffff) .zip64Forbidden
  reject (header.extraLength ≠ 0) .extraFieldForbidden
  reject (header.memberCommentLength ≠ 0) .memberCommentForbidden
  reject (header.nameLength = 0) .pathInvalid

/-- The checks of a path against the entries before it. -/
def checkDuplicates (path : Bytes) : List ZipEntry → Except ZipStatus Unit
  | [] => pure ()
  | previous :: rest =>
      if path = previous.path then throw .duplicatePath
      else if fatEqual path previous.path then throw .fatCaseCollision
      else checkDuplicates path rest

/-- The checks of the sizes an entry declares. -/
def checkSizes (limits : ZipLimits) (entry : ZipEntry) : Except ZipStatus Unit :=
  if entry.isDirectory then
    if entry.compression ≠ .store ∨ entry.compressedSize ≠ 0 ∨ entry.size ≠ 0 ∨
        entry.crc32 ≠ 0 then throw .directoryMetadataInvalid
    else pure ()
  else if limits.maximumFileBytes < entry.size ∨ (entry.size ≠ 0 ∧ entry.compressedSize = 0) then
    throw .memberSizeInvalid
  else
    let ratioDenominator := if entry.compressedSize = 0 then 1 else entry.compressedSize
    if limits.maximumCompressionRatio < entry.size / ratioDenominator ∨
        (entry.size / ratioDenominator = limits.maximumCompressionRatio ∧
          entry.size % ratioDenominator ≠ 0) then
      throw .compressionRatioInvalid
    else pure ()

/-- One round of the central scan: the entry at `cursor`, and the size of its record. -/
def readCentral (limits : ZipLimits) (centralEnd cursor : Nat) (previous : List ZipEntry) :
    ZipProc (ZipEntry × Nat) := do
  Fallible.check (rangeWithin cursor kCentralHeaderSize centralEnd = true) .centralDirectoryInvalid
  let bytes ← readAt cursor kCentralHeaderSize
  Fallible.check (readU32 bytes 0 = kCentralSignature) .centralDirectoryInvalid
  let header := CentralHeader.of bytes
  Fallible.compute header.check
  let recordSize :=
    kCentralHeaderSize + header.nameLength + header.extraLength + header.memberCommentLength
  Fallible.check (rangeWithin cursor recordSize centralEnd = true) .centralDirectoryInvalid
  Fallible.check (header.nameLength ≤ limits.maximumPathBytes + 1 ∧
    header.nameLength ≤ kZipMaximumPathBytes + 1) .pathTooLong
  let rawName ← readAt (cursor + kCentralHeaderSize) header.nameLength
  let nameIsDirectory := decide (rawName.getLast? = some 0x2f)
  Fallible.compute
    (isDirectoryMetadata (header.versionMade / 2 ^ 8) header.externalAttributes nameIsDirectory)
  let path ← Fallible.compute
    (validateAndCopyPath rawName header.flags nameIsDirectory limits.maximumPathBytes)
  Fallible.compute (checkDuplicates path previous)
  let entry : ZipEntry :=
    { path, isDirectory := nameIsDirectory,
      compression := if header.method = 0 then .store else .deflate,
      flags := header.flags, crc32 := header.crc32, compressedSize := header.compressedSize,
      size := header.size, localHeaderOffset := header.localOffset, dataOffset := 0,
      externalAttributes := header.externalAttributes,
      creatorSystem := header.versionMade / 2 ^ 8 }
  Fallible.compute (checkSizes limits entry)
  return (entry, recordSize)

/-- The central scan: where it has got to, the entries so far, and how many of them are
files and directories. -/
structure Scan where
  cursor : Nat
  entries : List ZipEntry
  fileCount : Nat
  directoryCount : Nat

def scanCentral (limits : ZipLimits) (centralEnd : Nat) : Nat → Scan → ZipProc Scan
  | 0, scan => return scan
  | count + 1, scan => do
      let (entry, recordSize) ← readCentral limits centralEnd scan.cursor scan.entries
      scanCentral limits centralEnd count
        { cursor := scan.cursor + recordSize
          entries := scan.entries ++ [entry]
          fileCount := if entry.isDirectory then scan.fileCount else scan.fileCount + 1
          directoryCount :=
            if entry.isDirectory then scan.directoryCount + 1 else scan.directoryCount }

/-- No file is the directory of another entry. -/
def fileUsedAsDirectory (entries : List ZipEntry) : Bool :=
  (List.range entries.length).any fun index => entries[index]?.any fun entry =>
    !entry.isDirectory && (List.range entries.length).any fun child =>
      index ≠ child && entries[child]?.any fun other => fatPrefixDirectory entry.path other.path

/-! ## The local headers -/

/-- The name a local header must carry. -/
def ZipEntry.rawName (entry : ZipEntry) : Bytes :=
  if entry.isDirectory then entry.path ++ [0x2f] else entry.path

/-- The checks of a local header that need no other bytes. -/
def checkLocal (entry : ZipEntry) (bytes : Bytes) : Except ZipStatus Unit := do
  reject (20 < readU16 bytes 4) .unsupportedVersion
  reject (readU16 bytes 6 ≠ entry.flags ∨ readU16 bytes 8 ≠ entry.compression.code ∨
    readU32 bytes 14 ≠ entry.crc32 ∨ readU32 bytes 18 ≠ entry.compressedSize ∨
    readU32 bytes 22 ≠ entry.size) .localHeaderMismatch
  reject (readU16 bytes 28 ≠ 0) .extraFieldForbidden
  reject (readU16 bytes 26 ≠ entry.path.length + (if entry.isDirectory then 1 else 0) ∨
    kZipMaximumPathBytes + 1 < readU16 bytes 26) .localHeaderMismatch

/-- One round of the local scan: the entry with its data offset, and where its data ends. -/
def readLocal (centralOffset expected : Nat) (entry : ZipEntry) : ZipProc (ZipEntry × Nat) := do
  Fallible.check (entry.localHeaderOffset = expected ∧
    rangeWithin entry.localHeaderOffset kLocalHeaderSize centralOffset = true) .offsetInvalid
  let bytes ← readAt entry.localHeaderOffset kLocalHeaderSize
  Fallible.check (readU32 bytes 0 = kLocalSignature) .localHeaderMismatch
  Fallible.compute (checkLocal entry bytes)
  let nameLength := readU16 bytes 26
  let dataOffset := entry.localHeaderOffset + kLocalHeaderSize + nameLength + readU16 bytes 28
  Fallible.check (rangeWithin dataOffset entry.compressedSize centralOffset = true) .offsetInvalid
  let name ← readAt (entry.localHeaderOffset + kLocalHeaderSize) nameLength
  Fallible.check (name.take entry.path.length = entry.path ∧
    (entry.isDirectory = true → name.getLast? = some 0x2f)) .localHeaderMismatch
  let entry := { entry with dataOffset }
  Fallible.check (dataOffset + entry.compressedSize < 2 ^ 64) .offsetInvalid
  return (entry, dataOffset + entry.compressedSize)

/-- The local scan: the end of the data so far, the installed size and the entries. -/
def scanLocal (limits : ZipLimits) (centralOffset : Nat) :
    List ZipEntry → Nat → Nat → List ZipEntry → ZipProc (Nat × Nat × List ZipEntry)
  | [], expected, installed, done => return (expected, installed, done)
  | entry :: rest, expected, installed, done => do
      let (entry, next) ← readLocal centralOffset expected entry
      if entry.isDirectory then
        scanLocal limits centralOffset rest next installed (done ++ [entry])
      else do
        let total := installed + entry.size
        Fallible.check (total < 2 ^ 64 ∧ total ≤ limits.maximumInstalledBytes) .installedSizeInvalid
        scanLocal limits centralOffset rest next total (done ++ [entry])

/-! ## Open -/

/-- The end record: where it is, the number of entries, and the central directory. -/
structure EndRecord where
  offset : Nat
  entryCount : Nat
  centralSize : Nat
  centralOffset : Nat

/-- The checks of an end record at `endOffset`. -/
def checkEndRecord (limits : ZipLimits) (entryCapacity archiveSize endOffset : Nat)
    (bytes : Bytes) : Except ZipStatus EndRecord := do
  reject (readU32 bytes 0 ≠ kEndSignature) .endRecordInvalid
  let entryCount := readU16 bytes 10
  let centralSize := readU32 bytes 12
  let centralOffset := readU32 bytes 16
  let commentLength := readU16 bytes 20
  reject ((checkedAdd endOffset kEndRecordSize).bind (checkedAdd · commentLength) ≠
    some archiveSize) .endRecordInvalid
  reject (commentLength ≠ 0) .archiveCommentForbidden
  reject (readU16 bytes 4 ≠ 0 ∨ readU16 bytes 6 ≠ 0 ∨ readU16 bytes 8 ≠ entryCount)
    .multiDiskForbidden
  reject (entryCount = 0 ∨ entryCount = 0xffff ∨ limits.maximumEntries < entryCount)
    .entryCountInvalid
  reject (centralSize = 0xffffffff ∨ centralOffset = 0xffffffff) .zip64Forbidden
  reject (entryCapacity < entryCount) .storageTooSmall
  reject (checkedAdd centralOffset centralSize ≠ some endOffset) .centralDirectoryInvalid
  return { offset := endOffset, entryCount, centralSize, centralOffset }

/-- `Open` up to the end record: the archive size, where its tail begins, the record. -/
def readEndRecord (entryCapacity : Nat) (limits : ZipLimits) : ZipProc (Nat × Nat × EndRecord) := do
  let archiveSize ← getSize
  Fallible.check (kEndRecordSize ≤ archiveSize ∧ archiveSize ≤ limits.maximumArchiveBytes)
    .archiveSizeInvalid
  let tailSize := min archiveSize 65557
  let tailBegin := archiveSize - tailSize
  let found ← findLastSignature tailBegin archiveSize [0x50, 0x4b, 0x05, 0x06]
  match found with
  | none => throw .endRecordInvalid
  | some endOffset => do
      Fallible.check (rangeWithin endOffset kEndRecordSize archiveSize = true) .endRecordInvalid
      let bytes ← readAt endOffset kEndRecordSize
      let record ← Fallible.compute (checkEndRecord limits entryCapacity archiveSize endOffset bytes)
      return (archiveSize, tailBegin, record)

/-- Neither ZIP64 record stands before the end record. -/
def rejectZip64 (tailBegin endOffset : Nat) : ZipProc Unit := do
  let found ← containsSignature tailBegin endOffset [0x50, 0x4b, 0x06, 0x06]
  Fallible.check (found = false) .zip64Forbidden
  let found ← containsSignature tailBegin endOffset [0x50, 0x4b, 0x06, 0x07]
  Fallible.check (found = false) .zip64Forbidden

/-- `ZipReader::Open`, with room for `entryCapacity` entries. -/
def openArchive (entryCapacity : Nat) (limits : ZipLimits) : ZipProc ZipInventory := do
  Fallible.check (¬ (limits.maximumEntries = 0 ∨ kZipMaximumEntries < limits.maximumEntries ∨
    limits.maximumPathBytes = 0 ∨ kZipMaximumPathBytes < limits.maximumPathBytes ∨
    limits.maximumArchiveBytes < kEndRecordSize ∨ limits.maximumFileBytes = 0 ∨
    limits.maximumInstalledBytes = 0 ∨ limits.maximumCompressionRatio = 0)) .invalidArgument
  let (archiveSize, tailBegin, record) ← readEndRecord entryCapacity limits
  rejectZip64 tailBegin record.offset
  let scan ← scanCentral limits record.offset record.entryCount
    { cursor := record.centralOffset, entries := [], fileCount := 0, directoryCount := 0 }
  Fallible.check (scan.cursor = record.offset) .centralDirectoryInvalid
  Fallible.check (fileUsedAsDirectory scan.entries = false) .fileUsedAsDirectory
  let (expected, installedSize, entries) ←
    scanLocal limits record.centralOffset scan.entries 0 0 []
  Fallible.check (expected = record.centralOffset) .offsetInvalid
  return {
    entries
    entryCount := record.entryCount
    fileCount := scan.fileCount
    directoryCount := scan.directoryCount
    archiveSize
    installedSize
    centralDirectoryOffset := record.centralOffset
    centralDirectorySize := record.centralSize }

end Zip

end BmxUpdate
