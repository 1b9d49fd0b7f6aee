import BmxUpdate.Library.Crc
import BmxUpdate.Library.Http
import BmxUpdate.Library.Trace
import BmxUpdate.Sha256
import BmxUpdate.Zip.Reader

/-!
# Extracting a release archive

`ZipReader::StreamFile`, `ValidateContents`, `ExtractOne` and `ExtractAll`
(`zip_reader.cpp`).  They ask four components: the archive, the inflate
function, the hash sink and the extract sink.  What each answers is left to the
run; only the counts of the inflate function are within its buffers.

A null sink is `false`, a status `none` is `Ok`.
-/

namespace BmxUpdate

namespace Zip

open Wire Interaction Checks

def kZipInputBufferBytes : Nat := 8192

/-- `TINFL_LZ_DICT_SIZE` -/
def tinflLzDictSize : Nat := 32768

/-- A file the archive must have. -/
structure ZipExpectedFile where
  path : Bytes
  size : Nat
  compression : ZipCompression
  sha256 : Option Digest
deriving DecidableEq

/-- The files and directories the archive must have, and no others. -/
structure ZipExpectedInventory where
  files : List ZipExpectedFile
  directories : List Bytes

/-- A reader; the binding is there when the contents are validated. -/
structure ZipReader where
  inventory : ZipInventory
  workspace : Bool
  isOpen : Bool
  validatedInventoryBinding : Option Digest

/-! ## The components -/

/-- `tinfl_status`; `failed` stands for the negative ones. -/
inductive TinflStatus where
  | failed | done | needsMoreInput | hasMoreOutput
deriving DecidableEq

/-- What `tinfl_decompress` does with so much input and so much room. -/
structure Inflated (available room : Nat) where
  status : TinflStatus
  consumed : Nat
  output : Bytes
  consumed_le : consumed ≤ available
  output_le : output.length ≤ room

/-- What is asked of the digest sink. -/
inductive HashOp where
  | beginFile (path : Bytes) (size : Nat)
  | update (bytes : Bytes)
  | finishFile
  | abortFile

/-- A digest is `none` where `FinishFile` fails. -/
@[reducible] def HashAnswer : HashOp → Type
  | .beginFile _ _ => Bool
  | .update _ => Bool
  | .finishFile => Option Digest
  | .abortFile => Unit

/-- What is asked of the extraction sink. -/
inductive SinkOp where
  | beginEntry (entry : ZipEntry)
  | write (bytes : Bytes)
  | commitEntry (entry : ZipEntry)
  | abortEntry (entry : ZipEntry)

@[reducible] def SinkAnswer : SinkOp → Type
  | .beginEntry _ => Bool
  | .write _ => Bool
  | .commitEntry _ => Bool
  | .abortEntry _ => Unit

/-- What is asked of the components around a reader. -/
inductive StreamOp where
  | source (op : ZipOp)
  | inflate (input : Bytes) (room : Nat) (hasMoreInput : Bool)
  | hash (op : HashOp)
  | sink (op : SinkOp)

@[reducible] def StreamAnswer : StreamOp → Type
  | .source op => ZipAnswer op
  | .inflate input room _ => Inflated input.length room
  | .hash op => HashAnswer op
  | .sink op => SinkAnswer op

abbrev StreamProc := Program StreamOp StreamAnswer

def sourceGetSize : StreamProc (Option UInt64) := Program.ask (StreamOp.source .getSize)

def sourceReadAt (offset size : Nat) : StreamProc (Option (Block size)) :=
  Program.ask (StreamOp.source (.readAt offset size))

def tinflDecompress (input : Bytes) (room : Nat) (hasMoreInput : Bool) :
    StreamProc (Inflated input.length room) :=
  Program.ask (StreamOp.inflate input room hasMoreInput)

def hashBeginFile (path : Bytes) (size : Nat) : StreamProc Bool :=
  Program.ask (StreamOp.hash (.beginFile path size))

def hashUpdate (bytes : Bytes) : StreamProc Bool := Program.ask (StreamOp.hash (.update bytes))

def hashFinishFile : StreamProc (Option Digest) := Program.ask (StreamOp.hash .finishFile)

def hashAbortFile : StreamProc Unit := Program.ask (StreamOp.hash .abortFile)

def sinkBeginEntry (entry : ZipEntry) : StreamProc Bool :=
  Program.ask (StreamOp.sink (.beginEntry entry))

def sinkWrite (bytes : Bytes) : StreamProc Bool := Program.ask (StreamOp.sink (.write bytes))

def sinkCommitEntry (entry : ZipEntry) : StreamProc Bool :=
  Program.ask (StreamOp.sink (.commitEntry entry))

def sinkAbortEntry (entry : ZipEntry) : StreamProc Unit :=
  Program.ask (StreamOp.sink (.abortEntry entry))

/-- `UpdateCrc32` -/
def updateCrc32 (crc : Nat) (bytes : Bytes) : Nat := bytes.foldl (Crc.feed 0xedb88320) crc

/-! ## The contents of a file -/

/-- `hash_started && !hash_sink->Update(...)`, negated. -/
def updateStarted (hashStarted : Bool) (chunk : Bytes) : StreamProc Bool :=
  if hashStarted then hashUpdate chunk else return true

/-- `extraction_started && !extract_sink->Write(...)`, negated. -/
def writeStarted (extractionStarted : Bool) (chunk : Bytes) : StreamProc Bool :=
  if extractionStarted then sinkWrite chunk else return true

/-- A chunk goes to the hash sink, then to the extract sink. -/
def passOn (hashStarted extractionStarted : Bool) (chunk : Bytes) :
    StreamProc (Option ZipStatus) := do
  let hashed ← updateStarted hashStarted chunk
  if hashed = false then return some .hashSinkError
  else do
    let written ← writeStarted extractionStarted chunk
    if written = false then return some .sinkError else return none

/-- What a loop over the contents leaves: `result`, `produced` and `crc`. -/
structure Contents where
  result : Option ZipStatus
  produced : Nat
  crc : Nat

/-- The loop over a stored file. -/
def storeLoop (hashStarted extractionStarted : Bool) (entry : ZipEntry)
    (remaining offset produced crc : Nat) : StreamProc Contents :=
  if remaining = 0 then return ⟨none, produced, crc⟩
  else do
    let amount := min remaining kZipInputBufferBytes
    let answer ← sourceReadAt offset amount
    match answer with
    | none => return ⟨some .sourceIo, produced, crc⟩
    | some input =>
        if entry.size < produced ∨ entry.size - produced < amount then
          return ⟨some .uncompressedSizeMismatch, produced, crc⟩
        else do
          let crc := updateCrc32 crc input.bytes
          let status ← passOn hashStarted extractionStarted input.bytes
          if status ≠ none then return ⟨status, produced, crc⟩
          else
            storeLoop hashStarted extractionStarted entry (remaining - amount) (offset + amount)
              (produced + amount) crc
termination_by remaining
decreasing_by
  have : 0 < kZipInputBufferBytes := by decide
  omega

/-- Where the loop over a deflated file is; `pending` is the input not consumed yet. -/
structure InflateState where
  pending : Bytes
  remaining : Nat
  sourceOffset : Nat
  dictionaryOffset : Nat
  produced : Nat
  crc : Nat

/-- The input buffer is filled when it is used up; `none` is a failure of the source. -/
def refill (state : InflateState) : StreamProc (Option InflateState) :=
  if state.pending = [] ∧ state.remaining ≠ 0 then do
    let inputSize := min state.remaining kZipInputBufferBytes
    let answer ← sourceReadAt state.sourceOffset inputSize
    match answer with
    | none => return none
    | some input =>
        return some { state with
          pending := input.bytes
          remaining := state.remaining - inputSize
          sourceOffset := state.sourceOffset + inputSize }
  else return some state

/-- The output of a turn, if there is any. -/
def passOutput (hashStarted extractionStarted : Bool) (output : Bytes) :
    StreamProc (Option ZipStatus) :=
  if output = [] then return none else passOn hashStarted extractionStarted output

/-- What a turn does after its output was passed on: go on, or leave the loop. -/
def afterOutput (state : InflateState) (status : TinflStatus) (consumed outputSize : Nat) :
    Option Contents :=
  match status with
  | .failed => some ⟨some .deflateInvalid, state.produced, state.crc⟩
  | .done =>
      if state.remaining ≠ 0 ∨ state.pending ≠ [] then
        some ⟨some .deflateInvalid, state.produced, state.crc⟩
      else some ⟨none, state.produced, state.crc⟩
  | .needsMoreInput | .hasMoreOutput =>
      if consumed = 0 ∧ outputSize = 0 then
        if state.pending = [] ∧ state.remaining ≠ 0 then none
        else some ⟨some .deflateInvalid, state.produced, state.crc⟩
      else if status = .needsMoreInput ∧ state.pending = [] ∧ state.remaining = 0 then
        some ⟨some .deflateInvalid, state.produced, state.crc⟩
      else none

/-- The loop over a deflated file, for so many turns (`inflateLoop_stable`). -/
def inflateLoop (hashStarted extractionStarted : Bool) (entry : ZipEntry) :
    Nat → InflateState → StreamProc Contents
  | 0, state => return ⟨some .deflateInvalid, state.produced, state.crc⟩
  | turns + 1, before => do
      let filled ← refill before
      match filled with
      | none => return ⟨some .sourceIo, before.produced, before.crc⟩
      | some state => do
          let room := tinflLzDictSize - state.dictionaryOffset
          let inflated ← tinflDecompress state.pending room (state.remaining ≠ 0)
          let output := inflated.output
          let state := { state with pending := state.pending.drop inflated.consumed }
          if entry.size < state.produced ∨ entry.size - state.produced < output.length then
            return ⟨some .uncompressedSizeMismatch, state.produced, state.crc⟩
          else do
            let crc := updateCrc32 state.crc output
            let status ← passOutput hashStarted extractionStarted output
            if status ≠ none then return ⟨status, state.produced, crc⟩
            else do
              let state := { state with
                crc
                produced := state.produced + output.length
                dictionaryOffset := (state.dictionaryOffset + output.length) % tinflLzDictSize }
              match afterOutput state inflated.status inflated.consumed output.length with
              | some contents => return contents
              | none => inflateLoop hashStarted extractionStarted entry turns state

/-- More turns than the loop can make. -/
def inflateTurns (entry : ZipEntry) : Nat := entry.compressedSize + entry.size + 1

/-- The contents of a file, by its method. -/
def streamContents (hashStarted extractionStarted : Bool) (entry : ZipEntry) :
    StreamProc Contents :=
  match entry.compression with
  | .store =>
      storeLoop hashStarted extractionStarted entry entry.compressedSize entry.dataOffset 0
        0xffffffff
  | .deflate =>
      inflateLoop hashStarted extractionStarted entry (inflateTurns entry)
        { pending := [], remaining := entry.compressedSize, sourceOffset := entry.dataOffset
          dictionaryOffset := 0, produced := 0, crc := 0xffffffff }

/-! ## A file -/

/-- The checks of the contents: the size, then the CRC. -/
def checkContents (entry : ZipEntry) (contents : Contents) : Option ZipStatus :=
  if contents.result ≠ none then contents.result
  else if contents.produced ≠ entry.size then some .uncompressedSizeMismatch
  else if contents.crc ^^^ 0xffffffff ≠ entry.crc32 then some .crcMismatch
  else none

/-- The end of the hash: the status, and whether the hash still has to be aborted. -/
def finishHash (expected : ZipExpectedFile) (result : Option ZipStatus) (hashStarted : Bool) :
    StreamProc (Option ZipStatus × Bool) :=
  if result = none ∧ hashStarted = true then do
    let answer ← hashFinishFile
    match answer with
    | none => return (some .hashSinkError, true)
    | some digest =>
        if expected.sha256.any (· ≠ digest) then return (some .hashMismatch, false)
        else return (none, false)
  else return (result, hashStarted)

/-- The end of the extraction: the status, and whether it still has to be aborted. -/
def commitExtraction (entry : ZipEntry) (result : Option ZipStatus) (extractionStarted : Bool) :
    StreamProc (Option ZipStatus × Bool) :=
  if result = none ∧ extractionStarted = true then do
    let committed ← sinkCommitEntry entry
    if committed = false then return (some .sinkError, true) else return (none, false)
  else return (result, extractionStarted)

/-- `if (hash_started) hash_sink->AbortFile()` -/
def abortHash (hashStarted : Bool) : StreamProc Unit :=
  if hashStarted then hashAbortFile else return ()

/-- `if (extraction_started) extract_sink->AbortEntry(entry)` -/
def abortExtraction (entry : ZipEntry) (extractionStarted : Bool) : StreamProc Unit :=
  if extractionStarted then sinkAbortEntry entry else return ()

/-- `StreamFile` after both sinks have begun. -/
def streamStarted (entry : ZipEntry) (expected : ZipExpectedFile)
    (hashStarted extractionStarted : Bool) : StreamProc (Option ZipStatus) := do
  let contents ← streamContents hashStarted extractionStarted entry
  let (result, hashOpen) ← finishHash expected (checkContents entry contents) hashStarted
  let (result, extractionOpen) ← commitExtraction entry result extractionStarted
  abortHash hashOpen
  abortExtraction entry extractionOpen
  return result

/-- The extract sink begins, when the hash sink has. -/
def streamHashed (entry : ZipEntry) (expected : ZipExpectedFile)
    (hashStarted extractSink : Bool) : StreamProc (Option ZipStatus) :=
  if extractSink = true then do
    let begun ← sinkBeginEntry entry
    if begun = false then do
      abortHash hashStarted
      return some .sinkError
    else streamStarted entry expected hashStarted true
  else streamStarted entry expected hashStarted false

namespace ZipReader

/-- `StreamFile` -/
def streamFile (reader : ZipReader) (entry : ZipEntry) (expected : Option ZipExpectedFile)
    (hashSink extractSink : Bool) : StreamProc (Option ZipStatus) :=
  match expected with
  | none => return some .invalidArgument
  | some expected =>
      if reader.isOpen = false ∨ entry.isDirectory = true then return some .invalidArgument
      else if reader.workspace = false then return some .workspaceRequired
      else do
        let answer ← sourceGetSize
        match answer with
        | none => return some .sourceIo
        | some currentSize =>
            if currentSize.toNat ≠ reader.inventory.archiveSize then return some .offsetInvalid
            else if hashSink = true then do
              let begun ← hashBeginFile entry.path entry.size
              if begun = false then return some .hashSinkError
              else streamHashed entry expected true extractSink
            else if expected.sha256.isSome then return some .hashSinkRequired
            else streamHashed entry expected false extractSink

end ZipReader

/-! ## The expected inventory -/

/-- `FindExpectedFile` -/
def findExpectedFile (expected : ZipExpectedInventory) (path : Bytes) : Option ZipExpectedFile :=
  expected.files.find? (·.path = path)

/-- The file of a path, among the entries of the archive. -/
def findFile (entries : List ZipEntry) (path : Bytes) : Option ZipEntry :=
  entries.find? fun entry => !entry.isDirectory && entry.path = path

/-- The loop over the expected files, after `previous`: whether one has a digest. -/
def verifyFiles (entries : List ZipEntry) :
    List ZipExpectedFile → List ZipExpectedFile → Bool → Except ZipStatus Bool
  | _, [], requiresHash => return requiresHash
  | previous, wanted :: rest, requiresHash => do
      reject (wanted.path = []) .expectedInventoryInvalid
      reject (previous.any (·.path = wanted.path)) .expectedInventoryInvalid
      match findFile entries wanted.path with
      | none => throw .inventoryMismatch
      | some actual => do
          reject (actual.size ≠ wanted.size ∨ actual.compression ≠ wanted.compression)
            .inventoryMismatch
          verifyFiles entries (previous ++ [wanted]) rest
            (requiresHash || wanted.sha256.isSome)

/-- The loop over the expected directories, after `previous`. -/
def verifyDirectories (entries : List ZipEntry) : List Bytes → List Bytes → Except ZipStatus Unit
  | _, [] => return ()
  | previous, wanted :: rest => do
      reject (wanted = []) .expectedInventoryInvalid
      reject (previous.any (· = wanted)) .expectedInventoryInvalid
      reject (¬entries.any fun entry => entry.isDirectory && entry.path = wanted)
        .inventoryMismatch
      verifyDirectories entries (previous ++ [wanted]) rest

/-- `HashSizedBytes` -/
def sizedBytes (bytes : Bytes) : Bytes := encodeLe 8 bytes.length ++ bytes

/-- What the binding says of an entry; `none` where it is a file that is not expected. -/
def bindingOf (expected : ZipExpectedInventory) (entry : ZipEntry) : Option Bytes :=
  let named := (if entry.isDirectory then 0x44 else 0x46) :: sizedBytes entry.path
  if entry.isDirectory then some named
  else (findExpectedFile expected entry.path).map fun wanted =>
    named ++ encodeLe 8 wanted.size ++ [UInt8.ofNat wanted.compression.code] ++
      match wanted.sha256 with
      | none => [0]
      | some digest => 1 :: digest.bytes

namespace ZipReader

/-- `ComputeExpectedInventoryBinding` -/
def computeExpectedInventoryBinding (reader : ZipReader) (expected : ZipExpectedInventory) :
    Option Digest :=
  if reader.isOpen = false then none
  else (reader.inventory.entries.mapM (bindingOf expected)).map fun members =>
    sha256 (sizedBytes (bytesOf "bmx-zip-validated-inventory-v1") ++
      encodeLe 8 expected.files.length ++ encodeLe 8 expected.directories.length ++
      members.flatten)

/-- `ValidatedContentsMatch` -/
def validatedContentsMatch (reader : ZipReader) (expected : ZipExpectedInventory) : Bool :=
  match reader.validatedInventoryBinding with
  | none => false
  | some binding => reader.computeExpectedInventoryBinding expected = some binding

/-- `ClearValidatedContents` -/
def clearValidatedContents (reader : ZipReader) : ZipReader :=
  { reader with validatedInventoryBinding := none }

/-- `VerifyExpectedInventory`: whether a hash sink is required. -/
def verifyExpectedInventory (reader : ZipReader) (expected : ZipExpectedInventory) :
    Except ZipStatus Bool := do
  reject (reader.isOpen = false) .notOpen
  reject (expected.files.length ≠ reader.inventory.fileCount ∨
    expected.directories.length ≠ reader.inventory.directoryCount) .inventoryMismatch
  let requiresHash ← verifyFiles reader.inventory.entries [] expected.files false
  verifyDirectories reader.inventory.entries [] expected.directories
  return requiresHash

/-! ## Whole archives -/

/-- A loop of `StreamFile` over the files among the entries. -/
def streamFiles (reader : ZipReader) (expected : ZipExpectedInventory)
    (hashSink extractSink : Bool) : List ZipEntry → StreamProc (Option ZipStatus)
  | [] => return none
  | entry :: rest =>
      if entry.isDirectory = true then streamFiles reader expected hashSink extractSink rest
      else do
        let status ← reader.streamFile entry (findExpectedFile expected entry.path) hashSink
          extractSink
        if status ≠ none then return status
        else streamFiles reader expected hashSink extractSink rest

/-- `ValidateContents` -/
def validateContents (reader : ZipReader) (expected : ZipExpectedInventory) (hashSink : Bool) :
    StreamProc (Option ZipStatus × ZipReader) := do
  let cleared := reader.clearValidatedContents
  match reader.verifyExpectedInventory expected with
  | .error status => return (some status, cleared)
  | .ok requiresHash =>
      if requiresHash = true ∧ hashSink = false then return (some .hashSinkRequired, cleared)
      else match reader.computeExpectedInventoryBinding expected with
        | none => return (some .expectedInventoryInvalid, cleared)
        | some before => do
            let status ← cleared.streamFiles expected hashSink false reader.inventory.entries
            if status ≠ none then return (status, cleared)
            else match reader.computeExpectedInventoryBinding expected with
              | none => return (some .expectedInventoryInvalid, cleared)
              | some after =>
                  if before ≠ after then return (some .expectedInventoryInvalid, cleared)
                  else return (none, { reader with validatedInventoryBinding := some after })

/-- `BindAuthenticatedInventory` -/
def bindAuthenticatedInventory (reader : ZipReader) (expected : ZipExpectedInventory) :
    Option ZipStatus × ZipReader :=
  match reader.verifyExpectedInventory expected with
  | .error status => (some status, reader.clearValidatedContents)
  | .ok _ =>
      match reader.computeExpectedInventoryBinding expected with
      | none => (some .expectedInventoryInvalid, reader.clearValidatedContents)
      | some binding => (none, { reader with validatedInventoryBinding := some binding })

/-- The pass of `ExtractOne` over the file before it is written, unless the contents are
validated. -/
def firstPass (reader : ZipReader) (entry : ZipEntry) (wanted : ZipExpectedFile)
    (hashSink reuse : Bool) : StreamProc (Option ZipStatus) :=
  if reuse then return none else reader.streamFile entry (some wanted) hashSink false

/-- `ExtractOne` -/
def extractOne (reader : ZipReader) (path : Bytes) (expected : ZipExpectedInventory)
    (hashSink : Bool) : StreamProc (Option ZipStatus × ZipReader) :=
  let cleared := reader.clearValidatedContents
  match reader.verifyExpectedInventory expected with
  | .error status => return (some status, cleared)
  | .ok _ =>
      let reuse := reader.validatedContentsMatch expected
      let current := if reuse then reader else cleared
      match findFile reader.inventory.entries path with
      | none => return (some .entryNotFound, cleared)
      | some entry =>
          match findExpectedFile expected path with
          | none => return (some .inventoryMismatch, cleared)
          | some wanted =>
              if wanted.sha256.isSome ∧ hashSink = false then
                return (some .hashSinkRequired, cleared)
              else do
                let status ← current.firstPass entry wanted hashSink reuse
                if status ≠ none then return (status, cleared)
                else do
                  let status ← current.streamFile entry (some wanted) hashSink true
                  if status ≠ none then return (status, cleared) else return (none, current)

/-- The directories are presented to the sink; the status. -/
def extractDirectories : List ZipEntry → StreamProc (Option ZipStatus)
  | [] => return none
  | entry :: rest =>
      if entry.isDirectory = false then extractDirectories rest
      else do
        let begun ← sinkBeginEntry entry
        if begun = false then return some .sinkError
        else do
          let committed ← sinkCommitEntry entry
          if committed = false then do
            sinkAbortEntry entry
            return some .sinkError
          else extractDirectories rest

/-- `ExtractAll` -/
def extractAll (reader : ZipReader) (expected : ZipExpectedInventory) (hashSink : Bool) :
    StreamProc (Option ZipStatus × ZipReader) := do
  let (status, reader) ← reader.validateContents expected hashSink
  if status ≠ none then return (status, reader)
  else do
    let status ← extractDirectories reader.inventory.entries
    if status ≠ none then return (status, reader.clearValidatedContents)
    else do
      let status ← reader.streamFiles expected hashSink true reader.inventory.entries
      if status ≠ none then return (status, reader.clearValidatedContents)
      else return (none, reader)

end ZipReader

end Zip

end BmxUpdate
