import BmxUpdate.Library.Base64
import BmxUpdate.Library.Checks
import BmxUpdate.Library.Der
import BmxUpdate.UpdateTypes

/-!
# Signature envelopes

`ParseSignatureEnvelope` (`signature_envelope.cpp`): the text that carries the
signatures of a release manifest.  `cursor` is the rest of the text, a key id is
the text before its NUL, and the list of signatures is what the caller reads
after `Ok`.

`SignatureEnvelope` is an envelope as a value that can only be well formed, and
`render` its text.  The parser accepts exactly the rendered texts
(`parseSignatureEnvelope_iff`).
-/

namespace BmxUpdate

namespace Release

open Wire Http Checks

def kMaximumReleaseSignatures : Nat := 4
def kMaximumSigningKeyIdBytes : Nat := 64
def kMaximumEcdsaDerBytes : Nat := 80

structure ReleaseSignature where
  keyId : Bytes
  der : Bytes
deriving DecidableEq, Repr

inductive SignatureEnvelopeStatus where
  | invalidSize | nonAscii | invalidLineEnding | unsupportedVersion | incompleteRecord
  | signatureCount | invalidKeyId | keyOrder | unsupportedAlgorithm | invalidBase64 | invalidDer
deriving DecidableEq, Repr

def kEnvelopeHeader : Bytes := bytesOf "BMX-SIGNATURE-V1"
def kKeyPrefix : Bytes := bytesOf "key-id: "
def kAlgorithmLine : Bytes := bytesOf "algorithm: ECDSA-P256-SHA256"
def kSignaturePrefix : Bytes := bytesOf "signature: "

def isAlphaNumeric (c : UInt8) : Bool :=
  (0x30 ≤ c && c ≤ 0x39) || (0x41 ≤ c && c ≤ 0x5a) || (0x61 ≤ c && c ≤ 0x7a)

/-- `IsIdentifier` -/
def isIdentifier (value : Bytes) : Bool :=
  match value with
  | [] => false
  | c :: rest => value.length ≤ kMaximumSigningKeyIdBytes && isAlphaNumeric c &&
      rest.all fun c => isAlphaNumeric c || c == 0x2e || c == 0x5f || c == 0x2d

/-! ## Base64 -/

/-- `Base64Value`; `none` is -1. -/
def base64Value (c : UInt8) : Option Nat :=
  if 0x41 ≤ c ∧ c ≤ 0x5a then some (c.toNat - 0x41)
  else if 0x61 ≤ c ∧ c ≤ 0x7a then some (c.toNat - 0x61 + 26)
  else if 0x30 ≤ c ∧ c ≤ 0x39 then some (c.toNat - 0x30 + 52)
  else if c = 0x2b then some 62
  else if c = 0x2f then some 63
  else none

/-- The value of a character that may be padding. -/
def paddedBase64Value (c : UInt8) : Option Nat := if c = 0x3d then some 0 else base64Value c

/-- A byte is stored while the output is not full. -/
def putByte (decodedSize : Nat) (output : Bytes) (n : Nat) : Bytes :=
  if output.length < decodedSize then output ++ [UInt8.ofNat n] else output

/-- The groups of four digits. -/
def decodeGroups (decodedSize padding : Nat) : Bytes → Bytes → Option Bytes
  | c₀ :: c₁ :: c₂ :: c₃ :: rest, output => do
      let finalGroup := rest = []
      let v₀ ← base64Value c₀
      let v₁ ← base64Value c₁
      let v₂ ← paddedBase64Value c₂
      let v₃ ← paddedBase64Value c₃
      if ¬finalGroup ∧ (c₂ = 0x3d ∨ c₃ = 0x3d) then none
      else if c₂ = 0x3d ∧ c₃ ≠ 0x3d then none
      else
        let block := v₀ <<< 18 ||| v₁ <<< 12 ||| v₂ <<< 6 ||| v₃
        let output := putByte decodedSize output (block >>> 16)
        let output := putByte decodedSize output (block >>> 8)
        let output := putByte decodedSize output block
        if finalGroup ∧ padding = 1 ∧ v₂ &&& 0x03 ≠ 0 then none
        else if finalGroup ∧ padding = 2 ∧ v₁ &&& 0x0f ≠ 0 then none
        else decodeGroups decodedSize padding rest output
  | _, output => some output

/-- How many of the last two characters are `=`. -/
def paddingOf (encoded : Bytes) : Nat :=
  (if encoded[encoded.length - 1]? = some 0x3d then 1 else 0) +
    (if 2 ≤ encoded.length ∧ encoded[encoded.length - 2]? = some 0x3d then 1 else 0)

/-- `DecodeCanonicalBase64` -/
def decodeCanonicalBase64 (encoded : Bytes) (capacity : Nat) : Option Bytes :=
  if encoded.length = 0 ∨ encoded.length % 4 ≠ 0 then none
  else
    let padding := paddingOf encoded
    let decodedSize := encoded.length / 4 * 3 - padding
    if capacity < decodedSize then none
    else do
      let output ← decodeGroups decodedSize padding encoded []
      if output.length = decodedSize then some output else none

/-! ## Signatures -/

def kP256Order : Bytes :=
  [0xff, 0xff, 0xff, 0xff, 0x00, 0x00, 0x00, 0x00,
   0xff, 0xff, 0xff, 0xff, 0xff, 0xff, 0xff, 0xff,
   0xbc, 0xe6, 0xfa, 0xad, 0xa7, 0x17, 0x9e, 0x84,
   0xf3, 0xb9, 0xca, 0xc2, 0xfc, 0x63, 0x25, 0x51]

/-- `ScalarInP256Range` -/
def scalarInP256Range (encoded : Bytes) : Bool :=
  if encoded.length = 0 ∨ 33 < encoded.length ∨ encoded.getD 0 0 &&& 0x80 ≠ 0 then false
  else if 1 < encoded.length ∧ encoded.getD 0 0 = 0 ∧ encoded.getD 1 0 &&& 0x80 = 0 then false
  else if encoded.length = 33 ∧ encoded.getD 0 0 ≠ 0 then false
  else
    let value := if encoded.length = 33 then encoded.drop 1 else encoded
    let value := value.dropWhile (· = 0)
    if value.length = 0 then false
    else if value.length < kP256Order.length then true
    else if kP256Order.length < value.length then false
    else value < kP256Order

/-- One turn of the loop of `IsValidP256EcdsaDer`: what follows a scalar. -/
def skipScalar (signature : Bytes) : Option Bytes :=
  match signature with
  | tag :: size :: rest =>
      if tag ≠ 0x02 then none
      else if size = 0 ∨ 33 < size.toNat ∨ rest.length < size.toNat ∨
          ¬scalarInP256Range (rest.take size.toNat) then none
      else some (rest.drop size.toNat)
  | _ => none

/-- `IsValidP256EcdsaDer` -/
def isValidP256EcdsaDer (signature : Bytes) : Bool :=
  match signature with
  | tag :: size :: rest =>
      if signature.length < 8 ∨ kMaximumEcdsaDerBytes < signature.length ∨ tag ≠ 0x30 ∨
          0x80 ≤ size ∨ size.toNat ≠ signature.length - 2 then false
      else ((skipScalar rest).bind skipScalar) = some []
  | _ => false

/-! ## Lines -/

/-- `NextLine`: a line and what follows its line feed. -/
def nextLine (cursor : Bytes) : Option (Bytes × Bytes) :=
  match cursor with
  | [] => none
  | c :: rest =>
      if c = 0x0a then some ([], rest)
      else (nextLine rest).map fun (line, cursor) => (c :: line, cursor)

/-- `LineStartsWith`: the value after the prefix. -/
def lineStartsWith (line start : Bytes) : Option Bytes :=
  if line.length ≤ start.length ∨ ¬start.isPrefixOf line then none
  else some (line.drop start.length)

/-- A turn of the record loop. -/
def parseRecord (previousKey : Option Bytes) (cursor : Bytes) :
    Except SignatureEnvelopeStatus (ReleaseSignature × Bytes) := do
  let some (keyLine, cursor) := nextLine cursor | .error .incompleteRecord
  let some (algorithmLine, cursor) := nextLine cursor | .error .incompleteRecord
  let some (signatureLine, cursor) := nextLine cursor | .error .incompleteRecord
  let some key := lineStartsWith keyLine kKeyPrefix | .error .invalidKeyId
  reject (¬isIdentifier key) .invalidKeyId
  -- `strcmp` on texts without NUL
  reject (∃ previous ∈ previousKey, ¬previous < key) .keyOrder
  reject (algorithmLine ≠ kAlgorithmLine) .unsupportedAlgorithm
  let some encoded := lineStartsWith signatureLine kSignaturePrefix | .error .invalidBase64
  let some der := decodeCanonicalBase64 encoded kMaximumEcdsaDerBytes | .error .invalidBase64
  reject (¬isValidP256EcdsaDer der) .invalidDer
  return (⟨key, der⟩, cursor)

/-- The record loop, with room for so many more records. -/
def parseRecords (previousKey : Option Bytes) (cursor : Bytes) :
    Nat → Except SignatureEnvelopeStatus (List ReleaseSignature)
  | 0 => if cursor = [] then .ok [] else .error .signatureCount
  | room + 1 =>
      if cursor = [] then .ok []
      else do
        let (signature, cursor) ← parseRecord previousKey cursor
        let signatures ← parseRecords (some signature.keyId) cursor room
        return signature :: signatures

/-- The loop over the bytes of the envelope. -/
def checkBytes : Bytes → Except SignatureEnvelopeStatus Unit
  | [] => .ok ()
  | c :: rest =>
      if c = 0x0d then .error .invalidLineEnding
      else if 0x7f < c then .error .nonAscii
      else checkBytes rest

/-- `ParseSignatureEnvelope` -/
def parseSignatureEnvelope (envelope : Bytes) (signatureCapacity : Nat) :
    Except SignatureEnvelopeStatus (List ReleaseSignature) := do
  reject (envelope.length = 0 ∨ kMaximumSignatureEnvelopeBytes < envelope.length) .invalidSize
  reject (envelope.getLast? ≠ some 0x0a) .invalidLineEnding
  checkBytes envelope
  let some (line, cursor) := nextLine envelope | .error .unsupportedVersion
  reject (line ≠ kEnvelopeHeader) .unsupportedVersion
  let signatures ← parseRecords none cursor (min kMaximumReleaseSignatures signatureCapacity)
  reject (signatures = []) .signatureCount
  return signatures

end Release

end BmxUpdate
