import BmxUpdate.Json.Parser
import BmxUpdate.Library.Http

/-!
# Reading the token table

The functions of `json_parser.cpp` that read a parsed text: members by name,
strings, numbers and truth values.  An index is `none` where the source has a
negative one.  A copied string is the text before its terminator, so one that
holds an escaped NUL ends there.
-/

namespace BmxUpdate

namespace Json

open Wire Http

/-- `JsonStringEquals` -/
def jsonStringEquals (json : Bytes) (token : JsonToken) (expected : Bytes) : Bool :=
  token.type = .string && token.text json = expected

/-- The tokens directly in a container, with their indices: what the loops over the tokens
after it visit before they reach its end. -/
def children (tokens : List JsonToken) (container : Nat) : List (JsonToken × Nat) :=
  match tokens[container]? with
  | none => []
  | some outer =>
      ((tokens.zipIdx.drop (container + 1)).takeWhile fun (t, _) => t.start < outer.stop).filter
        fun (t, _) => t.parent = (container : Int)

/-- The loop of `JsonFindObjectMember`, two tokens a round. -/
def findMember (json name : Bytes) : List (JsonToken × Nat) → Option Nat
  | (key, _) :: (_, value) :: rest =>
      if key.type ≠ .string then none
      else if jsonStringEquals json key name then some value
      else findMember json name rest
  | _ => none

def jsonFindObjectMember (json : Bytes) (tokens : List JsonToken) (object : Option Nat)
    (name : Bytes) : Option Nat := do
  let object ← object
  if (tokens[object]?.map (·.type)) = some .object then
    findMember json name (children tokens object)
  else none

/-! ## Strings -/

/-- The bytes of `AppendUtf8`. -/
def utf8 (codepoint : Nat) : Bytes :=
  if codepoint ≤ 0x7f then [UInt8.ofNat codepoint]
  else if codepoint ≤ 0x7ff then
    [UInt8.ofNat (0xc0 + codepoint / 64), UInt8.ofNat (0x80 + codepoint % 64)]
  else if codepoint ≤ 0xffff then
    [UInt8.ofNat (0xe0 + codepoint / 4096), UInt8.ofNat (0x80 + codepoint / 64 % 64),
      UInt8.ofNat (0x80 + codepoint % 64)]
  else
    [UInt8.ofNat (0xf0 + codepoint / 262144), UInt8.ofNat (0x80 + codepoint / 4096 % 64),
      UInt8.ofNat (0x80 + codepoint / 64 % 64), UInt8.ofNat (0x80 + codepoint % 64)]

/-- The code point after `\u`, and what follows it. -/
def decodeUnicode (t : Bytes) : Option (Nat × Bytes) := do
  let high ← parseHex4 t
  if 0xd800 ≤ high ∧ high ≤ 0xdbff then
    match t.drop 4 with
    | 0x5c :: 0x75 :: rest =>
        let low ← parseHex4 rest
        if 0xdc00 ≤ low ∧ low ≤ 0xdfff then
          some (0x10000 + (high - 0xd800) * 1024 + (low - 0xdc00), rest.drop 4)
        else none
    | _ => none
  else some (high, t.drop 4)

/-- The escapes of one letter. -/
def decodeEscape (c : UInt8) : Option UInt8 :=
  if c = 0x22 then some 0x22
  else if c = 0x5c then some 0x5c
  else if c = 0x2f then some 0x2f
  else if c = 0x62 then some 0x08
  else if c = 0x66 then some 0x0c
  else if c = 0x6e then some 0x0a
  else if c = 0x72 then some 0x0d
  else if c = 0x74 then some 0x09
  else none

/-- The next character of a token, decoded, and what follows it. -/
def decodeNext : Bytes → Option (Bytes × Bytes)
  | [] => none
  | c :: rest =>
      if c ≠ 0x5c then some ([c], rest)
      else match rest with
        | [] => none
        | 0x75 :: rest => (decodeUnicode rest).map fun (codepoint, t) => (utf8 codepoint, t)
        | escape :: rest => (decodeEscape escape).map fun decoded => ([decoded], rest)

/-- The loop of `JsonCopyString`; each round reads at least one byte. -/
def copyLoop (outputSize : Nat) : Nat → Bytes → Bytes → Except JsonError Bytes
  | _, [], output => .ok output
  | 0, _ :: _, _ => .error .string
  | fuel + 1, c :: t, output =>
      match decodeNext (c :: t) with
      | none => .error .string
      | some (decoded, rest) =>
          if outputSize ≤ output.length + decoded.length then .error .outputTooSmall
          else copyLoop outputSize fuel rest (output ++ decoded)

/-- `JsonCopyString`, with the text before the terminator. -/
def jsonCopyString (json : Bytes) (token : JsonToken) (outputSize : Nat) :
    Except JsonError Bytes :=
  if outputSize = 0 then .error .argument
  else if token.type ≠ .string then .error .type
  else do
    let output ← copyLoop outputSize (token.text json).length (token.text json) []
    return output.takeWhile (· ≠ 0)

/-! ## Numbers and truth values -/

/-- The loop of `JsonGetUint64`. -/
def digitsValue : Nat → Bytes → Except JsonError Nat
  | result, [] => .ok result
  | result, c :: rest =>
      if c < 0x30 ∨ 0x39 < c then .error .type
      else if (2 ^ 64 - 1 - (c.toNat - 0x30)) / 10 < result then .error .range
      else digitsValue (result * 10 + (c.toNat - 0x30)) rest

def jsonGetUint64 (json : Bytes) (token : JsonToken) : Except JsonError Nat :=
  if token.type ≠ .number ∨ token.stop ≤ token.start then .error .type
  else digitsValue 0 (token.text json)

def jsonGetBool (token : JsonToken) : Except JsonError Bool :=
  match token.type with
  | .true => .ok true
  | .false => .ok false
  | _ => .error .type

/-! ## Documents

What the parsers of the signed documents share: a text with its tokens. -/

/-- A text and its tokens. -/
structure Document where
  json : Bytes
  tokens : List JsonToken

namespace Document

variable (doc : Document)

def token (index : Option Nat) : Option JsonToken := do doc.tokens[← index]?

/-- `Member` -/
def member (object : Option Nat) (name : String) : Option Nat :=
  jsonFindObjectMember doc.json doc.tokens object (bytesOf name)

def hasType (index : Option Nat) (type : JsonTokenType) : Bool :=
  (doc.token index).any (·.type = type)

/-- `CopyString` -/
def copyString (index : Option Nat) (outputSize : Nat) : Option Bytes := do
  (jsonCopyString doc.json (← doc.token index) outputSize).toOption

/-- `Uint64`, and `Uint32` where the maximum is one. -/
def uint64 (index : Option Nat) (minimum maximum : Nat) : Option Nat := do
  let value ← (jsonGetUint64 doc.json (← doc.token index)).toOption
  if value < minimum ∨ maximum < value then none else some value

def bool (index : Option Nat) : Option Bool := do
  (jsonGetBool (← doc.token index)).toOption

/-- `DirectChildren` -/
def directChildren (array : Option Nat) : Nat :=
  match doc.token array with
  | some t => if t.type = .array then t.childCount else 0
  | none => 0

/-- `DirectChild`: the index of a child by its ordinal. -/
def directChild (array : Option Nat) (ordinal : Nat) : Option Nat := do
  (children doc.tokens (← array))[ordinal]?.map (·.2)

/-- A key is the name of one of the fields. -/
def keyKnown (fields : List String) (key : JsonToken) : Bool :=
  fields.any fun field => jsonStringEquals doc.json key (bytesOf field)

/-- The loop over the keys of an object: every other child is one of the fields. -/
def keysKnown (fields : List String) : List (JsonToken × Nat) → Bool
  | [] => true
  | [(key, _)] => doc.keyKnown fields key
  | (key, _) :: _ :: rest => doc.keyKnown fields key && keysKnown fields rest

/-- `ExactObject` -/
def exactObject (index : Option Nat) (fields : List String) : Bool :=
  match index with
  | none => false
  | some object =>
      doc.hasType index .object &&
        (doc.token index).any (·.childCount = fields.length * 2) &&
        doc.keysKnown fields (children doc.tokens object) &&
        (children doc.tokens object).length % 2 = 0 &&
        fields.all fun field => (doc.member index field).isSome

end Document

end Json

end BmxUpdate
