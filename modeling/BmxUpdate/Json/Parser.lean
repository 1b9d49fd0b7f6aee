import BmxUpdate.Library.JsonGrammar

/-!
# The JSON parser

`ParseJson`: a recursive descent over a byte buffer into a flat token table.
The parser keeps what it has not read yet in place of `position_`, so a byte
position is the length read so far (`offset`).  `max_depth - depth` is the level
`parseValue` recurses on; the two container loops and the string loop take the
remaining length as fuel, and each of their rounds reads at least one byte.
-/

namespace BmxUpdate

namespace Json

open Wire JsonGrammar

inductive JsonTokenType where
  | invalid | object | array | string | number | true | false | null
deriving DecidableEq, Repr

/-- The errors of the parser; `JSON_OK` is the absence of one. -/
inductive JsonError where
  | argument | tooLarge | tooDeep | tokenLimit | syntaxError | string | number
  | duplicateKey | trailingData | notFound | type | range | outputTooSmall
deriving DecidableEq, Repr

/-- One token: the bytes `start` up to `stop` of the text (a string without its quotes), the
index of the container it is in, or -1, and how many tokens are directly in it. -/
structure JsonToken where
  type : JsonTokenType
  start : Nat
  stop : Nat
  parent : Int
  childCount : Nat
deriving DecidableEq, Repr

/-- The bytes of a token. -/
def JsonToken.text (json : Bytes) (token : JsonToken) : Bytes :=
  slice token.start (token.stop - token.start) json

structure JsonParseResult where
  error : Option JsonError
  tokenCount : Nat
  errorOffset : Nat
deriving DecidableEq, Repr

/-- The parser: what it has not read yet, and the tokens so far. -/
structure Parser where
  rest : Bytes
  tokens : List JsonToken

/-- A parse step; it fails with an error and the offset of the error. -/
abbrev Parse := EStateM (JsonError × Nat) Parser

/-- What a scanner reads, or its error and the text at the error. -/
abbrev Scan := Except (JsonError × Bytes) Bytes

/-! ## Strings -/

/-- `strchr(s, c) != 0`: the terminator of `s` counts as one of its characters. -/
def strchr (s : Bytes) (c : UInt8) : Bool := c = 0 ∨ c ∈ s

def hexDigit (c : UInt8) : Option Nat :=
  if 0x30 ≤ c.toNat ∧ c.toNat ≤ 0x39 then some (c.toNat - 0x30)
  else if 0x61 ≤ c.toNat ∧ c.toNat ≤ 0x66 then some (c.toNat - 0x61 + 10)
  else if 0x41 ≤ c.toNat ∧ c.toNat ≤ 0x46 then some (c.toNat - 0x41 + 10)
  else none

/-- `ParseHex4`, on four bytes or more. -/
def parseHex4 : Bytes → Option Nat
  | a :: b :: c :: d :: _ => do
      let w ← hexDigit a
      let x ← hexDigit b
      let y ← hexDigit c
      let z ← hexDigit d
      return ((w * 16 + x) * 16 + y) * 16 + z
  | _ => none

/-- The letters of `ParseEscape`. -/
def escapeLetters : Bytes := [0x22, 0x5c, 0x2f, 0x62, 0x66, 0x6e, 0x72, 0x74]

/-- `ParseEscape` after `\u` and a high surrogate. -/
def parseLowSurrogate : Bytes → Scan
  | 0x5c :: 0x75 :: t =>
      if t.length < 4 then throw (.string, 0x5c :: 0x75 :: t)
      else match parseHex4 t with
        | none => throw (.string, t)
        | some low =>
            if low < 0xdc00 ∨ 0xdfff < low then throw (.string, t) else pure (t.drop 4)
  | t => throw (.string, t)

/-- `ParseEscape`, with the backslash still in front. -/
def parseEscape : Bytes → Scan
  | slash :: escaped :: t =>
      if strchr escapeLetters escaped then pure t
      else if escaped ≠ 0x75 ∨ t.length < 4 then throw (.string, slash :: escaped :: t)
      else match parseHex4 t with
        | none => throw (.string, t)
        | some codepoint =>
            if 0xd800 ≤ codepoint ∧ codepoint ≤ 0xdbff then parseLowSurrogate (t.drop 4)
            else if 0xdc00 ≤ codepoint ∧ codepoint ≤ 0xdfff then throw (.string, t)
            else pure (t.drop 4)
  | t => throw (.string, t)

/-- The continuation bytes of `ConsumeUtf8`. -/
def continuation : Nat → Nat → Bytes → Except (JsonError × Bytes) (Nat × Bytes)
  | 0, codepoint, t => pure (codepoint, t)
  | n + 1, codepoint, c :: t =>
      if c.toNat / 64 = 2 then continuation n (codepoint * 64 + c.toNat % 64) t
      else throw (.string, c :: t)
  | _ + 1, _, [] => throw (.string, [])

/-- The length of a sequence and the payload of its first byte. -/
def utf8Lead (first : UInt8) : Option (Nat × Nat) :=
  if 0xc2 ≤ first.toNat ∧ first.toNat ≤ 0xdf then some (2, first.toNat % 32)
  else if 0xe0 ≤ first.toNat ∧ first.toNat ≤ 0xef then some (3, first.toNat % 16)
  else if 0xf0 ≤ first.toNat ∧ first.toNat ≤ 0xf4 then some (4, first.toNat % 8)
  else none

/-- `ConsumeUtf8` and the step of its caller over the last byte. -/
def consumeUtf8 : Bytes → Scan
  | [] => throw (.string, [])
  | first :: t =>
      match utf8Lead first with
      | none => throw (.string, first :: t)
      | some (count, payload) =>
          if (first :: t).length < count then throw (.string, first :: t)
          else do
            let (codepoint, r) ← continuation (count - 1) payload t
            if (count = 3 ∧ codepoint < 0x800) ∨ (count = 4 ∧ codepoint < 0x10000) ∨
                (0xd800 ≤ codepoint ∧ codepoint ≤ 0xdfff) ∨ 0x10ffff < codepoint then
              throw (.string, first :: t)
            else pure r

/-- The loop of `ParseString` from after the opening quote (`start`) up to the closing one. -/
def scanString (objectKey : Bool) (start : Bytes) : Nat → Bool → Bytes → Scan
  | fuel + 1, escaped, c :: t =>
      if c = 0x22 then
        if objectKey && escaped then throw (.string, start) else pure (c :: t)
      else if c.toNat < 0x20 then throw (.string, c :: t)
      else if c = 0x5c then do
        let r ← parseEscape (c :: t)
        scanString objectKey start fuel true r
      else if objectKey && (decide (c.toNat < 0x21) || decide (0x7e < c.toNat)) then
        throw (.string, c :: t)
      else if 0x80 ≤ c.toNat then do
        let r ← consumeUtf8 (c :: t)
        scanString objectKey start fuel escaped r
      else scanString objectKey start fuel escaped t
  | _, _, t => throw (.string, t)

/-! ## Numbers -/

/-- The sign of `ParseNumber`. -/
def scanSign : Bytes → Scan
  | [] => pure []
  | c :: t =>
      if c = 0x2d then if t = [] then throw (.number, c :: t) else pure t else pure (c :: t)

/-- The integer part. -/
def scanInteger : Bytes → Scan
  | [] => throw (.number, [])
  | c :: t =>
      if c = 0x30 then
        if t.head?.any (fun d => decide (IsDigit d)) then throw (.number, t) else pure t
      else if IsDigit c then pure (t.dropWhile fun d => decide (IsDigit d))
      else throw (.number, c :: t)

/-- One digit or more, as in the fraction and the exponent. -/
def scanDigits : Bytes → Scan
  | [] => throw (.number, [])
  | c :: t =>
      if IsDigit c then pure (t.dropWhile fun d => decide (IsDigit d))
      else throw (.number, c :: t)

/-- The fraction, if there is a point. -/
def scanFraction : Bytes → Scan
  | [] => pure []
  | c :: t => if c = 0x2e then scanDigits t else pure (c :: t)

/-- The sign of an exponent. -/
def scanExponentSign : Bytes → Bytes
  | [] => []
  | c :: t => if c = 0x2b ∨ c = 0x2d then t else c :: t

/-- The exponent, if there is an `e`. -/
def scanExponent : Bytes → Scan
  | [] => pure []
  | c :: t =>
      if c = 0x65 ∨ c = 0x45 then scanDigits (scanExponentSign t) else pure (c :: t)

/-- `ParseNumber` up to its token. -/
def scanNumber (t : Bytes) : Scan := do
  let t ← scanSign t
  let t ← scanInteger t
  let t ← scanFraction t
  scanExponent t

/-- `ParseLiteral` up to its token. -/
def scanLiteral (literal : Bytes) (t : Bytes) : Scan :=
  if t.take literal.length = literal then pure (t.drop literal.length) else throw (.syntaxError, t)

/-! ## Tokens -/

section Steps

variable (json : Bytes) (capacity : Nat)

/-- The position of the text that remains. -/
def offset (rest : Bytes) : Nat := json.length - rest.length

/-- `Fail` at the current position. -/
def fail {α : Type} (error : JsonError) : Parse α := do
  throw (error, offset json (← get).rest)

/-- Runs a scanner at the current position. -/
def scan (scanner : Bytes → Scan) : Parse Unit := fun s =>
  match scanner s.rest with
  | .ok rest => .ok () { s with rest }
  | .error (error, rest) => .error (error, offset json rest) s

def skipWhitespace : Parse Unit :=
  modify fun s => { s with rest := s.rest.dropWhile fun c => decide (IsSpace c) }

/-- `++position_`. -/
def advance : Parse Unit := modify fun s => { s with rest := s.rest.tail }

/-- `++tokens_[parent].child_count`, for a parent there is. -/
def countChild (parent : Int) (tokens : List JsonToken) : List JsonToken :=
  if 0 ≤ parent then
    tokens.modify parent.toNat fun t => { t with childCount := t.childCount + 1 }
  else tokens

def addToken (type : JsonTokenType) (start : Nat) (parent : Int) : Parse Nat := do
  let s ← get
  if capacity ≤ s.tokens.length then fail json .tokenLimit
  else do
    let token := { type, start, stop := start, parent, childCount := 0 }
    set { s with tokens := countChild parent s.tokens ++ [token] }
    return s.tokens.length

/-- `tokens_[token].end = stop`. -/
def setStop (token stop : Nat) : Parse Unit :=
  modify fun s => { s with tokens := s.tokens.modify token fun t => { t with stop } }

/-- Ends a token at the current position. -/
def closeToken (token : Nat) : Parse Unit := do
  setStop token (offset json (← get).rest)

def parseString (parent : Int) (objectKey : Bool) : Parse Nat := do
  advance
  let start := (← get).rest
  scan json (scanString objectKey start start.length false)
  let stop := offset json (← get).rest
  advance
  let token ← addToken json capacity .string (offset json start) parent
  setStop token stop
  return token

def parseLiteral (parent : Int) (literal : Bytes) (type : JsonTokenType) : Parse Unit := do
  let start := offset json (← get).rest
  scan json (scanLiteral literal)
  let token ← addToken json capacity type start parent
  closeToken json token

def parseNumber (parent : Int) : Parse Unit := do
  let start := offset json (← get).rest
  scan json scanNumber
  let token ← addToken json capacity .number start parent
  closeToken json token

/-! ## Containers -/

/-- How many of the tokens after `object` up to the `i`th are directly in it. -/
def ordinal (tokens : List JsonToken) (object i : Nat) : Nat :=
  ((tokens.take (i + 1)).drop (object + 1)).countP fun t => t.parent = (object : Int)

def hasDuplicateObjectKey (tokens : List JsonToken) (object newestKey : Nat) : Bool :=
  tokens[newestKey]?.any fun newest =>
    (List.range newestKey).any fun i => decide (object < i) && tokens[i]?.any fun candidate =>
      decide (candidate.parent = (object : Int)) && decide (candidate.type = .string) &&
        decide (ordinal tokens object i % 2 = 1) &&
        decide (candidate.text json = newest.text json)

section Containers

variable (parseValue : Int → Parse Unit)

/-- The loop of `ParseArray`. -/
def parseElements (array : Nat) : Nat → Parse Unit
  | 0 => fail json .syntaxError
  | fuel + 1 => do
      if (← get).rest = [] then fail json .syntaxError
      else do
        parseValue array
        skipWhitespace
        if (← get).rest.head? = some 0x5d then do
          advance
          closeToken json array
        else if (← get).rest.head? ≠ some 0x2c then fail json .syntaxError
        else do
          advance
          skipWhitespace
          parseElements array fuel

def parseArray (parent : Int) : Parse Unit := do
  let start := offset json (← get).rest
  advance
  let array ← addToken json capacity .array start parent
  skipWhitespace
  if (← get).rest.head? = some 0x5d then do
    advance
    closeToken json array
  else parseElements json parseValue array (← get).rest.length

/-- One key of `ParseObject`, its colon and its value. -/
def parseMember (object : Nat) : Parse Unit := do
  if (← get).rest.head? ≠ some 0x22 then fail json .syntaxError
  else do
    let key ← parseString json capacity object true
    let tokens := (← get).tokens
    if hasDuplicateObjectKey json tokens object key then
      throw (.duplicateKey, (tokens[key]?.map (·.start)).getD 0)
    else do
      skipWhitespace
      if (← get).rest.head? ≠ some 0x3a then fail json .syntaxError
      else do
        advance
        parseValue object

/-- The loop of `ParseObject`. -/
def parseMembers (object : Nat) : Nat → Parse Unit
  | 0 => fail json .syntaxError
  | fuel + 1 => do
      parseMember json capacity parseValue object
      skipWhitespace
      if (← get).rest.head? = some 0x7d then do
        advance
        closeToken json object
      else if (← get).rest.head? ≠ some 0x2c then fail json .syntaxError
      else do
        advance
        skipWhitespace
        parseMembers object fuel

def parseObject (parent : Int) : Parse Unit := do
  let start := offset json (← get).rest
  advance
  let object ← addToken json capacity .object start parent
  skipWhitespace
  if (← get).rest.head? = some 0x7d then do
    advance
    closeToken json object
  else parseMembers json capacity parseValue object (← get).rest.length

end Containers

/-- `ParseValue` with `levels` of depth left. -/
def parseValue : Nat → Int → Parse Unit
  | 0, _ => fail json .tooDeep
  | levels + 1, parent => do
      skipWhitespace
      match (← get).rest with
      | [] => fail json .syntaxError
      | c :: _ =>
          if c = 0x7b then parseObject json capacity (parseValue levels) parent
          else if c = 0x5b then parseArray json capacity (parseValue levels) parent
          else if c = 0x22 then do
            let _ ← parseString json capacity parent false
          else if c = 0x74 then parseLiteral json capacity parent [0x74, 0x72, 0x75, 0x65] .true
          else if c = 0x66 then
            parseLiteral json capacity parent [0x66, 0x61, 0x6c, 0x73, 0x65] .false
          else if c = 0x6e then parseLiteral json capacity parent [0x6e, 0x75, 0x6c, 0x6c] .null
          else if c = 0x2d ∨ IsDigit c then parseNumber json capacity parent
          else fail json .syntaxError

/-- The body of `Run`. -/
def parseText (maxDepth : Nat) : Parse Unit := do
  skipWhitespace
  parseValue json capacity maxDepth (-1)
  skipWhitespace
  if (← get).rest ≠ [] then fail json .trailingData

end Steps

def kMaximumJsonBytes : Nat := 1024 * 1024

/-- `ParseJson`, with the tokens it leaves; `none` is a null text. -/
def parseJson (json : Option Bytes) (capacity maxDepth : Nat) :
    JsonParseResult × List JsonToken :=
  match json with
  | none => ({ error := some .argument, tokenCount := 0, errorOffset := 0 }, [])
  | some json =>
      if capacity = 0 ∨ maxDepth = 0 then
        ({ error := some .argument, tokenCount := 0, errorOffset := 0 }, [])
      else if kMaximumJsonBytes < json.length then
        ({ error := some .tooLarge, tokenCount := 0, errorOffset := 0 }, [])
      else match parseText json capacity maxDepth { rest := json, tokens := [] } with
        | .ok _ s =>
            ({ error := none, tokenCount := s.tokens.length, errorOffset := offset json s.rest },
              s.tokens)
        | .error (error, errorOffset) s =>
            ({ error := some error, tokenCount := s.tokens.length, errorOffset }, s.tokens)

end Json

end BmxUpdate
