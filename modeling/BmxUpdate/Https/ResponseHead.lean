import BmxUpdate.Library.Checks
import BmxUpdate.Library.Http

/-!
# Response heads

`ParseHttpResponseHead` (`http_response_parser.cpp`), run after every read on
all the bytes received so far.  `parseHttpResponseHead_append`: a head that was
found stays found however the bytes go on.
-/

namespace BmxUpdate

namespace Https

open Wire Checks Http

def kMaximumHttpHeaderBytes : Nat := 32768
def kMaximumHttpLocationBytes : Nat := 2048
def kMaximumHttpContentTypeBytes : Nat := 96

inductive HttpParseStatus where
  | ok | needMoreData | invalidArgument | headerTooLarge | invalidStatusLine | invalidHeader
  | duplicateHeader | unsupportedTransferEncoding | unsupportedContentEncoding
  | ambiguousBodyLength | missingBodyLength | invalidContentLength | missingLocation
  | outputTooSmall
deriving DecidableEq, Repr

structure HttpResponseHead where
  statusCode : Nat
  hasContentLength : Bool
  contentLength : Nat
  chunked : Bool
  connectionClose : Bool
  location : Bytes
  contentType : Bytes
deriving DecidableEq, Repr

/-- The head so far and the fields that were seen (`saw_…`). -/
structure HeadFields where
  head : HttpResponseHead
  sawTransferEncoding : Bool
  sawContentEncoding : Bool
  sawLocation : Bool
  sawContentType : Bool
  sawConnection : Bool

/-! ## Lines -/

/-- `IsTokenCharacter`: `strchr` also finds the NUL that ends its string. -/
def isTokenCharacter (c : UInt8) : Bool := isTokenByte c || c == 0

/-- `NameEquals` and `ValueEqualsInsensitive` -/
def equalsInsensitive (value expected : Bytes) : Bool := value.map lower = expected

/-- `FindCrlf`: the line and what follows its end. -/
def findCrlf : Bytes → Option (Bytes × Bytes)
  | c :: d :: rest =>
      if c = 0x0d ∧ d = 0x0a then some ([], rest)
      else if c = 0x0a then none
      else (findCrlf (d :: rest)).map fun found => (c :: found.1, found.2)
  | _ => none

/-- `ParseDecimal` -/
def parseDecimal (value : Bytes) : Option Nat :=
  if value = [] then none
  else
    value.foldlM (fun parsed c =>
      if 0x30 ≤ c ∧ c ≤ 0x39 ∧ parsed ≤ (2 ^ 64 - 1 - (c.toNat - 0x30)) / 10 then
        some (parsed * 10 + (c.toNat - 0x30))
      else none) 0

/-- `StatusMayHaveUnframedBody` -/
def statusMayHaveUnframedBody (status : Nat) : Bool :=
  (100 ≤ status && status < 200) || status == 204 || status == 304 ||
    (300 ≤ status && status < 400)

def isDigit (c : UInt8) : Bool := 0x30 ≤ c && c ≤ 0x39

/-- The status code of a status line. -/
def parseStatusLine (line : Bytes) : Except HttpParseStatus Nat :=
  match line.drop 9 with
  | a :: b :: c :: reason =>
      if (line.take 9 = bytesOf "HTTP/1.1 " ∨ line.take 9 = bytesOf "HTTP/1.0 ") ∧
          (0x31 ≤ a ∧ a ≤ 0x35) ∧ isDigit b ∧ isDigit c ∧
          (reason = [] ∨ reason.head? = some 0x20) ∧ reason.all (fun r => 0x20 ≤ r && r ≤ 0x7e) then
        .ok ((a.toNat - 0x30) * 100 + (b.toNat - 0x30) * 10 + (c.toNat - 0x30))
      else .error .invalidStatusLine
  | _ => .error .invalidStatusLine

def isBlank (c : UInt8) : Bool := c == 0x20 || c == 0x09

/-- A value without the blanks around it. -/
def trimBlanks (value : Bytes) : Bytes :=
  ((value.dropWhile isBlank).reverse.dropWhile isBlank).reverse

/-- One header line. -/
def parseField (fields : HeadFields) (line : Bytes) : Except HttpParseStatus HeadFields := do
  let name := line.takeWhile (· ≠ 0x3a)
  let afterName := line.dropWhile (· ≠ 0x3a)
  reject (afterName = [] ∨ name = []) .invalidHeader
  reject (¬name.all isTokenCharacter) .invalidHeader
  let value := trimBlanks (afterName.drop 1)
  reject (value.any fun c => (c < 0x20 && c != 0x09) || c == 0x7f) .invalidHeader
  if equalsInsensitive name (bytesOf "content-length") then
    reject fields.head.hasContentLength .duplicateHeader
    match parseDecimal value with
    | none => throw .invalidContentLength
    | some length =>
        return { fields with
          head := { fields.head with hasContentLength := true, contentLength := length } }
  else if equalsInsensitive name (bytesOf "transfer-encoding") then
    reject fields.sawTransferEncoding .duplicateHeader
    reject (¬equalsInsensitive value (bytesOf "chunked")) .unsupportedTransferEncoding
    return { fields with
      sawTransferEncoding := true, head := { fields.head with chunked := true } }
  else if equalsInsensitive name (bytesOf "content-encoding") then
    reject fields.sawContentEncoding .duplicateHeader
    reject (¬equalsInsensitive value (bytesOf "identity")) .unsupportedContentEncoding
    return { fields with sawContentEncoding := true }
  else if equalsInsensitive name (bytesOf "location") then
    reject fields.sawLocation .duplicateHeader
    reject (kMaximumHttpLocationBytes ≤ value.length) .outputTooSmall
    return { fields with sawLocation := true, head := { fields.head with location := value } }
  else if equalsInsensitive name (bytesOf "content-type") then
    reject fields.sawContentType .duplicateHeader
    reject (kMaximumHttpContentTypeBytes ≤ value.length) .outputTooSmall
    return { fields with
      sawContentType := true, head := { fields.head with contentType := value } }
  else if equalsInsensitive name (bytesOf "connection") then
    reject fields.sawConnection .duplicateHeader
    return { fields with
      sawConnection := true
      head := { fields.head with connectionClose := equalsInsensitive value (bytesOf "close") } }
  else
    reject (equalsInsensitive name (bytesOf "content-range")) .invalidHeader
    return fields

theorem findCrlf_length {bytes : Bytes} {found : Bytes × Bytes} (h : findCrlf bytes = some found) :
    found.1.length + found.2.length + 2 = bytes.length := by
  induction bytes generalizing found with
  | nil => cases h
  | cons c bytes ih =>
      cases bytes with
      | nil => cases h
      | cons d rest =>
          rw [findCrlf] at h
          split at h
          · cases h
            simp
          · split at h
            · cases h
            · obtain ⟨inner, hinner, rfl⟩ := Option.map_eq_some_iff.mp h
              have hlength := ih hinner
              simp only [List.length_cons] at hlength ⊢
              omega

/-- The header lines up to the empty line, and what follows it; `incomplete` is
the status of a head without an end. -/
def parseFields (incomplete : HttpParseStatus) (fields : HeadFields) (input : Bytes) :
    Except HttpParseStatus (HeadFields × Bytes) :=
  if input.length < 2 then .error incomplete
  else if input.take 2 = crlf then .ok (fields, input.drop 2)
  else if input.head?.any isBlank then .error .invalidHeader
  else
    match _hfound : findCrlf input with
    | none => .error incomplete
    | some (line, rest) =>
        match parseField fields line with
        | .error e => .error e
        | .ok fields => parseFields incomplete fields rest
termination_by input.length
decreasing_by
  have hlength := findCrlf_length _hfound
  simp only at hlength
  omega

/-- `ParseHttpResponseHead`: the head and its size. -/
def parseHttpResponseHead (input : Bytes) : Except HttpParseStatus (HttpResponseHead × Nat) := do
  let input := input.take kMaximumHttpHeaderBytes
  let incomplete : HttpParseStatus :=
    if input.length = kMaximumHttpHeaderBytes then .headerTooLarge else .needMoreData
  match findCrlf input with
  | none => throw incomplete
  | some (line, rest) => do
      let statusCode ← parseStatusLine line
      let (fields, body) ← parseFields incomplete
        ⟨⟨statusCode, false, 0, false, false, [], []⟩, false, false, false, false, false⟩ rest
      let head := fields.head
      reject (head.hasContentLength ∧ head.chunked) .ambiguousBodyLength
      reject (¬head.hasContentLength ∧ ¬head.chunked ∧ ¬statusMayHaveUnframedBody head.statusCode)
        .missingBodyLength
      reject (300 ≤ head.statusCode ∧ head.statusCode < 400 ∧ head.location = [])
        .missingLocation
      return (head, input.length - body.length)

/-! ## The bytes that follow do not matter -/

theorem findCrlf_append {bytes x : Bytes} {found : Bytes × Bytes} (h : findCrlf bytes = some found) :
    findCrlf (bytes ++ x) = some (found.1, found.2 ++ x) := by
  induction bytes generalizing found with
  | nil => cases h
  | cons c bytes ih =>
      cases bytes with
      | nil => cases h
      | cons d rest =>
          rw [findCrlf] at h
          show findCrlf (c :: d :: (rest ++ x)) = _
          rw [findCrlf]
          split at h
          · next hend =>
              rw [if_pos hend]
              cases h
              rfl
          · next hend =>
              rw [if_neg hend]
              split at h
              · cases h
              · next hline =>
                  rw [if_neg hline]
                  obtain ⟨inner, hinner, rfl⟩ := Option.map_eq_some_iff.mp h
                  rw [← List.cons_append, ih hinner]
                  rfl

theorem parseFields_append {incomplete incomplete' : HttpParseStatus} {fields fields' : HeadFields}
    {input rest x : Bytes} (h : parseFields incomplete fields input = .ok (fields', rest)) :
    parseFields incomplete' fields (input ++ x) = .ok (fields', rest ++ x) := by
  induction hn : input.length using Nat.strong_induction_on generalizing fields input with
  | _ n ih =>
      rw [parseFields] at h
      split at h
      · cases h
      · next hlong =>
          have hlong' : ¬(input ++ x).length < 2 := by
            rw [List.length_append]
            omega
          have htake : (input ++ x).take 2 = input.take 2 := by
            rw [List.take_append_of_le_length (by omega)]
          have hhead : (input ++ x).head? = input.head? := by
            cases input with
            | nil => exact absurd (Nat.zero_lt_succ 1) hlong
            | cons c input => rfl
          rw [parseFields, if_neg hlong', htake, hhead]
          split at h
          · next hend =>
              rw [if_pos hend]
              cases h
              rw [List.drop_append_of_le_length (by omega)]
          · next hend =>
              rw [if_neg hend]
              split at h
              · cases h
              · next hblank =>
                  rw [if_neg hblank]
                  split at h
                  · cases h
                  · next line lines hfound =>
                      have hlength := findCrlf_length hfound
                      have happend := findCrlf_append (x := x) hfound
                      simp only at hlength happend
                      rw [happend]
                      simp only
                      split at h
                      · cases h
                      · exact ih _ (by omega) h rfl

theorem parseHttpResponseHead_append {input x : Bytes} {head : HttpResponseHead} {size : Nat}
    (h : parseHttpResponseHead input = .ok (head, size)) :
    size ≤ input.length ∧ parseHttpResponseHead (input ++ x) = .ok (head, size) := by
  obtain ⟨more, hmore⟩ : ∃ more, (input ++ x).take kMaximumHttpHeaderBytes =
      input.take kMaximumHttpHeaderBytes ++ more := by
    rw [List.take_append]
    exact ⟨_, rfl⟩
  have hle : (input.take kMaximumHttpHeaderBytes).length ≤ input.length := List.length_take_le' _ _
  unfold parseHttpResponseHead at h ⊢
  simp only [hmore]
  generalize input.take kMaximumHttpHeaderBytes = bytes at h hle ⊢
  dsimp only at h ⊢
  split at h
  · cases h
  · next line lines hfound =>
      have happend := findCrlf_append (x := more) hfound
      simp only at happend
      rw [happend]
      obtain ⟨statusCode, hstatus, h⟩ := bind_eq_ok.mp h
      obtain ⟨⟨fields, body⟩, hfields, h⟩ := bind_eq_ok.mp h
      simp only [reject_bind_eq_ok] at h
      obtain ⟨hambiguous, hmissing, hlocation, h⟩ := h
      cases h
      refine ⟨by omega, ?_⟩
      simp only
      rw [bind_eq_ok]
      refine ⟨statusCode, hstatus, ?_⟩
      rw [bind_eq_ok]
      refine ⟨(fields, body ++ more), parseFields_append hfields, ?_⟩
      simp only [reject_bind_eq_ok]
      refine ⟨hambiguous, hmissing, hlocation, ?_⟩
      rw [List.length_append, List.length_append, Nat.add_sub_add_right]
      rfl

end Https

end BmxUpdate
