import BmxUpdate.Https.ResponseHead

/-!
# The heads that are accepted

`ParseHttpResponseHead` accepts a status line and fields in the form of
RFC 9112, with the framing the status asks for (`HeadForm`), as long as each
field is one it supports (`Supported`): `parseHttpResponseHead_ok_iff`.  The
class of the bytes in a field name is a parameter of the form.  The parser has
`IsTokenCharacter` there, which takes the NUL for a token byte.
-/

namespace BmxUpdate

namespace Https

open Wire Checks Http

/-! ## The form of a head -/

/-- A field line as it is received, with the blanks around the value. -/
def fieldLine (field : Field) : Bytes := field.name ++ 0x3a :: field.value

def fieldLines (fields : List Field) : Bytes := fields.flatMap fun field => fieldLine field ++ crlf

/-- The bytes of a head. -/
def headOf (status : Bytes) (fields : List Field) : Bytes :=
  status ++ crlf ++ (fieldLines fields ++ crlf)

/-- A status line with its code. -/
inductive StatusLine : Bytes → Nat → Prop
  | mk {version reason : Bytes} {a b c : UInt8}
      (hversion : version = bytesOf "HTTP/1.1 " ∨ version = bytesOf "HTTP/1.0 ")
      (ha : 0x31 ≤ a ∧ a ≤ 0x35) (hb : isDigit b = true) (hc : isDigit c = true)
      (hspace : reason = [] ∨ reason.head? = some 0x20)
      (hreason : ∀ r ∈ reason, 0x20 ≤ r ∧ r ≤ 0x7e) :
      StatusLine (version ++ a :: b :: c :: reason)
        ((a.toNat - 0x30) * 100 + (b.toNat - 0x30) * 10 + (c.toNat - 0x30))

def contentLengthName : Bytes := bytesOf "content-length"
def transferEncodingName : Bytes := bytesOf "transfer-encoding"
def contentEncodingName : Bytes := bytesOf "content-encoding"
def locationName : Bytes := bytesOf "location"
def contentTypeName : Bytes := bytesOf "content-type"
def connectionName : Bytes := bytesOf "connection"
def contentRangeName : Bytes := bytesOf "content-range"

/-- The value of a field, which the blanks around it are not part of. -/
def fieldValue (field : Field) : Bytes := trimBlanks field.value

def HasLength (fields : List Field) : Prop := ∃ f ∈ fields, f.named contentLengthName = true

def IsChunked (fields : List Field) : Prop :=
  ∃ f ∈ fields, f.named transferEncodingName = true ∧
    equalsInsensitive (fieldValue f) (bytesOf "chunked") = true

/-- No name twice. -/
def AtMostOnce (fields : List Field) (name : Bytes) : Prop :=
  (fields.filter (Field.named name)).length ≤ 1

/-- The bytes start with a head: a status line and fields, and the framing that goes with the
status. -/
structure HeadForm (nameByte : UInt8 → Bool) (bytes status : Bytes) (code : Nat)
    (fields : List Field) : Prop where
  starts : headOf status fields <+: bytes
  size : (headOf status fields).length ≤ kMaximumHttpHeaderBytes
  status : StatusLine status code
  names : ∀ f ∈ fields, f.name ≠ [] ∧ ∀ c ∈ f.name, nameByte c = true
  values : ∀ f ∈ fields, ∀ c ∈ f.value, isFieldByte c = true
  once : AtMostOnce fields contentLengthName ∧ AtMostOnce fields transferEncodingName
  unambiguous : ¬(HasLength fields ∧ IsChunked fields)
  framed : HasLength fields ∨ IsChunked fields ∨ statusMayHaveUnframedBody code = true
  location : 300 ≤ code → code < 400 →
    ∃ f ∈ fields, f.named locationName = true ∧ fieldValue f ≠ []

/-! ## The fields that are supported -/

/-- A field the parser can do with. -/
def fieldSupported (f : Field) : Bool :=
  if f.named contentLengthName then (parseDecimal (fieldValue f)).isSome
  else if f.named transferEncodingName then
    equalsInsensitive (fieldValue f) (bytesOf "chunked")
  else if f.named contentEncodingName then
    equalsInsensitive (fieldValue f) (bytesOf "identity")
  else if f.named locationName then (fieldValue f).length < kMaximumHttpLocationBytes
  else if f.named contentTypeName then (fieldValue f).length < kMaximumHttpContentTypeBytes
  else if f.named connectionName then true
  else !f.named contentRangeName

/-- The other fields the parser looks at are there once at most. -/
structure Supported (fields : List Field) : Prop where
  once : AtMostOnce fields contentEncodingName ∧ AtMostOnce fields locationName ∧
    AtMostOnce fields contentTypeName ∧ AtMostOnce fields connectionName
  fields : ∀ f ∈ fields, fieldSupported f = true

/-! ## Lines -/

theorem isFieldByte_iff {c : UInt8} :
    isFieldByte c = true ↔ ¬((c < 0x20 && c != 0x09) || c == 0x7f) = true := by
  apply forall_byte (P := fun c => isFieldByte c = true ↔
    ¬((c < 0x20 && c != 0x09) || c == 0x7f) = true)
  decide +kernel

theorem isFieldByte_of_isBlank {c : UInt8} (h : isBlank c = true) : isFieldByte c = true := by
  simp only [isBlank, Bool.or_eq_true, beq_iff_eq] at h
  rcases h with rfl | rfl <;> decide

theorem findCrlf_sound {bytes : Bytes} {found : Bytes × Bytes} (h : findCrlf bytes = some found) :
    bytes = found.1 ++ crlf ++ found.2 := by
  induction bytes generalizing found with
  | nil => cases h
  | cons c bytes ih =>
      cases bytes with
      | nil => cases h
      | cons d rest =>
          rw [findCrlf] at h
          split at h
          · next hend =>
              obtain ⟨rfl, rfl⟩ := hend
              cases h
              rfl
          · split at h
            · cases h
            · obtain ⟨inner, hinner, rfl⟩ := Option.map_eq_some_iff.mp h
              have hrest := ih hinner
              show c :: (d :: rest) = c :: (inner.1 ++ crlf ++ inner.2)
              rw [← hrest]

/-- A line without CR and LF is found. -/
theorem findCrlf_complete {line rest : Bytes} (hcr : (0x0d : UInt8) ∉ line)
    (hlf : (0x0a : UInt8) ∉ line) : findCrlf (line ++ crlf ++ rest) = some (line, rest) := by
  induction line with
  | nil => rfl
  | cons c line ih =>
      rw [List.mem_cons, not_or] at hcr hlf
      have hrest := ih hcr.2 hlf.2
      have hmore : ∃ d more, line ++ crlf ++ rest = d :: more := by
        cases line with
        | nil => exact ⟨_, _, rfl⟩
        | cons d line => exact ⟨_, _, rfl⟩
      obtain ⟨d, more, hmore⟩ := hmore
      show findCrlf (c :: (line ++ crlf ++ rest)) = _
      rw [hmore] at hrest ⊢
      rw [findCrlf, if_neg fun h => hcr.1 h.1.symm, if_neg fun h => hlf.1 h.symm, hrest]
      rfl

/-! ## The status line -/

theorem isDigit_ge {c : UInt8} (h : isDigit c = true) : 0x20 ≤ c ∧ c ≤ 0x7e := by
  simp only [isDigit, Bool.and_eq_true, decide_eq_true_eq, UInt8.le_iff_toNat_le] at h ⊢
  have h1 : (0x30 : UInt8).toNat = 0x30 := rfl
  have h2 : (0x39 : UInt8).toNat = 0x39 := rfl
  have h3 : (0x20 : UInt8).toNat = 0x20 := rfl
  have h4 : (0x7e : UInt8).toNat = 0x7e := rfl
  omega

theorem parseStatusLine_eq_ok {line : Bytes} {code : Nat} :
    parseStatusLine line = .ok code ↔ StatusLine line code := by
  constructor
  · intro h
    unfold parseStatusLine at h
    split at h
    · next a b c reason hdrop =>
        split at h
        · next hline =>
            cases h
            obtain ⟨hversion, ha, hb, hc, hspace, hreason⟩ := hline
            have hsplit := List.take_append_drop 9 line
            rw [hdrop] at hsplit
            rw [← hsplit]
            refine .mk hversion ha hb hc hspace ?_
            intro r hr
            have := List.all_eq_true.mp hreason r hr
            simpa using this
        · cases h
    · cases h
  · intro h
    obtain ⟨hversion, ha, hb, hc, hspace, hreason⟩ := h
    next version reason a b c =>
      have hlength : version.length = 9 := by
        rcases hversion with rfl | rfl <;> decide
      have htake : (version ++ a :: b :: c :: reason).take 9 = version := by
        rw [List.take_append_of_le_length (by omega), List.take_of_length_le (by omega)]
      have hdrop : (version ++ a :: b :: c :: reason).drop 9 = a :: b :: c :: reason := by
        rw [List.drop_append_of_le_length (by omega), List.drop_of_length_le (by omega)]
        rfl
      have hall : reason.all (fun r => 0x20 ≤ r && r ≤ 0x7e) = true := by
        rw [List.all_eq_true]
        intro r hr
        simpa using hreason r hr
      unfold parseStatusLine
      rw [hdrop, htake]
      simp only
      rw [if_pos ⟨hversion, ha, hb, hc, hspace, hall⟩]

theorem StatusLine.printable {line : Bytes} {code : Nat} (h : StatusLine line code) :
    ∀ c ∈ line, 0x20 ≤ c ∧ c ≤ 0x7e := by
  obtain ⟨hversion, ha, hb, hc, hspace, hreason⟩ := h
  intro d hd
  rcases List.mem_append.mp hd with hd | hd
  · have hclass : ∀ version : Bytes,
        version = bytesOf "HTTP/1.1 " ∨ version = bytesOf "HTTP/1.0 " →
          ∀ d ∈ version, 0x20 ≤ d ∧ d ≤ 0x7e := by
      rintro version (rfl | rfl) <;> simp [bytesOf]
    exact hclass _ hversion d hd
  · simp only [List.mem_cons] at hd
    rcases hd with rfl | rfl | rfl | hd
    · exact isDigit_ge (by
        simp only [isDigit, Bool.and_eq_true, decide_eq_true_eq]
        exact ⟨UInt8.le_trans (by decide) ha.1, UInt8.le_trans ha.2 (by decide)⟩)
    · exact isDigit_ge hb
    · exact isDigit_ge hc
    · exact hreason d hd

theorem StatusLine.lineBytes {line : Bytes} {code : Nat} (h : StatusLine line code) :
    (0x0d : UInt8) ∉ line ∧ (0x0a : UInt8) ∉ line := by
  constructor
  · intro hmem
    exact absurd (h.printable _ hmem).1 (by decide)
  · intro hmem
    exact absurd (h.printable _ hmem).1 (by decide)

/-! ## One field -/

/-- The names that may be there once. -/
def singleNames : List Bytes :=
  [contentLengthName, transferEncodingName, contentEncodingName, locationName, contentTypeName,
    connectionName]

/-- Whether a field of that name was seen. -/
def saw (fields : HeadFields) (name : Bytes) : Bool :=
  if name = contentLengthName then fields.head.hasContentLength
  else if name = transferEncodingName then fields.sawTransferEncoding
  else if name = contentEncodingName then fields.sawContentEncoding
  else if name = locationName then fields.sawLocation
  else if name = contentTypeName then fields.sawContentType
  else if name = connectionName then fields.sawConnection
  else false

/-- What a supported field leaves. -/
def recorded (fields : HeadFields) (f : Field) : HeadFields :=
  if f.named contentLengthName then
    { fields with
      head := { fields.head with
        hasContentLength := true, contentLength := (parseDecimal (fieldValue f)).getD 0 } }
  else if f.named transferEncodingName then
    { fields with sawTransferEncoding := true, head := { fields.head with chunked := true } }
  else if f.named contentEncodingName then { fields with sawContentEncoding := true }
  else if f.named locationName then
    { fields with sawLocation := true, head := { fields.head with location := fieldValue f } }
  else if f.named contentTypeName then
    { fields with
      sawContentType := true, head := { fields.head with contentType := fieldValue f } }
  else if f.named connectionName then
    { fields with
      sawConnection := true
      head := { fields.head with
        connectionClose := equalsInsensitive (fieldValue f) (bytesOf "close") } }
  else fields

/-- A field is recorded if it is the first of its name and supported. -/
def Records (fields : HeadFields) (f : Field) (fields' : HeadFields) : Prop :=
  (∀ name ∈ singleNames, f.named name = true → saw fields name = false) ∧
    fieldSupported f = true ∧ fields' = recorded fields f

/-- A field has one name. -/
theorem named_unique {f : Field} {name name' : Bytes} (h : f.named name = true)
    (h' : f.named name' = true) : name = name' := by
  unfold Field.named at h h'
  rw [← of_decide_eq_true h, ← of_decide_eq_true h']

/-- The checks of a field that has one of the names. -/
theorem records_named {fields fields' : HeadFields} {f : Field} {name : Bytes}
    (hname : name ∈ singleNames) (hf : f.named name = true) :
    Records fields f fields' ↔
      saw fields name = false ∧ fieldSupported f = true ∧ fields' = recorded fields f := by
  unfold Records
  constructor
  · rintro ⟨hsaw, h⟩
    exact ⟨hsaw name hname hf, h⟩
  · rintro ⟨hsaw, h⟩
    refine ⟨fun other _ hother => ?_, h⟩
    rw [named_unique hother hf]
    exact hsaw

/-- The last part of `parseField`, from where the name and the value are known. -/
def recordField (fields : HeadFields) (name value : Bytes) : Except HttpParseStatus HeadFields := do
  if equalsInsensitive name (bytesOf "content-length") then
    reject fields.head.hasContentLength .duplicateHeader
    match parseDecimal value with
    | none => throw .invalidContentLength
    | some length =>
        return { fields with
          head := { fields.head with hasContentLength := true, contentLength := length } }
  else if equalsInsensitive name (bytesOf "transfer-encoding") then
    reject fields.sawTransferEncoding .duplicateHeader
    reject (¬equalsInsensitive value (bytesOf "chunked")) .unsupportedTransferEncoding
    return { fields with
      sawTransferEncoding := true, head := { fields.head with chunked := true } }
  else if equalsInsensitive name (bytesOf "content-encoding") then
    reject fields.sawContentEncoding .duplicateHeader
    reject (¬equalsInsensitive value (bytesOf "identity")) .unsupportedContentEncoding
    return { fields with sawContentEncoding := true }
  else if equalsInsensitive name (bytesOf "location") then
    reject fields.sawLocation .duplicateHeader
    reject (kMaximumHttpLocationBytes ≤ value.length) .outputTooSmall
    return { fields with sawLocation := true, head := { fields.head with location := value } }
  else if equalsInsensitive name (bytesOf "content-type") then
    reject fields.sawContentType .duplicateHeader
    reject (kMaximumHttpContentTypeBytes ≤ value.length) .outputTooSmall
    return { fields with
      sawContentType := true, head := { fields.head with contentType := value } }
  else if equalsInsensitive name (bytesOf "connection") then
    reject fields.sawConnection .duplicateHeader
    return { fields with
      sawConnection := true
      head := { fields.head with connectionClose := equalsInsensitive value (bytesOf "close") } }
  else
    reject (equalsInsensitive name (bytesOf "content-range")) .invalidHeader
    return fields

theorem pure_eq_ok {α ε : Type} {a b : α} : (pure a : Except ε α) = .ok b ↔ b = a := by
  constructor
  · intro h
    exact (Except.ok.inj h).symm
  · rintro rfl
    rfl

/-- The comparisons of the parser are those of the names. -/
theorem compares_named (f : Field) :
    equalsInsensitive f.name (bytesOf "content-length") = f.named contentLengthName ∧
    equalsInsensitive f.name (bytesOf "transfer-encoding") = f.named transferEncodingName ∧
    equalsInsensitive f.name (bytesOf "content-encoding") = f.named contentEncodingName ∧
    equalsInsensitive f.name (bytesOf "location") = f.named locationName ∧
    equalsInsensitive f.name (bytesOf "content-type") = f.named contentTypeName ∧
    equalsInsensitive f.name (bytesOf "connection") = f.named connectionName ∧
    equalsInsensitive f.name (bytesOf "content-range") = f.named contentRangeName :=
  ⟨rfl, rfl, rfl, rfl, rfl, rfl, rfl⟩

/-- A field has one name only. -/
theorem not_named {f : Field} {name other : Bytes} (h : f.named name = true)
    (hne : other ≠ name) : f.named other = false := by
  rw [← Bool.not_eq_true]
  exact fun hother => hne (named_unique hother h)

section RecordField

variable {fields fields' : HeadFields} {f : Field}

theorem recordField_contentLength (h : f.named contentLengthName = true) :
    recordField fields f.name (fieldValue f) = .ok fields' ↔ Records fields f fields' := by
  have hsaw : saw fields contentLengthName = fields.head.hasContentLength := rfl
  rw [records_named (by decide) h, hsaw]
  simp only [recordField, fieldSupported, recorded, compares_named, h, if_true, reject_bind_eq_ok]
  cases parseDecimal (fieldValue f) with
  | none => simp [throw, throwThe, MonadExceptOf.throw]
  | some length => simp [pure_eq_ok]

theorem recordField_transferEncoding (h : f.named transferEncodingName = true) :
    recordField fields f.name (fieldValue f) = .ok fields' ↔ Records fields f fields' := by
  have hlength : f.named contentLengthName = false := not_named h (by decide)
  have hsaw : saw fields transferEncodingName = fields.sawTransferEncoding := rfl
  rw [records_named (by decide) h, hsaw]
  simp only [recordField, fieldSupported, recorded, compares_named, hlength, h, if_true,
    Bool.false_eq_true, if_false, reject_bind_eq_ok, pure_eq_ok, Bool.not_eq_true, Bool.not_eq_false]

theorem recordField_contentEncoding (h : f.named contentEncodingName = true) :
    recordField fields f.name (fieldValue f) = .ok fields' ↔ Records fields f fields' := by
  have hlength : f.named contentLengthName = false := not_named h (by decide)
  have htransfer : f.named transferEncodingName = false := not_named h (by decide)
  have hsaw : saw fields contentEncodingName = fields.sawContentEncoding := rfl
  rw [records_named (by decide) h, hsaw]
  simp only [recordField, fieldSupported, recorded, compares_named, hlength, htransfer, h, if_true,
    Bool.false_eq_true, if_false, reject_bind_eq_ok, pure_eq_ok, Bool.not_eq_true, Bool.not_eq_false]

theorem recordField_location (h : f.named locationName = true) :
    recordField fields f.name (fieldValue f) = .ok fields' ↔ Records fields f fields' := by
  have hlength : f.named contentLengthName = false := not_named h (by decide)
  have htransfer : f.named transferEncodingName = false := not_named h (by decide)
  have hencoding : f.named contentEncodingName = false := not_named h (by decide)
  have hsaw : saw fields locationName = fields.sawLocation := rfl
  rw [records_named (by decide) h, hsaw]
  simp only [recordField, fieldSupported, recorded, compares_named, hlength, htransfer, hencoding,
    h, if_true, Bool.false_eq_true, if_false, reject_bind_eq_ok, pure_eq_ok, decide_eq_true_eq,
    not_le, Bool.not_eq_true]

theorem recordField_contentType (h : f.named contentTypeName = true) :
    recordField fields f.name (fieldValue f) = .ok fields' ↔ Records fields f fields' := by
  have hlength : f.named contentLengthName = false := not_named h (by decide)
  have htransfer : f.named transferEncodingName = false := not_named h (by decide)
  have hencoding : f.named contentEncodingName = false := not_named h (by decide)
  have hlocation : f.named locationName = false := not_named h (by decide)
  have hsaw : saw fields contentTypeName = fields.sawContentType := rfl
  rw [records_named (by decide) h, hsaw]
  simp only [recordField, fieldSupported, recorded, compares_named, hlength, htransfer, hencoding,
    hlocation, h, if_true, Bool.false_eq_true, if_false, reject_bind_eq_ok, pure_eq_ok,
    decide_eq_true_eq, not_le, Bool.not_eq_true]

theorem recordField_connection (h : f.named connectionName = true) :
    recordField fields f.name (fieldValue f) = .ok fields' ↔ Records fields f fields' := by
  have hlength : f.named contentLengthName = false := not_named h (by decide)
  have htransfer : f.named transferEncodingName = false := not_named h (by decide)
  have hencoding : f.named contentEncodingName = false := not_named h (by decide)
  have hlocation : f.named locationName = false := not_named h (by decide)
  have htype : f.named contentTypeName = false := not_named h (by decide)
  have hsaw : saw fields connectionName = fields.sawConnection := rfl
  rw [records_named (by decide) h, hsaw]
  simp only [recordField, fieldSupported, recorded, compares_named, hlength, htransfer, hencoding,
    hlocation, htype, h, if_true, Bool.false_eq_true, if_false, reject_bind_eq_ok, pure_eq_ok,
    Bool.not_eq_true, true_and]

/-- A field that has none of the names is refused where it is Content-Range. -/
theorem recordField_other (h : ∀ name ∈ singleNames, f.named name = false) :
    recordField fields f.name (fieldValue f) = .ok fields' ↔ Records fields f fields' := by
  have hlength := h contentLengthName (by decide)
  have htransfer := h transferEncodingName (by decide)
  have hencoding := h contentEncodingName (by decide)
  have hlocation := h locationName (by decide)
  have htype := h contentTypeName (by decide)
  have hconnection := h connectionName (by decide)
  have hsingle : ∀ name ∈ singleNames, f.named name = true → saw fields name = false := by
    intro name hname hf
    rw [h name hname] at hf
    cases hf
  simp only [recordField, Records, fieldSupported, recorded, compares_named, hlength, htransfer,
    hencoding, hlocation, htype, hconnection, Bool.false_eq_true, if_false, reject_bind_eq_ok,
    pure_eq_ok, Bool.not_eq_true, Bool.not_eq_true']
  constructor
  · rintro ⟨hcontentRange, rfl⟩
    exact ⟨hsingle, hcontentRange, rfl⟩
  · rintro ⟨-, hcontentRange, rfl⟩
    exact ⟨hcontentRange, rfl⟩

theorem recordField_eq_ok :
    recordField fields f.name (fieldValue f) = .ok fields' ↔ Records fields f fields' := by
  by_cases hother : ∀ name ∈ singleNames, f.named name = false
  · exact recordField_other hother
  simp only [not_forall, Bool.not_eq_false] at hother
  obtain ⟨name, hname, hnamed⟩ := hother
  simp only [singleNames, List.mem_cons, List.not_mem_nil, or_false] at hname
  rcases hname with rfl | rfl | rfl | rfl | rfl | rfl
  · exact recordField_contentLength hnamed
  · exact recordField_transferEncoding hnamed
  · exact recordField_contentEncoding hnamed
  · exact recordField_location hnamed
  · exact recordField_contentType hnamed
  · exact recordField_connection hnamed

end RecordField

theorem mem_dropWhile_or {α : Type} {p : α → Bool} {c : α} {s : List α} (h : c ∈ s) :
    p c = true ∨ c ∈ s.dropWhile p := by
  rw [← List.takeWhile_append_dropWhile (p := p) (l := s)] at h
  rcases List.mem_append.mp h with h | h
  · exact .inl (List.mem_takeWhile_imp h)
  · exact .inr h

theorem not_of_dropWhile {α : Type} {p : α → Bool} {c : α} {s t : List α}
    (h : s.dropWhile p = c :: t) : p c = false := by
  induction s with
  | nil => cases h
  | cons d s ih =>
      rw [List.dropWhile_cons] at h
      split at h
      · exact ih h
      · next hd =>
          cases h
          simpa using hd

/-- A value has the bytes of a field if it has them between its blanks. -/
theorem fieldBytes_trimBlanks {value : Bytes} :
    (∀ c ∈ trimBlanks value, isFieldByte c = true) ↔ ∀ c ∈ value, isFieldByte c = true := by
  unfold trimBlanks
  simp only [List.mem_reverse]
  constructor
  · intro h c hc
    rcases mem_dropWhile_or (p := isBlank) hc with hblank | hc
    · exact isFieldByte_of_isBlank hblank
    · rcases mem_dropWhile_or (p := isBlank) (List.mem_reverse.mpr hc) with hblank | hc
      · exact isFieldByte_of_isBlank hblank
      · exact h c hc
  · intro h c hc
    have hmem := (List.dropWhile_suffix _).subset hc
    rw [List.mem_reverse] at hmem
    exact h c ((List.dropWhile_suffix _).subset hmem)

theorem takeWhile_fieldLine {f : Field} (h : (0x3a : UInt8) ∉ f.name) :
    (fieldLine f).takeWhile (· ≠ 0x3a) = f.name ∧
      (fieldLine f).dropWhile (· ≠ 0x3a) = 0x3a :: f.value := by
  have hall : ∀ c ∈ f.name, decide (c ≠ 0x3a) = true := by
    intro c hc
    rw [decide_eq_true_eq]
    rintro rfl
    exact h hc
  unfold fieldLine
  rw [List.takeWhile_append_of_pos hall, List.dropWhile_append_of_pos hall]
  simp

/-- A line is a field, checked and recorded. -/
theorem parseField_eq_ok {fields fields' : HeadFields} {line : Bytes} :
    parseField fields line = .ok fields' ↔
      ∃ f, line = fieldLine f ∧ (f.name ≠ [] ∧ ∀ c ∈ f.name, isTokenCharacter c = true) ∧
        (∀ c ∈ f.value, isFieldByte c = true) ∧ Records fields f fields' := by
  have hsplit : parseField fields line = (do
      let name := line.takeWhile (· ≠ 0x3a)
      let afterName := line.dropWhile (· ≠ 0x3a)
      reject (afterName = [] ∨ name = []) .invalidHeader
      reject (¬name.all isTokenCharacter) .invalidHeader
      let value := trimBlanks (afterName.drop 1)
      reject (value.any fun c => (c < 0x20 && c != 0x09) || c == 0x7f) .invalidHeader
      recordField fields name value) := rfl
  have hbytes : ∀ value : Bytes,
      ¬(trimBlanks value).any (fun c => (c < 0x20 && c != 0x09) || c == 0x7f) = true ↔
        ∀ c ∈ value, isFieldByte c = true := by
    intro value
    rw [← fieldBytes_trimBlanks, List.any_eq_true, not_exists]
    constructor
    · intro h c hc
      exact isFieldByte_iff.mpr fun hbad => h c ⟨hc, hbad⟩
    · rintro h c ⟨hc, hbad⟩
      exact isFieldByte_iff.mp (h c hc) hbad
  rw [hsplit]
  simp only [reject_bind_eq_ok, hbytes, not_or, not_not, List.all_eq_true]
  constructor
  · rintro ⟨⟨hafter, hname⟩, htoken, hvalue, hrecord⟩
    obtain ⟨c, value, hcons⟩ := List.exists_cons_of_ne_nil hafter
    obtain rfl : c = 0x3a := by
      have hstop := not_of_dropWhile hcons
      rw [decide_eq_false_iff_not, not_not] at hstop
      exact hstop
    rw [hcons] at hvalue hrecord
    refine ⟨⟨line.takeWhile (· ≠ 0x3a), value⟩, ?_, ⟨hname, htoken⟩, hvalue, ?_⟩
    · have happend := List.takeWhile_append_dropWhile (p := fun c : UInt8 => decide (c ≠ 0x3a))
        (l := line)
      rw [hcons] at happend
      exact happend.symm
    · exact recordField_eq_ok.mp hrecord
  · rintro ⟨f, rfl, ⟨hname, htoken⟩, hvalue, hrecord⟩
    have hcolon : (0x3a : UInt8) ∉ f.name := not_mem_of_all htoken (by decide)
    obtain ⟨htake, hdrop⟩ := takeWhile_fieldLine hcolon
    rw [htake, hdrop]
    exact ⟨⟨List.cons_ne_nil _ _, hname⟩, htoken, hvalue, recordField_eq_ok.mpr hrecord⟩

/-! ## All fields -/

/-- The lines of a head are recorded one by one. -/
inductive RecordsAll : HeadFields → List Field → HeadFields → Prop
  | nil (fields : HeadFields) : RecordsAll fields [] fields
  | cons {fields fields' fields'' : HeadFields} {f : Field} {fs : List Field}
      (hf : Records fields f fields') (hfs : RecordsAll fields' fs fields'') :
      RecordsAll fields (f :: fs) fields''

/-- The bytes of a field as the parser checks them. -/
def FieldBytes (nameByte : UInt8 → Bool) (f : Field) : Prop :=
  (f.name ≠ [] ∧ ∀ c ∈ f.name, nameByte c = true) ∧ ∀ c ∈ f.value, isFieldByte c = true

theorem FieldBytes.line {f : Field} (h : FieldBytes isTokenCharacter f) :
    (0x0d : UInt8) ∉ fieldLine f ∧ (0x0a : UInt8) ∉ fieldLine f := by
  obtain ⟨⟨-, hname⟩, hvalue⟩ := h
  constructor
  · intro hmem
    rcases List.mem_append.mp hmem with hmem | hmem
    · exact not_mem_of_all hname (by decide) hmem
    · rcases List.mem_cons.mp hmem with hmem | hmem
      · exact absurd hmem (by decide)
      · exact not_mem_of_all hvalue (by decide) hmem
  · intro hmem
    rcases List.mem_append.mp hmem with hmem | hmem
    · exact not_mem_of_all hname (by decide) hmem
    · rcases List.mem_cons.mp hmem with hmem | hmem
      · exact absurd hmem (by decide)
      · exact not_mem_of_all hvalue (by decide) hmem

theorem parseFields_sound {incomplete : HttpParseStatus} {fields fields' : HeadFields}
    {input rest : Bytes} (h : parseFields incomplete fields input = .ok (fields', rest)) :
    ∃ fs, input = fieldLines fs ++ crlf ++ rest ∧ (∀ f ∈ fs, FieldBytes isTokenCharacter f) ∧
      RecordsAll fields fs fields' := by
  induction hn : input.length using Nat.strong_induction_on generalizing fields input with
  | _ n ih =>
      rw [parseFields] at h
      split at h
      · cases h
      · split at h
        · next hend =>
            cases h
            refine ⟨[], ?_, by simp, .nil _⟩
            conv_lhs => rw [← List.take_append_drop 2 input, hend]
            rfl
        · split at h
          · cases h
          · split at h
            · cases h
            · next line lines hfound =>
                have hlength := findCrlf_length hfound
                have hbytes := findCrlf_sound hfound
                simp only at hlength hbytes
                split at h
                · cases h
                · next recorded hfield =>
                    obtain ⟨f, rfl, hname, hvalue, hrecord⟩ := parseField_eq_ok.mp hfield
                    obtain ⟨fs, rfl, hfs, hrecords⟩ := ih _ (by omega) h rfl
                    refine ⟨f :: fs, ?_, ?_, .cons hrecord hrecords⟩
                    · rw [hbytes]
                      simp [fieldLines]
                    · exact List.forall_mem_cons.mpr ⟨⟨hname, hvalue⟩, hfs⟩

theorem parseFields_complete {incomplete : HttpParseStatus} {fields fields' : HeadFields}
    {fs : List Field} {rest : Bytes} (hfs : ∀ f ∈ fs, FieldBytes isTokenCharacter f)
    (h : RecordsAll fields fs fields') :
    parseFields incomplete fields (fieldLines fs ++ crlf ++ rest) = .ok (fields', rest) := by
  induction h with
  | nil fields =>
      rw [parseFields, if_neg (by simp [fieldLines, crlf]), if_pos (by simp [fieldLines, crlf])]
      simp [fieldLines, crlf]
  | @cons fields next fields' f fs hf _ ih =>
      obtain ⟨hbytes, hfs⟩ := List.forall_mem_cons.mp hfs
      have hrest := ih hfs
      have hline := hbytes.line
      have hinput : fieldLines (f :: fs) ++ crlf ++ rest =
          fieldLine f ++ crlf ++ (fieldLines fs ++ crlf ++ rest) := by
        simp [fieldLines]
      have hfound := @findCrlf_complete _ (fieldLines fs ++ crlf ++ rest) hline.1 hline.2
      have hfield : parseField fields (fieldLine f) = .ok next :=
        parseField_eq_ok.mpr ⟨f, rfl, hbytes.1, hbytes.2, hf⟩
      obtain ⟨c, name, hname⟩ := List.exists_cons_of_ne_nil hbytes.1.1
      have htoken : isTokenCharacter c = true :=
        hbytes.1.2 c (by rw [hname]; exact List.mem_cons_self)
      rw [hinput]
      generalize hwhole : fieldLine f ++ crlf ++ (fieldLines fs ++ crlf ++ rest) = input at hfound
      have hhead : ∃ d more, input = c :: d :: more := by
        rw [← hwhole]
        unfold fieldLine
        rw [hname]
        cases name with
        | nil => exact ⟨_, _, rfl⟩
        | cons d name => exact ⟨_, _, rfl⟩
      obtain ⟨d, more, rfl⟩ := hhead
      have hcr : c ≠ 0x0d := by
        rintro rfl
        exact absurd htoken (by decide)
      have hblank : ¬((c :: d :: more).head?.any isBlank) = true := by
        simp only [List.head?_cons, Option.any_some]
        intro hblank
        simp only [isBlank, Bool.or_eq_true, beq_iff_eq] at hblank
        rcases hblank with rfl | rfl
        · exact absurd htoken (by decide)
        · exact absurd htoken (by decide)
      have hend : ¬(c :: d :: more).take 2 = crlf := by
        intro hend
        exact hcr (List.cons.inj hend).1
      rw [parseFields, if_neg (by simp), if_neg hend, if_neg hblank, hfound]
      simp only [hfield]
      exact hrest

/-- Recording a field sees its name. -/
theorem saw_recorded {fields : HeadFields} {f : Field} {name : Bytes}
    (hname : name ∈ singleNames) :
    saw (recorded fields f) name = (f.named name || saw fields name) := by
  unfold recorded Field.named
  generalize f.name.map lower = m
  simp only [singleNames, List.mem_cons, List.not_mem_nil, or_false] at hname
  by_cases h₁ : m = contentLengthName
  · subst h₁
    rcases hname with rfl | rfl | rfl | rfl | rfl | rfl <;> rfl
  by_cases h₂ : m = transferEncodingName
  · subst h₂
    rcases hname with rfl | rfl | rfl | rfl | rfl | rfl <;> rfl
  by_cases h₃ : m = contentEncodingName
  · subst h₃
    rcases hname with rfl | rfl | rfl | rfl | rfl | rfl <;> rfl
  by_cases h₄ : m = locationName
  · subst h₄
    rcases hname with rfl | rfl | rfl | rfl | rfl | rfl <;> rfl
  by_cases h₅ : m = contentTypeName
  · subst h₅
    rcases hname with rfl | rfl | rfl | rfl | rfl | rfl <;> rfl
  by_cases h₆ : m = connectionName
  · subst h₆
    rcases hname with rfl | rfl | rfl | rfl | rfl | rfl <;> rfl
  · simp only [h₁, h₂, h₃, h₄, h₅, h₆, decide_false, Bool.false_eq_true, if_false]
    rcases hname with rfl | rfl | rfl | rfl | rfl | rfl
    · simp [h₁]
    · simp [h₂]
    · simp [h₃]
    · simp [h₄]
    · simp [h₅]
    · simp [h₆]

/-- Recording a field keeps the status code, and the rest but for its own name. -/
theorem recorded_head (fields : HeadFields) (f : Field) :
    (recorded fields f).head.statusCode = fields.head.statusCode ∧
      (recorded fields f).head.chunked =
        (f.named transferEncodingName || fields.head.chunked) ∧
      (recorded fields f).head.location =
        if f.named locationName then fieldValue f else fields.head.location := by
  unfold recorded Field.named
  generalize f.name.map lower = m
  by_cases h₁ : m = contentLengthName
  · subst h₁
    exact ⟨rfl, rfl, rfl⟩
  by_cases h₂ : m = transferEncodingName
  · subst h₂
    exact ⟨rfl, rfl, rfl⟩
  by_cases h₃ : m = contentEncodingName
  · subst h₃
    exact ⟨rfl, rfl, rfl⟩
  by_cases h₄ : m = locationName
  · subst h₄
    exact ⟨rfl, rfl, rfl⟩
  by_cases h₅ : m = contentTypeName
  · subst h₅
    exact ⟨rfl, rfl, rfl⟩
  by_cases h₆ : m = connectionName
  · subst h₆
    exact ⟨rfl, rfl, rfl⟩
  · simp [h₁, h₂, h₃, h₄, h₅, h₆]

theorem atMostOnce_cons {f : Field} {fs : List Field} {name : Bytes} :
    AtMostOnce (f :: fs) name ↔
      (f.named name = true → ∀ g ∈ fs, f.named name = true → g.named name = false) ∧
        AtMostOnce fs name := by
  unfold AtMostOnce
  by_cases hf : f.named name = true
  · rw [List.filter_cons_of_pos hf, List.length_cons]
    constructor
    · intro h
      have hnone : fs.filter (Field.named name) = [] := by
        rw [← List.length_eq_zero_iff]
        omega
      refine ⟨fun _ g hg _ => ?_, by omega⟩
      have := List.filter_eq_nil_iff.mp hnone g hg
      simpa using this
    · rintro ⟨h, -⟩
      have hnone : fs.filter (Field.named name) = [] := by
        apply List.filter_eq_nil_iff.mpr
        intro g hg
        simp [h hf g hg hf]
      rw [hnone]
      exact Nat.le_refl _
  · rw [List.filter_cons_of_neg hf]
    simp [hf]

/-- The fields of a head are recorded if no name is there twice and each is supported. -/
theorem recordsAll_iff {fields fields' : HeadFields} {fs : List Field} :
    RecordsAll fields fs fields' ↔
      (∀ name ∈ singleNames, (saw fields name = true → ∀ f ∈ fs, f.named name = false) ∧
        AtMostOnce fs name) ∧
      (∀ f ∈ fs, fieldSupported f = true) ∧ fields' = fs.foldl recorded fields := by
  induction fs generalizing fields with
  | nil =>
      constructor
      · intro h
        cases h
        exact ⟨fun name _ => ⟨fun _ => nofun, Nat.zero_le _⟩, nofun, rfl⟩
      · rintro ⟨-, -, rfl⟩
        exact .nil _
  | cons f fs ih =>
      have hcons : RecordsAll fields (f :: fs) fields' ↔
          Records fields f (recorded fields f) ∧ RecordsAll (recorded fields f) fs fields' := by
        constructor
        · intro h
          obtain _ | ⟨hf, hfs⟩ := h
          obtain rfl := hf.2.2
          exact ⟨hf, hfs⟩
        · rintro ⟨hf, hfs⟩
          exact .cons hf hfs
      rw [hcons, ih, List.foldl_cons, List.forall_mem_cons]
      constructor
      · rintro ⟨⟨hfirst, hsupported, -⟩, hnames, hall, rfl⟩
        refine ⟨?_, ⟨hsupported, hall⟩, rfl⟩
        intro name hname
        obtain ⟨hlater, honce⟩ := hnames name hname
        rw [saw_recorded hname] at hlater
        refine ⟨?_, atMostOnce_cons.mpr ⟨?_, honce⟩⟩
        · intro hsaw g hg
          rcases List.mem_cons.mp hg with rfl | hg
          · rw [Bool.eq_false_iff]
            intro hnamed
            rw [hfirst name hname hnamed] at hsaw
            cases hsaw
          · exact hlater (by rw [hsaw, Bool.or_true]) g hg
        · intro hf g hg _
          exact hlater (by rw [hf, Bool.true_or]) g hg
      · rintro ⟨hnames, ⟨hsupported, hall⟩, rfl⟩
        refine ⟨⟨?_, hsupported, rfl⟩, ?_, hall, rfl⟩
        · intro name hname hnamed
          rw [Bool.eq_false_iff]
          intro hsaw
          rw [(hnames name hname).1 hsaw f List.mem_cons_self] at hnamed
          cases hnamed
        · intro name hname
          obtain ⟨hbefore, honce⟩ := hnames name hname
          obtain ⟨hlater, honce⟩ := atMostOnce_cons.mp honce
          refine ⟨?_, honce⟩
          rw [saw_recorded hname]
          intro hsaw g hg
          rcases Bool.or_eq_true_iff.mp hsaw with hf | hsaw
          · exact hlater hf g hg hf
          · exact hbefore hsaw g (List.mem_cons_of_mem f hg)

/-! ## What the fields leave -/

theorem exists_mem_cons_and {α : Type} {P : α → Prop} {a : α} {s : List α} :
    (∃ x ∈ a :: s, P x) ↔ P a ∨ ∃ x ∈ s, P x := by
  simp

theorem saw_foldl {fs : List Field} {fields : HeadFields} {name : Bytes}
    (hname : name ∈ singleNames) :
    saw (fs.foldl recorded fields) name = true ↔
      (∃ f ∈ fs, f.named name = true) ∨ saw fields name = true := by
  induction fs generalizing fields with
  | nil => simp
  | cons f fs ih =>
      rw [List.foldl_cons, ih, saw_recorded hname, Bool.or_eq_true, exists_mem_cons_and,
        or_left_comm, or_assoc]

theorem chunked_foldl {fs : List Field} {fields : HeadFields} :
    (fs.foldl recorded fields).head.chunked = true ↔
      (∃ f ∈ fs, f.named transferEncodingName = true) ∨ fields.head.chunked = true := by
  induction fs generalizing fields with
  | nil => simp
  | cons f fs ih =>
      rw [List.foldl_cons, ih, (recorded_head fields f).2.1, Bool.or_eq_true,
        exists_mem_cons_and, or_left_comm, or_assoc]

theorem statusCode_foldl {fs : List Field} {fields : HeadFields} :
    (fs.foldl recorded fields).head.statusCode = fields.head.statusCode := by
  induction fs generalizing fields with
  | nil => rfl
  | cons f fs ih => rw [List.foldl_cons, ih, (recorded_head fields f).1]

theorem location_foldl_of_none {fs : List Field} {fields : HeadFields}
    (h : ∀ f ∈ fs, f.named locationName = false) :
    (fs.foldl recorded fields).head.location = fields.head.location := by
  induction fs generalizing fields with
  | nil => rfl
  | cons f fs ih =>
      obtain ⟨hf, hfs⟩ := List.forall_mem_cons.mp h
      rw [List.foldl_cons, ih hfs, (recorded_head fields f).2.2, hf]
      rfl

theorem location_foldl {fs : List Field} {fields : HeadFields} (honce : AtMostOnce fs locationName)
    (hnone : fields.head.location = []) :
    (fs.foldl recorded fields).head.location ≠ [] ↔
      ∃ f ∈ fs, f.named locationName = true ∧ fieldValue f ≠ [] := by
  induction fs generalizing fields with
  | nil => simp [hnone]
  | cons f fs ih =>
      obtain ⟨hlater, honce⟩ := atMostOnce_cons.mp honce
      rw [List.foldl_cons, exists_mem_cons_and]
      by_cases hf : f.named locationName = true
      · have hrest := fun g hg => hlater hf g hg hf
        rw [location_foldl_of_none hrest, (recorded_head fields f).2.2, if_pos hf]
        constructor
        · intro hvalue
          exact .inl ⟨hf, hvalue⟩
        · rintro (⟨-, hvalue⟩ | ⟨g, hg, hnamed, -⟩)
          · exact hvalue
          · rw [hrest g hg] at hnamed
            cases hnamed
      · rw [ih honce (by rw [(recorded_head fields f).2.2, if_neg hf]; exact hnone)]
        constructor
        · exact .inr
        · rintro (⟨hnamed, -⟩ | h)
          · exact absurd hnamed hf
          · exact h

/-! ## The whole head -/

/-- A supported transfer coding is the chunked one. -/
theorem isChunked_iff {fs : List Field} (h : ∀ f ∈ fs, fieldSupported f = true) :
    IsChunked fs ↔ ∃ f ∈ fs, f.named transferEncodingName = true := by
  constructor
  · rintro ⟨f, hf, hnamed, -⟩
    exact ⟨f, hf, hnamed⟩
  · rintro ⟨f, hf, hnamed⟩
    have hsupported := h f hf
    unfold fieldSupported at hsupported
    have hlength : ¬f.named contentLengthName = true := by
      intro hlength
      exact absurd (named_unique hnamed hlength) (by decide)
    rw [if_neg hlength, if_pos hnamed] at hsupported
    exact ⟨f, hf, hnamed, hsupported⟩

/-- The state before the first field. -/
def noFields (statusCode : Nat) : HeadFields :=
  ⟨⟨statusCode, false, 0, false, false, [], []⟩, false, false, false, false, false⟩

/-- The checks after the last field. -/
theorem framing_iff {fs : List Field} {code : Nat} (hsupported : Supported fs) :
    let head := (fs.foldl recorded (noFields code)).head
    (¬(head.hasContentLength = true ∧ head.chunked = true) ∧
      ¬(¬head.hasContentLength = true ∧ ¬head.chunked = true ∧
        ¬statusMayHaveUnframedBody head.statusCode = true) ∧
      ¬(300 ≤ head.statusCode ∧ head.statusCode < 400 ∧ head.location = [])) ↔
    ¬(HasLength fs ∧ IsChunked fs) ∧
      (HasLength fs ∨ IsChunked fs ∨ statusMayHaveUnframedBody code = true) ∧
      (300 ≤ code → code < 400 → ∃ f ∈ fs, f.named locationName = true ∧ fieldValue f ≠ []) := by
  have hlength : (fs.foldl recorded (noFields code)).head.hasContentLength = true ↔
      HasLength fs := by
    have hsaw := @saw_foldl fs (noFields code) contentLengthName (by decide)
    have hbefore : ¬saw (noFields code) contentLengthName = true := nofun
    rw [or_iff_left hbefore] at hsaw
    exact hsaw
  have hchunked : (fs.foldl recorded (noFields code)).head.chunked = true ↔ IsChunked fs := by
    have hbefore : ¬(noFields code).head.chunked = true := nofun
    rw [chunked_foldl, isChunked_iff hsupported.fields, or_iff_left hbefore]
  have hlocation := @location_foldl _ (noFields code) hsupported.once.2.1 rfl
  have hcode : (fs.foldl recorded (noFields code)).head.statusCode = code := statusCode_foldl
  intro head
  show (¬((fs.foldl recorded (noFields code)).head.hasContentLength = true ∧
        (fs.foldl recorded (noFields code)).head.chunked = true) ∧
      ¬(¬(fs.foldl recorded (noFields code)).head.hasContentLength = true ∧
        ¬(fs.foldl recorded (noFields code)).head.chunked = true ∧
        ¬statusMayHaveUnframedBody (fs.foldl recorded (noFields code)).head.statusCode = true) ∧
      ¬(300 ≤ (fs.foldl recorded (noFields code)).head.statusCode ∧
        (fs.foldl recorded (noFields code)).head.statusCode < 400 ∧
        (fs.foldl recorded (noFields code)).head.location = [])) ↔ _
  rw [hlength, hchunked, hcode, ← hlocation]
  generalize statusMayHaveUnframedBody code = unframed
  have hframed : ¬(¬HasLength fs ∧ ¬IsChunked fs ∧ ¬unframed = true) ↔
      HasLength fs ∨ IsChunked fs ∨ unframed = true := by
    rw [not_and_or, not_and_or, not_not, not_not, not_not]
  have hlocated : ∀ location : Bytes, ¬(300 ≤ code ∧ code < 400 ∧ location = []) ↔
      (300 ≤ code → code < 400 → location ≠ []) := by
    intro location
    rw [not_and, not_and]
  rw [hframed, hlocated]

theorem singleNames_once {fs : List Field} :
    (∀ name ∈ singleNames, AtMostOnce fs name) ↔
      (AtMostOnce fs contentLengthName ∧ AtMostOnce fs transferEncodingName) ∧
        AtMostOnce fs contentEncodingName ∧ AtMostOnce fs locationName ∧
          AtMostOnce fs contentTypeName ∧ AtMostOnce fs connectionName := by
  simp [singleNames, and_assoc]

/-- Nothing was seen before the first field. -/
theorem saw_noFields (code : Nat) {name : Bytes} (hname : name ∈ singleNames) :
    saw (noFields code) name = false := by
  simp only [singleNames, List.mem_cons, List.not_mem_nil, or_false] at hname
  rcases hname with rfl | rfl | rfl | rfl | rfl | rfl <;> rfl

theorem recordsAll_noFields_iff {fs : List Field} {code : Nat} {fields : HeadFields} :
    RecordsAll (noFields code) fs fields ↔
      (AtMostOnce fs contentLengthName ∧ AtMostOnce fs transferEncodingName) ∧ Supported fs ∧
        fields = fs.foldl recorded (noFields code) := by
  rw [recordsAll_iff]
  constructor
  · rintro ⟨hnames, hall, heq⟩
    obtain ⟨hframing, hothers⟩ := singleNames_once.mp fun name hname => (hnames name hname).2
    exact ⟨hframing, ⟨hothers, hall⟩, heq⟩
  · rintro ⟨hframing, ⟨hothers, hall⟩, heq⟩
    refine ⟨?_, hall, heq⟩
    intro name hname
    refine ⟨?_, singleNames_once.mpr ⟨hframing, hothers⟩ name hname⟩
    intro hsaw
    rw [saw_noFields code hname] at hsaw
    cases hsaw

/-- The parser accepts the heads of the form, with its token characters in names, whose fields
it supports. -/
theorem parseHttpResponseHead_ok_iff (bytes : Bytes) :
    (∃ head size, parseHttpResponseHead bytes = .ok (head, size)) ↔
      ∃ status code fields, HeadForm isTokenCharacter bytes status code fields ∧
        Supported fields := by
  constructor
  · rintro ⟨head, size, h⟩
    unfold parseHttpResponseHead at h
    dsimp only at h
    split at h
    · cases h
    · next line rest hfound =>
        have hinput := findCrlf_sound hfound
        simp only at hinput
        obtain ⟨code, hstatus, h⟩ := bind_eq_ok.mp h
        obtain ⟨⟨fields, body⟩, hfields, h⟩ := bind_eq_ok.mp h
        simp only [reject_bind_eq_ok] at h
        obtain ⟨hambiguous, hmissing, hlocation, -⟩ := h
        obtain ⟨fs, hrest, hbytes, hrecords⟩ := parseFields_sound hfields
        obtain ⟨honce, hsupported, rfl⟩ := recordsAll_noFields_iff.mp hrecords
        obtain ⟨hunambiguous, hframed, hlocated⟩ :=
          (framing_iff hsupported).mp ⟨hambiguous, hmissing, hlocation⟩
        have hwhole : bytes.take kMaximumHttpHeaderBytes = headOf line fs ++ body := by
          rw [hinput, hrest]
          simp [headOf]
        refine ⟨line, code, fs, ?_, hsupported⟩
        exact
          { starts := ⟨body ++ bytes.drop kMaximumHttpHeaderBytes, by
              rw [← List.append_assoc, ← hwhole, List.take_append_drop]⟩
            size := by
              have hlength := congrArg List.length hwhole
              rw [List.length_take, List.length_append] at hlength
              omega
            status := parseStatusLine_eq_ok.mp hstatus
            names := fun f hf => (hbytes f hf).1
            values := fun f hf => (hbytes f hf).2
            once := honce
            unambiguous := hunambiguous
            framed := hframed
            location := hlocated }
  · rintro ⟨status, code, fs, hform, hsupported⟩
    obtain ⟨rest, rfl⟩ := hform.starts
    have hinput : (headOf status fs ++ rest).take kMaximumHttpHeaderBytes =
        status ++ crlf ++ (fieldLines fs ++ crlf ++
          rest.take (kMaximumHttpHeaderBytes - (headOf status fs).length)) := by
      rw [List.take_append, List.take_of_length_le hform.size]
      simp [headOf]
    generalize rest.take (kMaximumHttpHeaderBytes - (headOf status fs).length) = body at hinput
    obtain ⟨hambiguous, hmissing, hlocation⟩ := (framing_iff hsupported).mpr
      ⟨hform.unambiguous, hform.framed, hform.location⟩
    have hstatus := hform.status.lineBytes
    have hbytes : ∀ f ∈ fs, FieldBytes isTokenCharacter f := fun f hf =>
      ⟨hform.names f hf, hform.values f hf⟩
    unfold parseHttpResponseHead
    simp only [hinput, findCrlf_complete hstatus.1 hstatus.2]
    generalize (status ++ crlf ++ (fieldLines fs ++ crlf ++ body)).length = n
    refine ⟨(fs.foldl recorded (noFields code)).head, n - body.length, ?_⟩
    rw [bind_eq_ok]
    refine ⟨code, parseStatusLine_eq_ok.mpr hform.status, ?_⟩
    rw [bind_eq_ok]
    refine ⟨(fs.foldl recorded (noFields code), body), ?_, ?_⟩
    · exact parseFields_complete hbytes
        (recordsAll_noFields_iff.mpr ⟨hform.once, hsupported, rfl⟩)
    · simp only [reject_bind_eq_ok]
      exact ⟨hambiguous, hmissing, hlocation, rfl⟩

end Https

end BmxUpdate
