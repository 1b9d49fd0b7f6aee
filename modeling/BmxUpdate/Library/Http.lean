import BmxUpdate.Library.Wire
import Mathlib.Tactic.Common

/-!
# HTTP/1.1 messages

Requests as they are written on a connection, and bodies as they are framed in
a response.

* A `Request` is rendered line by line.  `Request.WellFormed` says that no part
  holds a byte that could end its line and that the body is as long as the
  fields say; `Request.render_unique` is what follows for whoever reads the
  connection: the bytes start with one request only.
* `Chunked capacity encoded payload` is the chunked coding without extensions
  or trailers, with at most `capacity` digits in a size line; `Framed` adds the
  coding by a declared length.
-/

namespace Http

open Wire

def crlf : Bytes := [0x0d, 0x0a]

/-! ## Classes of bytes -/

/-- A byte of an RFC 9110 token. -/
def isTokenByte (c : UInt8) : Bool :=
  (0x61 ≤ c && c ≤ 0x7a) || (0x41 ≤ c && c ≤ 0x5a) || (0x30 ≤ c && c ≤ 0x39) ||
    c ∈ bytesOf "!#$%&'*+-.^_`|~"

def Token (name : Bytes) : Prop := name ≠ [] ∧ ∀ c ∈ name, isTokenByte c = true

/-- No control character, no space and no DEL. -/
def isTargetByte (c : UInt8) : Bool := 0x21 ≤ c && c != 0x7f

/-- No control character but the tab, and no DEL. -/
def isFieldByte (c : UInt8) : Bool := (0x20 ≤ c && c != 0x7f) || c == 0x09

def lower (c : UInt8) : UInt8 := if 0x41 ≤ c ∧ c ≤ 0x5a then c + 0x20 else c

/-- A property of bytes is decided byte by byte. -/
theorem forall_byte {P : UInt8 → Prop} (h : ∀ n < 256, P (UInt8.ofNat n)) (c : UInt8) : P c := by
  rw [← UInt8.ofNat_toNat (x := c)]
  exact h c.toNat c.toNat_lt

theorem not_mem_of_all {P : UInt8 → Bool} {s : Bytes} {d : UInt8} (hs : ∀ c ∈ s, P c = true)
    (hd : P d = false) : d ∉ s := by
  intro hmem
  rw [hs d hmem] at hd
  cases hd

/-! ## Decimal numbers -/

/-- A number as it is printed. -/
def decimal (n : Nat) : Bytes := (Nat.toDigits 10 n).map fun c => UInt8.ofNat c.toNat

theorem toNat_of_isDigit {c : Char} (h : c.isDigit = true) : 0x30 ≤ c.toNat ∧ c.toNat ≤ 0x39 := by
  rw [Char.isDigit, Bool.and_eq_true, decide_eq_true_eq, decide_eq_true_eq] at h
  exact ⟨h.1, h.2⟩

theorem decimal_injective {m n : Nat} (h : decimal m = decimal n) : m = n := by
  have hread : ∀ k : Nat, (decimal k).map (fun b => Char.ofNat b.toNat) = Nat.toDigits 10 k := by
    intro k
    unfold decimal
    rw [List.map_map]
    refine (List.map_congr_left ?_).trans (List.map_id _)
    intro c hc
    have hdigit := toNat_of_isDigit (Nat.isDigit_of_mem_toDigits (by decide) (by decide) hc)
    have hbyte : (UInt8.ofNat c.toNat).toNat = c.toNat := by
      rw [UInt8.toNat_ofNat']
      omega
    show Char.ofNat (UInt8.ofNat c.toNat).toNat = c
    rw [hbyte, Char.ofNat_toNat]
  have hdigits : Nat.toDigits 10 m = Nat.toDigits 10 n := by rw [← hread m, ← hread n, h]
  calc m = Nat.ofDigitChars 10 (Nat.toDigits 10 m) 0 := Nat.ofDigitChars_ten_toDigits.symm
    _ = n := by rw [hdigits, Nat.ofDigitChars_ten_toDigits]

theorem isFieldByte_decimal {n : Nat} : ∀ c ∈ decimal n, isFieldByte c = true := by
  intro c hc
  obtain ⟨d, hd, rfl⟩ := List.mem_map.mp hc
  obtain ⟨hlow, hhigh⟩ :=
    toNat_of_isDigit (Nat.isDigit_of_mem_toDigits (by decide) (by decide) hd)
  have hclass : ∀ k < 0x3a, 0x30 ≤ k → isFieldByte (UInt8.ofNat k) = true := by decide
  exact hclass d.toNat (by omega) hlow

/-! ## Requests -/

structure Field where
  name : Bytes
  value : Bytes
deriving DecidableEq

def Field.render (field : Field) : Bytes := field.name ++ bytesOf ": " ++ field.value ++ crlf

/-- Whether the field has this name, written in lower case. -/
def Field.named (name : Bytes) (field : Field) : Bool := field.name.map lower = name

structure Request where
  method : Bytes
  target : Bytes
  fields : List Field
  body : Bytes

namespace Request

def head (request : Request) : Bytes :=
  request.method ++ bytesOf " " ++ request.target ++ bytesOf " HTTP/1.1" ++ crlf ++
    (request.fields.flatMap Field.render ++ crlf)

def render (request : Request) : Bytes := request.head ++ request.body

/-- Every part of the request stays in its line, it names its host once, and its fields
frame its body. -/
structure WellFormed (request : Request) : Prop where
  method : Token request.method
  target : request.target.head? = some 0x2f ∧ ∀ c ∈ request.target, isTargetByte c = true
  fields : ∀ field ∈ request.fields, Token field.name ∧ ∀ c ∈ field.value, isFieldByte c = true
  host : (request.fields.filter (Field.named (bytesOf "host"))).length = 1
  length : request.fields.filter (Field.named (bytesOf "content-length")) =
    if request.body = [] then []
    else [⟨bytesOf "Content-Length", decimal request.body.length⟩]
  unchunked : request.fields.filter (Field.named (bytesOf "transfer-encoding")) = []

end Request

/-! ## One request at a time -/

/-- Two byte strings that go on from their first delimiter. -/
theorem split_unique {s s' x x' : Bytes} {d : UInt8} (hs : d ∉ s) (hs' : d ∉ s')
    (h : s ++ d :: x = s' ++ d :: x') : s = s' ∧ x = x' := by
  induction s generalizing s' with
  | nil =>
      cases s' with
      | nil => simpa using h
      | cons c s' =>
          have hc : d = c := (List.cons.inj h).1
          exact absurd (hc ▸ List.mem_cons_self) hs'
  | cons c s ih =>
      cases s' with
      | nil =>
          have hc : c = d := (List.cons.inj h).1
          exact absurd (hc ▸ List.mem_cons_self) hs
      | cons c' s' =>
          rw [List.mem_cons, not_or] at hs hs'
          obtain ⟨rfl, hrest⟩ := List.cons.inj h
          obtain ⟨rfl, rfl⟩ := ih hs.2 hs'.2 hrest
          exact ⟨rfl, rfl⟩

theorem Field.render_append (field : Field) (x : Bytes) :
    field.render ++ x = field.name ++ 0x3a :: 0x20 :: (field.value ++ 0x0d :: 0x0a :: x) := by
  have hseparator : bytesOf ": " = [0x3a, 0x20] := by decide
  unfold render crlf
  rw [hseparator]
  simp

/-- A field line is read up to its end. -/
theorem Field.render_unique {field field' : Field} {x x' : Bytes}
    (hname : Token field.name) (hvalue : ∀ c ∈ field.value, isFieldByte c = true)
    (hname' : Token field'.name) (hvalue' : ∀ c ∈ field'.value, isFieldByte c = true)
    (h : field.render ++ x = field'.render ++ x') : field = field' ∧ x = x' := by
  rw [render_append, render_append] at h
  obtain ⟨hnames, hrest⟩ := split_unique (not_mem_of_all hname.2 (by decide))
    (not_mem_of_all hname'.2 (by decide)) h
  obtain ⟨hvalues, hline⟩ := split_unique (not_mem_of_all hvalue (by decide))
    (not_mem_of_all hvalue' (by decide)) (List.cons.inj hrest).2
  cases field
  cases field'
  cases hnames
  cases hvalues
  exact ⟨rfl, (List.cons.inj hline).2⟩

/-- A field line does not look like the empty line. -/
theorem Field.render_ne_crlf {field : Field} {x x' : Bytes} (hname : Token field.name) :
    field.render ++ x ≠ crlf ++ x' := by
  intro h
  rw [render_append] at h
  obtain ⟨hne, hbytes⟩ := hname
  cases hcase : field.name with
  | nil => exact hne hcase
  | cons c rest =>
      rw [hcase] at h
      have hc : c = 0x0d := (List.cons.inj h).1
      have htoken := hbytes c (by rw [hcase]; exact List.mem_cons_self)
      rw [hc] at htoken
      revert htoken
      decide

/-- The fields and the empty line are read up to their end. -/
theorem fields_unique {fields fields' : List Field} {x x' : Bytes}
    (hfields : ∀ f ∈ fields, Token f.name ∧ ∀ c ∈ f.value, isFieldByte c = true)
    (hfields' : ∀ f ∈ fields', Token f.name ∧ ∀ c ∈ f.value, isFieldByte c = true)
    (h : fields.flatMap Field.render ++ crlf ++ x = fields'.flatMap Field.render ++ crlf ++ x') :
    fields = fields' ∧ x = x' := by
  induction fields generalizing fields' with
  | nil =>
      cases fields' with
      | nil => exact ⟨rfl, List.append_cancel_left h⟩
      | cons f' rest' =>
          refine absurd h.symm ?_
          rw [List.flatMap_cons, List.append_assoc, List.append_assoc]
          exact Field.render_ne_crlf (hfields' f' List.mem_cons_self).1
  | cons f rest ih =>
      cases fields' with
      | nil =>
          refine absurd h ?_
          rw [List.flatMap_cons, List.append_assoc, List.append_assoc]
          exact Field.render_ne_crlf (hfields f List.mem_cons_self).1
      | cons f' rest' =>
          obtain ⟨hf, hrest⟩ := List.forall_mem_cons.mp hfields
          obtain ⟨hf', hrest'⟩ := List.forall_mem_cons.mp hfields'
          rw [List.flatMap_cons, List.flatMap_cons] at h
          simp only [List.append_assoc] at h
          obtain ⟨rfl, htail⟩ := Field.render_unique hf.1 hf.2 hf'.1 hf'.2 h
          simp only [← List.append_assoc] at htail
          obtain ⟨rfl, rfl⟩ := ih hrest hrest' htail
          exact ⟨rfl, rfl⟩

namespace Request

variable {request request' : Request} {x x' : Bytes}

theorem render_append (request : Request) (x : Bytes) :
    request.render ++ x = request.method ++ 0x20 :: (request.target ++ 0x20 ::
      (bytesOf "HTTP/1.1" ++ crlf ++ (request.fields.flatMap Field.render ++ crlf ++
        (request.body ++ x)))) := by
  have hspace : bytesOf " " = [0x20] := by decide
  have hversion : bytesOf " HTTP/1.1" = 0x20 :: bytesOf "HTTP/1.1" := by decide
  unfold render head
  rw [hspace, hversion]
  simp

/-- The fields say how long the body is. -/
theorem WellFormed.length_body (h : request.WellFormed) (h' : request'.WellFormed)
    (hfields : request.fields = request'.fields) : request.body.length = request'.body.length := by
  have hlength := h.length
  rw [hfields, h'.length] at hlength
  split at hlength
  · next hnone =>
      split at hlength
      · next hnone' => rw [hnone, hnone']
      · cases hlength
  · next hbody =>
      split at hlength
      · cases hlength
      · have hvalue := congrArg Field.value (List.cons.inj hlength).1
        exact (decimal_injective hvalue).symm

/-- The bytes on a connection start with one request at most. -/
theorem render_unique (h : request.WellFormed) (h' : request'.WellFormed)
    (hrender : request.render ++ x = request'.render ++ x') : request = request' ∧ x = x' := by
  rw [render_append, render_append] at hrender
  obtain ⟨hmethod, hrender⟩ := split_unique (not_mem_of_all h.method.2 (by decide))
    (not_mem_of_all h'.method.2 (by decide)) hrender
  obtain ⟨htarget, hrender⟩ := split_unique (not_mem_of_all h.target.2 (by decide))
    (not_mem_of_all h'.target.2 (by decide)) hrender
  have hrest := List.append_cancel_left hrender
  obtain ⟨hfields, hrest⟩ := fields_unique h.fields h'.fields hrest
  obtain ⟨hbody, hx⟩ := List.append_inj hrest (h.length_body h' hfields)
  cases request
  cases request'
  cases hmethod
  cases htarget
  cases hfields
  cases hbody
  exact ⟨rfl, hx⟩

end Request

/-! ## Bodies -/

def hexValue (c : UInt8) : Option Nat :=
  if 0x30 ≤ c ∧ c ≤ 0x39 then some (c.toNat - 0x30)
  else if 0x61 ≤ c ∧ c ≤ 0x66 then some (c.toNat - 0x61 + 10)
  else if 0x41 ≤ c ∧ c ≤ 0x46 then some (c.toNat - 0x41 + 10)
  else none

/-- `digits` continue the hexadecimal number `n` to `m`. -/
inductive HexFrom : Nat → Bytes → Nat → Prop
  | done (n : Nat) : HexFrom n [] n
  | digit {n d m : Nat} {c : UInt8} {digits : Bytes} (hc : hexValue c = some d)
      (hrest : HexFrom (n * 16 + d) digits m) : HexFrom n (c :: digits) m

/-- The size line of a chunk, without its line end. -/
def ChunkSize (capacity : Nat) (digits : Bytes) (size : Nat) : Prop :=
  digits ≠ [] ∧ digits.length ≤ capacity ∧ HexFrom 0 digits size

/-- The chunked coding of a payload: chunks that are not empty, the last chunk and an
empty line. -/
inductive Chunked (capacity : Nat) : Bytes → Bytes → Prop
  | last {digits : Bytes} (hsize : ChunkSize capacity digits 0) :
      Chunked capacity (digits ++ crlf ++ crlf) []
  | chunk {digits data encoded payload : Bytes} (hsize : ChunkSize capacity digits data.length)
      (hdata : data ≠ []) (hrest : Chunked capacity encoded payload) :
      Chunked capacity (digits ++ crlf ++ data ++ crlf ++ encoded) (data ++ payload)

end Http
