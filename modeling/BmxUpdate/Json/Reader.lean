import BmxUpdate.Json.Access

/-!
# Readers

The private accessors of the parsers of the signed documents (`ExactObject`, `Member`,
`CopyString`, `Uint64`, `DirectChildren`, `DirectChild`) as one value, so that what a parser
makes of a document can be said without its token table.  A map between two readers that
keeps what the accessors return keeps what a parser returns.
-/

namespace BmxUpdate

namespace Json

open Wire

/-- The accessors of a parser whose tokens are named by `ι`. -/
structure Reader (ι : Type) where
  exactObject : ι → List String → Bool
  hasType : ι → JsonTokenType → Bool
  member : ι → String → ι
  copyString : ι → Nat → Option Bytes
  uint64 : ι → Nat → Nat → Option Nat
  bool : ι → Option Bool
  directChildren : ι → Nat
  directChild : ι → Nat → ι

/-- The accessors over a token table. -/
def Document.reader (doc : Document) : Reader (Option Nat) where
  exactObject := doc.exactObject
  hasType := doc.hasType
  member := doc.member
  copyString := doc.copyString
  uint64 := doc.uint64
  bool := doc.bool
  directChildren := doc.directChildren
  directChild := doc.directChild

namespace Reader

variable {ι κ : Type}

/-- The direct children of an array, in order. -/
def elements (r : Reader ι) (array : ι) : List ι :=
  (List.range (r.directChildren array)).map (r.directChild array)

/-- What one reader reads at `i`, the other reads at `f i`. -/
structure Maps (r : Reader ι) (r' : Reader κ) (f : ι → κ) : Prop where
  exactObject : ∀ i fields, r.exactObject i fields = r'.exactObject (f i) fields
  hasType : ∀ i type, r.hasType i type = r'.hasType (f i) type
  member : ∀ i name, f (r.member i name) = r'.member (f i) name
  copyString : ∀ i size, r.copyString i size = r'.copyString (f i) size
  uint64 : ∀ i minimum maximum, r.uint64 i minimum maximum = r'.uint64 (f i) minimum maximum
  bool : ∀ i, r.bool i = r'.bool (f i)
  directChildren : ∀ i, r.directChildren i = r'.directChildren (f i)
  directChild : ∀ i ordinal, f (r.directChild i ordinal) = r'.directChild (f i) ordinal

theorem Maps.elements {r : Reader ι} {r' : Reader κ} {f : ι → κ} (h : r.Maps r' f) (i : ι) :
    r'.elements (f i) = (r.elements i).map f := by
  unfold Reader.elements
  rw [List.map_map, h.directChildren]
  apply List.map_congr_left
  intro ordinal _
  exact (h.directChild i ordinal).symm

/-- What is read fits the buffer and the bounds it was asked for. -/
structure Lawful (r : Reader ι) : Prop where
  copyString : ∀ {i size value}, r.copyString i size = some value → value.length < size
  uint64 : ∀ {i minimum maximum value},
    r.uint64 i minimum maximum = some value → minimum ≤ value ∧ value ≤ maximum

end Reader

theorem length_copyLoop {size fuel : Nat} {text output copied : Bytes} (hfits : output.length < size)
    (h : copyLoop size fuel text output = .ok copied) : copied.length < size := by
  induction fuel generalizing text output with
  | zero =>
      cases text with
      | nil =>
          obtain rfl : output = copied := Except.ok.inj h
          exact hfits
      | cons c text => cases h
  | succ fuel ih =>
      cases text with
      | nil =>
          obtain rfl : output = copied := Except.ok.inj h
          exact hfits
      | cons c text =>
          rw [copyLoop] at h
          split at h
          · cases h
          · split at h
            · cases h
            · next decoded rest _ hroom =>
                refine ih ?_ h
                rw [List.length_append]
                omega

theorem eq_ok_of_toOption {ε α : Type} {x : Except ε α} {a : α} (h : x.toOption = some a) :
    x = .ok a := by
  cases x with
  | error e => cases h
  | ok b => exact congrArg Except.ok (Option.some.inj h)

theorem Document.reader_lawful (doc : Document) : doc.reader.Lawful where
  copyString := by
    intro index size value h
    obtain ⟨token, -, hcopy⟩ := Option.bind_eq_some_iff.mp
      (show ((doc.token index).bind fun token => (jsonCopyString doc.json token size).toOption) =
        some value from h)
    replace hcopy := eq_ok_of_toOption hcopy
    unfold jsonCopyString at hcopy
    split at hcopy
    · cases hcopy
    · split at hcopy
      · cases hcopy
      · cases hloop : copyLoop size (token.text doc.json).length (token.text doc.json) [] with
        | error e =>
            rw [hloop] at hcopy
            cases hcopy
        | ok copied =>
            rw [hloop] at hcopy
            obtain rfl : copied.takeWhile (· ≠ 0) = value := Except.ok.inj hcopy
            have hcopied := length_copyLoop (by simp only [List.length_nil]; omega) hloop
            have htake := (copied.takeWhile_prefix (· ≠ 0)).length_le
            omega
  uint64 := by
    intro index minimum maximum value h
    obtain ⟨token, -, hrange⟩ := Option.bind_eq_some_iff.mp
      (show ((doc.token index).bind fun token => (jsonGetUint64 doc.json token).toOption.bind
        fun value => if value < minimum ∨ maximum < value then none else some value) =
        some value from h)
    obtain ⟨read, -, hread⟩ := Option.bind_eq_some_iff.mp hrange
    split at hread
    · cases hread
    · obtain rfl : read = value := Option.some.inj hread
      omega

end Json

end BmxUpdate
