import BmxUpdate.Json.Counts
import BmxUpdate.Release.ManifestAssets

/-!
# What an accepted manifest is

`ParseReleaseManifest` as a whole: over any lawful reader it succeeds exactly where the document
is read as a valid manifest, and over a text what it accepts is one whose objects have exactly
the fields they are to have.
-/

namespace BmxUpdate

namespace Release

open Wire Http Json Checks Config

section Reader

variable {ι : Type} {doc : Reader ι}

/-! ## The assets -/

theorem mem_inBoardOrder {a other b : ManifestAsset} :
    b ∈ inBoardOrder a other ↔ b = a ∨ b = other := by
  unfold inBoardOrder
  split <;> simp [or_comm]

theorem otherBoard_ne {board : BoardFamily} (hknown : board ≠ .unknown) :
    otherBoard board ≠ board ∧ otherBoard board ≠ .unknown := by
  revert hknown
  cases board <;> decide

theorem boards_inBoardOrder {board : BoardFamily} (hknown : board ≠ .unknown) {a other : ManifestAsset}
    (ha : a.board = board) (hother : other.board = otherBoard board) :
    (inBoardOrder a other).map (·.board) = [.pi4Pi400, .pi5Pi500] := by
  unfold inBoardOrder
  cases board with
  | unknown => exact absurd rfl hknown
  | pi4Pi400 => simp [ha, hother, otherBoard]
  | pi5Pi500 => simp [ha, hother, otherBoard]

instance isTrans_boardNumber :
    IsTrans BoardFamily fun b b' => boardNumber b < boardNumber b' :=
  ⟨fun _ _ _ => Nat.lt_trans⟩

theorem boardOrder_allFit {as : List ManifestAsset} :
    AllFit (fun front (a : ManifestAsset) =>
      ∀ b ∈ (front.map (·.board)).getLast?, boardNumber b < boardNumber a.board) as ↔
      (as.map fun a => boardNumber a.board).Pairwise (· < ·) := by
  have h := @AllFit.pairwise ManifestAsset as BoardFamily (·.board)
    (fun b b' => boardNumber b < boardNumber b') _
  rw [h, List.pairwise_map, List.pairwise_map]

theorem target_inBoardOrder {board : BoardFamily} (hknown : board ≠ .unknown)
    {a other : ManifestAsset} (ha : a.board = board) (hother : other.board = otherBoard board) :
    (assetScan board (inBoardOrder a other)).target = some a := by
  have hne := (otherBoard_ne hknown).1
  unfold assetScan inBoardOrder
  subst ha
  split <;> simp [hother, hne]

/-- Whichever asset is the target's, it is the only one of its board. -/
theorem targets_allFit {board : BoardFamily} (hknown : board ≠ .unknown) {storage : ManifestParseStorage}
    {a other : ManifestAsset} (ha : a.board = board) (hother : other.board = otherBoard board)
    (hfits : Fits (some storage) a) :
    AllFit (fun front (b : ManifestAsset) => b.board = board →
      board ∉ front.map (·.board) ∧ Fits (some storage) b) (inBoardOrder a other) := by
  have hboards := boards_inBoardOrder hknown ha hother
  intro before b after hsplit hb
  have hmem : b ∈ inBoardOrder a other := by
    rw [hsplit]
    simp
  constructor
  · intro hseen
    rw [hsplit, List.map_append, List.map_cons, hb] at hboards
    obtain ⟨front, back, hfront⟩ := List.append_of_mem hseen
    rw [hfront] at hboards
    have hlength := congrArg List.length hboards
    simp only [List.length_append, List.length_cons, List.length_nil] at hlength
    obtain rfl : front = [] := List.length_eq_zero_iff.mp (by omega)
    obtain rfl : back = [] := List.length_eq_zero_iff.mp (by omega)
    simp only [List.nil_append, List.singleton_append, List.cons.injEq] at hboards
    rw [hboards.1] at hboards
    exact absurd hboards.2.1 (by decide)
  · rcases mem_inBoardOrder.mp hmem with rfl | rfl
    · exact hfits
    · exact absurd (hother.symm.trans hb) (otherBoard_ne hknown).1

theorem parseAssets_eq_ok (hdoc : doc.Lawful) {i : ι} {board : BoardFamily}
    (hknown : board ≠ .unknown) {storage : ManifestParseStorage} {base m : ReleaseManifest} :
    parseAssets doc i board storage base = .ok m ↔
      ∃ a other, (doc.hasType i .array = true ∧
          List.Forall₂ (ReadsAsset doc) (doc.elements i) (inBoardOrder a other)) ∧
        (ValidAsset base.version board a ∧ ValidAsset base.version (otherBoard board) other ∧
          CaseDistinct a) ∧
        Fits (some storage) a ∧ m = { base with asset := a } := by
  have hloop : ∀ s, overChildren doc i
      (parseAssetEntry doc base.version board storage) ⟨[], none⟩ = .ok s ↔ _ := fun s =>
    foldlM_eq_ok (assetScan board) fun _ _ _ => parseAssetEntry_eq_ok hdoc
  unfold parseAssets
  rw [reject_not_bind_eq_ok, reject_bind_eq_ok, bind_eq_ok]
  simp only [hloop, AllFit.and, AllFit.forall_mem, boardOrder_allFit]
  constructor
  · intro h
    obtain ⟨harray, hcount, _, ⟨as, hreads, ⟨hvalid, horder, hstore⟩, rfl⟩, h⟩ := h
    obtain ⟨-, h⟩ := reject_bind_eq_ok.mp h
    have hlength := length_of_reads hreads
    obtain ⟨a, other, rfl, ha, hother⟩ := twoAssets (by omega) (fun a ha => (hvalid a ha).known)
      horder hknown
    rw [target_inBoardOrder hknown ha hother] at h
    obtain ⟨hdistinct, h⟩ := reject_bind_eq_ok.mp h
    obtain rfl := pure_eq_ok.mp h
    have hmem : a ∈ inBoardOrder a other := mem_inBoardOrder.mpr (.inl rfl)
    obtain ⟨before, after, hsplit⟩ := List.append_of_mem hmem
    refine ⟨a, other, ⟨harray, hreads⟩, ⟨ha ▸ hvalid a hmem, ?_, caseDistinct_iff.mp hdistinct⟩,
      (hstore before a after hsplit ha).2, rfl⟩
    exact hother ▸ hvalid other (mem_inBoardOrder.mpr (.inr rfl))
  · intro h
    obtain ⟨a, other, ⟨harray, hreads⟩, ⟨hvalid, hvalid', hdistinct⟩, hfits, rfl⟩ := h
    have ha := hvalid.family
    have hother := hvalid'.family
    have hboards := boards_inBoardOrder hknown ha hother
    have hlength := congrArg List.length hboards
    rw [List.length_map] at hlength
    refine ⟨harray, ?_, _, ⟨inBoardOrder a other, hreads, ⟨?_, ?_,
      targets_allFit hknown ha hother hfits⟩, rfl⟩, reject_bind_eq_ok.mpr ⟨?_, ?_⟩⟩
    · rw [length_of_reads hreads, hlength]
      decide
    · intro b hb
      rcases mem_inBoardOrder.mp hb with rfl | rfl
      · exact ha ▸ hvalid
      · exact hother ▸ hvalid'
    · rw [show (inBoardOrder a other).map (fun a => boardNumber a.board) =
        ((inBoardOrder a other).map (·.board)).map boardNumber by rw [List.map_map]; rfl, hboards]
      decide
    · show ¬ (_ ∉ (inBoardOrder a other).map (·.board) ∨ _ ∉ (inBoardOrder a other).map (·.board))
      rw [hboards]
      decide
    · rw [target_inBoardOrder hknown ha hother]
      exact reject_bind_eq_ok.mpr ⟨caseDistinct_iff.mpr hdistinct, rfl⟩

/-! ## The document -/

/-- The value at the root is the manifest `m`, with the asset of the other board. -/
structure ReadsManifest (doc : Reader ι) (root : ι) (m : ReleaseManifest) (other : ManifestAsset) :
    Prop where
  object : doc.hasType root .object = true
  fields : doc.exactObject root rootFields = true
  version : doc.uint64 (doc.member root "manifest_version") 2 2 = some 2
  release : ReadsRelease doc (doc.member root "release") m
  configuration : ReadsConfiguration doc (doc.member root "configuration") m
  assetsArray : doc.hasType (doc.member root "assets") .array = true
  assets : List.Forall₂ (ReadsAsset doc) (doc.elements (doc.member root "assets"))
    (inBoardOrder m.asset other)

/-- The parser accepts exactly what is read as a valid manifest that fits the storage. -/
theorem parseDocument_eq_ok (hdoc : doc.Lawful) {root : ι} {board : BoardFamily}
    (hknown : board ≠ .unknown) {storage : ManifestParseStorage} {m : ReleaseManifest} :
    parseDocument doc root board storage = .ok m ↔ ∃ other,
      ReadsManifest doc root m other ∧ ValidManifest board m other ∧ Fits (some storage) m.asset := by
  constructor
  · intro h
    unfold parseDocument at h
    obtain ⟨hobject, h⟩ := reject_not_bind_eq_ok.mp h
    obtain ⟨hfields, h⟩ := reject_not_bind_eq_ok.mp h
    obtain ⟨hversion, h⟩ := reject_bind_eq_ok.mp h
    obtain ⟨m₁, hrelease, h⟩ := bind_eq_ok.mp h
    obtain ⟨m₂, hconfiguration, h⟩ := bind_eq_ok.mp h
    obtain ⟨hreads, hvalid, heq⟩ := reads_of_parseRelease hdoc hrelease
    obtain ⟨hreads', hvalid', heq'⟩ := reads_of_parseConfiguration hdoc hconfiguration
    obtain ⟨a, other, ⟨harray, hassets⟩, ⟨hasset, hother, hdistinct⟩, hfits, rfl⟩ :=
      (parseAssets_eq_ok hdoc hknown).mp h
    obtain ⟨version, hversion'⟩ := Option.ne_none_iff_exists'.mp hversion
    have hrange := hdoc.uint64 hversion'
    obtain rfl : version = 2 := by omega
    rw [heq'] at hasset hother ⊢
    exact ⟨other, ⟨hobject, hfields, hversion', { hreads with }, { hreads' with }, harray, hassets⟩,
      ⟨{ hvalid with }, { hvalid' with }, hasset, hdistinct, hother⟩, hfits⟩
  · intro h
    obtain ⟨other, hreads, hvalid, hfits⟩ := h
    unfold parseDocument
    refine reject_not_bind_eq_ok.mpr ⟨hreads.object, reject_not_bind_eq_ok.mpr ⟨hreads.fields,
      reject_bind_eq_ok.mpr ⟨by simp [hreads.version], bind_eq_ok.mpr ⟨_,
      parseRelease_of_reads _ hreads.release hvalid.release, bind_eq_ok.mpr ⟨_,
      parseConfiguration_of_reads hdoc _ hreads.configuration hvalid.configuration,
      (parseAssets_eq_ok hdoc hknown).mpr ⟨m.asset, other, ⟨hreads.assetsArray, hreads.assets⟩,
      ⟨hvalid.asset, hvalid.otherAsset, hvalid.distinct⟩, hfits, rfl⟩⟩⟩⟩⟩⟩

end Reader

/-! ## The text -/

/-- The form a signed text must have before it is parsed: one object on bytes without a carriage
return, and a line feed. -/
structure Framed (encoded : Bytes) : Prop where
  size : 3 ≤ encoded.length ∧ encoded.length ≤ kMaximumReleaseManifestBytes
  first : encoded.head? = some 0x7b
  last : encoded.getLast? = some 0x0a
  brace : encoded.dropLast.getLast? = some 0x7d
  noReturn : 0x0d ∉ encoded

/-- The tokens that `ParseJson` leaves of a text. -/
def manifestDocument (encoded : Bytes) (storage : ManifestParseStorage) : Document :=
  ⟨encoded, (parseJson (some encoded) storage.tokenCapacity 32).2⟩

/-- What the parser accepts is a valid manifest. -/
theorem valid_of_parse {encoded : Bytes} {board : BoardFamily} {storage : ManifestParseStorage}
    {m : ReleaseManifest} (h : parseReleaseManifest encoded board storage = .ok m) :
    ∃ other, ValidManifest board m other := by
  unfold parseReleaseManifest at h
  obtain ⟨hstorage, h⟩ := reject_bind_eq_ok.mp h
  obtain ⟨-, h⟩ := reject_bind_eq_ok.mp h
  obtain ⟨-, h⟩ := reject_bind_eq_ok.mp h
  simp only [not_or] at hstorage
  dsimp only at h
  split at h
  · cases h
  · obtain ⟨other, -, hvalid, -⟩ := (parseDocument_eq_ok
      (Document.reader_lawful _) hstorage.2.2.2).mp h
    exact ⟨other, hvalid⟩

/-- `ParseReleaseManifest` accepts exactly the framed texts that are read as a valid manifest of
the board; their root has the four fields, each once. -/
theorem parseReleaseManifest_eq_ok {encoded : Bytes} {board : BoardFamily}
    {storage : ManifestParseStorage} {m : ReleaseManifest} :
    parseReleaseManifest encoded board storage = .ok m ↔
      (storage.tokenCapacity ≠ 0 ∧ storage.fileCapacity ≠ 0 ∧ storage.directoryCapacity ≠ 0 ∧
        board ≠ .unknown) ∧ Framed encoded ∧
      (parseJson (some encoded) storage.tokenCapacity 32).1.error = none ∧
      (keyTexts encoded (children (manifestDocument encoded storage).tokens 0)).Perm
        (rootFields.map bytesOf) ∧
      ∃ other, ReadsManifest (manifestDocument encoded storage).reader (some 0) m other ∧
        ValidManifest board m other ∧ Fits (some storage) m.asset := by
  unfold parseReleaseManifest
  rw [reject_bind_eq_ok, reject_bind_eq_ok, reject_bind_eq_ok]
  simp only [not_or, Decidable.not_not, ne_eq, Nat.not_lt]
  constructor
  · intro h
    obtain ⟨hstorage, ⟨hlow, hhigh, hfirst, hlast, hbrace⟩, hreturn, h⟩ := h
    cases hparse : (parseJson (some encoded) storage.tokenCapacity 32).1.error with
    | some error =>
        rw [hparse] at h
        cases h
    | none =>
        rw [hparse] at h
        have hdoc := (manifestDocument encoded storage).reader_lawful
        obtain ⟨other, hreads, hvalid, hfits⟩ := (parseDocument_eq_ok hdoc hstorage.2.2.2).mp h
        have hcounted : Counted (manifestDocument encoded storage).tokens :=
          parseJson_counted hparse
        exact ⟨hstorage, ⟨⟨hlow, hhigh⟩, hfirst, hlast, hbrace, hreturn⟩, rfl,
          exactObject_keys hcounted (by decide) hreads.fields, other, hreads, hvalid, hfits⟩
  · intro h
    obtain ⟨hstorage, hframed, hparse, -, other, hreads, hvalid, hfits⟩ := h
    refine ⟨hstorage, ⟨hframed.size.1, hframed.size.2, hframed.first, hframed.last, hframed.brace⟩,
      hframed.noReturn, ?_⟩
    rw [hparse]
    exact (parseDocument_eq_ok (manifestDocument encoded storage).reader_lawful hstorage.2.2.2).mpr
      ⟨other, hreads, hvalid, hfits⟩

end Release

end BmxUpdate
