import BmxUpdate.Release.ManifestRules

/-!
# What the manifest parser reads

Each part of `ParseReleaseManifest` over any lawful reader: it succeeds exactly where the fields
of its object are read as the values of a valid part.  `ReadsRelease` and the like say where a
value comes from, the rules of a manifest say what it is like.
-/

namespace BmxUpdate

namespace Release

open Wire Http Json Checks Config

/-! ## The order of texts -/

theorem not_notAfter {previous : Option Bytes} {value : Bytes} :
    ¬ notAfter previous value = true ↔ ∀ b ∈ previous, b < value := by
  cases previous with
  | none => simp [notAfter]
  | some b => simp [notAfter]

/-! ## Numbers -/

theorem int32Max_le : int32Max ≤ int64Max := by decide

theorem toNat_ofNat_uint32 {n : Nat} (hn : n ≤ int32Max) : (UInt32.ofNat n).toNat = n := by
  apply UInt32.toNat_ofNat_of_lt'
  unfold int32Max at hn
  show n < 2 ^ 32
  omega

theorem toNat_ofNat_uint64 {n : Nat} (hn : n ≤ int64Max) : (UInt64.ofNat n).toNat = n := by
  apply UInt64.toNat_ofNat_of_lt'
  unfold int64Max at hn
  show n < 2 ^ 64
  omega

section Parts

variable {ι : Type} {doc : Reader ι}

theorem length_of_reads {α : Type} {reads : ι → α → Prop} {array : ι} {as : List α}
    (h : List.Forall₂ reads (doc.elements array) as) : doc.directChildren array = as.length := by
  rw [← h.length_eq]
  simp [Reader.elements]

theorem exists_of_reads {α : Type} {reads : ι → α → Prop} {xs : List ι} {as : List α}
    (h : List.Forall₂ reads xs as) {a : α} (ha : a ∈ as) : ∃ x ∈ xs, reads x a := by
  induction h with
  | nil => cases ha
  | @cons x b xs as hx _ ih =>
      rcases List.mem_cons.mp ha with rfl | ha
      · exact ⟨x, List.mem_cons_self, hx⟩
      · obtain ⟨y, hy, hread⟩ := ih ha
        exact ⟨y, List.mem_cons_of_mem _ hy, hread⟩

/-! ## The release -/

/-- The value at `i` is the release part of `m`. -/
structure ReadsRelease (doc : Reader ι) (i : ι) (m : ReleaseManifest) : Prop where
  fields : doc.exactObject i releaseFields = true
  version : doc.copyString (doc.member i "version") 65 = some m.version
  tag : doc.copyString (doc.member i "tag") 129 = some m.tag
  channel : doc.copyString (doc.member i "channel") 16 = some (bytesOf "stable")
  sourceCommit : doc.copyString (doc.member i "source_commit") 65 = some m.sourceCommit
  sequence : doc.uint64 (doc.member i "release_sequence") 1 int32Max =
    some m.releaseSequence.toNat
  epoch : doc.uint64 (doc.member i "release_epoch") 1 int64Max = some m.releaseEpoch.toNat
  minimumAbi : doc.uint64 (doc.member i "minimum_updater_abi") 1 int32Max =
    some m.minimumUpdaterAbi.toNat
  maximumAbi : doc.uint64 (doc.member i "maximum_updater_abi") 1 int32Max =
    some m.maximumUpdaterAbi.toNat
  keys : List.Forall₂ (fun child key => doc.copyString child 65 = some key)
    (doc.elements (doc.member i "signing_key_ids")) m.signingKeyIds

theorem parseSigningKey_eq_ok {front : List Bytes} {child : ι} {s : List Bytes} :
    parseSigningKey doc front child = .ok s ↔ ∃ key, doc.copyString child 65 = some key ∧
      (isIdentifier key = true ∧ ∀ b ∈ front.getLast?, b < key) ∧ s = front ++ [key] := by
  unfold parseSigningKey
  cases hkey : doc.copyString child 65 with
  | none => simp
  | some key =>
      simp only [reject_bind_eq_ok, pure_eq_ok, not_notAfter, Decidable.not_not,
        Option.some.injEq, exists_eq_left', and_assoc]

theorem parseSigningKeys_eq_ok {array : ι} {keys : List Bytes} :
    overChildren doc array (parseSigningKey doc) [] = .ok keys ↔
      List.Forall₂ (fun child key => doc.copyString child 65 = some key) (doc.elements array) keys ∧
        (∀ key ∈ keys, isIdentifier key = true) ∧ keys.Pairwise (· < ·) := by
  refine (foldlM_append_eq_ok fun _ _ _ => parseSigningKey_eq_ok).trans ?_
  simp only [AllFit.and, AllFit.forall_mem, AllFit.sorted]

/-- The fields of a manifest that its release sets. -/
def ReleaseManifest.withRelease (base m : ReleaseManifest) : ReleaseManifest :=
  { base with
    version := m.version, tag := m.tag, sourceCommit := m.sourceCommit
    signingKeyIds := m.signingKeyIds, releaseSequence := m.releaseSequence
    releaseEpoch := m.releaseEpoch, minimumUpdaterAbi := m.minimumUpdaterAbi
    maximumUpdaterAbi := m.maximumUpdaterAbi }

theorem reads_of_parseRelease (hdoc : doc.Lawful) {i : ι} {base m : ReleaseManifest}
    (h : parseRelease doc i base = .ok m) :
    ReadsRelease doc i m ∧ ValidRelease m ∧ m = base.withRelease m := by
  unfold parseRelease at h
  obtain ⟨hfields, h⟩ := reject_not_bind_eq_ok.mp h
  split at h <;> [rename_i version hversion; cases h]
  obtain ⟨hversion', h⟩ := reject_not_bind_eq_ok.mp h
  split at h <;> [rename_i tag htag; cases h]
  obtain ⟨htag', h⟩ := reject_not_bind_eq_ok.mp h
  split at h <;> [rename_i channel hchannel; cases h]
  obtain ⟨hchannel', h⟩ := reject_not_bind_eq_ok.mp h
  split at h <;> [rename_i commit hcommit; cases h]
  obtain ⟨hcommit', h⟩ := reject_not_bind_eq_ok.mp h
  split at h <;> [rename_i sequence hsequence; cases h]
  split at h <;> [rename_i epoch hepoch; cases h]
  split at h <;> [rename_i minimum hminimum; cases h]
  split at h <;> [rename_i maximum hmaximum; cases h]
  obtain ⟨habi, h⟩ := reject_bind_eq_ok.mp h
  obtain ⟨hcount, h⟩ := reject_bind_eq_ok.mp h
  obtain ⟨keys, hkeys, h⟩ := bind_eq_ok.mp h
  obtain rfl := pure_eq_ok.mp h
  obtain ⟨hreads, hkeys', horder⟩ := parseSigningKeys_eq_ok.mp hkeys
  have hsequence' := hdoc.uint64 hsequence
  have hepoch' := hdoc.uint64 hepoch
  have hminimum' := hdoc.uint64 hminimum
  have hmaximum' := hdoc.uint64 hmaximum
  have hlength := length_of_reads hreads
  have hsequence₀ := toNat_ofNat_uint64 (hsequence'.2.trans int32Max_le)
  have hepoch₀ := toNat_ofNat_uint64 hepoch'.2
  have hminimum₀ := toNat_ofNat_uint32 hminimum'.2
  have hmaximum₀ := toNat_ofNat_uint32 hmaximum'.2
  refine ⟨⟨hfields, hversion, htag, hchannel' ▸ hchannel, hcommit, ?_, ?_, ?_, ?_, hreads⟩,
    ⟨hversion', htag', hcommit', ?_, ?_, ?_, ?_, ?_, ?_, hkeys', horder⟩, rfl⟩
  all_goals simp only [hsequence₀, hepoch₀, hminimum₀, hmaximum₀]
  · exact hsequence
  · exact hepoch
  · exact hminimum
  · exact hmaximum
  · exact hsequence'
  · exact hepoch'
  · exact hminimum'.1
  · exact Nat.not_lt.mp habi
  · exact hmaximum'.2
  · omega

theorem parseRelease_of_reads {i : ι} {m : ReleaseManifest} (base : ReleaseManifest)
    (hreads : ReadsRelease doc i m) (hvalid : ValidRelease m) :
    parseRelease doc i base = .ok (base.withRelease m) := by
  have hkeys := parseSigningKeys_eq_ok.mpr ⟨hreads.keys, hvalid.keys, hvalid.keyOrder⟩
  have hcount := hvalid.keyCount
  have hlength := length_of_reads hreads.keys
  have habi := hvalid.abi
  unfold parseRelease
  simp only [hreads.fields, hreads.version, hreads.tag, hreads.channel, hreads.sourceCommit,
    hreads.sequence, hreads.epoch, hreads.minimumAbi, hreads.maximumAbi, hvalid.version, hvalid.tag,
    hvalid.sourceCommit, reject_bind_eq_ok, ne_eq, not_true_eq_false, not_false_eq_true, true_and]
  refine ⟨by omega, by omega, bind_eq_ok.mpr ⟨_, hkeys, pure_eq_ok.mpr ?_⟩⟩
  simp only [ReleaseManifest.withRelease, UInt64.ofNat_toNat, UInt32.ofNat_toNat]

/-! ## The configuration -/

/-- The value at `i` is the schema `s`. -/
structure ReadsSchema (doc : Reader ι) (i : ι) (s : ManifestConfigSchema) : Prop where
  fields : doc.exactObject i schemaFields = true
  id : doc.copyString (doc.member i "id") 65 = some (areaText s.area)
  target : doc.uint64 (doc.member i "target_version") 0 int32Max = some s.targetVersion.toNat
  array : doc.hasType (doc.member i "accepted_versions") .array = true
  accepted : List.Forall₂ (fun child v => doc.uint64 child 0 int32Max = some v)
    (doc.elements (doc.member i "accepted_versions")) (s.acceptedVersions.map UInt32.toNat)

/-- The value at `i` is the migration `m`. -/
structure ReadsMigration (doc : Reader ι) (i : ι) (m : ManifestMigration) : Prop where
  fields : doc.exactObject i migrationFields = true
  id : doc.copyString (doc.member i "id") 65 = some m.id
  area : doc.copyString (doc.member i "area") 65 = some (areaText m.area)
  fromVersion : doc.uint64 (doc.member i "from_version") 0 int32Max = some m.fromVersion.toNat
  toVersion : doc.uint64 (doc.member i "to_version") 0 int32Max = some m.toVersion.toNat
  lossy : doc.bool (doc.member i "lossy") = some m.lossy

/-- The value at `i` is the lossy change `c`. -/
structure ReadsLossyChange (doc : Reader ι) (i : ι) (c : ManifestLossyChange) : Prop where
  fields : doc.exactObject i lossyFields = true
  area : doc.copyString (doc.member i "area") 65 = some (areaText c.area)
  description : doc.copyString (doc.member i "description") 257 = some c.description

/-- The value at `i` is the configuration part of `m`. -/
structure ReadsConfiguration (doc : Reader ι) (i : ι) (m : ReleaseManifest) : Prop where
  fields : doc.exactObject i configurationFields = true
  schemasArray : doc.hasType (doc.member i "schemas") .array = true
  schemas : List.Forall₂ (ReadsSchema doc) (doc.elements (doc.member i "schemas")) m.schemas
  migrationsArray : doc.hasType (doc.member i "migrations") .array = true
  migrations : List.Forall₂ (ReadsMigration doc) (doc.elements (doc.member i "migrations"))
    m.migrations
  lossyArray : doc.hasType (doc.member i "lossy_changes") .array = true
  lossyChanges : List.Forall₂ (ReadsLossyChange doc) (doc.elements (doc.member i "lossy_changes"))
    m.lossyChanges

theorem isIdentifier_areaText {area : ConfigArea} (h : isKnownConfigArea area = true) :
    isIdentifier (areaText area) = true :=
  (texts_read.1 area (by cases area <;> simp [configAreas])).2 h

theorem parseAcceptedVersion_eq_ok {front : List Nat} {child : ι} {s : List Nat} :
    parseAcceptedVersion doc front child = .ok s ↔
      ∃ v, doc.uint64 child 0 int32Max = some v ∧ (∀ b ∈ front.getLast?, b < v) ∧
        s = front ++ [v] := by
  unfold parseAcceptedVersion
  cases hversion : doc.uint64 child 0 int32Max with
  | none => simp
  | some v =>
      simp only [reject_bind_eq_ok, pure_eq_ok, Option.some.injEq, exists_eq_left', Option.any_eq_true,
        decide_eq_true_eq, not_exists, not_and, Nat.not_le]
      rfl

theorem parseAcceptedVersions_eq_ok {array : ι} {versions : List Nat} :
    overChildren doc array (parseAcceptedVersion doc) [] = .ok versions ↔
      List.Forall₂ (fun child v => doc.uint64 child 0 int32Max = some v) (doc.elements array)
        versions ∧ versions.Pairwise (· < ·) := by
  refine (foldlM_append_eq_ok fun _ _ _ => parseAcceptedVersion_eq_ok).trans ?_
  rw [AllFit.sorted]

/-- What the loop over the schemas keeps of the schemas before. -/
def schemaScan (schemas : List ManifestConfigSchema) : List (Bytes × ManifestConfigSchema) :=
  schemas.map fun s => (areaText s.area, s)

theorem map_ofNat_toNat_uint32 (vs : List UInt32) :
    (vs.map UInt32.toNat).map UInt32.ofNat = vs := by
  rw [List.map_map]
  refine (List.map_congr_left fun v _ => ?_).trans (List.map_id _)
  exact UInt32.ofNat_toNat

theorem map_toNat_ofNat_uint32 {ns : List Nat} (h : ∀ n ∈ ns, n ≤ int32Max) :
    (ns.map UInt32.ofNat).map UInt32.toNat = ns := by
  rw [List.map_map]
  refine (List.map_congr_left fun n hn => ?_).trans (List.map_id _)
  exact toNat_ofNat_uint32 (h n hn)

theorem pairwise_toNat_uint32 {vs : List UInt32} :
    (vs.map UInt32.toNat).Pairwise (· < ·) ↔ vs.Pairwise (· < ·) :=
  List.pairwise_map

theorem getLast_schemaScan (schemas : List ManifestConfigSchema) :
    (schemaScan schemas).getLast?.map (·.1) = (schemas.map fun s => areaText s.area).getLast? := by
  rw [← List.getLast?_map, schemaScan, List.map_map]
  rfl

theorem areas_schemaScan (schemas : List ManifestConfigSchema) :
    (schemaScan schemas).map (·.2.area) = schemas.map (·.area) := by
  rw [schemaScan, List.map_map]
  rfl

theorem schemaScan_concat (schemas : List ManifestConfigSchema) (a : ManifestConfigSchema) :
    schemaScan (schemas ++ [a]) = schemaScan schemas ++ [(areaText a.area, a)] := by
  simp [schemaScan]

/-- A schema that its object is read as, and that may follow those before. -/
theorem parseSchema_eq_ok (hdoc : doc.Lawful) {front : List ManifestConfigSchema} {child : ι}
    {s : List (Bytes × ManifestConfigSchema)} :
    parseSchema doc (schemaScan front) child = .ok s ↔
      ∃ a, ReadsSchema doc child a ∧
        ((isKnownConfigArea a.area = true ∧ ValidSchema a) ∧
          (∀ b ∈ (front.map fun s => areaText s.area).getLast?, b < areaText a.area) ∧
            a.area ∉ front.map (·.area)) ∧
        s = schemaScan (front ++ [a]) := by
  constructor
  · intro h
    unfold parseSchema at h
    obtain ⟨hfields, h⟩ := reject_not_bind_eq_ok.mp h
    split at h <;> [rename_i id hid; cases h]
    obtain ⟨-, h⟩ := reject_not_bind_eq_ok.mp h
    obtain ⟨horder, h⟩ := reject_bind_eq_ok.mp h
    obtain ⟨harea, h⟩ := reject_bind_eq_ok.mp h
    split at h <;> [rename_i target htarget; cases h]
    obtain ⟨harray, h⟩ := reject_not_bind_eq_ok.mp h
    obtain ⟨hcount, h⟩ := reject_bind_eq_ok.mp h
    obtain ⟨versions, hversions, h⟩ := bind_eq_ok.mp h
    obtain ⟨hmember, h⟩ := reject_not_bind_eq_ok.mp h
    obtain rfl := pure_eq_ok.mp h
    obtain ⟨hreads, hsorted⟩ := parseAcceptedVersions_eq_ok.mp hversions
    have hlength := length_of_reads hreads
    have htarget₀ := toNat_ofNat_uint32 (hdoc.uint64 htarget).2
    have hrange : ∀ n ∈ versions, n ≤ int32Max := by
      intro n hn
      obtain ⟨child, -, hchild⟩ := exists_of_reads hreads hn
      exact (hdoc.uint64 hchild).2
    have hversions₀ := map_toNat_ofNat_uint32 hrange
    rw [not_or, Decidable.not_not] at harea
    have hid' := areaText_parseConfigArea harea.1
    rw [not_notAfter, getLast_schemaScan] at horder
    rw [areas_schemaScan] at harea
    refine ⟨⟨parseConfigArea id, UInt32.ofNat target, versions.map UInt32.ofNat⟩, ⟨hfields,
      by rw [hid, hid'], htarget.trans (congrArg some htarget₀.symm), harray, ?_⟩,
      ⟨⟨harea.1, ?_⟩, by rwa [hid'], harea.2⟩, ?_⟩
    · rwa [hversions₀]
    · refine ⟨?_, ?_, ?_, ?_⟩
      · rw [List.length_map]
        omega
      · intro v hv
        exact hrange _ (hversions₀ ▸ List.mem_map_of_mem hv)
      · rw [← pairwise_toNat_uint32, hversions₀]
        exact hsorted
      · exact List.mem_map_of_mem hmember
    · rw [schemaScan_concat, hid']
  · intro h
    obtain ⟨a, hreads, ⟨⟨hknown, hvalid⟩, horder, hnew⟩, rfl⟩ := h
    have hversions := parseAcceptedVersions_eq_ok.mpr ⟨hreads.accepted,
      pairwise_toNat_uint32.mpr hvalid.acceptedOrder⟩
    have hlength := length_of_reads hreads.accepted
    have hcount := hvalid.acceptedCount
    rw [List.length_map] at hlength
    rw [← getLast_schemaScan] at horder
    rw [← areas_schemaScan] at hnew
    unfold parseSchema
    simp only [hreads.fields, hreads.id, hreads.target, hreads.array, isIdentifier_areaText hknown,
      parseConfigArea_areaText, hknown, hnew, reject_bind_eq_ok, not_true_eq_false,
      not_false_eq_true, true_and, or_self, not_notAfter]
    refine ⟨horder, by omega, bind_eq_ok.mpr ⟨_, hversions, ?_⟩⟩
    refine reject_not_bind_eq_ok.mpr ⟨List.mem_map_of_mem hvalid.target, pure_eq_ok.mpr ?_⟩
    rw [schemaScan_concat, map_ofNat_toNat_uint32, UInt32.ofNat_toNat]

theorem parseSchemas_eq_ok (hdoc : doc.Lawful) {array : ι}
    {s : List (Bytes × ManifestConfigSchema)} :
    overChildren doc array (parseSchema doc) [] = .ok s ↔
      ∃ schemas, List.Forall₂ (ReadsSchema doc) (doc.elements array) schemas ∧
        ((∀ a ∈ schemas, isKnownConfigArea a.area = true ∧ ValidSchema a) ∧
          (schemas.map fun a => areaText a.area).Pairwise (· < ·) ∧
          (schemas.map (·.area)).Nodup) ∧
        s = schemaScan schemas := by
  refine (foldlM_eq_ok schemaScan fun _ _ _ => parseSchema_eq_ok hdoc).trans ?_
  simp only [AllFit.and, AllFit.forall_mem, AllFit.pairwise, AllFit.nodup, forall_and]

theorem mem_configAreas {area : ConfigArea} (h : isKnownConfigArea area = true) :
    area ∈ configAreas := by
  cases area <;> first | decide | cases h

theorem nodup_of_sorted {areas : List ConfigArea}
    (h : (areas.map areaText).Pairwise (· < ·)) : areas.Nodup := by
  rw [List.pairwise_map] at h
  refine h.imp fun hlt heq => ?_
  rw [heq] at hlt
  exact List.lt_irrefl _ hlt

/-- Six known areas in the order of their names are all there are. -/
theorem eq_configAreas_iff {areas : List ConfigArea} :
    areas = configAreas ↔ (∀ a ∈ areas, isKnownConfigArea a = true) ∧ areas.length = 6 ∧
      (areas.map areaText).Pairwise (· < ·) := by
  constructor
  · intro h
    subst h
    exact ⟨by decide, rfl, texts_read.2.2.2.2⟩
  · intro h
    obtain ⟨hknown, hlength, hsorted⟩ := h
    have hsub : areas.Subperm configAreas :=
      (nodup_of_sorted hsorted).subperm fun a ha => mem_configAreas (hknown a ha)
    have hperm : areas.Perm configAreas := hsub.perm_of_length_le (by rw [hlength]; decide)
    rw [List.pairwise_map] at hsorted
    refine hperm.eq_of_pairwise (fun a b _ _ hab hba => ?_) hsorted ?_
    · exact absurd (List.lt_trans hab hba) (List.lt_irrefl _)
    · rw [← List.pairwise_map (f := areaText) (R := (· < ·))]
      exact texts_read.2.2.2.2

/-- A migration that its object is read as, and that may follow those before. -/
theorem parseMigration_eq_ok (hdoc : doc.Lawful) {front : List ManifestMigration} {child : ι}
    {s : List ManifestMigration} :
    parseMigration doc front child = .ok s ↔
      ∃ a, ReadsMigration doc child a ∧
        (ValidMigration a ∧ ∀ b ∈ (front.map (·.id)).getLast?, b < a.id) ∧ s = front ++ [a] := by
  constructor
  · intro h
    unfold parseMigration at h
    obtain ⟨hfields, h⟩ := reject_not_bind_eq_ok.mp h
    split at h <;> [rename_i id hid; cases h]
    obtain ⟨hid', h⟩ := reject_not_bind_eq_ok.mp h
    obtain ⟨horder, h⟩ := reject_bind_eq_ok.mp h
    split at h <;> [rename_i area harea; cases h]
    obtain ⟨-, h⟩ := reject_not_bind_eq_ok.mp h
    split at h <;> [rename_i fromVersion hfrom; cases h]
    split at h <;> [rename_i toVersion hto; cases h]
    split at h <;> [rename_i lossy hlossy; cases h]
    obtain ⟨hknown, h⟩ := reject_not_bind_eq_ok.mp h
    obtain rfl := pure_eq_ok.mp h
    rw [not_notAfter, ← List.getLast?_map] at horder
    have hfrom₀ := toNat_ofNat_uint32 (hdoc.uint64 hfrom).2
    have hto₀ := toNat_ofNat_uint32 (hdoc.uint64 hto).2
    refine ⟨_, ⟨hfields, hid, ?_, hfrom.trans (congrArg some hfrom₀.symm),
      hto.trans (congrArg some hto₀.symm), hlossy⟩, ⟨⟨hid', hknown, ?_, ?_⟩, horder⟩, rfl⟩
    · rw [harea, areaText_parseConfigArea hknown]
    · rw [hfrom₀]
      exact (hdoc.uint64 hfrom).2
    · rw [hto₀]
      exact (hdoc.uint64 hto).2
  · intro h
    obtain ⟨a, hreads, ⟨hvalid, horder⟩, rfl⟩ := h
    rw [List.getLast?_map] at horder
    unfold parseMigration
    simp only [hreads.fields, hreads.id, hreads.area, hreads.fromVersion, hreads.toVersion,
      hreads.lossy, hvalid.id, hvalid.area, isIdentifier_areaText hvalid.area,
      parseConfigArea_areaText, reject_bind_eq_ok, not_true_eq_false, not_false_eq_true, true_and,
      not_notAfter]
    refine ⟨horder, pure_eq_ok.mpr ?_⟩
    rw [UInt32.ofNat_toNat, UInt32.ofNat_toNat]

theorem parseMigrations_eq_ok (hdoc : doc.Lawful) {array : ι}
    {migrations : List ManifestMigration} :
    overChildren doc array (parseMigration doc) [] = .ok migrations ↔
      List.Forall₂ (ReadsMigration doc) (doc.elements array) migrations ∧
        (∀ a ∈ migrations, ValidMigration a) ∧ (migrations.map (·.id)).Pairwise (· < ·) := by
  refine (foldlM_append_eq_ok fun _ _ _ => parseMigration_eq_ok hdoc).trans ?_
  simp only [AllFit.and, AllFit.forall_mem, AllFit.pairwise]

/-- What the loop over the lossy changes keeps of the changes before. -/
def lossyScan (changes : List ManifestLossyChange) : List (Bytes × ManifestLossyChange) :=
  changes.map fun c => (areaText c.area, c)

theorem getLast_lossyScan (changes : List ManifestLossyChange) :
    (lossyScan changes).getLast?.map (·.1) = (changes.map fun c => areaText c.area).getLast? := by
  rw [← List.getLast?_map, lossyScan, List.map_map]
  rfl

/-- A change that its object is read as, and that may follow those before. -/
theorem parseLossyChange_eq_ok (hdoc : doc.Lawful) {front : List ManifestLossyChange} {child : ι}
    {s : List (Bytes × ManifestLossyChange)} :
    parseLossyChange doc (lossyScan front) child = .ok s ↔
      ∃ a, ReadsLossyChange doc child a ∧
        (ValidLossyChange a ∧
          ∀ b ∈ (front.map fun c => areaText c.area).getLast?, b < areaText a.area) ∧
        s = lossyScan (front ++ [a]) := by
  constructor
  · intro h
    unfold parseLossyChange at h
    obtain ⟨hfields, h⟩ := reject_not_bind_eq_ok.mp h
    split at h <;> [rename_i area harea; cases h]
    obtain ⟨-, h⟩ := reject_not_bind_eq_ok.mp h
    split at h <;> [rename_i description hdescription; cases h]
    obtain ⟨hsafe, h⟩ := reject_not_bind_eq_ok.mp h
    obtain ⟨hknown, h⟩ := reject_not_bind_eq_ok.mp h
    obtain ⟨horder, h⟩ := reject_bind_eq_ok.mp h
    obtain rfl := pure_eq_ok.mp h
    rw [not_notAfter, getLast_lossyScan] at horder
    have harea' := areaText_parseConfigArea hknown
    have hbounded := hdoc.copyString hdescription
    refine ⟨⟨parseConfigArea area, description⟩, ⟨hfields, by rw [harea, harea'], hdescription⟩,
      ⟨⟨hknown, hsafe, Nat.lt_succ_iff.mp hbounded⟩, by rwa [harea']⟩, ?_⟩
    simp [lossyScan, harea']
  · intro h
    obtain ⟨a, hreads, ⟨hvalid, horder⟩, rfl⟩ := h
    rw [← getLast_lossyScan] at horder
    unfold parseLossyChange
    simp only [hreads.fields, hreads.area, hreads.description, hvalid.area, hvalid.description,
      isIdentifier_areaText hvalid.area, parseConfigArea_areaText, reject_bind_eq_ok,
      not_true_eq_false, not_false_eq_true, true_and, not_notAfter]
    exact ⟨horder, pure_eq_ok.mpr (by simp [lossyScan])⟩

theorem parseLossyChanges_eq_ok (hdoc : doc.Lawful) {array : ι}
    {s : List (Bytes × ManifestLossyChange)} :
    overChildren doc array (parseLossyChange doc) [] = .ok s ↔
      ∃ changes, List.Forall₂ (ReadsLossyChange doc) (doc.elements array) changes ∧
        ((∀ a ∈ changes, ValidLossyChange a) ∧
          (changes.map fun a => areaText a.area).Pairwise (· < ·)) ∧
        s = lossyScan changes := by
  refine (foldlM_eq_ok lossyScan fun _ _ _ => parseLossyChange_eq_ok hdoc).trans ?_
  simp only [AllFit.and, AllFit.forall_mem, AllFit.pairwise]

/-- The fields of a manifest that its configuration sets. -/
def ReleaseManifest.withConfiguration (base m : ReleaseManifest) : ReleaseManifest :=
  { base with
    schemas := m.schemas, migrations := m.migrations, lossyChanges := m.lossyChanges }

/-- The two checks at the end of `ParseConfiguration`. -/
theorem described_iff {m : ReleaseManifest} :
    ((m.lossyChanges.all fun change =>
        m.migrations.any fun migration => migration.lossy && migration.area = change.area) = true ∧
      (m.migrations.all fun migration => !migration.lossy ||
        m.lossyChanges.any fun change => change.area = migration.area) = true) ↔
      ∀ area, (∃ c ∈ m.lossyChanges, c.area = area) ↔
        ∃ c ∈ m.migrations, c.lossy = true ∧ c.area = area := by
  simp only [List.all_eq_true, List.any_eq_true, Bool.or_eq_true, Bool.and_eq_true,
    Bool.not_eq_true', decide_eq_true_eq]
  constructor
  · intro h area
    constructor
    · intro hchange
      obtain ⟨c, hc, rfl⟩ := hchange
      exact h.1 c hc
    · intro hmigration
      obtain ⟨c, hc, hlossy, rfl⟩ := hmigration
      exact (h.2 c hc).resolve_left (by rw [hlossy]; decide)
  · intro h
    constructor
    · intro c hc
      exact (h c.area).mp ⟨c, hc, rfl⟩
    · intro c hc
      cases hlossy : c.lossy with
      | false => exact Or.inl rfl
      | true => exact Or.inr ((h c.area).mpr ⟨c, hc, hlossy, rfl⟩)

theorem snd_schemaScan (schemas : List ManifestConfigSchema) :
    (schemaScan schemas).map Prod.snd = schemas := by
  rw [schemaScan, List.map_map]
  exact List.map_id _

theorem snd_lossyScan (changes : List ManifestLossyChange) :
    (lossyScan changes).map Prod.snd = changes := by
  rw [lossyScan, List.map_map]
  exact List.map_id _

theorem length_le_of_lossyOrder {changes : List ManifestLossyChange}
    (hvalid : ∀ c ∈ changes, ValidLossyChange c)
    (horder : (changes.map fun c => areaText c.area).Pairwise (· < ·)) : changes.length ≤ 6 := by
  have hsorted : ((changes.map (·.area)).map areaText).Pairwise (· < ·) := by
    rwa [List.map_map]
  have hsub : (changes.map (·.area)).Subperm configAreas := by
    refine (nodup_of_sorted hsorted).subperm fun a ha => ?_
    obtain ⟨c, hc, rfl⟩ := List.mem_map.mp ha
    exact mem_configAreas (hvalid c hc).area
  have hlength := hsub.length_le
  rwa [List.length_map] at hlength

theorem reads_of_parseConfiguration (hdoc : doc.Lawful) {i : ι} {base m : ReleaseManifest}
    (h : parseConfiguration doc i base = .ok m) :
    ReadsConfiguration doc i m ∧ ValidConfiguration m ∧ m = base.withConfiguration m := by
  unfold parseConfiguration at h
  obtain ⟨hfields, h⟩ := reject_not_bind_eq_ok.mp h
  obtain ⟨hschemasArray, h⟩ := reject_not_bind_eq_ok.mp h
  obtain ⟨hschemaCount, h⟩ := reject_bind_eq_ok.mp h
  obtain ⟨scan, hschemas, h⟩ := bind_eq_ok.mp h
  obtain ⟨schemas, hreads, ⟨hvalid, hsorted, -⟩, rfl⟩ := (parseSchemas_eq_ok hdoc).mp hschemas
  obtain ⟨hmigrationsArray, h⟩ := reject_not_bind_eq_ok.mp h
  obtain ⟨hmigrationCount, h⟩ := reject_bind_eq_ok.mp h
  obtain ⟨migrations, hmigrations, h⟩ := bind_eq_ok.mp h
  obtain ⟨hmreads, hmvalid, hmsorted⟩ := (parseMigrations_eq_ok hdoc).mp hmigrations
  obtain ⟨-, h⟩ := reject_bind_eq_ok.mp h
  obtain ⟨hregistry, h⟩ := reject_not_bind_eq_ok.mp h
  obtain ⟨hlossyArray, h⟩ := reject_not_bind_eq_ok.mp h
  obtain ⟨-, h⟩ := reject_bind_eq_ok.mp h
  obtain ⟨lossy, hlossy, h⟩ := bind_eq_ok.mp h
  obtain ⟨changes, hlreads, ⟨hlvalid, hlsorted⟩, rfl⟩ := (parseLossyChanges_eq_ok hdoc).mp hlossy
  obtain ⟨hall, h⟩ := reject_not_bind_eq_ok.mp h
  obtain ⟨hany, h⟩ := reject_not_bind_eq_ok.mp h
  obtain rfl := pure_eq_ok.mp h
  have hlength := length_of_reads hreads
  have hmlength := length_of_reads hmreads
  simp only [snd_schemaScan, snd_lossyScan] at hregistry hall hany ⊢
  have hareas : schemas.map (·.area) = configAreas := by
    refine eq_configAreas_iff.mpr ⟨?_, ?_, ?_⟩
    · intro area harea
      obtain ⟨s, hs, rfl⟩ := List.mem_map.mp harea
      exact (hvalid s hs).1
    · rw [List.length_map]
      omega
    · rwa [List.map_map]
  exact ⟨⟨hfields, hschemasArray, hreads, hmigrationsArray, hmreads, hlossyArray, hlreads⟩,
    ⟨hareas, fun s hs => (hvalid s hs).2, Nat.not_lt.mp (hmlength ▸ hmigrationCount), hmvalid,
      hmsorted, hregistry, hlvalid, hlsorted, described_iff.mp ⟨hall, hany⟩⟩, rfl⟩

theorem parseConfiguration_of_reads (hdoc : doc.Lawful) {i : ι} {m : ReleaseManifest}
    (base : ReleaseManifest) (hreads : ReadsConfiguration doc i m) (hvalid : ValidConfiguration m) :
    parseConfiguration doc i base = .ok (base.withConfiguration m) := by
  obtain ⟨hknown, hcount, hsorted⟩ := eq_configAreas_iff.mp hvalid.areas
  rw [List.length_map] at hcount
  have hschemas := (parseSchemas_eq_ok hdoc).mpr ⟨m.schemas, hreads.schemas,
    ⟨fun s hs => ⟨hknown _ (List.mem_map_of_mem hs), hvalid.schemas s hs⟩,
      by rwa [List.map_map] at hsorted, nodup_of_sorted hsorted⟩, rfl⟩
  have hmigrations := (parseMigrations_eq_ok hdoc).mpr
    ⟨hreads.migrations, hvalid.migrations, hvalid.migrationOrder⟩
  have hlossy := (parseLossyChanges_eq_ok hdoc).mpr
    ⟨m.lossyChanges, hreads.lossyChanges, ⟨hvalid.lossyChanges, hvalid.lossyOrder⟩, rfl⟩
  have hlength := length_of_reads hreads.schemas
  have hmlength := length_of_reads hreads.migrations
  have hllength := length_of_reads hreads.lossyChanges
  have hmcount := hvalid.migrationCount
  have hlcount := length_le_of_lossyOrder hvalid.lossyChanges hvalid.lossyOrder
  have hregistry := hvalid.registry
  obtain ⟨hall, hany⟩ := described_iff.mpr hvalid.described
  unfold parseConfiguration
  refine reject_not_bind_eq_ok.mpr ⟨hreads.fields, reject_not_bind_eq_ok.mpr ⟨hreads.schemasArray,
    reject_bind_eq_ok.mpr ⟨by rw [hlength, hcount]; decide, bind_eq_ok.mpr ⟨_, hschemas,
    reject_not_bind_eq_ok.mpr ⟨hreads.migrationsArray, reject_bind_eq_ok.mpr ⟨by omega,
    bind_eq_ok.mpr ⟨_, hmigrations, ?_⟩⟩⟩⟩⟩⟩⟩
  simp only [snd_schemaScan]
  refine reject_bind_eq_ok.mpr ⟨by rw [hcount]; decide, reject_not_bind_eq_ok.mpr ⟨hregistry,
    reject_not_bind_eq_ok.mpr ⟨hreads.lossyArray, reject_bind_eq_ok.mpr ⟨?_,
    bind_eq_ok.mpr ⟨_, hlossy, ?_⟩⟩⟩⟩⟩
  · rw [hllength]
    unfold kConfigMigrationAreaCount kMaximumManifestLossyChanges
    omega
  · simp only [snd_lossyScan]
    exact reject_not_bind_eq_ok.mpr ⟨hall, reject_not_bind_eq_ok.mpr ⟨hany, rfl⟩⟩

end Parts

end Release

end BmxUpdate
