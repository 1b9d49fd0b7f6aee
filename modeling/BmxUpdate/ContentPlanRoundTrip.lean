import BmxUpdate.ContentPlan

/-!
# Writing and reading a content plan

`parseContentPlan` gives back the records `contentPlanContent` was given, as
long as each of them is one the format can hold and fits its file.  What it
accepts carries the binding of the request in its header, so a plan of another
transaction is no plan of this one.
-/

namespace BmxUpdate

open Wire

/-! ## One record -/

/-- The records the format can hold: their size is a 64-bit word. -/
structure ContentPlanRecord.Encodable (r : ContentPlanRecord) : Prop where
  consistent : r.Consistent
  size : r.oldSize < 2 ^ 64

@[simp] theorem length_encodeContentPlanRecord (index : Nat) (r : ContentPlanRecord) :
    (encodeContentPlanRecord index r).length = kContentPlanRecordBytes := by
  simp [encodeContentPlanRecord, kContentPlanRecordBytes]

theorem ContentPlanRecord.flags_lt (r : ContentPlanRecord) : r.flags < 8 := by
  unfold ContentPlanRecord.flags
  split <;> split <;> split <;> omega

/-- The three bits of the flag word. -/
theorem ContentPlanRecord.flags_bits (r : ContentPlanRecord) :
    decide (r.flags % 2 = 1) = r.noop ∧ decide (r.flags / 2 % 2 = 1) = r.sourceExisted ∧
      decide (r.flags / 4 % 2 = 1) = r.oldDigestValid := by
  unfold ContentPlanRecord.flags
  cases r.noop <;> cases r.sourceExisted <;> cases r.oldDigestValid <;> decide

theorem decodeContentPlanRecord_encode {index : Nat} {r : ContentPlanRecord}
    (hindex : index < 2 ^ 32) (hr : r.Encodable) :
    decodeContentPlanRecord index (encodeContentPlanRecord index r) = some r := by
  have hflags := decodeLe_encodeLe (n := 4) (v := r.flags) (by have := r.flags_lt; omega)
  have hnumber := decodeLe_encodeLe (n := 4) (v := index) (by omega)
  have hsize := decodeLe_encodeLe (n := 8) (v := r.oldSize) (by have := hr.size; omega)
  have hdigest : slice 0 32 r.oldDigest.bytes = r.oldDigest.bytes := slice_all (by simp)
  obtain ⟨hnoop, hexisted, hvalid⟩ := r.flags_bits
  simp only [decodeContentPlanRecord, encodeContentPlanRecord, List.append_assoc, slice_skip,
    slice_head, length_encodeLe, Nat.reduceSub, Nat.reduceLeDiff, Nat.le_refl, hflags, hnumber,
    hsize, hdigest, hnoop, hexisted, hvalid, Block.ofBytes_bytes]
  exact if_pos ⟨trivial, r.flags_lt, hr.consistent⟩

/-! ## All records -/

namespace Env

@[simp] theorem length_contentPlanRecords (index : Nat) (records : List ContentPlanRecord) :
    (contentPlanRecords index records).length = records.length * kContentPlanRecordBytes := by
  induction records generalizing index with
  | nil => simp [contentPlanRecords]
  | cons r records ih =>
      simp only [contentPlanRecords, List.length_append, length_encodeContentPlanRecord, ih,
        List.length_cons, kContentPlanRecordBytes]
      omega

/-- The records are read back, whatever follows them. -/
theorem decodeContentPlanRecords_append {records : List ContentPlanRecord} {index : Nat}
    (hindex : index + records.length ≤ 2 ^ 32) (hrecords : ∀ r ∈ records, r.Encodable)
    (rest : Bytes) :
    decodeContentPlanRecords index records.length (contentPlanRecords index records ++ rest) =
      some records := by
  induction records generalizing index with
  | nil => rfl
  | cons r records ih =>
      simp only [List.length_cons] at hindex
      have htake : ((contentPlanRecords index (r :: records) ++ rest).take
          kContentPlanRecordBytes) = encodeContentPlanRecord index r := by
        simp only [contentPlanRecords, List.append_assoc]
        rw [List.take_append_of_le_length (by simp)]
        exact List.take_of_length_le (by simp)
      have hdrop : ((contentPlanRecords index (r :: records) ++ rest).drop
          kContentPlanRecordBytes) = contentPlanRecords (index + 1) records ++ rest := by
        simp only [contentPlanRecords, List.append_assoc]
        exact List.drop_left' (by simp)
      have hrest := @ih (index + 1) (by omega)
        fun other hother => hrecords other (List.mem_cons_of_mem _ hother)
      have hfirst := decodeContentPlanRecord_encode (show index < 2 ^ 32 by omega)
        (hrecords r List.mem_cons_self)
      simp only [List.length_cons, decodeContentPlanRecords, htake, hdrop, hrest, hfirst,
        Option.bind_some, Option.map_some]

/-- Decoding all records decodes each of them where it lies. -/
theorem decodeContentPlanRecords_eq_some {n index : Nat} {encoded : Bytes}
    {records : List ContentPlanRecord}
    (h : decodeContentPlanRecords index n encoded = some records) :
    records.length = n ∧ ∀ i r, records[i]? = some r →
      decodeContentPlanRecord (index + i)
        (slice (i * kContentPlanRecordBytes) kContentPlanRecordBytes encoded) = some r := by
  induction n generalizing index encoded records with
  | zero =>
      simp only [decodeContentPlanRecords, Option.some.injEq] at h
      subst h
      simp
  | succ n ih =>
      simp only [decodeContentPlanRecords, Option.bind_eq_some_iff, Option.map_eq_some_iff] at h
      obtain ⟨first, hfirst, others, hothers, rfl⟩ := h
      obtain ⟨hlength, hdecode⟩ := ih hothers
      refine ⟨by simp [hlength], ?_⟩
      intro i r hr
      cases i with
      | zero =>
          simp only [List.getElem?_cons_zero, Option.some.injEq] at hr
          subst hr
          simpa [slice] using hfirst
      | succ i =>
          have hnext := hdecode i r (by simpa using hr)
          have hskip : (i + 1) * kContentPlanRecordBytes =
              kContentPlanRecordBytes + i * kContentPlanRecordBytes := by
            rw [Nat.add_mul]
            omega
          unfold slice at hnext ⊢
          rw [List.drop_drop] at hnext
          rw [hskip, show index + (i + 1) = index + 1 + i by omega]
          exact hnext

/-! ## The whole plan -/

variable {env : Env}

@[simp] theorem length_contentPlanHeader (finalPlan : Bool) :
    (env.contentPlanHeader finalPlan).length = kContentPlanHeaderBytes := by
  simp [contentPlanHeader, contentPlanMagic, kContentPlanHeaderBytes]

@[simp] theorem length_contentPlanFooter (totals : ContentPlanTotals) :
    (contentPlanFooter totals).length = 48 := by
  simp [contentPlanFooter, kContentPlanFooterMagic]

/-- The records a plan of this manifest can be made of: one for each file, each
of them fitting it. -/
structure PlanRecords (env : Env) (finalPlan : Bool) (records : List ContentPlanRecord) :
    Prop where
  length : records.length = env.asset.files.length
  encodable : ∀ r ∈ records, r.Encodable
  fits : ∀ (i : Nat) (file : ManifestFile) (r : ContentPlanRecord),
    env.asset.files[i]? = some file → records[i]? = some r →
    env.planRecordFits finalPlan file r = true

theorem PlanRecords.all_fit {finalPlan : Bool} {records : List ContentPlanRecord}
    (h : env.PlanRecords finalPlan records) :
    (env.asset.files.zip records).all (fun (file, r) => env.planRecordFits finalPlan file r) =
      true := by
  rw [List.all_eq_true]
  intro pair hpair
  obtain ⟨i, hi⟩ := List.mem_iff_getElem?.mp hpair
  rw [List.getElem?_zip_eq_some] at hi
  exact h.fits i pair.1 pair.2 hi.1 hi.2

/-- Counting fails only where the new sizes together overflow. -/
theorem contentPlanTotals_isSome {totals : ContentPlanTotals} {files : List ManifestFile}
    (records : List ContentPlanRecord)
    (h : totals.unchangedBytes + totals.changedBytes + (files.map env.effectiveSize).sum < 2 ^ 64) :
    (env.contentPlanTotals totals files records).isSome := by
  induction files generalizing totals records with
  | nil => simp [contentPlanTotals]
  | cons file files ih =>
      cases records with
      | nil => simp [contentPlanTotals]
      | cons r records =>
          simp only [List.map_cons, List.sum_cons] at h
          unfold contentPlanTotals countRecord checkedAdd
          split
          · rw [if_pos (by omega)]
            exact ih records (by dsimp only; omega)
          · rw [if_pos (by omega)]
            exact ih records (by dsimp only; omega)

/-- The totals depend on the no-op bits alone. -/
theorem contentPlanTotals_congr {totals : ContentPlanTotals} {files : List ManifestFile}
    {records records' : List ContentPlanRecord}
    (h : records.map (·.noop) = records'.map (·.noop)) :
    env.contentPlanTotals totals files records = env.contentPlanTotals totals files records' := by
  induction files generalizing totals records records' with
  | nil => simp [contentPlanTotals]
  | cons file files ih =>
      cases records with
      | nil =>
          obtain rfl : records' = [] := by simpa using h.symm
          rfl
      | cons r records =>
          cases records' with
          | nil => cases h
          | cons r' records' =>
              simp only [List.map_cons, List.cons.injEq] at h
              unfold contentPlanTotals countRecord
              rw [h.1]
              exact congrArg _ (funext fun next => ih h.2)

theorem length_contentPlanContent {finalPlan : Bool} {records : List ContentPlanRecord}
    {content : Bytes} (h : env.contentPlanContent finalPlan records = some content)
    (hlength : records.length = env.asset.files.length) :
    content.length = env.contentPlanSize := by
  simp only [contentPlanContent, Option.map_eq_some_iff] at h
  obtain ⟨totals, -, rfl⟩ := h
  simp only [contentPlanBody, List.length_append, length_contentPlanHeader,
    length_contentPlanRecords, length_contentPlanFooter, Block.length_bytes, hlength,
    contentPlanSize, kContentPlanFooterBytes]
  omega

/-- The reader accepts what the writer wrote, and reads the records back. -/
theorem parseContentPlan_contentPlanContent {finalPlan : Bool}
    {records : List ContentPlanRecord} {content : Bytes}
    (hfiles : env.asset.files.length ≤ 2 ^ 32) (h : env.PlanRecords finalPlan records)
    (hcontent : env.contentPlanContent finalPlan records = some content) :
    env.parseContentPlan finalPlan content = some records := by
  have hsize := length_contentPlanContent hcontent h.length
  simp only [contentPlanContent, Option.map_eq_some_iff] at hcontent
  obtain ⟨totals, htotals, rfl⟩ := hcontent
  set digest := (env.sha256 (env.contentPlanBody finalPlan records totals)).bytes with hdigest
  have hrecords : (contentPlanRecords 0 records).length =
      env.asset.files.length * kContentPlanRecordBytes := by
    rw [length_contentPlanRecords, h.length]
  have hbody : (env.contentPlanBody finalPlan records totals).length =
      kContentPlanHeaderBytes + env.asset.files.length * kContentPlanRecordBytes + 48 := by
    simp only [contentPlanBody, List.length_append, length_contentPlanHeader, hrecords,
      length_contentPlanFooter]
    omega
  have hheader : (env.contentPlanBody finalPlan records totals ++ digest).take
      kContentPlanHeaderBytes = env.contentPlanHeader finalPlan := by
    simp only [contentPlanBody, List.append_assoc]
    exact List.take_left' (by simp)
  have hdrop : (env.contentPlanBody finalPlan records totals ++ digest).drop
      kContentPlanHeaderBytes =
        contentPlanRecords 0 records ++ (contentPlanFooter totals ++ digest) := by
    simp only [contentPlanBody, List.append_assoc]
    exact List.drop_left' (by simp)
  have hdecode : decodeContentPlanRecords 0 env.asset.files.length
      (contentPlanRecords 0 records ++ (contentPlanFooter totals ++ digest)) =
        some records := by
    rw [← h.length]
    exact decodeContentPlanRecords_append (by rw [h.length]; omega) h.encodable _
  have hfooter : slice (kContentPlanHeaderBytes + env.asset.files.length *
      kContentPlanRecordBytes) 48 (env.contentPlanBody finalPlan records totals ++ digest) =
        contentPlanFooter totals := by
    simp only [contentPlanBody, List.append_assoc]
    rw [slice_skip (by simp), slice_skip (by simp [hrecords]), length_contentPlanHeader,
      hrecords, Nat.add_sub_cancel_left, Nat.sub_self]
    exact slice_head (by simp)
  have hhash : slice (kContentPlanHeaderBytes + env.asset.files.length *
      kContentPlanRecordBytes + 48) 32
        (env.contentPlanBody finalPlan records totals ++ digest) = digest := by
    rw [slice_skip (by omega), hbody, Nat.sub_self]
    exact slice_all (by simp [hdigest])
  have htake : (env.contentPlanBody finalPlan records totals ++ digest).take
      (kContentPlanHeaderBytes + env.asset.files.length * kContentPlanRecordBytes + 48) =
        env.contentPlanBody finalPlan records totals :=
    List.take_left' hbody
  unfold parseContentPlan
  rw [if_neg (not_not.mpr hsize), if_neg (not_not.mpr hheader), hdrop, hdecode]
  simp only [Option.bind_eq_bind, Option.bind_some]
  rw [h.all_fit, htotals, if_neg (by decide), Option.bind_some, if_neg (not_not.mpr hfooter),
    htake, if_neg (not_not.mpr hhash)]

/-- What the reader checks of the bytes it accepts, the digest apart. -/
theorem parseContentPlan_eq_some {finalPlan : Bool} {records : List ContentPlanRecord}
    {encoded : Bytes} (h : env.parseContentPlan finalPlan encoded = some records) :
    encoded.length = env.contentPlanSize ∧
      encoded.take kContentPlanHeaderBytes = env.contentPlanHeader finalPlan ∧
      decodeContentPlanRecords 0 env.asset.files.length
        (encoded.drop kContentPlanHeaderBytes) = some records ∧
      ∃ totals, env.contentPlanTotals ⟨0, 0, 0, 0⟩ env.asset.files records = some totals := by
  unfold parseContentPlan at h
  split at h
  · cases h
  case isFalse hsize =>
  split at h
  · cases h
  case isFalse hheader =>
  simp only [Option.bind_eq_bind, Option.bind_eq_some_iff] at h
  obtain ⟨decoded, hdecoded, h⟩ := h
  split at h
  · cases h
  simp only [Option.bind_eq_some_iff] at h
  obtain ⟨totals, htotals, h⟩ := h
  split at h
  · cases h
  split at h
  · cases h
  obtain rfl : decoded = records := by simpa using h
  exact ⟨not_not.mp hsize, not_not.mp hheader, hdecoded, totals, htotals⟩

/-- `ReadContentPlanRecord` finds in an accepted plan what the reader found. -/
theorem decode_contentPlanRecordSlice {finalPlan : Bool} {records : List ContentPlanRecord}
    {encoded : Bytes} (h : env.parseContentPlan finalPlan encoded = some records) {index : Nat}
    {r : ContentPlanRecord} (hr : records[index]? = some r) :
    decodeContentPlanRecord index (contentPlanRecordSlice index encoded) = some r := by
  obtain ⟨-, -, hdecoded, -⟩ := parseContentPlan_eq_some h
  have hdecode := (decodeContentPlanRecords_eq_some hdecoded).2 index r hr
  rw [Nat.zero_add] at hdecode
  unfold contentPlanRecordSlice
  unfold slice at hdecode ⊢
  rw [List.drop_drop] at hdecode
  exact hdecode

theorem length_of_parseContentPlan {finalPlan : Bool} {records : List ContentPlanRecord}
    {encoded : Bytes} (h : env.parseContentPlan finalPlan encoded = some records) :
    records.length = env.asset.files.length :=
  (decodeContentPlanRecords_eq_some (parseContentPlan_eq_some h).2.2.1).1

end Env

/-! ## The binding -/

/-- The fields of a plan's header that say which installation it belongs to. -/
structure PlanBinding where
  transactionId : TransactionId
  sourceReleaseSequence : Nat
  targetReleaseSequence : Nat
  manifestSha256 : Digest
  consentSha256 : Digest
  resetRequired : Bytes
  resetApproved : Bytes
deriving DecidableEq

/-- The binding a plan's bytes carry. -/
def planBinding (encoded : Bytes) : PlanBinding where
  transactionId := .ofBytes 16 (slice 24 16 encoded)
  sourceReleaseSequence := decodeLe (slice 40 8 encoded)
  targetReleaseSequence := decodeLe (slice 48 8 encoded)
  manifestSha256 := .ofBytes 32 (slice 56 32 encoded)
  consentSha256 := .ofBytes 32 (slice 88 32 encoded)
  resetRequired := slice 120 1 encoded
  resetApproved := slice 121 1 encoded

namespace Env

variable {env : Env}

/-- The binding of the request. -/
def binding (env : Env) : PlanBinding where
  transactionId := env.request.identity.transactionId
  sourceReleaseSequence := env.request.identity.sourceReleaseSequence.toNat
  targetReleaseSequence := env.request.manifest.releaseSequence.toNat
  manifestSha256 := env.request.identity.manifestSha256
  consentSha256 := env.request.identity.consentSha256
  resetRequired := [byteOfBool env.request.identity.resetRequired]
  resetApproved := [byteOfBool env.request.identity.resetApproved]

/-- A plan that begins with the header of the request carries its binding. -/
theorem planBinding_header (finalPlan : Bool) (rest : Bytes) :
    planBinding (env.contentPlanHeader finalPlan ++ rest) = env.binding := by
  have hsource := decodeLe_encodeLe (n := 8)
    (v := env.request.identity.sourceReleaseSequence.toNat)
    (by have := env.request.identity.sourceReleaseSequence.toNat_lt; omega)
  have htarget := decodeLe_encodeLe (n := 8) (v := env.request.manifest.releaseSequence.toNat)
    (by have := env.request.manifest.releaseSequence.toNat_lt; omega)
  have hmagic : (contentPlanMagic finalPlan).length = 8 := rfl
  simp only [planBinding, contentPlanHeader, binding]
  rw [show ∀ (a b : UInt8), [a, b] = [a] ++ [b] from fun _ _ => rfl]
  simp only [List.append_assoc, slice_skip, slice_head, hmagic, length_encodeLe,
    Block.length_bytes, List.length_cons, List.length_nil, Nat.reduceAdd, Nat.reduceSub,
    Nat.reduceLeDiff, Nat.le_refl, hsource, htarget, Block.ofBytes_bytes]

/-- What the reader accepts is bound to the request. -/
theorem planBinding_of_parseContentPlan {finalPlan : Bool} {records : List ContentPlanRecord}
    {encoded : Bytes} (h : env.parseContentPlan finalPlan encoded = some records) :
    planBinding encoded = env.binding := by
  obtain ⟨-, hheader, -⟩ := parseContentPlan_eq_some h
  rw [← List.take_append_drop kContentPlanHeaderBytes encoded, hheader]
  exact planBinding_header finalPlan _

end Env

end BmxUpdate
