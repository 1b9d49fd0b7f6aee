import BmxUpdate.RequestStore.RoundTrip

/-!
# One record at a time

The calls of the request store on one transaction root, each under its own
faults, keep the volume `Orderly`: at most one of the three records is there, an
active or a committed one has its four payloads beside it, and nothing stands in
the way of a later removal.
-/

namespace BmxUpdate

open Crash Volumes Wire RequestStore

namespace UpdateTransactionRequestStore

variable (store : UpdateTransactionRequestStore) (root : Path)

/-! ## The invariant -/

/-- The record of an accepted request is there, with payloads of the sizes and
digests it holds. -/
def Recorded (v : Volume) (name : RecordName) : Prop :=
  ∃ request release, request.release = some release ∧ request.transactionRoot = root ∧
    Accepted request ∧
    v.nodeAt (recordPath root name) = some (.file (store.stateOf request release).encode) ∧
    ∀ which, store.Verified v (payloadPath root which) (release.payload which).length
      (store.sha256 (release.payload which))

/-- No record that needs the payloads is there. -/
def Unclaimed (v : Volume) : Prop :=
  v.nodeAt (recordPath root .active) = none ∧ v.nodeAt (recordPath root .committed) = none

/-- What every call of the store keeps: one record at most, and no directory where it keeps a file. -/
structure Orderly (v : Volume) : Prop where
  files : ∀ file, v.nodeAt (filePath root file) ≠ some .directory
  parts : ∀ which, v.nodeAt (partOf (payloadPath root which)) ≠ some .directory
  exclusive : ∀ name other, v.nodeAt (recordPath root name) ≠ none →
    v.nodeAt (recordPath root other) ≠ none → name = other
  loadable : ∀ name, name ≠ .retiring → v.nodeAt (recordPath root name) ≠ none →
    store.Recorded root v name
  retiring : ∀ content, v.nodeAt (recordPath root .retiring) = some (.file content) →
    content.length = kPersistedUpdateRequestStateBytes
  fixed : ∀ name, name ≠ .active → v.nodeAt (recordPath root name) ≠ none →
    root = kUpdateTransactionRoot

variable {store root} {v w : Volume} {content : Content} {which : Payload} {p : Path}

/-- Payloads that are still there keep a record that is. -/
theorem Recorded.of_eq {name name' : RecordName} (h : store.Recorded root v name)
    (hrecord : w.nodeAt (recordPath root name') = v.nodeAt (recordPath root name))
    (hpayload : ∀ which, w.nodeAt (payloadPath root which) = v.nodeAt (payloadPath root which)) :
    store.Recorded root w name' := by
  obtain ⟨request, release, hrelease, hroot, haccepted, hnode, hverified⟩ := h
  refine ⟨request, release, hrelease, hroot, haccepted, hrecord.trans hnode, fun which => ?_⟩
  obtain ⟨content, hfile, hlength, hhash⟩ := hverified which
  refine ⟨content, ?_, hlength, hhash⟩
  rw [Volume.fileAt_eq_some_iff] at hfile ⊢
  exact (hpayload which).trans hfile

theorem Recorded.payload_ne_none {name : RecordName} (h : store.Recorded root v name)
    (which : Payload) : v.nodeAt (payloadPath root which) ≠ none := by
  obtain ⟨_, _, -, -, -, -, hverified⟩ := h
  obtain ⟨content, hfile, -⟩ := hverified which
  rw [Volume.fileAt_eq_some_iff] at hfile
  rw [hfile]
  exact nofun

/-! ## What keeps it -/

/-- A payload that is written fresh. -/
theorem Orderly.fresh_payload (h : store.Orderly root v)
    (hfresh : Fresh root (.payload which) content v w) : store.Orderly root w := by
  have hrecord : ∀ name, w.nodeAt (recordPath root name) = v.nodeAt (recordPath root name) :=
    fun name => hfresh.other_eq (by simp)
  refine ⟨fun file => hfresh.not_directory (h.files file),
    fun other => hfresh.part_not_directory (h.parts other), ?_, ?_, ?_, ?_⟩
  · intro name other hname hother
    rw [hrecord] at hname hother
    exact h.exclusive name other hname hother
  · intro name hname hpresent
    rw [hrecord] at hpresent
    have hrecorded := h.loadable name hname hpresent
    refine hrecorded.of_eq (hrecord name) fun other => ?_
    by_cases hother : other = which
    · subst hother
      rcases hfresh.here with hsame | ⟨hnone, -⟩
      · exact hsame
      · exact absurd hnone (hrecorded.payload_ne_none other)
    · exact hfresh.other_eq fun heq => hother (StoreFile.payload.inj heq)
  · intro content' hcontent
    rw [hrecord] at hcontent
    exact h.retiring content' hcontent
  · intro name hname hpresent
    rw [hrecord] at hpresent
    exact h.fixed name hname hpresent

/-- The record of a request whose payloads are in place, where no other record
is. -/
theorem Orderly.fresh_record {request : AuthenticatedUpdateRequest}
    {release : ValidatedReleaseDownload} (h : store.Orderly root v)
    (hrelease : request.release = some release) (hroot : request.transactionRoot = root)
    (haccepted : Accepted request)
    (hcommitted : v.nodeAt (recordPath root .committed) = none)
    (hretiring : v.nodeAt (recordPath root .retiring) = none)
    (hverified : ∀ which, store.Verified v (payloadPath root which)
      (release.payload which).length (store.sha256 (release.payload which)))
    (hfresh : Fresh root (.record .active) (store.stateOf request release).encode v w) :
    store.Orderly root w := by
  have hpayload : ∀ which, w.nodeAt (payloadPath root which) = v.nodeAt (payloadPath root which) :=
    fun which => hfresh.other_eq (by simp)
  have hother : ∀ name, name ≠ .active → w.nodeAt (recordPath root name) = none := by
    intro name hname
    rw [hfresh.other_eq (by simpa using hname)]
    cases name with
    | active => exact absurd rfl hname
    | committed => exact hcommitted
    | retiring => exact hretiring
  have hactive : ∀ name, w.nodeAt (recordPath root name) ≠ none → name = .active := by
    intro name hpresent
    by_contra hname
    exact hpresent (hother name hname)
  refine ⟨fun file => hfresh.not_directory (h.files file),
    fun which => hfresh.part_not_directory (h.parts which), ?_, ?_, ?_, ?_⟩
  · intro name other hname hother
    rw [hactive name hname, hactive other hother]
  · intro name _ hpresent
    obtain rfl := hactive name hpresent
    rcases hfresh.here with hsame | ⟨-, hnew⟩
    · rw [hsame] at hpresent
      exact (h.loadable .active nofun hpresent).of_eq hsame hpayload
    · refine ⟨request, release, hrelease, hroot, haccepted, hnew, fun which => ?_⟩
      obtain ⟨content, hfile, hlength, hhash⟩ := hverified which
      refine ⟨content, ?_, hlength, hhash⟩
      rw [Volume.fileAt_eq_some_iff] at hfile ⊢
      exact (hpayload which).trans hfile
  · intro content hcontent
    rw [hother .retiring nofun] at hcontent
    cases hcontent
  · intro name hname hpresent
    exact absurd (hactive name hpresent) hname

/-- A file that is removed; a payload only where no record needs it. -/
theorem Orderly.remove (h : store.Orderly root v) (hupdate : Updates v p none w)
    (hp : ∀ which, p = payloadPath root which → Unclaimed root v) : store.Orderly root w := by
  have hkept : ∀ {q}, w.nodeAt q ≠ none → w.nodeAt q = v.nodeAt q := by
    intro q hpresent
    rw [hupdate q] at hpresent ⊢
    split_ifs at hpresent ⊢ with hq
    · exact absurd rfl hpresent
    · rfl
  have hpresent : ∀ {q}, w.nodeAt q ≠ none → v.nodeAt q ≠ none := fun hq => hkept hq ▸ hq
  refine ⟨fun file hdirectory => ?_, fun which hdirectory => ?_, ?_, ?_, ?_, ?_⟩
  · exact h.files file ((hkept (by rw [hdirectory]; exact nofun)).symm.trans hdirectory)
  · exact h.parts which ((hkept (by rw [hdirectory]; exact nofun)).symm.trans hdirectory)
  · exact fun name other hname hother => h.exclusive name other (hpresent hname) (hpresent hother)
  · intro name hname hrecord
    refine (h.loadable name hname (hpresent hrecord)).of_eq (hkept hrecord) fun which => ?_
    by_cases hpath : payloadPath root which = p
    · have hnone := hp which hpath.symm
      cases name with
      | active => exact absurd hnone.1 (hpresent hrecord)
      | committed => exact absurd hnone.2 (hpresent hrecord)
      | retiring => exact absurd rfl hname
    · rw [hupdate, if_neg hpath]
  · intro content hcontent
    exact h.retiring content ((hkept (by rw [hcontent]; exact nofun)).symm.trans hcontent)
  · exact fun name hname hrecord => h.fixed name hname (hpresent hrecord)

/-- A record that is renamed, where no other is. -/
theorem Orderly.rename_record {name name' : RecordName} (h : store.Orderly root v)
    (hfixed : root = kUpdateTransactionRoot)
    (hmoves : Moves v (recordPath root name) (recordPath root name') content w)
    (hsource : v.fileAt (recordPath root name) = some content) (hne : name ≠ name')
    (hname : name ≠ .retiring) (hlength : content.length = kPersistedUpdateRequestStateBytes) :
    store.Orderly root w := by
  rw [Volume.fileAt_eq_some_iff] at hsource
  have hpresent : v.nodeAt (recordPath root name) ≠ none := by
    rw [hsource]
    exact nofun
  have hrecords : recordPath root name' ≠ recordPath root name :=
    filePath_ne (by simpa using Ne.symm hne)
  have hnew : w.nodeAt (recordPath root name') = some (.file content) := by
    rw [hmoves, if_neg hrecords, if_pos rfl]
  have honly : ∀ other, w.nodeAt (recordPath root other) ≠ none → other = name' := by
    intro other hother
    by_contra hne'
    rw [hmoves] at hother
    split_ifs at hother with hsame hsame'
    · exact hother rfl
    · exact hne' (StoreFile.record.inj (fileName_injective (joined_inj.mp hsame')))
    · exact hsame (by rw [h.exclusive name other hpresent hother])
  have helse : ∀ q, q ≠ recordPath root name → q ≠ recordPath root name' →
      w.nodeAt q = v.nodeAt q := by
    intro q hq hq'
    rw [hmoves, if_neg hq, if_neg hq']
  have hpayload : ∀ which, w.nodeAt (payloadPath root which) = v.nodeAt (payloadPath root which) :=
    fun which => helse _ (filePath_ne (by simp)) (filePath_ne (by simp))
  refine ⟨fun file => ?_, fun which => ?_, ?_, ?_, ?_, ?_⟩
  · rw [hmoves]
    split_ifs
    · exact nofun
    · exact nofun
    · exact h.files file
  · rw [helse _ partOf_ne_filePath partOf_ne_filePath]
    exact h.parts which
  · exact fun one other hone hother => (honly one hone).trans (honly other hother).symm
  · intro other _ hother
    obtain rfl := honly other hother
    exact (h.loadable name hname hpresent).of_eq (hnew.trans hsource.symm) hpayload
  · intro content' hcontent'
    obtain rfl := honly .retiring (by rw [hcontent']; exact nofun)
    rw [hnew] at hcontent'
    cases hcontent'
    exact hlength
  · exact fun _ _ _ => hfixed

/-! ## The calls -/

section Calls

variable {allow : Fault → Prop} {d : Volume}

/-- While `Save` writes payloads: up to the `count`-th they are verified, and no
record is in its way. -/
structure SavingPayloads (store : UpdateTransactionRequestStore) (root : Path)
    (release : ValidatedReleaseDownload) (count : Nat) (v : Volume) : Prop where
  orderly : store.Orderly root v
  committed : v.nodeAt (recordPath root .committed) = none
  retiring : v.nodeAt (recordPath root .retiring) = none
  written : ∀ k which, k < count → Payload.all[k]? = some which →
    joins root which.fileName = true ∧
      store.Verified v (payloadPath root which) (release.payload which).length
        (store.sha256 (release.payload which))

theorem Verified.of_eq {path : Path} {size : Nat} {hash : Digest}
    (h : store.Verified v path size hash) (hnode : w.nodeAt path = v.nodeAt path) :
    store.Verified w path size hash := by
  obtain ⟨content, hfile, hlength, hhash⟩ := h
  refine ⟨content, ?_, hlength, hhash⟩
  rw [Volume.fileAt_eq_some_iff] at hfile ⊢
  exact hnode.trans hfile

/-- A payload that was verified stays so through fresh writes. -/
theorem Verified.fresh {other : Payload} {size : Nat} {hash : Digest}
    (h : store.Verified v (payloadPath root other) size hash)
    (hfresh : Fresh root (.payload which) content v w) :
    store.Verified w (payloadPath root other) size hash := by
  refine h.of_eq ?_
  by_cases hother : other = which
  · subst hother
    rcases hfresh.here with hsame | ⟨hnone, -⟩
    · exact hsame
    · obtain ⟨content', hfile, -⟩ := h
      rw [Volume.fileAt_eq_some_iff, hnone] at hfile
      cases hfile
  · exact hfresh.other_eq fun heq => hother (StoreFile.payload.inj heq)

theorem keeps_savePayload_orderly {release : ValidatedReleaseDownload} {count : Nat}
    (hwhich : Payload.all[count]? = some which) (h : SavingPayloads store root release count d) :
    keeps allow (store.Orderly root) anyError (store.savePayload root release which)
      (fun _ _ => SavingPayloads store root release (count + 1)) () d := by
  refine keeps_bind (keeps_check (fun _ => ⟨h.orderly, trivial⟩) fun hjoins => ?_)
  refine keeps_mono (keeps_writeFreshVerified (.payload which) (release.payload which)
    (FrameRel.refl d) (Q := fun _ _ =>
      SavingPayloads store root release (count + 1)) fun d' hfresh hverified => ?_)
    (fun d' hfresh => h.orderly.fresh_payload hfresh) (fun _ h => h) fun _ _ _ h => h
  refine ⟨h.orderly.fresh_payload hfresh, (hfresh.other_eq (by simp)).trans h.committed,
    (hfresh.other_eq (by simp)).trans h.retiring, fun k other hk hother => ?_⟩
  by_cases hlast : k = count
  · subst hlast
    obtain rfl : which = other := Option.some.inj (hwhich.symm.trans hother)
    exact ⟨hjoins, hverified⟩
  · obtain ⟨hjoined, hwritten⟩ := h.written k other (by omega) hother
    exact ⟨hjoined, hwritten.fresh hfresh⟩

theorem orderly_save {request : AuthenticatedUpdateRequest}
    (hroot : request.transactionRoot = root) (hd : store.Orderly root d) :
    keeps allow (store.Orderly root) anyError (store.save request)
      (fun _ _ => store.Orderly root) () d := by
  subst hroot
  refine keeps_bind (keeps_check (fun _ => ⟨hd, trivial⟩) fun hvalid => ?_)
  refine keeps_bind (keeps_check (fun _ => ⟨hd, trivial⟩) fun _ => ?_)
  cases hrelease : request.release with
  | none => exact keeps_throw hd trivial
  | some release =>
  refine keeps_bind (keeps_check (fun _ => ⟨hd, trivial⟩) fun hcommitted => ?_)
  refine keeps_bind (keeps_check (fun _ => ⟨hd, trivial⟩) fun hretiring => ?_)
  refine keeps_bind (keeps_statOr hd ?_)
  refine keeps_bind (keeps_statOr hd ?_)
  refine keeps_bind (keeps_check (fun _ => ⟨hd, trivial⟩) fun hmissing => ?_)
  rw [statOf_type_eq_missing, statOf_type_eq_missing] at hmissing
  refine keeps_bind (keeps_forIndexed
    (fun k _ => SavingPayloads store request.transactionRoot release k) ?_
    ⟨hd, hmissing.1, hmissing.2, fun k _ hk => absurd hk (Nat.not_lt_zero k)⟩ ?_)
  · intro k which _ d' hwhich hsaving
    rw [Nat.zero_add] at hsaving ⊢
    exact keeps_savePayload_orderly hwhich hsaving
  intro _ d₁ hsaving
  rw [Nat.zero_add] at hsaving
  have hwritten := Payload.of_position hsaving.written
  refine keeps_bind (keeps_check (fun _ => ⟨hsaving.orderly, trivial⟩) fun hactive => ?_)
  have haccepted : Accepted request := by
    refine ⟨hvalid, fun name => ?_, fun which => (hwritten which).1⟩
    cases name with
    | active => exact hactive
    | committed => exact hcommitted
    | retiring => exact hretiring
  have horderly : ∀ {d'}, Fresh request.transactionRoot (.record .active)
      (store.stateOf request release).encode d₁ d' → store.Orderly request.transactionRoot d' :=
    fun hfresh => hsaving.orderly.fresh_record hrelease rfl haccepted hsaving.committed
      hsaving.retiring (fun which => (hwritten which).2) hfresh
  exact keeps_mono (keeps_writeFreshVerified (.record .active) _ (FrameRel.refl d₁)
    (Q := fun _ _ => store.Orderly request.transactionRoot) fun d' hfresh _ => horderly hfresh)
    (fun d' => horderly) (fun _ h => h) fun _ _ _ h => h

/-- A record and its payloads at once are out of the way. -/
theorem orderly_removePayloads (hd : store.Orderly root d) (hnone : Unclaimed root d)
    {Q : Unit → Unit → Volume → Prop}
    (h : ∀ d', store.Orderly root d' → Q () () d') :
    keeps allow (store.Orderly root) anyError (removePayloads root) Q () d := by
  have hremoved : ∀ {v w p}, (∀ name, p ≠ recordPath root name) →
      store.Orderly root v ∧ Unclaimed root v → Updates v p none w →
      store.Orderly root w ∧ Unclaimed root w := by
    rintro v w p hp ⟨hv, hclaim⟩ hupdate
    refine ⟨hv.remove hupdate fun _ _ => hclaim, ?_, ?_⟩
    · rw [hupdate, if_neg (Ne.symm (hp .active))]
      exact hclaim.1
    · rw [hupdate, if_neg (Ne.symm (hp .committed))]
      exact hclaim.2
  refine keeps_mono (keeps_forIndexed (I := store.Orderly root)
    (fun _ _ v => store.Orderly root v ∧ Unclaimed root v)
    ?_ ⟨hd, hnone⟩ fun _ d' hd' => hd'.1) (fun _ h => h) (fun _ h => h) fun _ _ d' => h d'
  intro _ which _ v _ hv
  refine keeps_bind (keeps_check (fun _ => ⟨hv.1, trivial⟩) fun _ => ?_)
  refine keeps_bind (keeps_removeSynced hv.1 (fun _ => trivial) fun w hupdate => ?_)
  have hw := hremoved (fun name => filePath_ne (by simp)) hv hupdate
  refine ⟨hw.1, keeps_bind (keeps_report hw.1 ?_)⟩
  refine keeps_bind (keeps_check (fun _ => ⟨hw.1, trivial⟩) fun _ => ?_)
  refine keeps_bind (keeps_removeSynced hw.1 (fun _ => trivial) fun x hupdate' => ?_)
  have hx := hremoved (fun name => partOf_ne_filePath) hw hupdate'
  exact ⟨hx.1, keeps_report hx.1 hx⟩

theorem orderly_discard (hd : store.Orderly root d) :
    keeps allow (store.Orderly root) anyError (discard root) (fun _ _ => store.Orderly root) ()
      d := by
  refine keeps_bind (keeps_check (fun _ => ⟨hd, trivial⟩) fun _ => ?_)
  refine keeps_bind (keeps_check (fun _ => ⟨hd, trivial⟩) fun _ => ?_)
  refine keeps_bind (keeps_check (fun _ => ⟨hd, trivial⟩) fun _ => ?_)
  refine keeps_bind (keeps_statOr hd ?_)
  refine keeps_bind (keeps_statOr hd ?_)
  refine keeps_bind (keeps_check (fun _ => ⟨hd, trivial⟩) fun hmissing => ?_)
  rw [statOf_type_eq_missing, statOf_type_eq_missing] at hmissing
  refine keeps_bind (keeps_check (fun _ => ⟨hd, trivial⟩) fun _ => ?_)
  refine keeps_bind (keeps_removeSynced hd (fun _ => trivial) fun d' hupdate => ?_)
  have hd' : store.Orderly root d' :=
    hd.remove hupdate fun which heq => absurd heq (filePath_ne (by simp))
  have hnone : Unclaimed root d' := by
    refine ⟨by rw [hupdate, if_pos rfl], ?_⟩
    rw [hupdate, if_neg (filePath_ne (by simp))]
    exact hmissing.1
  refine ⟨hd', keeps_bind (keeps_report hd' ?_)⟩
  exact orderly_removePayloads hd' hnone fun _ h => h

theorem orderly_finishRetiring (hd : store.Orderly root d) (hnone : Unclaimed root d) :
    keeps allow (store.Orderly root) anyError (finishRetiring root)
      (fun _ _ => store.Orderly root) () d := by
  refine keeps_bind (orderly_removePayloads hd hnone fun d' hd' => ?_)
  refine keeps_bind (keeps_removeSynced hd' (fun _ => trivial) fun d'' hupdate => ?_)
  have hd'' : store.Orderly root d'' :=
    hd'.remove hupdate fun which heq => absurd heq (filePath_ne (by simp))
  exact ⟨hd'', keeps_report hd'' hd''⟩

/-- A file with the size of a record. -/
theorem isRecord_statOf {node : Option Node} (h : isRecord (statOf node)) :
    ∃ content, node = some (.file content) ∧
      content.length = kPersistedUpdateRequestStateBytes := by
  obtain ⟨content, rfl⟩ := statOf_type_eq_regularFile.mp h.1
  exact ⟨content, rfl, h.2⟩

theorem orderly_discardCommitted (hd : store.Orderly root d) :
    keeps allow (store.Orderly root) anyError (discardCommitted root)
      (fun _ _ => store.Orderly root) () d := by
  refine keeps_bind (keeps_check (fun _ => ⟨hd, trivial⟩) fun _ => ?_)
  refine keeps_bind (keeps_check (fun _ => ⟨hd, trivial⟩) fun _ => ?_)
  refine keeps_bind (keeps_check (fun _ => ⟨hd, trivial⟩) fun _ => ?_)
  refine keeps_bind (keeps_check (fun _ => ⟨hd, trivial⟩) fun _ => ?_)
  refine keeps_bind (keeps_statOr hd ?_)
  refine keeps_bind (keeps_statOr hd ?_)
  refine keeps_bind (keeps_statOr hd ?_)
  refine keeps_bind (keeps_check (fun _ => ⟨hd, trivial⟩) fun hactive => ?_)
  rw [statOf_type_eq_missing] at hactive
  split
  · next hretire =>
    obtain ⟨content, hcommitted, hlength⟩ := isRecord_statOf hretire.1
    have hfixed := hd.fixed .committed (by decide) (by rw [hcommitted]; exact nofun)
    refine keeps_bind (keeps_orElse (E := anyError) (keeps_rename hd (fun _ => trivial)
      fun content' d' hsource _ hmoves => ?_) fun _ _ => trivial)
    have hcontent : content' = content := by
      rw [Volume.fileAt_eq_some_iff, hcommitted] at hsource
      simpa using hsource.symm
    have hd' : store.Orderly root d' := hd.rename_record hfixed hmoves hsource (by decide)
      (by decide) (hcontent ▸ hlength)
    have hnone : Unclaimed root d' := by
      refine ⟨?_, by rw [hmoves, if_pos rfl]⟩
      rw [hmoves, if_neg (filePath_ne (by simp)), if_neg (filePath_ne (by simp))]
      exact hactive
    refine ⟨hd', keeps_bind (keeps_syncOr hd' ?_)⟩
    refine keeps_bind (keeps_report hd' ?_)
    exact orderly_finishRetiring hd' hnone
  split
  · next hretiring =>
    rw [statOf_type_eq_missing] at hretiring
    refine keeps_bind (keeps_syncOr hd ?_)
    exact orderly_finishRetiring hd ⟨hactive, hretiring.1⟩
  split
  · refine keeps_forIndexed (fun _ _ => store.Orderly root) ?_ hd fun _ _ h => h
    intro _ which _ v _ hv
    refine keeps_bind (keeps_check (fun _ => ⟨hv, trivial⟩) fun _ => ?_)
    refine keeps_bind (keeps_statOr hv ?_)
    refine keeps_bind (keeps_check (fun _ => ⟨hv, trivial⟩) fun _ => ?_)
    refine keeps_bind (keeps_check (fun _ => ⟨hv, trivial⟩) fun _ => ?_)
    refine keeps_bind (keeps_statOr hv ?_)
    exact keeps_check (fun _ => ⟨hv, trivial⟩) fun _ => hv
  · exact keeps_throw hd trivial

theorem orderly_deactivate (hd : store.Orderly root d) :
    keeps allow (store.Orderly root) anyError deactivate (fun _ _ => store.Orderly root) () d := by
  refine keeps_bind (keeps_check (fun _ => ⟨hd, trivial⟩) fun _ => ?_)
  refine keeps_bind (keeps_check (fun _ => ⟨hd, trivial⟩) fun _ => ?_)
  refine keeps_bind (keeps_removeSynced hd (fun _ => trivial) fun d' hupdate => ?_)
  have hd' : store.Orderly root d' := by
    refine hd.remove hupdate fun which heq => ?_
    have hnames : (StoreFile.record .active).fileName = (StoreFile.payload which).fileName := by
      simpa [joined] using congrArg List.getLast? heq
    cases fileName_injective hnames
  exact ⟨hd', keeps_report hd' hd'⟩

theorem orderly_retainCommitted (hd : store.Orderly root d) :
    keeps allow (store.Orderly root) anyError (RequestStore.retainCommitted root)
      (fun _ _ => store.Orderly root) () d := by
  refine keeps_bind (keeps_check (fun _ => ⟨hd, trivial⟩) fun hroot => ?_)
  refine keeps_bind (keeps_check (fun _ => ⟨hd, trivial⟩) fun _ => ?_)
  refine keeps_bind (keeps_check (fun _ => ⟨hd, trivial⟩) fun _ => ?_)
  refine keeps_bind (keeps_check (fun _ => ⟨hd, trivial⟩) fun _ => ?_)
  refine keeps_bind (keeps_statOr hd ?_)
  refine keeps_bind (keeps_statOr hd ?_)
  refine keeps_bind (keeps_statOr hd ?_)
  refine keeps_bind (keeps_check (fun _ => ⟨hd, trivial⟩) fun _ => ?_)
  split
  · refine keeps_bind (keeps_syncOr hd ?_)
    exact keeps_barrierOr hd hd
  refine keeps_bind (keeps_check (fun _ => ⟨hd, trivial⟩) fun hretain => ?_)
  obtain ⟨content, hactive, hlength⟩ := isRecord_statOf hretain.1
  refine keeps_bind (keeps_orElse (E := anyError) (keeps_rename hd (fun _ => trivial)
    fun content' d' hsource _ hmoves => ?_) fun _ _ => trivial)
  have hcontent : content' = content := by
    rw [Volume.fileAt_eq_some_iff, hactive] at hsource
    simpa using hsource.symm
  have hd' : store.Orderly root d' := hd.rename_record hroot.2 hmoves hsource (by decide)
    (by decide) (hcontent ▸ hlength)
  refine ⟨hd', keeps_bind (keeps_syncOr hd' ?_)⟩
  refine keeps_bind (keeps_statOr hd' ?_)
  refine keeps_bind (keeps_statOr hd' ?_)
  refine keeps_bind (keeps_check (fun _ => ⟨hd', trivial⟩) fun _ => ?_)
  exact keeps_barrierOr hd' hd'

end Calls

end UpdateTransactionRequestStore

end BmxUpdate
