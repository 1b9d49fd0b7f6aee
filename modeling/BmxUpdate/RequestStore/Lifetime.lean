import BmxUpdate.RequestStore.Exclusive

/-!
# From `Save` to `DiscardCommitted`

Runs of the store's calls on one transaction root, from a root with nothing in
it.  Every volume they reach is `Orderly`, so an active or committed record is
loaded; since an operation that takes a payload away leaves the records alone
(`PayloadOnly`), no payload goes while one of those records is there; and
`DiscardCommitted` finishes from a committed or a retiring record.
-/

namespace BmxUpdate

open Crash Volumes Wire RequestStore

namespace UpdateTransactionRequestStore

variable {store : UpdateTransactionRequestStore} {root : Path}

/-! ## A payload goes alone -/

/-- An operation that takes a payload away changes no record. -/
def PayloadOnly (root : Path) (v w : Volume) : Prop :=
  ∀ which, v.nodeAt (payloadPath root which) ≠ none →
    w.nodeAt (payloadPath root which) = none →
    ∀ name, w.nodeAt (recordPath root name) = v.nodeAt (recordPath root name)

instance : Std.Refl (PayloadOnly root) := ⟨fun _ _ _ _ _ => rfl⟩

/-- The operation does not come near `p`. -/
def Avoids (fp : Footprint) (p : Path) : Prop := ¬fp.file p ∧ ¬fp.appear p ∧ ¬fp.vanish p

/-- An operation on payloads or on records, but not both. -/
def Separate (root : Path) (fp : Footprint) : Prop :=
  (∀ which, Avoids fp (payloadPath root which)) ∨ ∀ name, Avoids fp (recordPath root name)

/-- The footprint of an operation on one path. -/
def touching (path : Path) : Footprint where
  file := (· = path)
  appear := (· = path)
  vanish := (· = path)

/-- The footprint of a rename. -/
def moving (source destination : Path) : Footprint where
  file := fun p => p = source ∨ p = destination
  appear := fun _ => False
  vanish := fun _ => False

section Stepwise

variable {path : Path} {file : StoreFile} {σ : Type}

theorem separate_touching : Separate root (touching path) := by
  by_cases hpath : ∃ which, payloadPath root which = path
  · obtain ⟨which, rfl⟩ := hpath
    refine Or.inr fun name => ?_
    have hne : recordPath root name ≠ payloadPath root which := filePath_ne (by simp)
    exact ⟨hne, hne, hne⟩
  · refine Or.inl fun which => ?_
    have hne : payloadPath root which ≠ path := fun heq => hpath ⟨which, heq⟩
    exact ⟨hne, hne, hne⟩

theorem separate_moving {destination : Path}
    (h : (∀ which, payloadPath root which ≠ path ∧ payloadPath root which ≠ destination) ∨
      ∀ name, recordPath root name ≠ path ∧ recordPath root name ≠ destination) :
    Separate root (moving path destination) := by
  rcases h with hpayload | hrecord
  · exact Or.inl fun which => ⟨not_or.mpr (hpayload which), id, id⟩
  · exact Or.inr fun name => ⟨not_or.mpr (hrecord name), id, id⟩

theorem payloadOnly_of_within {fp : Footprint} (hfp : Separate root fp) {d v w : Volume}
    (hv : Within fp d v) (hw : Within fp d w) : PayloadOnly root v w := by
  have hkept : ∀ {q}, Avoids fp q → w.nodeAt q = v.nodeAt q := by
    rintro q ⟨hfile, happear, hvanish⟩
    rw [hw.nodeAt_eq hfile happear hvanish, hv.nodeAt_eq hfile happear hvanish]
  intro which hpresent hgone name
  rcases hfp with hpayload | hrecord
  · rw [← hkept (hpayload which)] at hpresent
    exact absurd hgone hpresent
  · exact hkept (hrecord name)

theorem stepwise_createFileFresh :
    Stepwise (PayloadOnly root) (createFileFresh path : FsProc σ Unit) :=
  Stepwise.act_of_preserves (R := Within (touching path)) (preserves_createFileFresh rfl)
    fun _ _ _ => payloadOnly_of_within separate_touching

theorem stepwise_write {content : Content} :
    Stepwise (PayloadOnly root) (write path content : FsProc σ Unit) :=
  Stepwise.act_of_preserves (R := Within (touching path)) (preserves_write rfl content)
    fun _ _ _ => payloadOnly_of_within separate_touching

theorem stepwise_createDirectory :
    Stepwise (PayloadOnly root) (createDirectory path : FsProc σ Unit) :=
  Stepwise.act_of_preserves (R := Within (touching path)) (preserves_createDirectory rfl)
    fun _ _ _ => payloadOnly_of_within separate_touching

theorem stepwise_removeFile :
    Stepwise (PayloadOnly root) (removeFile path : FsProc σ Unit) :=
  Stepwise.act_of_preserves (R := Within (touching path)) (preserves_removeFile rfl)
    fun _ _ _ => payloadOnly_of_within separate_touching

theorem stepwise_rename {destination : Path} {replace : Bool}
    (h : Separate root (moving path destination)) :
    Stepwise (PayloadOnly root) (rename path destination replace : FsProc σ Unit) :=
  Stepwise.act_of_preserves (R := Within (moving path destination))
    (preserves_rename (Or.inl rfl) (Or.inr rfl)) fun _ _ _ => payloadOnly_of_within h

theorem stepwise_barrier : Stepwise (PayloadOnly root) (barrier : FsProc σ Unit) :=
  Stepwise.observe _

theorem stepwise_sync :
    Stepwise (PayloadOnly root) (syncContainingDirectory path : FsProc σ Unit) :=
  stepwise_barrier

theorem stepwise_stat : Stepwise (PayloadOnly root) (stat path : FsProc σ UpdateFileStat) :=
  Stepwise.observe _

theorem stepwise_readFile : Stepwise (PayloadOnly root) (readFile path : FsProc σ Content) :=
  Stepwise.observe _

theorem stepwise_report : Stepwise (PayloadOnly root) report :=
  stepwise_barrier.orElse _

theorem stepwise_look : Stepwise (PayloadOnly root) (look path) :=
  stepwise_stat.orElse _

theorem stepwise_removeSynced : Stepwise (PayloadOnly root) (removeSynced path) :=
  (stepwise_removeFile.orElse _).bind fun _ => stepwise_sync.orElse _

theorem stepwise_verifyFile {size : Nat} {hash : Digest} :
    Stepwise (PayloadOnly root) (store.verifyFile path size hash) := by
  refine (Stepwise.check _ _).bind fun _ => stepwise_look.bind fun _ => ?_
  refine (Stepwise.check _ _).bind fun _ => (Stepwise.check _ _).bind fun _ => ?_
  exact (stepwise_readFile.orElse _).bind fun _ => Stepwise.check _ _

theorem stepwise_withCleanup {step cleanup : FsProc Unit Unit}
    (hstep : Stepwise (PayloadOnly root) step) (hcleanup : Stepwise (PayloadOnly root) cleanup) :
    Stepwise (PayloadOnly root) (withCleanup step cleanup) := by
  refine hstep.attempt.bind fun result => ?_
  cases result with
  | ok _ => exact Stepwise.pure ()
  | error _ => exact hcleanup.attempt.bind fun _ => Stepwise.throw ()

/-- A file is published from its temporary, which is neither payload nor record. -/
theorem stepwise_publishFresh {content : Content} :
    Stepwise (PayloadOnly root) (publishFresh (filePath root file) content) := by
  have hseparate : Separate root (moving (partOf (filePath root file)) (filePath root file)) := by
    refine separate_moving ?_
    cases file with
    | record name =>
        exact Or.inl fun which => ⟨Ne.symm partOf_ne_filePath, filePath_ne (by simp)⟩
    | payload which =>
        exact Or.inr fun name => ⟨Ne.symm partOf_ne_filePath, filePath_ne (by simp)⟩
  refine stepwise_write.bind fun _ => stepwise_barrier.bind fun _ => ?_
  refine stepwise_barrier.bind fun _ => ?_
  exact (stepwise_rename hseparate).bind fun _ => stepwise_sync

theorem stepwise_writeFreshVerified (file : StoreFile) {content : Content} {hash : Digest} :
    Stepwise (PayloadOnly root) (store.writeFreshVerified root file.fileName content hash) := by
  have hparents : Stepwise (PayloadOnly root) (RequestStore.ensureParents (filePath root file)) :=
    Stepwise.forIndexed fun _ _ => stepwise_createDirectory.bind fun _ => stepwise_sync
  have hpublish : Stepwise (PayloadOnly root) (withCleanup
      (publishFresh (filePath root file) content) (removeFile (partOf (filePath root file)))) :=
    stepwise_withCleanup stepwise_publishFresh stepwise_removeFile
  refine stepwise_verifyFile.attempt.bind fun verified => ?_
  rcases verified with failure | _
  · cases failure with
    | notFound =>
        refine (Stepwise.check _ _).bind fun _ => (hparents.orElse _).bind fun _ => ?_
        refine (stepwise_removeFile.orElse _).bind fun _ => ?_
        refine (stepwise_createFileFresh.orElse _).bind fun _ => ?_
        exact (hpublish.orElse _).bind fun _ => stepwise_verifyFile
    | _ => exact Stepwise.throw _
  · exact stepwise_sync.orElse _

theorem stepwise_save {request : AuthenticatedUpdateRequest}
    (hroot : request.transactionRoot = root) :
    Stepwise (PayloadOnly root) (store.save request) := by
  subst hroot
  refine (Stepwise.check _ _).bind fun _ => (Stepwise.check _ _).bind fun _ => ?_
  cases request.release with
  | none => exact Stepwise.throw _
  | some release =>
      refine (Stepwise.check _ _).bind fun _ => (Stepwise.check _ _).bind fun _ => ?_
      refine stepwise_look.bind fun _ => stepwise_look.bind fun _ => ?_
      refine (Stepwise.check _ _).bind fun _ => ?_
      have hpayload : ∀ which : Payload, Stepwise (PayloadOnly request.transactionRoot)
          (store.savePayload request.transactionRoot release which) := fun which =>
        (Stepwise.check _ _).bind fun _ => stepwise_writeFreshVerified (.payload which)
      refine (Stepwise.forIndexed fun _ => hpayload).bind fun _ => ?_
      exact (Stepwise.check _ _).bind fun _ => stepwise_writeFreshVerified (.record .active)

theorem stepwise_removePayloads : Stepwise (PayloadOnly root) (removePayloads root) := by
  refine Stepwise.forIndexed fun _ which => (Stepwise.check _ _).bind fun _ => ?_
  refine stepwise_removeSynced.bind fun _ => stepwise_report.bind fun _ => ?_
  refine (Stepwise.check _ _).bind fun _ => ?_
  exact stepwise_removeSynced.bind fun _ => stepwise_report

theorem stepwise_discard : Stepwise (PayloadOnly root) (discard root) := by
  refine (Stepwise.check _ _).bind fun _ => (Stepwise.check _ _).bind fun _ => ?_
  refine (Stepwise.check _ _).bind fun _ => stepwise_look.bind fun _ => ?_
  refine stepwise_look.bind fun _ => (Stepwise.check _ _).bind fun _ => ?_
  refine (Stepwise.check _ _).bind fun _ => stepwise_removeSynced.bind fun _ => ?_
  exact stepwise_report.bind fun _ => stepwise_removePayloads

/-- The records change names among themselves. -/
theorem stepwise_renameRecord {name name' : RecordName} :
    Stepwise (PayloadOnly root)
      (rename (recordPath root name) (recordPath root name') false : FsProc Unit Unit) :=
  stepwise_rename (separate_moving (Or.inl fun _ =>
    ⟨filePath_ne (by simp), filePath_ne (by simp)⟩))

theorem stepwise_finishRetiring : Stepwise (PayloadOnly root) (finishRetiring root) :=
  stepwise_removePayloads.bind fun _ => stepwise_removeSynced.bind fun _ => stepwise_report

theorem stepwise_payloadsGone : Stepwise (PayloadOnly root) (payloadsGone root) := by
  refine Stepwise.forIndexed fun _ which => (Stepwise.check _ _).bind fun _ => ?_
  refine (stepwise_stat.orElse _).bind fun _ => (Stepwise.check _ _).bind fun _ => ?_
  refine (Stepwise.check _ _).bind fun _ => (stepwise_stat.orElse _).bind fun _ => ?_
  exact Stepwise.check _ _

theorem stepwise_discardCommitted : Stepwise (PayloadOnly root) (discardCommitted root) := by
  refine (Stepwise.check _ _).bind fun _ => (Stepwise.check _ _).bind fun _ => ?_
  refine (Stepwise.check _ _).bind fun _ => (Stepwise.check _ _).bind fun _ => ?_
  refine stepwise_look.bind fun _ => stepwise_look.bind fun _ => stepwise_look.bind fun _ => ?_
  refine (Stepwise.check _ _).bind fun _ => ?_
  split
  · refine (stepwise_renameRecord.orElse _).bind fun _ => (stepwise_sync.orElse _).bind fun _ => ?_
    exact stepwise_report.bind fun _ => stepwise_finishRetiring
  split
  · exact (stepwise_sync.orElse _).bind fun _ => stepwise_finishRetiring
  split
  · exact stepwise_payloadsGone
  · exact Stepwise.throw _

theorem stepwise_deactivate : Stepwise (PayloadOnly root) deactivate := by
  refine (Stepwise.check _ _).bind fun _ => (Stepwise.check _ _).bind fun _ => ?_
  exact stepwise_removeSynced.bind fun _ => stepwise_report

theorem stepwise_retainCommitted :
    Stepwise (PayloadOnly root) (RequestStore.retainCommitted root) := by
  refine (Stepwise.check _ _).bind fun _ => (Stepwise.check _ _).bind fun _ => ?_
  refine (Stepwise.check _ _).bind fun _ => (Stepwise.check _ _).bind fun _ => ?_
  refine (stepwise_stat.orElse _).bind fun _ => (stepwise_stat.orElse _).bind fun _ => ?_
  refine (stepwise_stat.orElse _).bind fun _ => (Stepwise.check _ _).bind fun _ => ?_
  split
  · exact (stepwise_sync.orElse _).bind fun _ => stepwise_barrier.orElse _
  refine (Stepwise.check _ _).bind fun _ => (stepwise_renameRecord.orElse _).bind fun _ => ?_
  refine (stepwise_sync.orElse _).bind fun _ => (stepwise_stat.orElse _).bind fun _ => ?_
  refine (stepwise_stat.orElse _).bind fun _ => (Stepwise.check _ _).bind fun _ => ?_
  exact stepwise_barrier.orElse _

end Stepwise

/-! ## Loading what is there -/

/-- The record is loaded, with payloads of the sizes and digests it holds. -/
def Loadable (store : UpdateTransactionRequestStore) (root : Path) (v : Volume)
    (name : RecordName) : Prop :=
  ∃ request release, request.release = some release ∧ request.transactionRoot = root ∧
    Accepted request ∧ ∀ buffers, Fits release buffers → ∃ content : Payload → Content,
      (∀ which, (content which).length = (release.payload which).length ∧
        store.sha256 (content which) = store.sha256 (release.payload which)) ∧
      (store.loadNamed root name request.runningBoard buffers () ⟨v, []⟩).returned =
        some (.ok (loadedRequest root (store.stateOf request release) (content .installed)
          (content .gitHub) (content .manifest) (content .signature)))

theorem Recorded.loadable {v : Volume} {name : RecordName} (hname : name ≠ .retiring)
    (h : store.Recorded root v name) : store.Loadable root v name := by
  obtain ⟨request, release, hrelease, rfl, haccepted, hrecord, hverified⟩ := h
  refine ⟨request, release, hrelease, rfl, haccepted, fun buffers hfits => ?_⟩
  choose content hfile hsize using hverified
  refine ⟨content, hsize, ?_⟩
  exact loadNamed_record hname hrelease haccepted.valid haccepted.joined hfits hrecord
    fun which => ⟨hfile which, hsize which⟩

/-! ## Discarding to the end -/

/-- Nothing of the store is left below the root. -/
structure Emptied (root : Path) (v : Volume) : Prop where
  file : ∀ file, v.nodeAt (filePath root file) = none
  part : ∀ which, v.nodeAt (partOf (payloadPath root which)) = none

/-- While payloads are removed: the first `count` are gone, and the records are
where they were. -/
structure Removing (root : Path) (d : Volume) (count : Nat) (v : Volume) : Prop where
  kept : ∀ p, v.nodeAt p = d.nodeAt p ∨ v.nodeAt p = none
  record : ∀ name, v.nodeAt (recordPath root name) = d.nodeAt (recordPath root name)
  gone : ∀ k which, k < count → Payload.all[k]? = some which →
    v.nodeAt (payloadPath root which) = none ∧ v.nodeAt (partOf (payloadPath root which)) = none

/-- The names of a payload and of its temporary fit. -/
def PayloadsFit (root : Path) : Prop :=
  ∀ which : Payload, joins root which.fileName = true ∧ partFits root which.fileName = true

section Discard

variable {d : Volume}

theorem Removing.remove {count : Nat} {v w : Volume} {p : Path} (h : Removing root d count v)
    (hupdate : Updates v p none w) (hp : ∀ name, recordPath root name ≠ p) :
    Removing root d count w := by
  have hnone : ∀ {q}, v.nodeAt q = none → w.nodeAt q = none := by
    intro q hq
    rw [hupdate]
    split
    · rfl
    · exact hq
  refine ⟨fun q => ?_, fun name => ?_, fun k which hk hwhich => ?_⟩
  · rw [hupdate]
    split
    · exact Or.inr rfl
    · exact h.kept q
  · rw [hupdate, if_neg (hp name)]
    exact h.record name
  · obtain ⟨hpayload, hpart⟩ := h.gone k which hk hwhich
    exact ⟨hnone hpayload, hnone hpart⟩

/-- What may be removed stays removable. -/
theorem Removing.not_directory {count : Nat} {v : Volume} {p : Path}
    (h : Removing root d count v) (hp : d.nodeAt p ≠ some .directory) :
    v.nodeAt p ≠ some .directory := by
  rcases h.kept p with hsame | hnone
  · rw [hsame]
    exact hp
  · rw [hnone]
    exact nofun

theorem keeps_removePayload {count : Nat} {which : Payload} {v : Volume}
    (hfit : PayloadsFit root) (hfiles : ∀ which, d.nodeAt (payloadPath root which) ≠ some .directory)
    (hparts : ∀ which, d.nodeAt (partOf (payloadPath root which)) ≠ some .directory)
    (hwhich : Payload.all[count]? = some which) (h : Removing root d count v) :
    keeps noFault (fun _ => True) noError (removePayload root which)
      (fun _ _ => Removing root d (count + 1)) () v := by
  refine keeps_bind (keeps_check (fun hbad => absurd (hfit which).1 hbad) fun _ => ?_)
  refine keeps_bind (keeps_removeSynced trivial
    (fun hdirectory => absurd hdirectory (h.not_directory (hfiles which))) fun v₁ hupdate₁ => ?_)
  have h₁ := h.remove hupdate₁ fun name => filePath_ne (by simp)
  refine ⟨trivial, keeps_bind (keeps_report trivial ?_)⟩
  refine keeps_bind (keeps_check (fun hbad => absurd (hfit which).2 hbad) fun _ => ?_)
  refine keeps_bind (keeps_removeSynced trivial
    (fun hdirectory => absurd hdirectory (h₁.not_directory (hparts which))) fun v₂ hupdate₂ => ?_)
  have h₂ := h₁.remove hupdate₂ fun name => Ne.symm partOf_ne_filePath
  refine ⟨trivial, keeps_report trivial ⟨h₂.kept, h₂.record, fun k other hk hother => ?_⟩⟩
  by_cases hlast : k = count
  · subst hlast
    obtain rfl : which = other := Option.some.inj (hwhich.symm.trans hother)
    refine ⟨?_, by rw [hupdate₂, if_pos rfl]⟩
    rw [hupdate₂, if_neg (Ne.symm partOf_ne_filePath), hupdate₁, if_pos rfl]
  · exact h₂.gone k other (by omega) hother

/-- All payloads and their temporaries go. -/
theorem keeps_removePayloads (hfit : PayloadsFit root)
    (hfiles : ∀ which, d.nodeAt (payloadPath root which) ≠ some .directory)
    (hparts : ∀ which, d.nodeAt (partOf (payloadPath root which)) ≠ some .directory)
    {Q : Unit → Unit → Volume → Prop}
    (h : ∀ v, (∀ which, v.nodeAt (payloadPath root which) = none ∧
        v.nodeAt (partOf (payloadPath root which)) = none) →
      (∀ name, v.nodeAt (recordPath root name) = d.nodeAt (recordPath root name)) → Q () () v) :
    keeps noFault (fun _ => True) noError (removePayloads root) Q () d := by
  refine keeps_forIndexed (fun k _ => Removing root d k) ?_
    ⟨fun _ => Or.inl rfl, fun _ => rfl, fun k _ hk => absurd hk (Nat.not_lt_zero k)⟩ ?_
  · intro k which _ v hwhich hremoving
    rw [Nat.zero_add] at hremoving ⊢
    exact keeps_removePayload hfit hfiles hparts hwhich hremoving
  · intro _ v hremoving
    rw [Nat.zero_add] at hremoving
    exact h v (Payload.of_position hremoving.gone) hremoving.record

/-- `DiscardCommitted` with the retiring record in place. -/
theorem keeps_finishRetiring (hfit : PayloadsFit root) (hd : store.Orderly root d)
    (hactive : d.nodeAt (recordPath root .active) = none)
    (hcommitted : d.nodeAt (recordPath root .committed) = none) :
    keeps noFault (fun _ => True) noError (finishRetiring root)
      (fun _ _ => Emptied root) () d := by
  refine keeps_bind (keeps_removePayloads hfit (fun which => hd.files (.payload which)) hd.parts
    fun v hgone hrecord => ?_)
  have hretiring : v.nodeAt (recordPath root .retiring) ≠ some .directory :=
    hrecord .retiring ▸ hd.files (.record .retiring)
  refine keeps_bind (keeps_removeSynced trivial (fun hbad => absurd hbad hretiring)
    fun w hupdate => ?_)
  refine ⟨trivial, keeps_report trivial ⟨fun file => ?_, fun which => ?_⟩⟩
  · rw [hupdate]
    split_ifs with hfile
    · rfl
    · cases file with
      | payload which => exact (hgone which).1
      | record name =>
          cases name with
          | active => exact (hrecord .active).trans hactive
          | committed => exact (hrecord .committed).trans hcommitted
          | retiring => exact absurd rfl hfile
  · rw [hupdate, if_neg partOf_ne_filePath]
    exact (hgone which).2

theorem payloadsFit_updateTransactionRoot : PayloadsFit kUpdateTransactionRoot := by
  intro which
  cases which <;> decide

theorem joins_updateTransactionRoot (name : RecordName) :
    joins kUpdateTransactionRoot name.fileName = true := by
  cases name <;> decide

/-- A record may be renamed to another name of its root. -/
theorem receives_record {name name' : RecordName} (hne : name ≠ name')
    (hpresent : d.nodeAt (recordPath root name) ≠ none)
    (hmissing : d.nodeAt (recordPath root name') = none) :
    Receives d (recordPath root name) (recordPath root name') false := by
  have hparent := d.nodeAt_dropLast joined_ne_nil hpresent
  rw [dropLast_joined] at hparent
  refine ⟨filePath_ne (by simpa using hne), ?_, ?_, fun hbad => absurd hmissing hbad⟩
  · rw [dropLast_joined]
    exact hparent
  · rw [hmissing]
    exact nofun

/-- No other record is beside one. -/
theorem Orderly.eq_none {name other : RecordName} (hd : store.Orderly root d)
    (hpresent : d.nodeAt (recordPath root name) ≠ none) (hne : name ≠ other) :
    d.nodeAt (recordPath root other) = none := by
  by_contra hother
  exact hne (hd.exclusive name other hpresent hother)

/-- A record is a file of its size. -/
theorem Orderly.isRecord {name : RecordName} (hd : store.Orderly root d)
    (hpresent : d.nodeAt (recordPath root name) ≠ none) :
    isRecord (statOf (d.nodeAt (recordPath root name))) := by
  by_cases hname : name = .retiring
  · subst hname
    cases hnode : d.nodeAt (recordPath root .retiring) with
    | none => exact absurd hnode hpresent
    | some node =>
        cases node with
        | file content => exact ⟨rfl, hd.retiring content hnode⟩
        | directory => exact absurd hnode (hd.files (.record .retiring))
  · obtain ⟨request, release, -, -, -, hnode, -⟩ := hd.loadable name hname hpresent
    rw [hnode]
    exact ⟨rfl, RequestState.length_encode _⟩

/-- An uninterrupted `DiscardCommitted` of a committed or a retiring record. -/
theorem keeps_discardCommitted (hd : store.Orderly root d)
    (hrecord : d.nodeAt (recordPath root .committed) ≠ none ∨
      d.nodeAt (recordPath root .retiring) ≠ none) :
    keeps noFault (fun _ => True) noError (discardCommitted root) (fun _ _ => Emptied root) ()
      d := by
  obtain rfl : root = kUpdateTransactionRoot :=
    hrecord.elim (hd.fixed .committed nofun) (hd.fixed .retiring nofun)
  have hactive : d.nodeAt (recordPath kUpdateTransactionRoot .active) = none :=
    hrecord.elim (fun hcommitted => hd.eq_none hcommitted nofun)
      fun hretiring => hd.eq_none hretiring nofun
  have hroot : boundedRoot kUpdateTransactionRoot = true := by decide
  have hjoins := joins_updateTransactionRoot
  refine keeps_bind (keeps_check (fun hbad => absurd hroot hbad) fun _ => ?_)
  refine keeps_bind (keeps_check (fun hbad => absurd (hjoins .active) hbad) fun _ => ?_)
  refine keeps_bind (keeps_check (fun hbad => absurd (hjoins .committed) hbad) fun _ => ?_)
  refine keeps_bind (keeps_check (fun hbad => absurd (hjoins .retiring) hbad) fun _ => ?_)
  refine keeps_bind (keeps_look trivial (keeps_bind (keeps_look trivial ?_)))
  refine keeps_bind (keeps_look trivial ?_)
  refine keeps_bind (keeps_check (fun hbad =>
    absurd (statOf_type_eq_missing.mpr hactive) hbad) fun _ => ?_)
  by_cases hcommitted : d.nodeAt (recordPath kUpdateTransactionRoot .committed) = none
  · have hpresent := hrecord.resolve_left (absurd hcommitted)
    rw [if_neg fun hboth => hpresent (statOf_type_eq_missing.mp hboth.2),
      if_pos ⟨statOf_type_eq_missing.mpr hcommitted, hd.isRecord hpresent⟩]
    refine keeps_bind (keeps_syncOr trivial ?_)
    exact keeps_finishRetiring payloadsFit_updateTransactionRoot hd hactive hcommitted
  have hretiring : d.nodeAt (recordPath kUpdateTransactionRoot .retiring) = none :=
    hd.eq_none hcommitted nofun
  obtain ⟨source, hsource, hlength⟩ := isRecord_statOf (hd.isRecord hcommitted)
  rw [if_pos ⟨hd.isRecord hcommitted, statOf_type_eq_missing.mpr hretiring⟩]
  refine keeps_bind (keeps_orElse (E := noError) (keeps_rename trivial ?_
    fun content v hfile _ hmoves => ?_) fun _ h => h)
  · have hfile := Volume.fileAt_eq_some_iff.mpr hsource
    intro hbad
    exact absurd ⟨by rw [hfile]; rfl, receives_record nofun hcommitted hretiring⟩ hbad
  have hcontent : source = content := by
    rw [Volume.fileAt_eq_some_iff, hsource] at hfile
    simpa using hfile
  have hv : store.Orderly kUpdateTransactionRoot v :=
    hd.rename_record rfl hmoves hfile nofun nofun (hcontent ▸ hlength)
  refine ⟨trivial, keeps_bind (keeps_syncOr trivial (keeps_bind (keeps_report trivial ?_)))⟩
  refine keeps_finishRetiring payloadsFit_updateTransactionRoot hv ?_ ?_
  · rw [hmoves, if_neg (filePath_ne (by simp)), if_neg (filePath_ne (by simp))]
    exact hactive
  · rw [hmoves, if_pos rfl]

end Discard

/-! ## Runs -/

/-- The calls of the store on one transaction root. -/
inductive StoreCall where
  | save (request : AuthenticatedUpdateRequest)
  | retainCommitted
  | discard
  | discardCommitted
  | deactivate

/-- A request that is saved is one for the root. -/
def StoreCall.OnRoot (root : Path) : StoreCall → Prop
  | .save request => request.transactionRoot = root
  | _ => True

/-- A call, whatever its status. -/
def call (store : UpdateTransactionRequestStore) (root : Path) : StoreCall → FsProc Unit Unit
  | .save request => Proc.orElse () (store.save request)
  | .retainCommitted => Proc.orElse () (RequestStore.retainCommitted root)
  | .discard => Proc.orElse () (RequestStore.discard root)
  | .discardCommitted => Proc.orElse () (RequestStore.discardCommitted root)
  | .deactivate => Proc.orElse () RequestStore.deactivate

/-- Nothing is in the root. -/
def Vacant (root : Path) (v : Volume) : Prop := ∀ name, v.nodeAt (joined root name) = none

/-- What calls on a root can make of a volume, each under its own faults. -/
inductive Reaches (store : UpdateTransactionRequestStore) (root : Path) (u : Volume) :
    Volume → Prop
  | refl : Reaches store root u u
  | step {v : Volume} (c : StoreCall) (faults : List Fault) (h : Reaches store root u v)
      (hroot : c.OnRoot root) : Reaches store root u (store.call root c () ⟨v, faults⟩).disk

section Runs

variable {u v : Volume} {c : StoreCall}

theorem Vacant.orderly (hu : Vacant root u) : store.Orderly root u := by
  have hrecord : ∀ name, u.nodeAt (recordPath root name) = none := fun name => hu _
  refine ⟨fun file => ?_, fun which => ?_, ?_, ?_, ?_, ?_⟩
  · rw [hu]
    exact nofun
  · rw [partOf_joined, hu]
    exact nofun
  · exact fun name _ hpresent _ => absurd (hrecord name) hpresent
  · exact fun name _ hpresent => absurd (hrecord name) hpresent
  · intro content hcontent
    rw [hrecord] at hcontent
    cases hcontent
  · exact fun name _ hpresent => absurd (hrecord name) hpresent

theorem Orderly.call (hroot : c.OnRoot root) (hv : store.Orderly root v) (faults : List Fault) :
    store.Orderly root (store.call root c () ⟨v, faults⟩).disk := by
  have hkeeps : keeps anyFault (store.Orderly root) anyError (store.call root c)
      (fun _ _ => store.Orderly root) () v := by
    cases c with
    | save request => exact keeps_orElse (orderly_save hroot hv) fun _ _ => trivial
    | retainCommitted => exact keeps_orElse (orderly_retainCommitted hv) fun _ _ => trivial
    | discard => exact keeps_orElse (orderly_discard hv) fun _ _ => trivial
    | discardCommitted => exact keeps_orElse (orderly_discardCommitted hv) fun _ _ => trivial
    | deactivate => exact keeps_orElse (orderly_deactivate hv) fun _ _ => trivial
  exact keeps_disk hkeeps fun _ _ => trivial

/-- Every volume a run reaches is orderly. -/
theorem Reaches.orderly (hu : Vacant root u) (h : Reaches store root u v) :
    store.Orderly root v := by
  induction h with
  | refl => exact hu.orderly
  | step c faults _ hroot ih => exact ih.call hroot faults

theorem stepwise_call (hroot : c.OnRoot root) :
    Stepwise (PayloadOnly root) (store.call root c) := by
  cases c with
  | save request => exact (stepwise_save hroot).orElse ()
  | retainCommitted => exact stepwise_retainCommitted.orElse ()
  | discard => exact stepwise_discard.orElse ()
  | discardCommitted => exact stepwise_discardCommitted.orElse ()
  | deactivate => exact stepwise_deactivate.orElse ()

/-- An operation takes a payload away only where no record needs it. -/
theorem Orderly.unclaimed_of_removed (hv : store.Orderly root v) (hroot : c.OnRoot root)
    (faults : List Fault) (k : Nat) {which : Payload}
    (hpresent : (store.call root c () ⟨v, faults ++ [.cut 0]⟩).disk.nodeAt
      (payloadPath root which) ≠ none)
    (hgone : (store.call root c () ⟨v, faults ++ [.cut k]⟩).disk.nodeAt
      (payloadPath root which) = none) :
    Unclaimed root (store.call root c () ⟨v, faults ++ [.cut 0]⟩).disk := by
  have hafter : store.Orderly root (store.call root c () ⟨v, faults ++ [.cut k]⟩).disk :=
    hv.call hroot _
  have hstepwise : Stepwise (PayloadOnly root) (store.call root c) := stepwise_call hroot
  have hrecord := hstepwise.disk k () v faults which hpresent hgone
  have hnone : ∀ name, name ≠ .retiring →
      (store.call root c () ⟨v, faults ++ [.cut 0]⟩).disk.nodeAt (recordPath root name) = none := by
    intro name hname
    rw [← hrecord name]
    by_contra hclaimed
    exact (hafter.loadable name hname hclaimed).payload_ne_none which hgone
  exact ⟨hnone .active nofun, hnone .committed nofun⟩

/-- In every volume that calls on a root with nothing in it reach, whatever
their faults: at most one record is there; an active or a committed one is
loaded; no operation of a further call takes a payload away while one of these
is there; and `DiscardCommitted` of a committed or a retiring record returns
with nothing left. -/
theorem records_are_exclusive (hu : Vacant root u) (hv : Reaches store root u v) :
    (∀ name other, v.nodeAt (recordPath root name) ≠ none →
      v.nodeAt (recordPath root other) ≠ none → name = other) ∧
    (∀ name, name ≠ .retiring → v.nodeAt (recordPath root name) ≠ none →
      store.Loadable root v name) ∧
    (∀ c faults k which, c.OnRoot root →
      (store.call root c () ⟨v, faults ++ [.cut 0]⟩).disk.nodeAt (payloadPath root which) ≠ none →
      (store.call root c () ⟨v, faults ++ [.cut k]⟩).disk.nodeAt (payloadPath root which) = none →
      Unclaimed root (store.call root c () ⟨v, faults ++ [.cut 0]⟩).disk) ∧
    (v.nodeAt (recordPath root .committed) ≠ none ∨ v.nodeAt (recordPath root .retiring) ≠ none →
      (discardCommitted root () ⟨v, []⟩).returned = some (.ok ()) ∧
        Emptied root (discardCommitted root () ⟨v, []⟩).disk) := by
  have hv := hv.orderly hu
  refine ⟨hv.exclusive, fun name hname hpresent => ?_, fun c faults k which hroot => ?_,
    fun hrecord => ?_⟩
  · exact (hv.loadable name hname hpresent).loadable hname
  · exact hv.unclaimed_of_removed hroot faults k
  · obtain ⟨_, s', w, hrun, hemptied⟩ := keeps_uninterrupted (keeps_discardCommitted hv hrecord)
    rw [hrun]
    exact ⟨rfl, hemptied⟩

/-- A small request that was saved and retained is discarded to the end. -/
theorem records_are_exclusive_small :
    let saved := (updaterStore.call kUpdateTransactionRoot (.save smallStoreRequest) ()
      ⟨.empty, []⟩).disk
    let retained := (updaterStore.call kUpdateTransactionRoot .retainCommitted () ⟨saved, []⟩).disk
    retained.nodeAt (recordPath kUpdateTransactionRoot .committed) ≠ none ∧
      Emptied kUpdateTransactionRoot (discardCommitted kUpdateTransactionRoot ()
        ⟨retained, []⟩).disk := by
  intro saved retained
  have hvacant : Vacant kUpdateTransactionRoot .empty := by
    intro name
    simp [Volume.nodeAt, lookupNode, Volume.empty, joined_ne_nil]
  have hreaches : Reaches updaterStore kUpdateTransactionRoot .empty retained :=
    .step .retainCommitted [] (.step (.save smallStoreRequest) [] .refl rfl) trivial
  have hcommitted : retained.nodeAt (recordPath kUpdateTransactionRoot .committed) ≠ none := by
    decide +kernel
  exact ⟨hcommitted,
    ((records_are_exclusive hvacant hreaches).2.2.2 (Or.inl hcommitted)).2⟩

end Runs

end UpdateTransactionRequestStore

end BmxUpdate
