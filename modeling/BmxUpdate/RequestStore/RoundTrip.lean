import BmxUpdate.RequestStore.Steps
import BmxUpdate.Sha256

/-!
# What is saved is loaded

`Save` puts the payloads in place before the record that names them, each
complete or not at all, so a record that has appeared is the one of its request.
`SavesTo` says what any number of calls of `Save` for one request, failing or
cut anywhere, can have made of a volume.  From it: once `Save` has returned, and
whenever the record is there, `Load` returns the request.
-/

namespace BmxUpdate

open Crash Volumes Wire RequestStore

namespace UpdateTransactionRequestStore

variable (store : UpdateTransactionRequestStore) (request : AuthenticatedUpdateRequest)
  (release : ValidatedReleaseDownload)

/-- The content a request gives a file. -/
def wanted : StoreFile → Option Content
  | .record .active => some (store.stateOf request release).encode
  | .record _ => none
  | .payload which => some (release.payload which)

/-- The five files of a request are in place. -/
structure Saved (v : Volume) : Prop where
  payload : ∀ which, v.nodeAt (payloadPath request.transactionRoot which) =
    some (.file (release.payload which))
  record : v.nodeAt (recordPath request.transactionRoot .active) =
    some (.file (store.stateOf request release).encode)

/-- What calls of `Save` make of a volume: a payload appears, and the record
appears once all payloads are in place. -/
structure SavesTo (v w : Volume) : Prop where
  payload : ∀ which,
    w.nodeAt (payloadPath request.transactionRoot which) =
        v.nodeAt (payloadPath request.transactionRoot which) ∨
      w.nodeAt (payloadPath request.transactionRoot which) =
        some (.file (release.payload which))
  record : w.nodeAt (recordPath request.transactionRoot .active) =
      v.nodeAt (recordPath request.transactionRoot .active) ∨
    store.Saved request release w

/-- No file of the volume is taken for one of the request by its size and digest
that is not. -/
def NoCollision (v : Volume) : Prop :=
  ∀ file content expected, store.wanted request release file = some expected →
    v.fileAt (filePath request.transactionRoot file) = some content →
    content.length = expected.length → store.sha256 content = store.sha256 expected →
    content = expected

variable {store request release}

instance : FrameRel (store.SavesTo request release) where
  refl _ := ⟨fun _ => Or.inl rfl, Or.inl rfl⟩
  trans := by
    intro u v w huv hvw
    have hpayload : ∀ which,
        w.nodeAt (payloadPath request.transactionRoot which) =
            u.nodeAt (payloadPath request.transactionRoot which) ∨
          w.nodeAt (payloadPath request.transactionRoot which) =
            some (.file (release.payload which)) := by
      intro which
      rcases hvw.payload which with hsame | hnew
      · rw [hsame]
        exact huv.payload which
      · exact Or.inr hnew
    refine ⟨hpayload, ?_⟩
    rcases hvw.record with hsame | hsaved
    · rcases huv.record with hsame' | hsaved
      · exact Or.inl (hsame.trans hsame')
      · refine Or.inr ⟨fun which => ?_, hsame.trans hsaved.record⟩
        rcases hvw.payload which with hkept | hnew
        · exact hkept.trans (hsaved.payload which)
        · exact hnew
    · exact Or.inr hsaved

/-- A verified file is the file of the request. -/
theorem eq_of_verified {v w : Volume} {file : StoreFile} {expected : Content}
    (hcollision : store.NoCollision request release v)
    (hwanted : store.wanted request release file = some expected)
    (hnode : w.nodeAt (filePath request.transactionRoot file) =
        v.nodeAt (filePath request.transactionRoot file) ∨
      w.nodeAt (filePath request.transactionRoot file) = some (.file expected))
    (hverified : store.Verified w (filePath request.transactionRoot file) expected.length
      (store.sha256 expected)) :
    w.nodeAt (filePath request.transactionRoot file) = some (.file expected) := by
  rcases hnode with hsame | hnew
  · obtain ⟨content, hfile, hlength, hhash⟩ := hverified
    rw [Volume.fileAt_eq_some_iff] at hfile
    have hcontent : content = expected :=
      hcollision file content expected hwanted
        (Volume.fileAt_eq_some_iff.mpr (hsame ▸ hfile)) hlength hhash
    rw [hfile, hcontent]
  · exact hnew

/-- Calls of `Save` do not bring collisions. -/
theorem NoCollision.of_savesTo {v w : Volume} (hcollision : store.NoCollision request release v)
    (h : store.SavesTo request release v w) : store.NoCollision request release w := by
  intro file content expected hwanted hfile hlength hhash
  have hverified : store.Verified w (filePath request.transactionRoot file) expected.length
      (store.sha256 expected) := ⟨content, hfile, hlength, hhash⟩
  rw [Volume.fileAt_eq_some_iff] at hfile
  have hnode : w.nodeAt (filePath request.transactionRoot file) =
        v.nodeAt (filePath request.transactionRoot file) ∨
      w.nodeAt (filePath request.transactionRoot file) = some (.file expected) := by
    rcases file with name | which
    · cases name with
      | active =>
          obtain rfl : (store.stateOf request release).encode = expected := by
            simpa [wanted] using hwanted
          exact h.record.imp id Saved.record
      | committed => cases hwanted
      | retiring => cases hwanted
    · obtain rfl : release.payload which = expected := by simpa [wanted] using hwanted
      exact h.payload which
  have hexpected := eq_of_verified hcollision hwanted hnode hverified
  rw [hfile] at hexpected
  simpa using hexpected

/-! ## Saving -/

section Save

variable {allow : Fault → Prop} {d d₀ : Volume}

/-- Every path the store joins fits. -/
def AllJoined (root : Path) : Prop :=
  (∀ name : RecordName, joins root name.fileName = true) ∧
    ∀ which : Payload, joins root which.fileName = true

/-- Before the record is written: payloads up to the `count`-th are in place. -/
structure Writing (store : UpdateTransactionRequestStore) (request : AuthenticatedUpdateRequest)
    (release : ValidatedReleaseDownload) (v : Volume) (count : Nat) (w : Volume) : Prop where
  payload : ∀ which,
    w.nodeAt (payloadPath request.transactionRoot which) =
        v.nodeAt (payloadPath request.transactionRoot which) ∨
      w.nodeAt (payloadPath request.transactionRoot which) =
        some (.file (release.payload which))
  record : w.nodeAt (recordPath request.transactionRoot .active) =
    v.nodeAt (recordPath request.transactionRoot .active)
  written : ∀ k which, k < count → Payload.all[k]? = some which →
    joins request.transactionRoot which.fileName = true ∧
      w.nodeAt (payloadPath request.transactionRoot which) = some (.file (release.payload which))

theorem Writing.savesTo {count : Nat} (h : Writing store request release d₀ count d) :
    store.SavesTo request release d₀ d :=
  ⟨h.payload, Or.inl h.record⟩

/-- A fresh write of a payload is part of saving. -/
theorem Writing.fresh {count : Nat} {which : Payload} {d' : Volume}
    (h : Writing store request release d₀ count d)
    (hfresh : Fresh request.transactionRoot (.payload which) (release.payload which) d d') :
    Writing store request release d₀ count d' := by
  have hnode : ∀ other, d'.nodeAt (payloadPath request.transactionRoot other) =
        d.nodeAt (payloadPath request.transactionRoot other) ∨
      d'.nodeAt (payloadPath request.transactionRoot other) =
        some (.file (release.payload other)) := by
    intro other
    by_cases hother : other = which
    · subst hother
      exact hfresh.here.imp id And.right
    · exact Or.inl (hfresh.other_eq fun heq => hother (StoreFile.payload.inj heq))
  refine ⟨fun other => ?_, (hfresh.other_eq (by simp)).trans h.record, fun k other hk hother => ?_⟩
  · rcases hnode other with hsame | hnew
    · rw [hsame]
      exact h.payload other
    · exact Or.inr hnew
  · obtain ⟨hjoins, hwritten⟩ := h.written k other hk hother
    exact ⟨hjoins, (hnode other).elim (fun hsame => hsame.trans hwritten) id⟩

theorem keeps_savePayload {count : Nat} {which : Payload}
    (hcollision : store.NoCollision request release d₀)
    (hwhich : Payload.all[count]? = some which)
    (h : Writing store request release d₀ count d) :
    keeps allow (store.SavesTo request release d₀) anyError
      (store.savePayload request.transactionRoot release which)
      (fun _ _ => Writing store request release d₀ (count + 1)) () d := by
  refine keeps_bind (keeps_check (fun _ => ⟨h.savesTo, trivial⟩) fun hjoins => ?_)
  refine keeps_mono (keeps_writeFreshVerified (.payload which) (release.payload which)
    (FrameRel.refl d) (Q := fun _ _ =>
      Writing store request release d₀ (count + 1)) fun d' hfresh hverified => ?_)
    (fun d' hfresh => (h.fresh hfresh).savesTo) (fun _ h => h) fun _ _ _ h => h
  have hwriting := h.fresh hfresh
  refine ⟨hwriting.payload, hwriting.record, fun k other hk hother => ?_⟩
  by_cases hlast : k = count
  · subst hlast
    obtain rfl : which = other := Option.some.inj (hwhich.symm.trans hother)
    exact ⟨hjoins, eq_of_verified hcollision rfl (hwriting.payload which) hverified⟩
  · exact hwriting.written k other (by omega) hother

/-- `Save` of a valid request: a payload at a time, then the record. -/
theorem keeps_saveRelease (hcollision : store.NoCollision request release d₀)
    (hd : store.SavesTo request release d₀ d) :
    keeps allow (store.SavesTo request release d₀) anyError (store.saveRelease request release)
      (fun _ _ d' => store.SavesTo request release d₀ d' ∧ store.Saved request release d' ∧
        AllJoined request.transactionRoot) () d := by
  have hcollision' := hcollision.of_savesTo hd
  refine keeps_mono (I := store.SavesTo request release d) (E := anyError)
    (Q := fun _ _ d' => store.SavesTo request release d d' ∧ store.Saved request release d' ∧
      AllJoined request.transactionRoot) ?_
    (fun d' hd' => FrameRel.trans hd hd') (fun _ h => h)
    fun _ _ d' h => ⟨FrameRel.trans hd h.1, h.2⟩
  have hstart : store.SavesTo request release d d := FrameRel.refl d
  refine keeps_bind (keeps_check (fun _ => ⟨hstart, trivial⟩) fun hcommitted => ?_)
  refine keeps_bind (keeps_check (fun _ => ⟨hstart, trivial⟩) fun hretiring => ?_)
  refine keeps_bind (keeps_look hstart ?_)
  refine keeps_bind (keeps_look hstart ?_)
  refine keeps_bind (keeps_check (fun _ => ⟨hstart, trivial⟩) fun _ => ?_)
  refine keeps_bind (keeps_forIndexed (fun k _ => Writing store request release d k) ?_
    ⟨fun _ => Or.inl rfl, rfl, fun k _ hk => absurd hk (Nat.not_lt_zero k)⟩ ?_)
  · intro k which _ d' hwhich hwriting
    rw [Nat.zero_add] at hwriting ⊢
    exact keeps_savePayload hcollision' hwhich hwriting
  intro _ d₁ hwriting
  rw [Nat.zero_add] at hwriting
  have hwritten := Payload.of_position hwriting.written
  refine keeps_bind (keeps_check (fun _ => ⟨hwriting.savesTo, trivial⟩) fun hactive => ?_)
  have hsavesTo : ∀ {d'}, Fresh request.transactionRoot (.record .active)
      (store.stateOf request release).encode d₁ d' → store.SavesTo request release d d' := by
    intro d' hfresh
    have hpayload : ∀ which, d'.nodeAt (payloadPath request.transactionRoot which) =
        some (.file (release.payload which)) := fun which =>
      (hfresh.other_eq (by simp)).trans (hwritten which).2
    refine ⟨fun which => Or.inr (hpayload which), ?_⟩
    rcases hfresh.here with hsame | ⟨-, hnew⟩
    · exact Or.inl (hsame.trans hwriting.record)
    · exact Or.inr ⟨hpayload, hnew⟩
  refine keeps_mono (keeps_writeFreshVerified (.record .active) _ (FrameRel.refl d₁)
    (Q := fun _ _ d' => store.SavesTo request release d d' ∧ store.Saved request release d' ∧
      AllJoined request.transactionRoot) fun d' hfresh hverified => ?_)
    (fun d' => hsavesTo) (fun _ h => h) fun _ _ _ h => h
  have hd' := hsavesTo hfresh
  refine ⟨hd', ⟨fun which => (hfresh.other_eq (by simp)).trans (hwritten which).2,
    eq_of_verified hcollision' rfl (hd'.record.imp id Saved.record) hverified⟩, ?_,
    fun which => (hwritten which).1⟩
  intro name
  cases name with
  | active => exact hactive
  | committed => exact hcommitted
  | retiring => exact hretiring

/-- `Save` returns for valid requests with all files in place. -/
theorem keeps_save (hrelease : request.release = some release)
    (hcollision : store.NoCollision request release d₀)
    (hd : store.SavesTo request release d₀ d) :
    keeps allow (store.SavesTo request release d₀) anyError (store.save request)
      (fun _ _ d' => store.SavesTo request release d₀ d' ∧ store.Saved request release d' ∧
        requestValid request = true ∧ AllJoined request.transactionRoot) () d := by
  refine keeps_bind (keeps_check (fun _ => ⟨hd, trivial⟩) fun hvalid => ?_)
  refine keeps_bind (keeps_check (fun _ => ⟨hd, trivial⟩) fun _ => ?_)
  rw [hrelease]
  exact keeps_done (keeps_saveRelease hcollision hd)
    fun _ _ d' h => ⟨h.1, h.2.1, hvalid, h.2.2⟩

end Save

/-! ## Loading -/

section Load

variable {allow : Fault → Prop} {d : Volume} {root : Path} {board : BoardFamily}
  {buffers : PersistedUpdateRequestBuffers} {E : StoreFailure → Prop} {I : Volume → Prop}

/-- Every buffer is there and holds the payload of the request. -/
def Fits (release : ValidatedReleaseDownload) (buffers : PersistedUpdateRequestBuffers) : Prop :=
  ∀ which, ∃ capacity, buffers which = some capacity ∧
    (release.payload which).length ≤ capacity

theorem Fits.all_isSome (h : Fits release buffers) :
    (Payload.all.all fun payload => (buffers payload).isSome) = true := by
  refine List.all_eq_true.mpr fun which _ => ?_
  obtain ⟨capacity, hcapacity, -⟩ := h which
  rw [hcapacity]
  rfl

/-- What `RequestValid` says of a payload. -/
theorem payload_of_requestValid (hrelease : request.release = some release)
    (hvalid : requestValid request = true) (which : Payload) :
    release.payload which ≠ [] ∧ (release.payload which).length ≤ which.maximum := by
  unfold requestValid at hvalid
  rw [hrelease] at hvalid
  simp only [Bool.and_eq_true, List.all_eq_true, decide_eq_true_eq] at hvalid
  exact hvalid.2 which (Payload.mem_all which)

/-- What `RequestValid` says of the identity of a request. -/
theorem identity_of_requestValid (hrelease : request.release = some release)
    (hvalid : requestValid request = true) :
    isKnownBoardFamily request.runningBoard = true ∧ boundedRoot request.transactionRoot = true ∧
      request.transactionId ≠ .zero 16 ∧ request.oldBootGeneration ≠ 0 ∧
      request.oldBootGeneration < request.newBootGeneration ∧
      request.consentSha256 ≠ .zero 32 ∧ request.resetRequired = request.resetApproved := by
  unfold requestValid at hvalid
  rw [hrelease] at hvalid
  simp only [Bool.and_eq_true, decide_eq_true_eq] at hvalid
  obtain ⟨⟨⟨⟨⟨⟨⟨hboard, hroot⟩, hid⟩, hold⟩, hnew⟩, hconsent⟩, hreset⟩, -⟩ := hvalid
  exact ⟨hboard, hroot, hid, hold, hnew, hconsent, hreset⟩

theorem maximum_lt (which : Payload) : which.maximum < 2 ^ 32 := by
  cases which <;> decide

/-- A payload of the size and digest the record holds is loaded. -/
theorem keeps_loadPayload {state : RequestState} {which : Payload}
    (hsize : state.size which ≠ 0 ∧ state.size which ≤ which.maximum ∧
      state.size which ≤ (buffers which).getD 0)
    (hjoins : joins root which.fileName = true)
    (hverified : store.Verified d (payloadPath root which) (state.size which)
      (state.sha256 which)) {Q : Content → Unit → Volume → Prop}
    (h : ∀ content, d.fileAt (payloadPath root which) = some content → Q content () d) :
    keeps allow (· = d) noError (store.loadPayload root buffers state which) Q () d := by
  obtain ⟨expected, hfile, hlength, hhash⟩ := hverified
  have hnode := Volume.fileAt_eq_some_iff.mp hfile
  refine keeps_bind (keeps_check (fun hbad => absurd hsize hbad) fun _ => ?_)
  refine keeps_bind (keeps_check (fun hbad => absurd hjoins hbad) fun _ => ?_)
  refine keeps_bind (keeps_look rfl ?_)
  rw [hnode]
  refine keeps_bind (keeps_check (fun hbad => absurd nofun hbad) fun _ => ?_)
  refine keeps_bind (keeps_check (fun hbad => absurd ⟨rfl, hlength⟩ hbad) fun _ => ?_)
  refine keeps_bind (keeps_orElse (E := noError) (keeps_readFile rfl ?_ fun content hcontent => ?_)
    fun _ h => h)
  · rw [hfile]
    exact nofun
  obtain rfl : expected = content := Option.some.inj (hfile.symm.trans hcontent)
  refine keeps_bind (keeps_report rfl ?_)
  exact keeps_bind (keeps_check (fun hbad => absurd hhash hbad) fun _ =>
    keeps_pure (h expected hfile))

/-- The request as `Load` gives it back: without its foreground token. -/
def withoutToken (request : AuthenticatedUpdateRequest) : AuthenticatedUpdateRequest :=
  { request with foregroundAuthorizationToken := 0 }

theorem keeps_loadState (hrelease : request.release = some release)
    (hvalid : requestValid request = true) (hjoins : AllJoined request.transactionRoot)
    (hfits : Fits release buffers) {content : Payload → Content}
    (hverified : ∀ which, d.fileAt (payloadPath request.transactionRoot which) =
        some (content which) ∧ (content which).length = (release.payload which).length ∧
      store.sha256 (content which) = store.sha256 (release.payload which)) :
    keeps allow (· = d) noError
      (store.loadState request.transactionRoot buffers (store.stateOf request release))
      (fun loaded _ _ => loaded = loadedRequest request.transactionRoot
        (store.stateOf request release) (content .installed) (content .gitHub)
        (content .manifest) (content .signature)) () d := by
  have hpayload : ∀ which {Q : Content → Unit → Volume → Prop}, Q (content which) () d →
      keeps allow (· = d) noError (store.loadPayload request.transactionRoot buffers
        (store.stateOf request release) which) Q () d := by
    intro which Q h
    obtain ⟨hfile, hlength, hhash⟩ := hverified which
    obtain ⟨hne, hmaximum⟩ := payload_of_requestValid hrelease hvalid which
    obtain ⟨capacity, hcapacity, hle⟩ := hfits which
    have hnonzero : (release.payload which).length ≠ 0 :=
      fun hzero => hne (List.eq_nil_of_length_eq_zero hzero)
    have hroom : (release.payload which).length ≤ (buffers which).getD 0 := by
      rw [hcapacity]
      exact hle
    refine keeps_loadPayload ⟨hnonzero, hmaximum, hroom⟩ (hjoins.2 which)
      ⟨content which, hfile, hlength, hhash⟩ fun read hread => ?_
    obtain rfl : content which = read := Option.some.inj (hfile.symm.trans hread)
    exact h
  refine keeps_bind (keeps_check (fun hbad => absurd rfl hbad) fun _ => ?_)
  refine keeps_bind (hpayload .installed ?_)
  refine keeps_bind (hpayload .gitHub ?_)
  refine keeps_bind (hpayload .manifest ?_)
  refine keeps_bind (hpayload .signature ?_)
  obtain ⟨-, -, hid, hold, hnew, hconsent, -⟩ := identity_of_requestValid hrelease hvalid
  exact keeps_bind (keeps_check (fun hbad => absurd ⟨hold, hnew, hid, hconsent⟩ hbad) fun _ =>
    keeps_pure rfl)

/-- The record that is found, read and parsed. -/
theorem keeps_loadNamed_record {name : RecordName} {encoded : Bytes}
    (hchecks : ¬(boundedRoot root = true ∧ name ≠ .retiring ∧ isKnownBoardFamily board = true ∧
      (Payload.all.all fun payload => (buffers payload).isSome) = true) → E .invalidArgument)
    (hjoins : ¬joins root name.fileName = true → E .invalidIdentity)
    (hrecord : d.nodeAt (recordPath root name) = some (.file encoded))
    (hlength : encoded.length = kPersistedUpdateRequestStateBytes)
    {Q : AuthenticatedUpdateRequest → Unit → Volume → Prop}
    (h : boundedRoot root = true →
      keeps allow (· = d) E (match RequestState.parse board encoded with
        | none => Proc.throw .corrupt
        | some state => store.loadState root buffers state) Q () d) :
    keeps allow (· = d) E (store.loadNamed root name board buffers) Q () d := by
  have hfile := Volume.fileAt_eq_some_iff.mpr hrecord
  refine keeps_bind (keeps_check (fun hbad => ⟨rfl, hchecks hbad⟩) fun hargs => ?_)
  refine keeps_bind (keeps_check (fun hbad => ⟨rfl, hjoins hbad⟩) fun _ => ?_)
  refine keeps_bind (keeps_look rfl ?_)
  rw [hrecord]
  refine keeps_bind (keeps_check (fun hbad => absurd nofun hbad) fun _ => ?_)
  refine keeps_bind (keeps_check (fun hbad => absurd ⟨rfl, hlength⟩ hbad) fun _ => ?_)
  refine keeps_bind (keeps_bind ?_)
  refine keeps_statOr rfl ?_
  rw [hrecord]
  refine keeps_bind (keeps_check (fun hbad => absurd ⟨rfl, hlength⟩ hbad) fun _ => ?_)
  refine keeps_bind (keeps_orElse (E := noError) (keeps_readFile rfl ?_ fun content hcontent => ?_)
    fun _ h => h.elim)
  · rw [hfile]
    exact nofun
  obtain rfl : encoded = content := Option.some.inj (hfile.symm.trans hcontent)
  refine keeps_bind (keeps_report rfl ?_)
  exact keeps_pure (h hargs.1)

/-- A record is loaded with payloads of the sizes and digests it holds. -/
theorem loadNamed_record {name : RecordName} (hname : name ≠ .retiring)
    (hrelease : request.release = some release) (hvalid : requestValid request = true)
    (hjoins : AllJoined request.transactionRoot) (hfits : Fits release buffers)
    (hrecord : d.nodeAt (recordPath request.transactionRoot name) =
      some (.file (store.stateOf request release).encode)) {content : Payload → Content}
    (hverified : ∀ which, d.fileAt (payloadPath request.transactionRoot which) =
        some (content which) ∧ (content which).length = (release.payload which).length ∧
      store.sha256 (content which) = store.sha256 (release.payload which)) :
    (store.loadNamed request.transactionRoot name request.runningBoard buffers ()
      ⟨d, []⟩).returned = some (.ok (loadedRequest request.transactionRoot
        (store.stateOf request release) (content .installed) (content .gitHub)
        (content .manifest) (content .signature))) := by
  have hpayload := payload_of_requestValid hrelease hvalid
  obtain ⟨hboard, hroot, -, -, -, -, hreset⟩ := identity_of_requestValid hrelease hvalid
  have hsize : ∀ which, (store.stateOf request release).size which < 2 ^ 32 := fun which =>
    Nat.lt_of_le_of_lt (hpayload which).2 (maximum_lt which)
  have hparse : RequestState.parse request.runningBoard (store.stateOf request release).encode =
      some (store.stateOf request release) := RequestState.parse_encode hsize hreset rfl
  have hbuffers := hfits.all_isSome
  have hload : keeps noFault (· = d) noError
      (store.loadNamed request.transactionRoot name request.runningBoard buffers)
      (fun loaded _ _ => loaded = loadedRequest request.transactionRoot
        (store.stateOf request release) (content .installed) (content .gitHub)
        (content .manifest) (content .signature)) () d := by
    refine keeps_loadNamed_record (fun hbad => hbad ⟨hroot, hname, hboard, hbuffers⟩)
      (fun hbad => hbad (hjoins.1 name)) hrecord (RequestState.length_encode _) fun _ => ?_
    rw [hparse]
    exact keeps_loadState hrelease hvalid hjoins hfits hverified
  obtain ⟨loaded, s', w, hrun, rfl⟩ := keeps_uninterrupted hload
  rw [hrun]
  rfl

/-- A saved request is loaded. -/
theorem load_saved (hrelease : request.release = some release)
    (hsaved : store.Saved request release d) (hvalid : requestValid request = true)
    (hjoins : AllJoined request.transactionRoot) (hfits : Fits release buffers) :
    (store.load request.transactionRoot request.runningBoard buffers () ⟨d, []⟩).returned =
      some (.ok (withoutToken request)) := by
  have hverified : ∀ which, d.fileAt (payloadPath request.transactionRoot which) =
        some (release.payload which) ∧
      (release.payload which).length = (release.payload which).length ∧
      store.sha256 (release.payload which) = store.sha256 (release.payload which) :=
    fun which => ⟨Volume.fileAt_eq_some_iff.mpr (hsaved.payload which), rfl, rfl⟩
  have hsame : loadedRequest request.transactionRoot (store.stateOf request release)
      release.installedBuildInfo release.githubResponse release.manifest release.signature =
        withoutToken request := by
    cases request
    cases hrelease
    rfl
  have hactive : RecordName.active ≠ .retiring := nofun
  rw [← hsame]
  exact loadNamed_record hactive hrelease hvalid hjoins hfits hsaved.record hverified

/-- Without a record nothing is found. -/
theorem load_missing (hroot : boundedRoot root = true)
    (hboard : isKnownBoardFamily board = true)
    (hbuffers : (Payload.all.all fun payload => (buffers payload).isSome) = true)
    (hjoins : joins root RecordName.active.fileName = true)
    (hmissing : d.nodeAt (recordPath root .active) = none) :
    (store.load root board buffers () ⟨d, []⟩).returned = some (.error .notFound) := by
  refine returned_of_wp (r := Except.error StoreFailure.notFound) ?_
  refine wp_bind (wp_check (fun _ => ?_) fun hbad => ?_)
  · refine wp_bind (wp_check (fun _ => ?_) fun hbad => absurd hjoins hbad)
    refine wp_bind (wp_orElse (wp_stat ?_ ⟨fun hcut => absurd hcut not_mayCut_noFault,
      fun hfail => absurd hfail not_mayFail_noFault⟩))
    rw [hmissing]
    exact wp_bind (wp_check (fun hpresent => absurd rfl hpresent) fun _ => rfl)
  · exact absurd ⟨hroot, by decide, hboard, hbuffers⟩ hbad

/-- A record is loaded for its own root and board only. -/
theorem load_other (hcollision : store.sha256 (rootPreimage root) =
      store.sha256 (rootPreimage request.transactionRoot) →
    rootPreimage root = rootPreimage request.transactionRoot)
    (hrelease : request.release = some release) (hvalid : requestValid request = true)
    (hother : root ≠ request.transactionRoot ∨ board ≠ request.runningBoard)
    (hrecord : d.nodeAt (recordPath root .active) =
      some (.file (store.stateOf request release).encode))
    (faults : List Fault) (loaded : AuthenticatedUpdateRequest) :
    (store.load root board buffers () ⟨d, faults⟩).returned ≠ some (.ok loaded) := by
  have hpayload := payload_of_requestValid hrelease hvalid
  obtain ⟨-, hroot', -, -, -, -, hreset⟩ := identity_of_requestValid hrelease hvalid
  have hsize : ∀ which, (store.stateOf request release).size which < 2 ^ 32 := fun which =>
    Nat.lt_of_le_of_lt (hpayload which).2 (maximum_lt which)
  have hload : keeps anyFault (· = d) anyError (store.load root board buffers)
      (fun _ _ _ => False) () d := by
    refine keeps_loadNamed_record (fun _ => trivial) (fun _ => trivial) hrecord
      (RequestState.length_encode _) fun hroot => ?_
    by_cases hboard : (store.stateOf request release).board = board
    · rw [RequestState.parse_encode hsize hreset hboard]
      have hroots : root ≠ request.transactionRoot :=
        hother.elim id fun hne => absurd hboard.symm hne
      refine keeps_bind (keeps_check (fun _ => ⟨rfl, trivial⟩) fun hhash => ?_)
      exact absurd (rootPreimage_inj hroot hroot' (hcollision hhash)) hroots
    · rw [RequestState.parse_encode_of_ne hboard]
      exact keeps_throw rfl trivial
  intro hreturned
  have hrun := hload faults fun _ _ => trivial
  cases hout : store.load root board buffers () ⟨d, faults⟩ with
  | done loaded' s' w =>
      rw [hout] at hrun
      exact hrun.1
  | error e s' w =>
      rw [hout] at hreturned
      cases hreturned
  | cut d' =>
      rw [hout] at hreturned
      cases hreturned

end Load

/-! ## Runs -/

section Runs

variable (store : UpdateTransactionRequestStore) (request : AuthenticatedUpdateRequest)

/-- What calls of `Save` for one request can make of a volume, each under its own
faults. -/
inductive Saves (u : Volume) : Volume → Prop
  | refl : Saves u u
  | step {v : Volume} (faults : List Fault) (h : Saves u v) :
      Saves u (store.save request () ⟨v, faults⟩).disk

/-- The request passes the checks `Save` makes of it. -/
structure Accepted (request : AuthenticatedUpdateRequest) : Prop where
  valid : requestValid request = true
  joined : AllJoined request.transactionRoot

variable {store : UpdateTransactionRequestStore} {request : AuthenticatedUpdateRequest}
  {release : ValidatedReleaseDownload} {d₀ d : Volume}

theorem Saves.savesTo (hrelease : request.release = some release)
    (hcollision : store.NoCollision request release d₀) (h : Saves store request d₀ d) :
    store.SavesTo request release d₀ d := by
  induction h with
  | refl => exact FrameRel.refl d₀
  | step faults _ ih =>
      have hsave : keeps anyFault _ _ _ _ _ _ := keeps_save hrelease hcollision ih
      exact keeps_disk (keeps_done hsave fun _ _ _ h => h.1) fun _ _ => trivial

/-- A request whose `Save` has returned is loaded as it was saved; after any
number of failing and cut calls of `Save` on a volume without a record, or with
the record of the request, it is loaded so or not found; and its record is not
loaded for another root or board. -/
theorem saved_request_loads {buffers : PersistedUpdateRequestBuffers}
    (hrelease : request.release = some release)
    (hcollision : store.NoCollision request release d₀) (hfits : Fits release buffers)
    (hsaves : Saves store request d₀ d) :
    (∀ faults, (store.save request () ⟨d, faults⟩).result = some () →
      (store.load request.transactionRoot request.runningBoard buffers ()
        ⟨(store.save request () ⟨d, faults⟩).disk, []⟩).returned =
          some (.ok (withoutToken request))) ∧
    (Accepted request →
      d₀.nodeAt (recordPath request.transactionRoot .active) = none ∨
        store.Saved request release d₀ →
      (store.load request.transactionRoot request.runningBoard buffers () ⟨d, []⟩).returned =
          some (.error .notFound) ∨
        (store.load request.transactionRoot request.runningBoard buffers () ⟨d, []⟩).returned =
          some (.ok (withoutToken request))) ∧
    (Accepted request → ∀ root board (buffers' : PersistedUpdateRequestBuffers) v faults loaded,
      (store.sha256 (rootPreimage root) = store.sha256 (rootPreimage request.transactionRoot) →
        rootPreimage root = rootPreimage request.transactionRoot) →
      root ≠ request.transactionRoot ∨ board ≠ request.runningBoard →
      v.nodeAt (recordPath root .active) = some (.file (store.stateOf request release).encode) →
      (store.load root board buffers' () ⟨v, faults⟩).returned ≠ some (.ok loaded)) := by
  have hsavesTo := hsaves.savesTo hrelease hcollision
  refine ⟨fun faults hresult => ?_, fun haccepted hrecord => ?_, ?_⟩
  · have hsave : keeps anyFault _ _ _ _ _ _ := keeps_save hrelease hcollision hsavesTo
    obtain ⟨-, hsaved, hvalid, hjoins⟩ := wp_result
      (wp_mono hsave (fun _ _ _ h => h) (fun _ _ _ h => h) fun _ h => h)
      (fun _ _ => trivial) hresult
    exact load_saved hrelease hsaved hvalid hjoins hfits
  · have hsaved : d.nodeAt (recordPath request.transactionRoot .active) = none ∨
        store.Saved request release d := by
      rcases hsavesTo.record with hsame | hsaved
      · rcases hrecord with hnone | hsaved₀
        · exact Or.inl (hsame.trans hnone)
        · refine Or.inr ⟨fun which => ?_, hsame.trans hsaved₀.record⟩
          rcases hsavesTo.payload which with hkept | hnew
          · exact hkept.trans (hsaved₀.payload which)
          · exact hnew
      · exact Or.inr hsaved
    rcases hsaved with hnone | hsaved
    · obtain ⟨hboard, hroot, -⟩ := identity_of_requestValid hrelease haccepted.valid
      exact Or.inl (load_missing hroot hboard hfits.all_isSome (haccepted.joined.1 .active) hnone)
    · exact Or.inr (load_saved hrelease hsaved haccepted.valid haccepted.joined hfits)
  · intro haccepted root board buffers' v faults loaded hroots hother hrecord
    exact load_other hroots hrelease haccepted.valid hother hrecord faults loaded

/-- A small request below the root the updater uses. -/
def smallStoreRequest : AuthenticatedUpdateRequest where
  release := some ⟨.publishedStable, [1], [2], [3], [4]⟩
  runningBoard := .pi5Pi500
  transactionRoot := kUpdateTransactionRoot
  transactionId := .ofBytes 16 [1]
  oldBootGeneration := 3
  newBootGeneration := 4
  consentSha256 := .ofBytes 32 [6]
  resetRequired := false
  resetApproved := false
  foregroundAuthorizationToken := 7

/-- The store with the updater's hash function on a file system with every
capability. -/
def updaterStore : UpdateTransactionRequestStore := ⟨BmxUpdate.sha256, some ⟨true, true, true, true, true⟩⟩

/-- Nothing on an empty volume is taken for a file of a request. -/
theorem noCollision_empty : store.NoCollision request release .empty := by
  intro file content expected _ hfile
  have hmissing : Volume.empty.nodeAt (filePath request.transactionRoot file) = none := by
    simp [Volume.nodeAt, lookupNode, Volume.empty, joined_ne_nil]
  rw [Volume.fileAt_eq_some_iff] at hfile
  rw [hmissing] at hfile
  cases hfile

/-- What a `Save` that returns leaves. -/
theorem saved_of_save (hrelease : request.release = some release)
    (hcollision : store.NoCollision request release d) {faults : List Fault}
    (hresult : (store.save request () ⟨d, faults⟩).result = some ()) :
    store.Saved request release (store.save request () ⟨d, faults⟩).disk ∧ Accepted request := by
  have hsave : keeps anyFault _ _ _ _ _ _ := keeps_save hrelease hcollision (FrameRel.refl d)
  obtain ⟨-, hsaved, hvalid, hjoins⟩ := wp_result
    (wp_mono hsave (fun _ _ _ h => h) (fun _ _ _ h => h) fun _ h => h) (fun _ _ => trivial) hresult
  exact ⟨hsaved, hvalid, hjoins⟩

/-- A request saved on an empty volume is loaded. -/
theorem saved_request_loads_small :
    (updaterStore.load kUpdateTransactionRoot .pi5Pi500 (fun _ => some 1) ()
      ⟨(updaterStore.save smallStoreRequest () ⟨.empty, []⟩).disk, []⟩).returned =
        some (.ok (withoutToken smallStoreRequest)) := by
  have hcollision : updaterStore.NoCollision smallStoreRequest
      ⟨.publishedStable, [1], [2], [3], [4]⟩ .empty := noCollision_empty
  have hfits : Fits ⟨.publishedStable, [1], [2], [3], [4]⟩ (fun _ => some 1) :=
    fun which => ⟨1, rfl, by cases which <;> decide⟩
  exact (saved_request_loads rfl hcollision hfits .refl).1 [] (by decide +kernel)

end Runs

end UpdateTransactionRequestStore

end BmxUpdate
