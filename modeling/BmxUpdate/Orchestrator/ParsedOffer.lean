import BmxUpdate.Installer.ParsedManifest
import BmxUpdate.Orchestrator.RebootSafety

/-!
# What the orchestrator hands to the installer

The offer that the orchestrator is given carries the parsed manifest.  `Start` checks the
workspace, the offer and the request, the sealed authorization and the prepared configuration
before it asks for `Stage`, and `Stage` checks its request again.  What the first lets through
the second accepts, but for digests of zeros, which only the installer refuses.
-/

namespace BmxUpdate

open Wire Volumes Layout Release Interaction RebootSafety

/-- What is checked of a request before its configuration is prepared. -/
structure Prechecked (policy : ReleasePolicy) (workspace : UpdateOrchestratorWorkspace)
    (request : AuthenticatedUpdateRequest) (offer : ReleaseOffer) (manifestDigest : Digest)
    (authorization : SealedUpdateAuthorization) : Prop where
  usable : workspaceValid workspace true = true
  validated : policy.validateAuthenticatedRequest request offer = .ok manifestDigest
  room : workspaceFitsManifest workspace offer.manifest = true
  consent : authorization.consentSha256 ≠ .zero 32
  resetRequired : authorization.resetRequired = request.resetRequired
  resetApproved : authorization.resetApproved = request.resetApproved

/-- What `Start` has checked when it asks for `Stage` of a request. -/
structure CheckedByStart (policy : ReleasePolicy) (workspace : UpdateOrchestratorWorkspace)
    (request : AuthenticatedUpdateRequest) (offer : ReleaseOffer) (manifestDigest : Digest)
    (authorization : SealedUpdateAuthorization) (set : PreparedConfigSet) : Prop extends
    Prechecked policy workspace request offer manifestDigest authorization where
  prepared : preparedSetValid (some set) (buildBinding request offer manifestDigest authorization)
    offer.manifest true = true

/-- What `ValidateAuthenticatedRequest` has checked. -/
theorem validateAuthenticatedRequest_eq_ok {policy : ReleasePolicy}
    {request : AuthenticatedUpdateRequest} {offer : ReleaseOffer} {digest : Digest}
    (h : policy.validateAuthenticatedRequest request offer = .ok digest) :
    isKnownBoardFamily request.runningBoard = true ∧
      (∃ mode, ReleasePolicy.offerFieldsValid request mode offer = true) ∧
      ReleasePolicy.identityValid request = true ∧ request.consentSha256 ≠ .zero 32 ∧
      request.resetRequired = request.resetApproved := by
  unfold ReleasePolicy.validateAuthenticatedRequest at h
  split at h
  · cases h
  · split_ifs at h with hargument hdownload hfields hassets hidentity hconsent hadvisory hreset
    simp only [Bool.not_eq_true', Bool.not_eq_false, Bool.or_eq_true, decide_eq_true_eq, not_or]
      at hargument hfields hidentity
    exact ⟨hargument.1, ⟨_, hfields⟩, hidentity, hconsent, not_not.mp hreset⟩

/-- No two prepared entries have one path, so none before an entry has its path. -/
theorem prior_distinct {entries : List PreparedConfigTemplate}
    (hdistinct : (entries.map (·.path)).Nodup) {index : Nat} (hindex : index < entries.length) :
    (entries.take index).countP (fun earlier => earlier.path = entries[index].path) = 0 := by
  rw [List.countP_eq_zero]
  intro earlier hearlier
  obtain ⟨position, hposition, rfl⟩ := List.mem_take_iff_getElem.mp hearlier
  have hlt : position < index := (lt_min_iff.mp hposition).1
  rw [decide_eq_true_eq]
  intro heq
  have hmap := List.nodup_iff_injective_getElem.mp hdistinct
  have hsame := @hmap ⟨position, by rw [List.length_map]; omega⟩ ⟨index, by rwa [List.length_map]⟩
    (by simpa using heq)
  exact absurd (congrArg Fin.val hsame) (Nat.ne_of_lt hlt)

section Handed

variable {policy : ReleasePolicy} {workspace : UpdateOrchestratorWorkspace}
  {request : AuthenticatedUpdateRequest} {offer : ReleaseOffer} {digest : Digest}
  {authorization : SealedUpdateAuthorization} {set : PreparedConfigSet} {archive : ZipArchive}
  {encoded : Bytes} {storage : ManifestParseStorage} {m : Release.ReleaseManifest} {env : Env}
  (h : CheckedByStart policy workspace request offer digest authorization set)
  (henv : env.request = buildInstallerRequest offer
    (buildBinding request offer digest authorization) (some archive) (some set))
  (hparse : parseReleaseManifest encoded request.runningBoard storage = .ok m)
  (hoffer : offer.manifest.toReleaseManifest = m.installed)

include henv in
theorem asset_handed : env.asset = offer.manifest.asset := by
  rw [Env.asset, henv]
  rfl

include h henv in
/-- The identity that the orchestrator binds is one the installer accepts. -/
theorem identityValid_handed : env.identityValid = true ↔ digest ≠ .zero 32 := by
  obtain ⟨hboard, ⟨mode, hfields⟩, hidentity, hconsent, hreset⟩ :=
    validateAuthenticatedRequest_eq_ok h.validated
  simp only [ReleasePolicy.offerFieldsValid, Bool.and_eq_true, decide_eq_true_eq] at hfields
  simp only [ReleasePolicy.identityValid, Bool.and_eq_true, decide_eq_true_eq] at hidentity
  obtain ⟨⟨⟨⟨⟨⟨⟨⟨⟨⟨⟨⟨⟨⟨-, hfamily⟩, hsource⟩, hnewer⟩, -⟩, -⟩, -⟩, -⟩, -⟩, -⟩, -⟩, hzip⟩, hfiles⟩, -⟩,
    -⟩ := hfields
  obtain ⟨⟨⟨-, htransaction⟩, hold⟩, hnew⟩ := hidentity
  simp only [Env.identityValid, Bool.and_eq_true, decide_eq_true_eq]
  rw [asset_handed henv, henv]
  constructor
  · intro hvalid
    exact hvalid.1.1.1.1.2
  · intro hdigest
    refine ⟨⟨⟨⟨⟨⟨⟨⟨⟨⟨⟨⟨?_, ?_⟩, hsource⟩, hnewer⟩, hold⟩, ?_⟩, ?_⟩, htransaction⟩, hdigest⟩, h.consent⟩,
      hzip⟩, ?_⟩, hfiles⟩
    · rw [hfamily]
      exact hboard
    · intro hzero
      exact UInt64.not_lt_zero (hzero ▸ hnewer)
    · intro hzero
      have hnew' : request.oldBootGeneration < 0 := hzero ▸ hnew
      exact UInt64.not_lt_zero hnew'
    · exact UInt64.ne_of_lt hnew
    · exact h.resetRequired.trans (hreset.trans h.resetApproved.symm)

include henv hparse hoffer in
/-- An entry that `Start` accepts is one the installer accepts after entries for other paths. -/
theorem preparedEntryValid_handed {prior : List PreparedConfigTemplate}
    {entry : PreparedConfigTemplate}
    (hentry : preparedTemplateValid offer.manifest true entry = true)
    (hprior : prior.countP (fun earlier => earlier.path = entry.path) = 0) :
    env.preparedEntryValid true prior entry = true := by
  simp only [preparedTemplateValid, Bool.and_eq_true, decide_eq_true_eq] at hentry
  obtain ⟨⟨⟨⟨-, hcontent⟩, hdigest⟩, horiginal⟩, hmissing⟩ := hentry.1
  have hnamed : offer.manifest.asset.files.countP (fun file =>
      file.policy = .configTemplate && file.path = entry.path) = 1 := by
    rw [← hentry.2]
    exact List.countP_congr fun file _ => by simp only [eq_comm]
  have hpath : entry.path ∈ m.installed.asset.files.map (·.path) := by
    obtain ⟨file, hfile, hfound⟩ := List.countP_pos_iff.mp (hnamed.symm ▸ Nat.one_pos)
    simp only [Bool.and_eq_true, decide_eq_true_eq] at hfound
    rw [← hoffer]
    exact List.mem_map.mpr ⟨file, hfile, hfound.2⟩
  have hvalid := Release.validRelativePath_installed hparse (List.mem_append_left _ hpath)
  simp only [Env.preparedEntryValid, Bool.and_eq_true, decide_eq_true_eq]
  rw [asset_handed henv]
  refine ⟨⟨⟨⟨⟨hcontent, hvalid⟩, hdigest⟩, horiginal⟩, hmissing⟩, ?_⟩
  rw [hprior]
  exact hnamed

include h henv hparse hoffer in
/-- The prepared configuration that `Start` accepts is one the installer accepts. -/
theorem checkPreparedConfigs_handed : env.checkPreparedConfigs true true = .ok () := by
  have hprepared := h.prepared
  simp only [preparedSetValid, Bool.and_eq_true, decide_eq_true_eq, List.all_eq_true] at hprepared
  obtain ⟨⟨⟨⟨⟨⟨hmanifest, hconsent⟩, hrequired⟩, happroved⟩, hcount⟩, hentries⟩, hdistinct⟩ :=
    hprepared
  have hset : env.request.preparedConfigs = some set := by rw [henv]; rfl
  have hidentity : env.request.identity.manifestSha256 = digest ∧
      env.request.identity.consentSha256 = authorization.consentSha256 ∧
      env.request.identity.resetRequired = authorization.resetRequired ∧
      env.request.identity.resetApproved = authorization.resetApproved := by
    rw [henv]
    exact ⟨rfl, rfl, rfl, rfl⟩
  unfold Env.checkPreparedConfigs
  dsimp only
  rw [hset, asset_handed henv, hidentity.1, hidentity.2.1, hidentity.2.2.1, hidentity.2.2.2]
  dsimp only
  have hconfigs : countPolicy (fun x => decide (x = .configTemplate)) offer.manifest.asset.files =
      set.entries.length := hcount.symm
  rw [hconfigs]
  by_cases hnone : set.entries.length = 0
  · rw [if_neg (fun hsome => hsome.1 hnone), if_neg (fun hsome => hsome.2 hnone)]
  · have hseal : ¬(set.manifestSha256 ≠ digest ∨ set.consentSha256 ≠ authorization.consentSha256 ∨
        set.resetRequired ≠ authorization.resetRequired ∨
        set.resetApproved ≠ authorization.resetApproved) := by
      simp only [not_or, not_not]
      exact ⟨hmanifest, hconsent, hrequired, happroved⟩
    rw [if_pos ⟨hnone, rfl⟩, if_neg (fun hne => hne rfl), if_neg hseal, if_pos]
    rw [List.all_eq_true]
    intro index hindex
    rw [List.mem_range] at hindex
    rw [List.getElem?_eq_getElem hindex]
    exact preparedEntryValid_handed henv hparse hoffer
      (hentries _ (List.getElem_mem hindex)) (prior_distinct hdistinct hindex)

include h henv in
theorem workspaceValid_handed : env.workspaceValid true (some workspace.installer) = true := by
  have husable := h.usable
  have hroom := h.room
  simp only [workspaceValid, Bool.and_eq_true, decide_eq_true_eq] at husable
  simp only [workspaceFitsManifest, Bool.and_eq_true, Bool.or_eq_true, decide_eq_true_eq] at hroom
  obtain ⟨⟨⟨-, hentries⟩, hfiles⟩, hdirectories⟩ := hroom
  simp only [Env.workspaceValid, Bool.and_eq_true, decide_eq_true_eq, Bool.not_true, Bool.false_or]
  rw [asset_handed henv]
  refine ⟨husable.1.2, ⟨hentries, hfiles⟩, ?_⟩
  rcases hdirectories with hnone | ⟨-, hroom⟩
  · omega
  · exact hroom

include h henv hparse hoffer in
/-- The installer accepts what `Start` hands it exactly if no digest is of zeros. -/
theorem basicRequestValid_handed :
    env.basicRequestValid true (some workspace.installer) true = .ok () ↔
      digest ≠ .zero 32 ∧ ∀ file ∈ m.asset.files, file.sha256 ≠ .zero 32 := by
  have hasset : env.asset = m.installed.asset := by
    rw [asset_handed henv, ← hoffer]
  have hlayout : (buildStepLayout env.asset).isNone = false := by
    rw [hasset, Release.buildStepLayout_installed hparse]
    rfl
  have hdirectories : env.asset.directories.all (fun directory =>
      validRelativePath directory.path kMaximumManifestPathBytes) = true := by
    rw [hasset, List.all_eq_true]
    exact fun directory hdirectory => Release.validRelativePath_installed hparse
      (List.mem_append_right _ (List.mem_map_of_mem hdirectory))
  have hroot : validRelativePath env.root kInstallerMaximumPathBytes = true := by
    obtain ⟨-, -, hidentity, -⟩ := validateAuthenticatedRequest_eq_ok h.validated
    simp only [ReleasePolicy.identityValid, Bool.and_eq_true] at hidentity
    rw [Env.root, henv]
    exact hidentity.1.1.1.1
  have hfiles : env.asset.files.all Env.manifestFileValid = true ↔
      ∀ file ∈ m.asset.files, file.sha256 ≠ .zero 32 := by
    have hvalid : ∀ file ∈ m.asset.files,
        (Env.manifestFileValid file.installed = true ↔ file.sha256 ≠ .zero 32) := by
      intro file hfile
      have hpath := Release.validRelativePath_installed hparse
        (List.mem_append_left _ (List.mem_map_of_mem (List.mem_map_of_mem hfile)))
      simp only [Env.manifestFileValid, Bool.and_eq_true, decide_eq_true_eq]
      exact and_iff_right hpath
    rw [hasset, List.all_eq_true]
    show (∀ file ∈ m.asset.files.map (·.installed), _) ↔ _
    rw [List.forall_mem_map]
    exact forall₂_congr hvalid
  unfold Env.basicRequestValid
  rw [hlayout, hdirectories, hroot, checkPreparedConfigs_handed h henv hparse hoffer,
    workspaceValid_handed h henv, ← identityValid_handed h henv, ← hfiles]
  cases env.identityValid with
  | false => exact iff_of_false (fun hok => by cases hok) fun hboth => Bool.false_ne_true hboth.1
  | true =>
      cases env.asset.files.all Env.manifestFileValid with
      | false => exact iff_of_false (fun hok => by cases hok) fun hboth => Bool.false_ne_true hboth.2
      | true => exact iff_of_true rfl ⟨rfl, rfl⟩

end Handed

/-! ## What `Start` asks to be staged -/

/-- A `Stage` asks for what `Start` has checked. -/
def StageChecked (policy : ReleasePolicy) (workspace : UpdateOrchestratorWorkspace)
    (request : AuthenticatedUpdateRequest) : Operation → Prop
  | .stage asked => ∃ offer digest authorization archive set,
      asked = buildInstallerRequest offer (buildBinding request offer digest authorization)
        (some archive) (some set) ∧
      CheckedByStart policy workspace request offer digest authorization set
  | _ => True

section Asked

variable {policy : ReleasePolicy} {workspace : UpdateOrchestratorWorkspace}
  {request : AuthenticatedUpdateRequest}

theorem stageChecked_of_plain {α : Type} {flow : Flow α} (h : flow.Only Plain) :
    flow.Only (StageChecked policy workspace request) :=
  Program.only_mono h fun op hop => by
    cases op with
    | stage => exact hop.elim
    | _ => trivial

/-- A rollback, then plain operations and reboots. -/
theorem stageChecked_rollbackAndRequestPrevious {failure : UpdateOrchestratorStatus}
    {installerRequest : InstallerRequest} {binding : AuthenticatedUpdateBinding}
    {result : UpdateOrchestratorResult} :
    (rollbackAndRequestPrevious failure installerRequest binding result).Only
      (StageChecked policy workspace request) := by
  refine Program.only_bind (Program.only_bind (Program.only_ask trivial)
    fun _ => Program.only_pure _) fun rolledBack => ?_
  split
  · exact Program.only_pure _
  refine Program.only_bind (stageChecked_of_plain (only_cleanupRolledBackTransaction _ _ _))
    fun cleaned => ?_
  refine Program.only_bind (Program.only_bind (Program.only_ask trivial) fun status => ?_)
    fun deactivated => ?_
  · dsimp only
    split <;> exact Program.only_pure _
  · dsimp only
    split
    · exact Program.only_pure _
    · refine Program.only_bind (Program.only_ask trivial) fun requested => ?_
      split <;> exact Program.only_pure _

theorem stageChecked_startArmed {installerRequest : InstallerRequest}
    {binding : AuthenticatedUpdateBinding} {result : UpdateOrchestratorResult} :
    (startArmed workspace installerRequest binding result).Only
      (StageChecked policy workspace request) := by
  refine Program.only_bind (stageChecked_of_plain only_candidateCheckpoint) fun checkpoint => ?_
  split
  · exact stageChecked_rollbackAndRequestPrevious
  refine Program.only_bind (Program.only_ask trivial) fun requested => ?_
  split
  · exact stageChecked_rollbackAndRequestPrevious
  · exact Program.only_pure _

theorem stageChecked_startArm {installerRequest : InstallerRequest}
    {binding : AuthenticatedUpdateBinding} {result : UpdateOrchestratorResult} :
    (startArm workspace installerRequest binding result).Only
      (StageChecked policy workspace request) := by
  refine Program.only_bind (Program.only_ask trivial) fun armed => ?_
  dsimp only
  split
  · exact stageChecked_rollbackAndRequestPrevious
  · exact stageChecked_startArmed

theorem stageChecked_stageRejected {installerRequest : InstallerRequest}
    {binding : AuthenticatedUpdateBinding} {result : UpdateOrchestratorResult} :
    (stageRejected installerRequest binding result).Only
      (StageChecked policy workspace request) := by
  unfold stageRejected
  dsimp only
  split
  · refine Program.only_bind (Program.only_bind (Program.only_ask trivial)
      fun _ => Program.only_pure _) fun rolledBack => ?_
    split
    · exact Program.only_pure _
    · exact stageChecked_of_plain (only_cleanupRejected _ _ _)
  · exact stageChecked_of_plain (only_cleanupRejected _ _ _)

theorem stageChecked_closeFailed {installerRequest : InstallerRequest}
    {binding : AuthenticatedUpdateBinding} {result : UpdateOrchestratorResult} :
    (closeFailed installerRequest binding result).Only (StageChecked policy workspace request) := by
  refine Program.only_bind (Program.only_bind (Program.only_ask trivial)
    fun _ => Program.only_pure _) fun rolledBack => ?_
  split
  · exact Program.only_pure _
  · exact Program.only_bind (stageChecked_of_plain (only_cleanupRolledBackTransaction _ _ _))
      fun _ => Program.only_pure _

/-- The one place of `Start` that asks for a `Stage`. -/
theorem stageChecked_startStage {installerRequest : InstallerRequest}
    {binding : AuthenticatedUpdateBinding} {result : UpdateOrchestratorResult}
    (h : StageChecked policy workspace request (.stage installerRequest)) :
    (startStage workspace installerRequest binding result).Only
      (StageChecked policy workspace request) := by
  refine Program.only_bind (Program.only_ask h) fun staged => ?_
  refine Program.only_bind (Program.only_ask trivial) fun closed => ?_
  dsimp only
  split
  · exact stageChecked_stageRejected
  split
  · exact stageChecked_closeFailed
  · exact stageChecked_startArm

variable {offer : ReleaseOffer} {digest : Digest} {authorization : SealedUpdateAuthorization}
  {result : UpdateOrchestratorResult}

theorem stageChecked_startPrepare {archive : ZipArchive}
    (h : Prechecked policy workspace request offer digest authorization) :
    (startPrepare workspace offer (buildBinding request offer digest authorization) archive
      result).Only (StageChecked policy workspace request) := by
  refine Program.only_bind (Program.only_ask trivial) fun prepared => ?_
  obtain ⟨status, prepared⟩ := prepared
  dsimp only
  split
  · exact stageChecked_of_plain (only_closeAndCleanup _ _ _)
  split
  · exact stageChecked_of_plain (only_closeAndCleanup _ _ _)
  · next hprepared =>
    cases prepared with
    | none => exact absurd rfl hprepared
    | some set =>
        refine stageChecked_startStage ⟨offer, digest, authorization, archive, set, rfl, h, ?_⟩
        simpa using hprepared

theorem stageChecked_startVerify
    (h : Prechecked policy workspace request offer digest authorization) :
    (startVerify policy workspace offer (buildBinding request offer digest authorization)
      result).Only (StageChecked policy workspace request) := by
  refine Program.only_bind (Program.only_ask trivial) fun opened => ?_
  obtain ⟨status, archive⟩ := opened
  dsimp only
  split
  · refine Program.only_bind (stageChecked_of_plain (only_rehashStoredArchive _ _))
      fun verified => ?_
    split
    · exact Program.only_bind (Program.only_ask trivial)
        fun _ => stageChecked_of_plain (only_discardStored _ _ _)
    · exact stageChecked_startPrepare h
  · exact stageChecked_of_plain (only_discardStored _ _ _)

theorem stageChecked_startDownload
    (h : Prechecked policy workspace request offer digest authorization) :
    (startDownload policy workspace offer (buildBinding request offer digest authorization)
      result).Only (StageChecked policy workspace request) := by
  refine Program.only_bind (Program.only_ask trivial) fun fetched => ?_
  refine Program.only_bind (stageChecked_of_plain (only_sinkChunks _ _ _)) fun streamed => ?_
  dsimp only
  split
  · exact stageChecked_of_plain (only_abortDownload _ _ _)
  split
  · exact stageChecked_of_plain (only_abortDownload _ _ _)
  refine Program.only_bind (Program.only_ask trivial) fun finished => ?_
  split
  · exact stageChecked_of_plain (only_abortDownload _ _ _)
  · exact stageChecked_startVerify h

theorem stageChecked_startPersist
    (h : Prechecked policy workspace request offer digest authorization) :
    (startPersist policy workspace request offer (buildBinding request offer digest authorization)
      result).Only (StageChecked policy workspace request) := by
  refine Program.only_bind (stageChecked_of_plain (only_report _)) fun checkpoint => ?_
  split
  · exact Program.only_pure _
  refine Program.only_bind (Program.only_ask trivial) fun begun => ?_
  split
  · exact Program.only_pure _
  refine Program.only_bind (Program.only_ask trivial) fun persisted => ?_
  split
  · exact stageChecked_of_plain (only_abortDownload _ _ _)
  · exact stageChecked_startDownload h

theorem stageChecked_startAuthorize (husable : workspaceValid workspace true = true)
    (hvalidated : policy.validateAuthenticatedRequest request offer = .ok digest) :
    (startAuthorize policy workspace request offer digest result).Only
      (StageChecked policy workspace request) := by
  refine Program.only_bind (Program.only_ask trivial) fun supported => ?_
  split
  · exact Program.only_pure _
  split
  · exact Program.only_pure _
  next hroom =>
  refine Program.only_bind (Program.only_ask trivial) fun authorized => ?_
  obtain ⟨status, authorization⟩ := authorized
  dsimp only
  split
  · exact Program.only_pure _
  next hsealed =>
  simp only [not_or, not_not] at hsealed
  refine Program.only_bind (Program.only_ask trivial) fun ready => ?_
  split
  · exact Program.only_pure _
  · exact stageChecked_startPersist ⟨husable, hvalidated, by simpa using hroom, hsealed.2.1,
      hsealed.2.2.1, hsealed.2.2.2⟩

/-- `Start` asks only for a `Stage` of what it has checked. -/
theorem stageChecked_start (collaborators : Collaborators) :
    (start policy workspace collaborators request).Only (StageChecked policy workspace request) := by
  unfold start
  dsimp only
  split
  · exact Program.only_pure _
  next husable =>
  split
  · exact Program.only_pure _
  refine Program.only_bind (Program.only_ask trivial) fun validated => ?_
  split
  · exact Program.only_pure _
  split
  · exact Program.only_pure _
  next hvalidated =>
  exact stageChecked_startAuthorize (by simpa using (not_or.mp husable).2) hvalidated

end Asked

/-! ## A manifest that is staged -/

/-- An offer of the small manifest. -/
def parsedOffer : ReleaseOffer :=
  { smallOffer with
    installed := ⟨1, 1, .pi4Pi400, 1⟩
    github := ⟨"v1.0", false, false, [⟨"BMX-RELEASE.json", 1, "m", "m"⟩,
      ⟨"BMX-RELEASE.sig", 1, "s", "s"⟩, ⟨"bmx.zip", 1, "z", "z"⟩]⟩
    manifest :=
      { smallManifest.installed with
        version := "1.0"
        tag := "v1.0"
        releaseEpoch := 1
        minimumUpdaterAbi := 1
        maximumUpdaterAbi := 1
        archiveFilename := "bmx.zip" } }

def parsedRequest : AuthenticatedUpdateRequest :=
  { UpdateTransactionRequestStore.smallStoreRequest with runningBoard := .pi4Pi400 }

/-- A prepared file for each configuration file of the small manifest. -/
def parsedConfigs : List PreparedConfigTemplate :=
  ["bmx-active-kernel.txt", "bmx-tryboot-kernel.txt", "config.txt", "tryboot.txt"].map
    fun name => ⟨[name], some [], false, 0, .zero 32, 0, .ofBytes 32 [7]⟩

/-- The archive of one zero byte. -/
def parsedArchive : ZipArchive := { smallArchive [] with bytes := some [0] }

/-- The operation stages the small manifest. -/
def stagesSmallManifest : Operation → Bool
  | .stage asked => asked.manifest = smallManifest.installed &&
      asked.identity.manifestSha256 ≠ .zero 32
  | _ => false

theorem eq_of_stagesSmallManifest {op : Operation} (h : stagesSmallManifest op = true) :
    ∃ asked, op = .stage asked ∧ asked.manifest = smallManifest.installed ∧
      asked.identity.manifestSha256 ≠ .zero 32 := by
  unfold stagesSmallManifest at h
  split at h
  · simp only [Bool.and_eq_true, decide_eq_true_eq] at h
    exact ⟨_, rfl, h⟩
  · cases h

end BmxUpdate
