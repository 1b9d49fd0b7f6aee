import BmxUpdate.Https.Request

/-!
# What a request chain does on the network

`Traffic` is what the components around a chain have seen of it: the
connections made, the bytes sent and received on the newest one, and what the
sink has taken.  `Permitted` says which operation may come next, `Finished` in
what state a chain may return.  Both hold whatever the components answer.
-/

namespace BmxUpdate

namespace Https

open Wire Http Interaction

/-! ## Traffic -/

/-- The newest stream. -/
inductive Connection where
  | absent
  | opened (stream : Nat)
  | closed (stream : Nat)
deriving DecidableEq, Repr

/-- What has happened so far; `sent` and `received` are of the newest connection. -/
structure Traffic where
  connects : Nat
  host : Bytes
  connection : Connection
  sent : Bytes
  received : Bytes
  delivered : Bytes
deriving DecidableEq, Repr

namespace Traffic

def start : Traffic := ⟨0, [], .absent, [], [], []⟩

/-- The traffic after an operation. -/
def after (traffic : Traffic) : (op : HttpsOp) → HttpsAnswer op → Traffic
  | .connectVerified host _, answer =>
      { traffic with
        connects := traffic.connects + 1, host, sent := [], received := []
        connection := match (answer : Option Nat) with
          | some stream => .opened stream
          | none => .absent }
  | .send _ data, answer =>
      match (answer : Option { n : Nat // 0 < n ∧ n ≤ data.length }) with
      | some sent => { traffic with sent := traffic.sent ++ data.take sent.val }
      | none => traffic
  | .receive _ capacity, answer =>
      match (answer : Option { data : Bytes // 0 < data.length ∧ data.length ≤ capacity }) with
      | some data => { traffic with received := traffic.received ++ data.val }
      | none => traffic
  | .close stream, _ => { traffic with connection := .closed stream }
  | .destroy _, _ => { traffic with connection := .absent }
  | .write data, answer =>
      match (answer : Bool) with
      | true => { traffic with delivered := traffic.delivered ++ data }
      | false => traffic
  | .checkpoint _ _ _, _ => traffic
  | .cancelRequested, _ => traffic

end Traffic

/-- Components that answer anything. -/
def observing : Surroundings HttpsOp HttpsAnswer Traffic where
  answers := fun traffic op answer traffic' => traffic' = traffic.after op answer
  halts := fun _ _ _ => False

/-! ## Requests -/

def bearerField (token : Bytes) : Field := ⟨bytesOf "Authorization", bytesOf "Bearer " ++ token⟩

/-- The credentials of a hop: on the first only, and for the API only. -/
def credentialFields (options : HttpsRequestOptions) (first : Prop) [Decidable first]
    (host : Bytes) : List Field :=
  if first ∧ host = apiHost then options.bearerToken.toList.map bearerField else []

def versionFields (host : Bytes) : List Field :=
  if host = apiHost then [⟨bytesOf "X-GitHub-Api-Version", bytesOf "2022-11-28"⟩] else []

def contentFields (options : HttpsRequestOptions) : List Field :=
  if options.method = some methodPost then
    [⟨bytesOf "Content-Type", options.contentType.getD []⟩,
      ⟨bytesOf "Content-Length", decimal options.body.length⟩]
  else []

/-- The request of a hop. -/
def updateRequest (arguments : HttpsArguments) (redirect : Nat) (parsed : ParsedUpdateUrl) :
    Request :=
  let options := arguments.options
  { method := options.method.getD []
    target := parsed.pathAndQuery
    fields :=
      [⟨bytesOf "Host", parsed.host⟩,
        ⟨bytesOf "User-Agent", bytesOf "BMX-Updater/1"⟩,
        ⟨bytesOf "Accept", options.accept.getD (acceptHeader arguments.requestKind)⟩,
        ⟨bytesOf "Accept-Encoding", bytesOf "identity"⟩] ++
      versionFields parsed.host ++ credentialFields options (redirect = 0) parsed.host ++
      contentFields options ++ [⟨bytesOf "Connection", bytesOf "close"⟩]
    body := options.body }

/-- The same call without a token. -/
def HttpsArguments.withoutToken (arguments : HttpsArguments) : HttpsArguments :=
  { arguments with options := { arguments.options with bearerToken := none } }

/-- A request that may be sent on the `n`th connection, to `host`. -/
structure HopRequest (arguments : HttpsArguments) (n : Nat) (host : Bytes) (request : Request) :
    Prop where
  wellFormed : request.WellFormed
  method : arguments.options.method = some request.method
  named : request.fields.filter (Field.named (bytesOf "host")) = [⟨bytesOf "Host", host⟩]
  credential : request.fields.filter (Field.named (bytesOf "authorization")) =
    credentialFields arguments.options (n = 1) host
  confidential : ¬(n = 1 ∧ host = apiHost) → ∃ redirect parsed,
    request = updateRequest arguments.withoutToken redirect parsed
  body : request.body = arguments.options.body
  once : request.body ≠ [] → n = 1

/-- These bytes are one request for the `n`th connection and cannot be read as another. -/
def IsRequest (arguments : HttpsArguments) (n : Nat) (host bytes : Bytes) : Prop :=
  ∃ request, HopRequest arguments n host request ∧ bytes = request.render ∧
    ∀ (other : Request) (rest : Bytes), other.WellFormed → bytes = other.render ++ rest →
      other = request ∧ rest = []

/-! ## What is permitted -/

/-- The hosts of a hop. -/
def hostOfHop (arguments : HttpsArguments) (hop : Nat) (host : Bytes) : Bool :=
  if hop = 0 then hostAllowed arguments.initialPurpose host else isAuthorizedRedirectHost host

/-- The operations that may come next. -/
def Permitted (arguments : HttpsArguments) (traffic : Traffic) : HttpsOp → Prop
  | .connectVerified host port =>
      traffic.connection = .absent ∧ traffic.connects ≤ kMaximumHttpsRedirects ∧ port = 443 ∧
        hostOfHop arguments traffic.connects host = true
  | .send stream data =>
      traffic.connection = .opened stream ∧ traffic.received = [] ∧
        IsRequest arguments traffic.connects traffic.host (traffic.sent ++ data)
  | .receive stream _ =>
      traffic.connection = .opened stream ∧
        IsRequest arguments traffic.connects traffic.host traffic.sent
  | .close stream => traffic.connection = .opened stream
  | .destroy stream => traffic.connection = .closed stream
  | .write data =>
      (∃ stream, traffic.connection = .opened stream) ∧
        (traffic.delivered ++ data).length ≤ arguments.maximumBodyBytes
  | .checkpoint _ _ _ => True
  | .cancelRequested => True

/-- What the newest connection received is a 200 response, and the sink has its payload. -/
def Complete (arguments : HttpsArguments) (traffic : Traffic) : Prop :=
  ∃ head size, parseHttpResponseHead traffic.received = .ok (head, size) ∧
    head.statusCode = 200 ∧ head.Frames (traffic.received.drop size) traffic.delivered ∧
    traffic.delivered.length ≤ arguments.maximumBodyBytes

/-- The state in which a result may be returned. -/
structure Finished (arguments : HttpsArguments) (result : HttpsGetResult) (traffic : Traffic) :
    Prop where
  released : traffic.connection = .absent
  connects : traffic.connects ≤ kMaximumHttpsRedirects + 1
  complete : result.status = .ok → Complete arguments traffic ∧
    result.bodyBytes = traffic.delivered.length ∧ traffic.connects = result.redirects + 1

/-! ## The request is well formed -/

theorem render_versionFields (host : Bytes) :
    (versionFields host).flatMap Field.render =
      if host = apiHost then bytesOf "X-GitHub-Api-Version: 2022-11-28" ++ crlf else [] := by
  unfold versionFields
  split
  · decide
  · rfl

theorem render_credentialFields (options : HttpsRequestOptions) (redirect : Nat) (host : Bytes) :
    (credentialFields options (redirect = 0) host).flatMap Field.render =
      authorization options redirect host := by
  have hname : bytesOf "Authorization: Bearer " =
      bytesOf "Authorization" ++ bytesOf ": " ++ bytesOf "Bearer " := by decide
  unfold credentialFields authorization
  cases options.bearerToken with
  | none => simp
  | some token =>
      dsimp only
      split
      · simp [bearerField, Field.render, hname]
      · rfl

theorem render_contentFields (options : HttpsRequestOptions) :
    (contentFields options).flatMap Field.render = contentHeaders options := by
  have htype : bytesOf "Content-Type: " = bytesOf "Content-Type" ++ bytesOf ": " := by decide
  have hlength : bytesOf "Content-Length: " = bytesOf "Content-Length" ++ bytesOf ": " := by
    decide
  unfold contentFields contentHeaders
  split
  · simp [Field.render, htype, hlength]
  · rfl

theorem requestHeader_eq (arguments : HttpsArguments) (redirect : Nat) (parsed : ParsedUpdateUrl) :
    requestHeader arguments redirect parsed = (updateRequest arguments redirect parsed).head := by
  have hhost : bytesOf "Host: " = bytesOf "Host" ++ bytesOf ": " := by decide
  have hagent : bytesOf "User-Agent: BMX-Updater/1" =
      bytesOf "User-Agent" ++ bytesOf ": " ++ bytesOf "BMX-Updater/1" := by decide
  have haccept : bytesOf "Accept: " = bytesOf "Accept" ++ bytesOf ": " := by decide
  have hencoding : bytesOf "Accept-Encoding: identity" =
      bytesOf "Accept-Encoding" ++ bytesOf ": " ++ bytesOf "identity" := by decide
  have hclose : bytesOf "Connection: close" =
      bytesOf "Connection" ++ bytesOf ": " ++ bytesOf "close" := by decide
  unfold requestHeader updateRequest Request.head
  rw [hhost, hagent, haccept, hencoding, hclose]
  simp only [List.flatMap_append, render_versionFields, render_credentialFields,
    render_contentFields]
  simp [Field.render]

/-- The parts of a request that fit their buffers are the request. -/
theorem requestBytes_eq {arguments : HttpsArguments} {redirect : Nat} {parsed : ParsedUpdateUrl}
    {bytes : Bytes} (h : requestBytes arguments redirect parsed = some bytes) :
    bytes = (updateRequest arguments redirect parsed).render := by
  unfold requestBytes at h
  dsimp only at h
  rw [Option.ite_none_left_eq_some, Option.ite_none_left_eq_some,
    Option.ite_none_left_eq_some] at h
  obtain ⟨-, -, -, h⟩ := h
  rw [← Option.some.inj h, requestHeader_eq]
  rfl

/-- What the first check of `HttpsRequest` establishes. -/
structure ValidOptions (arguments : HttpsArguments) : Prop where
  purpose : initialPurposeAllowed arguments.initialPurpose = true
  method : arguments.options.method = some methodGet ∧ arguments.options.body = [] ∨
    arguments.options.method = some methodPost ∧ arguments.options.body ≠ []
  accept : safeHeaderValue arguments.options.accept 128 = true
  contentType : safeHeaderValue arguments.options.contentType 128 = true
  bearerToken : safeHeaderValue arguments.options.bearerToken 512 = true

theorem validOptions_of_argumentsValid {arguments : HttpsArguments}
    (h : argumentsValid arguments = true) : ValidOptions arguments := by
  unfold argumentsValid at h
  simp only [Bool.and_eq_true, Bool.or_eq_true, decide_eq_true_eq, Bool.not_eq_true',
    Bool.and_eq_false_iff, Bool.or_eq_false_iff, decide_eq_false_iff_not] at h
  obtain ⟨⟨⟨⟨⟨⟨⟨-, hpurpose⟩, hmethod⟩, haccept⟩, htype⟩, htoken⟩, hget⟩, hpost⟩ := h
  refine ⟨hpurpose, ?_, haccept, htype, htoken⟩
  rcases hmethod with hmethod | hmethod
  · exact .inl ⟨hmethod, Decidable.not_not.mp (hget.resolve_left (absurd hmethod ·))⟩
  · exact .inr ⟨hmethod, (hpost.resolve_left (absurd hmethod ·)).1⟩

section WellFormed

variable {arguments : HttpsArguments} {redirect : Nat} {parsed : ParsedUpdateUrl}
  {purpose : UpdateUrlPurpose}

theorem filter_versionFields (host : Bytes) {name : Bytes}
    (hname : Field.named name ⟨bytesOf "X-GitHub-Api-Version", []⟩ = false) :
    (versionFields host).filter (Field.named name) = [] := by
  unfold versionFields
  split
  · exact List.filter_cons_of_neg (Bool.eq_false_iff.mp hname)
  · rfl

theorem filter_credentialFields (options : HttpsRequestOptions) (first : Prop) [Decidable first]
    (host : Bytes) {name : Bytes} (hname : Field.named name ⟨bytesOf "Authorization", []⟩ = false) :
    (credentialFields options first host).filter (Field.named name) = [] := by
  unfold credentialFields
  split
  · rw [List.filter_eq_nil_iff]
    intro field hfield
    obtain ⟨token, -, rfl⟩ := List.mem_map.mp hfield
    exact Bool.eq_false_iff.mp hname
  · rfl

theorem filter_contentFields (options : HttpsRequestOptions) {name : Bytes}
    (htype : Field.named name ⟨bytesOf "Content-Type", []⟩ = false)
    (hlength : Field.named name ⟨bytesOf "Content-Length", []⟩ = false) :
    (contentFields options).filter (Field.named name) = [] := by
  unfold contentFields
  split
  · -- the name alone decides
    have htype' : ¬Field.named name
        ⟨bytesOf "Content-Type", options.contentType.getD []⟩ = true := Bool.eq_false_iff.mp htype
    have hlength' : ¬Field.named name
        ⟨bytesOf "Content-Length", decimal options.body.length⟩ = true :=
      Bool.eq_false_iff.mp hlength
    rw [List.filter_cons_of_neg htype', List.filter_cons_of_neg hlength']
    rfl
  · rfl

theorem host_updateRequest : (updateRequest arguments redirect parsed).fields.filter
    (Field.named (bytesOf "host")) = [⟨bytesOf "Host", parsed.host⟩] := by
  unfold updateRequest
  simp only [List.filter_append]
  rw [filter_versionFields _ (by decide), filter_credentialFields _ _ _ (by decide),
    filter_contentFields _ (by decide) (by decide)]
  simp +decide [Field.named]

theorem unchunked_updateRequest : (updateRequest arguments redirect parsed).fields.filter
    (Field.named (bytesOf "transfer-encoding")) = [] := by
  unfold updateRequest
  simp only [List.filter_append]
  rw [filter_versionFields _ (by decide), filter_credentialFields _ _ _ (by decide),
    filter_contentFields _ (by decide) (by decide)]
  simp +decide [Field.named]

theorem length_updateRequest (hoptions : ValidOptions arguments) :
    (updateRequest arguments redirect parsed).fields.filter
        (Field.named (bytesOf "content-length")) =
      if arguments.options.body = [] then []
      else [⟨bytesOf "Content-Length", decimal arguments.options.body.length⟩] := by
  have hdistinct : ¬(some methodGet = some methodPost) := by decide
  unfold updateRequest contentFields
  simp only [List.filter_append]
  rw [filter_versionFields _ (by decide), filter_credentialFields _ _ _ (by decide)]
  rcases hoptions.method with ⟨hmethod, hbody⟩ | ⟨hmethod, hbody⟩
  · rw [hmethod, hbody, if_neg hdistinct]
    simp +decide [Field.named]
  · rw [hmethod, if_pos rfl, if_neg hbody]
    simp +decide [Field.named]

theorem credential_updateRequest : (updateRequest arguments redirect parsed).fields.filter
    (Field.named (bytesOf "authorization")) =
      credentialFields arguments.options (redirect = 0) parsed.host := by
  have hall : (credentialFields arguments.options (redirect = 0) parsed.host).filter
      (Field.named (bytesOf "authorization")) =
        credentialFields arguments.options (redirect = 0) parsed.host := by
    rw [List.filter_eq_self]
    intro field hfield
    unfold credentialFields at hfield
    split at hfield
    · obtain ⟨token, -, rfl⟩ := List.mem_map.mp hfield
      show decide ((bytesOf "Authorization").map lower = bytesOf "authorization") = true
      decide
    · cases hfield
  unfold updateRequest
  simp only [List.filter_append]
  rw [filter_versionFields _ (by decide), filter_contentFields _ (by decide) (by decide), hall]
  simp +decide [Field.named]

/-- The bytes of safe values and of hosts stand in a field, those of a target in a target. -/
theorem byte_classes : ∀ c : UInt8, (0x21 ≤ c ∧ c ≤ 0x7e → isFieldByte c = true) ∧
    (isAsciiHostCharacter c = true → isFieldByte c = true) ∧
    (isForbiddenRequestCharacter c = false → isTargetByte c = true) :=
  forall_byte (by decide +kernel)

/-- A byte of a safe value stays in its line. -/
theorem isFieldByte_of_safe {value : Option Bytes} {maximum : Nat}
    (h : safeHeaderValue value maximum = true) : ∀ c ∈ value.getD [], isFieldByte c = true := by
  have hclass : ∀ c : UInt8, 0x21 ≤ c ∧ c ≤ 0x7e → isFieldByte c = true :=
    fun c => (byte_classes c).1
  cases value with
  | none => nofun
  | some value =>
      intro c hc
      simp only [safeHeaderValue, Bool.and_eq_true, List.all_eq_true, decide_eq_true_eq] at h
      exact hclass c (h.1.1 c hc)

/-- A name and a value that stay in their line. -/
def SafeField (field : Field) : Prop :=
  Token field.name ∧ ∀ c ∈ field.value, isFieldByte c = true

theorem safeField_of_all {name value : Bytes} (hnonempty : name ≠ [])
    (hname : name.all isTokenByte = true) (hvalue : ∀ c ∈ value, isFieldByte c = true) :
    SafeField ⟨name, value⟩ :=
  ⟨⟨hnonempty, List.all_eq_true.mp hname⟩, hvalue⟩

theorem isFieldByte_of_all {value : Bytes} (h : value.all isFieldByte = true) :
    ∀ c ∈ value, isFieldByte c = true := List.all_eq_true.mp h

theorem isFieldByte_accept (hoptions : ValidOptions arguments) :
    ∀ c ∈ arguments.options.accept.getD (acceptHeader arguments.requestKind),
      isFieldByte c = true := by
  have haccept := isFieldByte_of_safe hoptions.accept
  cases hvalue : arguments.options.accept with
  | none =>
      apply isFieldByte_of_all
      show (acceptHeader arguments.requestKind).all isFieldByte = true
      cases arguments.requestKind <;> decide
  | some value => rwa [hvalue] at haccept

theorem safeField_bearerField {token : Bytes} (hoptions : ValidOptions arguments)
    (htoken : arguments.options.bearerToken = some token) : SafeField (bearerField token) := by
  apply safeField_of_all (by decide) (by decide)
  intro c hc
  rcases List.mem_append.mp hc with hc | hc
  · exact isFieldByte_of_all (by decide) c hc
  · have hsafe := isFieldByte_of_safe hoptions.bearerToken
    rw [htoken] at hsafe
    exact hsafe c hc

/-- Every field of a request stays in its line. -/
theorem safeField_updateRequest (hoptions : ValidOptions arguments)
    (hurl : AuthorizedUrl purpose parsed) :
    ∀ field ∈ (updateRequest arguments redirect parsed).fields, SafeField field := by
  have hhost : ∀ c ∈ parsed.host, isFieldByte c = true := by
    have hclass : ∀ c : UInt8, isAsciiHostCharacter c = true → isFieldByte c = true :=
      fun c => (byte_classes c).2.1
    exact fun c hc => hclass c (hurl.hostCharacters c hc)
  intro field hfield
  unfold updateRequest at hfield
  simp only [List.mem_append] at hfield
  rcases hfield with (((hfield | hfield) | hfield) | hfield) | hfield
  · simp only [List.mem_cons, List.not_mem_nil, or_false] at hfield
    rcases hfield with rfl | rfl | rfl | rfl
    · exact safeField_of_all (by decide) (by decide) hhost
    · exact safeField_of_all (by decide) (by decide) (isFieldByte_of_all (by decide))
    · exact safeField_of_all (by decide) (by decide) (isFieldByte_accept hoptions)
    · exact safeField_of_all (by decide) (by decide) (isFieldByte_of_all (by decide))
  · unfold versionFields at hfield
    split at hfield
    · rw [List.mem_singleton.mp hfield]
      exact safeField_of_all (by decide) (by decide) (isFieldByte_of_all (by decide))
    · cases hfield
  · unfold credentialFields at hfield
    split at hfield
    · obtain ⟨token, htoken, rfl⟩ := List.mem_map.mp hfield
      exact safeField_bearerField hoptions (Option.mem_toList.mp htoken)
    · cases hfield
  · unfold contentFields at hfield
    split at hfield
    · simp only [List.mem_cons, List.not_mem_nil, or_false] at hfield
      rcases hfield with rfl | rfl
      · exact safeField_of_all (by decide) (by decide) (isFieldByte_of_safe hoptions.contentType)
      · exact safeField_of_all (by decide) (by decide) isFieldByte_decimal
    · cases hfield
  · rw [List.mem_singleton.mp hfield]
    exact safeField_of_all (by decide) (by decide) (isFieldByte_of_all (by decide))

theorem wellFormed_updateRequest (hoptions : ValidOptions arguments)
    (hurl : AuthorizedUrl purpose parsed) :
    (updateRequest arguments redirect parsed).WellFormed where
  method := by
    have hget : Token methodGet := ⟨by decide, List.all_eq_true.mp (by decide)⟩
    have hpost : Token methodPost := ⟨by decide, List.all_eq_true.mp (by decide)⟩
    show Token (arguments.options.method.getD [])
    rcases hoptions.method with ⟨hmethod, -⟩ | ⟨hmethod, -⟩
    · rwa [hmethod]
    · rwa [hmethod]
  target := by
    have hclass : ∀ c : UInt8, isForbiddenRequestCharacter c = false → isTargetByte c = true :=
      fun c => (byte_classes c).2.2
    exact ⟨hurl.path, fun c hc => hclass c (hurl.pathCharacters c hc)⟩
  fields := safeField_updateRequest hoptions hurl
  host := by
    rw [host_updateRequest]
    rfl
  length := length_updateRequest hoptions
  unchunked := unchunked_updateRequest

/-- The request of a hop may be sent on its connection. -/
theorem hopRequest_updateRequest (hoptions : ValidOptions arguments)
    (hurl : AuthorizedUrl purpose parsed)
    (hredirect : redirect ≠ 0 → arguments.options.method = some methodGet) :
    HopRequest arguments (redirect + 1) parsed.host
      (updateRequest arguments redirect parsed) where
  wellFormed := wellFormed_updateRequest hoptions hurl
  method := by
    rcases hoptions.method with ⟨hmethod, -⟩ | ⟨hmethod, -⟩
    · simp [updateRequest, hmethod]
    · simp [updateRequest, hmethod]
  named := host_updateRequest
  credential := by
    rw [credential_updateRequest]
    simp only [credentialFields, Nat.add_eq_right]
  confidential := by
    intro hother
    refine ⟨redirect, parsed, ?_⟩
    have hnone : ¬(redirect = 0 ∧ parsed.host = apiHost) := by
      rintro ⟨rfl, hapi⟩
      exact hother ⟨rfl, hapi⟩
    simp only [updateRequest, HttpsArguments.withoutToken, credentialFields, if_neg hnone]
    rfl
  body := rfl
  once := by
    intro hbody
    by_contra hlater
    rcases hoptions.method with ⟨-, hempty⟩ | ⟨hmethod, -⟩
    · exact hbody hempty
    · have hget := hredirect (by omega)
      rw [hmethod] at hget
      exact absurd hget (by decide)

theorem isRequest_updateRequest (hoptions : ValidOptions arguments)
    (hurl : AuthorizedUrl purpose parsed)
    (hredirect : redirect ≠ 0 → arguments.options.method = some methodGet) :
    IsRequest arguments (redirect + 1) parsed.host
      (updateRequest arguments redirect parsed).render := by
  have hhop := hopRequest_updateRequest hoptions hurl hredirect
  refine ⟨_, hhop, rfl, ?_⟩
  intro other rest hother heq
  rw [← List.append_nil (Request.render _)] at heq
  obtain ⟨rfl, hrest⟩ := Request.render_unique hhop.wellFormed hother heq
  exact ⟨rfl, hrest.symm⟩

end WellFormed

/-! ## Along the program -/

section Steps

variable {arguments : HttpsArguments} {α β : Type} {Q : α → Traffic → Prop}
  {traffic : Traffic}

/-- A result of a chain that gave up. -/
def GaveUp (result : HttpsGetResult) (traffic : Traffic) : Prop :=
  traffic.connection = .absent ∧ traffic.connects ≤ kMaximumHttpsRedirects + 1 ∧
    result.status ≠ .ok

/-- Every operation of a part of the chain is permitted; it ends in `Q` or gives up. -/
abbrev Confined (arguments : HttpsArguments) (Q : α → Traffic → Prop) (p : HttpsProc α)
    (traffic : Traffic) : Prop :=
  Fallible.Guarded observing (Permitted arguments) Q GaveUp p traffic

theorem confined_checkpoint {completed total : Nat} {k : Bool → HttpsProc α}
    (h : ∀ ok, Confined arguments Q (k ok) traffic) :
    Confined arguments Q (networkCheckpoint arguments completed total >>= k) traffic := by
  unfold networkCheckpoint
  cases arguments.foregroundProgress with
  | true =>
      apply Fallible.guarded_ask
      · exact trivial
      · rintro ok _ rfl
        exact h ok
  | false => exact Fallible.guarded_bind (Fallible.guarded_pure (h true))

theorem confined_release {stream : Nat} {k : Unit → HttpsProc α}
    (hopened : traffic.connection = .opened stream)
    (h : Confined arguments Q (k ()) { traffic with connection := .absent }) :
    Confined arguments Q (release stream >>= k) traffic := by
  unfold release
  apply Fallible.guarded_bind
  apply Fallible.guarded_ask
  · exact hopened
  rintro _ _ rfl
  apply Fallible.guarded_ask
  · rfl
  rintro _ _ rfl
  exact Fallible.guarded_pure h

/-- A chain that releases its stream and gives up. -/
theorem confined_giveUp {stream : Nat} {result : HttpsGetResult}
    (hopened : traffic.connection = .opened stream)
    (hconnects : traffic.connects ≤ kMaximumHttpsRedirects + 1) (hstatus : result.status ≠ .ok) :
    Confined arguments Q (giveUp stream result) traffic :=
  confined_release hopened (Fallible.guarded_throw ⟨rfl, hconnects, hstatus⟩)

/-- A connection on which a request is being sent. -/
structure Sending (arguments : HttpsArguments) (stream : Nat) (request : Bytes)
    (traffic : Traffic) : Prop where
  connection : traffic.connection = .opened stream
  connects : traffic.connects ≤ kMaximumHttpsRedirects + 1
  received : traffic.received = []
  delivered : traffic.delivered = []
  isRequest : IsRequest arguments traffic.connects traffic.host request

/-- What `SendAll` leaves behind. -/
theorem confined_sendAll {stream size : Nat} {data request : Bytes}
    (hsending : Sending arguments stream request traffic)
    (hdata : traffic.sent ++ data = request) :
    Confined arguments (fun outcome traffic' =>
        Sending arguments stream request traffic' ∧ traffic'.connects = traffic.connects ∧
          (outcome.1 = true → traffic'.sent = request))
      (sendAll arguments stream size data) traffic := by
  induction hn : data.length using Nat.strong_induction_on generalizing data traffic with
  | _ n ih =>
    subst hn
    rw [sendAll]
    split
    · next hempty =>
        rw [hempty, List.append_nil] at hdata
        exact Fallible.guarded_pure ⟨hsending, rfl, fun _ => hdata⟩
    · apply confined_checkpoint
      intro ok
      split
      · exact Fallible.guarded_pure ⟨hsending, rfl, nofun⟩
      · apply Fallible.guarded_ask
        · exact ⟨hsending.connection, hsending.received, by rw [hdata]; exact hsending.isRequest⟩
        rintro result _ rfl
        cases result with
        | none => exact Fallible.guarded_pure ⟨hsending, rfl, nofun⟩
        | some sent =>
            have hsent := sent.property
            have hnext : Sending arguments stream request
                { traffic with sent := traffic.sent ++ data.take sent.val } :=
              ⟨hsending.connection, hsending.connects, hsending.received, hsending.delivered,
                hsending.isRequest⟩
            apply confined_checkpoint
            intro ok
            split
            · exact Fallible.guarded_pure ⟨hnext, rfl, nofun⟩
            · refine ih _ (by rw [List.length_drop]; omega) hnext ?_ rfl
              show traffic.sent ++ data.take sent.val ++ data.drop sent.val = request
              rw [List.append_assoc, List.take_append_drop, hdata]

/-- A connection on which a request was sent. -/
structure Receiving (arguments : HttpsArguments) (stream : Nat) (traffic : Traffic) : Prop where
  connection : traffic.connection = .opened stream
  connects : traffic.connects ≤ kMaximumHttpsRedirects + 1
  isRequest : IsRequest arguments traffic.connects traffic.host traffic.sent

/-- What the loop that receives the head leaves behind. -/
structure HeadReceived (arguments : HttpsArguments) (stream : Nat) (traffic : Traffic)
    (redirects : Nat) (outcome : HttpsGetResult × Bytes × Option (HttpResponseHead × Nat))
    (traffic' : Traffic) : Prop where
  receiving : Receiving arguments stream traffic'
  connects : traffic'.connects = traffic.connects
  delivered : traffic'.delivered = traffic.delivered
  received : traffic'.received = outcome.2.1
  redirects : outcome.1.redirects = redirects
  parsed : ∀ found ∈ outcome.2.2, parseHttpResponseHead outcome.2.1 = .ok found

theorem confined_receiveHead {stream : Nat} {result : HttpsGetResult} {headers : Bytes}
    (hreceiving : Receiving arguments stream traffic) (hreceived : traffic.received = headers) :
    Confined arguments (HeadReceived arguments stream traffic result.redirects)
      (receiveHead arguments stream result headers) traffic := by
  induction hn : kMaximumHttpHeaderBytes - headers.length using Nat.strong_induction_on
    generalizing headers result traffic with
  | _ n ih =>
    subst hn
    rw [receiveHead]
    apply confined_checkpoint
    intro ok
    split
    · exact Fallible.guarded_pure ⟨hreceiving, rfl, rfl, hreceived, rfl, by rintro _ ⟨⟩⟩
    split
    · exact Fallible.guarded_pure ⟨hreceiving, rfl, rfl, hreceived, rfl, by rintro _ ⟨⟩⟩
    apply Fallible.guarded_ask
    · exact ⟨hreceiving.connection, hreceiving.isRequest⟩
    rintro answer _ rfl
    cases answer with
    | none => exact Fallible.guarded_pure ⟨hreceiving, rfl, rfl, hreceived, rfl, by rintro _ ⟨⟩⟩
    | some data =>
        have hdata := data.property
        have hnext : Receiving arguments stream
            { traffic with received := traffic.received ++ data.val } :=
          ⟨hreceiving.connection, hreceiving.connects, hreceiving.isRequest⟩
        have hreceived' : traffic.received ++ data.val = headers ++ data.val := by rw [hreceived]
        apply confined_checkpoint
        intro ok
        split
        · exact Fallible.guarded_pure ⟨hnext, rfl, rfl, hreceived', rfl, by rintro _ ⟨⟩⟩
        · split
          · next found hfound =>
              refine Fallible.guarded_pure ⟨hnext, rfl, rfl, hreceived', rfl, ?_⟩
              rintro _ ⟨⟩
              exact hfound
          · have hshorter : kMaximumHttpHeaderBytes - (headers ++ data.val).length <
                kMaximumHttpHeaderBytes - headers.length := by
              rw [List.length_append]
              omega
            refine Fallible.guarded_mono (ih _ hshorter hnext hreceived' rfl) ?_
            intro outcome traffic' h
            exact ⟨h.receiving, h.connects, h.delivered, h.received, h.redirects, h.parsed⟩
          · exact Fallible.guarded_pure ⟨hnext, rfl, rfl, hreceived', rfl, by rintro _ ⟨⟩⟩

/-- What an exchange leaves behind. -/
structure Exchanged (arguments : HttpsArguments) (redirect redirects : Nat) (exchange : Exchange)
    (traffic : Traffic) : Prop where
  receiving : Receiving arguments exchange.stream traffic
  connects : traffic.connects = redirect + 1
  delivered : traffic.delivered = []
  received : traffic.received = exchange.headers
  redirects : exchange.result.redirects = redirects
  parsed : parseHttpResponseHead exchange.headers = .ok (exchange.head, exchange.headerBytes)

theorem confined_exchange {redirect : Nat} {result : HttpsGetResult} {parsed : ParsedUpdateUrl}
    (hoptions : ValidOptions arguments)
    (hurl : AuthorizedUrl (if redirect = 0 then arguments.initialPurpose else .redirect) parsed)
    (hredirect : redirect ≠ 0 → arguments.options.method = some methodGet)
    (hlast : redirect ≤ kMaximumHttpsRedirects) (habsent : traffic.connection = .absent)
    (hconnects : traffic.connects = redirect) (hdelivered : traffic.delivered = []) :
    Confined arguments (Exchanged arguments redirect result.redirects)
      (exchange arguments redirect result parsed) traffic := by
  unfold exchange
  apply confined_checkpoint
  intro ok
  split
  · exact Fallible.guarded_throw ⟨habsent, by omega, nofun⟩
  apply Fallible.guarded_ask
  · refine ⟨habsent, by omega, hurl.port, ?_⟩
    have hhost := hurl.host
    unfold hostOfHop
    rw [hconnects]
    split
    · next hzero => rwa [if_pos hzero] at hhost
    · next hzero => rwa [if_neg hzero] at hhost
  rintro answer _ rfl
  cases answer with
  | none =>
      have hfailed : ∀ status, status ≠ HttpsGetStatus.ok → Confined arguments
          (Exchanged arguments redirect result.redirects)
          (throw { result with status := status })
          (traffic.after (.connectVerified parsed.host parsed.port) (none : Option Nat)) := by
        intro status hstatus
        refine Fallible.guarded_throw ⟨rfl, ?_, hstatus⟩
        show traffic.connects + 1 ≤ _
        omega
      dsimp only
      split
      · exact hfailed _ nofun
      · apply Fallible.guarded_ask
        · exact trivial
        rintro canceled _ rfl
        exact hfailed _ (by split <;> nofun)
  | some stream =>
      have hopened : (traffic.after (.connectVerified parsed.host parsed.port)
          (some stream : Option Nat)).connection = .opened stream := rfl
      have hbound : (traffic.after (.connectVerified parsed.host parsed.port)
          (some stream : Option Nat)).connects ≤ kMaximumHttpsRedirects + 1 := by
        show traffic.connects + 1 ≤ _
        omega
      dsimp only
      apply confined_checkpoint
      intro ok
      split
      · exact confined_giveUp hopened hbound nofun
      split
      · exact confined_giveUp hopened hbound nofun
      · next request hrequest =>
          have hsending : Sending arguments stream request
              (traffic.after (.connectVerified parsed.host parsed.port)
                (some stream : Option Nat)) := by
            refine ⟨hopened, hbound, rfl, hdelivered, ?_⟩
            rw [requestBytes_eq hrequest]
            show IsRequest arguments (traffic.connects + 1) parsed.host _
            rw [hconnects]
            exact isRequest_updateRequest hoptions hurl hredirect
          apply Fallible.guarded_bind
          refine Fallible.guarded_mono (confined_sendAll hsending rfl) ?_
          rintro ⟨sent, canceled⟩ traffic₁ ⟨hsending₁, hconnects₁, hsent⟩
          dsimp only at hsent ⊢
          split
          · exact confined_giveUp hsending₁.connection hsending₁.connects (by split <;> nofun)
          next hall =>
            have hreceiving : Receiving arguments stream traffic₁ := by
              refine ⟨hsending₁.connection, hsending₁.connects, ?_⟩
              rw [hsent (by simpa using hall)]
              exact hsending₁.isRequest
            apply Fallible.guarded_bind
            refine Fallible.guarded_mono (confined_receiveHead hreceiving hsending₁.received) ?_
            rintro ⟨result', headers, found⟩ traffic₂ hhead
            cases found with
            | none =>
                dsimp only
                split
                · exact confined_giveUp hhead.receiving.connection hhead.receiving.connects nofun
                · next hstatus =>
                    refine confined_giveUp hhead.receiving.connection hhead.receiving.connects ?_
                    intro hok
                    rw [hok] at hstatus
                    exact hstatus ⟨nofun, nofun⟩
            | some found =>
                refine Fallible.guarded_pure ⟨hhead.receiving, ?_, ?_, hhead.received,
                  hhead.redirects, hhead.parsed found rfl⟩
                · rw [hhead.connects, hconnects₁]
                  show traffic.connects + 1 = _
                  rw [hconnects]
                · rw [hhead.delivered, hsending₁.delivered]

/-- The decoder has been fed what was received after the head. -/
structure Decoding (arguments : HttpsArguments) (head : HttpResponseHead) (headerBytes : Nat)
    (decoder : HttpBodyDecoder) (traffic : Traffic) : Prop where
  maximum : decoder.maximumBodyBytes = arguments.maximumBodyBytes
  decoded : decoder.decodedBytes = traffic.delivered.length
  bounded : traffic.delivered.length ≤ arguments.maximumBodyBytes
  awaits : ∀ encoded payload, decoder.Awaits encoded payload →
    (HttpBodyDecoder.new head arguments.maximumBodyBytes).Awaits
      (traffic.received.drop headerBytes ++ encoded) (traffic.delivered ++ payload)

/-- The traffic with this much delivered. -/
def Delivers (traffic : Traffic) (delivered : Bytes) (traffic' : Traffic) : Prop :=
  traffic' = { traffic with delivered := delivered }

theorem sinks_writeSink {stream : Nat} (hopened : traffic.connection = .opened stream) :
    HttpBodyDecoder.Sinks observing (Permitted arguments) writeSink arguments.maximumBodyBytes
      (Delivers traffic) := by
  rintro before data _ rfl hroom
  refine ⟨⟨⟨stream, hopened⟩, ?_⟩, ?_⟩
  · rw [List.length_append]
    exact hroom
  · rintro accepted _ rfl
    cases accepted with
    | true => rfl
    | false => rfl

/-- One `Feed`. -/
theorem confined_feed {stream : Nat} {decoder : HttpBodyDecoder} {data : Bytes}
    {k : HttpBodyStatus × HttpBodyDecoder → HttpsProc α}
    (hopened : traffic.connection = .opened stream) (hvalid : decoder.Valid)
    (hmaximum : decoder.maximumBodyBytes = arguments.maximumBodyBytes)
    (hdecoded : decoder.decodedBytes = traffic.delivered.length)
    (h : ∀ status next written, HttpBodyDecoder.Fed decoder data written status next →
      Confined arguments Q (k (status, next))
        { traffic with delivered := traffic.delivered ++ written }) :
    Confined arguments Q (ExceptT.lift (decoder.feed writeSink data) >>= k) traffic := by
  apply Fallible.guarded_lift
  refine Program.guarded_mono (HttpBodyDecoder.guarded_feed (sinks_writeSink hopened) hvalid
    hmaximum hdecoded rfl) ?_
  rintro ⟨status, next⟩ _ ⟨written, rfl, hfed⟩
  exact h status next written hfed

/-- A piece that was received and fed. -/
theorem Decoding.fed {head : HttpResponseHead} {headerBytes : Nat} {decoder next : HttpBodyDecoder}
    {data written : Bytes} {status : HttpBodyStatus}
    (h : Decoding arguments head headerBytes decoder traffic)
    (hfed : HttpBodyDecoder.Fed decoder data written status next)
    (hstatus : status = .ok ∨ status = .complete) (hsize : headerBytes ≤ traffic.received.length) :
    Decoding arguments head headerBytes next
      { traffic with
        received := traffic.received ++ data, delivered := traffic.delivered ++ written } where
  maximum := hfed.maximum.trans h.maximum
  decoded := by
    rw [hfed.decoded, h.decoded, List.length_append]
  bounded := by
    have hbounded := hfed.bounded
    rw [hfed.maximum, h.maximum, hfed.decoded, h.decoded] at hbounded
    rw [List.length_append]
    exact hbounded
  awaits := by
    intro encoded payload hawaits
    have hbefore := h.awaits _ _ (hfed.awaits hstatus _ _ hawaits)
    dsimp only
    rw [List.drop_append_of_le_length hsize, List.append_assoc, List.append_assoc]
    exact hbefore

/-- A decoder that is complete has delivered the payload of the response. -/
theorem Decoding.complete {head : HttpResponseHead} {headerBytes : Nat} {decoder : HttpBodyDecoder}
    (h : Decoding arguments head headerBytes decoder traffic) (hcomplete : decoder.isComplete = true)
    (hparsed : parseHttpResponseHead traffic.received = .ok (head, headerBytes))
    (hstatus : head.statusCode = 200) : Complete arguments traffic := by
  have hstate : decoder.state = .complete := of_decide_eq_true hcomplete
  have hend : decoder.Awaits [] [] := by
    unfold HttpBodyDecoder.Awaits
    rw [hstate]
    exact ⟨rfl, rfl⟩
  have hawaits := h.awaits [] [] hend
  rw [List.append_nil, List.append_nil] at hawaits
  exact ⟨head, headerBytes, hparsed, hstatus, frames_of_awaits hawaits, h.bounded⟩

/-- What the loop that receives the body leaves behind. -/
structure BodyReceived (arguments : HttpsArguments) (head : HttpResponseHead) (headerBytes : Nat)
    (traffic : Traffic) (redirects : Nat) (outcome : HttpsGetResult × HttpBodyDecoder)
    (traffic' : Traffic) : Prop where
  connection : traffic'.connection = traffic.connection
  connects : traffic'.connects = traffic.connects
  redirects : outcome.1.redirects = redirects
  decoding : outcome.2.isComplete = true →
    outcome.1.bodyStatus = .ok ∨ outcome.1.bodyStatus = .complete →
    Decoding arguments head headerBytes outcome.2 traffic' ∧
      parseHttpResponseHead traffic'.received = .ok (head, headerBytes)

theorem confined_receiveBody {stream total budget : Nat} {head : HttpResponseHead}
    {headerBytes : Nat} {result : HttpsGetResult} {decoder : HttpBodyDecoder}
    (hreceiving : Receiving arguments stream traffic)
    (hparsed : parseHttpResponseHead traffic.received = .ok (head, headerBytes))
    (hdecoding : Decoding arguments head headerBytes decoder traffic)
    (hstatus : result.bodyStatus = .ok ∧ decoder.Valid ∧ decoder.rank < budget ∨
      result.bodyStatus = .complete ∧ decoder.isComplete = true) :
    Confined arguments (BodyReceived arguments head headerBytes traffic result.redirects)
      (receiveBody arguments stream total budget result decoder) traffic := by
  induction budget generalizing result decoder traffic with
  | zero =>
      rw [receiveBody]
      rcases hstatus with ⟨-, -, hnever⟩ | ⟨-, hcomplete⟩
      · cases hnever
      · rw [if_pos hcomplete]
        exact Fallible.guarded_pure ⟨rfl, rfl, rfl, fun _ _ => ⟨hdecoding, hparsed⟩⟩
  | succ budget ih =>
      rw [receiveBody]
      split
      · exact Fallible.guarded_pure ⟨rfl, rfl, rfl, fun _ _ => ⟨hdecoding, hparsed⟩⟩
      next hincomplete =>
        obtain ⟨hok, hvalid, hbudget⟩ := hstatus.resolve_right fun h => hincomplete h.2
        dsimp only
        apply confined_checkpoint
        intro ok
        split
        · exact Fallible.guarded_pure ⟨rfl, rfl, rfl, fun _ _ => ⟨hdecoding, hparsed⟩⟩
        apply Fallible.guarded_ask
        · exact ⟨hreceiving.connection, hreceiving.isRequest⟩
        rintro answer _ rfl
        cases answer with
        | none =>
            refine Fallible.guarded_pure ⟨rfl, rfl, rfl, fun hcomplete => ?_⟩
            exact absurd hcomplete (HttpBodyDecoder.isComplete_finish hincomplete)
        | some data =>
            have hdata := data.property
            obtain ⟨hsize, hparsed'⟩ := parseHttpResponseHead_append (x := data.val) hparsed
            refine confined_feed hreceiving.connection hvalid hdecoding.maximum
              hdecoding.decoded ?_
            intro status next written hfed
            have hnext := fun hstatus => hdecoding.fed hfed hstatus hsize
            dsimp only
            apply confined_checkpoint
            intro ok
            split
            · exact Fallible.guarded_pure
                ⟨rfl, rfl, rfl, fun _ hstatus => ⟨hnext hstatus, hparsed'⟩⟩
            split
            · next hfailed =>
                refine Fallible.guarded_pure ⟨rfl, rfl, rfl, fun _ hstatus => ?_⟩
                exact (hstatus.elim hfailed.1 hfailed.2).elim
            · next hgood =>
                rw [not_and_or, Decidable.not_not, Decidable.not_not] at hgood
                refine Fallible.guarded_mono (ih ⟨hreceiving.connection, hreceiving.connects,
                  hreceiving.isRequest⟩ hparsed' (hnext hgood) ?_) ?_
                · rcases hgood with hgood | hgood
                  · have hrank := hfed.rank hgood
                    exact .inl ⟨hgood, hfed.valid hgood, by omega⟩
                  · exact .inr ⟨hgood, decide_eq_true (hfed.complete hgood)⟩
                · intro outcome traffic' h
                  exact ⟨h.connection, h.connects, h.redirects, h.decoding⟩

theorem confined_receiveResponse {redirect : Nat} {exchange : Exchange}
    (hexchanged : Exchanged arguments redirect redirect exchange traffic)
    (hstatus : exchange.head.statusCode = 200) :
    Confined arguments (Finished arguments)
      (receiveResponse arguments exchange.stream exchange.result exchange.headers exchange.head
        exchange.headerBytes) traffic := by
  obtain ⟨stream, result, headers, head, headerBytes⟩ := exchange
  obtain ⟨hreceiving, hconnects, hdelivered, hreceived, hredirects, hparsed⟩ := hexchanged
  dsimp only at hreceiving hreceived hredirects hparsed hstatus ⊢
  rw [← hreceived] at hparsed ⊢
  unfold receiveResponse
  have hnew := HttpBodyDecoder.valid_new head arguments.maximumBodyBytes
  dsimp only
  refine confined_feed hreceiving.connection hnew rfl (by rw [hdelivered]; rfl) ?_
  intro status next written hfed
  dsimp only
  apply confined_checkpoint
  intro ok
  split
  · exact confined_giveUp hreceiving.connection hreceiving.connects nofun
  split
  · exact confined_giveUp hreceiving.connection hreceiving.connects nofun
  next hgood =>
    have hstatus' : status = .ok ∨ status = .complete := by
      have huntruncated := hfed.untruncated
      cases status <;> simp_all
    have hdecoding : Decoding arguments head headerBytes next
        { traffic with delivered := traffic.delivered ++ written } := by
      refine ⟨hfed.maximum, ?_, ?_, ?_⟩
      · rw [hdelivered]
        exact hfed.decoded.trans (Nat.zero_add _)
      · have hbounded := hfed.bounded
        rw [hfed.maximum, hfed.decoded] at hbounded
        rw [hdelivered]
        exact (Nat.zero_add written.length).symm.le.trans hbounded
      · rw [hdelivered]
        exact hfed.awaits hstatus'
    apply Fallible.guarded_bind
    refine Fallible.guarded_mono (confined_receiveBody ⟨hreceiving.connection,
      hreceiving.connects, hreceiving.isRequest⟩ hparsed hdecoding ?_) ?_
    · rcases hstatus' with hok | hcomplete
      · exact .inl ⟨hok, hfed.valid hok, Nat.lt_succ_self _⟩
      · exact .inr ⟨hcomplete, decide_eq_true (hfed.complete hcomplete)⟩
    · rintro ⟨result', decoder⟩ traffic' hbody
      have hbound : traffic'.connects ≤ kMaximumHttpsRedirects + 1 :=
        hbody.connects.le.trans hreceiving.connects
      apply confined_release (hbody.connection.trans hreceiving.connection)
      dsimp only
      split
      · next hcanceled =>
          refine Fallible.guarded_pure ⟨rfl, hbound, fun hok => ?_⟩
          dsimp only at hcanceled hok
          rw [hcanceled] at hok
          cases hok
      split
      · exact Fallible.guarded_pure ⟨rfl, hbound, nofun⟩
      · next hcomplete =>
          simp only [Bool.not_eq_true', not_or, not_and_or, Decidable.not_not,
            Bool.not_eq_false] at hcomplete
          obtain ⟨hdecoded, hparsed'⟩ := hbody.decoding hcomplete.1 hcomplete.2
          refine Fallible.guarded_pure ⟨rfl, hbound, fun _ => ⟨?_, hdecoded.decoded, ?_⟩⟩
          · exact hdecoded.complete hcomplete.1 hparsed' hstatus
          · show traffic'.connects = result'.redirects + 1
            rw [hbody.connects, hbody.redirects]
            exact hconnects.trans (by rw [← hredirects])

theorem GaveUp.finished {result : HttpsGetResult} (h : GaveUp result traffic) :
    Finished arguments result traffic :=
  ⟨h.1, h.2.1, fun hok => absurd hok h.2.2⟩

theorem confined_followRedirects (hoptions : ValidOptions arguments) {left : Nat}
    {result : HttpsGetResult} {currentUrl : Bytes} (hleft : left ≤ kMaximumHttpsRedirects + 1)
    (habsent : traffic.connection = .absent)
    (hconnects : traffic.connects = kMaximumHttpsRedirects + 1 - left)
    (hdelivered : traffic.delivered = [])
    (hredirects : result.redirects = kMaximumHttpsRedirects + 1 - left)
    (hmethod : left ≤ kMaximumHttpsRedirects → arguments.options.method = some methodGet) :
    Confined arguments (Finished arguments) (followRedirects arguments left result currentUrl)
      traffic := by
  induction left generalizing result currentUrl traffic with
  | zero => exact Fallible.guarded_pure ⟨habsent, by omega, nofun⟩
  | succ left ih =>
      rw [followRedirects]
      dsimp only
      split
      · exact Fallible.guarded_throw ⟨habsent, by omega, by split <;> nofun⟩
      next parsed hparsed =>
        have hurl := authorizedUrl_of_ok hparsed
        apply Fallible.guarded_bind
        refine Fallible.guarded_mono (confined_exchange hoptions hurl
          (fun hne => hmethod (by omega)) (by omega) habsent (by omega) hdelivered) ?_
        rintro exchange traffic' hexchanged
        have hreceiving := hexchanged.receiving
        dsimp only at hexchanged ⊢
        split
        · apply confined_release hreceiving.connection
          split
          · exact Fallible.guarded_throw ⟨rfl, hreceiving.connects, nofun⟩
          next hget =>
            split
            · exact Fallible.guarded_throw ⟨rfl, hreceiving.connects, nofun⟩
            next hmore =>
              split
              · exact Fallible.guarded_throw ⟨rfl, hreceiving.connects, nofun⟩
              split
              · exact Fallible.guarded_throw ⟨rfl, hreceiving.connects, nofun⟩
              · refine ih (by omega) rfl ?_ hexchanged.delivered ?_
                  fun _ => Decidable.not_not.mp hget
                · show traffic'.connects = _
                  rw [hexchanged.connects]
                  omega
                · show kMaximumHttpsRedirects - left + 1 = _
                  omega
        · split
          · exact confined_giveUp hreceiving.connection hreceiving.connects nofun
          · next hstatus =>
              have hsame : result.redirects = kMaximumHttpsRedirects - left := by omega
              rw [hsame] at hexchanged
              exact confined_receiveResponse hexchanged (Decidable.not_not.mp hstatus)

theorem confined_httpsRequestProc :
    Confined arguments (Finished arguments) (httpsRequestProc arguments) .start := by
  unfold httpsRequestProc
  dsimp only
  split
  · exact Fallible.guarded_throw ⟨rfl, Nat.zero_le _, nofun⟩
  next hvalid =>
    apply confined_checkpoint
    intro ok
    split
    · exact Fallible.guarded_throw ⟨rfl, Nat.zero_le _, nofun⟩
    split
    · exact Fallible.guarded_throw ⟨rfl, Nat.zero_le _, nofun⟩
    · have hoptions := validOptions_of_argumentsValid (by simpa using hvalid)
      exact confined_followRedirects hoptions (Nat.le_refl _) rfl rfl rfl rfl
        fun hnever => absurd hnever (Nat.not_succ_le_self _)

/-- Every operation of a chain is permitted where it is performed, and a chain returns in a
state in which it may. -/
theorem guarded_httpsRequest :
    (httpsRequest arguments).Guarded observing (Permitted arguments) (Finished arguments)
      .start := by
  unfold httpsRequest
  apply Program.guarded_bind
  refine Program.guarded_mono confined_httpsRequestProc ?_
  intro outcome traffic' h
  cases outcome with
  | ok result => exact Program.guarded_pure h
  | error result => exact Program.guarded_pure (GaveUp.finished h)

/-- The download of an asset from the API, with a token. -/
def assetArguments : HttpsArguments where
  url := some (bytesOf "https://api.github.com" ++ kGitHubReleaseAssetApiPathPrefix ++ bytesOf "7")
  initialPurpose := .authenticatedReleaseAsset
  requestKind := .releaseZip
  options := ⟨some methodGet, none, none, [], some (bytesOf "secret")⟩
  maximumBodyBytes := 1024
  sink := true
  factory := true
  workspace := true
  foregroundProgress := false

def redirectResponse : Bytes :=
  bytesOf "HTTP/1.1 302 Found" ++ crlf ++
    bytesOf "Location: https://release-assets.githubusercontent.com/a" ++ crlf ++
    bytesOf "Content-Length: 0" ++ crlf ++ crlf

def assetResponse : Bytes :=
  bytesOf "HTTP/1.1 200 OK" ++ crlf ++ bytesOf "Content-Length: 3" ++ crlf ++ crlf ++ [1, 2, 3]

/-- Peers of which the first redirects and the second has the asset. -/
def redirecting : Reaction HttpsOp HttpsAnswer Traffic := fun traffic op =>
  let answer : HttpsAnswer op := match op with
    | .checkpoint _ _ _ => true
    | .cancelRequested => false
    | .connectVerified _ _ => some 0
    | .send _ data => if h : 0 < data.length then some ⟨data.length, h, le_rfl⟩ else none
    | .receive _ capacity =>
        let response := if traffic.connects = 1 then redirectResponse else assetResponse
        if h : 0 < response.length ∧ response.length ≤ capacity then some ⟨response, h⟩ else none
    | .close _ => ()
    | .destroy _ => ()
    | .write _ => true
  (answer, traffic.after op answer)

theorem reaches_redirecting (n : Nat) :
    Reaches observing (some (httpsRequest assetArguments), .start)
      (some (follow redirecting n (httpsRequest assetArguments) .start).1,
        (follow redirecting n (httpsRequest assetArguments) .start).2) :=
  reaches_follow (fun _ _ => rfl) n _ _

end Steps

end Https

end BmxUpdate
