import BmxUpdate.Https.BodyDecoder
import BmxUpdate.Https.UrlPolicy
import BmxUpdate.UpdateTypes

/-!
# One HTTPS request chain

`HttpsRequest` (`https_stream.cpp`) as a program among a stream factory, a body
sink and a progress object.  What they answer is not known: `httpsRequest` asks
them for operations and goes on with any answer.
-/

namespace BmxUpdate

namespace Https

open Wire Http Interaction

def kMaximumHttpsRedirects : Nat := 3
def kHttpsRequestBufferBytes : Nat := 4096
def kHttpsReceiveBufferBytes : Nat := 16384

inductive HttpsRequestKind where
  | gitHubApi | releaseMetadata | releaseZip | gitHubDeviceFlow
deriving DecidableEq, Repr

structure HttpsRequestOptions where
  method : Option Bytes
  accept : Option Bytes
  contentType : Option Bytes
  body : Bytes
  bearerToken : Option Bytes

inductive HttpsGetStatus where
  | ok | invalidArgument | urlRejected | connectFailed | requestTooLarge | sendFailed
  | receiveFailed | headerInvalid | redirectRejected | tooManyRedirects | unexpectedStatus
  | bodyInvalid | canceled
deriving DecidableEq, Repr

structure HttpsGetResult where
  status : HttpsGetStatus
  urlStatus : UrlPolicyStatus
  headerStatus : HttpParseStatus
  bodyStatus : HttpBodyStatus
  httpStatus : Nat
  redirects : Nat
  bodyBytes : Nat
  finalHost : Bytes

/-- The arguments; a component is given by whether its pointer is set. -/
structure HttpsArguments where
  url : Option Bytes
  initialPurpose : UpdateUrlPurpose
  requestKind : HttpsRequestKind
  options : HttpsRequestOptions
  maximumBodyBytes : Nat
  sink : Bool
  factory : Bool
  workspace : Bool
  foregroundProgress : Bool

/-! ## The components around it -/

/-- What is asked of the progress object, the stream factory, the streams it returned and the
sink. -/
inductive HttpsOp where
  | checkpoint (phase : UpdateForegroundPhase) (completed total : Nat)
  | cancelRequested
  | connectVerified (host : Bytes) (port : Nat)
  | send (stream : Nat) (data : Bytes)
  | receive (stream capacity : Nat)
  | close (stream : Nat)
  | destroy (stream : Nat)
  | write (data : Bytes)

/-- The answers.  A count that is not positive or too large is `none`. -/
def HttpsAnswer : HttpsOp → Type
  | .checkpoint _ _ _ => Bool
  | .cancelRequested => Bool
  | .connectVerified _ _ => Option Nat
  | .send _ data => Option { n : Nat // 0 < n ∧ n ≤ data.length }
  | .receive _ capacity => Option { data : Bytes // 0 < data.length ∧ data.length ≤ capacity }
  | .close _ => Unit
  | .destroy _ => Unit
  | .write _ => Bool

/-- A part of the chain; it fails with the result that is returned. -/
abbrev HttpsProc := Fallible HttpsOp HttpsAnswer HttpsGetResult

def isRedirectStatus (status : Nat) : Bool :=
  status == 301 || status == 302 || status == 303 || status == 307 || status == 308

def foregroundPhase : HttpsRequestKind → UpdateForegroundPhase
  | .gitHubApi => .discovery
  | .releaseMetadata => .manifest
  | .releaseZip => .zip
  | .gitHubDeviceFlow => .discovery

def networkCheckpoint (arguments : HttpsArguments) (completed total : Nat) : HttpsProc Bool :=
  if arguments.foregroundProgress then
    Fallible.ask (HttpsOp.checkpoint (foregroundPhase arguments.requestKind) completed total)
  else pure true

/-- `Close` and `Destroy`, which every path makes together. -/
def release (stream : Nat) : HttpsProc Unit := do
  let _ ← Fallible.ask (HttpsOp.close stream)
  let _ ← Fallible.ask (HttpsOp.destroy stream)

/-- An early return with an open stream. -/
def giveUp {α : Type} (stream : Nat) (result : HttpsGetResult) : HttpsProc α := do
  release stream
  throw result

/-- `SendAll`: whether all was sent, and whether it was canceled. -/
def sendAll (arguments : HttpsArguments) (stream size : Nat) (data : Bytes) :
    HttpsProc (Bool × Bool) :=
  if data = [] then pure (true, false)
  else do
    if !(← networkCheckpoint arguments (size - data.length) size) then return (false, true)
    let result ← Fallible.ask (HttpsOp.send stream data)
    match (result : Option { n : Nat // 0 < n ∧ n ≤ data.length }) with
    | none => return (false, false)
    | some sent =>
        let rest := data.drop sent.val
        if !(← networkCheckpoint arguments (size - rest.length) size) then return (false, true)
        sendAll arguments stream size rest
termination_by data.length
decreasing_by
  rw [List.length_drop]
  have := sent.property
  omega

/-! ## The request -/

def acceptHeader : HttpsRequestKind → Bytes
  | .gitHubApi => bytesOf "application/vnd.github+json"
  | .gitHubDeviceFlow => bytesOf "application/json"
  | .releaseMetadata | .releaseZip => bytesOf "application/octet-stream"

def safeHeaderValue (value : Option Bytes) (maximum : Nat) : Bool :=
  match value with
  | none => true
  | some value =>
      value.all (fun c => 0x21 ≤ c && c ≤ 0x7e) && value ≠ [] && value.length ≤ maximum

def initialPurposeAllowed (purpose : UpdateUrlPurpose) : Bool :=
  purpose = .discovery || purpose = .releaseAsset || purpose = .preparedDraftDiscovery ||
    purpose = .authenticatedReleaseAsset || purpose = .gitHubDeviceAuthorization

def methodGet : Bytes := bytesOf "GET"
def methodPost : Bytes := bytesOf "POST"

/-- The first condition of `HttpsRequest`, negated. -/
def argumentsValid (arguments : HttpsArguments) : Bool :=
  let options := arguments.options
  arguments.url.isSome && arguments.sink && arguments.factory && arguments.workspace &&
    arguments.maximumBodyBytes != 0 && initialPurposeAllowed arguments.initialPurpose &&
    (options.method = some methodGet || options.method = some methodPost) &&
    safeHeaderValue options.accept 128 && safeHeaderValue options.contentType 128 &&
    safeHeaderValue options.bearerToken 512 &&
    !(options.method = some methodGet && options.body ≠ []) &&
    !(options.method = some methodPost && (options.body = [] || options.contentType.isNone))

/-- `authorization` -/
def authorization (options : HttpsRequestOptions) (redirect : Nat) (host : Bytes) : Bytes :=
  match options.bearerToken with
  | some token =>
      if redirect = 0 ∧ host = apiHost then
        bytesOf "Authorization: Bearer " ++ token ++ crlf
      else []
  | none => []

/-- `content_headers` -/
def contentHeaders (options : HttpsRequestOptions) : Bytes :=
  if options.method = some methodPost then
    bytesOf "Content-Type: " ++ options.contentType.getD [] ++ crlf ++
      bytesOf "Content-Length: " ++ decimal options.body.length ++ crlf
  else []

/-- The header of the request. -/
def requestHeader (arguments : HttpsArguments) (redirect : Nat) (parsed : ParsedUpdateUrl) :
    Bytes :=
  let options := arguments.options
  options.method.getD [] ++ bytesOf " " ++ parsed.pathAndQuery ++ bytesOf " HTTP/1.1" ++ crlf ++
    bytesOf "Host: " ++ parsed.host ++ crlf ++
    bytesOf "User-Agent: BMX-Updater/1" ++ crlf ++
    bytesOf "Accept: " ++ options.accept.getD (acceptHeader arguments.requestKind) ++ crlf ++
    bytesOf "Accept-Encoding: identity" ++ crlf ++
    (if parsed.host = apiHost then bytesOf "X-GitHub-Api-Version: 2022-11-28" ++ crlf else []) ++
    authorization options redirect parsed.host ++
    contentHeaders options ++
    bytesOf "Connection: close" ++ crlf ++ crlf

/-- The bytes to send; `none` is a part that does not fit its buffer. -/
def requestBytes (arguments : HttpsArguments) (redirect : Nat) (parsed : ParsedUpdateUrl) :
    Option Bytes :=
  let options := arguments.options
  let header := requestHeader arguments redirect parsed
  if 560 ≤ (authorization options redirect parsed.host).length then none
  else if 256 ≤ (contentHeaders options).length then none
  else if kHttpsRequestBufferBytes ≤ header.length ∨
      kHttpsRequestBufferBytes - header.length < options.body.length then none
  else some (header ++ options.body)

/-! ## The response -/

/-- The loop that receives the head: the bytes received, and the head with its size. -/
def receiveHead (arguments : HttpsArguments) (stream : Nat) (result : HttpsGetResult)
    (headers : Bytes) : HttpsProc (HttpsGetResult × Bytes × Option (HttpResponseHead × Nat)) := do
  if !(← networkCheckpoint arguments 0 0) then
    return ({ result with status := .canceled }, headers, none)
  if headers.length = kMaximumHttpHeaderBytes then
    return ({ result with headerStatus := .headerTooLarge }, headers, none)
  let capacity := kMaximumHttpHeaderBytes - headers.length
  let received ← Fallible.ask (HttpsOp.receive stream capacity)
  match (received : Option { data : Bytes // 0 < data.length ∧ data.length ≤ capacity }) with
  | none => return ({ result with status := .receiveFailed }, headers, none)
  | some data =>
      let received := headers ++ data.val
      if !(← networkCheckpoint arguments 0 0) then
        return ({ result with status := .canceled }, received, none)
      match parseHttpResponseHead received with
      | .ok found => return ({ result with headerStatus := .ok }, received, some found)
      | .error .needMoreData =>
          receiveHead arguments stream { result with headerStatus := .needMoreData } received
      | .error status => return ({ result with headerStatus := status }, received, none)
termination_by kMaximumHttpHeaderBytes - headers.length
decreasing_by
  rw [List.length_append]
  have := data.property
  omega

/-- The sink of the decoder. -/
def writeSink (data : Bytes) : Program HttpsOp HttpsAnswer Bool := Program.ask (HttpsOp.write data)

/-- `while (!decoder.complete())`.  `budget` bounds its passes; each takes a byte at least,
and a decoder takes no more of them than its rank. -/
def receiveBody (arguments : HttpsArguments) (stream total : Nat) (budget : Nat)
    (result : HttpsGetResult) (decoder : HttpBodyDecoder) :
    HttpsProc (HttpsGetResult × HttpBodyDecoder) :=
  if decoder.isComplete then pure (result, decoder)
  else
    match budget with
    | 0 => throw result -- not reached: the stream would stay open
    | budget + 1 => do
        if !(← networkCheckpoint arguments decoder.decodedBytes total) then
          return ({ result with status := .canceled }, decoder)
        let received ← Fallible.ask (HttpsOp.receive stream kHttpsReceiveBufferBytes)
        match (received : Option { data : Bytes //
            0 < data.length ∧ data.length ≤ kHttpsReceiveBufferBytes }) with
        | none =>
            let (bodyStatus, decoder) := decoder.finish
            return ({ result with bodyStatus := bodyStatus }, decoder)
        | some data =>
            let (bodyStatus, decoder) ← ExceptT.lift (decoder.feed writeSink data.val)
            let result := { result with bodyStatus := bodyStatus }
            if !(← networkCheckpoint arguments decoder.decodedBytes total) then
              return ({ result with status := .canceled }, decoder)
            if bodyStatus ≠ .ok ∧ bodyStatus ≠ .complete then return (result, decoder)
            receiveBody arguments stream total budget result decoder

/-- The rest of a chain that got a 200 response. -/
def receiveResponse (arguments : HttpsArguments) (stream : Nat) (result : HttpsGetResult)
    (headers : Bytes) (head : HttpResponseHead) (headerBytes : Nat) :
    HttpsProc HttpsGetResult := do
  let decoder := HttpBodyDecoder.new head arguments.maximumBodyBytes
  let (bodyStatus, decoder) ←
    ExceptT.lift (decoder.feed writeSink (headers.drop headerBytes))
  let result := { result with bodyStatus := bodyStatus }
  let total := if head.hasContentLength then head.contentLength else 0
  if !(← networkCheckpoint arguments decoder.decodedBytes total) then
    giveUp stream { result with status := .canceled } else
  if bodyStatus = .unexpectedData ∨ bodyStatus = .invalidArgument ∨ bodyStatus = .tooLarge ∨
      bodyStatus = .sinkRejected ∨ bodyStatus = .invalidChunk then
    giveUp stream { result with status := .bodyInvalid } else
  let (result, decoder) ←
    receiveBody arguments stream total (decoder.rank + 1) result decoder
  release stream
  let result := { result with bodyBytes := decoder.decodedBytes }
  if result.status = .canceled then return result
  if !decoder.isComplete ∨ (result.bodyStatus ≠ .ok ∧ result.bodyStatus ≠ .complete) then
    return { result with status := .bodyInvalid }
  return { result with bodyStatus := .complete, status := .ok }

/-! ## The chain -/

/-- A response whose head was received. -/
structure Exchange where
  stream : Nat
  result : HttpsGetResult
  headers : Bytes
  head : HttpResponseHead
  headerBytes : Nat

/-- Connect, send the request and receive the head of the response. -/
def exchange (arguments : HttpsArguments) (redirect : Nat) (result : HttpsGetResult)
    (parsed : ParsedUpdateUrl) : HttpsProc Exchange := do
  if !(← networkCheckpoint arguments 0 0) then throw { result with status := .canceled } else
  let connected ← Fallible.ask (HttpsOp.connectVerified parsed.host parsed.port)
  match (connected : Option Nat) with
  | none =>
      if !arguments.foregroundProgress then throw { result with status := .connectFailed } else
      let canceled : Bool ← Fallible.ask HttpsOp.cancelRequested
      throw { result with status := if canceled then .canceled else .connectFailed }
  | some stream =>
      if !(← networkCheckpoint arguments 0 0) then
        giveUp stream { result with status := .canceled } else
      match requestBytes arguments redirect parsed with
      | none => giveUp stream { result with status := .requestTooLarge }
      | some request =>
          let (sent, canceled) ← sendAll arguments stream request.length request
          if !sent then
            giveUp stream { result with status := if canceled then .canceled else .sendFailed } else
          let (result, headers, found) ← receiveHead arguments stream result []
          match found with
          | none =>
              if result.status ≠ .receiveFailed ∧ result.status ≠ .canceled then
                giveUp stream { result with status := .headerInvalid }
              else giveUp stream result
          | some (head, headerBytes) =>
              return { stream, headers, head, headerBytes
                       result := { result with httpStatus := head.statusCode } }

/-- The loop over the redirects, with `left` passes to go. -/
def followRedirects (arguments : HttpsArguments) :
    Nat → HttpsGetResult → Bytes → HttpsProc HttpsGetResult
  | 0, result, _ => return { result with status := .tooManyRedirects }
  | left + 1, result, currentUrl =>
      let redirect := kMaximumHttpsRedirects - left
      let purpose := if redirect = 0 then arguments.initialPurpose else .redirect
      match parseAndAuthorizeUpdateUrl currentUrl purpose with
      | .error urlStatus =>
          throw { result with
            urlStatus := urlStatus
            status := if redirect = 0 then .urlRejected else .redirectRejected }
      | .ok parsed => do
          let { stream, result, headers, head, headerBytes } ←
            exchange arguments redirect
              { result with
                urlStatus := .ok
                finalHost := parsed.host.take (kMaximumUpdateHostBytes - 1) } parsed
          if isRedirectStatus head.statusCode then
            release stream
            if arguments.options.method ≠ some methodGet then
              throw { result with status := .redirectRejected } else
            if redirect = kMaximumHttpsRedirects then
              throw { result with status := .tooManyRedirects } else
            match parseAndAuthorizeUpdateUrl head.location .redirect with
            | .error urlStatus =>
                throw { result with urlStatus := urlStatus, status := .redirectRejected }
            | .ok _ =>
                if kMaximumUpdateUrlBytes ≤ head.location.length then
                  throw { result with urlStatus := .ok, status := .redirectRejected } else
                followRedirects arguments left
                  { result with urlStatus := .ok, redirects := redirect + 1 } head.location
          else if head.statusCode ≠ 200 then
            giveUp stream { result with status := .unexpectedStatus }
          else receiveResponse arguments stream result headers head headerBytes

/-- `HttpsRequest`, where every early return fails with its result. -/
def httpsRequestProc (arguments : HttpsArguments) : HttpsProc HttpsGetResult := do
  let result : HttpsGetResult :=
    ⟨.invalidArgument, .invalidArgument, .invalidArgument, .invalidArgument, 0, 0, 0, []⟩
  if !argumentsValid arguments then throw result else
  if !(← networkCheckpoint arguments 0 0) then throw { result with status := .canceled } else
  let url := arguments.url.getD []
  if kMaximumUpdateUrlBytes ≤ url.length then
    throw { result with status := .urlRejected, urlStatus := .tooLong } else
  followRedirects arguments (kMaximumHttpsRedirects + 1) result url

/-- `HttpsRequest` -/
def httpsRequest (arguments : HttpsArguments) : Program HttpsOp HttpsAnswer HttpsGetResult := do
  match ← (httpsRequestProc arguments).run with
  | .ok result => return result
  | .error result => return result

end Https

end BmxUpdate
