import BmxUpdate.Library.Checks
import BmxUpdate.Library.Http
import BmxUpdate.UpdateTypes

/-!
# Which URLs the updater may open

`ParseAndAuthorizeUpdateUrl` (`url_policy.cpp`): an absolute HTTPS URL on port
443 of a GitHub host, with the path its purpose asks for.  The repository is
the one of a production build (`github_repository_policy.h`).
-/

namespace BmxUpdate

namespace Https

open Wire Checks Http

def kMaximumUpdateUrlBytes : Nat := 2048
def kMaximumUpdateHostBytes : Nat := 96
def kMaximumUpdatePathBytes : Nat := 1856

inductive UrlPolicyStatus where
  | ok | invalidArgument | tooLong | httpsRequired | userInfoForbidden | invalidHost
  | invalidPort | invalidPath | queryForbidden | fragmentForbidden | hostNotAllowed
  | pathNotAllowed
deriving DecidableEq, Repr

structure ParsedUpdateUrl where
  host : Bytes
  pathAndQuery : Bytes
  port : Nat
deriving DecidableEq, Repr

/-! ## Hosts and paths -/

def kGitHubLatestReleasePath : Bytes := bytesOf "/repos/kdre/bmx/releases/latest"
def kGitHubReleaseDownloadPathPrefix : Bytes := bytesOf "/kdre/bmx/releases/download/"
def kGitHubReleaseApiPathPrefix : Bytes := bytesOf "/repos/kdre/bmx/releases/"
def kGitHubReleaseAssetApiPathPrefix : Bytes := bytesOf "/repos/kdre/bmx/releases/assets/"

/-- `IsAsciiHostCharacter` -/
def isAsciiHostCharacter (c : UInt8) : Bool :=
  (0x61 ≤ c && c ≤ 0x7a) || (0x30 ≤ c && c ≤ 0x39) || c == 0x2e || c == 0x2d

/-- `IsForbiddenRequestCharacter` -/
def isForbiddenRequestCharacter (c : UInt8) : Bool := c ≤ 0x20 || c == 0x7f || c == 0x5c

/-- `IsGithubReleasePath` -/
def isGithubReleasePath (path : Bytes) : Bool :=
  let tag := path.drop kGitHubReleaseDownloadPathPrefix.length
  let slash := tag.dropWhile (· ≠ 0x2f)
  kGitHubReleaseDownloadPathPrefix.isPrefixOf path && slash ≠ [] && slash ≠ tag &&
    slash.drop 1 ≠ [] && 0x2f ∉ slash.drop 1

/-- `IsRedirectPath` -/
def isRedirectPath (path : Bytes) : Bool := path.head? = some 0x2f && path.drop 1 ≠ []

/-- `IsPositiveDecimalSuffix` -/
def isPositiveDecimalSuffix (path start : Bytes) : Bool :=
  let value := path.drop start.length
  start.isPrefixOf path && value.head?.any (fun c => 0x31 ≤ c && c ≤ 0x39) &&
    (value.drop 1).all fun c => 0x30 ≤ c && c ≤ 0x39

def apiHost : Bytes := bytesOf "api.github.com"
def gitHubHost : Bytes := bytesOf "github.com"

/-- `IsAuthorizedRedirectHost` -/
def isAuthorizedRedirectHost (host : Bytes) : Bool :=
  host = gitHubHost || host = bytesOf "release-assets.githubusercontent.com" ||
    host = bytesOf "objects.githubusercontent.com" ||
    host = bytesOf "github-releases.githubusercontent.com"

/-- Whether a host may be asked for this purpose. -/
def hostAllowed (purpose : UpdateUrlPurpose) (host : Bytes) : Bool :=
  match purpose with
  | .discovery | .preparedDraftDiscovery | .authenticatedReleaseAsset => host = apiHost
  | .releaseAsset | .gitHubDeviceAuthorization => host = gitHubHost
  | .redirect => isAuthorizedRedirectHost host

/-- Whether a path may be asked for this purpose. -/
def pathAllowed (purpose : UpdateUrlPurpose) (path : Bytes) : Bool :=
  match purpose with
  | .discovery => path = kGitHubLatestReleasePath
  | .releaseAsset => isGithubReleasePath path
  | .preparedDraftDiscovery => isPositiveDecimalSuffix path kGitHubReleaseApiPathPrefix
  | .authenticatedReleaseAsset => isPositiveDecimalSuffix path kGitHubReleaseAssetApiPathPrefix
  | .gitHubDeviceAuthorization =>
      path = bytesOf "/login/device/code" || path = bytesOf "/login/oauth/access_token"
  | .redirect => isRedirectPath path

/-! ## The parser -/

/-- `ParseAndAuthorizeUpdateUrl`.  A URL is the bytes before its NUL. -/
def parseAndAuthorizeUpdateUrl (url : Bytes) (purpose : UpdateUrlPurpose) :
    Except UrlPolicyStatus ParsedUpdateUrl := do
  reject (url = [] ∨ kMaximumUpdateUrlBytes ≤ url.length) .tooLong
  reject (¬(bytesOf "https://").isPrefixOf url) .httpsRequired
  let afterScheme := url.drop (bytesOf "https://").length
  let authority := afterScheme.takeWhile (· ≠ 0x2f)
  let path := afterScheme.dropWhile (· ≠ 0x2f)
  reject (0x23 ∈ afterScheme) .fragmentForbidden
  reject (0x3f ∈ authority) .invalidPath
  reject (path = [] ∨ authority = []) .invalidPath
  reject (0x40 ∈ authority) .userInfoForbidden
  let host := authority.takeWhile (· ≠ 0x3a)
  let port := authority.dropWhile (· ≠ 0x3a)
  reject (host = [] ∨ kMaximumUpdateHostBytes ≤ host.length) .invalidHost
  reject (¬host.all isAsciiHostCharacter) .invalidHost
  reject (port ≠ [] ∧ port.drop 1 ≠ bytesOf "443") .invalidPort
  reject (kMaximumUpdatePathBytes ≤ path.length) .invalidPath
  reject (path.any isForbiddenRequestCharacter) .invalidPath
  reject (purpose ≠ .redirect ∧ 0x3f ∈ path) .queryForbidden
  reject (¬hostAllowed purpose host) .hostNotAllowed
  reject (¬pathAllowed purpose path) .pathNotAllowed
  return ⟨host, path, 443⟩

/-! ## What it establishes -/

/-- A URL that may be opened for this purpose. -/
structure AuthorizedUrl (purpose : UpdateUrlPurpose) (parsed : ParsedUpdateUrl) : Prop where
  port : parsed.port = 443
  host : hostAllowed purpose parsed.host = true
  hostCharacters : ∀ c ∈ parsed.host, isAsciiHostCharacter c = true
  path : parsed.pathAndQuery.head? = some 0x2f
  pathCharacters : ∀ c ∈ parsed.pathAndQuery, isForbiddenRequestCharacter c = false

theorem head?_dropWhile_ne {d : UInt8} {s : Bytes} (h : s.dropWhile (· ≠ d) ≠ []) :
    (s.dropWhile (· ≠ d)).head? = some d := by
  have hhead := List.head_dropWhile_not (· ≠ d) h
  rw [List.head?_eq_some_head h]
  simpa using hhead

theorem authorizedUrl_of_ok {url : Bytes} {purpose : UpdateUrlPurpose} {parsed : ParsedUpdateUrl}
    (h : parseAndAuthorizeUpdateUrl url purpose = .ok parsed) : AuthorizedUrl purpose parsed := by
  unfold parseAndAuthorizeUpdateUrl at h
  simp only [reject_bind_eq_ok] at h
  obtain ⟨-, -, -, -, hpath, -, -, hhost, -, -, hpathBytes, -, hallowed, -, h⟩ := h
  cases h
  rw [not_or] at hpath
  exact {
    port := rfl
    host := Decidable.not_not.mp hallowed
    hostCharacters := List.all_eq_true.mp (Decidable.not_not.mp hhost)
    path := head?_dropWhile_ne hpath.1
    pathCharacters := fun c hc => by
      rw [List.any_eq_true, not_exists] at hpathBytes
      exact Bool.eq_false_iff.mpr fun hforbidden => hpathBytes c ⟨hc, hforbidden⟩ }

end Https

end BmxUpdate
