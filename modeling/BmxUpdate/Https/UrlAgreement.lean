import BmxUpdate.Https.UrlPolicy
import BmxUpdate.Library.Uri

/-!
# URLs as other parsers read them

`ParseAndAuthorizeUpdateUrl` finds the delimiters of a URL by searches through
the whole string, in an order of its own, and copies the host and the path into
buffers of a fixed size.  Here it is modelled with the positions that these
searches return.

* `parseIntoBuffers_eq`: the positions cut the URL as `parseAndAuthorizeUpdateUrl`
  does.
* `authorized_iff_standard`: what it accepts, and what it returns, is what the
  generic syntax of URIs says about the string.
-/

namespace BmxUpdate

namespace Https

open Wire Checks Http

/-! ## Strings in memory -/

/-- `strchr`: where a byte first stands in a string. -/
def strchr (s : Bytes) (c : UInt8) : Option Nat := s.findIdx? (· == c)

/-- `memchr`: the same among the first `n` bytes. -/
def memchr (s : Bytes) (c : UInt8) (n : Nat) : Option Nat := strchr (s.take n) c

/-- The string a buffer holds: the bytes before its first NUL. -/
def cString (buffer : Bytes) : Bytes := buffer.takeWhile (· ≠ 0)

/-- A string and its NUL, copied to the front of a buffer. -/
def copyString {n : Nat} (s : Bytes) (buffer : Block n) : Block n :=
  Block.ofBytes n (s ++ 0 :: buffer.bytes.drop (s.length + 1))

/-- `ParsedUpdateUrl` as it lies in memory. -/
structure UrlBuffers where
  host : Block kMaximumUpdateHostBytes
  pathAndQuery : Block kMaximumUpdatePathBytes
  port : UInt16

/-- `ParseAndAuthorizeUpdateUrl` on the string `url`, into buffers that hold anything. -/
def parseIntoBuffers (url : Bytes) (purpose : UpdateUrlPurpose) (parsed : UrlBuffers) :
    Except UrlPolicyStatus UrlBuffers := do
  reject (url.length = 0 ∨ kMaximumUpdateUrlBytes ≤ url.length) .tooLong
  reject (url.take 8 ≠ bytesOf "https://") .httpsRequired
  -- Every position from here on is counted from `authority`.
  let authority := url.drop 8
  let path := strchr authority 0x2f
  let queryWithoutPath := strchr authority 0x3f
  let fragment := strchr authority 0x23
  reject (fragment ≠ none) .fragmentForbidden
  reject (queryWithoutPath.any fun query => path.all (query < ·)) .invalidPath
  reject (path.all (· = 0)) .invalidPath
  let path := path.getD 0
  reject (memchr authority 0x40 path ≠ none) .userInfoForbidden
  let portSeparator := memchr authority 0x3a path
  let hostLength := portSeparator.getD path
  reject (hostLength = 0 ∨ kMaximumUpdateHostBytes ≤ hostLength) .invalidHost
  reject (¬(authority.take hostLength).all isAsciiHostCharacter) .invalidHost
  let parsed := { parsed with host := copyString (authority.take hostLength) parsed.host }
  let parsed := { parsed with port := 443 }
  reject (portSeparator.any fun separator =>
    path - separator - 1 ≠ 3 ∨ slice (separator + 1) 3 authority ≠ bytesOf "443") .invalidPort
  let pathLength := (authority.drop path).length
  reject (pathLength = 0 ∨ kMaximumUpdatePathBytes ≤ pathLength) .invalidPath
  reject ((authority.drop path).any isForbiddenRequestCharacter) .invalidPath
  let parsed := { parsed with
    pathAndQuery := copyString (authority.drop path) parsed.pathAndQuery }
  let query := strchr (cString parsed.pathAndQuery.bytes) 0x3f
  reject (purpose ≠ .redirect ∧ query ≠ none) .queryForbidden
  reject (¬hostAllowed purpose (cString parsed.host.bytes)) .hostNotAllowed
  reject (¬pathAllowed purpose (cString parsed.pathAndQuery.bytes)) .pathNotAllowed
  return parsed

/-! ## Searches and cuts -/

section Cuts

variable {s : Bytes} {c d : UInt8}

theorem strchr_cons (b : UInt8) (s : Bytes) (c : UInt8) :
    strchr (b :: s) c = if b = c then some 0 else (strchr s c).map (· + 1) := by
  unfold strchr
  rw [List.findIdx?_cons]
  simp

/-- A search returns the length of what stands before the byte. -/
theorem strchr_eq (s : Bytes) (c : UInt8) :
    strchr s c = if c ∈ s then some (s.takeWhile (· ≠ c)).length else none := by
  induction s with
  | nil => rfl
  | cons b s ih =>
      rw [strchr_cons, ih]
      by_cases hb : b = c
      · simp [hb]
      · by_cases hmem : c ∈ s
        · simp [hb, hmem]
        · simp [hb, hmem, Ne.symm hb]

theorem strchr_ne_none : strchr s c ≠ none ↔ c ∈ s := by
  rw [strchr_eq]
  split <;> simp_all

theorem take_takeWhile (s : Bytes) (c : UInt8) :
    s.take (s.takeWhile (· ≠ c)).length = s.takeWhile (· ≠ c) := by
  have hcut := @List.takeWhile_append_dropWhile _ (fun b => decide (b ≠ c)) s
  have htake := @List.take_left _ (s.takeWhile (· ≠ c)) (s.dropWhile (· ≠ c))
  rwa [hcut] at htake

theorem drop_takeWhile (s : Bytes) (c : UInt8) :
    s.drop (s.takeWhile (· ≠ c)).length = s.dropWhile (· ≠ c) := by
  have hcut := @List.takeWhile_append_dropWhile _ (fun b => decide (b ≠ c)) s
  have hdrop := @List.drop_left _ (s.takeWhile (· ≠ c)) (s.dropWhile (· ≠ c))
  rwa [hcut] at hdrop

theorem dropWhile_eq_nil : s.dropWhile (· ≠ c) = [] ↔ c ∉ s := by
  rw [List.dropWhile_eq_nil_iff]
  constructor
  · intro h hmem
    simpa using h c hmem
  · rintro h b hb
    exact decide_eq_true fun hbc => h (hbc ▸ hb)

theorem takeWhile_of_not_mem (h : c ∉ s) : s.takeWhile (· ≠ c) = s := by
  rw [← dropWhile_eq_nil] at h
  have hcut := @List.takeWhile_append_dropWhile _ (fun b => decide (b ≠ c)) s
  rw [h, List.append_nil] at hcut
  exact hcut

/-- A string is cut before the first byte that ends it. -/
theorem cut_append {t : Bytes} (hs : c ∉ s) (ht : ∀ b, t.head? = some b → b = c) :
    (s ++ t).takeWhile (· ≠ c) = s ∧ (s ++ t).dropWhile (· ≠ c) = t := by
  have hall : ∀ b ∈ s, decide (b ≠ c) = true := fun b hb =>
    decide_eq_true fun hbc => hs (hbc ▸ hb)
  rw [List.takeWhile_append_of_pos hall, List.dropWhile_append_of_pos hall]
  cases t with
  | nil => simp
  | cons b t =>
      rw [ht b rfl]
      simp

/-- Whether one byte stands before the first of another, by their positions. -/
theorem mem_takeWhile_iff : c ∈ s.takeWhile (· ≠ d) ↔
    ((strchr s c).any fun first => (strchr s d).all (first < ·)) = true := by
  induction s with
  | nil => simp [strchr]
  | cons b s ih =>
      rw [strchr_cons, strchr_cons]
      by_cases hd : b = d
      · simp [hd]
      · have htake : (b :: s).takeWhile (· ≠ d) = b :: s.takeWhile (· ≠ d) := by
          simp [hd]
        rw [htake, List.mem_cons, if_neg hd, ih]
        by_cases hc : b = c
        · rw [if_pos hc]
          cases strchr s d <;> simp [hc]
        · have hc' : c ≠ b := Ne.symm hc
          rw [if_neg hc]
          cases strchr s c <;> cases strchr s d <;> simp [hc']

theorem getD_strchr (s : Bytes) (c : UInt8) :
    (strchr s c).getD s.length = (s.takeWhile (· ≠ c)).length := by
  rw [strchr_eq]
  split
  · rfl
  · next hmem => rw [takeWhile_of_not_mem hmem, Option.getD_none]

/-- `memchr` up to the first of another byte. -/
theorem memchr_takeWhile : memchr s c (s.takeWhile (· ≠ d)).length =
    strchr (s.takeWhile (· ≠ d)) c := by
  unfold memchr
  rw [take_takeWhile]

theorem mem_iff_dropWhile : c ∈ s ↔ s.dropWhile (· ≠ c) ≠ [] := by
  rw [ne_eq, dropWhile_eq_nil, Decidable.not_not]

/-- The string that was copied is the string of the buffer. -/
theorem cString_copyString {n : Nat} {buffer : Block n} (hzero : 0 ∉ s) (hroom : s.length < n) :
    cString (copyString s buffer).bytes = s ∧ 0 ∈ (copyString s buffer).bytes := by
  have hlength : (s ++ 0 :: buffer.bytes.drop (s.length + 1)).length = n := by
    rw [List.length_append, List.length_cons, List.length_drop, buffer.length_bytes]
    omega
  have hbytes : (copyString s buffer).bytes = s ++ 0 :: buffer.bytes.drop (s.length + 1) :=
    Block.bytes_ofBytes hlength
  have hall : ∀ c ∈ s, decide (c ≠ 0) = true := fun c hc =>
    decide_eq_true fun hc0 => hzero (hc0 ▸ hc)
  rw [hbytes]
  refine ⟨?_, List.mem_append_right _ List.mem_cons_self⟩
  unfold cString
  rw [List.takeWhile_append_of_pos hall]
  simp

end Cuts

/-! ## The parser and its positions -/

/-- What a caller reads from the buffers. -/
def UrlBuffers.read (parsed : UrlBuffers) : ParsedUpdateUrl :=
  ⟨cString parsed.host.bytes, cString parsed.pathAndQuery.bytes, parsed.port.toNat⟩

theorem take_eight (url : Bytes) :
    url.take 8 ≠ bytesOf "https://" ↔ ¬(bytesOf "https://").isPrefixOf url := by
  rw [List.isPrefixOf_iff_prefix, List.prefix_iff_eq_take]
  exact not_congr eq_comm

/-- The port after its separator is 443. -/
theorem port_iff {afterScheme : Bytes} {authority : Bytes}
    (hauthority : authority = afterScheme.takeWhile (· ≠ 0x2f)) :
    ((strchr authority 0x3a).any fun separator =>
      authority.length - separator - 1 ≠ 3 ∨
        slice (separator + 1) 3 afterScheme ≠ bytesOf "443") = true ↔
      authority.dropWhile (· ≠ 0x3a) ≠ [] ∧
        (authority.dropWhile (· ≠ 0x3a)).drop 1 ≠ bytesOf "443" := by
  rw [← mem_iff_dropWhile, strchr_eq]
  by_cases hcolon : 0x3a ∈ authority
  · rw [if_pos hcolon, ← drop_takeWhile, List.drop_drop, Option.any_some, decide_eq_true_eq]
    generalize (authority.takeWhile (· ≠ 0x3a)).length = n
    have hlength : (bytesOf "443").length = 3 := by decide
    have hcut : afterScheme.take authority.length = authority := by
      rw [hauthority, take_takeWhile]
    rw [and_iff_right hcolon]
    by_cases hthree : authority.length - n - 1 = 3
    · have hslice : slice (n + 1) 3 afterScheme = authority.drop (n + 1) := by
        have hdrop : (authority.drop (n + 1)).length = 3 := by
          rw [List.length_drop]
          omega
        calc slice (n + 1) 3 afterScheme
            = ((afterScheme.take authority.length).drop (n + 1)).take 3 := by
              rw [List.drop_take, List.take_take]
              unfold slice
              congr 1
              omega
          _ = authority.drop (n + 1) := by rw [hcut, ← hdrop, List.take_length]
      rw [hslice]
      simp [hthree]
    · refine iff_of_true (Or.inl hthree) ?_
      intro hdrop
      rw [← hdrop, List.length_drop] at hlength
      omega
  · simp [hcolon]

/-- The positions cut the URL as the cuts of `parseAndAuthorizeUpdateUrl` do, with the same
failures, and the buffers hold what it returns. -/
theorem parseIntoBuffers_eq (url : Bytes) (purpose : UpdateUrlPurpose) (parsed : UrlBuffers) :
    (parseIntoBuffers url purpose parsed).map UrlBuffers.read =
      parseAndAuthorizeUpdateUrl url purpose := by
  have height : (bytesOf "https://").length = 8 := by decide
  unfold parseIntoBuffers parseAndAuthorizeUpdateUrl
  rw [height]
  refine map_reject_bind (by rw [List.length_eq_zero_iff]) fun _ => ?_
  refine map_reject_bind (take_eight url) fun _ => ?_
  generalize url.drop 8 = afterScheme
  dsimp only
  refine map_reject_bind strchr_ne_none fun _ => ?_
  refine map_reject_bind mem_takeWhile_iff.symm fun _ => ?_
  refine map_reject_bind ?_ fun hpath => ?_
  · rw [dropWhile_eq_nil, strchr_eq]
    split
    · next hslash => simp [hslash]
    · next hslash => simp [hslash]
  rw [not_or, dropWhile_eq_nil, Decidable.not_not] at hpath
  have hposition : (strchr afterScheme 0x2f).getD 0 =
      (afterScheme.takeWhile (· ≠ 0x2f)).length := by
    rw [strchr_eq, if_pos hpath.1]
    rfl
  rw [hposition, memchr_takeWhile, memchr_takeWhile, drop_takeWhile]
  have hauthority : afterScheme.take (afterScheme.takeWhile (· ≠ 0x2f)).length =
      afterScheme.takeWhile (· ≠ 0x2f) := take_takeWhile _ _
  have hslash : afterScheme.dropWhile (· ≠ 0x2f) ≠ [] := mem_iff_dropWhile.mp hpath.1
  have hport := @port_iff afterScheme _ rfl
  generalize afterScheme.takeWhile (· ≠ 0x2f) = authority at *
  generalize afterScheme.dropWhile (· ≠ 0x2f) = path at *
  have hhost : afterScheme.take (authority.takeWhile (· ≠ 0x3a)).length =
      authority.takeWhile (· ≠ 0x3a) := by
    have hle := (authority.takeWhile_prefix (· ≠ 0x3a)).length_le
    calc afterScheme.take (authority.takeWhile (· ≠ 0x3a)).length
        = (afterScheme.take authority.length).take
            (authority.takeWhile (· ≠ 0x3a)).length := by
          rw [List.take_take, Nat.min_eq_left hle]
      _ = authority.takeWhile (· ≠ 0x3a) := by rw [hauthority, take_takeWhile]
  refine map_reject_bind strchr_ne_none fun _ => ?_
  rw [getD_strchr, hhost]
  refine map_reject_bind (by rw [List.length_eq_zero_iff]) fun hlength => ?_
  refine map_reject_bind Iff.rfl fun hcharacters => ?_
  refine map_reject_bind hport fun _ => ?_
  refine map_reject_bind ?_ fun hpathLength => ?_
  · rw [List.length_eq_zero_iff, or_iff_right hslash]
  refine map_reject_bind Iff.rfl fun hforbidden => ?_
  rw [not_or, Nat.not_le] at hlength
  rw [Decidable.not_not, List.all_eq_true] at hcharacters
  have hhostZero : 0 ∉ authority.takeWhile (· ≠ 0x3a) :=
    not_mem_of_all hcharacters (by decide)
  have hpathZero : 0 ∉ path := by
    intro hzero
    exact hforbidden (List.any_eq_true.mpr ⟨0, hzero, by decide⟩)
  have hhostString := (@cString_copyString _ _ parsed.host hhostZero hlength.2).1
  have hpathString := (@cString_copyString _ _ parsed.pathAndQuery hpathZero
    (Nat.lt_of_not_le hpathLength)).1
  refine map_reject_bind ?_ fun _ => ?_
  · rw [hpathString, strchr_ne_none]
  refine map_reject_bind (by rw [hhostString]) fun _ => ?_
  refine map_reject_bind (by rw [hpathString]) fun _ => ?_
  show Except.ok _ = Except.ok _
  unfold UrlBuffers.read
  rw [hhostString, hpathString]
  rfl

/-! ## What is accepted -/

/-- The texts that are accepted, with the host and the target that they return. -/
structure AcceptedUrl (url : Bytes) (purpose : UpdateUrlPurpose) (host port target : Bytes) :
    Prop where
  text : url = bytesOf "https://" ++ (host ++ port ++ target)
  port : port = [] ∨ port = bytesOf ":443"
  host : hostAllowed purpose host = true
  target_head : target.head? = some 0x2f
  fragment : 0x23 ∉ target
  query : purpose ≠ .redirect → 0x3f ∉ target
  characters : ∀ c ∈ target, isForbiddenRequestCharacter c = false
  path : pathAllowed purpose target = true
  urlBytes : url.length < kMaximumUpdateUrlBytes
  pathBytes : target.length < kMaximumUpdatePathBytes

section Accepted

variable {url host port target : Bytes} {purpose : UpdateUrlPurpose}

/-- Every host that some purpose allows. -/
def updateHosts : List Bytes :=
  [apiHost, gitHubHost, bytesOf "release-assets.githubusercontent.com",
    bytesOf "objects.githubusercontent.com", bytesOf "github-releases.githubusercontent.com"]

theorem mem_updateHosts (h : hostAllowed purpose host = true) : host ∈ updateHosts := by
  have hapi : host = apiHost → host ∈ updateHosts := fun hhost => hhost ▸ .head _
  have hgitHub : host = gitHubHost → host ∈ updateHosts := fun hhost => hhost ▸ .tail _ (.head _)
  cases purpose with
  | redirect =>
      have h : isAuthorizedRedirectHost host = true := h
      unfold isAuthorizedRedirectHost at h
      rw [Bool.or_eq_true, Bool.or_eq_true, Bool.or_eq_true] at h
      obtain ((h | h) | h) | h := h
      · exact hgitHub (of_decide_eq_true h)
      · exact of_decide_eq_true h ▸ .tail _ (.tail _ (.head _))
      · exact of_decide_eq_true h ▸ .tail _ (.tail _ (.tail _ (.head _)))
      · exact of_decide_eq_true h ▸ .tail _ (.tail _ (.tail _ (.tail _ (.head _))))
  | discovery => exact hapi (of_decide_eq_true h)
  | preparedDraftDiscovery => exact hapi (of_decide_eq_true h)
  | authenticatedReleaseAsset => exact hapi (of_decide_eq_true h)
  | releaseAsset => exact hgitHub (of_decide_eq_true h)
  | gitHubDeviceAuthorization => exact hgitHub (of_decide_eq_true h)

/-- The hosts are names that fit their buffer. -/
theorem updateHosts_names : ∀ name ∈ updateHosts, name ≠ [] ∧
    name.length < kMaximumUpdateHostBytes ∧ name.all isAsciiHostCharacter = true := by
  decide +kernel

theorem hostAllowed_name (h : hostAllowed purpose host = true) :
    host ≠ [] ∧ host.length < kMaximumUpdateHostBytes ∧
      host.all isAsciiHostCharacter = true :=
  updateHosts_names host (mem_updateHosts h)

/-- The paths of a purpose begin with a slash. -/
theorem head_pathAllowed (h : pathAllowed purpose target = true) : target.head? = some 0x2f := by
  have hprefix : ∀ start : Bytes, start.head? = some 0x2f → start.isPrefixOf target = true →
      target.head? = some 0x2f := by
    intro start hstart hprefix
    obtain ⟨rest, rfl⟩ := List.isPrefixOf_iff_prefix.mp hprefix
    rw [List.head?_append, hstart]
    rfl
  cases purpose with
  | discovery =>
      rw [of_decide_eq_true h]
      decide
  | releaseAsset =>
      simp only [pathAllowed, isGithubReleasePath, Bool.and_eq_true] at h
      exact hprefix _ (by decide) h.1.1.1.1
  | redirect =>
      simp only [pathAllowed, isRedirectPath, Bool.and_eq_true, decide_eq_true_eq] at h
      exact h.1
  | preparedDraftDiscovery =>
      simp only [pathAllowed, isPositiveDecimalSuffix, Bool.and_eq_true] at h
      exact hprefix _ (by decide) h.1.1
  | authenticatedReleaseAsset =>
      simp only [pathAllowed, isPositiveDecimalSuffix, Bool.and_eq_true] at h
      exact hprefix _ (by decide) h.1.1
  | gitHubDeviceAuthorization =>
      simp only [pathAllowed, Bool.or_eq_true, decide_eq_true_eq] at h
      obtain rfl | rfl := h
      · decide
      · decide

/-- A byte that is no character of a host name is not in an allowed host. -/
theorem not_mem_host (h : hostAllowed purpose host = true) {c : UInt8}
    (hc : isAsciiHostCharacter c = false) : c ∉ host :=
  not_mem_of_all (List.all_eq_true.mp (hostAllowed_name h).2.2) hc

theorem accepted_of_ok {parsed : ParsedUpdateUrl}
    (h : parseAndAuthorizeUpdateUrl url purpose = .ok parsed) :
    ∃ port, AcceptedUrl url purpose parsed.host port parsed.pathAndQuery := by
  unfold parseAndAuthorizeUpdateUrl at h
  simp only [reject_bind_eq_ok] at h
  obtain ⟨hlength, hscheme, hfragment, -, hcut, -, -, -, hport, hpathBytes, hforbidden, hquery,
    hhost, hpath, h⟩ := h
  cases h
  rw [not_or, Nat.not_le] at hlength
  obtain ⟨afterScheme, rfl⟩ := List.isPrefixOf_iff_prefix.mp (Decidable.not_not.mp hscheme)
  rw [List.drop_left] at *
  have hpath := Decidable.not_not.mp hpath
  have htext : afterScheme.takeWhile (· ≠ 0x2f) ++ afterScheme.dropWhile (· ≠ 0x2f) =
      afterScheme := List.takeWhile_append_dropWhile
  refine ⟨(afterScheme.takeWhile (· ≠ 0x2f)).dropWhile (· ≠ 0x3a), ?_, ?_,
    Decidable.not_not.mp hhost, head_pathAllowed hpath, ?_, ?_, ?_, hpath, hlength.2,
    Nat.lt_of_not_le hpathBytes⟩
  · rw [List.takeWhile_append_dropWhile, htext]
  · by_cases hnone : (afterScheme.takeWhile (· ≠ 0x2f)).dropWhile (· ≠ 0x3a) = []
    · exact Or.inl hnone
    · refine Or.inr ?_
      have hdigits : _ = bytesOf "443" :=
        Decidable.not_not.mp fun hne => hport ⟨hnone, hne⟩
      have hcolon := head?_dropWhile_ne hnone
      obtain ⟨rest, hrest⟩ := List.head?_eq_some_iff.mp hcolon
      rw [hrest] at hdigits ⊢
      have hrest : rest = bytesOf "443" := hdigits
      rw [hrest]
      decide
  · intro hmark
    refine hfragment ?_
    rw [← htext]
    exact List.mem_append_right _ hmark
  · intro hpurpose hmark
    exact hquery ⟨hpurpose, hmark⟩
  · intro c hc
    exact Bool.eq_false_iff.mpr fun hbad => hforbidden (List.any_eq_true.mpr ⟨c, hc, hbad⟩)

/-- Neither a host nor a port has a byte that is in no host name and no port. -/
theorem AcceptedUrl.not_mem_authority (h : AcceptedUrl url purpose host port target) {c : UInt8}
    (hc : isAsciiHostCharacter c = false) (hport : c ∉ bytesOf ":443") : c ∉ host ++ port := by
  intro hmem
  obtain hmem | hmem := List.mem_append.mp hmem
  · exact not_mem_host h.host hc hmem
  · obtain hnone | hdigits := h.port
    · rw [hnone] at hmem
      cases hmem
    · exact hport (hdigits ▸ hmem)

theorem ok_of_accepted (h : AcceptedUrl url purpose host port target) :
    parseAndAuthorizeUpdateUrl url purpose = .ok ⟨host, target, 443⟩ := by
  obtain ⟨hne, hhostBytes, hname⟩ := hostAllowed_name h.host
  have hport : ∀ b, port.head? = some b → b = 0x3a := by
    intro b hb
    obtain hport | hport := h.port
    · rw [hport] at hb
      cases hb
    · rw [hport] at hb
      exact (Option.some.inj hb).symm
  have hdigits : ¬(port ≠ [] ∧ port.drop 1 ≠ bytesOf "443") := by
    rintro ⟨hnone, hother⟩
    obtain hport | hport := h.port
    · exact hnone hport
    · exact hother (hport ▸ by decide)
  have htarget : ∀ b, target.head? = some b → b = 0x2f := by
    intro b hb
    rw [h.target_head] at hb
    exact (Option.some.inj hb).symm
  obtain ⟨htake, hdrop⟩ := cut_append (h.not_mem_authority (by decide) (by decide)) htarget
  obtain ⟨htakeHost, hdropHost⟩ := cut_append (not_mem_host h.host (c := 0x3a) (by decide)) hport
  have hfragment : 0x23 ∉ host ++ port ++ target := by
    intro hmem
    obtain hmem | hmem := List.mem_append.mp hmem
    · exact h.not_mem_authority (by decide) (by decide) hmem
    · exact h.fragment hmem
  have hslash : target ≠ [] := by
    intro hnil
    have hhead := h.target_head
    rw [hnil] at hhead
    cases hhead
  have hurl : url ≠ [] := by
    rw [h.text]
    exact List.append_ne_nil_of_left_ne_nil (by decide) _
  have hforbidden : ¬target.any isForbiddenRequestCharacter = true := by
    intro hany
    obtain ⟨c, hc, hbad⟩ := List.any_eq_true.mp hany
    rw [h.characters c hc] at hbad
    cases hbad
  have hdropUrl : url.drop (bytesOf "https://").length = host ++ port ++ target := by
    rw [h.text, List.drop_left]
  have hscheme : (bytesOf "https://").isPrefixOf url = true := by
    rw [List.isPrefixOf_iff_prefix, h.text]
    exact List.prefix_append _ _
  unfold parseAndAuthorizeUpdateUrl
  simp only [reject_bind_eq_ok]
  rw [hdropUrl, htake, hdrop, htakeHost, hdropHost]
  refine ⟨?_, ?_, hfragment, h.not_mem_authority (by decide) (by decide), ?_,
    h.not_mem_authority (by decide) (by decide), ?_, ?_, hdigits, Nat.not_le.mpr h.pathBytes,
    hforbidden, ?_, ?_, ?_, rfl⟩
  · exact not_or.mpr ⟨hurl, Nat.not_le.mpr h.urlBytes⟩
  · exact not_not_intro hscheme
  · exact not_or.mpr ⟨hslash, List.append_ne_nil_of_left_ne_nil hne _⟩
  · exact not_or.mpr ⟨hne, Nat.not_le.mpr hhostBytes⟩
  · exact not_not_intro hname
  · exact fun hquery => h.query hquery.1 hquery.2
  · exact not_not_intro h.host
  · exact not_not_intro h.path

/-! ## What other parsers read -/

/-- The components of the URL by the generic syntax of URIs: HTTPS on port 443 of a host of
the purpose, with the target and nothing else. -/
structure StandardUrl (url : Bytes) (purpose : UpdateUrlPurpose) (host target : Bytes) : Prop where
  scheme : (Uri.parts url).scheme = some (bytesOf "https")
  authority : (Uri.parts url).authority = some host ∨
    (Uri.parts url).authority = some (host ++ bytesOf ":443")
  noUserInfo : ∀ authority, (Uri.parts url).authority = some authority → 0x40 ∉ authority
  noFragment : (Uri.parts url).fragment = none
  target : (Uri.parts url).path ++ Uri.behind [0x3f] (Uri.parts url).query = target
  host : hostAllowed purpose host = true
  query : purpose ≠ .redirect → (Uri.parts url).query = none
  characters : ∀ c ∈ url, isForbiddenRequestCharacter c = false

/-- A byte that no request may hold is in no host name and no port. -/
theorem not_authority_of_forbidden : ∀ c, isForbiddenRequestCharacter c = true →
    isAsciiHostCharacter c = false ∧ c ∉ bytesOf ":443" :=
  forall_byte (by decide +kernel)

/-- The components of a URL that is accepted. -/
theorem AcceptedUrl.parts (h : AcceptedUrl url purpose host port target) :
    ∃ query, Uri.parts url = ⟨some (bytesOf "https"), some (host ++ port),
        target.takeWhile (· ≠ 0x3f), query, none⟩ ∧
      target.takeWhile (· ≠ 0x3f) ++ Uri.behind [0x3f] query = target ∧
      (0x3f ∉ target → query = none) := by
  have htarget : target.takeWhile (· ≠ 0x3f) ++ target.dropWhile (· ≠ 0x3f) = target :=
    List.takeWhile_append_dropWhile
  have hquery : ∃ query, Uri.behind [0x3f] query = target.dropWhile (· ≠ 0x3f) ∧
      (0x3f ∉ target → query = none) := by
    by_cases hmark : 0x3f ∈ target
    · obtain ⟨rest, hrest⟩ :=
        List.head?_eq_some_iff.mp (head?_dropWhile_ne (mem_iff_dropWhile.mp hmark))
      exact ⟨some rest, hrest.symm, fun hnone => absurd hmark hnone⟩
    · exact ⟨none, (dropWhile_eq_nil.mpr hmark).symm, fun _ => rfl⟩
  obtain ⟨query, hbehind, hnone⟩ := hquery
  rw [← hbehind] at htarget
  refine ⟨query, ?_, htarget, hnone⟩
  have hsub : ∀ c ∈ target.takeWhile (· ≠ 0x3f), c ∈ target := by
    intro c hc
    rw [← htarget]
    exact List.mem_append_left _ hc
  have habsolute : Uri.Parts.Absolute ⟨some (bytesOf "https"), some (host ++ port),
      target.takeWhile (· ≠ 0x3f), query, none⟩ (bytesOf "https") (host ++ port) := by
    refine ⟨rfl, by decide, by decide +kernel, rfl, ?_, ?_, ?_, ?_⟩
    · intro c hc hstop
      have hnot : ∀ d ∈ ([0x2f, 0x3f, 0x23] : Bytes), d ∉ host ++ port := by
        intro d hd
        have hclasses : ∀ d ∈ ([0x2f, 0x3f, 0x23] : Bytes),
            isAsciiHostCharacter d = false ∧ d ∉ bytesOf ":443" := by
          decide +kernel
        exact h.not_mem_authority (hclasses d hd).1 (hclasses d hd).2
      exact hnot c hstop hc
    · intro c hc
      have hhead : target.head? = some c := by
        rw [← htarget, List.head?_append, hc]
        rfl
      rw [h.target_head] at hhead
      exact (Option.some.inj hhead).symm
    · intro c hc hstop
      obtain rfl | hstop := List.mem_cons.mp hstop
      · simpa using List.mem_takeWhile_imp hc
      · rw [List.mem_singleton.mp hstop] at hc
        exact h.fragment (hsub _ hc)
    · rintro text rfl hmark
      refine h.fragment ?_
      rw [← htarget]
      exact List.mem_append_right _ (List.mem_cons_of_mem _ hmark)
  have hrender : Uri.Parts.render ⟨some (bytesOf "https"), some (host ++ port),
      target.takeWhile (· ≠ 0x3f), query, none⟩ = url := by
    have hscheme : bytesOf "https://" = bytesOf "https" ++ [0x3a] ++ [0x2f, 0x2f] := by decide
    calc Uri.Parts.render ⟨some (bytesOf "https"), some (host ++ port),
          target.takeWhile (· ≠ 0x3f), query, none⟩
        = bytesOf "https" ++ [0x3a] ++ ([0x2f, 0x2f] ++ (host ++ port)) ++
            target.takeWhile (· ≠ 0x3f) ++ Uri.behind [0x3f] query ++ [] := rfl
      _ = bytesOf "https" ++ [0x3a] ++ [0x2f, 0x2f] ++ (host ++ port ++
            (target.takeWhile (· ≠ 0x3f) ++ Uri.behind [0x3f] query)) := by
          simp only [List.append_assoc, List.append_nil]
      _ = url := by rw [htarget, h.text, hscheme]
  rw [← hrender]
  exact Uri.parts_render habsolute

theorem AcceptedUrl.standard (h : AcceptedUrl url purpose host port target) :
    StandardUrl url purpose host target := by
  obtain ⟨query, hparts, htarget, hquery⟩ := h.parts
  refine ⟨by rw [hparts], ?_, ?_, by rw [hparts], by rw [hparts]; exact htarget, h.host, ?_, ?_⟩
  · rw [hparts]
    obtain hport | hport := h.port
    · exact Or.inl (by rw [hport, List.append_nil])
    · exact Or.inr (by rw [hport])
  · rw [hparts]
    rintro authority ⟨⟩
    exact h.not_mem_authority (by decide) (by decide)
  · intro hpurpose
    rw [hparts]
    exact hquery (h.query hpurpose)
  · rw [h.text]
    intro c hc
    obtain hc | hc := List.mem_append.mp hc
    · have hscheme : ∀ c ∈ bytesOf "https://", isForbiddenRequestCharacter c = false := by
        simp [bytesOf, isForbiddenRequestCharacter]
      exact hscheme c hc
    · obtain hc | hc := List.mem_append.mp hc
      · refine Bool.eq_false_iff.mpr fun hbad => ?_
        obtain ⟨hname, hport⟩ := not_authority_of_forbidden c hbad
        exact h.not_mem_authority hname hport hc
      · exact h.characters c hc

theorem StandardUrl.accepted (h : StandardUrl url purpose host target)
    (hpath : pathAllowed purpose target = true) (hurl : url.length < kMaximumUpdateUrlBytes)
    (htarget : target.length < kMaximumUpdatePathBytes) :
    ∃ port, AcceptedUrl url purpose host port target := by
  obtain ⟨port, hport, hauthority⟩ : ∃ port, (port = [] ∨ port = bytesOf ":443") ∧
      (Uri.parts url).authority = some (host ++ port) := by
    obtain hauthority | hauthority := h.authority
    · exact ⟨[], Or.inl rfl, by rw [hauthority, List.append_nil]⟩
    · exact ⟨_, Or.inr rfl, hauthority⟩
  have habsolute := Uri.absolute_parts h.scheme hauthority
  have htext : url = bytesOf "https://" ++ (host ++ port ++ target) := by
    have hscheme : bytesOf "https://" = bytesOf "https" ++ [0x3a] ++ [0x2f, 0x2f] := by decide
    have hrender := Uri.render_parts url
    unfold Uri.Parts.render at hrender
    rw [h.scheme, hauthority, h.noFragment] at hrender
    calc url
        = bytesOf "https" ++ [0x3a] ++ ([0x2f, 0x2f] ++ (host ++ port)) ++ (Uri.parts url).path ++
            Uri.behind [0x3f] (Uri.parts url).query ++ [] := hrender.symm
      _ = bytesOf "https" ++ [0x3a] ++ [0x2f, 0x2f] ++ (host ++ port ++
            ((Uri.parts url).path ++ Uri.behind [0x3f] (Uri.parts url).query)) := by
          simp only [List.append_assoc, List.append_nil]
      _ = bytesOf "https://" ++ (host ++ port ++ target) := by rw [h.target, hscheme]
  refine ⟨port, htext, hport, h.host, head_pathAllowed hpath, ?_, ?_, ?_, hpath, hurl, htarget⟩
  · rw [← h.target]
    intro hmark
    obtain hmark | hmark := List.mem_append.mp hmark
    · exact habsolute.path _ hmark (by decide)
    · cases hquery : (Uri.parts url).query with
      | none =>
          rw [hquery] at hmark
          cases hmark
      | some query =>
          rw [hquery] at hmark
          obtain hmark | hmark := List.mem_cons.mp hmark
          · revert hmark
            decide
          · exact habsolute.query query hquery hmark
  · intro hpurpose hmark
    rw [← h.target, h.query hpurpose] at hmark
    obtain hmark | hmark := List.mem_append.mp hmark
    · exact habsolute.path _ hmark (by decide)
    · cases hmark
  · intro c hc
    refine h.characters c ?_
    rw [htext]
    exact List.mem_append_right _ (List.mem_append_right _ hc)

end Accepted

/-- The buffers hold the host and the target as whole strings, with their NUL. -/
structure UrlBuffers.Holds (parsed : UrlBuffers) (host target : Bytes) : Prop where
  host : cString parsed.host.bytes = host
  host_terminated : 0 ∈ parsed.host.bytes
  pathAndQuery : cString parsed.pathAndQuery.bytes = target
  pathAndQuery_terminated : 0 ∈ parsed.pathAndQuery.bytes
  port : parsed.port = 443

/-- A buffer whose string is shorter than the buffer holds its NUL. -/
theorem terminated_of_length {n : Nat} {buffer : Block n} (h : (cString buffer.bytes).length < n) :
    0 ∈ buffer.bytes := by
  refine Decidable.byContradiction fun hzero => ?_
  have hwhole : cString buffer.bytes = buffer.bytes := takeWhile_of_not_mem hzero
  rw [hwhole, buffer.length_bytes] at h
  exact Nat.lt_irrefl n h

theorem holds_of_ok {url : Bytes} {purpose : UpdateUrlPurpose} {parsed out : UrlBuffers}
    (h : parseIntoBuffers url purpose parsed = .ok out) :
    out.Holds (cString out.host.bytes) (cString out.pathAndQuery.bytes) ∧
      ∃ port, AcceptedUrl url purpose (cString out.host.bytes) port
        (cString out.pathAndQuery.bytes) := by
  have hread := parseIntoBuffers_eq url purpose parsed
  rw [h] at hread
  have hread : parseAndAuthorizeUpdateUrl url purpose = .ok out.read := hread.symm
  obtain ⟨port, haccepted⟩ := accepted_of_ok hread
  have hport : out.port.toNat = 443 := (authorizedUrl_of_ok hread).port
  refine ⟨⟨rfl, terminated_of_length (hostAllowed_name haccepted.host).2.1, rfl,
    terminated_of_length haccepted.pathBytes, ?_⟩, port, haccepted⟩
  exact UInt16.toNat_inj.mp hport

/-- Nothing is accepted without a host and a target in the buffers, and these are returned
exactly for the URLs that every parser of the generic syntax reads so. -/
theorem authorized_iff_standard (url : Bytes) (purpose : UpdateUrlPurpose) (parsed : UrlBuffers) :
    (∀ out, parseIntoBuffers url purpose parsed = .ok out →
      ∃ host target, out.Holds host target) ∧
    ∀ host target,
      (∃ out, parseIntoBuffers url purpose parsed = .ok out ∧ out.Holds host target) ↔
        StandardUrl url purpose host target ∧ pathAllowed purpose target = true ∧
          url.length < kMaximumUpdateUrlBytes ∧ target.length < kMaximumUpdatePathBytes := by
  refine ⟨fun out hout => ⟨_, _, (holds_of_ok hout).1⟩, ?_⟩
  intro host target
  constructor
  · rintro ⟨out, hout, hholds⟩
    obtain ⟨-, port, haccepted⟩ := holds_of_ok hout
    rw [hholds.host, hholds.pathAndQuery] at haccepted
    exact ⟨haccepted.standard, haccepted.path, haccepted.urlBytes, haccepted.pathBytes⟩
  · rintro ⟨hstandard, hpath, hurl, htarget⟩
    obtain ⟨port, haccepted⟩ := hstandard.accepted hpath hurl htarget
    have hread := parseIntoBuffers_eq url purpose parsed
    rw [ok_of_accepted haccepted] at hread
    cases hout : parseIntoBuffers url purpose parsed with
    | error status =>
        rw [hout] at hread
        cases hread
    | ok out =>
        rw [hout] at hread
        have hread : out.read = ⟨host, target, 443⟩ := Except.ok.inj hread
        have hholds := (holds_of_ok hout).1
        have hhost : cString out.host.bytes = host := congrArg ParsedUpdateUrl.host hread
        have htarget : cString out.pathAndQuery.bytes = target :=
          congrArg ParsedUpdateUrl.pathAndQuery hread
        rw [hhost, htarget] at hholds
        exact ⟨out, rfl, hholds⟩

end Https

end BmxUpdate
