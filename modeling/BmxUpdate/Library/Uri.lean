import BmxUpdate.Library.Wire
import Mathlib.Tactic.Common

/-!
# The generic syntax of URIs

`parts` takes a URI reference apart as the regular expression of RFC 3986,
appendix B, does:

    ^(([^:/?#]+):)?(//([^/?#]*))?([^?#]*)(\?([^#]*))?(#(.*))?

Every group stops at the first byte its class leaves out, so the expression
matches in one way only.  `render` puts the components together again
(section 5.3), and `render_parts` and `parts_render` say that neither loses
anything.
-/

namespace Uri

open Wire

/-- The components of a URI reference; a component may be undefined. -/
structure Parts where
  scheme : Option Bytes
  authority : Option Bytes
  path : Bytes
  query : Option Bytes
  fragment : Option Bytes
deriving DecidableEq, Repr

/-! ## The groups of the expression -/

/-- `[^stops]*` and what follows. -/
def run (stops s : Bytes) : Bytes × Bytes := (s.takeWhile (· ∉ stops), s.dropWhile (· ∉ stops))

/-- `(mark([^stops]*))?` and what follows. -/
def marked (mark stops s : Bytes) : Option Bytes × Bytes :=
  if mark <+: s then
    let (component, rest) := run stops (s.drop mark.length)
    (some component, rest)
  else (none, s)

/-- `(([^:/?#]+):)?` and what follows. -/
def leadingScheme (s : Bytes) : Option Bytes × Bytes :=
  let (component, rest) := run [0x3a, 0x2f, 0x3f, 0x23] s
  if component ≠ [] ∧ rest.head? = some 0x3a then (some component, rest.drop 1) else (none, s)

/-- The components of a URI reference. -/
def parts (s : Bytes) : Parts :=
  let (scheme, s) := leadingScheme s
  let (authority, s) := marked [0x2f, 0x2f] [0x2f, 0x3f, 0x23] s
  let (path, s) := run [0x3f, 0x23] s
  let (query, s) := marked [0x3f] [0x23] s
  let (fragment, _) := marked [0x23] [] s
  { scheme, authority, path, query, fragment }

/-- A component behind its mark, and nothing if it is undefined. -/
def behind (mark : Bytes) : Option Bytes → Bytes
  | none => []
  | some component => mark ++ component

/-- The URI reference of these components. -/
def Parts.render (p : Parts) : Bytes :=
  (p.scheme.map (· ++ [0x3a])).getD [] ++ behind [0x2f, 0x2f] p.authority ++ p.path ++
    behind [0x3f] p.query ++ behind [0x23] p.fragment

/-! ## What the groups match -/

section Groups

variable {mark stops s x rest : Bytes}

theorem run_append : (run stops s).1 ++ (run stops s).2 = s := List.takeWhile_append_dropWhile

theorem run_eq (hx : ∀ c ∈ x, c ∉ stops) (hrest : ∀ c, rest.head? = some c → c ∈ stops) :
    run stops (x ++ rest) = (x, rest) := by
  have hnone : rest.takeWhile (· ∉ stops) = [] ∧ rest.dropWhile (· ∉ stops) = rest := by
    cases rest with
    | nil => exact ⟨rfl, rfl⟩
    | cons c rest =>
        have hc := hrest c rfl
        simp [hc]
  have hall : ∀ c ∈ x, decide (c ∉ stops) = true := fun c hc => decide_eq_true (hx c hc)
  unfold run
  rw [List.takeWhile_append_of_pos hall, List.dropWhile_append_of_pos hall, hnone.1, hnone.2,
    List.append_nil]

/-- What follows a group begins with a byte that stops it. -/
theorem head_run (c : UInt8) (hc : (run stops s).2.head? = some c) : c ∈ stops := by
  have hne : s.dropWhile (· ∉ stops) ≠ [] := by
    intro hnil
    have hc : (s.dropWhile (· ∉ stops)).head? = some c := hc
    rw [hnil] at hc
    cases hc
  have hhead := List.head_dropWhile_not (fun d => decide (d ∉ stops)) hne
  have hc : (s.dropWhile (· ∉ stops)).head? = some c := hc
  rw [List.head?_eq_some_head hne] at hc
  cases hc
  simpa using hhead

theorem marked_append : behind mark (marked mark stops s).1 ++ (marked mark stops s).2 = s := by
  unfold marked
  split
  · next hmark =>
      obtain ⟨text, rfl⟩ := hmark
      rw [List.drop_left]
      show mark ++ _ ++ _ = _
      rw [List.append_assoc, run_append]
  · rfl

theorem marked_some (hx : ∀ c ∈ x, c ∉ stops) (hrest : ∀ c, rest.head? = some c → c ∈ stops) :
    marked mark stops (mark ++ (x ++ rest)) = (some x, rest) := by
  unfold marked
  rw [if_pos (List.prefix_append _ _), List.drop_left, run_eq hx hrest]

theorem not_mem_run (c : UInt8) (hc : c ∈ (run stops s).1) : c ∉ stops := by
  simpa using List.mem_takeWhile_imp hc

theorem head?_of_run (c : UInt8) (hc : (run stops s).1.head? = some c) : s.head? = some c := by
  have hcut := @run_append stops s
  rw [← hcut, List.head?_append, hc]
  rfl

theorem marked_stops {component : Bytes} (h : (marked mark stops s).1 = some component) :
    (∀ c ∈ component, c ∉ stops) ∧ ∀ c, (marked mark stops s).2.head? = some c → c ∈ stops := by
  unfold marked at h ⊢
  split at h
  · next hmark =>
      rw [if_pos hmark]
      cases h
      exact ⟨fun c hc => not_mem_run c hc, fun c hc => head_run c hc⟩
  · cases h

theorem marked_none (h : ¬mark <+: s) : marked mark stops s = (none, s) := if_neg h

end Groups

/-! ## Components and their text -/

theorem leadingScheme_append (s : Bytes) :
    ((leadingScheme s).1.map (· ++ [0x3a])).getD [] ++ (leadingScheme s).2 = s := by
  unfold leadingScheme
  dsimp only
  split
  · next hcolon =>
      obtain ⟨rest, hrest⟩ := List.head?_eq_some_iff.mp hcolon.2
      have hrun := @run_append [0x3a, 0x2f, 0x3f, 0x23] s
      rw [hrest] at hrun ⊢
      show _ ++ [0x3a] ++ rest = s
      rw [List.append_assoc]
      exact hrun
  · rfl

/-- Behind the query comes a fragment or nothing. -/
theorem head_query {s : Bytes} (hs : ∀ c, s.head? = some c → c ∈ ([0x3f, 0x23] : Bytes)) (c : UInt8)
    (hc : (marked [0x3f] [0x23] s).2.head? = some c) : c = 0x23 := by
  unfold marked at hc
  split at hc
  · exact List.mem_singleton.mp (head_run c hc)
  · next hmark =>
      have hmem := hs c hc
      obtain ⟨rest, rfl⟩ := List.head?_eq_some_iff.mp hc
      have hquery : c ≠ 0x3f := by
        rintro rfl
        exact hmark ⟨rest, rfl⟩
      simpa [hquery] using hmem

/-- The fragment is the rest. -/
theorem fragment_rest {s : Bytes} (hs : ∀ c, s.head? = some c → c = 0x23) :
    (marked [0x23] [] s).2 = [] := by
  cases s with
  | nil => rfl
  | cons c rest =>
      cases hs c rfl
      show (run [] rest).2 = []
      unfold run
      simp

/-- Nothing is lost. -/
theorem render_parts (s : Bytes) : (parts s).render = s := by
  have hscheme := leadingScheme_append s
  unfold parts Parts.render
  dsimp only
  generalize leadingScheme s = scheme at hscheme ⊢
  have hauthority := @marked_append [0x2f, 0x2f] [0x2f, 0x3f, 0x23] scheme.2
  generalize marked [0x2f, 0x2f] [0x2f, 0x3f, 0x23] scheme.2 = authority at hauthority ⊢
  have hpath := @run_append [0x3f, 0x23] authority.2
  have hhead := @head_run [0x3f, 0x23] authority.2
  generalize run [0x3f, 0x23] authority.2 = path at hpath hhead ⊢
  have hquery := @marked_append [0x3f] [0x23] path.2
  have hmark := @head_query path.2 hhead
  generalize marked [0x3f] [0x23] path.2 = query at hquery hmark ⊢
  have hfragment := @marked_append [0x23] [] query.2
  rw [fragment_rest hmark, List.append_nil] at hfragment
  rw [hfragment, List.append_assoc, hquery, List.append_assoc, hpath, List.append_assoc,
    hauthority, hscheme]

/-- The components of a URI with a scheme and an authority. -/
structure Parts.Absolute (p : Parts) (scheme authority : Bytes) : Prop where
  scheme_eq : p.scheme = some scheme
  scheme_ne : scheme ≠ []
  scheme : ∀ c ∈ scheme, c ∉ ([0x3a, 0x2f, 0x3f, 0x23] : Bytes)
  authority_eq : p.authority = some authority
  authority : ∀ c ∈ authority, c ∉ ([0x2f, 0x3f, 0x23] : Bytes)
  path_head : ∀ c, p.path.head? = some c → c = 0x2f
  path : ∀ c ∈ p.path, c ∉ ([0x3f, 0x23] : Bytes)
  query : ∀ query, p.query = some query → 0x23 ∉ query

/-- The components of a URI that has a scheme and an authority. -/
theorem absolute_parts {s scheme authority : Bytes} (hscheme : (parts s).scheme = some scheme)
    (hauthority : (parts s).authority = some authority) :
    (parts s).Absolute scheme authority := by
  have hlead : (leadingScheme s).1 = some scheme := hscheme
  have hmarked : (marked [0x2f, 0x2f] [0x2f, 0x3f, 0x23] (leadingScheme s).2).1 = some authority :=
    hauthority
  have hstops := marked_stops hmarked
  refine ⟨hscheme, ?_, ?_, hauthority, hstops.1, ?_, fun c hc => not_mem_run c hc, ?_⟩
  · unfold leadingScheme at hlead
    dsimp only at hlead
    split at hlead
    · next hcolon =>
        cases hlead
        exact hcolon.1
    · cases hlead
  · unfold leadingScheme at hlead
    dsimp only at hlead
    split at hlead
    · cases hlead
      exact fun c hc => not_mem_run c hc
    · cases hlead
  · intro c hc
    have hpath := not_mem_run c (List.mem_of_head? hc)
    have hstop := hstops.2 c (head?_of_run c hc)
    simp only [List.mem_cons, List.not_mem_nil, or_false, not_or] at hstop hpath
    tauto
  · intro query hquery
    have hquery := (marked_stops hquery).1
    intro hmark
    exact hquery 0x23 hmark List.mem_cons_self

theorem leadingScheme_some {scheme rest : Bytes} (hne : scheme ≠ [])
    (hscheme : ∀ c ∈ scheme, c ∉ ([0x3a, 0x2f, 0x3f, 0x23] : Bytes)) :
    leadingScheme (scheme ++ 0x3a :: rest) = (some scheme, rest) := by
  have hrun : run [0x3a, 0x2f, 0x3f, 0x23] (scheme ++ 0x3a :: rest) = (scheme, 0x3a :: rest) := by
    refine run_eq hscheme ?_
    rintro c ⟨⟩
    exact List.mem_cons_self
  unfold leadingScheme
  rw [hrun]
  exact if_pos ⟨hne, rfl⟩

theorem head_fragment (fragment : Option Bytes) (c : UInt8)
    (hc : (behind [0x23] fragment).head? = some c) : c = 0x23 := by
  cases fragment with
  | none => cases hc
  | some text =>
      cases hc
      rfl

theorem marked_query {query fragment : Option Bytes} (hquery : ∀ q, query = some q → 0x23 ∉ q) :
    marked [0x3f] [0x23] (behind [0x3f] query ++ behind [0x23] fragment) =
      (query, behind [0x23] fragment) := by
  cases query with
  | none =>
      apply marked_none
      rintro ⟨rest, hrest⟩
      have hrest : 0x3f :: rest = behind [0x23] fragment := hrest
      have hmark := head_fragment fragment 0x3f (by rw [← hrest]; rfl)
      revert hmark
      decide
  | some q =>
      show marked [0x3f] [0x23] ([0x3f] ++ q ++ behind [0x23] fragment) = _
      rw [List.append_assoc]
      refine marked_some ?_ ?_
      · intro c hc hmark
        exact hquery q rfl (List.mem_singleton.mp hmark ▸ hc)
      · intro c hc
        exact List.mem_singleton.mpr (head_fragment fragment c hc)

theorem marked_fragment (fragment : Option Bytes) :
    marked [0x23] [] (behind [0x23] fragment) = (fragment, []) := by
  cases fragment with
  | none => rfl
  | some text =>
      have hmarked := @marked_some [0x23] [] text [] (fun _ _ => List.not_mem_nil) nofun
      rwa [List.append_nil] at hmarked

theorem head_tail {query fragment : Option Bytes} (c : UInt8)
    (hc : (behind [0x3f] query ++ behind [0x23] fragment).head? = some c) :
    c ∈ ([0x3f, 0x23] : Bytes) := by
  cases query with
  | none =>
      rw [head_fragment fragment c hc]
      decide
  | some q =>
      cases hc
      exact List.mem_cons_self

/-- The components of an absolute URI are read back. -/
theorem parts_render {p : Parts} {scheme authority : Bytes} (h : p.Absolute scheme authority) :
    parts p.render = p := by
  obtain ⟨s, a, path, query, fragment⟩ := p
  obtain rfl : s = some scheme := h.scheme_eq
  obtain rfl : a = some authority := h.authority_eq
  have htext : Parts.render ⟨some scheme, some authority, path, query, fragment⟩ =
      scheme ++ 0x3a :: ([0x2f, 0x2f] ++ (authority ++
        (path ++ (behind [0x3f] query ++ behind [0x23] fragment)))) := by
    unfold Parts.render
    simp [behind]
  have hhead : ∀ c, (path ++ (behind [0x3f] query ++ behind [0x23] fragment)).head? = some c →
      c ∈ ([0x2f, 0x3f, 0x23] : Bytes) := by
    intro c hc
    cases path with
    | nil => exact List.mem_cons_of_mem _ (head_tail c hc)
    | cons d rest =>
        cases hc
        rw [h.path_head c rfl]
        exact List.mem_cons_self
  unfold parts
  rw [htext, leadingScheme_some h.scheme_ne h.scheme]
  dsimp only
  rw [marked_some h.authority hhead]
  dsimp only
  rw [run_eq h.path (fun c hc => head_tail c hc)]
  dsimp only
  rw [marked_query h.query]
  dsimp only
  rw [marked_fragment]

end Uri
