import BmxUpdate.Json.Completeness

/-!
# Which texts `ParseJson` accepts

`parseJson_ok_iff`: exactly the texts of the grammar with the escapes that
`strchr` finds, within the limits on size, tokens and depth.  `strchr` finds the
terminator of its string too, so a backslash before a NUL counts as an escape.
`parseJson_exact_iff` says when that makes no difference to RFC 8259.
-/

namespace BmxUpdate

namespace Json

open Wire JsonGrammar

/-! ## The whole text -/

theorem layer_pos {E : UInt8 → Prop} {V : Nat → Production} {n : Nat} {t r : Bytes}
    (h : Layer E V n t r) : 0 < n := by
  cases h <;> omega

theorem text_pos {E : UInt8 → Prop} {levels n : Nat} {t : Bytes} (h : Text E levels n t) :
    0 < n ∧ levels ≠ 0 := by
  obtain ⟨u, -, v, hv, -⟩ := h
  cases levels with
  | zero => exact hv.elim
  | succ levels => exact ⟨layer_pos hv, by omega⟩

theorem parseText_runs_iff {json : Bytes} {capacity maxDepth : Nat} :
    (∃ s', Runs (parseText json capacity maxDepth) { rest := json, tokens := [] } () s') ↔
      ∃ n ≤ capacity, Text Accepted maxDepth n json := by
  unfold parseText
  simp only [runs_bind, runs_skipWhitespace, runs_get, runs_ite, runs_pure]
  constructor
  · rintro ⟨s', _, _, rfl, _, s, hrun, _, _, rfl, _, _, ⟨rfl, rfl⟩, h⟩
    have hsuffix : skipped json <:+ json := (ws_skipped json).suffix
    obtain ⟨n, hvalue, hgrown, hfits⟩ := parseValue_reads maxDepth hrun hsuffix
    have hlength := hgrown.length
    split at h
    · exact absurd h not_runs_fail
    · next hend =>
        have hend : skipped s.rest = [] := not_not.mp hend
        have hvalue : Value Accepted maxDepth n (skipped (skipped json)) s.rest := hvalue
        rw [skipped_skipped] at hvalue
        refine ⟨n, by simp at hlength; omega, _, ws_skipped json, _, hvalue, ?_⟩
        rw [← hend]
        exact ws_skipped s.rest
  · rintro ⟨n, hn, u, hws, v, hv, hend⟩
    have hskip : skipped json = u := skipped_eq (startsInk_value _ _) hws hv
    have hstops : Stops ContinuesNumber v := stops_of_ws hend (stops_nil _)
    have haccepts : AcceptsValues json capacity (Value Accepted maxDepth)
        (parseValue json capacity maxDepth) := parseValue_accepts maxDepth
    obtain ⟨s', hrun, hrest, -⟩ := haccepts (-1) (s := { rest := skipped json, tokens := [] })
      (by rw [skipped_skipped, hskip]; exact hv) hstops (ws_skipped json).suffix (by simpa using hn)
    refine ⟨{ s' with rest := skipped s'.rest }, (), _, rfl, (), s', hrun, (), _, rfl, _, _,
      ⟨rfl, rfl⟩, ?_⟩
    have hnil : skipped s'.rest = [] := by
      rw [hrest]
      exact hend.dropWhile_eq (stops_nil _)
    rw [if_neg (by simpa using hnil)]
    exact ⟨trivial, rfl⟩

/-- `ParseJson` accepts the texts of the grammar, with the escapes it finds. -/
theorem parseJson_ok_iff {json : Bytes} {capacity maxDepth : Nat}
    (hsize : json.length ≤ kMaximumJsonBytes) :
    (parseJson (some json) capacity maxDepth).1.error = none ↔
      ∃ n ≤ capacity, Text Accepted maxDepth n json := by
  rw [← parseText_runs_iff]
  unfold parseJson Runs
  simp only
  split
  · next hzero =>
      constructor
      · intro h
        cases h
      · intro hruns
        obtain ⟨n, hn, htext⟩ := parseText_runs_iff.mp hruns
        have := text_pos htext
        omega
  · rw [if_neg (by omega)]
    split
    · next s hrun => simp [hrun]
    · next hrun => simp [hrun]

/-! ## The escape that is none -/

/-- RFC 8259 is the grammar without the escaped NUL, which no other text contains. -/
theorem text_escapeLetter_iff {levels n : Nat} {t : Bytes} :
    Text EscapeLetter levels n t ↔ Text Accepted levels n t ∧ (0 : UInt8) ∉ t := by
  have hletter : ∀ c, EscapeLetter c → c ≠ 0 := by
    rintro c h rfl
    revert h
    unfold EscapeLetter
    decide
  constructor
  · intro h
    have hbytes := h.bytes (Q := fun c => c ≠ 0) (fun c hc => hc) hletter
    refine ⟨h.restrict (Q := fun _ => True) ?_ fun _ _ => trivial, fun hzero => hbytes 0 hzero rfl⟩
    exact fun c hc _ => accepted_iff.mpr (.inr hc)
  · rintro ⟨h, hzero⟩
    refine h.restrict (Q := fun c => c ≠ 0) ?_ fun c hc hnul => hzero (hnul ▸ hc)
    intro c hc hnul
    exact (accepted_iff.mp hc).resolve_left hnul

/-- `ParseJson` accepts exactly RFC 8259 (with plain, distinct keys) on a text unless it holds a
NUL and would be JSON if a backslash could escape it. -/
theorem parseJson_exact_iff (json : Bytes) (capacity maxDepth : Nat)
    (hsize : json.length ≤ kMaximumJsonBytes) :
    ((parseJson (some json) capacity maxDepth).1.error = none ↔
        ∃ n ≤ capacity, Text EscapeLetter maxDepth n json) ↔
      ((0 : UInt8) ∈ json → ¬ ∃ n ≤ capacity, Text Accepted maxDepth n json) := by
  rw [parseJson_ok_iff hsize]
  simp only [text_escapeLetter_iff]
  constructor
  · rintro h hzero hlax
    obtain ⟨n, hn, -, hnone⟩ := h.mp hlax
    exact hnone hzero
  · intro h
    constructor
    · rintro ⟨n, hn, htext⟩
      exact ⟨n, hn, htext, fun hzero => h hzero ⟨n, hn, htext⟩⟩
    · rintro ⟨n, hn, htext, -⟩
      exact ⟨n, hn, htext⟩

/-- A record of a number and a string with an escape is JSON. -/
theorem parseJson_exact_iff_record :
    ∃ n ≤ 16, Text EscapeLetter 4 n (bytesOf "\x7b\"a\": [1, \"x\\n\"]\x7d") :=
  ((parseJson_exact_iff _ 16 4 (by decide +kernel)).mpr fun hzero =>
    absurd hzero (by decide +kernel)).mp (by decide +kernel)

/-- The string of one escaped NUL is accepted, and no JSON text. -/
theorem parseJson_accepts_escaped_nul :
    (parseJson (some [0x22, 0x5c, 0x00, 0x22]) 1 1).1.error = none ∧
      ¬ ∃ n, Text EscapeLetter 1 n [0x22, 0x5c, 0x00, 0x22] := by
  refine ⟨by decide, ?_⟩
  rintro ⟨n, h⟩
  exact (text_escapeLetter_iff.mp h).2 (by decide)

end Json

end BmxUpdate
