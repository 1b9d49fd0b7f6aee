import BmxUpdate.Library.Lines
import BmxUpdate.Release.PathPolicy
import BmxUpdate.UpdateTypes

/-!
# The boot configuration

`ValidateSelectorConfigProfile` and `BuildTrybootConfig`
(`fatfs_prepared_config.cpp`): the managed block of `config.txt`, which names the
fallback kernel and includes the selector of the active kernel, and the candidate
`tryboot.txt` made from it.

The profile looks at whole lines, the builder at substrings of the file.
-/

namespace BmxUpdate

namespace PreparedConfig

open Wire Lines FatPath Release

/-- A line feed. -/
abbrev nl : UInt8 := 0x0a

/-- `OwnedBuffer`: `Allocate` refuses a capacity above the limit. -/
structure OwnedBuffer where
  capacity : Nat
  bounded : capacity ≤ kMaximumConfigFileBytes

/-- `BoardKernel` -/
def boardKernel : BoardFamily → Option String
  | .pi4Pi400 => kMachineKernelBases[0]?
  | .pi5Pi500 => kMachineKernelBases[1]?
  | .unknown => none

/-- `TrimmedStartsWith` -/
def trimmedStartsWith (line : Bytes) (start : String) : Bool :=
  (bytesOf start).isPrefixOf (line.dropWhile fun value => value = 0x20 ∨ value = 0x09)

def includeActive : Bytes := bytesOf "include bmx-active-kernel.txt"

def includeTryboot : Bytes := bytesOf "include bmx-tryboot-kernel.txt"

/-- The directive that the profile asks for. -/
def includeOf (candidate : Bool) : Bytes := if candidate then includeTryboot else includeActive

/-- What the pass over the lines counts, and where it saw each line last. -/
structure ProfileScan where
  lineNumber : Nat
  beginLine : Option Nat
  endLine : Option Nat
  kernelLine : Option Nat
  includeLine : Option Nat
  beginCount : Nat
  endCount : Nat
  kernelCount : Nat
  includeCount : Nat
deriving DecidableEq, Repr

def ProfileScan.initial : ProfileScan := ⟨0, none, none, none, none, 0, 0, 0, 0⟩

/-- The checks of a line that has ended. -/
def scanLine (fallback directive : Bytes) (scan : ProfileScan) (line : Bytes) :
    Option ProfileScan :=
  let number := scan.lineNumber
  let scan := { scan with lineNumber := number + 1 }
  let scan :=
    if line = bytesOf "# BEGIN BMX MANAGED" then
      { scan with beginCount := scan.beginCount + 1, beginLine := some number }
    else scan
  let scan :=
    if line = bytesOf "# END BMX MANAGED" then
      { scan with endCount := scan.endCount + 1, endLine := some number }
    else scan
  if trimmedStartsWith line "kernel=" = true ∧ line ≠ fallback then none
  else
    let scan :=
      if trimmedStartsWith line "kernel=" then
        { scan with kernelCount := scan.kernelCount + 1, kernelLine := some number }
      else scan
    if trimmedStartsWith line "include " = true ∧ line ≠ directive then none
    else
      some
        (if trimmedStartsWith line "include " then
          { scan with includeCount := scan.includeCount + 1, includeLine := some number }
        else scan)

/-- A byte that a configuration may hold besides the line feed. -/
def textByte (value : UInt8) : Bool :=
  !(value == 0x0d || value == 0 ||
    (value != nl && value != 0x09 && (decide (value < 0x20) || decide (0x7e < value))))

/-- The loop over the bytes, with the line that has begun; at the end no line is open. -/
def scanProfile (fallback directive : Bytes) : ProfileScan → Bytes → Bytes → Option ProfileScan
  | scan, line, [] => if line = [] then some scan else none
  | scan, line, value :: rest =>
      if textByte value = false then none
      else if value ≠ nl then scanProfile fallback directive scan (line ++ [value]) rest
      else
        match scanLine fallback directive scan line with
        | none => none
        | some scan => scanProfile fallback directive scan [] rest

/-- `begin_line < kernel_line` and so on; a line not seen is at `SIZE_MAX`. -/
def before : Option Nat → Option Nat → Bool
  | some i, some j => decide (i < j)
  | some _, none => true
  | none, _ => false

/-- The condition that is returned at the end. -/
def ProfileScan.accepted (scan : ProfileScan) : Bool :=
  scan.beginCount == 1 && scan.endCount == 1 && scan.kernelCount == 1 && scan.includeCount == 1 &&
    before scan.beginLine scan.kernelLine && before scan.kernelLine scan.includeLine &&
    before scan.includeLine scan.endLine

/-- `ValidateSelectorConfigProfile` -/
def validateSelectorConfigProfile (content : Bytes) (board : BoardFamily) (candidate : Bool) :
    Bool :=
  match boardKernel board with
  | none => false
  | some kernel =>
      if content = [] ∨ kMaximumConfigFileBytes < content.length ∨ content.getLast? ≠ some nl then
        false
      else
        match scanProfile (bytesOf "kernel=" ++ bytesOf kernel ++ bytesOf ".c64") (includeOf candidate)
            .initial [] content with
        | none => false
        | some scan => scan.accepted

/-- `BuildTrybootConfig`: the bytes put into the buffer. -/
def buildTrybootConfig (active : Bytes) (tryboot : OwnedBuffer) : Option Bytes :=
  let activeInclude := includeActive ++ [nl]
  let trybootInclude := includeTryboot ++ [nl]
  if active = [] then none
  else
    match occurrences activeInclude active with
    | [found] =>
        if trybootInclude.length < activeInclude.length ∨
            2 ^ 64 - 1 - (trybootInclude.length - activeInclude.length) < active.length then
          none
        else if tryboot.capacity <
            active.length + (trybootInclude.length - activeInclude.length) then
          none
        else
          some (active.take found ++ trybootInclude ++ active.drop (found + activeInclude.length))
    | _ => none

/-! ## The profile as a fold over the lines -/

section Fold

variable {fallback directive : Bytes} {scan final : ProfileScan}

theorem scanProfile_eq_some {text line : Bytes} (hline : text = [] → line = [])
    (hlast : ∀ value, text.getLast? = some value → value = nl) :
    scanProfile fallback directive scan line text = some final ↔
      (∀ value ∈ text, textByte value = true) ∧
        (linesFrom nl line text).foldlM (scanLine fallback directive) scan = some final := by
  induction text generalizing scan line with
  | nil => simp [scanProfile, linesFrom, hline rfl]
  | cons value rest ih =>
    have hrest : ∀ v, rest.getLast? = some v → v = nl := by
      intro v hv
      apply hlast v
      rw [List.getLast?_cons, hv]
      rfl
    rw [scanProfile, linesFrom, List.forall_mem_cons]
    split
    · rename_i hforbidden
      simp [hforbidden]
    rename_i hallowed
    rw [Bool.not_eq_false] at hallowed
    split
    · rename_i hne
      rw [ih (fun hnil => absurd (hlast value (by simp [hnil])) hne) hrest]
      simp [hallowed]
    · rename_i heq
      rw [if_pos (not_not.mp heq), List.foldlM_cons]
      cases hscan : scanLine fallback directive scan line with
      | none => simp
      | some next => simp [ih (fun _ => rfl) hrest, hallowed]

/-- What the profile says of a text: of its bytes, and of its lines one by one. -/
theorem validateSelectorConfigProfile_iff {content : Bytes} {board : BoardFamily}
    {candidate : Bool} :
    validateSelectorConfigProfile content board candidate = true ↔
      ∃ kernel, boardKernel board = some kernel ∧ content.length ≤ kMaximumConfigFileBytes ∧
        content.getLast? = some nl ∧ (∀ value ∈ content, textByte value = true) ∧
        ∃ scan, (lines nl content).foldlM
          (scanLine (bytesOf "kernel=" ++ bytesOf kernel ++ bytesOf ".c64") (includeOf candidate))
          .initial = some scan ∧ scan.accepted = true := by
  unfold validateSelectorConfigProfile
  cases boardKernel board with
  | none => simp
  | some kernel =>
    by_cases hlast : content.getLast? = some nl
    · have hne : content ≠ [] := by
        rintro rfl
        cases hlast
      have hend : ∀ value, content.getLast? = some value → value = nl := by
        intro value hvalue
        rw [hlast] at hvalue
        exact (Option.some.inj hvalue).symm
      by_cases hsize : kMaximumConfigFileBytes < content.length
      · simp [hsize, Nat.not_le.mpr hsize]
      · simp only [hne, hsize, hlast, ne_eq, not_true_eq_false, or_self, if_false,
          Option.some.injEq, exists_eq_left', Nat.not_lt.mp hsize, true_and]
        cases hscan : scanProfile (bytesOf "kernel=" ++ bytesOf kernel ++ bytesOf ".c64")
            (includeOf candidate) .initial [] content with
        | none =>
          simp only [Bool.false_eq_true, false_iff]
          rintro ⟨hbytes, scan, hfold, -⟩
          rw [(scanProfile_eq_some (fun h => absurd h hne) hend).mpr ⟨hbytes, hfold⟩] at hscan
          cases hscan
        | some scan =>
          obtain ⟨hbytes, hfold⟩ := (scanProfile_eq_some (fun h => absurd h hne) hend).mp hscan
          constructor
          · exact fun haccepted => ⟨hbytes, scan, hfold, haccepted⟩
          · rintro ⟨-, other, hother, haccepted⟩
            obtain rfl := Option.some.inj (hfold.symm.trans hother)
            exact haccepted
    · simp [hlast]

/-- A line that passes is the directive, if it is an include at all; and includes are counted. -/
theorem scanLine_include {line : Bytes} {next : ProfileScan}
    (h : scanLine fallback directive scan line = some next) :
    (trimmedStartsWith line "include " = true → line = directive) ∧
      next.includeCount =
        scan.includeCount + if trimmedStartsWith line "include " = true then 1 else 0 := by
  unfold scanLine at h
  dsimp only at h
  split at h
  · cases h
  split at h
  · cases h
  rename_i hinclude
  rw [not_and, not_not] at hinclude
  refine ⟨hinclude, ?_⟩
  cases h
  repeat' split
  all_goals rfl

theorem foldlM_scanLine {ls : List Bytes}
    (h : ls.foldlM (scanLine fallback directive) scan = some final) :
    (∀ line ∈ ls, trimmedStartsWith line "include " = true → line = directive) ∧
      final.includeCount =
        scan.includeCount + ls.countP fun line => trimmedStartsWith line "include " := by
  induction ls generalizing scan with
  | nil =>
    obtain rfl := Option.some.inj h
    exact ⟨nofun, rfl⟩
  | cons line rest ih =>
    rw [List.foldlM_cons] at h
    obtain ⟨next, hline, hrest⟩ := Option.bind_eq_some_iff.mp h
    obtain ⟨hdirective, hcount⟩ := scanLine_include hline
    obtain ⟨hall, hrestCount⟩ := ih hrest
    refine ⟨List.forall_mem_cons.mpr ⟨hdirective, hall⟩, ?_⟩
    rw [hrestCount, hcount, List.countP_cons]
    omega

/-- The marked lines are where the pass says it saw them. -/
structure Placed (directive : Bytes) (seen : List Bytes) (scan : ProfileScan) : Prop where
  lineNumber : scan.lineNumber = seen.length
  beginLine : ∀ i, scan.beginLine = some i → seen[i]? = some (bytesOf "# BEGIN BMX MANAGED")
  endLine : ∀ i, scan.endLine = some i → seen[i]? = some (bytesOf "# END BMX MANAGED")
  includeLine : ∀ i, scan.includeLine = some i → seen[i]? = some directive
  endSeen : scan.endCount = 0 ∨ ∃ i, scan.endLine = some i

theorem Placed.initial : Placed directive [] .initial := ⟨rfl, nofun, nofun, nofun, .inl rfl⟩

/-- What was seen at a place is still there after one more line. -/
theorem getElem?_snoc {seen : List Bytes} {line value : Bytes} {i : Nat}
    (h : seen[i]? = some value) : (seen ++ [line])[i]? = some value := by
  rw [List.getElem?_append_left (List.getElem?_eq_some_iff.mp h).1, h]

theorem Placed.scanLine {seen : List Bytes} {line : Bytes} {next : ProfileScan}
    (h : Placed directive seen scan)
    (hline : PreparedConfig.scanLine fallback directive scan line = some next) :
    Placed directive (seen ++ [line]) next := by
  have hlast : (seen ++ [line])[scan.lineNumber]? = some line := by
    rw [h.lineNumber, List.getElem?_concat_length]
  have hinclude := (scanLine_include hline).1
  unfold PreparedConfig.scanLine at hline
  dsimp only at hline
  split at hline
  · cases hline
  split at hline
  · cases hline
  cases hline
  constructor
  · have := h.lineNumber
    rw [List.length_append, List.length_singleton]
    repeat' split
    all_goals exact congrArg (· + 1) this
  · intro i hi
    repeat' split at hi
    all_goals first
      | exact getElem?_snoc (h.beginLine i hi)
      | (cases hi; rw [hlast]; congr)
  · intro i hi
    repeat' split at hi
    all_goals first
      | exact getElem?_snoc (h.endLine i hi)
      | (cases hi; rw [hlast]; congr)
  · intro i hi
    split at hi
    · rename_i hstart
      cases hi
      rw [hlast, hinclude hstart]
    · repeat' split at hi
      all_goals exact getElem?_snoc (h.includeLine i hi)
  · have := h.endSeen
    repeat' split
    all_goals first
      | exact this
      | exact .inr ⟨_, rfl⟩

theorem Placed.foldlM {seen ls : List Bytes} (h : Placed directive seen scan)
    (hfold : ls.foldlM (PreparedConfig.scanLine fallback directive) scan = some final) :
    Placed directive (seen ++ ls) final := by
  induction ls generalizing seen scan with
  | nil =>
    obtain rfl := Option.some.inj hfold
    rwa [List.append_nil]
  | cons line rest ih =>
    rw [List.foldlM_cons] at hfold
    obtain ⟨next, hline, hrest⟩ := Option.bind_eq_some_iff.mp hfold
    rw [List.append_cons]
    exact ih (h.scanLine hline) hrest

/-! ## The candidate -/

/-- The line that the candidate has in place of a line of the active configuration. -/
def candidateLine (line : Bytes) : Bytes := if line = includeActive then includeTryboot else line

theorem scanLine_candidateLine {line : Bytes} {next : ProfileScan}
    (h : scanLine fallback includeActive scan line = some next) :
    scanLine fallback includeTryboot scan (candidateLine line) = some next := by
  unfold candidateLine
  split
  · rename_i hactive
    -- Neither directive is a marker or names a kernel, and both are counted.
    rw [hactive] at h
    rw [← h]
    have hmarks : ∀ directive ∈ [includeActive, includeTryboot],
        directive ≠ bytesOf "# BEGIN BMX MANAGED" ∧ directive ≠ bytesOf "# END BMX MANAGED" ∧
          trimmedStartsWith directive "kernel=" = false ∧
          trimmedStartsWith directive "include " = true := by
      simp [includeActive, includeTryboot, trimmedStartsWith, bytesOf, List.isPrefixOf]
    obtain ⟨hbegin, hend, hkernel, hinclude⟩ := hmarks includeActive (by simp)
    obtain ⟨hbegin', hend', hkernel', hinclude'⟩ := hmarks includeTryboot (by simp)
    simp only [scanLine, hbegin, hend, hkernel, hinclude, hbegin', hend', hkernel', hinclude',
      if_false, if_true, Bool.false_eq_true, false_and, ne_eq, not_true_eq_false, and_false]
  · rename_i hother
    have hno : trimmedStartsWith line "include " = false := by
      rw [← Bool.not_eq_true]
      exact fun hinclude => hother ((scanLine_include h).1 hinclude)
    rw [← h]
    simp only [scanLine, hno, Bool.false_eq_true, false_and, if_false]

theorem foldlM_candidateLine {ls : List Bytes}
    (h : ls.foldlM (scanLine fallback includeActive) scan = some final) :
    (ls.map candidateLine).foldlM (scanLine fallback includeTryboot) scan = some final := by
  induction ls generalizing scan with
  | nil =>
    rw [List.foldlM_nil] at h
    rw [List.map_nil, List.foldlM_nil, h]
  | cons line rest ih =>
    rw [List.foldlM_cons] at h
    obtain ⟨next, hline, hrest⟩ := Option.bind_eq_some_iff.mp h
    rw [List.map_cons, List.foldlM_cons, scanLine_candidateLine hline]
    exact ih hrest

theorem map_candidateLine {ls : List Bytes} (h : includeActive ∉ ls) :
    ls.map candidateLine = ls := by
  calc ls.map candidateLine = ls.map id :=
        List.map_congr_left fun line hline =>
          if_neg fun heq : line = includeActive => h (heq ▸ hline)
    _ = ls := List.map_id ls

/-- The directive that includes the active kernel is one line of the text, in the
managed block. -/
structure ManagedInclude (content : Bytes) (earlier later : List Bytes) : Prop where
  split : lines nl content = earlier ++ includeActive :: later
  notEarlier : includeActive ∉ earlier
  notLater : includeActive ∉ later
  begins : bytesOf "# BEGIN BMX MANAGED" ∈ earlier
  ends : bytesOf "# END BMX MANAGED" ∈ later

/-- Accepted lines stand in the order begin, kernel, include, end. -/
theorem ProfileScan.accepted_order {seen : List Bytes} (h : scan.accepted = true)
    (hplaced : Placed directive seen scan) :
    ∃ i j k, scan.beginLine = some i ∧ scan.includeLine = some j ∧ scan.endLine = some k ∧
      i < j ∧ j < k := by
  simp only [ProfileScan.accepted, Bool.and_eq_true, beq_iff_eq] at h
  obtain ⟨⟨⟨⟨⟨⟨-, hendCount⟩, -⟩, -⟩, hkernel⟩, hinclude⟩, hend⟩ := h
  obtain ⟨k, hk⟩ := hplaced.endSeen.resolve_left (by omega)
  rw [hk] at hend
  cases hj : scan.includeLine with
  | none => simp [hj, before] at hend
  | some j =>
    cases hm : scan.kernelLine with
    | none => simp [hm, before] at hinclude
    | some m =>
      cases hi : scan.beginLine with
      | none => simp [hi, before] at hkernel
      | some i =>
        rw [hj] at hend hinclude
        rw [hm] at hinclude hkernel
        rw [hi] at hkernel
        simp only [before, decide_eq_true_eq] at hend hinclude hkernel
        exact ⟨i, j, k, rfl, rfl, hk, Nat.lt_trans hkernel hinclude, hend⟩

theorem exists_managedInclude {content : Bytes} {board : BoardFamily}
    (h : validateSelectorConfigProfile content board false = true) :
    ∃ earlier later, ManagedInclude content earlier later := by
  obtain ⟨kernel, -, -, -, -, scan, hfold, haccepted⟩ :=
    validateSelectorConfigProfile_iff.mp h
  obtain ⟨hdirective, hcount⟩ := foldlM_scanLine hfold
  have hone : (lines nl content).countP (fun line => trimmedStartsWith line "include ") = 1 := by
    have : scan.includeCount = 1 := by
      simp only [ProfileScan.accepted, Bool.and_eq_true, beq_iff_eq] at haccepted
      exact haccepted.1.1.1.2
    rw [this] at hcount
    simpa [ProfileScan.initial] using hcount.symm
  have hactive : trimmedStartsWith includeActive "include " = true := rfl
  -- The one line that is counted is the directive.
  obtain ⟨line, hline, hstart⟩ := List.countP_pos_iff.mp (by rw [hone]; exact Nat.one_pos)
  obtain rfl : line = includeActive := hdirective line hline hstart
  obtain ⟨earlier, later, hsplit⟩ := List.append_of_mem hline
  rw [hsplit, List.countP_append, List.countP_cons, hstart, if_pos rfl] at hone
  have hpos : ∀ ls : List Bytes, includeActive ∈ ls →
      0 < ls.countP fun line => trimmedStartsWith line "include " :=
    fun ls hmem => List.countP_pos_iff.mpr ⟨includeActive, hmem, hactive⟩
  have hearlier : includeActive ∉ earlier := by
    intro hmem
    have := hpos earlier hmem
    omega
  have hlater : includeActive ∉ later := by
    intro hmem
    have := hpos later hmem
    omega
  have hplaced : Placed includeActive (lines nl content) scan := Placed.initial.foldlM hfold
  obtain ⟨i, j, k, hi, hj, hk, hij, hjk⟩ := scan.accepted_order haccepted hplaced
  have hat := hplaced.includeLine j hj
  have hbegin := hplaced.beginLine i hi
  have hend := hplaced.endLine k hk
  rw [hsplit] at hat hbegin hend
  -- The directive is at the one place of its line, the markers on either side.
  have hplace : j = earlier.length := by
    rcases Nat.lt_trichotomy j earlier.length with hlt | heq | hgt
    · rw [List.getElem?_append_left hlt] at hat
      exact absurd (List.mem_of_getElem? hat) hearlier
    · exact heq
    · obtain ⟨n, rfl⟩ := Nat.exists_eq_add_of_lt hgt
      rw [List.getElem?_append_right (by omega),
        show earlier.length + n + 1 - earlier.length = n + 1 by omega,
        List.getElem?_cons_succ] at hat
      exact absurd (List.mem_of_getElem? hat) hlater
  rw [List.getElem?_append_left (by omega)] at hbegin
  obtain ⟨n, rfl⟩ := Nat.exists_eq_add_of_lt (hplace ▸ hjk)
  rw [List.getElem?_append_right (by omega),
    show earlier.length + n + 1 - earlier.length = n + 1 by omega,
    List.getElem?_cons_succ] at hend
  exact ⟨earlier, later, hsplit, hearlier, hlater, List.mem_of_getElem? hbegin,
    List.mem_of_getElem? hend⟩

end Fold

variable {content : Bytes} {board : BoardFamily} {earlier later : List Bytes}

theorem nl_notMem_includeActive : nl ∉ includeActive := by
  simp [includeActive, nl, bytesOf]

theorem nl_notMem_includeTryboot : nl ∉ includeTryboot := by
  simp [includeTryboot, nl, bytesOf]

theorem lines_unlines_of_profile (h : content.getLast? = some nl) :
    unlines nl (lines nl content) = content := by
  apply unlines_lines
  intro a ha
  rw [h] at ha
  exact (Option.some.inj ha).symm

/-- The builder finds the directive once if no other line ends in its text. -/
theorem occurrences_includeActive (h : content.getLast? = some nl)
    (hmanaged : ManagedInclude content earlier later) :
    (∃ found, occurrences (includeActive ++ [nl]) content = [found]) ↔
      ∀ line ∈ lines nl content, includeActive <:+ line → line = includeActive := by
  have hcontent := lines_unlines_of_profile h
  have hnl : ∀ line ∈ lines nl content, nl ∉ line := not_mem_of_mem_lines
  -- Each line that ends in the directive is an occurrence, at a place of its own.
  have hoccurs : ∀ {b : List Bytes} {rest : Bytes} {a : List Bytes},
      lines nl content = b ++ (rest ++ includeActive) :: a →
      (unlines nl b ++ rest).length ∈ occurrences (includeActive ++ [nl]) content := by
    intro b rest a hsplit
    rw [mem_occurrences]
    refine ⟨unlines nl b ++ rest, unlines nl a, ?_, rfl⟩
    rw [← hcontent, hsplit, unlines_append, unlines_cons]
    simp
  have hdirective := @hoccurs earlier [] later hmanaged.split
  constructor
  · rintro ⟨found, hfound⟩ line hline ⟨rest, rfl⟩
    obtain ⟨b, a, hsplit⟩ := List.append_of_mem hline
    have hother := hoccurs hsplit
    rw [hfound, List.mem_singleton] at hdirective hother
    rw [← hdirective, List.append_nil] at hother
    -- A line before or after the directive would lie at another place.
    rw [hmanaged.split] at hsplit
    rcases List.append_eq_append_iff.mp hsplit with ⟨middle, rfl, hrest⟩ | ⟨middle, rfl, hrest⟩
    · cases middle with
      | nil => exact (List.cons.inj hrest).1.symm
      | cons head middle =>
        rw [unlines_append, unlines_cons] at hother
        simp only [List.length_append, List.length_cons] at hother
        omega
    · cases middle with
      | nil => exact (List.cons.inj hrest).1
      | cons head middle =>
        obtain ⟨rfl, -⟩ := List.cons.inj hrest
        rw [unlines_append, unlines_cons] at hother
        simp only [List.length_append, List.length_cons] at hother
        omega
  · intro hall
    refine ⟨_, occurrences_eq_singleton.mpr ⟨hdirective, ?_⟩⟩
    intro other hother
    obtain ⟨before, after, hsplit, rfl⟩ := mem_occurrences.mp hother
    rw [← hcontent, List.append_assoc, List.singleton_append] at hsplit
    obtain ⟨b, line, a, rest, hlines, rfl, rfl, -⟩ :=
      unlines_eq_append nl_notMem_includeActive hnl hsplit
    have hrest : rest ++ includeActive = includeActive :=
      hall _ (by rw [hlines]; simp) ⟨rest, rfl⟩
    rw [hrest, hmanaged.split] at hlines
    obtain ⟨rfl, -⟩ :=
      (List.append_cons_inj_of_notMem hmanaged.notEarlier hmanaged.notLater).mp hlines
    rw [List.append_left_eq_self.mp hrest]

/-- What the builder writes when it finds the directive once. -/
theorem buildTrybootConfig_eq_some (h : content.getLast? = some nl)
    (hmanaged : ManagedInclude content earlier later) {tryboot : OwnedBuffer}
    (hroom : content.length + (includeTryboot.length - includeActive.length) ≤ tryboot.capacity)
    {found : Nat} (hfound : occurrences (includeActive ++ [nl]) content = [found]) :
    buildTrybootConfig content tryboot =
      some (unlines nl (earlier ++ includeTryboot :: later)) := by
  have hcontent := lines_unlines_of_profile h
  have hne : content ≠ [] := by
    rintro rfl
    cases h
  have hsplit : content = unlines nl earlier ++ (includeActive ++ [nl] ++ unlines nl later) := by
    rw [← hcontent, hmanaged.split, unlines_append, unlines_cons]
    simp
  have hplace : (unlines nl earlier).length = found := by
    have := mem_occurrences.mpr ⟨unlines nl earlier, unlines nl later, hsplit, rfl⟩
    rwa [hfound, List.mem_singleton] at this
  have hlengths : includeActive.length = 29 ∧ includeTryboot.length = 30 := ⟨rfl, rfl⟩
  have hcapacity := tryboot.bounded
  have hmaximum : kMaximumConfigFileBytes = 524288 := rfl
  unfold buildTrybootConfig
  dsimp only
  rw [if_neg hne, hfound]
  dsimp only
  simp only [List.length_append, List.length_singleton]
  rw [if_neg (by omega), if_neg (by omega), ← hplace, unlines_append, unlines_cons]
  congr 1
  have htake : content.take (unlines nl earlier).length = unlines nl earlier := by
    rw [hsplit, List.take_left]
  have hdrop : content.drop ((unlines nl earlier).length + (includeActive.length + 1)) =
      unlines nl later := by
    rw [hsplit, ← List.append_assoc]
    exact List.drop_left' (by simp)
  rw [htake, hdrop]
  simp

theorem buildTrybootConfig_eq_none {tryboot : OwnedBuffer}
    (h : ¬∃ found, occurrences (includeActive ++ [nl]) content = [found]) :
    buildTrybootConfig content tryboot = none := by
  unfold buildTrybootConfig
  dsimp only
  split
  · rfl
  split
  · rename_i found hfound
    exact absurd ⟨found, hfound⟩ h
  · rfl

/-- The candidate of an accepted configuration is accepted as one. -/
theorem validate_candidate (hprofile : validateSelectorConfigProfile content board false = true)
    (hmanaged : ManagedInclude content earlier later)
    (hsize : content.length + (includeTryboot.length - includeActive.length) ≤
      kMaximumConfigFileBytes) :
    validateSelectorConfigProfile (unlines nl (earlier ++ includeTryboot :: later)) board true =
      true := by
  obtain ⟨kernel, hkernel, -, hlast, hbytes, scan, hfold, haccepted⟩ :=
    validateSelectorConfigProfile_iff.mp hprofile
  have hcontent := lines_unlines_of_profile hlast
  have hnl : ∀ line ∈ lines nl content, nl ∉ line := not_mem_of_mem_lines
  have hlines : lines nl (unlines nl (earlier ++ includeTryboot :: later)) =
      (lines nl content).map candidateLine := by
    rw [hmanaged.split] at hnl ⊢
    rw [lines_unlines]
    · rw [List.map_append, List.map_cons, candidateLine, if_pos rfl,
        map_candidateLine hmanaged.notEarlier, map_candidateLine hmanaged.notLater]
    · intro line hline
      rw [List.mem_append, List.mem_cons] at hline
      rcases hline with hline | rfl | hline
      · exact hnl line (by simp [hline])
      · exact nl_notMem_includeTryboot
      · exact hnl line (by simp [hline])
  have hsplit : content = unlines nl earlier ++ (includeActive ++ nl :: unlines nl later) := by
    rw [← hcontent, hmanaged.split, unlines_append, unlines_cons]
  rw [hsplit] at hlast hbytes hsize
  refine validateSelectorConfigProfile_iff.mpr ⟨kernel, hkernel, ?_, ?_, ?_, scan, ?_, haccepted⟩
  · have hlengths : includeActive.length = 29 ∧ includeTryboot.length = 30 := ⟨rfl, rfl⟩
    rw [unlines_append, unlines_cons]
    simp only [List.length_append, List.length_cons] at hsize ⊢
    omega
  · rw [unlines_append, unlines_cons]
    simpa [List.getLast?_append] using hlast
  · have htryboot : ∀ value ∈ includeTryboot, textByte value = true := by
      simp [includeTryboot, bytesOf, textByte]
    intro value hvalue
    rw [unlines_append, unlines_cons, List.mem_append, List.mem_append] at hvalue
    rcases hvalue with hvalue | hvalue | hvalue
    · exact hbytes value (by simp [hvalue])
    · exact htryboot value hvalue
    · exact hbytes value (by simp [List.mem_cons.mp hvalue])
  · rw [hlines]
    exact foldlM_candidateLine hfold

/-- The candidate mirrors the active configuration exactly when no other line ends in
the text of the include directive. -/
theorem buildTrybootConfig_mirrors_iff (content : Bytes) (board : BoardFamily)
    (tryboot : OwnedBuffer)
    (hprofile : validateSelectorConfigProfile content board false = true)
    (hroom : content.length + (includeTryboot.length - includeActive.length) ≤
      tryboot.capacity) :
    (∃ output earlier later, buildTrybootConfig content tryboot = some output ∧
      validateSelectorConfigProfile output board true = true ∧
      ManagedInclude content earlier later ∧
      output = unlines nl (earlier ++ includeTryboot :: later)) ↔
      ∀ line ∈ lines nl content, includeActive <:+ line → line = includeActive := by
  obtain ⟨_, -, -, hlast, -⟩ := validateSelectorConfigProfile_iff.mp hprofile
  obtain ⟨earlier, later, hmanaged⟩ := exists_managedInclude hprofile
  rw [← occurrences_includeActive hlast hmanaged]
  constructor
  · rintro ⟨output, -, -, hbuilt, -⟩
    by_contra hnone
    rw [buildTrybootConfig_eq_none hnone] at hbuilt
    cases hbuilt
  · rintro ⟨found, hfound⟩
    exact ⟨_, earlier, later, buildTrybootConfig_eq_some hlast hmanaged hroom hfound,
      validate_candidate hprofile hmanaged (hroom.trans tryboot.bounded), hmanaged, rfl⟩

/-- A managed block. -/
def managedBlock : Bytes :=
  unlines nl [bytesOf "# BEGIN BMX MANAGED", bytesOf "kernel=kernel7l.img.c64", includeActive,
    bytesOf "# END BMX MANAGED"]

theorem buildTrybootConfig_mirrors_managedBlock :
    ∃ output earlier later,
      buildTrybootConfig managedBlock ⟨kMaximumConfigFileBytes, Nat.le_refl _⟩ = some output ∧
      validateSelectorConfigProfile output .pi4Pi400 true = true ∧
      ManagedInclude managedBlock earlier later ∧
      output = unlines nl (earlier ++ includeTryboot :: later) :=
  (buildTrybootConfig_mirrors_iff managedBlock .pi4Pi400 ⟨kMaximumConfigFileBytes, Nat.le_refl _⟩
    (by decide) (by decide)).mpr (by decide)

/-- A comment that ends in the text of the directive is accepted by the profile, but no
candidate is built. -/
theorem buildTrybootConfig_comment :
    let content := managedBlock ++ bytesOf "# include bmx-active-kernel.txt" ++ [nl]
    validateSelectorConfigProfile content .pi4Pi400 false = true ∧
      buildTrybootConfig content ⟨kMaximumConfigFileBytes, Nat.le_refl _⟩ = none := by
  decide +kernel

end PreparedConfig

end BmxUpdate
