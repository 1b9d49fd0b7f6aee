import BmxUpdate.Config.FatFsSnapshot
import BmxUpdate.Config.Rearranged

/-!
# What a loaded snapshot holds

`load` looks at the card and changes nothing on it.  The loops are followed by one
invariant: the views of every area are the files that exist at the paths loaded so far,
in that order and within the limits.  So a load that returns yields one snapshot,
`snapshotOf card`, whatever the object held and however the root is ordered.

Where the root has a settings file that `IsSettingsName` does not take, that snapshot
lacks it.
-/

namespace BmxUpdate

namespace Config

open Wire Http Crash

/-! ## The files of a card -/

/-- The view of the file at a path. -/
def viewAt (card : Card) (path : Bytes) : Option ConfigFileView :=
  (card.contentAt path).map (ConfigFileView.mk path)

/-- The names that the loop of `f_readdir` collects. -/
def settingsNames (root : List (Bytes × CardNode)) : List Bytes :=
  (root.filter fun entry => !entry.2.isDirectory && isSettingsName entry.1).map (·.1)

/-- The paths that `Load` reads for an area, in order. -/
def loadedPaths (settings : List Bytes) : ConfigArea → List Bytes
  | .unknown => []
  | .machines =>
      [bytesOf "machines.ini", bytesOf "machines.defaults.ini", bytesOf "machines.local.ini"]
  | .configManagedBlock => [bytesOf "config.txt"]
  | .cmdlineManagedKeys | .network => [bytesOf "cmdline.txt"]
  | .settings => sortedNames settings
  | .updateState =>
      [bytesOf "BMX-BUILD.json", bytesOf ".bmx-update/transaction/journal.a",
       bytesOf ".bmx-update/transaction/journal.b"]

/-- The snapshot of a card. -/
def snapshotOf (card : Card) : ConfigSnapshot :=
  knownAreas.map fun area =>
    ⟨area, (loadedPaths (settingsNames card.root) area).filterMap (viewAt card)⟩

/-- The limits on the views of an area. -/
structure WithinLimits (files : List ConfigFileView) : Prop where
  count : files.length ≤ kMaximumConfigFilesPerArea
  size : contentBytes files ≤ kMaximumConfigAreaBytes
  file : ∀ file ∈ files, file.content.length ≤ kMaximumConfigFileBytes
  path : ∀ file ∈ files, file.path.length ≤ kMaximumConfigPathBytes

/-- The views are the files at the paths loaded so far. -/
structure Holds (card : Card) (paths : ConfigArea → List Bytes)
    (object : FatFsConfigSnapshot) : Prop where
  views : ∀ area, object.views area = (paths area).filterMap (viewAt card)
  limits : ∀ area, WithinLimits (object.views area)

/-- The paths with one more for an area. -/
def addPath (paths : ConfigArea → List Bytes) (area : ConfigArea) (path : Bytes) :
    ConfigArea → List Bytes :=
  fun other => if other = area then paths area ++ [path] else paths other

theorem withinLimits_nil : WithinLimits [] :=
  ⟨by decide, by decide, nofun, nofun⟩

theorem holds_empty (card : Card) : Holds card (fun _ => []) FatFsConfigSnapshot.empty :=
  ⟨fun _ => rfl, fun _ => withinLimits_nil⟩

/-! ## Reading a file -/

/-- A program that looks at the card: what it returns, and in which state. -/
abbrev Looks {α : Type} (card : Card) (m : SnapshotProc α)
    (Q : α → FatFsConfigSnapshot → Prop) (object : FatFsConfigSnapshot) : Prop :=
  keeps anyFault (· = card) anyError m (fun a after d => d = card ∧ Q a after) object card

variable {card : Card} {object : FatFsConfigSnapshot} {volume path : Bytes}

/-- A call whose failure is looked at. -/
theorem looks_attempt {α β : Type} {f : Card → Option α} {a : α}
    {k : Except Unit α → SnapshotProc β} {Q : β → FatFsConfigSnapshot → Prop}
    (hf : f card = some a) (hok : Looks card (k (.ok a)) Q object)
    (herror : ∀ after, Looks card (k (.error ())) Q after) :
    Looks card (Proc.attempt (Proc.observe f) >>= k) Q object :=
  keeps_bind (wp_attempt (wp_observe hf hok
    ⟨fun hcut => ⟨rfl, hcut⟩, fun _ _ after => herror after⟩))

/-- A call whose failure stops the program. -/
theorem looks_observe {α β : Type} {f : Card → Option α} {a : α}
    {status : FatFsConfigSnapshotStatus} {k : α → SnapshotProc β}
    {Q : β → FatFsConfigSnapshot → Prop} (hf : f card = some a)
    (hk : Looks card (k a) Q object) :
    Looks card (Proc.orElse status (Proc.observe f) >>= k) Q object :=
  keeps_bind (keeps_orElse (E := anyError) (wp_observe hf hk (safe_keeping rfl))
    fun _ _ => trivial)

theorem looks_closeAndStop {α : Type} {status : FatFsConfigSnapshotStatus}
    {Q : α → FatFsConfigSnapshot → Prop} : Looks card (closeAndStop status) Q object :=
  looks_attempt rfl (keeps_throw rfl trivial) fun _ => keeps_throw rfl trivial

theorem looks_bind {α β : Type} {m : SnapshotProc α} {k : α → SnapshotProc β}
    {P : α → FatFsConfigSnapshot → Prop} {Q : β → FatFsConfigSnapshot → Prop}
    (hm : Looks card m P object) (hk : ∀ a after, P a after → Looks card (k a) Q after) :
    Looks card (m >>= k) Q object := by
  refine keeps_bind (keeps_done hm ?_)
  rintro a after d ⟨rfl, hP⟩
  exact hk a after hP

theorem looks_check {β : Type} {p : Prop} [Decidable p] {status : FatFsConfigSnapshotStatus}
    {k : Unit → SnapshotProc β} {Q : β → FatFsConfigSnapshot → Prop}
    (hk : p → Looks card (k ()) Q object) :
    Looks card (Proc.check p status >>= k) Q object :=
  keeps_bind (keeps_check (fun _ => ⟨rfl, trivial⟩) hk)

/-- The loop of `f_read` reads the file to its end. -/
theorem looks_readRest {content : Bytes} (hcontent : card.contentAt path = some content) :
    ∀ (turns : Nat) (bytes : Bytes), bytes <+: content →
      content.length ≤ bytes.length + turns →
      Looks card (readRest path content.length turns bytes)
        (fun read after => read = content ∧ after = object) object := by
  intro turns
  induction turns with
  | zero =>
      intro bytes hprefix hlength
      have hfull : bytes = content := hprefix.eq_of_length_le (by simpa using hlength)
      exact keeps_pure ⟨rfl, hfull, rfl⟩
  | succ turns ih =>
      intro bytes hprefix hlength
      unfold readRest
      split
      · rename_i hless
        obtain ⟨rest, rfl⟩ := hprefix
        rw [List.length_append] at hless hlength ⊢
        have hamount : ((rest.take (min (bytes.length + rest.length - bytes.length) 16384))).length
            = min (bytes.length + rest.length - bytes.length) 16384 := by
          rw [List.length_take]
          omega
        refine looks_attempt (a := rest.take (min (bytes.length + rest.length - bytes.length)
          16384)) ?_ ?_ fun _ => looks_closeAndStop
        · rw [hcontent, Option.map_some, List.drop_left]
        · dsimp only
          rw [if_neg (fun h => h hamount), ← List.length_append]
          refine ih _ ((List.prefix_append_right_inj bytes).mpr (List.take_prefix _ _)) ?_
          rw [List.length_append, List.length_append, hamount]
          omega
      · rename_i hmore
        have hfull : bytes = content := hprefix.eq_of_length_le (by omega)
        exact keeps_pure ⟨rfl, hfull, rfl⟩

theorem looks_readFile {content : Bytes} (hcontent : card.contentAt path = some content) :
    Looks card (readFile path content.length)
      (fun read after => read = content ∧ after = object) object := by
  refine looks_observe (a := content.length) (by rw [hcontent]; rfl) ?_
  refine looks_bind (looks_readRest hcontent content.length [] List.nil_prefix (by simp)) ?_
  rintro read after ⟨rfl, rfl⟩
  rw [if_neg (fun h => h rfl)]
  exact looks_observe rfl (keeps_pure ⟨rfl, rfl, rfl⟩)

/-- What `ReadOptional` yields. -/
def ReadAt (card : Card) (path : Bytes) (object : FatFsConfigSnapshot) (index : Option Nat)
    (after : FatFsConfigSnapshot) : Prop :=
  match index with
  | none => viewAt card path = none ∧ after = object
  | some index => ∃ content, viewAt card path = some ⟨path, content⟩ ∧
      content.length ≤ kMaximumConfigFileBytes ∧ path.length ≤ kMaximumConfigPathBytes ∧
      index = object.owned.length ∧
      after = { object with owned := object.owned ++ [⟨path, content⟩] }

theorem looks_readOptional :
    Looks card (readOptional volume path) (ReadAt card path object) object := by
  refine looks_check fun hpath => looks_check fun _ => looks_observe rfl ?_
  have hlength : path.length ≤ kMaximumConfigPathBytes := by
    have hvalid := hpath.2
    simp only [validRelativePath, Bool.and_eq_true, decide_eq_true_eq] at hvalid
    exact hvalid.1.1.1.1.2
  cases hnode : card.nodeAt path with
  | none =>
      refine keeps_pure ⟨rfl, ?_, rfl⟩
      unfold viewAt Card.contentAt
      rw [hnode]
      rfl
  | some node =>
      cases node with
      | directory entries => exact keeps_throw rfl trivial
      | file content =>
          have hcontent : card.contentAt path = some content := by
            unfold Card.contentAt
            rw [hnode]
          refine looks_check fun hsize => keeps_bind (keeps_get (looks_check fun _ => ?_))
          refine looks_observe rfl (looks_bind (looks_readFile hcontent) ?_)
          rintro read after ⟨rfl, rfl⟩
          refine looks_observe rfl ?_
          rw [hnode]
          refine looks_check fun _ => keeps_bind (keeps_modify (keeps_pure ⟨rfl, ?_⟩))
          refine ⟨read, ?_, hsize, hlength, rfl, rfl⟩
          unfold viewAt
          rw [hcontent]
          rfl

/-! ## Adding a view -/

theorem aggregateFits_iff (files : List ConfigFileView) :
    ∀ aggregate, aggregateFits aggregate files = true →
      aggregate ≤ kMaximumConfigAreaBytes →
      (∀ file ∈ files, file.content.length ≤ kMaximumConfigAreaBytes) →
      aggregate + contentBytes files ≤ kMaximumConfigAreaBytes := by
  induction files with
  | nil =>
      intro aggregate _ hbound _
      simpa [contentBytes] using hbound
  | cons file rest ih =>
      intro aggregate hfits _ hfiles
      simp only [aggregateFits, Bool.and_eq_true, decide_eq_true_eq] at hfits
      have hfile := hfiles file List.mem_cons_self
      have hrest := ih _ hfits.2 (by omega) fun other hother =>
        hfiles other (List.mem_cons_of_mem _ hother)
      simp only [contentBytes, List.map_cons, List.sum_cons] at hrest ⊢
      omega

variable {paths : ConfigArea → List Bytes} {area : ConfigArea}

theorem Holds.absent (h : Holds card paths object) (hnone : viewAt card path = none) :
    Holds card (addPath paths area path) object := by
  refine ⟨fun other => ?_, h.limits⟩
  unfold addPath
  split
  · rename_i hother
    rw [hother, h.views, List.filterMap_append, List.filterMap_cons_none hnone,
      List.filterMap_nil, List.append_nil]
  · exact h.views other

theorem Holds.owned (h : Holds card paths object) (owned : List OwnedFile) :
    Holds card paths { object with owned := owned } :=
  ⟨h.views, h.limits⟩

theorem WithinLimits.append {files : List ConfigFileView} {file : ConfigFileView}
    (h : WithinLimits files) (hcount : files.length < kMaximumConfigFilesPerArea)
    (hsize : file.content.length + contentBytes files ≤ kMaximumConfigAreaBytes)
    (hfile : file.content.length ≤ kMaximumConfigFileBytes)
    (hpath : file.path.length ≤ kMaximumConfigPathBytes) : WithinLimits (files ++ [file]) where
  count := by
    rw [List.length_append, List.length_singleton]
    omega
  size := by
    simp only [contentBytes, List.map_append, List.sum_append, List.map_cons, List.map_nil,
      List.sum_cons, List.sum_nil] at hsize ⊢
    omega
  file := by
    intro other hother
    rcases List.mem_append.mp hother with hold | hnew
    · exact h.file other hold
    · rw [List.mem_singleton.mp hnew]
      exact hfile
  path := by
    intro other hother
    rcases List.mem_append.mp hother with hold | hnew
    · exact h.path other hold
    · rw [List.mem_singleton.mp hnew]
      exact hpath

/-- `AddView` of a file the object owns. -/
theorem looks_addView {content : Bytes} {index : Nat} (h : Holds card paths object)
    (howned : object.owned[index]? = some ⟨path, content⟩)
    (hview : viewAt card path = some ⟨path, content⟩)
    (hsize : content.length ≤ kMaximumConfigFileBytes)
    (hpath : path.length ≤ kMaximumConfigPathBytes) :
    Looks card (addView area index)
      (fun _ after => Holds card (addPath paths area path) after ∧ after.owned = object.owned)
      object := by
  refine keeps_bind (keeps_get ?_)
  rw [howned]
  refine looks_check fun _ => looks_check fun hcount => looks_check fun hfits => ?_
  have hbounds : kMaximumConfigFileBytes ≤ kMaximumConfigAreaBytes := by decide
  have htotal : content.length + contentBytes (object.views area) ≤ kMaximumConfigAreaBytes :=
    aggregateFits_iff _ _ hfits (hsize.trans hbounds) fun file hfile =>
      ((h.limits area).file file hfile).trans hbounds
  refine keeps_modify ⟨rfl, ⟨fun other => ?_, fun other => ?_⟩, rfl⟩
  · unfold addPath
    dsimp only
    split
    · rw [List.filterMap_append, List.filterMap_cons_some hview, List.filterMap_nil, h.views area]
    · exact h.views other
  · dsimp only
    split
    · exact (h.limits area).append hcount htotal hsize hpath
    · exact h.limits other

/-! ## The loops -/

theorem looks_loadFixed {file : ConfigArea × Bytes} (h : Holds card paths object) :
    Looks card (loadFixed volume file)
      (fun _ after => Holds card (addPath paths file.1 file.2) after) object := by
  refine looks_bind looks_readOptional fun index after hread => ?_
  cases index with
  | none =>
      obtain ⟨hnone, rfl⟩ := hread
      exact keeps_pure ⟨rfl, h.absent hnone⟩
  | some index =>
      obtain ⟨content, hview, hsize, hpath, rfl, rfl⟩ := hread
      exact keeps_done (looks_addView (h.owned _) List.getElem?_concat_length hview hsize hpath)
        fun _ _ _ hadded => ⟨hadded.1, hadded.2.1⟩

theorem looks_loadCmdline (h : Holds card paths object) :
    Looks card (loadCmdline volume)
      (fun _ after => Holds card (addPath (addPath paths .cmdlineManagedKeys
        (bytesOf "cmdline.txt")) .network (bytesOf "cmdline.txt")) after) object := by
  refine looks_bind looks_readOptional fun index after hread => ?_
  cases index with
  | none =>
      obtain ⟨hnone, rfl⟩ := hread
      exact keeps_pure ⟨rfl, (h.absent hnone).absent hnone⟩
  | some index =>
      obtain ⟨content, hview, hsize, hpath, rfl, rfl⟩ := hread
      refine looks_bind (looks_addView (h.owned _) List.getElem?_concat_length hview hsize hpath)
        fun _ after hadded => ?_
      exact keeps_done (looks_addView hadded.1
        (by rw [hadded.2]; exact List.getElem?_concat_length) hview hsize hpath)
        fun _ _ _ hboth => ⟨hboth.1, hboth.2.1⟩

theorem looks_loadSettings {name : Bytes} (h : Holds card paths object) :
    Looks card (loadSettings volume name)
      (fun _ after => Holds card (addPath paths .settings name) after) object := by
  refine looks_bind looks_readOptional fun index after hread => ?_
  cases index with
  | none => exact keeps_throw rfl trivial
  | some index =>
      obtain ⟨content, hview, hsize, hpath, rfl, rfl⟩ := hread
      exact keeps_done (looks_addView (h.owned _) List.getElem?_concat_length hview hsize hpath)
        fun _ _ _ hadded => ⟨hadded.1, hadded.2.1⟩

/-- A loop of loads adds its paths in order. -/
theorem looks_forIndexed {α : Type} {f : α → SnapshotProc Unit}
    (add : (ConfigArea → List Bytes) → α → ConfigArea → List Bytes)
    (hstep : ∀ a paths object, Holds card paths object →
      Looks card (f a) (fun _ after => Holds card (add paths a) after) object)
    (items : List α) : ∀ (i : Nat) (paths : ConfigArea → List Bytes)
      (object : FatFsConfigSnapshot), Holds card paths object →
      Looks card (Proc.forIndexed (fun _ => f) i items)
        (fun _ after => Holds card (items.foldl add paths) after) object := by
  induction items with
  | nil => exact fun _ _ _ h => keeps_pure ⟨rfl, h⟩
  | cons a rest ih =>
      exact fun i paths object h => looks_bind (hstep a paths object h) fun _ after hnext =>
        ih (i + 1) (add paths a) after hnext

/-- The loop of `f_readdir` collects the settings of the listing. -/
theorem looks_collectSettings (entries : List (Bytes × CardNode)) : ∀ settings,
    Looks card (collectSettings entries settings)
      (fun names after => names = settings ++ settingsNames entries ∧ after = object)
      object := by
  induction entries with
  | nil =>
      intro settings
      refine looks_attempt rfl ?_ fun _ => looks_closeAndStop
      exact keeps_pure ⟨rfl, (List.append_nil settings).symm, rfl⟩
  | cons entry rest ih =>
      intro settings
      refine looks_attempt rfl ?_ fun _ => looks_closeAndStop
      dsimp only
      split
      · rename_i hskip
        have hnames : settingsNames (entry :: rest) = settingsNames rest := by
          unfold settingsNames
          rw [List.filter_cons_of_neg]
          simp only [Bool.or_eq_true, Bool.not_eq_true'] at hskip
          rcases hskip with hdirectory | hother
          · simp [hdirectory]
          · simp [hother]
        rw [hnames]
        exact ih settings
      · rename_i htake
        split
        · exact looks_closeAndStop
        · have hnames : settings ++ settingsNames (entry :: rest) =
              settings ++ [entry.1] ++ settingsNames rest := by
            unfold settingsNames
            rw [List.filter_cons_of_pos (by simpa using htake), List.map_cons,
              List.append_assoc]
            rfl
          rw [hnames]
          exact ih (settings ++ [entry.1])

/-! ## A whole load -/

theorem foldl_addPath (names : List Bytes) : ∀ paths : ConfigArea → List Bytes,
    names.foldl (fun paths name => addPath paths .settings name) paths =
      fun area => if area = .settings then paths .settings ++ names else paths area := by
  induction names with
  | nil =>
      intro paths
      funext area
      rw [List.append_nil]
      split
      · rename_i harea
        rw [harea]
        rfl
      · rfl
  | cons name rest ih =>
      intro paths
      rw [List.foldl_cons, ih]
      funext area
      unfold addPath
      rw [if_pos rfl, List.append_assoc]
      by_cases harea : area = .settings
      · rw [if_pos harea, if_pos harea]
        rfl
      · rw [if_neg harea, if_neg harea, if_neg harea]

/-- What a load that returns has established. -/
structure Loaded (card : Card) (snapshot : ConfigSnapshot) : Prop where
  eq : snapshot = snapshotOf card
  limits : ∀ area ∈ snapshot, WithinLimits area.files

theorem looks_loadAreas :
    Looks card (loadAreas volume) (fun _ after => Loaded card after.snapshot)
      FatFsConfigSnapshot.empty := by
  have hfixed := looks_forIndexed (f := loadFixed volume)
    (fun paths file => addPath paths file.1 file.2)
    (fun _ _ _ h => looks_loadFixed h) fixedFiles 0 (fun _ => []) _ (holds_empty card)
  refine looks_bind hfixed fun _ first hfirst => ?_
  refine looks_bind (looks_loadCmdline hfirst) fun _ second hsecond => ?_
  refine looks_check fun _ => looks_observe rfl ?_
  refine looks_bind (looks_collectSettings card.root []) ?_
  rintro names third ⟨rfl, rfl⟩
  refine looks_observe rfl (looks_bind (looks_forIndexed (f := loadSettings volume)
    (fun paths name => addPath paths .settings name)
    (fun _ _ _ h => looks_loadSettings h) _ 0 _ _ hsecond) fun _ last hlast => ?_)
  rw [foldl_addPath] at hlast
  have hpaths : ∀ area ∈ knownAreas, last.views area =
      (loadedPaths (settingsNames card.root) area).filterMap (viewAt card) := by
    intro area harea
    rw [hlast.views area]
    cases area with
    | unknown => exact absurd harea (by decide)
    | _ => rfl
  refine keeps_modify ⟨rfl, ?_, fun area harea => ?_⟩
  · exact List.map_congr_left fun area harea => by rw [hpaths area harea]
  · obtain ⟨known, _, rfl⟩ := List.mem_map.mp harea
    exact hlast.limits known

/-- A load yields the snapshot of the card, or leaves the empty object. -/
theorem wp_load (object : FatFsConfigSnapshot) :
    wp anyFault (load volume) ⟨fun _ after _ => Loaded card after.snapshot,
      fun _ after _ => after = FatFsConfigSnapshot.empty, fun _ => True⟩ object card := by
  refine wp_bind (wp_modify (wp_bind (wp_check (fun _ => ?_) fun _ => rfl)))
  refine wp_bind (wp_attempt (wp_mono looks_loadAreas ?_ ?_ fun _ _ => trivial))
  · exact fun _ _ _ hloaded => wp_pure hloaded.2
  · exact fun _ _ _ _ => wp_bind (wp_modify (wp_throw rfl))

/-! ## The settings of a card -/

/-- `settings[A-Za-z0-9_-]*.txt`, ignoring ASCII case. -/
def NamesSettings (name : Bytes) : Prop :=
  ∃ middle : Bytes, (∀ value ∈ middle, settingsCharacter value = true) ∧
    FatPath.equalsAsciiIgnoreCase name (bytesOf "settings" ++ middle ++ bytesOf ".txt") = true

/-- The fixed files of an area. -/
def fixedPaths (area : ConfigArea) : List Bytes := loadedPaths [] area

/-- A snapshot that has everything the card has for it: the six areas, each fixed file
that exists, `cmdline.txt` in its two areas, and every settings file of the root, in
strict order and within the limits. -/
structure Complete (card : Card) (snapshot : ConfigSnapshot) : Prop where
  areas : snapshot.map (·.area) = knownAreas
  fixed : ∀ area ≠ .settings,
    areaFiles snapshot area = (fixedPaths area).filterMap (viewAt card)
  settings : ∀ name content, ⟨name, content⟩ ∈ areaFiles snapshot .settings ↔
    (name, CardNode.file content) ∈ card.root ∧ NamesSettings name
  ordered : ((areaFiles snapshot .settings).map fun file => file.path.map UInt8.toNat).SortedLT
  limits : ∀ area ∈ snapshot, WithinLimits area.files

/-- Every settings file of the root has a name that `IsSettingsName` takes. -/
def SettingsSpelled (card : Card) : Prop :=
  ∀ name content, (name, CardNode.file content) ∈ card.root → NamesSettings name →
    isSettingsName name = true

theorem namesSettings_of_isSettingsName {name : Bytes} (h : isSettingsName name = true) :
    NamesSettings name := by
  simp only [isSettingsName, Bool.and_eq_true, decide_eq_true_eq, List.all_eq_true,
    List.isPrefixOf_iff_prefix, List.isSuffixOf_iff_suffix] at h
  obtain ⟨⟨⟨⟨_, hlength⟩, hfirst⟩, hlast⟩, hmiddle⟩ := h
  refine ⟨_, hmiddle, ?_⟩
  obtain ⟨rest, rfl⟩ := hfirst
  rw [List.length_append] at hlength hmiddle ⊢
  have hsuffix : bytesOf ".txt" <:+ rest := by
    refine List.suffix_of_suffix_length_le hlast (List.suffix_append _ _) (by omega)
  obtain ⟨middle, rfl⟩ := hsuffix
  rw [List.length_append, List.drop_left]
  rw [show (bytesOf "settings").length + (middle.length + (bytesOf ".txt").length) -
    (bytesOf "settings").length - (bytesOf ".txt").length = middle.length by omega]
  rw [List.take_left, List.append_assoc]
  simp [FatPath.equalsAsciiIgnoreCase]

theorem isSettingsName_noSlash {name : Bytes} (h : isSettingsName name = true) :
    (0x2f : UInt8) ∉ name := by
  simp only [isSettingsName, validSimpleName, Bool.and_eq_true, decide_eq_true_eq,
    List.all_eq_true] at h
  exact fun hslash => absurd rfl (h.1.1.1.1.1.1.2 _ hslash).1.1.2

/-- The names of a root are found under their own spelling. -/
theorem nodeAt_of_mem {name : Bytes} {node : CardNode} (h : (name, node) ∈ card.root)
    (hslash : (0x2f : UInt8) ∉ name) : card.nodeAt name = some node := by
  have hsplit : name.splitOn 0x2f = [name] := by
    unfold List.splitOn
    apply List.splitOnP_eq_singleton
    intro value hvalue
    simpa using fun heq : value = 0x2f => hslash (heq ▸ hvalue)
  unfold Card.nodeAt
  rw [hsplit]
  unfold descend lookUp
  have hdistinct := card.distinct
  generalize card.root = entries at h hdistinct
  induction entries with
  | nil => cases h
  | cons entry rest ih =>
      rw [List.pairwise_cons] at hdistinct
      rcases List.mem_cons.mp h with rfl | hrest
      · rw [List.find?_cons_of_pos (by simp [FatPath.equalsAsciiIgnoreCase])]
        rfl
      · rw [List.find?_cons, eq_false_of_ne_true (hdistinct.1 _ hrest)]
        exact ih hrest hdistinct.2

theorem mem_settingsNames {name : Bytes} :
    name ∈ settingsNames card.root ↔
      isSettingsName name = true ∧ ∃ content, (name, CardNode.file content) ∈ card.root := by
  unfold settingsNames
  rw [List.mem_map]
  constructor
  · rintro ⟨⟨name, node⟩, hentry, rfl⟩
    obtain ⟨hmem, htaken⟩ := List.mem_filter.mp hentry
    rw [Bool.and_eq_true] at htaken
    cases node with
    | file content => exact ⟨htaken.2, content, hmem⟩
    | directory entries => exact absurd htaken.1 (by simp [CardNode.isDirectory])
  · rintro ⟨hname, content, hmem⟩
    refine ⟨_, List.mem_filter.mpr ⟨hmem, ?_⟩, rfl⟩
    rw [hname]
    rfl

theorem mem_sortedNames {name : Bytes} {names : List Bytes} :
    name ∈ sortedNames names ↔ name ∈ names :=
  List.mem_insertionSort _

/-- The settings of the snapshot: the files whose names `IsSettingsName` takes. -/
theorem mem_loadedSettings {name content : Bytes} :
    ⟨name, content⟩ ∈ (sortedNames (settingsNames card.root)).filterMap (viewAt card) ↔
      (name, CardNode.file content) ∈ card.root ∧ isSettingsName name = true := by
  rw [List.mem_filterMap]
  constructor
  · rintro ⟨path, hpath, hview⟩
    obtain ⟨hname, other, hmem⟩ := mem_settingsNames.mp (mem_sortedNames.mp hpath)
    unfold viewAt Card.contentAt at hview
    rw [nodeAt_of_mem hmem (isSettingsName_noSlash hname)] at hview
    cases hview
    exact ⟨hmem, hname⟩
  · rintro ⟨hmem, hname⟩
    refine ⟨name, mem_sortedNames.mpr (mem_settingsNames.mpr ⟨hname, content, hmem⟩), ?_⟩
    unfold viewAt Card.contentAt
    rw [nodeAt_of_mem hmem (isSettingsName_noSlash hname)]
    rfl

theorem pathsOf_filterMap (names : List Bytes) :
    ((names.filterMap (viewAt card)).map (·.path)).Sublist names := by
  induction names with
  | nil => exact List.Sublist.refl []
  | cons name rest ih =>
      rw [List.filterMap_cons]
      cases hview : viewAt card name with
      | none => exact ih.cons name
      | some view =>
          have hpath : view.path = name := by
            unfold viewAt at hview
            obtain ⟨content, _, rfl⟩ := Option.map_eq_some_iff.mp hview
            rfl
          dsimp only
          rw [List.map_cons, hpath]
          exact ih.cons_cons name

theorem map_toNat_injective : Function.Injective (List.map UInt8.toNat) :=
  List.map_injective_iff.mpr fun _ _ => UInt8.toNat_inj.mp

theorem nodup_settingsNames (card : Card) : (settingsNames card.root).Nodup := by
  have hnames : (card.root.map (·.1)).Nodup := by
    rw [List.Nodup, List.pairwise_map]
    refine card.distinct.imp fun hdistinct heq => hdistinct ?_
    simp [FatPath.equalsAsciiIgnoreCase, heq]
  exact hnames.sublist (List.filter_sublist.map _)

theorem sortedNames_sorted (names : List Bytes) :
    (sortedNames names).Pairwise fun left right =>
      left.map UInt8.toNat ≤ right.map UInt8.toNat := by
  have htotal : Std.Total fun left right : Bytes =>
      left.map UInt8.toNat ≤ right.map UInt8.toNat := ⟨fun _ _ => le_total _ _⟩
  have htrans : IsTrans Bytes fun left right =>
      left.map UInt8.toNat ≤ right.map UInt8.toNat := ⟨fun _ _ _ => le_trans⟩
  exact List.pairwise_insertionSort _ names

/-- The loaded settings are in strict order. -/
theorem sorted_loadedSettings (card : Card) :
    (((sortedNames (settingsNames card.root)).filterMap (viewAt card)).map
      fun file => file.path.map UInt8.toNat).SortedLT := by
  have hnodup : (sortedNames (settingsNames card.root)).Nodup :=
    (List.perm_insertionSort _ _).nodup_iff.mpr (nodup_settingsNames card)
  have hstrict : (sortedNames (settingsNames card.root)).Pairwise fun left right =>
      left.map UInt8.toNat < right.map UInt8.toNat := by
    refine (sortedNames_sorted _).imp₂ ?_ hnodup
    exact fun left right hle hne => lt_of_le_of_ne hle fun heq => hne (map_toNat_injective heq)
  have hpaths := hstrict.sublist (@pathsOf_filterMap card _)
  rw [List.pairwise_map] at hpaths
  rw [List.sortedLT_iff_pairwise, List.pairwise_map]
  exact hpaths

theorem areaFiles_snapshotOf (card : Card) (area : ConfigArea) :
    areaFiles (snapshotOf card) area =
      (loadedPaths (settingsNames card.root) area).filterMap (viewAt card) := by
  cases area <;> rfl

/-- A loaded snapshot is complete exactly where the settings are spelled as the code
asks. -/
theorem Loaded.complete_iff {snapshot : ConfigSnapshot} (h : Loaded card snapshot) :
    Complete card snapshot ↔ SettingsSpelled card := by
  obtain ⟨rfl, hlimits⟩ := h
  constructor
  · intro hcomplete name content hmem hname
    have hloaded := (hcomplete.settings name content).mpr ⟨hmem, hname⟩
    rw [areaFiles_snapshotOf] at hloaded
    exact (mem_loadedSettings.mp hloaded).2
  · intro hspelled
    refine ⟨rfl, fun area harea => ?_, fun name content => ?_, ?_, hlimits⟩
    · rw [areaFiles_snapshotOf]
      cases area with
      | settings => exact absurd rfl harea
      | _ => rfl
    · rw [areaFiles_snapshotOf]
      refine mem_loadedSettings.trans ⟨fun h => ?_, fun h => ?_⟩
      · exact ⟨h.1, namesSettings_of_isSettingsName h.2⟩
      · exact ⟨h.1, hspelled name content h.1 h.2⟩
    · rw [areaFiles_snapshotOf]
      exact sorted_loadedSettings card

/-! ## The order of the root -/

/-- Two cards with the same files, whose directories list them in any order. -/
structure SameContent (left right : Card) : Prop where
  root : (left.root.map fun entry => (entry.1, entry.2.isDirectory)).Perm
    (right.root.map fun entry => (entry.1, entry.2.isDirectory))
  files : ∀ path, left.contentAt path = right.contentAt path

/-- The root of a card in another order has the same content. -/
theorem SameContent.of_perm {left right : Card} (h : left.root.Perm right.root) :
    SameContent left right := by
  refine ⟨h.map _, fun path => ?_⟩
  have hlook : ∀ name, lookUp left.root name = lookUp right.root name := by
    intro name
    unfold lookUp
    congr 1
    refine find?_eq_of_perm ?_ h
    intro a ha b hb hpa hpb
    simp only [FatPath.equalsAsciiIgnoreCase, decide_eq_true_eq] at hpa hpb
    refine List.inj_on_of_nodup_map (f := fun entry => entry.1.map FatPath.asciiLower) ?_ ha hb
      (hpa.trans hpb.symm)
    rw [List.Nodup, List.pairwise_map]
    exact left.distinct.imp fun hdistinct heq => hdistinct (decide_eq_true heq)
  have hdescend : ∀ names, descend left.root names = descend right.root names := by
    intro names
    match names with
    | [] => rfl
    | [name] => exact hlook name
    | name :: next :: rest =>
        unfold descend
        rw [hlook name]
  unfold Card.contentAt Card.nodeAt
  rw [hdescend]

theorem settingsNames_perm {left right : Card} (h : SameContent left right) :
    (settingsNames left.root).Perm (settingsNames right.root) := by
  have hnames : ∀ root : List (Bytes × CardNode), settingsNames root =
      ((root.map fun entry => (entry.1, entry.2.isDirectory)).filter fun entry =>
        !entry.2 && isSettingsName entry.1).map (·.1) := by
    intro root
    rw [List.filter_map, List.map_map]
    rfl
  rw [hnames, hnames]
  exact (h.root.filter _).map _

theorem sortedNames_eq_of_perm {left right : List Bytes} (h : left.Perm right) :
    sortedNames left = sortedNames right := by
  have hperm : (sortedNames left).Perm (sortedNames right) :=
    ((List.perm_insertionSort _ left).trans h).trans (List.perm_insertionSort _ right).symm
  refine hperm.eq_of_pairwise ?_ (sortedNames_sorted left) (sortedNames_sorted right)
  exact fun a b _ _ hab hba => map_toNat_injective (le_antisymm hab hba)

/-- The snapshot of a card does not depend on the order of its directories. -/
theorem snapshotOf_eq {left right : Card} (h : SameContent left right) :
    snapshotOf left = snapshotOf right := by
  have hview : viewAt left = viewAt right := by
    funext path
    unfold viewAt
    rw [h.files path]
  have hpaths : ∀ area, loadedPaths (settingsNames left.root) area =
      loadedPaths (settingsNames right.root) area := by
    intro area
    cases area with
    | settings => exact sortedNames_eq_of_perm (settingsNames_perm h)
    | _ => rfl
  unfold snapshotOf
  rw [hview]
  exact List.map_congr_left fun area _ => by rw [hpaths area]

/-- A load that returns gives the same snapshot for every order of the directories,
complete exactly where every settings file has a name the code takes; a load that fails
leaves the object empty. -/
theorem load_complete (card : Card) (volume : Bytes) (object : FatFsConfigSnapshot)
    (faults : List Fault) :
    match load volume object ⟨card, faults⟩ with
    | .done _ after _ => (Complete card after.snapshot ↔ SettingsSpelled card) ∧
        ∀ (other : Card) (volume' : Bytes) (object' : FatFsConfigSnapshot)
          (faults' : List Fault), SameContent card other →
          match load volume' object' ⟨other, faults'⟩ with
          | .done _ after' _ => after'.snapshot = after.snapshot
          | _ => True
    | .error _ after _ => after = FatFsConfigSnapshot.empty
    | .cut _ => True := by
  have hload := @wp_load card volume object faults fun _ _ => trivial
  cases hrun : load volume object ⟨card, faults⟩ with
  | done _ after world =>
      rw [hrun] at hload
      refine ⟨hload.1.complete_iff, fun other volume' object' faults' hsame => ?_⟩
      have hother := @wp_load other volume' object' faults'
        fun _ _ => trivial
      cases hrun' : load volume' object' ⟨other, faults'⟩ with
      | done _ after' world' =>
          rw [hrun'] at hother
          exact hother.1.eq.trans ((snapshotOf_eq hsame).symm.trans hload.1.eq.symm)
      | error _ _ _ => trivial
      | cut _ => trivial
  | error _ after world =>
      rw [hrun] at hload
      exact hload.1
  | cut d => trivial

/-- A card whose settings have the spelling of a short name. -/
def shoutedCard : Card where
  root := [(bytesOf "SETTINGS.TXT", .file (bytesOf "volume=3"))]
  named := by decide
  distinct := List.pairwise_singleton _ _

/-- The snapshot of an object after a run that returned. -/
def snapshotAfter (outcome : Outcome FatFsConfigSnapshotStatus FatFsConfigSnapshot Card Unit) :
    Option ConfigSnapshot :=
  match outcome with
  | .done _ after _ => some after.snapshot
  | _ => none

/-- The settings that the program opens are not in the snapshot. -/
theorem load_complete_fails :
    ¬∀ (card : Card) (volume : Bytes) (object : FatFsConfigSnapshot) (faults : List Fault),
      match load volume object ⟨card, faults⟩ with
      | .done _ after _ => Complete card after.snapshot
      | .error _ after _ => after = FatFsConfigSnapshot.empty
      | .cut _ => True := by
  intro hcomplete
  have hsnapshot : snapshotAfter (load (bytesOf "SD:") FatFsConfigSnapshot.empty
      ⟨shoutedCard, []⟩) = some (knownAreas.map fun area => ⟨area, []⟩) := by
    decide
  have hload := hcomplete shoutedCard (bytesOf "SD:") FatFsConfigSnapshot.empty []
  cases hrun : load (bytesOf "SD:") FatFsConfigSnapshot.empty ⟨shoutedCard, []⟩ with
  | done a after world =>
      rw [hrun] at hload hsnapshot
      have hfiles := (hload.settings (bytesOf "SETTINGS.TXT") (bytesOf "volume=3")).mpr
        ⟨List.mem_singleton.mpr rfl, [], nofun, by decide⟩
      rw [Option.some.inj hsnapshot] at hfiles
      cases hfiles
  | error status after world =>
      rw [hrun] at hsnapshot
      cases hsnapshot
  | cut d =>
      rw [hrun] at hsnapshot
      cases hsnapshot

end Config

end BmxUpdate
