import BmxUpdate.Json.Reader
import BmxUpdate.Json.Rendered
import Mathlib.Data.List.Forall2

/-!
# Reading a tree instead of its tokens

The accessors say of a rendered tree what they say of its tokens: a parser that is written
over a `Reader` can be run on the tree.

- `Part`: a run of tokens, with the trees they stand for and their text,
- `children_kids`: the direct children of a container are its values and keys, in order,
- `Complete.maps`: the accessors over a table's tokens agree with those over its trees,
- `parseJson_reads`: so they do over the tokens `ParseJson` makes of a rendered tree.
-/

namespace BmxUpdate

namespace Json

open Wire Http JsonGrammar

/-! ## The trees of a table -/

mutual

/-- The tree and all trees in it, in the order of the tokens; a key is a string. -/
def nodes : Tree → List Tree
  | .string raw => [.string raw]
  | .number raw => [.number raw]
  | .bool value => [.bool value]
  | .array elements => .array elements :: elementNodes elements
  | .object members => .object members :: memberNodes members

def elementNodes : List Tree → List Tree
  | [] => []
  | t :: ts => nodes t ++ elementNodes ts

def memberNodes : List (Bytes × Tree) → List Tree
  | [] => []
  | (k, t) :: ms => .string k :: (nodes t ++ memberNodes ms)

end

mutual

theorem length_nodes : ∀ t : Tree, (nodes t).length = t.size
  | .string _ => rfl
  | .number _ => rfl
  | .bool _ => rfl
  | .array elements => by
      simp only [nodes, List.length_cons, Tree.size, length_elementNodes elements]
  | .object members => by
      simp only [nodes, List.length_cons, Tree.size, length_memberNodes members]

theorem length_elementNodes : ∀ ts : List Tree, (elementNodes ts).length = Tree.sizeElements ts
  | [] => rfl
  | t :: ts => by
      simp only [elementNodes, List.length_append, Tree.sizeElements, length_nodes t,
        length_elementNodes ts]

theorem length_memberNodes : ∀ ms : List (Bytes × Tree),
    (memberNodes ms).length = Tree.sizeMembers ms
  | [] => rfl
  | (k, t) :: ms => by
      simp only [memberNodes, List.length_cons, List.length_append, Tree.sizeMembers,
        length_nodes t, length_memberNodes ms]
      omega

end

/-- The type of a tree's first token. -/
def kind : Tree → JsonTokenType
  | .string _ => .string
  | .number _ => .number
  | .bool value => if value then .true else .false
  | .array _ => .array
  | .object _ => .object

/-- The trees directly in a tree. -/
def kids : Tree → List Tree
  | .array elements => elements
  | .object members => members.flatMap fun (k, t) => [.string k, t]
  | _ => []

/-- The text a first token stands for. -/
def leafText : Tree → Bytes
  | .string raw => raw
  | .number raw => raw
  | .bool value => literal value
  | t => t.render

/-- Where the text of a first token starts. -/
def leafStart (start : Nat) : Tree → Nat
  | .string _ => start + 1
  | _ => start

/-- The first token of a tree. -/
def headToken (start : Nat) (parent : Int) (t : Tree) : JsonToken :=
  ⟨kind t, leafStart start t, leafStart start t + (leafText t).length, parent, (kids t).length⟩

/-- The tokens behind the first one. -/
def insideTokens (start index : Nat) : Tree → List JsonToken
  | .array elements => elementTokens start (index + 1) index elements
  | .object members => memberTokens start (index + 1) index members
  | _ => []

theorem length_flatMap_pair (ms : List (Bytes × Tree)) :
    (ms.flatMap fun (k, t) => [Tree.string k, t]).length = 2 * ms.length := by
  induction ms with
  | nil => rfl
  | cons m ms ih =>
      simp only [List.flatMap_cons, List.length_append, ih, List.length_cons]
      simp only [List.length_nil]
      omega

theorem tokensOf_eq (start index : Nat) (parent : Int) (t : Tree) :
    tokensOf start index parent t = headToken start parent t :: insideTokens start index t := by
  cases t with
  | string raw => rfl
  | number raw => rfl
  | bool value => rfl
  | array elements => rfl
  | object members =>
      simp only [tokensOf, headToken, insideTokens, kids, length_flatMap_pair]
      rfl

/-! ## Where tokens start, and what they are in -/

mutual

theorem start_tokensOf : ∀ (t : Tree) (start index : Nat) (parent : Int),
    ∀ u ∈ tokensOf start index parent t, start ≤ u.start ∧ u.start ≤ start + t.render.length
  | .string raw, start, index, parent, u, hu => by
      obtain rfl := List.mem_singleton.mp hu
      simp only [Tree.render, List.length_cons, List.length_append, List.length_nil]
      omega
  | .number raw, start, index, parent, u, hu => by
      obtain rfl := List.mem_singleton.mp hu
      simp only
      omega
  | .bool value, start, index, parent, u, hu => by
      obtain rfl := List.mem_singleton.mp hu
      simp only
      omega
  | .array elements, start, index, parent, u, hu => by
      rcases List.mem_cons.mp hu with rfl | hu
      · simp only
        omega
      · have := start_elementTokens elements start (index + 1) index u hu
        simp only [Tree.render, List.length_cons, List.length_append, List.length_tail,
          List.length_nil]
        omega
  | .object members, start, index, parent, u, hu => by
      rcases List.mem_cons.mp hu with rfl | hu
      · simp only
        omega
      · have := start_memberTokens members start (index + 1) index u hu
        simp only [Tree.render, List.length_cons, List.length_append, List.length_tail,
          List.length_nil]
        omega

theorem start_elementTokens : ∀ (ts : List Tree) (comma next container : Nat),
    ∀ u ∈ elementTokens comma next container ts,
      comma < u.start ∧ u.start ≤ comma + (Tree.renderElements ts).length
  | t :: ts, comma, next, container, u, hu => by
      simp only [Tree.renderElements, List.length_cons, List.length_append]
      rcases List.mem_append.mp hu with hu | hu
      · have := start_tokensOf t (comma + 1) next container u hu
        omega
      · have := start_elementTokens ts _ _ container u hu
        omega

theorem start_memberTokens : ∀ (ms : List (Bytes × Tree)) (comma next container : Nat),
    ∀ u ∈ memberTokens comma next container ms,
      comma < u.start ∧ u.start ≤ comma + (Tree.renderMembers ms).length
  | (k, t) :: ms, comma, next, container, u, hu => by
      simp only [Tree.renderMembers, List.length_cons, List.length_append]
      rcases List.mem_cons.mp hu with rfl | hu
      · simp only
        omega
      · rcases List.mem_append.mp hu with hu | hu
        · have := start_tokensOf t (comma + k.length + 4) (next + 1) container u hu
          omega
        · have := start_memberTokens ms _ _ container u hu
          omega

end

mutual

theorem parent_insideTokens : ∀ (t : Tree) (start index : Nat),
    ∀ u ∈ insideTokens start index t, (index : Int) ≤ u.parent
  | .array elements, start, index, u, hu =>
      parent_elementTokens elements start (index + 1) index (by omega) u hu
  | .object members, start, index, u, hu =>
      parent_memberTokens members start (index + 1) index (by omega) u hu

theorem parent_elementTokens : ∀ (ts : List Tree) (comma next container : Nat),
    container ≤ next → ∀ u ∈ elementTokens comma next container ts, (container : Int) ≤ u.parent
  | t :: ts, comma, next, container, hnext, u, hu => by
      rcases List.mem_append.mp hu with hu | hu
      · rw [tokensOf_eq] at hu
        rcases List.mem_cons.mp hu with rfl | hu
        · exact le_refl _
        · have := parent_insideTokens t _ next u hu
          omega
      · exact parent_elementTokens ts _ _ container (by omega) u hu

theorem parent_memberTokens : ∀ (ms : List (Bytes × Tree)) (comma next container : Nat),
    container ≤ next → ∀ u ∈ memberTokens comma next container ms, (container : Int) ≤ u.parent
  | (k, t) :: ms, comma, next, container, hnext, u, hu => by
      rcases List.mem_cons.mp hu with rfl | hu
      · exact le_refl _
      · rcases List.mem_append.mp hu with hu | hu
        · rw [tokensOf_eq] at hu
          rcases List.mem_cons.mp hu with rfl | hu
          · exact le_refl _
          · have := parent_insideTokens t _ (next + 1) u hu
            omega
        · exact parent_memberTokens ms _ _ container (by omega) u hu

end

/-! ## Parts of a table -/

/-- A table: the text, its tokens, and the trees they stand for. -/
structure Table where
  json : Bytes
  tokens : List JsonToken
  trees : List Tree

/-- The tokens, trees and text of a part of a table, which starts at a place and a position;
what follows starts behind its text. -/
def Table.Part (table : Table) (tokens : List JsonToken) (trees : List Tree) (text : Bytes)
    (index start : Nat) : Prop :=
  ∃ front back nodesFront nodesBack before after,
    table.tokens = front ++ tokens ++ back ∧ front.length = index ∧
    table.trees = nodesFront ++ trees ++ nodesBack ∧ nodesFront.length = index ∧
    table.json = before ++ text ++ after ∧ before.length = start ∧
    ∀ u ∈ back.head?, start + text.length ≤ u.start

/-- A tree at a place of a table. -/
def Table.Placed (table : Table) (t : Tree) (index : Nat) : Prop :=
  ∃ (start : Nat) (parent : Int), parent < index ∧
    table.Part (tokensOf start index parent t) (nodes t) t.render index start

namespace Table.Part

variable {table : Table} {tokens tokens' : List JsonToken} {trees trees' : List Tree}
  {text text' : Bytes} {index start : Nat}

theorem left (h : table.Part (tokens ++ tokens') (trees ++ trees') (text ++ text') index start)
    (hstart : ∀ u ∈ tokens'.head?, start + text.length ≤ u.start) :
    table.Part tokens trees text index start := by
  obtain ⟨front, back, nodesFront, nodesBack, before, after, htokens, hfront, hnodes, hnodesFront,
    hjson, hbefore, hback⟩ := h
  refine ⟨front, tokens' ++ back, nodesFront, trees' ++ nodesBack, before, text' ++ after, ?_,
    hfront, ?_, hnodesFront, ?_, hbefore, ?_⟩
  · rw [htokens]
    simp
  · rw [hnodes]
    simp
  · rw [hjson]
    simp
  · cases tokens' with
    | nil =>
        intro u hu
        have := hback u (by simpa using hu)
        rw [List.length_append] at this
        omega
    | cons v tokens' => exact hstart

theorem right (h : table.Part (tokens ++ tokens') (trees ++ trees') (text ++ text') index start)
    (index' start' : Nat) (hlength : trees.length = tokens.length)
    (hindex : index' = index + tokens.length) (hstart : start' = start + text.length) :
    table.Part tokens' trees' text' index' start' := by
  obtain ⟨front, back, nodesFront, nodesBack, before, after, htokens, hfront, hnodes, hnodesFront,
    hjson, hbefore, hback⟩ := h
  refine ⟨front ++ tokens, back, nodesFront ++ trees, nodesBack, before ++ text, after, ?_, ?_, ?_,
    ?_, ?_, ?_, ?_⟩
  · rw [htokens]
    simp
  · rw [List.length_append]
    omega
  · rw [hnodes]
    simp
  · rw [List.length_append]
    omega
  · rw [hjson]
    simp
  · rw [List.length_append]
    omega
  · intro u hu
    have := hback u hu
    rw [List.length_append] at this
    omega

/-- A part with more text in front. -/
theorem behind (h : table.Part tokens trees (text ++ text') index start) {start' : Nat}
    (hstart : start' = start + text.length) : table.Part tokens trees text' index start' := by
  have hempty : table.Part ([] ++ tokens) ([] ++ trees) (text ++ text') index start := h
  exact hempty.right _ _ rfl (by simp) hstart

theorem head_token {t : JsonToken} (h : table.Part (t :: tokens) trees text index start) :
    table.tokens[index]? = some t := by
  obtain ⟨front, back, -, -, -, -, htokens, hfront, -⟩ := h
  rw [htokens, List.append_assoc, List.getElem?_append_right (by omega), hfront]
  simp

theorem head_node {t : Tree} (h : table.Part tokens (t :: trees) text index start) :
    table.trees[index]? = some t := by
  obtain ⟨-, -, nodesFront, nodesBack, -, -, -, -, hnodes, hfront, -⟩ := h
  rw [hnodes, List.append_assoc, List.getElem?_append_right (by omega), hfront]
  simp

/-- The bytes of a part of its text. -/
theorem slice_text (front text rest : Bytes)
    (h : table.Part tokens trees (front ++ (text ++ rest)) index start) :
    slice (start + front.length) text.length table.json = text := by
  obtain ⟨-, -, -, -, before, after, -, -, -, -, hjson, hbefore, -⟩ := h
  have hsplit : table.json = (before ++ front) ++ (text ++ (rest ++ after)) := by
    rw [hjson]
    simp
  have hlength : (before ++ front).length = start + front.length := by
    rw [List.length_append]
    omega
  rw [hsplit, slice_skip (by omega), hlength, Nat.sub_self]
  exact slice_head rfl

end Table.Part

theorem head_placed {table : Table} {t : Tree} {index : Nat} (h : table.Placed t index) :
    ∃ token, table.tokens[index]? = some token ∧ token.type = kind t ∧
      token.childCount = (kids t).length ∧ token.stop = token.start + (leafText t).length ∧
      token.text table.json = leafText t := by
  obtain ⟨start, parent, -, hpart⟩ := h
  rw [tokensOf_eq] at hpart
  refine ⟨_, hpart.head_token, rfl, rfl, rfl, ?_⟩
  unfold JsonToken.text headToken
  simp only [Nat.add_sub_cancel_left]
  cases t with
  | string raw => exact hpart.slice_text [0x22] raw [0x22]
  | number raw =>
      rw [← List.append_nil (Tree.render _)] at hpart
      exact hpart.slice_text [] raw []
  | bool value =>
      rw [← List.append_nil (Tree.render _)] at hpart
      exact hpart.slice_text [] (literal value) []
  | array elements =>
      rw [← List.append_nil (Tree.render _)] at hpart
      exact hpart.slice_text [] (Tree.array elements).render []
  | object members =>
      rw [← List.append_nil (Tree.render _)] at hpart
      exact hpart.slice_text [] (Tree.object members).render []

theorem node_placed {table : Table} {t : Tree} {index : Nat} (h : table.Placed t index) :
    table.trees[index]? = some t := by
  obtain ⟨start, parent, -, hpart⟩ := h
  have hnodes : ∃ rest, nodes t = t :: rest := by
    cases t <;> exact ⟨_, rfl⟩
  obtain ⟨rest, hrest⟩ := hnodes
  rw [hrest] at hpart
  exact hpart.head_node

/-! ## The children of a container -/

section Children

variable {table : Table}

/-- A token and its index, where a tree is placed. -/
def Heads (table : Table) (head : JsonToken × Nat) (t : Tree) : Prop :=
  table.tokens[head.2]? = some head.1 ∧ table.Placed t head.2

/-- A placed tree is where its first token is. -/
theorem heads_of_part {t : Tree} {index start : Nat} {parent : Int} (hparent : parent < index)
    (hpart : table.Part (tokensOf start index parent t) (nodes t) t.render index start) :
    Heads table (headToken start parent t, index) t := by
  refine ⟨?_, start, parent, hparent, hpart⟩
  rw [tokensOf_eq] at hpart
  exact hpart.head_token

theorem placed_leaf {t : Tree} {index start : Nat} {parent : Int} (hparent : parent < index)
    (hpart : table.Part (tokensOf start index parent t) (nodes t) t.render index start)
    (hleaf : nodes t = [t]) {j : Nat} {u : Tree} (hu : (nodes t)[j]? = some u) :
    table.Placed u (index + j) := by
  have hu' := hu
  rw [hleaf, List.getElem?_singleton] at hu'
  split_ifs at hu' with hj
  obtain rfl := Option.some.inj hu'
  rw [hj]
  exact ⟨start, parent, hparent, hpart⟩

/-- The elements of an array behind its bracket or a comma. -/
def ElementsAt (table : Table) (comma next container : Nat) (ts : List Tree) : Prop :=
  ∀ t us, ts = t :: us → table.Part (elementTokens comma next container ts) (elementNodes ts)
    (t.render ++ Tree.renderElements us) next (comma + 1)

/-- The members of an object behind its brace or a comma. -/
def MembersAt (table : Table) (comma next container : Nat) (ms : List (Bytes × Tree)) : Prop :=
  ∀ k t us, ms = (k, t) :: us →
    table.Part (memberTokens comma next container ms) (memberNodes ms)
      (0x22 :: (k ++ 0x22 :: 0x3a :: (t.render ++ Tree.renderMembers us))) next (comma + 1)

theorem ElementsAt.split {comma next container : Nat} {t : Tree} {ts : List Tree}
    (h : ElementsAt table comma next container (t :: ts)) (hnext : container < next) :
    Heads table (headToken (comma + 1) container t, next) t ∧
      ElementsAt table (comma + 1 + t.render.length) (next + t.size) container ts := by
  have hpart := h t ts rfl
  rw [elementTokens, elementNodes] at hpart
  refine ⟨heads_of_part (by omega) (hpart.left ?_), ?_⟩
  · intro u hu
    have := start_elementTokens ts _ _ container u (List.mem_of_mem_head? hu)
    omega
  · rintro v us rfl
    have hrest := hpart.right (next + t.size) _ (by rw [length_nodes, length_tokensOf])
      (by rw [length_tokensOf]) rfl
    have htext : Tree.renderElements (v :: us) = [0x2c] ++ (v.render ++ Tree.renderElements us) := by
      rw [Tree.renderElements]
      rfl
    rw [htext] at hrest
    exact hrest.behind rfl

theorem MembersAt.split {comma next container : Nat} {k : Bytes} {t : Tree}
    {ms : List (Bytes × Tree)} (h : MembersAt table comma next container ((k, t) :: ms))
    (hnext : container < next) :
    Heads table (headToken (comma + 1) container (.string k), next) (.string k) ∧
      Heads table (headToken (comma + k.length + 4) container t, next + 1) t ∧
      MembersAt table (comma + k.length + 4 + t.render.length) (next + 1 + t.size) container ms := by
  have hpart := h k t ms rfl
  rw [memberTokens, memberNodes, ← List.singleton_append, ← List.singleton_append (l := nodes t ++ _)]
    at hpart
  have htext : (0x22 :: (k ++ 0x22 :: 0x3a :: (t.render ++ Tree.renderMembers ms)) : Bytes) =
      (Tree.string k).render ++ ([0x3a] ++ (t.render ++ Tree.renderMembers ms)) := by
    simp [Tree.render]
  rw [htext] at hpart
  have hkey : (Tree.string k).render.length = k.length + 2 := by simp [Tree.render]
  have hvalue : table.Part (tokensOf (comma + k.length + 4) (next + 1) container t ++
      memberTokens (comma + k.length + 4 + t.render.length) (next + 1 + t.size) container ms)
      (nodes t ++ memberNodes ms) (t.render ++ Tree.renderMembers ms) (next + 1)
      (comma + k.length + 4) := by
    have hrest := hpart.right (next + 1) (comma + k.length + 3) rfl rfl
      (by omega)
    exact hrest.behind rfl
  refine ⟨heads_of_part (t := .string k) (by omega) (hpart.left ?_),
    heads_of_part (by omega) (hvalue.left ?_), ?_⟩
  · intro u hu
    rw [tokensOf_eq] at hu
    have hmem : u ∈ tokensOf (comma + k.length + 4) (next + 1) container t := by
      rw [tokensOf_eq]
      simp only [List.cons_append, List.head?_cons, Option.mem_def, Option.some.injEq] at hu
      simp [hu]
    have := start_tokensOf t _ _ _ u hmem
    omega
  · intro u hu
    have := start_memberTokens ms _ _ container u (List.mem_of_mem_head? hu)
    omega
  · rintro k' v us rfl
    have hrest := hvalue.right (next + 1 + t.size) _ (by rw [length_nodes, length_tokensOf])
      (by rw [length_tokensOf]) rfl
    have htext' : Tree.renderMembers ((k', v) :: us) =
        [0x2c] ++ (0x22 :: (k' ++ 0x22 :: 0x3a :: (v.render ++ Tree.renderMembers us))) := by
      rw [Tree.renderMembers]
      rfl
    rw [htext'] at hrest
    exact hrest.behind rfl

theorem elementsAt_of_part {elements : List Tree} {index start : Nat} {parent : Int}
    (hpart : table.Part (tokensOf start index parent (.array elements)) (nodes (.array elements))
      (Tree.render (.array elements)) index start) :
    ElementsAt table start (index + 1) index elements := by
  rintro t us rfl
  rw [tokensOf_eq, nodes, ← List.singleton_append,
    ← List.singleton_append (l := elementNodes _)] at hpart
  have htext : Tree.render (.array (t :: us)) =
      [0x5b] ++ ((t.render ++ Tree.renderElements us) ++ [0x5d]) := by
    simp [Tree.render, Tree.renderElements]
  rw [htext] at hpart
  have hinside := hpart.right (index + 1) (start + 1) rfl rfl rfl
  rw [← List.append_nil (insideTokens _ _ _), ← List.append_nil (elementNodes _)] at hinside
  exact hinside.left (by simp)

theorem membersAt_of_part {members : List (Bytes × Tree)} {index start : Nat} {parent : Int}
    (hpart : table.Part (tokensOf start index parent (.object members)) (nodes (.object members))
      (Tree.render (.object members)) index start) :
    MembersAt table start (index + 1) index members := by
  rintro k t us rfl
  rw [tokensOf_eq, nodes, ← List.singleton_append,
    ← List.singleton_append (l := memberNodes _)] at hpart
  have htext : Tree.render (.object ((k, t) :: us)) = [0x7b] ++
      ((0x22 :: (k ++ 0x22 :: 0x3a :: (t.render ++ Tree.renderMembers us))) ++ [0x7d]) := by
    simp [Tree.render, Tree.renderMembers]
  rw [htext] at hpart
  have hinside := hpart.right (index + 1) (start + 1) rfl rfl rfl
  rw [← List.append_nil (insideTokens _ _ _), ← List.append_nil (memberNodes _)] at hinside
  exact hinside.left (by simp)

/-! ### What the loops over the tokens visit -/

/-- The children of a container as the loops over the tokens visit them. -/
def elementHeads (comma next container : Nat) : List Tree → List (JsonToken × Nat)
  | [] => []
  | t :: ts =>
      (headToken (comma + 1) container t, next) ::
        elementHeads (comma + 1 + t.render.length) (next + t.size) container ts

def memberHeads (comma next container : Nat) : List (Bytes × Tree) → List (JsonToken × Nat)
  | [] => []
  | (k, t) :: ms =>
      (headToken (comma + 1) container (.string k), next) ::
        (headToken (comma + k.length + 4) container t, next + 1) ::
          memberHeads (comma + k.length + 4 + t.render.length) (next + 1 + t.size) container ms

/-- The tokens inside a tree are in the tree or deeper. -/
theorem filter_insideTokens (t : Tree) (start index : Nat) {container next : Nat}
    (h : container < index) :
    ((insideTokens start index t).zipIdx next).filter
      (fun (u, _) => decide (u.parent = (container : Int))) = [] := by
  rw [List.filter_eq_nil_iff]
  rintro ⟨u, n⟩ hu
  have hmem : u ∈ insideTokens start index t := List.fst_mem_of_mem_zipIdx hu
  have hparent := parent_insideTokens t start index u hmem
  simp only [decide_eq_true_eq]
  omega

theorem filter_elementTokens (ts : List Tree) {comma next container : Nat}
    (hnext : container < next) :
    ((elementTokens comma next container ts).zipIdx next).filter
        (fun (u, _) => decide (u.parent = (container : Int))) =
      elementHeads comma next container ts := by
  induction ts generalizing comma next with
  | nil => rfl
  | cons t ts ih =>
      rw [elementTokens, elementHeads, tokensOf_eq, List.cons_append, List.zipIdx_cons,
        List.zipIdx_append, List.filter_cons_of_pos (by simp [headToken]), List.filter_append,
        filter_insideTokens t _ _ hnext, List.nil_append]
      have hlength : (insideTokens (comma + 1) next t).length + 1 = t.size := by
        have := length_tokensOf t (comma + 1) next container
        rwa [tokensOf_eq, List.length_cons] at this
      rw [show next + 1 + (insideTokens (comma + 1) next t).length = next + t.size by omega,
        ih (by omega)]

theorem filter_memberTokens (ms : List (Bytes × Tree)) {comma next container : Nat}
    (hnext : container < next) :
    ((memberTokens comma next container ms).zipIdx next).filter
        (fun (u, _) => decide (u.parent = (container : Int))) =
      memberHeads comma next container ms := by
  induction ms generalizing comma next with
  | nil => rfl
  | cons m ms ih =>
      obtain ⟨k, t⟩ := m
      rw [memberTokens, memberHeads, tokensOf_eq, List.zipIdx_cons,
        List.filter_cons_of_pos (by simp), List.cons_append, List.zipIdx_cons,
        List.filter_cons_of_pos (by simp [headToken]), List.zipIdx_append, List.filter_append,
        filter_insideTokens t _ _ (by omega), List.nil_append]
      have hlength : (insideTokens (comma + k.length + 4) (next + 1) t).length + 1 = t.size := by
        have := length_tokensOf t (comma + k.length + 4) (next + 1) container
        rwa [tokensOf_eq, List.length_cons] at this
      rw [show next + 1 + 1 + (insideTokens (comma + k.length + 4) (next + 1) t).length =
        next + 1 + t.size by omega, ih (by omega)]
      rfl

/-- Inside a tree, tokens start before its text ends. -/
theorem insideTokens_before (t : Tree) (start index : Nat) :
    ∀ u ∈ insideTokens start index t, u.start < start + t.render.length := by
  intro u hu
  cases t with
  | string raw => cases hu
  | number raw => cases hu
  | bool value => cases hu
  | array elements =>
      have hstart := start_elementTokens elements start (index + 1) index u hu
      simp only [Tree.render, List.length_cons, List.length_append, List.length_tail,
        List.length_nil]
      omega
  | object members =>
      have hstart := start_memberTokens members start (index + 1) index u hu
      simp only [Tree.render, List.length_cons, List.length_append, List.length_tail,
        List.length_nil]
      omega

/-- A container's token stops where its text does. -/
theorem headToken_stop {t : Tree} (h : kids t ≠ []) (start : Nat) (parent : Int) :
    (headToken start parent t).stop = start + t.render.length := by
  cases t with
  | string raw => exact absurd rfl h
  | number raw => exact absurd rfl h
  | bool value => exact absurd rfl h
  | array elements => rfl
  | object members => rfl

theorem insideTokens_eq_nil {t : Tree} (h : kids t = []) (start index : Nat) :
    insideTokens start index t = [] := by
  cases t with
  | string raw => rfl
  | number raw => rfl
  | bool value => rfl
  | array elements =>
      obtain rfl : elements = [] := h
      rfl
  | object members =>
      cases members with
      | nil => rfl
      | cons m ms => simp [kids] at h

theorem stop_le (t : Tree) (start : Nat) (parent : Int) :
    (headToken start parent t).stop ≤ start + t.render.length := by
  cases t with
  | string raw =>
      simp only [headToken, leafStart, leafText, Tree.render, List.length_cons,
        List.length_append, List.length_nil]
      omega
  | number raw => simp [headToken, leafStart, leafText, Tree.render]
  | bool value => simp [headToken, leafStart, leafText, Tree.render]
  | array elements => exact le_refl _
  | object members => exact le_refl _

/-- The loops over the tokens after a container visit the tokens inside it. -/
theorem children_placed {t : Tree} {index start : Nat} {parent : Int}
    (hpart : table.Part (tokensOf start index parent t) (nodes t) t.render index start) :
    children table.tokens index =
      ((insideTokens start index t).zipIdx (index + 1)).filter
        (fun (u, _) => decide (u.parent = (index : Int))) := by
  rw [tokensOf_eq] at hpart
  have hhead := hpart.head_token
  obtain ⟨front, back, -, -, -, -, htokens, hfront, -, -, -, -, hback⟩ := hpart
  have hdrop : table.tokens.zipIdx.drop (index + 1) =
      (insideTokens start index t).zipIdx (index + 1) ++
        back.zipIdx (index + 1 + (insideTokens start index t).length) := by
    rw [htokens, List.append_assoc, List.zipIdx_append, List.cons_append, List.zipIdx_cons,
      List.zipIdx_append, Nat.zero_add, hfront, ← List.singleton_append, ← List.append_assoc]
    exact List.drop_left' (by simp [hfront])
  unfold children
  rw [hhead]
  simp only
  congr 1
  rw [hdrop]
  have hinside : ∀ p ∈ (insideTokens start index t).zipIdx (index + 1),
      decide (p.1.start < (headToken start parent t).stop) = true := by
    rintro ⟨u, n⟩ hu
    have hmem : u ∈ insideTokens start index t := List.fst_mem_of_mem_zipIdx hu
    by_cases hkids : kids t = []
    · rw [insideTokens_eq_nil hkids] at hmem
      cases hmem
    · rw [headToken_stop hkids]
      exact decide_eq_true (insideTokens_before t start index u hmem)
  rw [List.takeWhile_append_of_pos hinside]
  cases back with
  | nil => simp
  | cons v back =>
      have hv := hback v rfl
      have hstop := stop_le t start parent
      rw [List.zipIdx_cons, List.takeWhile_cons_of_neg (by simp only [decide_eq_true_eq]; omega),
        List.append_nil]

theorem elementHeads_placed {ts : List Tree} {comma next container : Nat}
    (h : ElementsAt table comma next container ts) (hnext : container < next) :
    List.Forall₂ (Heads table) (elementHeads comma next container ts) ts := by
  induction ts generalizing comma next with
  | nil => exact .nil
  | cons t ts ih =>
      obtain ⟨hhead, htail⟩ := h.split hnext
      exact .cons hhead (ih htail (by omega))

theorem memberHeads_placed {ms : List (Bytes × Tree)} {comma next container : Nat}
    (h : MembersAt table comma next container ms) (hnext : container < next) :
    List.Forall₂ (Heads table) (memberHeads comma next container ms)
      (ms.flatMap fun (k, t) => [.string k, t]) := by
  induction ms generalizing comma next with
  | nil => exact .nil
  | cons m ms ih =>
      obtain ⟨k, t⟩ := m
      obtain ⟨hkey, hvalue, htail⟩ := h.split hnext
      exact .cons hkey (.cons hvalue (ih htail (by omega)))

/-- The direct children of a placed container are its values and keys, in order. -/
theorem children_kids {t : Tree} {index : Nat} (h : table.Placed t index) :
    List.Forall₂ (Heads table) (children table.tokens index) (kids t) := by
  obtain ⟨start, parent, hparent, hpart⟩ := h
  rw [children_placed hpart]
  cases t with
  | string raw => exact .nil
  | number raw => exact .nil
  | bool value => exact .nil
  | array elements =>
      have helements := elementsAt_of_part hpart
      rw [insideTokens, filter_elementTokens elements (Nat.lt_succ_self index)]
      exact elementHeads_placed helements (Nat.lt_succ_self index)
  | object members =>
      have hmembers := membersAt_of_part hpart
      rw [insideTokens, filter_memberTokens members (Nat.lt_succ_self index)]
      exact memberHeads_placed hmembers (Nat.lt_succ_self index)

/-! ### Every tree of a table is placed -/

mutual

theorem placed_nodes : ∀ (t : Tree) {index start : Nat} {parent : Int}, parent < index →
    table.Part (tokensOf start index parent t) (nodes t) t.render index start →
    ∀ {j u}, (nodes t)[j]? = some u → table.Placed u (index + j)
  | .string raw, index, start, parent, hparent, hpart, j, u, hu =>
      placed_leaf hparent hpart rfl hu
  | .number raw, index, start, parent, hparent, hpart, j, u, hu =>
      placed_leaf hparent hpart rfl hu
  | .bool value, index, start, parent, hparent, hpart, j, u, hu =>
      placed_leaf hparent hpart rfl hu
  | .array elements, index, start, parent, hparent, hpart, 0, u, hu => by
      obtain rfl : Tree.array elements = u := by simpa [nodes] using hu
      exact ⟨start, parent, hparent, hpart⟩
  | .array elements, index, start, parent, hparent, hpart, j + 1, u, hu => by
      have := placed_elementNodes elements (elementsAt_of_part hpart) (Nat.lt_succ_self index)
        (j := j) (by simpa [nodes] using hu)
      rwa [Nat.add_assoc, Nat.add_comm 1 j] at this
  | .object members, index, start, parent, hparent, hpart, 0, u, hu => by
      obtain rfl : Tree.object members = u := by simpa [nodes] using hu
      exact ⟨start, parent, hparent, hpart⟩
  | .object members, index, start, parent, hparent, hpart, j + 1, u, hu => by
      have := placed_memberNodes members (membersAt_of_part hpart) (Nat.lt_succ_self index)
        (j := j) (by simpa [nodes] using hu)
      rwa [Nat.add_assoc, Nat.add_comm 1 j] at this

theorem placed_elementNodes : ∀ (ts : List Tree) {comma next container : Nat},
    ElementsAt table comma next container ts → container < next →
    ∀ {j u}, (elementNodes ts)[j]? = some u → table.Placed u (next + j)
  | t :: ts, comma, next, container, h, hnext, j, u, hu => by
      obtain ⟨⟨-, hplaced⟩, htail⟩ := h.split hnext
      rw [elementNodes] at hu
      by_cases hj : j < (nodes t).length
      · rw [List.getElem?_append_left hj] at hu
        obtain ⟨start, parent, hparent, hpart⟩ := hplaced
        exact placed_nodes t hparent hpart hu
      · rw [List.getElem?_append_right (by omega), length_nodes] at hu
        have := placed_elementNodes ts htail (by omega) hu
        rw [length_nodes] at hj
        rwa [show next + t.size + (j - t.size) = next + j by omega] at this

theorem placed_memberNodes : ∀ (ms : List (Bytes × Tree)) {comma next container : Nat},
    MembersAt table comma next container ms → container < next →
    ∀ {j u}, (memberNodes ms)[j]? = some u → table.Placed u (next + j)
  | (k, t) :: ms, comma, next, container, h, hnext, 0, u, hu => by
      obtain ⟨⟨-, hkey⟩, -, -⟩ := h.split hnext
      obtain rfl : Tree.string k = u := by simpa [memberNodes] using hu
      exact hkey
  | (k, t) :: ms, comma, next, container, h, hnext, j + 1, u, hu => by
      obtain ⟨-, ⟨-, hplaced⟩, htail⟩ := h.split hnext
      rw [memberNodes, List.getElem?_cons_succ] at hu
      by_cases hj : j < (nodes t).length
      · rw [List.getElem?_append_left hj] at hu
        obtain ⟨start, parent, hparent, hpart⟩ := hplaced
        have := placed_nodes t hparent hpart hu
        rwa [Nat.add_assoc, Nat.add_comm 1 j] at this
      · rw [List.getElem?_append_right (by omega), length_nodes] at hu
        have := placed_memberNodes ms htail (by omega) hu
        rw [length_nodes] at hj
        rwa [show next + 1 + t.size + (j - t.size) = next + (j + 1) by omega] at this

end

end Children

/-! ## The reader of a tree -/

/-- `JsonCopyString` on the text of a string. -/
def copyText (raw : Bytes) (size : Nat) : Option Bytes :=
  if size = 0 then none
  else (copyLoop size raw.length raw []).toOption.map fun output => output.takeWhile (· ≠ 0)

/-- The digits of a number, within bounds. -/
def numberText (raw : Bytes) (minimum maximum : Nat) : Option Nat := do
  if raw = [] then none
  let value ← (digitsValue 0 raw).toOption
  if value < minimum ∨ maximum < value then none else some value

/-- The value of the first member of a name. -/
def memberNamed (members : List (Bytes × Tree)) (name : String) : Option Tree :=
  (members.find? fun m => decide (m.1 = bytesOf name)).map (·.2)

/-- The accessors over trees; what a token table does not have is `none`. -/
def treeReader : Reader (Option Tree) where
  exactObject
    | some (.object members), fields =>
        decide (members.length = fields.length) &&
          (members.all fun m => fields.any fun field => decide (m.1 = bytesOf field)) &&
          fields.all fun field => (memberNamed members field).isSome
    | _, _ => false
  hasType i type := i.any fun t => decide (kind t = type)
  member
    | some (.object members), name => memberNamed members name
    | _, _ => none
  copyString
    | some (.string raw), size => copyText raw size
    | _, _ => none
  uint64
    | some (.number raw), minimum, maximum => numberText raw minimum maximum
    | _, _, _ => none
  bool
    | some (.bool value) => some value
    | _ => none
  directChildren
    | some (.array elements) => elements.length
    | _ => 0
  directChild i ordinal := do (kids (← i))[ordinal]?

/-! ## The accessors over the tokens and over the tree -/

namespace Table

variable (table : Table)

/-- The document of a table. -/
def document : Document := ⟨table.json, table.tokens⟩

/-- The tree at an index. -/
def treeAt (index : Option Nat) : Option Tree := index.bind fun n => table.trees[n]?

/-- Each index has a token if and only if it has a tree, and then the tree is placed there. -/
structure Complete : Prop where
  length : table.tokens.length = table.trees.length
  placed : ∀ {index : Nat} {t : Tree}, table.trees[index]? = some t → table.Placed t index

variable {table}

/-- What is read at an index, by cases on whether there is a tree. -/
theorem Complete.cases (h : table.Complete) {P : Option Nat → Option Tree → Prop}
    (hnone : ∀ index, table.document.token index = none → P index none)
    (hsome : ∀ index t, table.Placed t index → P (some index) (some t)) (index : Option Nat) :
    P index (table.treeAt index) := by
  rcases index with _ | n
  · exact hnone none rfl
  · change P (some n) (table.trees[n]?)
    cases hnode : table.trees[n]? with
    | none =>
        refine hnone (some n) ?_
        rw [List.getElem?_eq_none_iff, ← h.length] at hnode
        exact List.getElem?_eq_none hnode
    | some t => exact hsome n t (h.placed hnode)

theorem token_head {t : Tree} {head : JsonToken × Nat} (h : Heads table head t) :
    head.1.type = kind t ∧ head.1.childCount = (kids t).length ∧
      head.1.stop = head.1.start + (leafText t).length ∧ head.1.text table.json = leafText t := by
  obtain ⟨token, htoken, hfacts⟩ := head_placed h.2
  obtain rfl : head.1 = token := Option.some.inj (h.1.symm.trans htoken)
  exact hfacts

theorem treeAt_head {t : Tree} {head : JsonToken × Nat} (h : Heads table head t) :
    table.treeAt (some head.2) = some t :=
  node_placed h.2

/-- An index and a tree that say the same. -/
def Agrees (table : Table) (index : Option Nat) (t : Option Tree) : Prop :=
  table.treeAt index = t ∧ index.isSome = t.isSome

theorem agrees_head {t : Tree} {head : JsonToken × Nat} (h : Heads table head t) :
    table.Agrees (some head.2) (some t) :=
  ⟨node_placed h.2, rfl⟩

/-- A key is equal to a name if the tree's key is. -/
theorem jsonStringEquals_key {k : Bytes} {head : JsonToken × Nat}
    (h : Heads table head (.string k)) (name : Bytes) :
    jsonStringEquals table.json head.1 name = true ↔ k = name := by
  obtain ⟨htype, -, -, htext⟩ := token_head h
  unfold jsonStringEquals
  rw [htype, htext]
  simp only [kind, leafText, decide_true, Bool.true_and]
  exact decide_eq_true_iff

theorem findMember_heads {name : String} {ms : List (Bytes × Tree)}
    {cs : List (JsonToken × Nat)}
    (h : List.Forall₂ (Heads table) cs (ms.flatMap fun (k, t) => [.string k, t])) :
    table.Agrees (findMember table.json (bytesOf name) cs) (memberNamed ms name) := by
  induction ms generalizing cs with
  | nil =>
      cases h
      exact ⟨rfl, rfl⟩
  | cons m ms ih =>
      obtain ⟨k, t⟩ := m
      rw [List.flatMap_cons] at h
      rcases h with _ | ⟨hkey, _ | ⟨hvalue, hrest⟩⟩
      have htype := (token_head hkey).1
      have hequal := jsonStringEquals_key hkey (bytesOf name)
      rw [findMember, if_neg (by rw [htype]; simp [kind])]
      unfold memberNamed
      rw [List.find?_cons]
      by_cases hname : k = bytesOf name
      · rw [if_pos (hequal.mpr hname), decide_eq_true hname]
        exact agrees_head hvalue
      · rw [if_neg fun h => hname (hequal.mp h), decide_eq_false hname]
        exact ih hrest

theorem keysKnown_heads {fields : List String} {ms : List (Bytes × Tree)}
    {cs : List (JsonToken × Nat)}
    (h : List.Forall₂ (Heads table) cs (ms.flatMap fun (k, t) => [.string k, t])) :
    table.document.keysKnown fields cs =
      ms.all fun m => fields.any fun field => decide (m.1 = bytesOf field) := by
  induction ms generalizing cs with
  | nil =>
      cases h
      rfl
  | cons m ms ih =>
      obtain ⟨k, t⟩ := m
      rw [List.flatMap_cons] at h
      rcases h with _ | ⟨hkey, _ | ⟨hvalue, hrest⟩⟩
      have hknown : ∀ field : String, jsonStringEquals table.json _ (bytesOf field) =
          decide (k = bytesOf field) := fun field =>
        Bool.eq_iff_iff.mpr ((jsonStringEquals_key hkey _).trans (decide_eq_true_iff).symm)
      rw [Document.keysKnown, ih hrest, List.all_cons]
      unfold Document.keyKnown
      simp only [document, hknown]

theorem member_placed {t : Tree} {index : Nat} (h : table.Placed t index) (name : String) :
    table.Agrees (table.document.member (some index) name)
      (treeReader.member (some t) name) := by
  obtain ⟨token, htoken, htype, -⟩ := head_placed h
  have hkids := children_kids h
  unfold Document.member jsonFindObjectMember document
  simp only [Option.bind_eq_bind, Option.bind_some, htoken, Option.map_some, htype,
    Option.some.injEq]
  cases t with
  | string raw => exact ⟨rfl, rfl⟩
  | number raw => exact ⟨rfl, rfl⟩
  | bool value => cases value <;> exact ⟨rfl, rfl⟩
  | array elements => exact ⟨rfl, rfl⟩
  | object members => exact findMember_heads hkids

theorem exactObject_placed {t : Tree} {index : Nat} (h : table.Placed t index)
    (fields : List String) :
    table.document.exactObject (some index) fields = treeReader.exactObject (some t) fields := by
  obtain ⟨token, htoken, htype, hcount, -⟩ := head_placed h
  have hkids := children_kids h
  have htoken' : table.document.token (some index) = some token := htoken
  have hmember := fun name => (member_placed h name).2
  unfold Document.exactObject Document.hasType
  simp only [htoken', Option.any_some, htype, hcount, hmember]
  cases t with
  | string raw => rfl
  | number raw => rfl
  | bool value => cases value <;> rfl
  | array elements => rfl
  | object members =>
      have hlength : (children table.tokens index).length = 2 * members.length := by
        rw [hkids.length_eq]
        exact length_flatMap_pair members
      have hsame : (kids (.object members)).length = 2 * members.length :=
        length_flatMap_pair members
      have hchildren : table.document.keysKnown fields (children table.document.tokens index) =
          members.all fun m => fields.any fun field => decide (m.1 = bytesOf field) :=
        keysKnown_heads hkids
      have hiff : (2 * members.length = fields.length * 2) = (members.length = fields.length) :=
        propext ⟨fun h => by omega, fun h => by omega⟩
      rw [hchildren, show (children table.document.tokens index).length = 2 * members.length
        from hlength, hsame]
      simp only [kind, decide_true, Bool.true_and, Nat.mul_mod_right, Bool.and_true, hiff]
      rfl

/-- The text of a string token is copied as the tree's is. -/
theorem copyString_placed {t : Tree} {index : Nat} (h : table.Placed t index) (size : Nat) :
    table.document.copyString (some index) size = treeReader.copyString (some t) size := by
  obtain ⟨token, htoken, htype, -, -, htext⟩ := head_placed h
  have htoken' : table.document.token (some index) = some token := htoken
  unfold Document.copyString jsonCopyString
  rw [htoken', Option.bind_eq_bind, Option.bind_some, htype,
    show token.text table.document.json = leafText t from htext]
  cases t with
  | string raw =>
      change _ = copyText raw size
      unfold copyText
      split
      · rfl
      · simp only [kind, leafText, ne_eq, not_true_eq_false, if_false]
        cases copyLoop size raw.length raw [] <;> rfl
  | number raw => simp [kind, treeReader]; split <;> rfl
  | bool value => cases value <;> simp [kind, treeReader] <;> split <;> rfl
  | array elements => simp [kind, treeReader]; split <;> rfl
  | object members => simp [kind, treeReader]; split <;> rfl

theorem uint64_placed {t : Tree} {index : Nat} (h : table.Placed t index)
    (minimum maximum : Nat) : table.document.uint64 (some index) minimum maximum =
      treeReader.uint64 (some t) minimum maximum := by
  obtain ⟨token, htoken, htype, -, hstop, htext⟩ := head_placed h
  have htoken' : table.document.token (some index) = some token := htoken
  unfold Document.uint64 jsonGetUint64
  rw [htoken', Option.bind_eq_bind, Option.bind_some, htype,
    show token.text table.document.json = leafText t from htext]
  cases t with
  | number raw =>
      change _ = numberText raw minimum maximum
      unfold numberText
      have hempty : token.stop ≤ token.start ↔ raw = [] := by
        rw [hstop, ← List.length_eq_zero_iff]
        simp only [leafText]
        omega
      simp only [kind, ne_eq, not_true_eq_false, false_or, hempty]
      split
      · rfl
      · rfl
  | string raw => rfl
  | bool value => cases value <;> rfl
  | array elements => rfl
  | object members => rfl

theorem bool_placed {t : Tree} {index : Nat} (h : table.Placed t index) :
    table.document.bool (some index) = treeReader.bool (some t) := by
  obtain ⟨token, htoken, htype, -⟩ := head_placed h
  have htoken' : table.document.token (some index) = some token := htoken
  unfold Document.bool jsonGetBool
  rw [htoken', Option.bind_eq_bind, Option.bind_some, htype]
  cases t with
  | bool value => cases value <;> rfl
  | string raw => rfl
  | number raw => rfl
  | array elements => rfl
  | object members => rfl

theorem directChildren_placed {t : Tree} {index : Nat} (h : table.Placed t index) :
    table.document.directChildren (some index) = treeReader.directChildren (some t) := by
  obtain ⟨token, htoken, htype, hcount, -⟩ := head_placed h
  have htoken' : table.document.token (some index) = some token := htoken
  unfold Document.directChildren
  rw [htoken']
  simp only [htype, hcount]
  cases t with
  | bool value => cases value <;> rfl
  | string raw => rfl
  | number raw => rfl
  | array elements => rfl
  | object members => rfl

theorem directChild_placed {t : Tree} {index : Nat} (h : table.Placed t index) (ordinal : Nat) :
    table.treeAt (table.document.directChild (some index) ordinal) =
      treeReader.directChild (some t) ordinal := by
  have hkids := children_kids h
  change table.treeAt ((children table.tokens index)[ordinal]?.map (·.2)) = (kids t)[ordinal]?
  cases hchild : (children table.tokens index)[ordinal]? with
  | none =>
      rw [List.getElem?_eq_none_iff, hkids.length_eq] at hchild
      rw [List.getElem?_eq_none hchild]
      rfl
  | some head =>
      obtain ⟨hlt, rfl⟩ := List.getElem?_eq_some_iff.mp hchild
      have hlt' : ordinal < (kids t).length := hkids.length_eq ▸ hlt
      rw [List.getElem?_eq_getElem hlt']
      exact node_placed (hkids.get hlt hlt').2

/-- The accessors read the same from the tokens of a table as from its trees. -/
theorem Complete.maps (h : table.Complete) :
    table.document.reader.Maps treeReader table.treeAt where
  exactObject i fields := by
    refine h.cases (P := fun i t => table.document.exactObject i fields =
      treeReader.exactObject t fields) ?_ (fun _ _ ht => exactObject_placed ht fields) i
    rintro (_ | n) hn
    · rfl
    · unfold Document.exactObject Document.hasType
      rw [hn]
      rfl
  hasType i type := by
    refine h.cases (P := fun i t => table.document.hasType i type = treeReader.hasType t type)
      ?_ ?_ i
    · intro n hn
      unfold Document.hasType
      rw [hn]
      rfl
    · intro n t ht
      obtain ⟨token, htoken, htype, -⟩ := head_placed ht
      unfold Document.hasType
      rw [show table.document.token (some n) = some token from htoken, Option.any_some, htype]
      rfl
  member i name := by
    refine h.cases (P := fun i t => table.treeAt (table.document.member i name) =
      treeReader.member t name) ?_ (fun _ _ ht => (member_placed ht name).1) i
    rintro (_ | n) hn
    · rfl
    · unfold Document.member jsonFindObjectMember
      rw [Option.bind_eq_bind, Option.bind_some, show table.document.tokens[n]? = none from hn]
      rfl
  copyString i size := by
    refine h.cases (P := fun i t => table.document.copyString i size =
      treeReader.copyString t size) ?_ (fun _ _ ht => copyString_placed ht size) i
    intro n hn
    unfold Document.copyString
    rw [hn]
    rfl
  uint64 i minimum maximum := by
    refine h.cases (P := fun i t => table.document.uint64 i minimum maximum =
      treeReader.uint64 t minimum maximum) ?_
      (fun _ _ ht => uint64_placed ht minimum maximum) i
    intro n hn
    unfold Document.uint64
    rw [hn]
    rfl
  bool i := by
    refine h.cases (P := fun i t => table.document.bool i = treeReader.bool t) ?_
      (fun _ _ ht => bool_placed ht) i
    intro n hn
    unfold Document.bool
    rw [hn]
    rfl
  directChildren i := by
    refine h.cases (P := fun i t => table.document.directChildren i =
      treeReader.directChildren t) ?_ (fun _ _ ht => directChildren_placed ht) i
    intro n hn
    unfold Document.directChildren
    rw [hn]
    rfl
  directChild i ordinal := by
    refine h.cases (P := fun i t => table.treeAt (table.document.directChild i ordinal) =
      treeReader.directChild t ordinal) ?_ (fun _ _ ht => directChild_placed ht ordinal) i
    rintro (_ | n) hn
    · rfl
    · have hnone : table.tokens[n]? = none := hn
      unfold Document.directChild
      rw [Option.bind_eq_bind, Option.bind_some]
      unfold children
      rw [show table.document.tokens[n]? = none from hnone]
      rfl

/-- The table of a rendered tree. -/
def rendered (t : Tree) : Table := ⟨t.render ++ [0x0a], tokensOf 0 0 (-1) t, nodes t⟩

theorem rendered_part (t : Tree) :
    (rendered t).Part (tokensOf 0 0 (-1) t) (nodes t) t.render 0 0 :=
  ⟨[], [], [], [], [], [0x0a], by simp [rendered], rfl, by simp [rendered], rfl, rfl, rfl,
    by simp⟩

theorem rendered_complete (t : Tree) : (rendered t).Complete where
  length := by rw [rendered, length_tokensOf, length_nodes]
  placed := by
    intro index u hu
    have := placed_nodes t (by decide) (rendered_part t) hu
    rwa [Nat.zero_add] at this

theorem treeAt_rendered (t : Tree) : (rendered t).treeAt (some 0) = some t := by
  cases t <;> rfl

end Table

/-! ## Parsers over a rendered tree -/

/-- `ParseJson` reads every tree that fits back from its text: the accessors over the tokens
it leaves say what the tree says. -/
theorem parseJson_reads {t : Tree} {capacity maxDepth : Nat}
    (hwf : t.wellFormed maxDepth = true) (hcapacity : t.size ≤ capacity)
    (hsize : t.render.length < kMaximumJsonBytes) :
    (parseJson (some (t.render ++ [0x0a])) capacity maxDepth).1.error = none ∧
      (Table.rendered t).treeAt (some 0) = some t ∧
      (Document.mk (t.render ++ [0x0a])
        (parseJson (some (t.render ++ [0x0a])) capacity maxDepth).2).reader.Maps
          treeReader (Table.rendered t).treeAt := by
  obtain ⟨hok, htokens⟩ := parseJson_rendered hwf hcapacity
    (by simp only [List.length_append, List.length_singleton]; omega)
  refine ⟨hok, Table.treeAt_rendered t, ?_⟩
  rw [htokens]
  exact (Table.rendered_complete t).maps

/-- `{"id":[70,"\u000a",true]}`. -/
def smallTree : Tree :=
  .object [([0x69, 0x64], .array [.number [0x37, 0x30],
    .string [0x5c, 0x75, 0x30, 0x30, 0x30, 0x61], .bool true])]

theorem parseJson_reads_small :
    (parseJson (some (smallTree.render ++ [0x0a])) 8 3).1.error = none ∧
      (Table.rendered smallTree).treeAt (some 0) = some smallTree :=
  have h := @parseJson_reads smallTree 8 3 (by decide) (by decide) (by decide)
  ⟨h.1, h.2.1⟩

end Json

end BmxUpdate
