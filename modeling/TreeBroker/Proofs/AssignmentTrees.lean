import TreeBroker.Proofs.AssignmentLines

/-!
# The trees of the assignment grammar

Two statements about every source. The first says what is recognised: a source without a
NUL has a tree, the tree has no error exactly if every line is as the rule has it, and then
the root has one child for each line that is not empty, with the word and the digits of
the line as the texts of its fields (`parse_recognises`). The second says what the tree is
worth when there are errors too: its spans take the source to pieces, and lose nothing of
it but white space (`parse_faithful`).

Both are about the layout of a forest. The second only needs that there is one that tiles
the source. The first needs to know the forest, and where no line is at fault it is known:
one tree after another, each with its word and its digits at their places in the source
(`Assignments`).
-/

namespace TreeBroker

open Utf8 Forest Text

/-! ## Assignments as nodes -/

namespace Node

/-- **A node that assigns digits to a word.** -/
structure IsAssignment (n : Node) (word digits : List Char) : Prop where
  /-- Its kind. -/
  kind : n.kind = "assignment"
  /-- The name is the word. -/
  name : (n.childByField? "name").map text = some (String.ofList word)
  /-- The value is the digits. -/
  value : (n.childByField? "value").map text = some (String.ofList digits)

end Node

namespace Assignment

/-- A piece of a text and where it begins. -/
def Stands (source piece : List Char) (o : Nat) : Prop :=
  ∃ before after, source = before ++ piece ++ after ∧ o = length before

/-- **One assignment after another**, for lines that each hold one. -/
inductive Assignments (source : List Char) : Forest → List (List Char) → Prop
  /-- No lines. -/
  | nil : Assignments source .nil []
  /-- A line before others. -/
  | cons {content word digits : List Char} {contents : List (List Char)} {forest : Forest}
      {start value : Nat} (sign : Nat) (assigns : Assigns content word digits)
      (name : Stands source word start) (number : Stands source digits value)
      (rest : Assignments source forest contents) :
      Assignments source (assignmentBefore start (start + length word) sign value
        (value + length digits) forest) (content :: contents)

/-- **The calls for lines without a fault** are those of their assignments. -/
theorem linesCalls_good {source before : List Char} {ls : List (List Char)}
    (hs : source = before ++ ls.flatten) (good : ∀ line ∈ ls, IsGood (trimEnd line)) :
    ∃ forest, linesCalls (length before) ls = forest.script ∧
      Assignments source forest ((ls.map trimEnd).filter (· ≠ [])) := by
  induction ls generalizing before with
  | nil => exact ⟨.nil, rfl, .nil⟩
  | cons line ls ih =>
    obtain ⟨first, others⟩ := List.forall_mem_cons.mp good
    rw [List.flatten_cons, ← List.append_assoc] at hs
    obtain ⟨forest, hcalls, assignments⟩ := ih hs others
    rw [linesCalls, ← length_append, hcalls, List.map_cons]
    obtain empty | ⟨word, digits, assigns⟩ := first
    · rw [empty, List.filter_cons_of_neg (by simp)]
      exact ⟨forest, rfl, assignments⟩
    · obtain ⟨margin, between, sign, hline, hfirst⟩ := lineCalls_assigns (length before) assigns
      obtain ⟨blanks, htrim, -⟩ := (trimmed_trimEnd line).tail
      rw [htrim, hline] at hs
      have some_char : trimEnd line ≠ [] := by
        rw [hline]
        simp [assigns.some_digit]
      have name : Stands source word (length before + length margin) :=
        ⟨before ++ margin, between ++ digits ++ blanks ++ ls.flatten, by simp [hs], by simp⟩
      have number : Stands source digits
          (length before + length margin + length word + length between) :=
        ⟨before ++ margin ++ word ++ between, blanks ++ ls.flatten, by simp [hs],
          by simp [Nat.add_assoc]⟩
      rw [List.filter_cons_of_pos (by simpa), hfirst]
      exact ⟨_, rfl, .cons sign assigns name number assignments⟩

section Nodes

variable {t : Tree} {identity : Nat} {a : Arena} {source : List Char}
  (native : t.native = .grammar identity a) (hs : t.source.toList = source)
  (knows : t.capabilities.fieldLookup = true)
include native hs knows

/-- **An assignment in a tree** has its word and its digits under its fields. -/
theorem isAssignment_node {start sign value : Nat} {word digits : List Char} {rest : Forest}
    {parent : Option Nat} {i : Nat}
    (placed : Placed a parent i (assignmentBefore start (start + length word) sign value
      (value + length digits) rest))
    (name : Stands source word start) (number : Stands source digits value) :
    (t.node i).IsAssignment word digits := by
  have children : a.children i = [i + 1, i + 2, i + 3] := by
    simp only [Arena.children, placed.get?_node]
    rfl
  have inside := placed.inside.1
  have first := inside.get?_leaf
  have second := inside.rest_leaf.get?_leaf
  have third := inside.rest_leaf.rest_leaf.get?_leaf
  have byName : a.childByField? i "name" = some (i + 1) := by
    simp only [Arena.childByField?, children, List.find?_cons, first]
    rfl
  have byValue : a.childByField? i "value" = some (i + 3) := by
    simp only [Arena.childByField?, children, List.find?_cons, first, second, third]
    rfl
  obtain ⟨before, after, hword, rfl⟩ := name
  obtain ⟨before', after', hdigits, rfl⟩ := number
  refine ⟨Node.kind_eq (n := t.node i) native placed.get?_node, ?_, ?_⟩
  · rw [Node.childByField?_eq (n := t.node i) native knows]
    show (Option.map _ (a.childByField? i "name")).map _ = _
    rw [byName]
    exact congrArg some (Node.text_of_spans (n := t.node (i + 1)) native (hs.trans hword)
      (Node.start_eq (n := t.node (i + 1)) native first)
      (Node.stop_eq (n := t.node (i + 1)) native first))
  · rw [Node.childByField?_eq (n := t.node i) native knows]
    show (Option.map _ (a.childByField? i "value")).map _ = _
    rw [byValue]
    exact congrArg some (Node.text_of_spans (n := t.node (i + 3)) native (hs.trans hdigits)
      (Node.start_eq (n := t.node (i + 3)) native third)
      (Node.stop_eq (n := t.node (i + 3)) native third))

theorem forall₂_assignments {forest : Forest} {contents : List (List Char)}
    (assignments : Assignments source forest contents) {parent : Option Nat} {i : Nat}
    (placed : Placed a parent i forest) :
    List.Forall₂ (fun n content => ∃ word digits, Assigns content word digits ∧
      n.IsAssignment word digits) ((forest.roots i).map t.node) contents := by
  induction assignments generalizing i with
  | nil => exact .nil
  | cons sign assigns name number _ ih =>
    exact .cons ⟨_, _, assigns, isAssignment_node native hs knows placed name number⟩
      (ih placed.inside.2)

end Nodes

/-! ## Every source -/

/-- The arena of a source whose lines are read as a forest. -/
def laidOut (cs : List Char) (forest : Forest) : Arena :=
  ⟨(Forest.node none "program" 0 (length cs) forest .nil).entries true none 0⟩

theorem placed_laidOut (cs : List Char) (forest : Forest) :
    Placed (laidOut cs forest) none 0 (.node none "program" 0 (length cs) forest .nil) :=
  .whole rfl

theorem parse_of_script {source : String} {forest : Forest} (clean : '\x00' ∉ source.toList)
    (h : linesCalls 0 (lines source.toList) = forest.script) :
    parse source = .ok (laidOut source.toList forest) := by
  have hcalls : calls source.toList =
      (Forest.node none "program" 0 (length source.toList) forest .nil).script := by
    rw [calls, h]
    rfl
  unfold parse
  rw [if_neg (by simpa using clean), hcalls]
  exact build_node name none "program" 0 _ forest

/-- The first NUL of a source is what is wrong with it. -/
theorem parse_of_nul {source : String} {before after : List Char}
    (hs : source.toList = before ++ '\x00' :: after) (first : '\x00' ∉ before) :
    parse source = .error ⟨name, .nul, length before⟩ := by
  have clean : ∀ c ∈ before, decide (c ≠ '\x00') = true := fun c hc =>
    decide_eq_true fun h => first (h ▸ hc)
  have prior : (before ++ '\x00' :: after).takeWhile (· ≠ '\x00') = before := by
    rw [List.takeWhile_append_of_pos clean]
    simp
  unfold parse
  rw [hs, if_pos (by simp), prior]

theorem parse_eq_error_iff {source : String} {e : GrammarError} :
    parse source = .error e ↔ ∃ before after, source.toList = before ++ '\x00' :: after ∧
      '\x00' ∉ before ∧ e = ⟨name, .nul, length before⟩ := by
  constructor
  · intro failed
    by_cases nul : '\x00' ∈ source.toList
    · obtain ⟨before, after, hs, first⟩ := List.eq_append_cons_of_mem nul
      rw [parse_of_nul hs first] at failed
      exact ⟨before, after, hs, first, (Except.error.inj failed).symm⟩
    · obtain ⟨forest, hcalls, -⟩ := reads_linesCalls 0 (lines source.toList)
      rw [parse_of_script nul hcalls] at failed
      cases failed
  · rintro ⟨before, after, hs, first, rfl⟩
    exact parse_of_nul hs first

/-- **The trees of the grammar are faithful** to their sources: every source without a NUL
has one, and its spans take the source to pieces. -/
theorem parse_faithful {source : String} (clean : '\x00' ∉ source.toList) :
    ∃ a, parse source = .ok a ∧ ∀ (t : Tree) (identity : Nat),
      t.native = .grammar identity a → t.source = source → t.Faithful := by
  obtain ⟨forest, hcalls, tiles⟩ := reads_linesCalls 0 (lines source.toList)
  refine ⟨_, parse_of_script clean hcalls, ?_⟩
  rintro t identity native rfl
  rw [flatten_lines] at tiles
  exact Tree.faithful_of_tiles native rfl tiles

-- A line that is not understood and holds wide characters, and one that ends too early.
theorem parse_faithful_wide :
    ∃ a, parse "é → 1\u00a0\nx = " = .ok a ∧
      Tree.Faithful ⟨.grammar 7 a, "é → 1\u00a0\nx = ", .grammar, .all⟩ := by
  obtain ⟨a, parsed, faithful⟩ := @parse_faithful "é → 1\u00a0\nx = " (by decide)
  exact ⟨a, parsed, faithful _ 7 rfl rfl⟩

/-- **What the grammar recognises.** A source with a NUL has no tree, for the first NUL.
Every other source has one. There is an error in it unless each line, without the white
space at its end, is empty or an assignment; and if there is none, the children of the
root are the assignments, each with the word and the digits of its line under its fields,
where fields are known. -/
theorem parse_recognises (source : String) :
    (∀ e, parse source = .error e ↔ ∃ before after,
      source.toList = before ++ '\x00' :: after ∧ '\x00' ∉ before ∧
        e = ⟨name, .nul, length before⟩) ∧
    ('\x00' ∉ source.toList → ∃ a contents, parse source = .ok a ∧
      Contents source.toList contents ∧
      ∀ (t : Tree) (identity : Nat), t.native = .grammar identity a → t.source = source →
        ∃ root, t.root? = some root ∧
          (root.hasError = false ↔ ∀ content ∈ contents, IsGood content) ∧
          (root.hasError = false → t.capabilities.fieldLookup = true →
            List.Forall₂ (fun n content => ∃ word digits, Assigns content word digits ∧
              n.IsAssignment word digits) root.children (contents.filter (· ≠ [])))) := by
  refine ⟨fun e => parse_eq_error_iff, fun clean => ?_⟩
  obtain ⟨forest, hcalls, -⟩ := reads_linesCalls 0 (lines source.toList)
  refine ⟨_, _, parse_of_script clean hcalls, contents_lines source.toList, ?_⟩
  rintro t identity native rfl
  have root := (placed_laidOut t.source.toList forest).get?_node
  have error : (t.node 0).hasError = false ↔
      ∀ content ∈ (lines t.source.toList).map trimEnd, IsGood content := by
    rw [Node.hasError_eq (n := t.node 0) native root, List.forall_mem_map]
    show forest.hasError = false ↔ _
    rw [← any_isError_script, ← hcalls, any_isError_linesCalls]
  refine ⟨t.node 0, Tree.root?_eq native root, error, fun ok knows => ?_⟩
  -- Without an error the forest is known, and the same arena is its layout too.
  have whole : t.source.toList = [] ++ (lines t.source.toList).flatten :=
    (flatten_lines t.source.toList).symm
  obtain ⟨known, hcalls', assignments⟩ :=
    linesCalls_good whole (List.forall_mem_map.mp (error.mp ok))
  rw [Except.ok.inj ((parse_of_script clean hcalls).symm.trans (parse_of_script clean hcalls'))]
    at native
  have children : (t.node 0).children = (known.roots 1).map t.node := by
    rw [Node.children_eq (n := t.node 0) native]
    rfl
  rw [children]
  exact forall₂_assignments native rfl knows assignments
    (placed_laidOut t.source.toList known).inside.1

-- White space at the end of a line is any, and an empty line has no child.
theorem parse_recognises_two_lines :
    ∃ a contents root, parse "x = 12\u00a0\r\n\n\ty=3" = .ok a ∧
      Contents "x = 12\u00a0\r\n\n\ty=3".toList contents ∧
      Tree.root? ⟨.grammar 7 a, "x = 12\u00a0\r\n\n\ty=3", .grammar, .all⟩ = some root ∧
      root.hasError = false ∧
      List.Forall₂ (fun n content => ∃ word digits, Assigns content word digits ∧
        n.IsAssignment word digits) root.children (contents.filter (· ≠ [])) := by
  obtain ⟨a, contents, parsed, lines, spec⟩ :=
    (parse_recognises "x = 12\u00a0\r\n\n\ty=3").2 (by decide)
  obtain ⟨root, hr, -, known⟩ :=
    spec ⟨.grammar 7 a, "x = 12\u00a0\r\n\n\ty=3", .grammar, .all⟩ 7 rfl rfl
  have clear : (parse "x = 12\u00a0\r\n\n\ty=3").toOption.bind (fun a =>
      (Tree.root? ⟨.grammar 7 a, "x = 12\u00a0\r\n\n\ty=3", .grammar, .all⟩).map
        Node.hasError) = some false := by decide
  rw [parsed] at clear
  have ok : root.hasError = false := by
    rw [show (Except.ok a).toOption = some a from rfl, Option.bind_some, hr] at clear
    exact Option.some.inj clear
  exact ⟨a, contents, root, parsed, lines, hr, ok, known ok rfl⟩

end Assignment

end TreeBroker
