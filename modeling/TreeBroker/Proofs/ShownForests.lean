import TreeBroker.Arena.Sexp
import TreeBroker.Proofs.Forests
import TreeBroker.Proofs.Scripts

/-!
# What is shown of a tree

A tree is shown by its named nodes. The writer leaves out a node that is not named together
with all that is below it, and it does not go below a node that the source lacks. Neither
loses a node, but that is no merit of the writer: both kinds of nodes are created by calls
that leave nothing open, so there is nothing below them.

What builds a tree is the script of a forest (`Arena.exists_forest`), and a forest is where
this can be seen, for its leaves have no children to begin with. What is shown of a forest is
a list of marks, one that opens a node and one that closes it (`Forest.marks`). The text of
the tree spells the marks (`Arena.exists_marks`), and the marks that open are the named nodes
in the order of the arena (`Forest.captions_marks`).
-/

namespace TreeBroker

/-! ## Trees as forests -/

namespace Script

mutual

/-- **A tree is a leaf or a node** over a forest. -/
theorem IsTree.exists_forest {tree : List Call} : IsTree tree →
    (∃ t : Token, tree = (Forest.leaf t .nil).script) ∨
      ∃ field kind start stop children,
        tree = (Forest.node field kind start stop children .nil).script
  | @IsTree.leaf c creates closed => .inl ⟨⟨c, creates, closed⟩, rfl⟩
  | @IsTree.node c children opens trees stop => by
    obtain ⟨forest, rfl⟩ := trees.exists_forest
    cases c with
    | enter field kind start => exact .inr ⟨field, kind, start, stop, forest, rfl⟩
    | _ => cases opens

theorem IsForest.exists_forest {trees : List Call} : IsForest trees →
    ∃ forest : Forest, trees = forest.script
  | .nil => ⟨.nil, rfl⟩
  | @IsForest.cons tree others first rest => by
    obtain ⟨forest, rfl⟩ := rest.exists_forest
    obtain ⟨t, rfl⟩ | ⟨field, kind, start, stop, children, rfl⟩ := first.exists_forest
    · exact ⟨(Forest.leaf t .nil).append forest, (Forest.script_append _ _).symm⟩
    · exact ⟨(Forest.node field kind start stop children .nil).append forest,
        (Forest.script_append _ _).symm⟩

end

end Script

/-- **The script of a leaf builds its layout.** -/
theorem Forest.build_leaf (grammar : String) (t : Token) :
    Arena.build grammar (leaf t nil).script = .ok ⟨(leaf t nil).entries true none 0⟩ := by
  have run : Builder.run [t.call] = ⟨[t.entry.below none], [], none⟩ := by
    show Builder.step {} t.call = _
    rw [Builder.step_creating t.entry?_call t.links_entry.1, t.closed]
    rfl
  have alone : Builder.raise [t.entry.below none] 0 = [t.entry.below none] := by
    unfold Builder.raise Entry.below
    cases t.entry.error <;> rfl
  show (Builder.run [t.call]).finish grammar = _
  rw [run]
  show Except.ok (Arena.mk (Builder.raise [t.entry.below none] 0)) = _
  rw [alone]
  rfl

/-- **Every tree that is built is the layout of a forest.** -/
theorem Arena.exists_forest {grammar : String} {script : List Call} {a : Arena}
    (built : Arena.build grammar script = .ok a) (nonempty : a.entries ≠ []) :
    (∃ t : Token, a.entries = (Forest.leaf t .nil).entries true none 0) ∨
      ∃ field kind start stop children,
        a.entries = (Forest.node field kind start stop children .nil).entries true none 0 := by
  obtain ⟨problem, closed, -⟩ := Builder.finish_eq_ok.mp built
  have left : Script.openNodes script = [] := by
    rw [← List.isEmpty_iff, ← Builder.isEmpty_stack_run, closed]
    rfl
  obtain rfl | tree := Script.balanced_iff.mp ⟨Builder.problem_run_eq_none.mp problem, left⟩
  · cases built
    exact absurd rfl nonempty
  · obtain ⟨t, rfl⟩ | ⟨field, kind, start, stop, children, rfl⟩ := tree.exists_forest
    · rw [Forest.build_leaf] at built
      cases built
      exact .inl ⟨t, rfl⟩
    · rw [Forest.build_node] at built
      cases built
      exact .inr ⟨field, kind, start, stop, children, rfl⟩

/-! ## Marks -/

/-- **What a node is shown by.** -/
structure Caption where
  /-- The field under which its parent knows it. -/
  field : Option String
  /-- It is a node that the source lacks. -/
  missing : Bool
  /-- Its kind. -/
  kind : String

namespace Caption

/-- What stands before the parenthesis of a node: its label, if it has one. -/
def label (c : Caption) : List Char :=
  match c.field with
  | some field => field.toList ++ [':', ' ']
  | none => []

/-- What stands behind the parenthesis of a node, up to its children. A node that the source
lacks is closed at once. -/
def body (c : Caption) : List Char :=
  if c.missing then "MISSING ".toList ++ c.kind.toList ++ [')'] else c.kind.toList

end Caption

/-- What an entry is shown by. -/
def Entry.caption (e : Entry) : Caption := ⟨e.field, e.missing, e.kind⟩

/-- **A mark**: a node is opened inside another, or the innermost one is closed. -/
inductive Mark where
  /-- A node is opened. -/
  | opening (caption : Caption)
  /-- A node is closed. -/
  | closing

namespace Mark

/-- The node that a mark opens. -/
def caption? : Mark → Option Caption
  | opening c => some c
  | closing => none

@[simp] theorem caption?_opening (c : Caption) : (opening c).caption? = some c := rfl

@[simp] theorem caption?_closing : closing.caption? = none := rfl

/-- How a mark is spelled. -/
def spell : Mark → List Char
  | opening c => ' ' :: (c.label ++ '(' :: c.body)
  | closing => [')']

/-- What closes a node that was opened: nothing, if the source lacks it. -/
def close (missing : Bool) : List Mark := if missing then [] else [closing]

@[simp] theorem filterMap_close (missing : Bool) : (close missing).filterMap caption? = [] := by
  cases missing <;> rfl

/-- A mark that opens a node is not the last inside another. -/
theorem ne_nil_of_close {missing : Bool} {ms before after : List Mark} {c : Caption}
    (empty : missing = true → ms = []) (h : ms ++ close missing = before ++ opening c :: after) :
    after ≠ [] := by
  rintro rfl
  cases missing with
  | true =>
    rw [empty rfl] at h
    exact absurd h.symm (List.append_ne_nil_of_right_ne_nil before (List.cons_ne_nil _ _))
  | false => cases (List.append_inj' h rfl).2

end Mark

namespace Forest

/-- **The marks of a forest.** -/
def marks : Forest → List Mark
  | nil => []
  | leaf t rest =>
    (if t.entry.named then .opening t.entry.caption :: Mark.close t.entry.missing else []) ++
      rest.marks
  | node field kind _ _ children rest =>
    .opening ⟨field, false, kind⟩ :: (children.marks ++ .closing :: rest.marks)

/-- **The nodes that are opened** are the named ones, in the order of the layout. -/
theorem captions_marks (forest : Forest) (raised : Bool) (parent : Option Nat) (i : Nat) :
    forest.marks.filterMap Mark.caption? =
      ((forest.entries raised parent i).filter (·.named)).map Entry.caption := by
  induction forest generalizing parent i with
  | nil => rfl
  | leaf t rest ih =>
    rw [marks, entries, List.filterMap_append, ih parent (i + 1)]
    cases hn : t.entry.named with
    | false => simp [hn, Entry.below]
    | true => cases hm : t.entry.missing <;> simp [hn, hm, Entry.below, Mark.close, Entry.caption]
  | node field kind start stop children rest ihc ihr =>
    rw [marks, entries, List.filterMap_cons_some (Mark.caption?_opening _), List.filterMap_append,
      List.filterMap_cons_none Mark.caption?_closing, ihc (some i) (i + 1),
      ihr parent (i + 1 + children.size)]
    simp [Entry.caption]

end Forest

/-! ## The text spells the marks -/

/-- Nodes that the source lacks are named. -/
theorem Call.named_of_missing {c : Call} {e : Entry} (h : c.entry? = some e)
    (missing : e.missing = true) : e.named = true := by
  cases c with
  | missing kind offset =>
    cases h
    rfl
  | leave stop => cases h
  | _ =>
    cases h
    cases missing

namespace Arena

variable {a : Arena} {i depth : Nat} {e : Entry}

/-- A child as it is shown inside its parent. -/
def shownChild (a : Arena) (depth j : Nat) : List Char :=
  ' ' :: (((a.get? j).map fun e => e.caption.label).getD [] ++ (a.sexpAt depth j).toList)

/-- **A node is shown by its caption** and its children that are shown. -/
theorem toList_sexpAt (h : a.get? i = some e) (depth : Nat) :
    (a.sexpAt (depth + 1) i).toList =
      '(' :: (e.caption.body ++ if e.missing then [] else
        (e.children.filter a.isShown).flatMap (a.shownChild depth) ++ [')']) := by
  have child (j : Nat) : a.shownChild depth j =
      (" " ++ (match (a.get? j).bind (·.field) with
        | some field => field ++ ": "
        | none => "") ++ a.sexpAt depth j).toList := by
    unfold shownChild
    cases a.get? j with
    | none => simp
    | some e' => cases hf : e'.field <;> simp [Entry.caption, Caption.label, hf]
  rw [sexpAt, h]
  dsimp only
  cases hm : e.missing with
  | true => simp [Entry.caption, Caption.body, hm]
  | false =>
    simp only [Bool.false_eq_true, if_false, String.toList_append, String.toList_join,
      List.flatMap_map, Caption.body, Entry.caption, hm, funext child, List.append_assoc]
    -- What is left are two ways to look for the same label.
    rfl

theorem shownChild_of_get? (h : a.get? i = some e) (depth : Nat) :
    a.shownChild (depth + 1) i =
      ' ' :: (e.caption.label ++ '(' :: (e.caption.body ++ if e.missing then [] else
        (e.children.filter a.isShown).flatMap (a.shownChild depth) ++ [')'])) := by
  rw [shownChild, toList_sexpAt h, h]
  rfl

end Arena

namespace Forest

variable {a : Arena} {parent : Option Nat} {i : Nat}

theorem isShown_leaf {t : Token} {rest : Forest} (h : Placed a parent i (leaf t rest)) :
    a.isShown i = t.entry.named := by
  unfold Arena.isShown
  rw [h.get?_leaf]
  show (t.entry.named || t.entry.missing) = t.entry.named
  cases hm : t.entry.missing with
  | false => exact Bool.or_false _
  | true => rw [Call.named_of_missing t.entry?_call hm, Bool.true_or]

/-- **What is shown of a forest spells its marks**, where the descent is deep enough. -/
theorem flatMap_shownChild (forest : Forest) {depth : Nat} (h : Placed a parent i forest)
    (deep : forest.size ≤ depth) :
    ((forest.roots i).filter a.isShown).flatMap (a.shownChild depth) =
      forest.marks.flatMap Mark.spell := by
  induction forest generalizing parent i depth with
  | nil => rfl
  | leaf t rest ih =>
    have others := ih h.rest_leaf (Nat.le_of_succ_le deep)
    rw [roots, marks, List.flatMap_append, ← others]
    cases hn : t.entry.named with
    | false =>
      rw [List.filter_cons_of_neg (by rw [isShown_leaf h, hn]; exact Bool.false_ne_true)]
      rfl
    | true =>
      obtain ⟨depth, rfl⟩ := Nat.exists_eq_succ_of_ne_zero (Nat.ne_zero_of_lt deep)
      rw [List.filter_cons_of_pos (by rw [isShown_leaf h, hn]), List.flatMap_cons,
        Arena.shownChild_of_get? h.get?_leaf]
      cases hm : t.entry.missing <;>
        simp [Entry.caption, Entry.below, Mark.close, Mark.spell, hm, t.links_entry.2]
  | node field kind start stop children rest ihc ihr =>
    have room : children.size + rest.size + 1 ≤ depth := deep
    obtain ⟨depth, rfl⟩ := Nat.exists_eq_succ_of_ne_zero (Nat.ne_zero_of_lt deep)
    obtain ⟨below, behind⟩ := h.inside
    have fits : children.size ≤ depth := by omega
    have fits' : rest.size ≤ depth + 1 := by omega
    have inner := ihc below fits
    have others := ihr behind fits'
    have shown : a.isShown i = true := by
      unfold Arena.isShown
      rw [h.get?_node]
      rfl
    rw [roots, marks, List.filter_cons_of_pos shown, List.flatMap_cons,
      Arena.shownChild_of_get? h.get?_node, others]
    simp [Entry.caption, Mark.spell, inner]

end Forest

namespace Arena

variable {a : Arena}

/-- **The text of a tree** is its root and what is shown of the children. -/
theorem toList_sexp {root : Entry} {others : List Entry} (laid : a.entries = root :: others) :
    a.sexp.toList =
      '(' :: (root.caption.body ++ if root.missing then [] else
        (root.children.filter a.isShown).flatMap (a.shownChild others.length) ++ [')']) := by
  have first : a.get? 0 = some root := by
    rw [get?, laid]
    rfl
  have size : a.size = others.length + 1 := by
    rw [Arena.size, laid]
    rfl
  rw [sexp, root?, laid, size]
  exact toList_sexpAt first others.length

/-- **The text of a tree spells the marks of a forest** inside the root. The forest has no
marks where the source lacks the root, and what it opens are the other named nodes. -/
theorem exists_marks {grammar : String} {script : List Call}
    (built : build grammar script = .ok a) (nonempty : a.entries ≠ []) :
    ∃ root others, ∃ forest : Forest, a.entries = root :: others ∧
      (root.missing = true → forest.marks = []) ∧
      forest.marks.filterMap Mark.caption? = (others.filter (·.named)).map Entry.caption ∧
      a.sexp.toList = '(' :: (root.caption.body ++
        (forest.marks ++ Mark.close root.missing).flatMap Mark.spell) := by
  obtain ⟨t, laid⟩ | ⟨field, kind, start, stop, children, laid⟩ := exists_forest built nonempty
  · refine ⟨t.entry.below none, [], .nil, laid, fun _ => rfl, rfl, ?_⟩
    rw [toList_sexp laid]
    cases hm : t.entry.missing <;>
      simp [Entry.below, hm, Mark.close, Mark.spell, t.links_entry.2, Forest.marks]
  · have whole := Forest.Placed.whole laid
    rw [Forest.entries, Forest.entries, List.append_nil] at laid
    refine ⟨_, _, children, laid, fun absent => absurd absent Bool.false_ne_true,
      children.captions_marks true (some 0) 1, ?_⟩
    have inner := children.flatMap_shownChild whole.inside.1 (Nat.le_refl children.size)
    rw [toList_sexp laid, Forest.length_entries]
    simp [inner, Mark.close, Mark.spell]

end Arena

end TreeBroker
