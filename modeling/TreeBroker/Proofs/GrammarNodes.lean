import TreeBroker.Proofs.ArenaLinks
import TreeBroker.Tree

/-!
# The nodes of a grammar's tree

A node answers some questions from its engine and works the others out, and which are
which is decided by a table of capabilities. For the tree of a grammar the table should not
matter: what such a tree can tell natively is what would be worked out anyway. Points and
texts are never native there, and siblings are found by two searches that have nothing in
common – the arena looks for an index among the children of the parent, the node view
asks each child of the parent whether it is the same object.

That the two searches agree is a property of arenas that were built, not of all arenas:
it takes that a node is a child of its parent, and only once (`Arena.Linked`). For an
arena in which a node is listed twice, or is missing among its parent's children, they
would differ.

Some capabilities do decide what is said at all: a backend that does not know parents has
neither parents nor derived siblings, and the flags and the fields are answered in the
plainest way where the backend cannot tell. So two tables are compared that know parents
and agree on flags and fields. A node seen under another table is `Node.under`, and the
main statement says that every question, and every chain of steps from node to node,
leads to the same answer (`Node.sameAnswers_under`).
-/

namespace TreeBroker

namespace Node

variable {n : Node} {identity : Nat} {a : Arena}

/-! ## Questions to the arena -/

theorem ask_none {α : Type} (able : Bool) : ask able (none : Option α) = none := by
  cases able <;> rfl

section Arena

variable (native : n.native = .grammar identity a)
include native

theorem child?_eq (k : Nat) : n.child? k = (a.child? n.index k).map n.tree.node := by
  unfold child?
  rw [native]
  rfl

theorem childCount_eq : n.childCount = (a.children n.index).length := by
  unfold childCount
  rw [native]
  show ((a.get? n.index).getD default).children.length = _
  unfold Arena.children
  cases a.get? n.index <;> rfl

section Entry

variable {e : Entry} (entry : a.get? n.index = some e)
include entry

theorem kind_eq : n.kind = e.kind := by
  unfold kind
  rw [native]
  show ((a.get? n.index).getD default).kind = _
  rw [entry]
  rfl

theorem start_eq : n.start = e.start := by
  unfold start
  rw [native]
  show ((a.get? n.index).getD default).start = _
  rw [entry]
  rfl

theorem stop_eq : n.stop = e.stop := by
  unfold stop
  rw [native]
  show ((a.get? n.index).getD default).stop = _
  rw [entry]
  rfl

theorem hasError_eq : n.hasError = e.error := by
  unfold hasError
  rw [native]
  show ((a.get? n.index).getD default).error = _
  rw [entry]
  rfl

end Entry

/-- **The children of a node** are those that the arena lists. -/
theorem children_eq : n.children = (a.children n.index).map n.tree.node := by
  have listed (l : List Nat) :
      (List.range l.length).filterMap (fun k => (l[k]?).map n.tree.node) = l.map n.tree.node := by
    induction l with
    | nil => rfl
    | cons i l ih =>
      rw [List.length_cons, List.range_succ_eq_map, List.filterMap_cons, List.filterMap_map]
      exact congrArg (n.tree.node i :: ·) ih
  unfold children
  rw [childCount_eq native, funext (child?_eq native)]
  exact listed (a.children n.index)

theorem parent?_eq (knows : n.capabilities.parent = true) :
    n.parent? = (a.parent? n.index).map n.tree.node := by
  unfold parent? ask
  rw [if_pos knows, native]
  rfl

theorem childByField?_eq (knows : n.capabilities.fieldLookup = true) (field : String) :
    n.childByField? field = (a.childByField? n.index field).map n.tree.node := by
  unfold childByField? ask
  rw [if_pos knows, native]
  rfl

theorem isSame_node (i : Nat) : (n.tree.node i).isSame n = (i == n.index) := by
  have identified (j : Nat) : (n.tree.node j).identity = (identity, j) := by
    show NativeTree.nodeIdentity n.native j = _
    rw [native]
    rfl
  show ((n.tree.node i).identity == (n.tree.node n.index).identity) = _
  rw [identified, identified, Bool.eq_iff_iff, beq_iff_eq, beq_iff_eq]
  exact ⟨fun h => (Prod.mk.inj h).2, congrArg _⟩

theorem startPoint_eq : n.startPoint = Point.ofOffset n.tree.bytes n.start := by
  unfold startPoint
  rw [native]
  show (ask _ none).getD _ = _
  rw [ask_none]
  rfl

theorem endPoint_eq : n.endPoint = Point.ofOffset n.tree.bytes n.stop := by
  unfold endPoint
  rw [native]
  show (ask _ none).getD _ = _
  rw [ask_none]
  rfl

/-- **The text of a node** is its piece of the source. -/
theorem text_eq : n.text = Utf8.display (Utf8.slice n.tree.bytes n.start n.stop) := by
  unfold text
  rw [native]
  show (ask _ none).getD _ = _
  rw [ask_none]
  rfl

/-! ## Derived siblings -/

/-- **The search for a node among its parent's children** finds the place where the arena
lists it. -/
theorem position?_eq (linked : a.Linked) (knows : n.capabilities.parent = true) {p k : Nat}
    (hk : (a.children p)[k]? = some n.index) : n.position? = some (n.tree.node p, k) := by
  have hp : a.parent? n.index = some p := linked.mem_children.mp (List.mem_of_getElem? hk)
  obtain ⟨hlt, hi⟩ := List.getElem?_eq_some_iff.mp hk
  have found (j : Nat) : ((n.tree.node p).child? j).any (fun c => c.isSame n) =
      ((a.children p)[j]?).any (· == n.index) := by
    rw [child?_eq (n := n.tree.node p) native, Option.any_map]
    exact congrArg (fun f => ((a.children p)[j]?).any f) (funext (isSame_node native))
  have first : (List.range (n.tree.node p).childCount).find? (fun j =>
      ((n.tree.node p).child? j).any fun c => c.isSame n) = some k := by
    rw [funext found, childCount_eq (n := n.tree.node p) native, List.find?_range_eq_some]
    refine ⟨by simp [hk], List.mem_range.mpr hlt, fun j hj => ?_⟩
    -- No other place holds the node, since no child is listed twice.
    have ne := List.pairwise_iff_getElem.mp (linked.nodup_children p) j k (by omega) hlt hj
    rw [hi] at ne
    simp [List.getElem?_eq_getElem (Nat.lt_trans hj hlt), ne]
  unfold position?
  rw [parent?_eq native knows, hp]
  show (List.find? _ _).bind _ = _
  rw [first]
  rfl

theorem position?_eq_none (knows : n.capabilities.parent = true)
    (root : a.parent? n.index = none) : n.position? = none := by
  unfold position?
  rw [parent?_eq native knows, root]
  rfl

/-- **The next sibling**, native or derived, is that of the arena. -/
theorem nextSibling?_eq (linked : a.Linked) (knows : n.capabilities.parent = true) :
    n.nextSibling? = (a.nextSibling? n.index).map n.tree.node := by
  unfold nextSibling?
  split
  · rw [native]
    rfl
  · cases hp : a.parent? n.index with
    | none =>
      rw [position?_eq_none native knows hp]
      simp [Arena.nextSibling?, hp]
    | some p =>
      obtain ⟨k, hk⟩ := List.mem_iff_getElem?.mp (linked.mem_children.mpr hp)
      rw [position?_eq native linked knows hk, linked.nextSibling?_child hk]
      exact child?_eq (n := n.tree.node p) native (k + 1)

/-- **The previous sibling**, native or derived, is that of the arena. -/
theorem prevSibling?_eq (linked : a.Linked) (knows : n.capabilities.parent = true) :
    n.prevSibling? = (a.prevSibling? n.index).map n.tree.node := by
  unfold prevSibling?
  split
  · rw [native]
    rfl
  · cases hp : a.parent? n.index with
    | none =>
      rw [position?_eq_none native knows hp]
      simp [Arena.prevSibling?, hp]
    | some p =>
      obtain ⟨k, hk⟩ := List.mem_iff_getElem?.mp (linked.mem_children.mpr hp)
      rw [position?_eq native linked knows hk, linked.prevSibling?_child hk]
      cases k with
      | zero => rfl
      | succ k => exact child?_eq (n := n.tree.node p) native k

end Arena

/-! ## The same node under another table -/

/-- **A node under another table of capabilities.** -/
def under (c : Capabilities) (n : Node) : Node := ⟨{ n.tree with capabilities := c }, n.index⟩

variable {c : Capabilities}

theorem child?_under (n : Node) (k : Nat) : (n.under c).child? k = (n.child? k).map (under c) := by
  unfold child?
  rw [Option.map_map]
  rfl

theorem children_under (n : Node) : (n.under c).children = n.children.map (under c) := by
  unfold children
  rw [List.map_filterMap, funext (child?_under n)]
  rfl

theorem weight_under (depth : Nat) (n : Node) : weight depth (n.under c) = weight depth n := by
  induction depth generalizing n with
  | zero => rfl
  | succ depth ih =>
    show 1 + ((n.under c).children.map (weight depth)).sum = 1 + (n.children.map (weight depth)).sum
    rw [children_under, List.map_map]
    exact congrArg (fun f => 1 + (n.children.map f).sum) (funext ih)

theorem walk_under (steps : Nat) (stack : List Node) :
    walk steps (stack.map (under c)) = (walk steps stack).map (under c) := by
  induction steps generalizing stack with
  | zero => rfl
  | succ steps ih =>
    cases stack with
    | nil => rfl
    | cons n stack =>
      show _ :: walk steps (children (under c n) ++ _) = _ :: List.map _ _
      rw [children_under, ← List.map_append, ih]

theorem descendants_under (n : Node) :
    (n.under c).descendants = n.descendants.map (under c) := by
  unfold descendants
  show walk (weight n.native.size (n.under c)) ([n].map (under c)) = _
  rw [weight_under, walk_under]

section Flags

variable (missing : c.missingFlag = n.capabilities.missingFlag)
  (named : c.namedFlag = n.capabilities.namedFlag)
  (field : c.fieldLookup = n.capabilities.fieldLookup)

include missing in
theorem isMissing_under : (n.under c).isMissing = n.isMissing := by
  show (ask c.missingFlag _).getD false = _
  rw [missing]
  rfl

include named in
theorem isNamed_under : (n.under c).isNamed = n.isNamed := by
  show (ask c.namedFlag _).getD true = _
  rw [named]
  rfl

include named in
theorem isNamed_child_under {m : Node} (hm : m ∈ n.children) :
    (m.under c).isNamed = m.isNamed := by
  obtain ⟨k, -, hk⟩ := List.mem_filterMap.mp hm
  obtain ⟨i, -, rfl⟩ := Option.map_eq_some_iff.mp hk
  exact isNamed_under (n := n.tree.node i) named

include named in
theorem namedChildren_under : (n.under c).namedChildren = n.namedChildren.map (under c) := by
  unfold namedChildren
  rw [children_under, List.filter_map]
  exact congrArg _ (List.filter_congr fun m hm => isNamed_child_under named hm)

include named in
theorem namedChildCount_under : (n.under c).namedChildCount = n.namedChildCount := by
  unfold namedChildCount
  rw [children_under, List.countP_map]
  exact List.countP_congr fun m hm => by
    rw [Function.comp_apply, isNamed_child_under named hm]

include field in
theorem childByField?_under (name : String) :
    (n.under c).childByField? name = (n.childByField? name).map (under c) := by
  unfold childByField?
  rw [Option.map_map]
  show (ask c.fieldLookup _).map _ = _
  rw [field]
  rfl

end Flags

/-! ## Every question -/

/-- **A node gives the same answers under another table.** Where the answer is a node, it
is the same node under the other table. -/
structure SameAnswers (c : Capabilities) (n : Node) : Prop where
  /-- The text. -/
  text : (n.under c).text = n.text
  /-- The point it begins at. -/
  startPoint : (n.under c).startPoint = n.startPoint
  /-- The point it ends at. -/
  endPoint : (n.under c).endPoint = n.endPoint
  /-- Whether there is an error in it. -/
  hasError : (n.under c).hasError = n.hasError
  /-- Whether the source lacks it. -/
  isMissing : (n.under c).isMissing = n.isMissing
  /-- Whether it is named. -/
  isNamed : (n.under c).isNamed = n.isNamed
  /-- The children. -/
  children : (n.under c).children = n.children.map (under c)
  /-- The named children. -/
  namedChildren : (n.under c).namedChildren = n.namedChildren.map (under c)
  /-- The number of named children. -/
  namedChildCount : (n.under c).namedChildCount = n.namedChildCount
  /-- The parent. -/
  parent : (n.under c).parent? = n.parent?.map (under c)
  /-- The next sibling. -/
  next : (n.under c).nextSibling? = n.nextSibling?.map (under c)
  /-- The previous sibling. -/
  prev : (n.under c).prevSibling? = n.prevSibling?.map (under c)
  /-- The child under a field. -/
  field : ∀ name, (n.under c).childByField? name = (n.childByField? name).map (under c)
  /-- The node and all below it. -/
  descendants : (n.under c).descendants = n.descendants.map (under c)

section Alike

variable (linked : a.Linked) (native : n.native = .grammar identity a)
  (knows : n.capabilities.parent = true) (knows' : c.parent = true)
  (missing : c.missingFlag = n.capabilities.missingFlag)
  (named : c.namedFlag = n.capabilities.namedFlag)
  (field : c.fieldLookup = n.capabilities.fieldLookup)

include linked native knows knows' missing named field

theorem sameAnswers_of_linked : SameAnswers c n where
  text := by
    rw [text_eq native, text_eq (n := n.under c) native]
    rfl
  startPoint := by
    rw [startPoint_eq native, startPoint_eq (n := n.under c) native]
    rfl
  endPoint := by
    rw [endPoint_eq native, endPoint_eq (n := n.under c) native]
    rfl
  hasError := rfl
  isMissing := isMissing_under missing
  isNamed := isNamed_under named
  children := children_under n
  namedChildren := namedChildren_under named
  namedChildCount := namedChildCount_under named
  parent := by
    rw [parent?_eq native knows, parent?_eq (n := n.under c) native knows', Option.map_map]
    rfl
  next := by
    rw [nextSibling?_eq native linked knows, nextSibling?_eq (n := n.under c) native linked knows',
      Option.map_map]
    rfl
  prev := by
    rw [prevSibling?_eq native linked knows, prevSibling?_eq (n := n.under c) native linked knows',
      Option.map_map]
    rfl
  field := childByField?_under field
  descendants := descendants_under n

theorem go?_under (step : Step) : (n.under c).go? step = (n.go? step).map (under c) := by
  have same := sameAnswers_of_linked linked native knows knows' missing named field
  cases step with
  | child k => exact child?_under n k
  | parent => exact same.parent
  | next => exact same.next
  | prev => exact same.prev
  | field name => exact same.field name

omit knows' missing named field in
/-- A step stays in the tree. -/
theorem tree_of_go? {step : Step} {m : Node} (h : n.go? step = some m) : m.tree = n.tree := by
  have inside {link : Option Nat} (h : link.map n.tree.node = some m) : m.tree = n.tree := by
    obtain ⟨i, -, rfl⟩ := Option.map_eq_some_iff.mp h
    rfl
  cases step with
  | child k => exact inside h
  | parent => exact inside h
  | next => exact inside ((nextSibling?_eq native linked knows).symm.trans h)
  | prev => exact inside ((prevSibling?_eq native linked knows).symm.trans h)
  | field name => exact inside h

/-- **A chain of steps** leads to the same node under both tables. -/
theorem goAll?_under (steps : List Step) :
    (n.under c).goAll? steps = (n.goAll? steps).map (under c) := by
  induction steps generalizing n with
  | nil => rfl
  | cons step steps ih =>
    show ((n.under c).go? step).bind (·.goAll? steps) = ((n.go? step).bind (·.goAll? steps)).map _
    rw [go?_under linked native knows knows' missing named field]
    cases hm : n.go? step with
    | none => rfl
    | some m =>
      -- The next step starts at a node of the same tree, so the tables are those of the start.
      have ht : m.tree = n.tree := tree_of_go? linked native knows hm
      have hn : m.native = n.native := congrArg Tree.native ht
      have hc : m.capabilities = n.capabilities := congrArg Tree.capabilities ht
      exact ih (hn.trans native) (hc ▸ knows) (hc ▸ missing) (hc ▸ named) (hc ▸ field)

end Alike

/-- **The table does not matter** for a tree that a grammar built. Under any two tables
that know parents and agree on flags and fields, every question has the same answer at
every node, and every chain of steps leads to the same node. The siblings are those that
the tree links natively, also where they are derived. -/
theorem sameAnswers_under {grammar : String} {script : List Call}
    (built : Arena.build grammar script = .ok a) (native : n.native = .grammar identity a)
    (knows : n.capabilities.parent = true) (knows' : c.parent = true)
    (missing : c.missingFlag = n.capabilities.missingFlag)
    (named : c.namedFlag = n.capabilities.namedFlag)
    (field : c.fieldLookup = n.capabilities.fieldLookup) :
    SameAnswers c n ∧
      (∀ steps, (n.under c).goAll? steps = (n.goAll? steps).map (under c)) ∧
      n.nextSibling? = (n.native.nextSibling? n.index).map n.tree.node ∧
      n.prevSibling? = (n.native.prevSibling? n.index).map n.tree.node := by
  have linked : a.Linked := Arena.linked_build built
  refine ⟨sameAnswers_of_linked linked native knows knows' missing named field,
    goAll?_under linked native knows knows' missing named field, ?_, ?_⟩
  · rw [native]
    exact nextSibling?_eq native linked knows
  · rw [native]
    exact prevSibling?_eq native linked knows

-- Two leaves share a span, and no sibling is native: the derived ones are told apart.
theorem sameAnswers_under_overlapping :
    ∃ a, Arena.build "test" [.enter none "r" 0, .leaf none "a" 0 5, .leaf none "b" 0 5,
        .anonymous "c" 5 11, .leave 11] = .ok a ∧
      a.prevSibling? 2 = some 1 ∧ a.nextSibling? 2 = some 3 ∧
      SameAnswers .all
        ⟨⟨.grammar 7 a, "hello\nworld", .grammar,
          { Capabilities.all with siblings := false, points := false, nativeText := false }⟩, 2⟩ :=
  ⟨_, rfl, rfl, rfl, And.left (@sameAnswers_under _ 7 _ _ "test"
    [.enter none "r" 0, .leaf none "a" 0 5, .leaf none "b" 0 5, .anonymous "c" 5 11, .leave 11]
    rfl rfl rfl rfl rfl rfl rfl)⟩

end Node

end TreeBroker
