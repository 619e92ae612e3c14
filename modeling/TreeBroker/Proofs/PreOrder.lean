import Mathlib.Data.List.Sort
import Mathlib.Order.Interval.Set.Nat
import TreeBroker.Proofs.GrammarNodes

/-!
# All nodes below a node

The nodes below a node are collected by a loop over a stack: the top is visited, and its
children take its place. Nothing in the loop says that it ends, or that it comes back to
the second child when it is done with the first. This module says both, for the trees
that grammars build, and then says which nodes those are.

A run of the loop that comes to an end is `Node.Visits`. It speaks of stacks alone, and
what a stack visits is what its nodes visit one after another. So all that is left is a
bound on the depth, and the numbering gives one: a child has a larger index than its
parent (`Node.visits_descendants`).

That the indices of the nodes visited have no gaps is a matter of the arena. A subtree is
an interval of indices, the subtrees of siblings are disjoint and in the order of the
siblings, and together with their parent they make up the interval of the parent
(`Arena.Linked.flatMap_subtrees`). This is where the order in which the builder numbers
nodes and the order in which the loop visits them turn out to be the same.
-/

namespace TreeBroker

/-! ## Subtrees as intervals -/

namespace Arena

variable {a : Arena} {i j c d : Nat}

/-- **The size of a subtree**: how many nodes are at or below its root. -/
noncomputable def subtreeSize (a : Arena) (i : Nat) : Nat := {j | a.Below i j}.ncard

namespace Linked

variable (h : a.Linked)
include h

theorem below_iff (hi : i < a.size) : a.Below i j ↔ i ≤ j ∧ j < i + a.subtreeSize i := by
  obtain ⟨n, hin, -, interval⟩ := h.below_interval hi
  have size : a.subtreeSize i = n - i := by
    rw [subtreeSize, show {j | a.Below i j} = Set.Ico i n from Set.ext interval,
      Set.ncard_Ico_nat]
  rw [interval, size, Nat.add_sub_cancel' (Nat.le_of_lt hin)]

theorem subtreeSize_pos (hi : i < a.size) : 0 < a.subtreeSize i := by
  have own : i < i + a.subtreeSize i := ((h.below_iff hi).mp .refl).2
  omega

/-- Every node is at or below the first. -/
theorem below_root (hj : j < a.size) : a.Below 0 j := by
  induction j using Nat.strong_induction_on with
  | h j ih =>
    obtain rfl | pos := Nat.eq_zero_or_pos j
    · exact .refl
    · obtain ⟨p, hp⟩ := h.exists_parent pos hj
      have lt : p < j := h.parent_lt hp
      exact (ih p lt (Nat.lt_trans lt hj)).tail hp

theorem subtreeSize_root (pos : 0 < a.size) : a.subtreeSize 0 = a.size := by
  have all : {j | a.Below 0 j} = Set.Ico 0 a.size := by
    refine Set.ext fun j => ⟨fun below => ?_, fun hj => h.below_root hj.2⟩
    exact ⟨Nat.zero_le j, lt_size_of_below pos below⟩
  rw [subtreeSize, all, Set.ncard_Ico_nat, Nat.sub_zero]

/-- **The subtree of a sibling ends** before the next one begins. -/
theorem lt_of_siblings (hc : a.parent? c = some i) (hd : a.parent? d = some i) (lt : c < d)
    (below : a.Below c j) : j < d := by
  by_contra hj
  -- Otherwise the later sibling is below the earlier one, and so is their parent.
  obtain heq | ⟨p, hcp, hp⟩ := (h.below_of_le below (Nat.le_of_lt lt) (Nat.not_lt.mp hj)).cases_tail
  · exact absurd heq.symm (Nat.ne_of_lt lt)
  · rw [hd] at hp
    cases hp
    exact absurd (h.le_of_below hcp) (Nat.not_le.mpr (h.parent_lt hc))

/-- **The subtrees of the children**, one after another, are what is below a node. -/
theorem flatMap_subtrees (hi : i < a.size) :
    (a.children i).flatMap (fun c => List.range' c (a.subtreeSize c)) =
      List.range' (i + 1) (a.subtreeSize i - 1) := by
  have mem {c : Nat} (hc : a.parent? c = some i) (x : Nat) :
      x ∈ List.range' c (a.subtreeSize c) ↔ a.Below c x := by
    rw [List.mem_range'_1, h.below_iff (lt_size_of_parent? hc)]
  refine List.Pairwise.eq_of_mem_iff ?_ (List.pairwise_lt_range' 1) fun x => ?_
  · refine List.pairwise_flatMap.mpr ⟨fun c _ => List.pairwise_lt_range' 1, ?_⟩
    refine List.Pairwise.imp_of_mem ?_ (h.pairwise_children i)
    intro c d hc hd lt x hx y hy
    rw [h.mem_children] at hc hd
    have before : x < d := h.lt_of_siblings hc hd lt ((mem hc x).mp hx)
    exact Nat.lt_of_lt_of_le before (h.le_of_below ((mem hd y).mp hy))
  · have pos : 0 < a.subtreeSize i := h.subtreeSize_pos hi
    rw [List.mem_flatMap, List.mem_range'_1]
    constructor
    · rintro ⟨c, hc, hx⟩
      rw [h.mem_children] at hc
      have below : a.Below c x := (mem hc x).mp hx
      have := h.parent_lt hc
      have := h.le_of_below below
      have := (h.below_iff hi).mp (.head hc below)
      omega
    · rintro ⟨lt, le⟩
      have below : a.Below i x := (h.below_iff hi).mpr ⟨by omega, by omega⟩
      obtain rfl | ⟨c, hc, below⟩ := below.cases_head
      · omega
      · exact ⟨c, h.mem_children.mpr hc, (mem hc x).mpr below⟩

end Linked

end Arena

/-! ## The loop -/

namespace Node

/-- **What is visited from a stack** by a loop that comes to its end: the top comes first,
and its children take its place. -/
inductive Visits : List Node → List Node → Prop
  /-- The stack is empty. -/
  | done : Visits [] []
  /-- The top is visited. -/
  | next {n : Node} {stack visited : List Node} (rest : Visits (n.children ++ stack) visited) :
      Visits (n :: stack) (n :: visited)

namespace Visits

variable {stack stack' visited visited' : List Node}

theorem unique (h : Visits stack visited) (h' : Visits stack visited') : visited' = visited := by
  induction h generalizing visited' with
  | done =>
    cases h'
    rfl
  | next _ ih =>
    cases h' with
    | next rest' => rw [ih rest']

/-- What is visited from a stack above another comes first. -/
theorem append (h : Visits stack visited) (h' : Visits stack' visited') :
    Visits (stack ++ stack') (visited ++ visited') := by
  induction h with
  | done => exact h'
  | next _ ih =>
    rw [List.append_assoc] at ih
    exact .next ih

theorem flatMap {nodes : List Node} {f : Node → List Node}
    (h : ∀ n ∈ nodes, Visits [n] (f n)) : Visits nodes (nodes.flatMap f) := by
  induction nodes with
  | nil => exact .done
  | cons n nodes ih =>
    obtain ⟨first, rest⟩ := List.forall_mem_cons.mp h
    exact first.append (ih rest)

/-- **A walk that has steps enough** is the loop. -/
theorem walk_eq (h : Visits stack visited) {steps : Nat} (enough : visited.length ≤ steps) :
    walk steps stack = visited := by
  induction h generalizing steps with
  | done => cases steps <;> rfl
  | next _ ih =>
    cases steps with
    | zero => cases enough
    | succ steps => rw [walk, ih (Nat.le_of_succ_le_succ enough)]

end Visits

/-- A node and all below it, each before its children, down to a depth. -/
def preOrder : (depth : Nat) → Node → List Node
  | 0, n => [n]
  | depth + 1, n => n :: n.children.flatMap (preOrder depth)

/-- The weight of a node counts just these. -/
theorem length_preOrder (depth : Nat) (n : Node) : (preOrder depth n).length = weight depth n := by
  induction depth generalizing n with
  | zero => rfl
  | succ depth ih =>
    show (n :: n.children.flatMap (preOrder depth)).length =
      1 + (n.children.map (weight depth)).sum
    rw [List.length_cons, List.length_flatMap, funext ih, Nat.add_comm]

variable {n : Node} {identity : Nat} {a : Arena}

theorem exists_of_mem_children (native : n.native = .grammar identity a) {m : Node}
    (hm : m ∈ n.children) : ∃ c ∈ a.children n.index, m = n.tree.node c := by
  rw [children_eq native] at hm
  obtain ⟨c, hc, rfl⟩ := List.mem_map.mp hm
  exact ⟨c, hc, rfl⟩

section Linked

variable (linked : a.Linked)
include linked

/-- **The loop ends**: no path downwards is longer than what is left of the arena. -/
theorem visits_preOrder {depth : Nat} (native : n.native = .grammar identity a)
    (deep : a.size ≤ n.index + depth) : Visits [n] (preOrder depth n) := by
  induction depth generalizing n with
  | zero =>
    refine .next ?_
    have none : a.children n.index = [] := by
      unfold Arena.children Arena.get?
      rw [List.getElem?_eq_none (show a.entries.length ≤ n.index from deep)]
      rfl
    rw [children_eq native, none]
    exact .done
  | succ depth ih =>
    refine .next ?_
    rw [List.append_nil]
    refine .flatMap fun m hm => ?_
    obtain ⟨c, hc, rfl⟩ := exists_of_mem_children native hm
    have lt : n.index < c := linked.parent_lt (linked.mem_children.mp hc)
    have deeper : a.size ≤ c + depth := by omega
    exact ih (n := n.tree.node c) native deeper

variable (native : n.native = .grammar identity a)
include native

/-- **All nodes below a node** are what the loop visits. -/
theorem visits_descendants : Visits [n] n.descendants := by
  have ends : Visits [n] (preOrder n.native.size n) := by
    refine visits_preOrder linked native ?_
    rw [native]
    exact Nat.le_add_left a.size n.index
  have same : n.descendants = preOrder n.native.size n :=
    ends.walk_eq (Nat.le_of_eq (length_preOrder _ n))
  rw [same]
  exact ends

theorem descendants_eq_cons : n.descendants = n :: n.children.flatMap descendants := by
  have below : Visits (n.children ++ []) (n.children.flatMap descendants) := by
    rw [List.append_nil]
    refine .flatMap fun m hm => ?_
    obtain ⟨c, -, rfl⟩ := exists_of_mem_children native hm
    exact visits_descendants (n := n.tree.node c) linked native
  exact (Visits.next below).unique (visits_descendants linked native)

/-- **The nodes below a node are an interval**, in the order of their indices. -/
theorem descendants_eq_range' (inside : n.index < a.size) :
    n.descendants = (List.range' n.index (a.subtreeSize n.index)).map n.tree.node := by
  -- Children have larger indices, so what is behind the node gets less.
  induction left : a.size - n.index using Nat.strong_induction_on generalizing n with
  | h left ih =>
    have below : ∀ c ∈ a.children n.index, (n.tree.node c).descendants =
        (List.range' c (a.subtreeSize c)).map n.tree.node := by
      intro c hc
      have hp : a.parent? c = some n.index := linked.mem_children.mp hc
      have hcs : c < a.size := Arena.lt_size_of_parent? hp
      have lt : n.index < c := linked.parent_lt hp
      exact ih (a.size - c) (by omega) (n := n.tree.node c) native hcs rfl
    obtain ⟨s, hs⟩ := Nat.exists_eq_add_of_lt (linked.subtreeSize_pos inside)
    have parts := linked.flatMap_subtrees inside
    rw [hs, Nat.zero_add, Nat.add_sub_cancel] at parts
    calc
      n.descendants = n :: (a.children n.index).flatMap fun c => (n.tree.node c).descendants := by
        rw [descendants_eq_cons linked native, children_eq native, List.flatMap_map]
      _ = n :: (List.range' (n.index + 1) s).map n.tree.node := by
        rw [List.flatMap_congr below, ← List.map_flatMap, parts]
      _ = _ := by
        rw [hs, Nat.zero_add, List.range'_succ]
        rfl

end Linked

/-- **The nodes below a node, in pre-order**, for a tree that a grammar built and under any
table. The loop that collects them comes to its end. What it collects is the node, and
then what it collects for each of the children. These are the nodes with the indices from
that of the node on, as many as the subtree has nodes; for the root they are all nodes of
the tree. -/
theorem descendants_preOrder {grammar : String} {script : List Call}
    (built : Arena.build grammar script = .ok a) (native : n.native = .grammar identity a)
    (inside : n.index < a.size) :
    Visits [n] n.descendants ∧
    n.descendants = n :: n.children.flatMap descendants ∧
    n.descendants = (List.range' n.index (a.subtreeSize n.index)).map n.tree.node ∧
    (n.tree.root? = some n → n.descendants = (List.range a.size).map n.tree.node) := by
  have linked : a.Linked := Arena.linked_build built
  have interval := descendants_eq_range' linked native inside
  refine ⟨visits_descendants linked native, descendants_eq_cons linked native, interval,
    fun root => ?_⟩
  have first : n.index = 0 := by
    obtain ⟨i, hi, hn⟩ := Option.map_eq_some_iff.mp root
    rw [← congrArg Node.index hn]
    unfold NativeTree.root? at hi
    split at hi
    · cases hi
    · exact (Option.some.inj hi).symm
  rw [interval, first, linked.subtreeSize_root (first ▸ inside), List.range_eq_range']

/-- A tree in which the first of two siblings has children. -/
def branching : List Call :=
  [.enter none "r" 0, .enter none "a" 0, .leaf none "b" 0 1, .anonymous "," 1 2, .leave 2,
    .leaf none "c" 2 3, .leave 3]

/-- A tree under a table that knows nothing of parents, siblings and flags. -/
def branchingTree (a : Arena) : Tree := ⟨.grammar 7 a, "a,c", .grammar, .ofManifest .minimal⟩

-- The second sibling comes after all that is below the first.
theorem descendants_preOrder_branching :
    ∃ a, Arena.build "test" branching = .ok a ∧
      ((branchingTree a).node 0).descendants.map index = [0, 1, 2, 3, 4] ∧
      ((branchingTree a).node 1).descendants.map index = List.range' 1 (a.subtreeSize 1) := by
  obtain ⟨a, built⟩ : ∃ a, Arena.build "test" branching = .ok a := ⟨_, rfl⟩
  have order (i : Nat) (hi : i < a.size) :=
    descendants_preOrder (n := (branchingTree a).node i) built rfl hi
  cases built
  refine ⟨_, rfl, ?_, ?_⟩
  · rw [(order 0 (by decide)).2.2.2 rfl]
    rfl
  · rw [(order 1 (by decide)).2.2.1, List.map_map]
    exact List.map_id _

end Node

end TreeBroker
