import Mathlib.Data.List.Chain
import Mathlib.Data.Nat.Find
import Mathlib.Logic.Relation
import TreeBroker.Proofs.BuilderRuns

/-!
# The links of an arena

An arena keeps two kinds of links, from a node to its parent and from a node to its
children, and it searches the children of a parent whenever it is asked for a sibling.
The two kinds are written at different times: a node knows its parent when it is created,
and a parent learns of a child only when the child comes. That they still say the same,
and that what they say is a tree in pre-order, comes down to four laws (`Arena.Linked`).
The last of them is the one that makes the numbering a pre-order: the parent of a node is
at or above the node just before it. So a subtree, once left, is never entered again, and
its nodes are an interval.

The laws hold of a builder at any time, as long as no call was at fault, and not only at
the end. What carries them from call to call is that the open nodes are a path upwards,
and that the path starts at or above the last node (`Builder.Linked`).
-/

namespace TreeBroker

namespace Arena

variable {a a' : Arena} {i j k p : Nat}

/-- **At or below a node**: what is reached from it by going to children. -/
def Below (a : Arena) : Nat → Nat → Prop :=
  Relation.ReflTransGen fun i j => a.parent? j = some i

/-- **An arena whose links are those of a tree in pre-order.** -/
structure Linked (a : Arena) : Prop where
  /-- A parent comes before its children. -/
  parent_lt : ∀ {i j}, a.parent? j = some i → i < j
  /-- Every node but the first has a parent. -/
  exists_parent : ∀ {j}, 0 < j → j < a.size → ∃ i, a.parent? j = some i
  /-- The children of a node are those whose parent it is, in order. -/
  children_eq : ∀ i, a.children i = (List.range a.size).filter fun j => a.parent? j = some i
  /-- The parent of a node is at or above the node before it. -/
  below_of_parent? : ∀ {i j}, a.parent? (j + 1) = some i → a.Below i j

theorem lt_size_of_parent? (h : a.parent? j = some i) : j < a.size := by
  obtain ⟨e, he, -⟩ := Option.bind_eq_some_iff.mp h
  exact (List.getElem?_eq_some_iff.mp he).1

theorem lt_size_of_below (hi : i < a.size) (below : a.Below i j) : j < a.size := by
  cases below with
  | refl => exact hi
  | tail _ hp => exact lt_size_of_parent? hp

namespace Linked

variable (h : a.Linked)
include h

/-! ## Parents and children -/

theorem mem_children : j ∈ a.children i ↔ a.parent? j = some i := by
  rw [h.children_eq, List.mem_filter, List.mem_range, decide_eq_true_iff]
  exact and_iff_right_of_imp lt_size_of_parent?

theorem pairwise_children (i : Nat) : (a.children i).Pairwise (· < ·) := by
  rw [h.children_eq]
  exact List.pairwise_lt_range.filter _

theorem nodup_children (i : Nat) : (a.children i).Nodup :=
  (h.pairwise_children i).imp Nat.ne_of_lt

/-! ## Subtrees -/

theorem le_of_below (below : a.Below i j) : i ≤ j := by
  induction below with
  | refl => exact Nat.le_refl i
  | tail _ hp ih => exact Nat.le_trans ih (Nat.le_of_lt (h.parent_lt hp))

/-- **Subtrees have no gaps.** -/
theorem below_of_le (below : a.Below i k) (hij : i ≤ j) (hjk : j ≤ k) : a.Below i j := by
  induction hjk using Nat.decreasingInduction with
  | self => exact below
  | of_succ j _ ih =>
    -- From the node after `j`, one step up leads to a node at or above `j`.
    obtain heq | ⟨p, hip, hp⟩ := (ih (Nat.le_succ_of_le hij)).cases_tail
    · exact absurd hij (by omega)
    · exact hip.trans (h.below_of_parent? hp)

/-- **The subtree of a node** is an interval that starts with the node. -/
theorem below_interval (hi : i < a.size) :
    ∃ n, i < n ∧ n ≤ a.size ∧ ∀ j, a.Below i j ↔ i ≤ j ∧ j < n := by
  classical
  have outside : i ≤ a.size ∧ ¬ a.Below i a.size :=
    ⟨Nat.le_of_lt hi, fun below => Nat.lt_irrefl _ (lt_size_of_below hi below)⟩
  have out : ∃ n, i ≤ n ∧ ¬ a.Below i n := ⟨a.size, outside⟩
  obtain ⟨le, notBelow⟩ := Nat.find_spec out
  refine ⟨Nat.find out, Nat.lt_of_le_of_ne le ?_, Nat.find_min' out outside, fun j => ⟨?_, ?_⟩⟩
  · intro heq
    exact notBelow (heq ▸ .refl)
  · intro below
    exact ⟨h.le_of_below below, Nat.lt_of_not_le fun hn => notBelow (h.below_of_le below le hn)⟩
  · rintro ⟨hij, hjn⟩
    by_contra below
    exact Nat.find_min out hjn ⟨hij, below⟩

/-! ## Siblings -/

theorem position?_children (hk : (a.children p)[k]? = some i) :
    position? (a.children p) i = some k := by
  obtain ⟨hlt, rfl⟩ := List.getElem?_eq_some_iff.mp hk
  refine List.findIdx?_eq_some_iff_getElem.mpr ⟨hlt, by simp, fun l hl => ?_⟩
  simpa using List.pairwise_iff_getElem.mp (h.nodup_children p) l k _ hlt hl

theorem nextSibling?_child (hk : (a.children p)[k]? = some i) :
    a.nextSibling? i = (a.children p)[k + 1]? := by
  have hp : a.parent? i = some p := h.mem_children.mp (List.mem_of_getElem? hk)
  simp [nextSibling?, hp, h.position?_children hk]

theorem prevSibling?_child (hk : (a.children p)[k]? = some i) :
    a.prevSibling? i = match k with
      | 0 => none
      | k + 1 => (a.children p)[k]? := by
  have hp : a.parent? i = some p := h.mem_children.mp (List.mem_of_getElem? hk)
  cases k <;> simp [prevSibling?, hp, h.position?_children hk]

/-- **Next and previous** are inverse to each other. -/
theorem nextSibling?_eq_some : a.nextSibling? i = some j ↔ a.prevSibling? j = some i := by
  constructor
  · intro hj
    obtain ⟨p, hp, -⟩ := Option.bind_eq_some_iff.mp hj
    obtain ⟨k, hk⟩ := List.mem_iff_getElem?.mp (h.mem_children.mpr hp)
    rw [h.nextSibling?_child hk] at hj
    rw [h.prevSibling?_child hj]
    exact hk
  · intro hi
    obtain ⟨p, hp, -⟩ := Option.bind_eq_some_iff.mp hi
    obtain ⟨k, hk⟩ := List.mem_iff_getElem?.mp (h.mem_children.mpr hp)
    rw [h.prevSibling?_child hk] at hi
    cases k with
    | zero => cases hi
    | succ k =>
      rw [h.nextSibling?_child hi]
      exact hk

end Linked

/-- **A walk from sibling to sibling**, to the last one. -/
inductive Walks (a : Arena) : Option Nat → List Nat → Prop
  /-- There is no next sibling. -/
  | done : Walks a none []
  /-- A sibling is visited before those that follow it. -/
  | next {i : Nat} {rest : List Nat} (walk : Walks a (a.nextSibling? i) rest) :
      Walks a (some i) (i :: rest)

/-- **A walk from the first child** visits the children, and no others. -/
theorem Linked.walks (h : a.Linked) (i : Nat) : a.Walks (a.child? i 0) (a.children i) := by
  suffices main : ∀ rest seen, a.children i = seen ++ rest → a.Walks rest.head? rest by
    rw [child?, ← List.head?_eq_getElem?]
    exact main (a.children i) [] rfl
  intro rest
  induction rest with
  | nil => exact fun _ _ => .done
  | cons j rest ih =>
    intro seen hs
    have hj : (a.children i)[seen.length]? = some j := by simp [hs]
    have next : (a.children i)[seen.length + 1]? = rest.head? := by
      rw [hs, List.getElem?_append_right (Nat.le_add_right _ 1), Nat.add_sub_cancel_left,
        List.getElem?_cons_succ, List.head?_eq_getElem?]
    refine .next ?_
    rw [h.nextSibling?_child hj, next]
    exact ih (seen ++ [j]) (by simp [hs])

end Arena

/-! ## What the links of an arena depend on -/

/-- The links of an entry. -/
def Entry.links (e : Entry) : Option Nat × List Nat := (e.parent, e.children)

namespace Arena

variable {a a' : Arena} {i j : Nat}

section Congr

variable (links : a'.entries.map Entry.links = a.entries.map Entry.links)
include links

theorem size_congr : a'.size = a.size := by
  unfold size
  simpa using congrArg List.length links

theorem parent?_congr : a'.parent? = a.parent? := by
  have view (a : Arena) (j : Nat) :
      a.parent? j = ((a.entries.map Entry.links)[j]?).bind (·.1) := by
    rw [List.getElem?_map]
    cases h : a.entries[j]? <;> simp [parent?, get?, Entry.links, h]
  funext j
  rw [view, view, links]

theorem children_congr : a'.children = a.children := by
  have view (a : Arena) (i : Nat) :
      a.children i = (((a.entries.map Entry.links)[i]?).map (·.2)).getD [] := by
    rw [List.getElem?_map]
    cases h : a.entries[i]? <;> simp [children, get?, Entry.links, h]
  funext i
  rw [view, view, links]

theorem below_congr : a'.Below = a.Below := by
  unfold Below
  rw [parent?_congr links]

theorem Linked.congr (h : a.Linked) : a'.Linked where
  parent_lt := by
    rw [parent?_congr links]
    exact h.parent_lt
  exists_parent := by
    rw [parent?_congr links, size_congr links]
    exact h.exists_parent
  children_eq := by
    rw [parent?_congr links, size_congr links, children_congr links]
    exact h.children_eq
  below_of_parent? := by
    rw [parent?_congr links, below_congr links]
    exact h.below_of_parent?

end Congr

/-! ## One more node -/

/-- **One more node** in an arena, behind all others and last below its parent. -/
structure Grows (a a' : Arena) (parent : Option Nat) : Prop where
  /-- The new node is the last one. -/
  size : a'.size = a.size + 1
  /-- It knows its parent. -/
  parent? : ∀ j, a'.parent? j = if j = a.size then parent else a.parent? j
  /-- Its parent knows it. -/
  children : ∀ i, a'.children i = a.children i ++ if parent = some i then [a.size] else []

namespace Grows

variable {parent : Option Nat} (g : a.Grows a' parent)
include g

theorem parent?_last : a'.parent? a.size = parent := by
  rw [g.parent?, if_pos rfl]

theorem parent?_of_some (h : a.parent? j = some i) : a'.parent? j = some i := by
  rw [g.parent?, if_neg (Nat.ne_of_lt (lt_size_of_parent? h)), h]

theorem below (h : a.Below i j) : a'.Below i j :=
  Relation.ReflTransGen.mono (fun _ _ => g.parent?_of_some) _ _ h

theorem children_eq (h : a.Linked) (i : Nat) :
    a'.children i = (List.range a'.size).filter fun j => a'.parent? j = some i := by
  rw [g.children, h.children_eq, g.size, List.range_succ, List.filter_append]
  congr 1
  · refine List.filter_congr fun j hj => ?_
    rw [g.parent?, if_neg (Nat.ne_of_lt (List.mem_range.mp hj))]
  · rw [List.filter_singleton, g.parent?_last]
    simp

/-- **A tree in pre-order stays one** if the new node comes below one that is at or above
the last. -/
theorem linked (h : a.Linked) (inside : 0 < a.size → ∃ i, parent = some i)
    (above : ∀ {i}, parent = some i → i < a.size ∧ a.Below i (a.size - 1)) : a'.Linked where
  parent_lt := by
    intro i j hj
    rw [g.parent?] at hj
    split at hj
    · next last => exact last ▸ (above hj).1
    · exact h.parent_lt hj
  exists_parent := by
    intro j hj hlt
    rw [g.parent?]
    rw [g.size] at hlt
    split
    · next last => exact inside (last ▸ hj)
    · exact h.exists_parent hj (by omega)
  children_eq := g.children_eq h
  below_of_parent? := by
    intro i j hj
    rw [g.parent?] at hj
    refine g.below ?_
    split at hj
    · next last =>
      have below := (above hj).2
      rwa [← last, Nat.add_sub_cancel] at below
    · exact h.below_of_parent? hj

end Grows

end Arena

/-! ## The links of a builder -/

namespace Builder

variable {b : Builder} {c : Call} {e : Entry}

/-- The arena of a builder at work. -/
def arena (b : Builder) : Arena := ⟨b.entries⟩

/-- **A builder whose links are in order.** -/
structure Linked (b : Builder) : Prop where
  /-- The links so far are those of a tree. -/
  arena : b.arena.Linked
  /-- The open nodes are a path, each the parent of the one before. -/
  path : b.stack.IsChain fun j i => b.arena.parent? j = some i
  /-- The last node is at or below the innermost open one. -/
  last : ∀ {i}, b.stack.head? = some i → b.arena.Below i (b.arena.size - 1)

theorem get?_creating (he : c.entry? = some e) (new : e.parent = none) (b : Builder) (j : Nat) :
    (b.step c).arena.get? j =
      if j = b.arena.size then some { e with parent := b.stack.head? }
      else (b.arena.get? j).map fun x => if b.stack.head? = some j then b.adopt x else x := by
  rw [step_creating he new]
  show (b.touched b.adopt ++ [{ e with parent := b.stack.head? }])[j]? = _
  rw [List.getElem?_append, length_touched, getElem?_touched]
  unfold Arena.size Arena.get? arena
  rcases Nat.lt_trichotomy j b.entries.length with hj | rfl | hj
  · rw [if_pos hj, if_neg (Nat.ne_of_lt hj)]
  · simp
  · rw [if_neg (Nat.lt_asymm hj), if_neg (Nat.ne_of_gt hj),
      List.getElem?_eq_none (Nat.le_of_lt hj), List.getElem?_eq_none (by simp; omega)]
    rfl

/-- **Creating a node** is one more node, below the innermost open one. -/
theorem grows_step (he : c.entry? = some e) (new : e.parent = none) (bare : e.children = [])
    (lt : ∀ i ∈ b.stack, i < b.arena.size) :
    b.arena.Grows (b.step c).arena b.stack.head? where
  size := by
    rw [step_creating he new]
    show (b.touched b.adopt ++ [{ e with parent := b.stack.head? }]).length = _
    rw [List.length_append, length_touched]
    rfl
  parent? := by
    intro j
    unfold Arena.parent?
    rw [get?_creating he new]
    split
    · rfl
    · cases b.arena.get? j with
      | none => rfl
      | some x =>
        show (if b.stack.head? = some j then b.adopt x else x).parent = x.parent
        split <;> rfl
  children := by
    intro i
    unfold Arena.children
    rw [get?_creating he new]
    by_cases hs : b.stack.head? = some i
    · have hi : i < b.arena.size := lt i (List.mem_of_mem_head? hs)
      have hx : b.arena.get? i = some b.arena.entries[i] := List.getElem?_eq_getElem hi
      rw [if_neg (Nat.ne_of_lt hi), if_pos hs, hx]
      simp only [Option.map_some, Option.getD_some, if_pos hs]
      rfl
    · rw [if_neg hs, List.append_nil]
      simp only [if_neg hs, Option.map_id']
      split
      · next hi =>
        rw [show b.arena.get? i = none from List.getElem?_eq_none (Nat.le_of_eq hi.symm)]
        exact bare
      · rfl

namespace Linked

variable (h : b.Linked)
include h

/-- **Leaving a node** changes no links, and the path goes on above the node. -/
theorem leave (stop : Nat) : (b.step (.leave stop)).Linked := by
  have links : (b.step (.leave stop)).arena.entries.map Entry.links =
      b.arena.entries.map Entry.links := map_step_leave (fun _ _ => rfl) stop b
  have hs : (b.step (.leave stop)).stack = b.stack.drop 1 := by rw [step_leave]
  refine ⟨h.arena.congr links, ?_, ?_⟩
  · rw [hs, Arena.parent?_congr links]
    exact h.path.drop 1
  · rw [hs, Arena.below_congr links, Arena.size_congr links]
    intro i hi
    cases hst : b.stack with
    | nil => simp [hst] at hi
    | cons top rest =>
      have path := h.path
      rw [hst, List.isChain_cons] at path
      rw [hst] at hi
      have below : b.arena.Below top (b.arena.size - 1) := h.last (by rw [hst]; rfl)
      exact .head (path.1 i hi) below

/-- **Creating a node** makes it the last one, and a child of the head of the path. -/
theorem create (he : c.entry? = some e) (new : e.parent = none) (bare : e.children = [])
    (lt : ∀ i ∈ b.stack, i < b.arena.size) (hp : (b.step c).problem = none) :
    (b.step c).Linked := by
  have g : b.arena.Grows (b.step c).arena b.stack.head? := grows_step he new bare lt
  have stack : (b.step c).stack = if c.opens then b.arena.size :: b.stack else b.stack := by
    rw [step_creating he new]
    rfl
  have path : b.stack.IsChain fun j i => (b.step c).arena.parent? j = some i :=
    h.path.imp fun _ _ => g.parent?_of_some
  refine ⟨g.linked h.arena (fun hn => ?_) fun hi => ?_, ?_, fun hi => ?_⟩
  · have hs : b.stack ≠ [] := stack_ne_nil_of_problem he new hp (List.ne_nil_of_length_pos hn)
    exact ⟨_, List.head?_eq_some_head hs⟩
  · exact ⟨lt _ (List.mem_of_mem_head? hi), h.last hi⟩
  · rw [stack]
    split
    · refine List.isChain_cons.mpr ⟨fun i hi => ?_, path⟩
      rw [g.parent?_last]
      exact hi
    · exact path
  · rw [g.size, Nat.add_sub_cancel]
    rw [stack] at hi
    split at hi
    · cases hi
      exact .refl
    · exact .single (g.parent?_last.trans hi)

end Linked

theorem linked_start : ({} : Builder).Linked :=
  ⟨⟨nofun, nofun, fun _ => rfl, nofun⟩, .nil, nofun⟩

/-- **The links of a builder are in order** if no call was at fault. -/
theorem linked_run {script : List Call} (h : (run script).problem = none) :
    (run script).Linked := by
  induction script using List.reverseRecOn with
  | nil => exact linked_start
  | append_singleton script c ih =>
    rw [run_concat] at h ⊢
    have linked : (run script).Linked := ih (problem_of_step h)
    obtain ⟨stop, rfl⟩ | ⟨e, he, new, bare⟩ := c.leave_or_entry?
    · exact linked.leave stop
    · exact linked.create he new bare (stack_lt_run script) h

end Builder

/-! ## Finished arenas -/

namespace Arena

variable {a : Arena} {grammar : String} {script : List Call}

/-- **The links of a finished arena are in order.** -/
theorem linked_build (h : build grammar script = .ok a) : a.Linked := by
  obtain ⟨problem, -, rfl⟩ := Builder.finish_eq_ok.mp h
  exact (Builder.linked_run problem).arena.congr (Builder.map_raiseAll (fun _ => rfl) _)

/-- **The tree of a script.** -/
structure IsTreeOf (a : Arena) (script : List Call) : Prop where
  /-- Nodes are numbered as the calls that create them. -/
  numbered : a.entries.map Entry.bare = (script.filterMap Call.entry?).map Entry.bare
  /-- The first node has no parent. -/
  root : a.parent? 0 = none
  /-- Every other node has a parent before it. -/
  parent : ∀ i, 0 < i → i < a.size → ∃ p, p < i ∧ a.parent? i = some p
  /-- Children are in order, each there once. -/
  ordered : ∀ i, (a.children i).Pairwise (· < ·)
  /-- Children are those whose parent the node is. -/
  children : ∀ i j, j ∈ a.children i ↔ a.parent? j = some i
  /-- A subtree is an interval that starts with its node. -/
  subtree : ∀ i, i < a.size → ∃ n, i < n ∧ n ≤ a.size ∧ ∀ j, a.Below i j ↔ i ≤ j ∧ j < n
  /-- Next and previous siblings are inverse to each other. -/
  siblings : ∀ i j, a.nextSibling? i = some j ↔ a.prevSibling? j = some i
  /-- A child at any position has the node for its parent. -/
  child : ∀ i k, k < (a.children i).length → ∃ j, a.child? i k = some j ∧ a.parent? j = some i
  /-- From the first child on, each next sibling is the next child, to the last one. -/
  walk : ∀ i, a.Walks (a.child? i 0) (a.children i)

/-- **What a script builds is its tree.** -/
theorem isTreeOf_build (h : build grammar script = .ok a) : a.IsTreeOf script := by
  have linked : a.Linked := linked_build h
  refine ⟨map_bare_build h, ?_, fun i pos lt => ?_, linked.pairwise_children,
    fun _ _ => linked.mem_children, fun _ => linked.below_interval,
    fun _ _ => linked.nextSibling?_eq_some, fun i k hk => ?_, linked.walks⟩
  · by_contra root
    obtain ⟨p, hp⟩ := Option.ne_none_iff_exists'.mp root
    exact Nat.not_lt_zero p (linked.parent_lt hp)
  · obtain ⟨p, hp⟩ := linked.exists_parent pos lt
    exact ⟨p, linked.parent_lt hp, hp⟩
  · exact ⟨_, List.getElem?_eq_getElem hk, linked.mem_children.mp (List.getElem_mem hk)⟩

theorem isTreeOf_build_assignment :
    ∃ a, build "assign" [.enter none "program" 0, .enter none "assignment" 0,
        .leaf (some "name") "identifier" 0 1, .anonymous "=" 2 3,
        .leaf (some "value") "number" 4 6, .leave 6, .leave 6] = .ok a ∧
      a.children 1 = [2, 3, 4] ∧
      a.IsTreeOf [.enter none "program" 0, .enter none "assignment" 0,
        .leaf (some "name") "identifier" 0 1, .anonymous "=" 2 3,
        .leaf (some "value") "number" 4 6, .leave 6, .leave 6] :=
  ⟨_, rfl, rfl, @isTreeOf_build _ "assign" _ rfl⟩

end Arena

end TreeBroker
