import TreeBroker.Proofs.BuilderRuns

/-!
# Forests

A script is a tree written out flat, and an arena is the same tree laid out flat. Between
the two stands the tree itself, and it is easier to speak of than either: of a node, its
children and what comes after it. A `Forest` is trees one after another in that form. It
has a script (`Forest.script`), and it has a layout: its nodes in pre-order from a given
index on, below a given parent (`Forest.entries`).

What a builder does with the script of a forest is then said in one step. Inside an open
node, it adds the layout and makes the roots children of that node
(`Forest.foldl_script`). And the last pass, which makes errors known to the ancestors,
turns a layout in which a node has an error only if it is one into the layout in which a
node has an error if one is anywhere below it (`Forest.foldl_raise`). So the arena of a
tree's script is the layout of the tree (`Forest.build_node`), and a question about such
an arena is a question about the forest (`Forest.Placed`).
-/

namespace TreeBroker

/-! ## Entries changed in place -/

namespace Entry

variable {es fs : List Entry} {e : Entry} {f : Entry → Entry} {p : Nat} {b : Bool}

theorem modify_left (h : p < es.length) (fs : List Entry) (f : Entry → Entry) :
    (es ++ fs).modify p f = es.modify p f ++ fs := by
  induction es generalizing p with
  | nil => exact absurd h (Nat.not_lt_zero p)
  | cons e es ih =>
    cases p with
    | zero => rfl
    | succ p =>
      rw [List.cons_append, List.modify_succ_cons, List.modify_succ_cons, List.cons_append,
        ih (Nat.lt_of_succ_lt_succ h)]

theorem modify_middle (h : es.length = p) (e : Entry) (fs : List Entry) (f : Entry → Entry) :
    (es ++ e :: fs).modify p f = es ++ f e :: fs := by
  induction es generalizing p with
  | nil =>
    subst h
    rfl
  | cons e' es ih =>
    subst h
    rw [List.cons_append, List.length_cons, List.modify_succ_cons, ih rfl, List.cons_append]

/-- An entry below a parent. -/
def below (e : Entry) (parent : Option Nat) : Entry := { e with parent := parent }

@[simp] theorem start_below (e : Entry) (parent : Option Nat) :
    (e.below parent).start = e.start := rfl

@[simp] theorem stop_below (e : Entry) (parent : Option Nat) :
    (e.below parent).stop = e.stop := rfl

@[simp] theorem children_below (e : Entry) (parent : Option Nat) :
    (e.below parent).children = e.children := rfl

/-- Entries with more children for one of them. -/
def adopt (p : Nat) (children : List Nat) (es : List Entry) : List Entry :=
  es.modify p fun e => { e with children := e.children ++ children }

/-- Entries with an error, if there is one, made known to one of them. -/
def mark (p : Nat) (b : Bool) (es : List Entry) : List Entry :=
  es.modify p fun e => { e with error := e.error || b }

@[simp] theorem length_adopt (p : Nat) (children : List Nat) (es : List Entry) :
    (adopt p children es).length = es.length := by simp [adopt]

@[simp] theorem length_mark (p : Nat) (b : Bool) (es : List Entry) :
    (mark p b es).length = es.length := by simp [mark]

theorem adopt_left (h : p < es.length) (children : List Nat) (fs : List Entry) :
    adopt p children (es ++ fs) = adopt p children es ++ fs := modify_left h fs _

theorem mark_left (h : p < es.length) (b : Bool) (fs : List Entry) :
    mark p b (es ++ fs) = mark p b es ++ fs := modify_left h fs _

theorem mark_middle (h : es.length = p) (b : Bool) (e : Entry) (fs : List Entry) :
    mark p b (es ++ e :: fs) = es ++ { e with error := e.error || b } :: fs :=
  modify_middle h e fs _

theorem adopt_nil (p : Nat) (es : List Entry) : adopt p [] es = es := by
  simp only [adopt, List.append_nil]
  exact List.modify_id p es

theorem adopt_adopt (p : Nat) (js ks : List Nat) (es : List Entry) :
    adopt p ks (adopt p js es) = adopt p (js ++ ks) es := by
  unfold adopt
  rw [List.modify_modify_eq]
  simp only [Function.comp_def, List.append_assoc]

theorem mark_false (p : Nat) (es : List Entry) : mark p false es = es := by
  simp only [mark, Bool.or_false]
  exact List.modify_id p es

theorem mark_mark (p : Nat) (b b' : Bool) (es : List Entry) :
    mark p b' (mark p b es) = mark p (b || b') es := by
  unfold mark
  rw [List.modify_modify_eq]
  simp only [Function.comp_def, Bool.or_assoc]

end Entry

open Entry

/-! ## Forests as data -/

/-- A call that creates an error. -/
def Call.isError (c : Call) : Bool := c.entry?.any (·.error)

/-- **A token**: a call that creates a node without children. -/
structure Token where
  /-- The call. -/
  call : Call
  /-- It creates a node. -/
  creates : call.creates = true
  /-- The node does not stay open. -/
  closed : call.opens = false

namespace Token

/-- The entry of a token, without its parent. -/
def entry (t : Token) : Entry := t.call.entry?.get t.creates

variable (t : Token)

theorem entry?_call : t.call.entry? = some t.entry := (Option.some_get t.creates).symm

/-- A token's entry has no links yet. -/
theorem links_entry : t.entry.parent = none ∧ t.entry.children = [] := by
  obtain ⟨stop, h⟩ | ⟨e, he, links⟩ := t.call.leave_or_entry?
  · have creates := t.creates
    rw [h] at creates
    cases creates
  · rw [t.entry?_call] at he
    cases he
    exact links

end Token

/-- **Trees one after another.** -/
inductive Forest where
  /-- No trees. -/
  | nil
  /-- A node without children, before other trees. -/
  | leaf (token : Token) (rest : Forest)
  /-- A node with its children, before other trees. -/
  | node (field : Option String) (kind : String) (start stop : Nat) (children rest : Forest)

namespace Forest

/-- **The script of a forest.** -/
def script : Forest → List Call
  | nil => []
  | leaf t rest => t.call :: rest.script
  | node field kind start stop children rest =>
    .enter field kind start :: (children.script ++ .leave stop :: rest.script)

/-- The number of nodes. -/
def size : Forest → Nat
  | nil => 0
  | leaf _ rest => rest.size + 1
  | node _ _ _ _ children rest => children.size + rest.size + 1

/-- Whether some node is an error. -/
def hasError : Forest → Bool
  | nil => false
  | leaf t rest => t.entry.error || rest.hasError
  | node _ _ _ _ children rest => children.hasError || rest.hasError

/-- The indices of the roots, if the first node has the index given. -/
def roots : Forest → Nat → List Nat
  | nil, _ => []
  | leaf _ rest, i => i :: rest.roots (i + 1)
  | node _ _ _ _ children rest, i => i :: rest.roots (i + 1 + children.size)

/-- **The layout of a forest** from an index on, below a parent. Only a `raised` layout
shows at a node the errors below it. -/
def entries (raised : Bool) : Forest → Option Nat → Nat → List Entry
  | nil, _, _ => []
  | leaf t rest, parent, i => t.entry.below parent :: rest.entries raised parent (i + 1)
  | node field kind start stop children rest, parent, i =>
    ⟨kind, start, stop, true, false, raised && children.hasError, field, parent,
        children.roots (i + 1)⟩ ::
      (children.entries raised (some i) (i + 1) ++
        rest.entries raised parent (i + 1 + children.size))

/-- Trees before other trees. -/
def append : Forest → Forest → Forest
  | nil, other => other
  | leaf t rest, other => leaf t (rest.append other)
  | node field kind start stop children rest, other =>
    node field kind start stop children (rest.append other)

@[simp] theorem length_entries (raised : Bool) (forest : Forest) (parent : Option Nat) (i : Nat) :
    (forest.entries raised parent i).length = forest.size := by
  induction forest generalizing parent i with
  | nil => rfl
  | leaf t rest ih => simp [entries, size, ih]
  | node field kind start stop children rest ihc ihr => simp [entries, size, ihc, ihr]

@[simp] theorem script_append (forest other : Forest) :
    (forest.append other).script = forest.script ++ other.script := by
  induction forest with
  | nil => rfl
  | leaf t rest ih => simp [append, script, ih]
  | node field kind start stop children rest ihc ihr => simp [append, script, ihr]

/-- **The errors of a forest** are those that its script reports. -/
theorem any_isError_script (forest : Forest) :
    forest.script.any Call.isError = forest.hasError := by
  induction forest with
  | nil => rfl
  | leaf t rest ih =>
    have own : t.call.isError = t.entry.error := by
      rw [Call.isError, t.entry?_call]
      rfl
    rw [script, List.any_cons, own, ih, hasError]
  | node field kind start stop children rest ihc ihr =>
    rw [script, List.any_cons, List.any_append, List.any_cons, ihc, ihr, hasError]
    rfl

/-! ## What a builder does with a forest -/

section Run

variable {A : List Entry} {p : Nat} (outer : List Nat) (problem : Option SourceProblem)

theorem step_token (t : Token) :
    Builder.step ⟨A, p :: outer, problem⟩ t.call =
      ⟨adopt p [A.length] A ++ [t.entry.below (some p)], p :: outer, problem⟩ := by
  rw [Builder.step_creating t.entry?_call t.links_entry.1, t.closed]
  rfl

theorem step_enter (field : Option String) (kind : String) (start : Nat) :
    Builder.step ⟨A, p :: outer, problem⟩ (.enter field kind start) =
      ⟨adopt p [A.length] A ++ [⟨kind, start, start, true, false, false, field, some p, []⟩],
        A.length :: p :: outer, problem⟩ := by
  rw [Builder.step_creating rfl rfl]
  rfl

/-- **Inside an open node, the script of a forest adds its layout**, and makes its roots
children of the node. -/
theorem foldl_script (forest : Forest) (inside : p < A.length) :
    forest.script.foldl Builder.step ⟨A, p :: outer, problem⟩ =
      ⟨adopt p (forest.roots A.length) A ++ forest.entries false (some p) A.length,
        p :: outer, problem⟩ := by
  induction forest generalizing A p outer with
  | nil => simp [script, roots, entries, adopt_nil]
  | leaf t rest ih =>
    rw [script, List.foldl_cons, step_token, ih _ (by simp; omega), adopt_left (by simpa),
      adopt_adopt]
    simp [roots, entries]
  | node field kind start stop children rest ihc ihr =>
    have own : (adopt p [A.length] A).length = A.length := length_adopt p _ A
    rw [script, List.foldl_cons, step_enter, List.foldl_append, ihc _ (by simp)]
    -- The node that was entered is the one that its children change, and the one that is left.
    rw [List.foldl_cons, Builder.step_leave]
    show List.foldl _ (Builder.mk (List.modify (adopt _ _ _ ++ _) _ _) (p :: outer) problem) _ = _
    rw [adopt, modify_middle own, List.append_assoc, List.singleton_append, modify_middle own,
      ihr _ (by simp; omega), adopt_left (by simpa), adopt_adopt]
    have behind : A.length + (children.size + 1) = A.length + 1 + children.size := by omega
    simp [roots, entries, behind]

end Run

/-! ## Errors made known -/

section Raise

variable {A B : List Entry} {e : Entry} {p i : Nat}

theorem raise_middle (hi : A.length = i) (hp : p < i) (he : e.parent = some p) (B : List Entry) :
    Builder.raise (A ++ e :: B) i = mark p e.error A ++ e :: B := by
  have get : (A ++ e :: B)[i]? = some e := by simp [← hi]
  unfold Builder.raise
  rw [get]
  rcases e with ⟨kind, start, stop, named, missing, error, field, parent, children⟩
  cases he
  cases error with
  | false => simp [mark_false]
  | true => simp [mark, modify_left (hi ▸ hp)]

/-- **The errors of a forest are made known** inside it and to its parent. -/
theorem foldl_raise (forest : Forest) (hi : A.length = i) (hp : p < i) (B : List Entry) :
    (List.range' i forest.size).reverse.foldl Builder.raise
        (A ++ (forest.entries false (some p) i ++ B)) =
      mark p forest.hasError A ++ (forest.entries true (some p) i ++ B) := by
  induction forest generalizing A p i B with
  | nil => simp [size, hasError, entries, mark_false]
  | leaf t rest ih =>
    have hp' : p < A.length := hi ▸ hp
    have later : (List.range' (i + 1) rest.size).reverse.foldl Builder.raise
          (A ++ t.entry.below (some p) :: (rest.entries false (some p) (i + 1) ++ B)) =
        mark p rest.hasError A ++
          t.entry.below (some p) :: (rest.entries true (some p) (i + 1) ++ B) := by
      simpa [mark_left hp'] using
        ih (A := A ++ [t.entry.below (some p)]) (by simpa using hi) (Nat.lt_succ_of_lt hp) B
    calc
      _ = Builder.raise ((List.range' (i + 1) rest.size).reverse.foldl Builder.raise
            (A ++ t.entry.below (some p) :: (rest.entries false (some p) (i + 1) ++ B))) i := by
        rw [size, List.range'_succ, List.reverse_cons, List.foldl_append]
        rfl
      _ = mark p t.entry.error (mark p rest.hasError A) ++
            t.entry.below (some p) :: (rest.entries true (some p) (i + 1) ++ B) := by
        rw [later, raise_middle (by simpa) hp rfl]
        rfl
      _ = _ := by
        rw [mark_mark, Bool.or_comm]
        rfl
  | node field kind start stop children rest ihc ihr =>
    have hp' : p < A.length := hi ▸ hp
    let own (error : Bool) : Entry :=
      ⟨kind, start, stop, true, false, error, field, some p, children.roots (i + 1)⟩
    let after (raised : Bool) : List Entry :=
      rest.entries raised (some p) (i + 1 + children.size) ++ B
    have later : (List.range' (i + 1 + children.size) rest.size).reverse.foldl Builder.raise
          (A ++ own false :: (children.entries false (some i) (i + 1) ++ after false)) =
        mark p rest.hasError A ++
          own false :: (children.entries false (some i) (i + 1) ++ after true) := by
      simpa [mark_left hp', own, after] using
        ihr (A := A ++ own false :: children.entries false (some i) (i + 1)) (p := p)
          (i := i + 1 + children.size) (by simp [hi]; omega) (by omega) B
    -- The node is the parent of its children, and learns of their errors before it is asked.
    have below : (List.range' (i + 1) children.size).reverse.foldl Builder.raise
          (mark p rest.hasError A ++
            own false :: (children.entries false (some i) (i + 1) ++ after true)) =
        mark p rest.hasError A ++
          own children.hasError :: (children.entries true (some i) (i + 1) ++ after true) := by
      have h := ihc (A := mark p rest.hasError A ++ [own false]) (by simpa using hi)
        (Nat.lt_succ_self i) (after true)
      rw [mark_middle (by simpa)] at h
      simpa [own] using h
    calc
      _ = Builder.raise ((List.range' (i + 1) children.size).reverse.foldl Builder.raise
            ((List.range' (i + 1 + children.size) rest.size).reverse.foldl Builder.raise
              (A ++ own false :: (children.entries false (some i) (i + 1) ++ after false)))) i := by
        rw [size, List.range'_succ, ← List.range'_append_1, List.reverse_cons,
          List.reverse_append, List.foldl_append, List.foldl_append]
        simp [entries, own, after]
      _ = mark p children.hasError (mark p rest.hasError A) ++
            own children.hasError :: (children.entries true (some i) (i + 1) ++ after true) := by
        rw [later, below, raise_middle (by simpa) hp rfl]
      _ = _ := by
        rw [mark_mark, Bool.or_comm]
        simp [hasError, entries, own, after]

end Raise

/-! ## The arena of a tree -/

/-- **The script of a tree builds its layout.** -/
theorem build_node (grammar : String) (field : Option String) (kind : String) (start stop : Nat)
    (children : Forest) :
    Arena.build grammar (node field kind start stop children nil).script =
      .ok ⟨(node field kind start stop children nil).entries true none 0⟩ := by
  let own (error : Bool) : Entry :=
    ⟨kind, start, stop, true, false, error, field, none, children.roots 1⟩
  have run : Builder.run (node field kind start stop children nil).script =
      ⟨own false :: children.entries false (some 0) 1, [], none⟩ := by
    have inside := foldl_script [] none children
      (A := [⟨kind, start, start, true, false, false, field, none, []⟩]) (p := 0) (by simp)
    show List.foldl _ (Builder.mk [_] [0] none) (children.script ++ [.leave stop]) = _
    rw [List.foldl_append, inside]
    rfl
  have raised : Builder.raiseAll (own false :: children.entries false (some 0) 1) =
      own children.hasError :: children.entries true (some 0) 1 := by
    have below := foldl_raise children (A := [own false]) (p := 0) (i := 1) rfl Nat.one_pos []
    rw [List.append_nil, List.append_nil] at below
    unfold Builder.raiseAll
    rw [List.length_cons, length_entries, List.range_eq_range', List.range'_succ,
      List.reverse_cons, List.foldl_append]
    show Builder.raise (List.foldl _ ([own false] ++ _) _) 0 = _
    rw [Nat.zero_add, below]
    -- The root has no parent to tell.
    show Builder.raise (own children.hasError :: _) 0 = _
    cases children.hasError <;> rfl
  rw [Arena.build, run]
  show Except.ok (Arena.mk (Builder.raiseAll _)) = _
  rw [raised]
  simp [entries, own]

/-! ## Forests in an arena -/

/-- **A forest stands in an arena** from an index on. -/
def Placed (a : Arena) (parent : Option Nat) (i : Nat) (forest : Forest) : Prop :=
  ∃ before after, a.entries = before ++ (forest.entries true parent i ++ after) ∧
    before.length = i

namespace Placed

variable {a : Arena} {parent : Option Nat} {i : Nat} {rest children : Forest}

theorem whole {forest : Forest} (laid : a.entries = forest.entries true parent 0) :
    Placed a parent 0 forest := ⟨[], [], by simp [laid], rfl⟩

theorem get?_leaf {t : Token} (h : Placed a parent i (leaf t rest)) :
    a.get? i = some (t.entry.below parent) := by
  obtain ⟨before, after, he, rfl⟩ := h
  simp [Arena.get?, he, entries]

theorem rest_leaf {t : Token} (h : Placed a parent i (leaf t rest)) :
    Placed a parent (i + 1) rest := by
  obtain ⟨before, after, he, rfl⟩ := h
  exact ⟨before ++ [t.entry.below parent], after, by simp [he, entries], by simp⟩

variable {field : Option String} {kind : String} {start stop : Nat}

theorem get?_node (h : Placed a parent i (node field kind start stop children rest)) :
    a.get? i = some ⟨kind, start, stop, true, false, children.hasError, field, parent,
      children.roots (i + 1)⟩ := by
  obtain ⟨before, after, he, rfl⟩ := h
  simp [Arena.get?, he, entries]

/-- Where a node stands, its children stand behind it, and the other trees behind them. -/
theorem inside (h : Placed a parent i (node field kind start stop children rest)) :
    Placed a (some i) (i + 1) children ∧ Placed a parent (i + 1 + children.size) rest := by
  obtain ⟨before, after, he, rfl⟩ := h
  let behind := rest.entries true parent (before.length + 1 + children.size)
  obtain ⟨own, hown⟩ : ∃ own, (node field kind start stop children rest).entries true parent
      before.length = own :: (children.entries true (some before.length) (before.length + 1) ++
        behind) := ⟨_, rfl⟩
  rw [hown] at he
  exact ⟨⟨before ++ [own], behind ++ after, by simp [he], by simp⟩,
    ⟨before ++ own :: children.entries true (some before.length) (before.length + 1), after,
      by simp [he, behind], by simp; omega⟩⟩

end Placed

end Forest

end TreeBroker
