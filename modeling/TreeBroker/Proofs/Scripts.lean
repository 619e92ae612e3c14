import TreeBroker.Proofs.BuilderRuns

/-!
# Which scripts build a tree

A script builds a tree if it is one: a leaf, or a node that is entered, the trees below
it one after another, and the leaving of the node. Nothing at all builds the empty tree.
That is a grammar of scripts (`Script.IsTree`), and a builder knows nothing of it. It
takes one call at a time, keeps a stack of open nodes, goes on after a fault as if
nothing had happened, and remembers the first one.

The two meet in what can be said of a call by looking at the calls before it alone
(`Script.fault?`). A call is at fault if no node is open and it leaves one, or creates
one when there is one already. The problem of a builder is the first fault of its script
(`Builder.problem_run_eq_some`), and the nodes on its stack are those that the script has
left open (`Builder.opened_run`). So a script without faults that leaves no node open is
accepted, and it is a tree: the node that its first call opens can only be left by its
last one.
-/

namespace TreeBroker

namespace Script

/-! ## The grammar of scripts -/

mutual

/-- **A tree as a script.** -/
inductive IsTree : List Call → Prop
  /-- A node without children. -/
  | leaf {c : Call} (creates : c.creates = true) (closed : c.opens = false) : IsTree [c]
  /-- A node with its children. -/
  | node {c : Call} {children : List Call} (opens : c.opens = true)
      (trees : IsForest children) (stop : Nat) : IsTree (c :: children ++ [.leave stop])

/-- **Trees one after another.** -/
inductive IsForest : List Call → Prop
  /-- No trees. -/
  | nil : IsForest []
  /-- A tree before others. -/
  | cons {tree others : List Call} (first : IsTree tree) (rest : IsForest others) :
      IsForest (tree ++ others)

end

/-! ## Faults -/

/-- What a call makes of the open nodes. -/
def openAfter (nodes : List (String × Nat)) : Call → List (String × Nat)
  | .enter _ kind start => (kind, start) :: nodes
  | .leave _ => nodes.drop 1
  | _ => nodes

/-- **The nodes that a script leaves open**, each by its kind and start, the innermost
first. -/
def openNodes (script : List Call) : List (String × Nat) := script.foldl openAfter []

/-- **What is wrong with a call** after others: it leaves a node when none is open, or
creates one outside the first. -/
def fault? (before : List Call) (c : Call) : Option SourceProblem :=
  if (openNodes before).isEmpty then
    match c with
    | .leave _ => some .strayClose
    | _ => if before.any Call.creates then some .secondRoot else none
  else none

/-- **A script without faults.** -/
def Faultless (script : List Call) : Prop :=
  ∀ before c after, script = before ++ c :: after → fault? before c = none

/-- **The first fault of a script.** -/
def FirstFault (script : List Call) (p : SourceProblem) : Prop :=
  ∃ before c after, script = before ++ c :: after ∧ Faultless before ∧ fault? before c = some p

variable {script before : List Call} {c : Call} {p : SourceProblem}

@[simp] theorem openNodes_concat (script : List Call) (c : Call) :
    openNodes (script ++ [c]) = openAfter (openNodes script) c := by
  simp [openNodes]

theorem openAfter_creating {e : Entry} (h : c.entry? = some e) (nodes : List (String × Nat)) :
    openAfter nodes c = if c.opens then (e.kind, e.start) :: nodes else nodes := by
  cases c <;> cases h <;> rfl

theorem openAfter_of_creates (creates : c.creates = true) (closed : c.opens = false)
    (nodes : List (String × Nat)) : openAfter nodes c = nodes := by
  cases c with
  | enter field kind start => cases closed
  | leave stop => cases creates
  | _ => rfl

theorem openAfter_of_opens (opens : c.opens = true) (nodes : List (String × Nat)) :
    ∃ node, openAfter nodes c = node :: nodes := by
  cases c with
  | enter field kind start => exact ⟨_, rfl⟩
  | _ => cases opens

theorem fault?_of_creates (h : c.creates = true) (before : List Call) :
    fault? before c =
      if (openNodes before).isEmpty && before.any Call.creates then some .secondRoot else none := by
  unfold fault?
  cases c with
  | leave stop => cases h
  | _ => cases (openNodes before).isEmpty <;> simp

/-- The ways to split a script at a call: at its last one, or before. -/
theorem concat_eq_split {after : List Call} {d : Call} (h : script ++ [c] = before ++ d :: after) :
    (before = script ∧ d = c) ∨ ∃ rest, script = before ++ d :: rest := by
  obtain rfl | ⟨rest, last, rfl⟩ := List.eq_nil_or_concat after
  · obtain ⟨hs, hc⟩ := List.append_inj' h rfl
    exact .inl ⟨hs.symm, (List.singleton_inj.mp hc).symm⟩
  · rw [List.concat_eq_append, ← List.cons_append, ← List.append_assoc] at h
    exact .inr ⟨rest, (List.append_inj' h rfl).1⟩

@[simp] theorem faultless_nil : Faultless [] := by
  intro before c after h
  simp at h

@[simp] theorem faultless_concat :
    Faultless (script ++ [c]) ↔ Faultless script ∧ fault? script c = none := by
  constructor
  · intro h
    exact ⟨fun before d after hs => h before d (after ++ [c]) (by simp [hs]), h script c [] rfl⟩
  · rintro ⟨hs, hc⟩ before d after heq
    obtain ⟨rfl, rfl⟩ | ⟨rest, rfl⟩ := concat_eq_split heq
    · exact hc
    · exact hs before d rest rfl

@[simp] theorem not_firstFault_nil : ¬ FirstFault [] p := by
  rintro ⟨before, c, after, h, -⟩
  simp at h

@[simp] theorem firstFault_concat :
    FirstFault (script ++ [c]) p ↔
      FirstFault script p ∨ (Faultless script ∧ fault? script c = some p) := by
  constructor
  · rintro ⟨before, d, after, heq, hb, hd⟩
    obtain ⟨rfl, rfl⟩ | ⟨rest, rfl⟩ := concat_eq_split heq
    · exact .inr ⟨hb, hd⟩
    · exact .inl ⟨before, d, rest, rfl, hb, hd⟩
  · rintro (⟨before, d, after, rfl, hb, hd⟩ | ⟨hs, hc⟩)
    · exact ⟨before, d, after ++ [c], by simp, hb, hd⟩
    · exact ⟨script, c, [], rfl, hs, hc⟩

/-! ## The grammar is what has no faults -/

theorem fault?_inside (inside : openNodes before ≠ []) : fault? before c = none := by
  simp [fault?, inside]

/-- There is room for a node inside an open one, and before the first one. -/
theorem fault?_eq_none (creates : c.creates = true)
    (room : openNodes before = [] → before.any Call.creates = false) :
    fault? before c = none := by
  by_cases h : openNodes before = []
  · simp [fault?_of_creates creates, room h]
  · exact fault?_inside h

mutual

/-- **A tree leaves everything as it found it**, and is not at fault where there is room
for it. -/
theorem IsTree.balanced {tree : List Call} : IsTree tree → ∀ before : List Call,
    (openNodes before = [] → before.any Call.creates = false) → Faultless before →
      Faultless (before ++ tree) ∧ openNodes (before ++ tree) = openNodes before
  | @IsTree.leaf c creates closed, before, room, hb => by
    rw [faultless_concat, openNodes_concat]
    exact ⟨⟨hb, fault?_eq_none creates room⟩, openAfter_of_creates creates closed _⟩
  | @IsTree.node c children opens trees stop, before, room, hb => by
    obtain ⟨node, hn⟩ := openAfter_of_opens opens (openNodes before)
    have hc : Faultless (before ++ [c]) :=
      faultless_concat.mpr ⟨hb, fault?_eq_none (Call.creates_of_opens opens) room⟩
    have ho : openNodes (before ++ [c]) = node :: openNodes before := by
      rw [openNodes_concat, hn]
    -- The children are inside the node, so there is room for all of them.
    obtain ⟨hf, hs⟩ := trees.balanced (before ++ [c]) (by simp [ho]) hc
    have hl : before ++ (c :: children ++ [.leave stop]) =
        before ++ [c] ++ children ++ [.leave stop] := by simp
    rw [ho] at hs
    rw [hl, faultless_concat, openNodes_concat, hs]
    exact ⟨⟨hf, fault?_inside (by rw [hs]; exact List.cons_ne_nil _ _)⟩, rfl⟩

theorem IsForest.balanced {trees : List Call} : IsForest trees → ∀ before : List Call,
    openNodes before ≠ [] → Faultless before →
      Faultless (before ++ trees) ∧ openNodes (before ++ trees) = openNodes before
  | .nil, before, inside, hb => by
    rw [List.append_nil]
    exact ⟨hb, rfl⟩
  | @IsForest.cons tree others first rest, before, inside, hb => by
    obtain ⟨hf, ho⟩ := first.balanced before (fun h => absurd h inside) hb
    obtain ⟨hf', ho'⟩ := rest.balanced (before ++ tree) (ho ▸ inside) hf
    rw [← List.append_assoc]
    exact ⟨hf', ho'.trans ho⟩

end

/-- **What closes an open node**: a forest and the leaving of the node. -/
theorem exists_forest {node : String × Nat} {outer : List (String × Nat)}
    (calls before : List Call) (inside : openNodes before = node :: outer)
    (closed : openNodes (before ++ calls) = []) :
    ∃ trees stop rest, calls = trees ++ .leave stop :: rest ∧ IsForest trees ∧
      openNodes (before ++ trees ++ [.leave stop]) = outer := by
  match calls with
  | [] => simp [inside] at closed
  | c :: calls =>
    have closed' : openNodes (before ++ [c] ++ calls) = [] := by simpa using closed
    obtain ⟨stop, rfl⟩ | ⟨e, he, -⟩ := c.leave_or_entry?
    · exact ⟨[], stop, calls, rfl, .nil, by simp [inside, openAfter]⟩
    have creates : c.creates = true := by simp [Call.creates, he]
    cases hc : c.opens with
    | false =>
      have inside' : openNodes (before ++ [c]) = node :: outer := by
        rw [openNodes_concat, openAfter_of_creates creates hc, inside]
      obtain ⟨trees, stop, rest, rfl, forest, ho⟩ := exists_forest calls _ inside' closed'
      exact ⟨[c] ++ trees, stop, rest, rfl, .cons (.leaf creates hc) forest, by simpa using ho⟩
    | true =>
      -- The node that is opened is closed first, and from there the outer one is next.
      obtain ⟨inner, hi⟩ := openAfter_of_opens hc (openNodes before)
      have inside' : openNodes (before ++ [c]) = inner :: node :: outer := by
        rw [openNodes_concat, hi, inside]
      obtain ⟨children, stop, others, rfl, forest, ho⟩ := exists_forest calls _ inside' closed'
      have closed'' : openNodes (before ++ [c] ++ children ++ [.leave stop] ++ others) = [] := by
        simpa using closed
      obtain ⟨trees, stop', rest, rfl, forest', ho'⟩ := exists_forest others _ ho closed''
      exact ⟨(c :: children ++ [.leave stop]) ++ trees, stop', rest, by simp,
        .cons (.node hc forest stop) forest', by simpa using ho'⟩
termination_by calls.length

/-- Nothing comes after a root that is closed. -/
theorem eq_nil_of_closed (before rest : List Call) (hf : Faultless (before ++ rest))
    (closed : openNodes before = []) (root : before.any Call.creates = true) : rest = [] := by
  match rest with
  | [] => rfl
  | c :: rest =>
    have h : fault? before c = none := hf before c rest rfl
    cases c <;> simp [fault?, closed, root] at h

/-- **A script without faults that leaves no node open** is empty or a tree. -/
theorem balanced_iff :
    Faultless script ∧ openNodes script = [] ↔ script = [] ∨ IsTree script := by
  constructor
  · rintro ⟨hf, ho⟩
    match script with
    | [] => exact .inl rfl
    | c :: calls =>
      refine .inr ?_
      obtain ⟨stop, rfl⟩ | ⟨e, he, -⟩ := c.leave_or_entry?
      · exact absurd (hf [] _ calls rfl) (by simp [fault?, openNodes])
      have creates : c.creates = true := by simp [Call.creates, he]
      cases hc : c.opens with
      | false =>
        have closed : openNodes [c] = [] := openAfter_of_creates creates hc []
        obtain rfl := eq_nil_of_closed [c] calls hf closed (by simp [creates])
        exact .leaf creates hc
      | true =>
        obtain ⟨node, hn⟩ := openAfter_of_opens hc []
        obtain ⟨trees, stop, rest, rfl, forest, closed⟩ := exists_forest calls [c] hn ho
        obtain rfl := eq_nil_of_closed ([c] ++ trees ++ [.leave stop]) rest (by simpa using hf)
          closed (by simp [creates])
        exact .node hc forest stop
  · rintro (rfl | tree)
    · exact ⟨faultless_nil, rfl⟩
    · exact tree.balanced [] (fun _ => rfl) faultless_nil

end Script

/-! ## Builders and faults -/

namespace Builder

open Script

/-- The open nodes of a builder, each by its kind and start, the innermost first. -/
def opened (b : Builder) : List (Option (String × Nat)) :=
  b.stack.map fun i => (b.entries.map fun e => (e.kind, e.start))[i]?

/-- **The nodes that a builder has open** are those that its script leaves open. -/
theorem opened_run (script : List Call) : (run script).opened = (openNodes script).map some := by
  induction script using List.reverseRecOn with
  | nil => rfl
  | append_singleton script c ih =>
    rw [run_concat, openNodes_concat]
    unfold opened at ih ⊢
    obtain ⟨stop, rfl⟩ | ⟨e, he, new, -⟩ := c.leave_or_entry?
    · rw [map_step_leave fun _ _ => rfl, step_leave]
      simp only [openAfter, List.map_drop, ih]
    · -- Behind the nodes that were there, the new one does not change what they are.
      have old (node : String × Nat) :
          (run script).stack.map (fun i =>
            ((run script).entries.map (fun e => (e.kind, e.start)) ++ [node])[i]?) =
            (openNodes script).map some := by
        rw [← ih]
        refine List.map_congr_left fun i hi => List.getElem?_append_left ?_
        rw [List.length_map]
        exact stack_lt_run script i hi
      rw [map_step_creating (fun _ _ => rfl) he new, openAfter_creating he,
        step_creating he new]
      dsimp only
      split
      · rw [List.map_cons, List.map_cons, old]
        simp
      · exact old _

theorem isEmpty_stack_run (script : List Call) :
    (run script).stack.isEmpty = (openNodes script).isEmpty := by
  have h : (run script).stack.length = (openNodes script).length := by
    simpa [opened] using congrArg List.length (opened_run script)
  rw [Bool.eq_iff_iff, List.isEmpty_iff_length_eq_zero, List.isEmpty_iff_length_eq_zero, h]

theorem isEmpty_entries_run (script : List Call) :
    (run script).entries.isEmpty = !script.any Call.creates := by
  rw [Bool.eq_iff_iff, List.isEmpty_iff_length_eq_zero, length_run]
  simp [Call.creates]

/-- **One more call** is one more chance of a fault. -/
theorem problem_run_concat (script : List Call) (c : Call) :
    (run (script ++ [c])).problem = (run script).problem.or (fault? script c) := by
  rw [run_concat]
  obtain ⟨stop, rfl⟩ | ⟨e, he, new, -⟩ := c.leave_or_entry?
  · rw [step_leave, isEmpty_stack_run]
    unfold fault?
    split <;> simp
  · rw [step_creating he new, isEmpty_stack_run, isEmpty_entries_run, Bool.not_not,
      fault?_of_creates (by simp [Call.creates, he])]
    dsimp only
    split <;> simp

/-- **A builder without a problem** had a script without faults. -/
theorem problem_run_eq_none {script : List Call} :
    (run script).problem = none ↔ Faultless script := by
  induction script using List.reverseRecOn with
  | nil => simp
  | append_singleton script c ih =>
    rw [problem_run_concat, faultless_concat, Option.or_eq_none_iff, ih]

/-- **The problem of a builder** is the first fault of its script. -/
theorem problem_run_eq_some {script : List Call} {p : SourceProblem} :
    (run script).problem = some p ↔ FirstFault script p := by
  induction script using List.reverseRecOn with
  | nil => simp
  | append_singleton script c ih =>
    rw [problem_run_concat, firstFault_concat, Option.or_eq_some_iff, ih, problem_run_eq_none]

variable {b : Builder} (grammar : String)

theorem finish_of_problem {p : SourceProblem} (h : b.problem = some p) :
    b.finish grammar = .error ⟨grammar, p, 0⟩ := by
  simp [finish, h]

theorem finish_of_opened {node : String × Nat} {outer : List (Option (String × Nat))}
    (h : b.problem = none) (ho : b.opened = some node :: outer) :
    b.finish grammar = .error ⟨grammar, .unclosed node.1, node.2⟩ := by
  obtain ⟨i, rest, hs, hi, -⟩ := List.map_eq_cons_iff.mp ho
  rw [List.getElem?_map, Option.map_eq_some_iff] at hi
  obtain ⟨e, he, rfl⟩ := hi
  simp [finish, h, hs, he]

end Builder

namespace Arena

open Script Builder

/-- **What a script builds.** It builds a tree exactly if it is empty or derives from the
grammar of trees. A script with faults fails with the first of them, at offset 0. A
script without faults that is no tree fails with the innermost node that it leaves open,
where that node starts. -/
theorem build_outcome (grammar : String) (script : List Call) :
    ((∃ a, build grammar script = .ok a) ↔ script = [] ∨ IsTree script) ∧
    (¬ Faultless script →
      ∃ p, FirstFault script p ∧ build grammar script = .error ⟨grammar, p, 0⟩) ∧
    (Faultless script → ¬ (script = [] ∨ IsTree script) →
      ∃ kind start outer, openNodes script = (kind, start) :: outer ∧
        build grammar script = .error ⟨grammar, .unclosed kind, start⟩) := by
  refine ⟨?_, fun hf => ?_, fun hf ht => ?_⟩
  · simp only [build, finish_eq_ok, exists_and_left, exists_eq, and_true]
    rw [← balanced_iff, problem_run_eq_none, ← List.isEmpty_iff, isEmpty_stack_run,
      List.isEmpty_iff]
  · rw [← problem_run_eq_none] at hf
    obtain ⟨p, hp⟩ := Option.ne_none_iff_exists'.mp hf
    exact ⟨p, problem_run_eq_some.mp hp, finish_of_problem grammar hp⟩
  · rw [← balanced_iff] at ht
    have ho : openNodes script ≠ [] := fun ho => ht ⟨hf, ho⟩
    obtain ⟨⟨kind, start⟩, outer, ho⟩ := List.exists_cons_of_ne_nil ho
    have opened : (run script).opened = some (kind, start) :: outer.map some := by
      rw [opened_run, ho, List.map_cons]
    exact ⟨kind, start, outer, ho, finish_of_opened grammar (problem_run_eq_none.mpr hf) opened⟩

-- Faults pile up, and a node is left open as well: the first fault is what counts.
example :
    build "nest" [.leave 1, .leaf none "a" 0 1, .enter none "b" 1] =
      .error ⟨"nest", .strayClose, 0⟩ := rfl

end Arena

end TreeBroker
