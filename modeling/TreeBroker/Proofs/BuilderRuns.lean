import Mathlib.Data.List.Induction
import TreeBroker.Arena.Script

/-!
# Builders at work

A builder takes six kinds of calls, but there are only two things that a call can do. It
*leaves* the innermost open node – or complains that there is none – or it *creates* a
node below the innermost open one, which it may then leave open (`Builder.step_leave`,
`Builder.step_creating`). Every statement about what builders do goes through the calls
of a script from the last one back, and asks for these two things.

An entry is touched again after it was created: leaving a node sets its end, creating a
node makes it a child, and at the end the errors are made known to the ancestors. What
none of them touches is the *bare* entry, so the bare entries of a builder are those of
the calls that created them, in the order of the calls (`Builder.map_bare_run`).
-/

namespace TreeBroker

/-! ## Calls -/

namespace Call

/-- A call that creates a node. -/
def creates (c : Call) : Bool := c.entry?.isSome

/-- A call whose node stays open. -/
def opens : Call → Bool
  | enter .. => true
  | _ => false

theorem creates_of_opens {c : Call} (h : c.opens = true) : c.creates = true := by
  cases c with
  | enter field kind start => rfl
  | _ => cases h

/-- **A call leaves a node or creates one**, and what it creates has no links yet. -/
theorem leave_or_entry? (c : Call) :
    (∃ stop, c = .leave stop) ∨ ∃ e, c.entry? = some e ∧ e.parent = none ∧ e.children = [] := by
  cases c with
  | leave stop => exact .inl ⟨stop, rfl⟩
  | enter field kind start => exact .inr ⟨_, rfl, rfl, rfl⟩
  | leaf field kind start stop => exact .inr ⟨_, rfl, rfl, rfl⟩
  | anonymous kind start stop => exact .inr ⟨_, rfl, rfl, rfl⟩
  | missing kind offset => exact .inr ⟨_, rfl, rfl, rfl⟩
  | error start stop => exact .inr ⟨_, rfl, rfl, rfl⟩

end Call

/-- **A bare entry**: what is settled when a node is created. -/
def Entry.bare (e : Entry) : Entry :=
  { e with stop := 0, error := false, parent := none, children := [] }

/-- A view of entries that does not show a change to one of them. -/
theorem Entry.map_modify {β : Type} {f : Entry → Entry} {g : Entry → β} (h : ∀ e, g (f e) = g e)
    (entries : List Entry) (i : Nat) : (entries.modify i f).map g = entries.map g := by
  refine List.ext_getElem? fun j => ?_
  rw [List.getElem?_map, List.getElem?_map, List.getElem?_modify]
  split
  · cases entries[j]? <;> simp [h]
  · simp

namespace Builder

variable {b : Builder} {c : Call} {e : Entry}

@[simp] theorem run_nil : run [] = {} := rfl

@[simp] theorem run_concat (script : List Call) (c : Call) :
    run (script ++ [c]) = (run script).step c := by
  simp [run]

/-! ## What a call does -/

/-- The entries, with the innermost open node changed, if there is one. -/
def touched (b : Builder) (f : Entry → Entry) : List Entry :=
  match b.stack with
  | [] => b.entries
  | i :: _ => b.entries.modify i f

@[simp] theorem length_touched (b : Builder) (f : Entry → Entry) :
    (b.touched f).length = b.entries.length := by
  unfold touched
  split <;> simp

theorem getElem?_touched (b : Builder) (f : Entry → Entry) (i : Nat) :
    (b.touched f)[i]? =
      (b.entries[i]?).map fun e => if b.stack.head? = some i then f e else e := by
  unfold touched
  split
  · next h => simp [h]
  · next top rest h =>
    rw [List.getElem?_modify, h]
    simp

theorem map_touched {β : Type} {f : Entry → Entry} {g : Entry → β} (h : ∀ e, g (f e) = g e)
    (b : Builder) : (b.touched f).map g = b.entries.map g := by
  unfold touched
  split
  · rfl
  · exact Entry.map_modify h b.entries _

/-- The innermost open node gets the next entry for a child. -/
def adopt (b : Builder) (p : Entry) : Entry :=
  { p with children := p.children ++ [b.entries.length] }

theorem push_eq (new : e.parent = none) (b : Builder) :
    b.push e = {
      entries := b.touched b.adopt ++ [{ e with parent := b.stack.head? }]
      stack := b.stack
      problem := if b.stack.isEmpty && !b.entries.isEmpty then b.problem.or (some .secondRoot)
        else b.problem } := by
  rcases b with ⟨entries, _ | ⟨i, rest⟩, problem⟩
  · cases entries <;> simp [push, touched, note, ← new]
  · rfl

/-- **A call that creates a node** puts it below the innermost open node, and behind all
others. A node outside the first one is a problem. -/
theorem step_creating (h : c.entry? = some e) (new : e.parent = none) (b : Builder) :
    b.step c = {
      entries := b.touched b.adopt ++ [{ e with parent := b.stack.head? }]
      stack := if c.opens then b.entries.length :: b.stack else b.stack
      problem := if b.stack.isEmpty && !b.entries.isEmpty then b.problem.or (some .secondRoot)
        else b.problem } := by
  unfold step
  cases c with
  | leave stop => cases h
  | enter field kind start =>
    rw [h]
    show Builder.mk _ _ _ = _
    rw [push_eq new]
    rfl
  | _ =>
    rw [h]
    exact push_eq new b

/-- **A call that leaves a node** ends the innermost open one, and is a problem if there
is none. -/
theorem step_leave (stop : Nat) (b : Builder) :
    b.step (.leave stop) = {
      entries := b.touched fun e => { e with stop := stop }
      stack := b.stack.drop 1
      problem := if b.stack.isEmpty then b.problem.or (some .strayClose) else b.problem } := by
  unfold step note touched
  cases b.stack with
  | nil => simp
  | cons i rest => simp

/-! ## What calls leave alone -/

/-- A view of entries that does not show where they end does not show that a node is
left. -/
theorem map_step_leave {β : Type} {g : Entry → β}
    (h : ∀ (e : Entry) (stop : Nat), g { e with stop := stop } = g e) (stop : Nat)
    (b : Builder) : (b.step (.leave stop)).entries.map g = b.entries.map g := by
  rw [step_leave]
  exact map_touched (fun e => h e stop) b

/-- A view of entries that does not show their children shows a node that is created
behind those that were there. -/
theorem map_step_creating {β : Type} {g : Entry → β}
    (h : ∀ (e : Entry) (children : List Nat), g { e with children := children } = g e)
    (he : c.entry? = some e) (new : e.parent = none) (b : Builder) :
    (b.step c).entries.map g = b.entries.map g ++ [g { e with parent := b.stack.head? }] := by
  rw [step_creating he new, List.map_append, map_touched (f := b.adopt) fun e => h e _]
  rfl

/-- **What is settled when a node is created**: a view of entries that shows neither where
they end nor their links is that of the calls that created them. -/
theorem map_run {β : Type} {g : Entry → β}
    (ends : ∀ (e : Entry) (stop : Nat), g { e with stop := stop } = g e)
    (parents : ∀ (e : Entry) (parent : Option Nat), g { e with parent := parent } = g e)
    (children : ∀ (e : Entry) (children : List Nat), g { e with children := children } = g e)
    (script : List Call) :
    (run script).entries.map g = (script.filterMap Call.entry?).map g := by
  induction script using List.reverseRecOn with
  | nil => rfl
  | append_singleton script c ih =>
    rw [run_concat, List.filterMap_append, List.map_append, ← ih]
    obtain ⟨stop, rfl⟩ | ⟨e, he, new, -⟩ := c.leave_or_entry?
    · rw [map_step_leave ends]
      exact (List.append_nil _).symm
    · rw [map_step_creating children he new]
      simp [he, parents]

/-- **The bare entries of a builder** are those of the calls that created them. -/
theorem map_bare_run (script : List Call) :
    (run script).entries.map Entry.bare = (script.filterMap Call.entry?).map Entry.bare :=
  map_run (fun _ _ => rfl) (fun _ _ => rfl) (fun _ _ => rfl) script

theorem length_run (script : List Call) :
    (run script).entries.length = (script.filterMap Call.entry?).length := by
  simpa using congrArg List.length (map_bare_run script)

/-- Open nodes are nodes. -/
theorem stack_lt_run (script : List Call) :
    ∀ i ∈ (run script).stack, i < (run script).entries.length := by
  induction script using List.reverseRecOn with
  | nil => exact nofun
  | append_singleton script c ih =>
    rw [run_concat]
    intro i hi
    obtain ⟨stop, rfl⟩ | ⟨e, he, new, -⟩ := c.leave_or_entry?
    · rw [step_leave] at hi ⊢
      rw [length_touched]
      exact ih i (List.mem_of_mem_drop hi)
    · rw [step_creating he new] at hi ⊢
      suffices h : i = (run script).entries.length ∨ i ∈ (run script).stack by
        rw [List.length_append, length_touched]
        exact h.elim (fun h => h ▸ Nat.lt_succ_self _) fun h => Nat.lt_succ_of_lt (ih i h)
      dsimp only at hi
      split at hi
      · exact List.mem_cons.mp hi
      · exact .inr hi

/-! ## Problems -/

/-- A problem is never forgotten. -/
theorem problem_of_step (h : (b.step c).problem = none) : b.problem = none := by
  have kept {fault : Prop} [Decidable fault] {p : Option SourceProblem}
      (h : (if fault then b.problem.or p else b.problem) = none) : b.problem = none := by
    split at h
    · exact (Option.or_eq_none_iff.mp h).1
    · exact h
  obtain ⟨stop, rfl⟩ | ⟨e, he, new, -⟩ := c.leave_or_entry?
  · rw [step_leave] at h
    exact kept h
  · rw [step_creating he new] at h
    exact kept h

/-- A node outside the first one is a problem. -/
theorem stack_ne_nil_of_problem (he : c.entry? = some e) (new : e.parent = none)
    (h : (b.step c).problem = none) (hn : b.entries ≠ []) : b.stack ≠ [] := by
  intro hs
  rw [step_creating he new] at h
  simp [hs, hn] at h

/-! ## What is left at the end -/

/-- **What it takes to finish**: no problem, and no open node. -/
theorem finish_eq_ok {grammar : String} {a : Arena} :
    b.finish grammar = .ok a ↔
      b.problem = none ∧ b.stack = [] ∧ a = ⟨raiseAll b.entries⟩ := by
  rcases b with ⟨entries, _ | ⟨i, rest⟩, _ | p⟩
  · simp [finish, eq_comm]
  · simp [finish]
  · unfold finish
    dsimp only
    split <;> simp
  · simp [finish]

section Raise

variable {β : Type} {g : Entry → β} (h : ∀ e : Entry, g { e with error := true } = g e)
include h

/-- A view of entries that does not show errors does not show that one is made known. -/
theorem map_raise (entries : List Entry) (i : Nat) : (raise entries i).map g = entries.map g := by
  unfold raise
  split
  · exact Entry.map_modify h entries _
  · rfl

/-- A view of entries that does not show errors does not show that they are made known. -/
theorem map_raiseAll (entries : List Entry) : (raiseAll entries).map g = entries.map g := by
  unfold raiseAll
  induction (List.range entries.length).reverse using List.reverseRecOn with
  | nil => rfl
  | append_singleton indices i ih =>
    rw [List.foldl_append, List.foldl_cons, List.foldl_nil, map_raise h, ih]

end Raise

end Builder

/-- **The nodes of a finished arena** are those of the calls that created them. -/
theorem Arena.map_bare_build {grammar : String} {script : List Call} {a : Arena}
    (h : Arena.build grammar script = .ok a) :
    a.entries.map Entry.bare = (script.filterMap Call.entry?).map Entry.bare := by
  obtain ⟨-, -, rfl⟩ := Builder.finish_eq_ok.mp h
  rw [Builder.map_raiseAll fun _ => rfl, Builder.map_bare_run]

end TreeBroker
