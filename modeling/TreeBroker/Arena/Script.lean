import TreeBroker.Arena.Basic
import TreeBroker.Error

/-!
# Building arenas

A grammar reports the tree it finds as a script of calls: a node is entered and
left again, and between the two the nodes created are its children; leaves are
created in one call. Which scripts make a tree is decided at the end – a stray
`leave` or a second root does not stop the script, it is remembered, and the
first such problem is the one reported.
-/

namespace TreeBroker

/-- **A call of a builder's script.** -/
inductive Call where
  /-- A node begins; it stays open until it is left. -/
  | enter (field : Option String) (kind : String) (start : Nat)
  /-- The innermost open node ends. -/
  | leave (stop : Nat)
  /-- A named node without children. -/
  | leaf (field : Option String) (kind : String) (start stop : Nat)
  /-- Punctuation. -/
  | anonymous (kind : String) (start stop : Nat)
  /-- A node that the source lacks at an offset. -/
  | missing (kind : String) (offset : Nat)
  /-- Source that was not understood. -/
  | error (start stop : Nat)
  deriving Repr, DecidableEq

/-- The entry that a call creates, without its links; `none` for `leave`. -/
def Call.entry? : Call → Option Entry
  | enter field kind start => some ⟨kind, start, start, true, false, false, field, none, []⟩
  | leave _ => none
  | leaf field kind start stop => some ⟨kind, start, stop, true, false, false, field, none, []⟩
  | anonymous kind start stop => some ⟨kind, start, stop, false, false, false, none, none, []⟩
  | missing kind offset => some ⟨kind, offset, offset, true, true, true, none, none, []⟩
  | error start stop =>
    some ⟨Entry.errorKind, start, stop, true, false, true, none, none, []⟩

/-- **A builder at work.** -/
structure Builder where
  /-- The entries so far. -/
  entries : List Entry := []
  /-- The open nodes, innermost first. -/
  stack : List Nat := []
  /-- The first problem met. -/
  problem : Option SourceProblem := none
  deriving Repr, DecidableEq

namespace Builder

/-- A problem is remembered if it is the first. -/
def note (b : Builder) (p : SourceProblem) : Builder := { b with problem := b.problem.or (some p) }

/-- A new entry, linked to the innermost open node. -/
def push (b : Builder) (e : Entry) : Builder :=
  match b.stack with
  | [] =>
    let b' := if b.entries.isEmpty then b else b.note .secondRoot
    { b' with entries := b.entries ++ [e] }
  | parent :: _ =>
    let linked := b.entries.modify parent fun p =>
      { p with children := p.children ++ [b.entries.length] }
    { b with entries := linked ++ [{ e with parent := some parent }] }

/-- **One call.** -/
def step (b : Builder) (call : Call) : Builder :=
  match call, call.entry? with
  | .enter .., some e =>
    let b' := b.push e
    { b' with stack := b.entries.length :: b'.stack }
  | .leave stop, _ =>
    match b.stack with
    | [] => b.note .strayClose
    | i :: rest =>
      { b with entries := b.entries.modify i fun e => { e with stop := stop }, stack := rest }
  | _, some e => b.push e
  | _, none => b

/-- A script from the start. -/
def run (script : List Call) : Builder := script.foldl step {}

/-- An error is an error of the parent too. -/
def raise (entries : List Entry) (i : Nat) : List Entry :=
  match entries[i]? with
  | some ⟨_, _, _, _, _, true, _, some parent, _⟩ =>
    entries.modify parent fun p => { p with error := true }
  | _ => entries

/-- **Errors made known to all ancestors.** Children have larger indices than
their parents, so one pass from the last entry to the first is enough. -/
def raiseAll (entries : List Entry) : List Entry :=
  (List.range entries.length).reverse.foldl raise entries

/-- **The arena of a finished builder.** -/
def finish (b : Builder) (grammar : String) : Except GrammarError Arena :=
  match b.problem, b.stack with
  | some p, _ => .error ⟨grammar, p, 0⟩
  | none, i :: _ =>
    match b.entries[i]? with
    | some e => .error ⟨grammar, .unclosed e.kind, e.start⟩
    | none => .error ⟨grammar, .unclosed "", 0⟩
  | none, [] => .ok ⟨raiseAll b.entries⟩

end Builder

/-- **The arena that a script builds** for a grammar. -/
def Arena.build (grammar : String) (script : List Call) : Except GrammarError Arena :=
  (Builder.run script).finish grammar

end TreeBroker
