import TreeBroker.Text.Diagnostic

/-!
# Arenas

The tree of a grammar is an *arena*: a list of entries, each known by its index,
with the links between them kept as indices. Entry 0 is the root. The entries
stand in the order in which the nodes begin, so the index order is the pre-order
of the tree.

An arena is only ever built from a script of calls (`Arena.build`), and what
holds of every arena so built is not a part of this type; the accessors below
are total and answer `none` where a link leads nowhere.
-/

namespace TreeBroker

/-- **An entry of an arena.** -/
structure Entry where
  /-- The kind of the node. -/
  kind : String
  /-- The byte offset it begins at. -/
  start : Nat
  /-- The byte offset it ends at. -/
  stop : Nat
  /-- A named node, as opposed to punctuation. -/
  named : Bool
  /-- A node that the source lacks. -/
  missing : Bool
  /-- The node is an error or has one below it. -/
  error : Bool
  /-- The field under which its parent knows it. -/
  field : Option String
  /-- The index of its parent. -/
  parent : Option Nat
  /-- The indices of its children, in order. -/
  children : List Nat
  deriving Repr, DecidableEq, Inhabited

/-- **An arena of nodes.** -/
structure Arena where
  /-- The entries, in the order in which their nodes begin. -/
  entries : List Entry
  deriving Repr, DecidableEq, Inhabited

/-- The kind of a node that stands for source not understood. -/
def Entry.errorKind : String := "ERROR"

/-- The span of an entry as shown. -/
def Entry.label (e : Entry) : String :=
  e.kind ++ " " ++ toString e.start ++ ".." ++ toString e.stop

/-- The diagnostic form of an entry. -/
def Entry.diagnostic (e : Entry) : String :=
  Diagnostic.record "NodeData"
    [("kind", Quoted.text e.kind), ("start", toString e.start), ("end", toString e.stop),
      ("named", Diagnostic.bool e.named), ("missing", Diagnostic.bool e.missing),
      ("error", Diagnostic.bool e.error), ("field", Diagnostic.option (e.field.map Quoted.text)),
      ("parent", Diagnostic.option (e.parent.map toString)),
      ("children", Diagnostic.list (e.children.map toString))]

namespace Arena

/-- The number of nodes. -/
def size (a : Arena) : Nat := a.entries.length

/-- The entry at an index. -/
def get? (a : Arena) (i : Nat) : Option Entry := a.entries[i]?

/-- The index of the root, if there is one. -/
def root? (a : Arena) : Option Nat := if a.entries.isEmpty then none else some 0

/-- The children of a node. -/
def children (a : Arena) (i : Nat) : List Nat := ((a.get? i).map (·.children)).getD []

/-- A child by its position. -/
def child? (a : Arena) (i position : Nat) : Option Nat := (a.children i)[position]?

/-- The parent of a node. -/
def parent? (a : Arena) (i : Nat) : Option Nat := (a.get? i).bind (·.parent)

/-- The position of an index in a list of siblings. -/
def position? (siblings : List Nat) (i : Nat) : Option Nat := siblings.findIdx? (· == i)

/-- **The next sibling**: what follows the node among its parent's children. -/
def nextSibling? (a : Arena) (i : Nat) : Option Nat := do
  let siblings := a.children (← a.parent? i)
  let position ← position? siblings i
  siblings[position + 1]?

/-- **The previous sibling.** -/
def prevSibling? (a : Arena) (i : Nat) : Option Nat := do
  let siblings := a.children (← a.parent? i)
  match ← position? siblings i with
  | 0 => none
  | position + 1 => siblings[position]?

/-- **The first child under a field.** -/
def childByField? (a : Arena) (i : Nat) (field : String) : Option Nat :=
  (a.children i).find? fun j => ((a.get? j).bind (·.field)) == some field

/-- The diagnostic form of a node. -/
def nodeDiagnostic (a : Arena) (i : Nat) : String :=
  Diagnostic.wrapped "GrammarNode" (((a.get? i).map Entry.label).getD "")

/-- The diagnostic form of an arena. -/
def diagnostic (a : Arena) : String :=
  Diagnostic.record "GrammarTree" [("nodes", Diagnostic.list (a.entries.map Entry.diagnostic))]

end Arena

end TreeBroker
