import TreeBroker.Arena.Basic
import TreeBroker.Position
import TreeBroker.Error

/-!
# The trees of engines

Each engine has trees of its own make, and what their nodes can tell differs: a
node of a native parser knows its points and not its text, a node of a grammar
knows neither, a node of a foreign engine answers what its engine lists for it.
A node is known by its index in its tree, and every question below may be
answered with "does not say".

Trees are objects: a node is equal to itself only, and never to a node of
another tree.
-/

namespace TreeBroker

/-- **A node of a foreign engine**, as a list of its answers. Links are indices
in the list of nodes, and an index outside of it leads nowhere. -/
structure ForeignNode where
  /-- The kind. -/
  kind : String
  /-- Where it begins. -/
  start : Nat
  /-- Where it ends. -/
  stop : Nat
  /-- The children. -/
  children : List Nat
  /-- The number of children it claims to have, if not that of the list. -/
  childCount : Option Nat
  /-- The number it is identified by, if not its index. -/
  number : Option Nat
  /-- The parent. -/
  parent : Option Nat
  /-- The next sibling. -/
  next : Option Nat
  /-- The previous sibling. -/
  prev : Option Nat
  /-- The text. -/
  text : Option String
  /-- The point it begins at. -/
  startPoint : Option Point
  /-- The point it ends at. -/
  endPoint : Option Point
  /-- Whether there is an error in it. -/
  error : Bool
  /-- Whether the source lacks it. -/
  missing : Option Bool
  /-- Whether it is named. -/
  named : Option Bool
  /-- Children by field. -/
  fields : List (String × Nat)
  deriving Repr, Inhabited

/-- **A tree of a foreign engine.** A minimal one answers only what every engine
has to answer. -/
structure ForeignTree where
  /-- The nodes, the root first. -/
  nodes : List ForeignNode
  /-- Only the required questions are answered. -/
  minimal : Bool
  deriving Repr, Inhabited

/-- **A tree of a native parser**, with the edits of its source since. What its nodes
answer is told of a tree without edits; an edited one is of use for nothing but
parsing again. -/
structure LinkedTree where
  /-- The nodes. -/
  arena : Arena
  /-- The source, which gives the points. -/
  source : List UInt8
  /-- The edits, in order. -/
  edits : List Edit := []
  deriving Inhabited

/-- **A tree of an engine.** -/
inductive NativeTree where
  /-- A tree of a native parser, which knows its source's points. -/
  | linked (identity : Nat) (tree : LinkedTree)
  /-- A tree of a grammar. -/
  | grammar (identity : Nat) (arena : Arena)
  /-- A tree of a foreign engine. -/
  | foreign (identity : Nat) (tree : ForeignTree)
  deriving Inhabited

namespace NativeTree

/-- The number that tells it from every other tree. -/
def identity : NativeTree → Nat
  | linked n _ => n
  | grammar n _ => n
  | foreign n _ => n

/-- The identifier of its make. -/
def identifier : NativeTree → String
  | linked .. => "tree_sitter"
  | grammar .. => "grammar"
  | foreign _ t => if t.minimal then "opaque" else "other"

/-- The arena of a tree that has one. -/
def arena? : NativeTree → Option Arena
  | linked _ t => some t.arena
  | grammar _ a => some a
  | foreign .. => none

/-- The tree of a native parser, where it is one. -/
def linked? : NativeTree → Option LinkedTree
  | linked _ t => some t
  | _ => none

/-- The number of nodes. -/
def size : NativeTree → Nat
  | linked _ t => t.arena.size
  | grammar _ a => a.size
  | foreign _ t => t.nodes.length

/-- The root, if there is one. -/
def root? (t : NativeTree) : Option Nat := if t.size = 0 then none else some 0

/-! ## Questions that every engine answers -/

/-- The entry of a node in an arena. -/
def entry (t : NativeTree) (i : Nat) : Entry := ((t.arena?.bind (·.get? i))).getD default

/-- A node of a foreign tree. -/
def foreignNode? : NativeTree → Nat → Option ForeignNode
  | foreign _ t, i => t.nodes[i]?
  | _, _ => none

/-- The kind of a node. -/
def kind (t : NativeTree) (i : Nat) : String :=
  match t.foreignNode? i with
  | some n => n.kind
  | none => (t.entry i).kind

/-- Where a node begins. -/
def start (t : NativeTree) (i : Nat) : Nat :=
  match t.foreignNode? i with
  | some n => n.start
  | none => (t.entry i).start

/-- Where a node ends. -/
def stop (t : NativeTree) (i : Nat) : Nat :=
  match t.foreignNode? i with
  | some n => n.stop
  | none => (t.entry i).stop

/-- The number of children of a node. -/
def childCount (t : NativeTree) (i : Nat) : Nat :=
  match t.foreignNode? i with
  | some n => n.childCount.getD n.children.length
  | none => (t.entry i).children.length

/-- A link, if it leads to a node. -/
def within (t : NativeTree) (link : Option Nat) : Option Nat :=
  link.bind fun i => if i < t.size then some i else none

/-- A child by its position. -/
def child? (t : NativeTree) (i position : Nat) : Option Nat :=
  match t.foreignNode? i with
  | some n => t.within n.children[position]?
  | none => t.arena?.bind fun a => a.child? i position

/-- **The identity of a node**: that of its tree, and its own. -/
def nodeIdentity (t : NativeTree) (i : Nat) : Nat × Nat :=
  match t.foreignNode? i with
  | some n => (t.identity, n.number.getD i)
  | none => (t.identity, i)

/-! ## Questions that an engine may leave open -/

/-- A node of a foreign tree that answers all questions. -/
def answering? : NativeTree → Nat → Option ForeignNode
  | foreign _ t, i => if t.minimal then none else t.nodes[i]?
  | _, _ => none

/-- The point a node begins at. -/
def startPoint? (t : NativeTree) (i : Nat) : Option Point :=
  match t with
  | linked _ tree => some (Point.ofOffset tree.source (t.start i))
  | grammar .. => none
  | foreign .. => (t.answering? i).bind (·.startPoint)

/-- The point a node ends at. -/
def endPoint? (t : NativeTree) (i : Nat) : Option Point :=
  match t with
  | linked _ tree => some (Point.ofOffset tree.source (t.stop i))
  | grammar .. => none
  | foreign .. => (t.answering? i).bind (·.endPoint)

/-- The text of a node. -/
def text? (t : NativeTree) (i : Nat) : Option String := (t.answering? i).bind (·.text)

/-- Whether there is an error in a node. -/
def hasError (t : NativeTree) (i : Nat) : Bool :=
  match t with
  | foreign .. => ((t.answering? i).map (·.error)).getD false
  | _ => (t.entry i).error

/-- Whether the source lacks a node. -/
def missing? (t : NativeTree) (i : Nat) : Option Bool :=
  match t with
  | foreign .. => (t.answering? i).bind (·.missing)
  | _ => some (t.entry i).missing

/-- Whether a node is named. -/
def named? (t : NativeTree) (i : Nat) : Option Bool :=
  match t with
  | foreign .. => (t.answering? i).bind (·.named)
  | _ => some (t.entry i).named

/-- The parent of a node. -/
def parent? (t : NativeTree) (i : Nat) : Option Nat :=
  match t with
  | foreign .. => t.within ((t.answering? i).bind (·.parent))
  | _ => t.arena?.bind (·.parent? i)

/-- The next sibling of a node. -/
def nextSibling? (t : NativeTree) (i : Nat) : Option Nat :=
  match t with
  | foreign .. => t.within ((t.answering? i).bind (·.next))
  | _ => t.arena?.bind (·.nextSibling? i)

/-- The previous sibling of a node. -/
def prevSibling? (t : NativeTree) (i : Nat) : Option Nat :=
  match t with
  | foreign .. => t.within ((t.answering? i).bind (·.prev))
  | _ => t.arena?.bind (·.prevSibling? i)

/-- The child of a node under a field. -/
def childByField? (t : NativeTree) (i : Nat) (field : String) : Option Nat :=
  match t with
  | foreign .. =>
    t.within ((t.answering? i).bind fun n =>
      (n.fields.find? fun (f, _) => f == field).map (·.2))
  | _ => t.arena?.bind (·.childByField? i field)

/-- **An edit.** Only the trees of native parsers take edits. -/
def edit (t : NativeTree) (e : Edit) : Except Error NativeTree :=
  match t with
  | linked n tree => .ok (linked n { tree with edits := tree.edits ++ [e] })
  | _ => .error (.notSupported .noReuse)

/-- The diagnostic form. -/
def diagnostic : NativeTree → String
  | grammar _ a => a.diagnostic
  | linked .. => "Tree"
  | foreign .. => "Tree"

end NativeTree

end TreeBroker
