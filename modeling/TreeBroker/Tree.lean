import TreeBroker.Backend.Manifest
import TreeBroker.Engine.Tree

/-!
# Trees and nodes

A tree is an engine's tree with its source and the capabilities of the backend that
made it. Its nodes answer the same questions whatever the backend: what the
backend is able to tell is taken from it, the rest is worked out – points and
text from the source, siblings from the parent's children – and what cannot be
worked out is answered in the plainest way.
-/

namespace TreeBroker

/-- **A tree.** -/
structure Tree where
  /-- The engine's tree. -/
  native : NativeTree
  /-- The source it was parsed from. -/
  source : String
  /-- The backend that made it. -/
  backend : BackendKind
  /-- What that backend is able to tell. -/
  capabilities : Capabilities

/-- **A node of a tree.** -/
structure Node where
  /-- The tree. -/
  tree : Tree
  /-- Its index in the engine's tree. -/
  index : Nat

/-- **What nodes are sorted by**: beginning, end, kind. -/
structure PositionKey where
  /-- Where it begins. -/
  start : Nat
  /-- Where it ends. -/
  stop : Nat
  /-- The kind. -/
  kind : String
  deriving Repr, DecidableEq

/-- Keys in order. Kinds are compared by their bytes. -/
def PositionKey.cmp (a b : PositionKey) : Ordering :=
  ((compare a.start b.start).then (compare a.stop b.stop)).then (compare a.kind b.kind)

namespace Tree

/-- The source in bytes. -/
def bytes (t : Tree) : List UInt8 := Utf8.bytes t.source

/-- A node by its index. -/
def node (t : Tree) (i : Nat) : Node := ⟨t, i⟩

/-- **The root**, if there is one. -/
def root? (t : Tree) : Option Node := t.native.root?.map t.node

/-- **An edit**, for trees of a backend that supports it. -/
def edit (t : Tree) (e : Edit) : Except Error Tree :=
  if !t.capabilities.editing then .error (.notSupported (.noEditing t.backend))
  else (t.native.edit e).map fun native => { t with native }

/-- The diagnostic form. -/
def diagnostic (t : Tree) : String :=
  Diagnostic.record "Tree"
    [("backend", t.backend.diagnostic), ("source_len", toString t.bytes.length),
      ("inner", t.native.diagnostic)]

end Tree

namespace Node

/-- The engine's tree. -/
def native (n : Node) : NativeTree := n.tree.native

/-- What its backend is able to tell. -/
def capabilities (n : Node) : Capabilities := n.tree.capabilities

/-- The kind. -/
def kind (n : Node) : String := n.native.kind n.index

/-- Where it begins. -/
def start (n : Node) : Nat := n.native.start n.index

/-- Where it ends. -/
def stop (n : Node) : Nat := n.native.stop n.index

/-- An answer of the engine, where the backend is able to give one. -/
def ask {α : Type} (able : Bool) (answer : Option α) : Option α := if able then answer else none

/-- **The point it begins at.** -/
def startPoint (n : Node) : Point :=
  (ask n.capabilities.points (n.native.startPoint? n.index)).getD
    (Point.ofOffset n.tree.bytes n.start)

/-- **The point it ends at.** -/
def endPoint (n : Node) : Point :=
  (ask n.capabilities.points (n.native.endPoint? n.index)).getD
    (Point.ofOffset n.tree.bytes n.stop)

/-- **Its text**: what the engine says, or its piece of the source. A piece that
begins or ends inside a character is shown as well as can be. -/
def text (n : Node) : String :=
  (ask n.capabilities.nativeText (n.native.text? n.index)).getD
    (Utf8.display (Utf8.slice n.tree.bytes n.start n.stop))

/-- Whether there is an error in it. -/
def hasError (n : Node) : Bool := n.native.hasError n.index

/-- Whether the source lacks it; not known to, where the backend cannot tell. -/
def isMissing (n : Node) : Bool :=
  (ask n.capabilities.missingFlag (n.native.missing? n.index)).getD false

/-- Whether it is named; taken to be, where the backend cannot tell. -/
def isNamed (n : Node) : Bool :=
  (ask n.capabilities.namedFlag (n.native.named? n.index)).getD true

/-- The number of children that the engine reports. -/
def childCount (n : Node) : Nat := n.native.childCount n.index

/-- A child by its position. -/
def child? (n : Node) (position : Nat) : Option Node :=
  (n.native.child? n.index position).map n.tree.node

/-- **The children** that can be reached. -/
def children (n : Node) : List Node := (List.range n.childCount).filterMap n.child?

/-- The named children. -/
def namedChildren (n : Node) : List Node := n.children.filter isNamed

/-- The number of named children. -/
def namedChildCount (n : Node) : Nat := n.children.countP isNamed

/-- **The parent**, where the backend is able to tell. -/
def parent? (n : Node) : Option Node :=
  (ask n.capabilities.parent (n.native.parent? n.index)).map n.tree.node

/-- What tells nodes apart. -/
def identity (n : Node) : Nat × Nat := n.native.nodeIdentity n.index

/-- The same node. -/
def isSame (a b : Node) : Bool := a.identity == b.identity

instance : BEq Node := ⟨isSame⟩

instance : Hashable Node := ⟨fun n => hash n.identity⟩

/-- Its position among the children of its parent. -/
def position? (n : Node) : Option (Node × Nat) := do
  let parent ← n.parent?
  let position ← (List.range parent.childCount).find? fun i =>
    (parent.child? i).any fun c => c.isSame n
  return (parent, position)

/-- **The next sibling**: the engine's answer, or what follows it among the
children of its parent. -/
def nextSibling? (n : Node) : Option Node :=
  if n.capabilities.siblings then (n.native.nextSibling? n.index).map n.tree.node
  else n.position?.bind fun (parent, position) => parent.child? (position + 1)

/-- **The previous sibling.** -/
def prevSibling? (n : Node) : Option Node :=
  if n.capabilities.siblings then (n.native.prevSibling? n.index).map n.tree.node
  else
    n.position?.bind fun (parent, position) =>
      match position with
      | 0 => none
      | before + 1 => parent.child? before

/-- The child under a field, where the backend is able to tell. -/
def childByField? (n : Node) (field : String) : Option Node :=
  (ask n.capabilities.fieldLookup (n.native.childByField? n.index field)).map n.tree.node

/-- The number of nodes below and including a node, counted down to a depth. -/
def weight : (depth : Nat) → Node → Nat
  | 0, _ => 1
  | depth + 1, n => 1 + (n.children.map (weight depth)).sum

/-- The walk over a stack of nodes: the top one is visited, and its children take
its place. -/
def walk : (steps : Nat) → List Node → List Node
  | 0, _ => []
  | _ + 1, [] => []
  | steps + 1, n :: stack => n :: walk steps (n.children ++ stack)

/-- **The node and all below it**, each before its children. A path from the root
is no longer than the tree has nodes, which bounds the walk. -/
def descendants (n : Node) : List Node := walk (weight n.native.size n) [n]

/-- What it is sorted by. -/
def positionKey (n : Node) : PositionKey := ⟨n.start, n.stop, n.kind⟩

/-- Nodes in order of their keys. -/
def cmp (a b : Node) : Ordering := a.positionKey.cmp b.positionKey

/-- The diagnostic form. -/
def diagnostic (n : Node) : String :=
  Diagnostic.wrapped "Node" (n.kind ++ " " ++ toString n.start ++ ".." ++ toString n.stop)

/-- A step of a walk through a tree. -/
inductive Step where
  /-- To a child. -/
  | child (position : Nat)
  /-- To the parent. -/
  | parent
  /-- To the next sibling. -/
  | next
  /-- To the previous sibling. -/
  | prev
  /-- To the child under a field. -/
  | field (name : String)
  deriving Repr, DecidableEq

/-- One step. -/
def go? (n : Node) : Step → Option Node
  | .child position => n.child? position
  | .parent => n.parent?
  | .next => n.nextSibling?
  | .prev => n.prevSibling?
  | .field name => n.childByField? name

/-- Several steps. -/
def goAll? (n : Node) (steps : List Step) : Option Node := steps.foldlM go? n

end Node

end TreeBroker
