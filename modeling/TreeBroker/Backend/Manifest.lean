import TreeBroker.Text.Sorted
import TreeBroker.Json
import TreeBroker.Text.Diagnostic

/-!
# What a backend declares

A backend declares the methods that its languages, parsers, trees and nodes
have. Backends name the same method differently, so a method is looked up under
its canonical name first and then under the aliases known for it, in order.
What the rest of the library wants to know is boiled down to nine capabilities.
-/

namespace TreeBroker

/-- **The constructs that have methods.** -/
inductive Construct where
  /-- A loaded language. -/
  | language
  /-- A parser. -/
  | parser
  /-- A tree. -/
  | tree
  /-- A node of a tree. -/
  | node
  deriving Repr, DecidableEq

namespace Construct

/-- The construct as shown. -/
def display : Construct → String
  | language => "language"
  | parser => "parser"
  | tree => "tree"
  | node => "node"

/-- All constructs. -/
def all : List Construct := [language, parser, tree, node]

/-- **The aliases** of each canonical method name. -/
def aliasTable : Construct → List (String × List String)
  | language =>
    [("load_language", ["from_library", "from_grammar", "load", "new"]),
      ("name", ["language_name"])]
  | parser =>
    [("new", ["create"]), ("set_language", ["language=", "set_grammar"]),
      ("parse", ["parse_string_full"]), ("reparse", ["parse_string", "parse_with_old_tree"])]
  | tree => [("root_node", ["root"]), ("edit", [])]
  | node =>
    [("kind", ["type", "node_type"]), ("start_byte", []), ("end_byte", []), ("child_count", []),
      ("child", ["child_at"]), ("start_point", ["start_position"]),
      ("end_point", ["end_position"]), ("text", ["utf8_text", "to_s"]),
      ("has_error", ["has_error?", "contains_error"]), ("is_missing", ["missing", "missing?"]),
      ("is_named", ["named", "named?"]), ("parent", []), ("next_sibling", ["next"]),
      ("prev_sibling", ["previous_sibling", "prev"]),
      ("child_by_field_name", ["field", "child_by_field"])]

/-- The aliases of one method. -/
def aliases (c : Construct) (canonical : String) : List String :=
  ((c.aliasTable.find? fun (name, _) => name == canonical).map (·.2)).getD []

end Construct

/-- **A manifest**: the methods declared for each construct, as a set that is
kept in the order of declaration and read by membership. -/
structure Manifest where
  /-- Methods of languages. -/
  language : List String := []
  /-- Methods of parsers. -/
  parser : List String := []
  /-- Methods of trees. -/
  tree : List String := []
  /-- Methods of nodes. -/
  node : List String := []
  deriving Repr, DecidableEq, Inhabited

namespace Manifest

/-- The methods declared for a construct. -/
def methods (m : Manifest) : Construct → List String
  | .language => m.language
  | .parser => m.parser
  | .tree => m.tree
  | .node => m.node

/-- **A manifest that declares more.** -/
def declare (m : Manifest) (c : Construct) (names : List String) : Manifest :=
  match c with
  | .language => { m with language := m.language ++ names }
  | .parser => { m with parser := m.parser ++ names }
  | .tree => { m with tree := m.tree ++ names }
  | .node => { m with node := m.node ++ names }

/-- **The declared name of a method**: its canonical one, or else the first of
its aliases that is declared. -/
def resolve (m : Manifest) (c : Construct) (canonical : String) : Option String :=
  if (m.methods c).contains canonical then some canonical
  else (c.aliases canonical).find? fun name => (m.methods c).contains name

/-- A method is declared under some name. -/
def provides (m : Manifest) (c : Construct) (canonical : String) : Bool :=
  (m.resolve c canonical).isSome

/-- The least that a working backend declares. -/
def minimal : Manifest where
  language := ["load"]
  parser := ["create", "set_grammar", "parse"]
  tree := ["root"]
  node := ["type", "start_byte", "end_byte", "child_count", "child_at"]

/-- The fields of a manifest. -/
def keys : List String := ["language", "parser", "tree", "node"]

/-- A manifest as data, each set sorted. -/
def toJson (m : Manifest) : Json :=
  .object (Construct.all.map fun c => (c.display, .strings (Sorted.ofList (m.methods c))))

/-- A manifest from data. -/
def ofJson? (j : Json) : Option Manifest := do
  let [l, p, t, n] ← j.fields? keys | none
  return ⟨← l.toStrings?, ← p.toStrings?, ← t.toStrings?, ← n.toStrings?⟩

@[simp] theorem methods_declare (m : Manifest) (c d : Construct) (names : List String) :
    (m.declare c names).methods d = if c = d then m.methods d ++ names else m.methods d := by
  cases c <;> cases d <;> rfl

end Manifest

/-- **The capabilities of a backend** that other parts of the library ask for. -/
structure Capabilities where
  /-- A parser can use an old tree. -/
  incremental : Bool
  /-- A tree takes edits. -/
  editing : Bool
  /-- A child can be found by its field. -/
  fieldLookup : Bool
  /-- Nodes know their points. -/
  points : Bool
  /-- Nodes know their text. -/
  nativeText : Bool
  /-- Nodes know their parent. -/
  parent : Bool
  /-- Nodes know their siblings. -/
  siblings : Bool
  /-- Nodes know whether they are missing. -/
  missingFlag : Bool
  /-- Nodes know whether they are named. -/
  namedFlag : Bool
  deriving Repr, DecidableEq, Inhabited

namespace Capabilities

/-- **The capabilities that a manifest amounts to.** -/
def ofManifest (m : Manifest) : Capabilities where
  incremental := m.provides .parser "reparse"
  editing := m.provides .tree "edit"
  fieldLookup := m.provides .node "child_by_field_name"
  points := m.provides .node "start_point" && m.provides .node "end_point"
  nativeText := m.provides .node "text"
  parent := m.provides .node "parent"
  siblings := m.provides .node "next_sibling" && m.provides .node "prev_sibling"
  missingFlag := m.provides .node "is_missing"
  namedFlag := m.provides .node "is_named"

/-- Every capability. -/
def all : Capabilities := ⟨true, true, true, true, true, true, true, true, true⟩

/-- The names of the capabilities. -/
def keys : List String :=
  ["incremental", "editing", "field_lookup", "points", "native_text", "parent", "siblings",
    "missing_flag", "named_flag"]

/-- The capabilities in the order of their names. -/
def flags (c : Capabilities) : List Bool :=
  [c.incremental, c.editing, c.fieldLookup, c.points, c.nativeText, c.parent, c.siblings,
    c.missingFlag, c.namedFlag]

/-- The capabilities as data. -/
def toJson (c : Capabilities) : Json := .object (keys.zip (c.flags.map .bool))

/-- The capabilities from data. -/
def ofJson? (j : Json) : Option Capabilities := do
  let [i, e, f, p, t, u, s, m, n] ← (← j.fields? keys).mapM Json.toBool? | none
  return ⟨i, e, f, p, t, u, s, m, n⟩

/-- The diagnostic form. -/
def diagnostic (c : Capabilities) : String :=
  Diagnostic.record "Capabilities" (keys.zip (c.flags.map Diagnostic.bool))

end Capabilities

end TreeBroker
