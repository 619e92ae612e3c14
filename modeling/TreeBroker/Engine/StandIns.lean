import TreeBroker.Arena.Script
import TreeBroker.Language

/-!
# Stand-ins for native languages

What a native language makes of a source is not part of this library: a language
is whatever its parser does (`NativeLanguage`), and every result about native
parsers holds for all of them. A build has some languages linked in. The two below
stand in for those, as far as small sources go: in Rust, functions without
parameters and bodies and structures without fields; in C#, classes without
members. Items stand one after another with white space between them. A node spans
its tokens from the first to the last, and the root begins at the first token and
ends with the source. An old tree makes no difference to a stand-in.
-/

namespace TreeBroker

/-- **A token of a source**, with its place in bytes. -/
structure SourceToken where
  /-- The text. -/
  text : String
  /-- Where it begins. -/
  start : Nat
  /-- Where it ends. -/
  stop : Nat
  deriving Repr, DecidableEq

/-- **The languages that are stood in for.** -/
inductive StandIn where
  /-- Rust. -/
  | rust
  /-- C#. -/
  | cSharp
  deriving Repr, DecidableEq

namespace StandIn

/-- The tokens of a source from an offset on: words of letters and single
characters. `word` is the word being read, with the offset it began at. -/
def tokensFrom (offset : Nat) (word : List Char) : List Char → List SourceToken
  | [] => flush offset word
  | c :: cs =>
    let next := offset + c.utf8Size
    if Ascii.isAlphanum c || c == '_' then tokensFrom next (word ++ [c]) cs
    else if Text.isWhiteSpace c then flush offset word ++ tokensFrom next [] cs
    else flush offset word ++ ⟨String.singleton c, offset, next⟩ :: tokensFrom next [] cs
where
  /-- The word that ends at an offset. -/
  flush (offset : Nat) (word : List Char) : List SourceToken :=
    if word.isEmpty then [] else [⟨String.ofList word, offset - word.length, offset⟩]

/-- The tokens of a source. -/
def tokens (source : String) : List SourceToken := tokensFrom 0 [] source.toList

/-- A token as punctuation. -/
def mark (t : SourceToken) : Call := .anonymous t.text t.start t.stop

/-- A pair of brackets as a node. -/
def pair (field kind : String) (l r : SourceToken) : List Call :=
  [.enter (some field) kind l.start, mark l, mark r, .leave r.stop]

/-- **The items of a Rust source.** What is none of the known items ends the
reading. -/
def rustItems : List SourceToken → List Call
  | f :: n :: l :: r :: o :: c :: rest =>
    if f.text = "fn" then
      [.enter none "function_item" f.start, mark f,
        .leaf (some "name") "identifier" n.start n.stop] ++
        pair "parameters" "parameters" l r ++ pair "body" "block" o c ++
        .leave c.stop :: rustItems rest
    else if f.text = "struct" then
      [.enter none "struct_item" f.start, mark f,
        .leaf (some "name") "type_identifier" n.start n.stop, mark l, .leave l.stop] ++
        rustItems (r :: o :: c :: rest)
    else []
  | s :: n :: e :: rest =>
    if s.text = "struct" then
      [.enter none "struct_item" s.start, mark s,
        .leaf (some "name") "type_identifier" n.start n.stop, mark e, .leave e.stop] ++
        rustItems rest
    else []
  | _ => []

/-- **The items of a C# source.** -/
def cSharpItems : List SourceToken → List Call
  | k :: n :: o :: c :: rest =>
    if k.text = "class" then
      [.enter none "class_declaration" k.start, mark k,
        .leaf (some "name") "identifier" n.start n.stop] ++
        pair "body" "declaration_list" o c ++ .leave c.stop :: cSharpItems rest
    else []
  | _ => []

/-- The kind of the root. -/
def rootKind : StandIn → String
  | rust => "source_file"
  | cSharp => "compilation_unit"

/-- The items of a source. -/
def items : StandIn → List SourceToken → List Call
  | rust => rustItems
  | cSharp => cSharpItems

/-- The calls for a source. -/
def calls (language : StandIn) (source : String) : List Call :=
  let ts := tokens source
  let stop := Utf8.length source.toList
  let start := ((ts.head?).map (·.start)).getD stop
  .enter none language.rootKind start :: language.items ts ++ [.leave stop]

/-- **The tree of a source.** -/
def parse? (language : StandIn) (source : String) : Option Arena :=
  (Arena.build "tree-sitter" (language.calls source)).toOption

end StandIn

namespace NativeLanguage

/-- A language that is stood in for. -/
def standIn (language : StandIn) : NativeLanguage := ⟨14, fun _ => language.parse?⟩

/-- Rust. -/
def rust : NativeLanguage := standIn .rust

/-- C#. -/
def cSharp : NativeLanguage := standIn .cSharp

/-- **The table of stand-ins**, by the symbols that a build has linked in. -/
def standIns : List (String × NativeLanguage) :=
  [("tree_sitter_rust", rust), ("tree_sitter_c_sharp", cSharp)]

end NativeLanguage

end TreeBroker
