import TreeBroker.Yaml.Lexer

/-!
# Documents as nodes

The tokens of a document are read into a node: a scalar, a sequence or a
mapping. A mapping keeps its entries in order and a key may stand in it twice;
what to do about that is for the reader of the mapping.

A node may be named by an anchor, and an alias stands for a named node, which has
to have begun before. A name gets a number, the number of names known when it is
given, and an alias refers to the number that its name has at that place. A name
that is given again gets a new number without adding to the known names, so the
next new name shares the number; the node that was named last under a number is
the one that all its aliases stand for. An alias may stand within its own node,
which is why a node keeps its aliases and only `Document.view` looks behind one.

Reading goes down one level or on by one entry for each step of `fuel`, and a
step consumes a token or is followed by one that does, so three steps a token
are more than enough.
-/

namespace TreeBroker.Yaml

/-- **A node of a document.** -/
inductive Node where
  /-- A scalar, with its style and its type where one is given. -/
  | scalar (text : String) (style : ScalarStyle) (tag : Option (List UInt8))
  /-- The node that has a number. -/
  | alias (number : Nat)
  /-- A sequence. -/
  | sequence (items : List Node)
  /-- A mapping, as its entries in order. -/
  | mapping (entries : List (Node × Node))
  deriving Inhabited

namespace Node

/-- What stands where nothing was written. -/
def nothing : Node := .scalar "" .plain none

/-- Nothing was written, though a type may have been. -/
def isNothing : Node → Bool
  | .scalar "" .plain _ => true
  | _ => false

end Node

/-- **A document**: its node and the nodes that have numbers. -/
structure Document where
  /-- The node of the document. -/
  root : Node
  /-- The nodes by number, the one named last in front. -/
  numbered : List (Nat × Node) := []
  deriving Inhabited

/-- **What a node stands for**: an alias for the node of its number, any other
node for itself. -/
def Document.view (d : Document) : Node → Node
  | .alias number => ((d.numbered.find? fun (n, _) => n == number).map (·.2)).getD .nothing
  | n => n

/-- What is left to read, and what is known. -/
structure ReadState where
  /-- The tokens left. -/
  tokens : List Token
  /-- What handles stand for. -/
  handles : List (List Char × List UInt8) := knownHandles
  /-- The numbers of names, each name once. -/
  names : List (String × Nat) := []
  /-- The numbers that were given, the latest first. -/
  numbers : List Nat := []
  /-- The named nodes that have ended, each with how many were named before it. -/
  nodes : List (Nat × Node) := []

/-- A reader of tokens, which may refuse. -/
abbrev Read (α : Type) := ReadState → Option (α × ReadState)

namespace ReadState

/-- The next token. -/
def peek (s : ReadState) : Option Token := s.tokens.head?

/-- The state after the next token. -/
def advance (s : ReadState) : ReadState := { s with tokens := s.tokens.drop 1 }

/-- The next token is one of these. -/
def nextIs (s : ReadState) (ts : List Token) : Bool :=
  match s.peek with
  | some t => ts.contains t
  | none => false

/-- The type that a handle and a suffix give; `none` where the handle is not
known. -/
def typeOf? (s : ReadState) (handle : List Char) (suffix : List UInt8) : Option (List UInt8) :=
  if handle.isEmpty then some suffix
  else (s.handles.find? fun (h, _) => h == handle).map fun (_, stem) => stem ++ suffix

/-- A node is given a name. -/
def giveName (s : ReadState) (name : String) : ReadState :=
  let number := s.names.length
  let names :=
    if s.names.any fun (n, _) => n == name then
      s.names.map fun (n, k) => if n == name then (n, number) else (n, k)
    else s.names ++ [(name, number)]
  { s with names := names, numbers := number :: s.numbers }

/-- The name in front of a node, as how many were given before it. -/
def readName (s : ReadState) : Option Nat × ReadState :=
  match s.tokens with
  | .anchor a :: rest => (some s.numbers.length, { s with tokens := rest }.giveName a)
  | _ => (none, s)

/-- The type in front of a node. -/
def readType (s : ReadState) : Option (Option (List UInt8) × ReadState) :=
  match s.tokens with
  | .tag handle suffix :: rest =>
    (s.typeOf? handle suffix).map fun t => (some t, { s with tokens := rest })
  | _ => some (none, s)

/-- The name and the type in front of a node, in either order. -/
def properties (s : ReadState) : Option (Option Nat × Option (List UInt8) × ReadState) := do
  match s.readName with
  | (some serial, s) =>
    let (tag, s) ← s.readType
    return (some serial, tag, s)
  | (none, s) =>
    let (tag, s) ← s.readType
    match tag with
    | none => return (none, none, s)
    | some _ =>
      let (serial, s) := s.readName
      return (serial, tag, s)

/-- A named node has ended. -/
def keep (s : ReadState) (serial : Option Nat) (n : Node) : ReadState :=
  match serial with
  | some k => { s with nodes := (k, n) :: s.nodes }
  | none => s

/-- The nodes by number, the one named last in front. -/
def numbered (s : ReadState) : List (Nat × Node) :=
  let given := s.numbers.length
  s.numbers.zipIdx.filterMap fun (number, i) =>
    (s.nodes.find? fun (k, _) => k + i + 1 == given).map fun (_, n) => (number, n)

end ReadState

open ReadState

mutual

/-- **A node.** Block collections are read where `block` holds, and where
`indentless` holds a sequence may stand at its mapping's own indentation. -/
def readNode : Nat → (block indentless : Bool) → Read Node
  | 0, _, _, _ => none
  | fuel + 1, block, indentless, s =>
    match s.peek with
    | some (.alias name) => do
      let (_, number) ← s.names.find? fun (n, _) => n == name
      return (.alias number, s.advance)
    | _ => do
      let (serial, tag, s) ← s.properties
      let marked := serial.isSome || tag.isSome
      let result : Option (Node × ReadState) :=
        match s.peek with
        | some (.scalar text style) => some (.scalar text style tag, s.advance)
        | some .flowSequenceStart => readFlowItems fuel true [] s.advance
        | some .flowMappingStart => readFlowEntries fuel true [] s.advance
        | some .blockEntry =>
          if indentless then readIndentless fuel [] s
          else if marked then some (.scalar "" .plain tag, s)
          else none
        | some .blockSequenceStart =>
          if block then readBlockItems fuel [] s.advance
          else if marked then some (.scalar "" .plain tag, s)
          else none
        | some .blockMappingStart =>
          if block then readBlockEntries fuel [] s.advance
          else if marked then some (.scalar "" .plain tag, s)
          else none
        | _ => if marked then some (.scalar "" .plain tag, s) else none
      let (n, s) ← result
      return (n, s.keep serial n)

/-- The items of a block sequence. -/
def readBlockItems : Nat → List Node → Read Node
  | 0, _, _ => none
  | fuel + 1, items, s =>
    match s.peek with
    | some .blockEntry =>
      let s := s.advance
      if s.nextIs [.blockEntry, .blockEnd] then readBlockItems fuel (items ++ [.nothing]) s
      else
        match readNode fuel true false s with
        | some (n, s) => readBlockItems fuel (items ++ [n]) s
        | none => none
    | some .blockEnd => some (.sequence items, s.advance)
    | _ => none

/-- The items of a sequence at its mapping's own indentation. -/
def readIndentless : Nat → List Node → Read Node
  | 0, _, _ => none
  | fuel + 1, items, s =>
    match s.peek with
    | some .blockEntry =>
      let s := s.advance
      if s.nextIs [.blockEntry, .key, .value, .blockEnd] then
        readIndentless fuel (items ++ [.nothing]) s
      else
        match readNode fuel true false s with
        | some (n, s) => readIndentless fuel (items ++ [n]) s
        | none => none
    | _ => some (.sequence items, s)

/-- The entries of a block mapping. -/
def readBlockEntries : Nat → List (Node × Node) → Read Node
  | 0, _, _ => none
  | fuel + 1, entries, s =>
    match s.peek with
    | some .key =>
      let s := s.advance
      let key :=
        if s.nextIs [.key, .value, .blockEnd] then some (.nothing, s)
        else readNode fuel true true s
      match key with
      | none => none
      | some (k, s) =>
        match readBlockValue fuel s with
        | some (v, s) => readBlockEntries fuel (entries ++ [(k, v)]) s
        | none => none
    | some .blockEnd => some (.mapping entries, s.advance)
    | _ => none

/-- The value of an entry of a block mapping. -/
def readBlockValue : Nat → Read Node
  | 0, _ => none
  | fuel + 1, s =>
    match s.peek with
    | some .value =>
      let s := s.advance
      if s.nextIs [.key, .value, .blockEnd] then some (.nothing, s) else readNode fuel true true s
    | _ => some (.nothing, s)

/-- The items of a flow sequence; a single pair counts as a mapping. Where the key
of the pair is left out the token in its place is passed over. -/
def readFlowItems : Nat → (first : Bool) → List Node → Read Node
  | 0, _, _, _ => none
  | fuel + 1, first, items, s =>
    if s.nextIs [.flowSequenceEnd] then some (.sequence items, s.advance)
    else if !first && !s.nextIs [.flowEntry] then none
    else
      let s := if first then s else s.advance
      match s.peek with
      | some .flowSequenceEnd => some (.sequence items, s.advance)
      | some .key =>
        let s := s.advance
        let key :=
          if s.nextIs [.value, .flowEntry, .flowSequenceEnd] then some (.nothing, s.advance)
          else readNode fuel false false s
        match key with
        | none => none
        | some (k, s) =>
          match readFlowValue fuel s with
          | some (v, s) => readFlowItems fuel false (items ++ [.mapping [(k, v)]]) s
          | none => none
      | _ =>
        match readNode fuel false false s with
        | some (n, s) => readFlowItems fuel false (items ++ [n]) s
        | none => none

/-- The entries of a flow mapping; a key may stand without a value. -/
def readFlowEntries : Nat → (first : Bool) → List (Node × Node) → Read Node
  | 0, _, _, _ => none
  | fuel + 1, first, entries, s =>
    if s.nextIs [.flowMappingEnd] then some (.mapping entries, s.advance)
    else if !first && !s.nextIs [.flowEntry] then none
    else
      let s := if first then s else s.advance
      match s.peek with
      | some .flowMappingEnd => some (.mapping entries, s.advance)
      | some .key =>
        let s := s.advance
        let key :=
          if s.nextIs [.value, .flowEntry, .flowMappingEnd] then some (.nothing, s)
          else readNode fuel false false s
        match key with
        | none => none
        | some (k, s) =>
          match readFlowValue fuel s with
          | some (v, s) => readFlowEntries fuel false (entries ++ [(k, v)]) s
          | none => none
      | _ =>
        match readNode fuel false false s with
        | some (n, s) => readFlowEntries fuel false (entries ++ [(n, .nothing)]) s
        | none => none

/-- The value of a pair in a flow collection. -/
def readFlowValue : Nat → Read Node
  | 0, _ => none
  | fuel + 1, s =>
    match s.peek with
    | some .value =>
      let s := s.advance
      if s.nextIs [.flowEntry, .flowSequenceEnd, .flowMappingEnd] then some (.nothing, s)
      else readNode fuel false false s
    | _ => some (.nothing, s)

end

/-- The content of a document, read with what handles stand for, and the tokens
behind it. -/
def readContent (handles : List (List Char × List UInt8)) (ts : List Token) :
    Option (Document × List Token) :=
  (readNode (3 * ts.length + 3) true false { tokens := ts, handles := handles }).map fun (n, s) =>
    (⟨n, s.numbered⟩, s.tokens)

/-- **The directives of a document**: what handles stand for, and the tokens
behind. A version is given at most once and has to be 1.1 or 1.2, and a handle is
explained at most once. -/
def readDirectives :
    (versioned : Bool) → (handles : List (List Char × List UInt8)) → List Token →
      Option (List (List Char × List UInt8) × List Token)
  | versioned, handles, .version major minor :: rest =>
    if versioned || major != 1 || !(minor == 1 || minor == 2) then none
    else readDirectives true handles rest
  | versioned, handles, .shorthand handle stem :: rest =>
    if handles.any fun (h, _) => h == handle then none
    else readDirectives versioned (handles ++ [(handle, stem)]) rest
  | _, handles, ts => some (handles ++ knownHandles, ts)

/-- The token begins what comes before a document or ends one. -/
def Token.isBetweenDocuments : Token → Bool
  | .version .. | .shorthand .. | .documentStart | .documentEnd => true
  | _ => false

/-- The first document of the tokens and what is behind it. A document with
directives has an explicit beginning, and may then be empty. -/
def readFirst (ts : List Token) : Option (Document × List Token) :=
  if ts.head?.any fun t => t.isBetweenDocuments && t != .documentEnd then do
    let (handles, rest) ← readDirectives false [] ts
    match rest with
    | .documentStart :: rest =>
      if rest.head?.all Token.isBetweenDocuments then return (⟨.nothing, []⟩, rest)
      else readContent handles rest
    | _ => none
  else readContent knownHandles ts

/-- **The only document of a text.** A text without one is an empty document; a
second document is refused. -/
def read? (text : String) : Option Document := do
  let ts ← tokens text.toList
  if ts.isEmpty then return ⟨.nothing, []⟩
  else
    let (d, rest) ← readFirst ts
    if (rest.dropWhile (· == .documentEnd)).isEmpty then return d else none

end TreeBroker.Yaml
