import TreeBroker.Backend.Conformance
import TreeBroker.Engine.StandIns
import TreeBroker.Engine.Tree
import TreeBroker.Grammar.Assignment
import TreeBroker.World

/-!
# Engines

An engine is an implementation of a backend: it loads languages and makes
parsers. There is one for native libraries, one for grammars of this process,
and a stub that stands in front of another engine under a name of its own and
may claim another category, another manifest or failure.

Engines outside this library are open: a foreign engine is given by functions for
what it makes of a registration, of a language and of a source, and nothing is
known of them but the errors that an engine may fail with. What such an engine is
asked is recorded.
-/

namespace TreeBroker

/-- **How an engine fails** at anything but parsing. -/
inductive EngineFailure where
  /-- What is asked for cannot be had, in the engine's own words. -/
  | unavailable (text : String)
  /-- The engine is not asked as it should be. -/
  | misuse (cause : Misuse)
  deriving DecidableEq

/-- A failure as an error. -/
def EngineFailure.error : EngineFailure → Error
  | unavailable text => .notAvailable (.said text)
  | misuse cause => .configuration cause

/-- **What a foreign engine says of a language that it loads.** The name and the
backend need not be those that it was asked for. -/
structure ForeignLanguage where
  /-- The language. -/
  name : LanguageName
  /-- The backend. -/
  backend : BackendKind
  /-- Where it comes from. -/
  provenance : Provenance
  /-- What the engine's parsers need. -/
  payload : Payload

/-- **A foreign engine**, by what it makes of what it is given. Its parsers remember
what they like of the languages that they are given, also of those that they refuse,
and answer by what they remember. -/
structure ForeignEngine where
  /-- The backend it implements. -/
  kind : BackendKind
  /-- Its category. -/
  category : Category
  /-- The form in which its parsers take a language. -/
  form : Form
  /-- What it declares. -/
  manifest : Manifest
  /-- Whether it is available. -/
  available : Bool
  /-- The language of a registration under a name, among these files. -/
  load : FileSystem → LanguageName → Registration → Except EngineFailure ForeignLanguage
  /-- Its failure to make a parser. -/
  parserFailure : Option EngineFailure
  /-- Giving a parser a language: whether it is taken, and what is remembered. -/
  setLanguage : List RawLanguage → RawLanguage → Except EngineFailure Unit × List RawLanguage
  /-- The tree of a source, or a failure in the engine's own words. -/
  parse : List RawLanguage → String → Except String ForeignTree
  /-- The tree of a source with an old tree at hand. -/
  reparse : List RawLanguage → NativeTree → String → Except String ForeignTree

/-- **An engine.** -/
inductive Engine where
  /-- Native libraries, of which these symbols are linked into this build. -/
  | linked (symbols : List (String × NativeLanguage))
  /-- Grammars of this process. -/
  | grammar (kind : BackendKind)
  /-- A stub in front of another engine. -/
  | stub (kind : BackendKind) (inner : Engine) (category : Category) (manifest : Manifest)
      (available : Bool) (parserError : Option String)
  /-- A foreign engine. -/
  | foreign (engine : ForeignEngine)

instance : Inhabited Engine := ⟨.grammar .grammar⟩

/-- **A parser of an engine**, with the language it was given. -/
inductive NativeParser where
  /-- A native parser. -/
  | linked (language : Option NativeLanguage)
  /-- A parser for grammars of this process. -/
  | grammar (grammar : Option Grammar)
  /-- A parser of a foreign engine, with what it remembers. -/
  | foreign (engine : ForeignEngine) (memory : List RawLanguage)

/-- A failure that an engine is set up for. -/
def failIf (failure : Option EngineFailure) : Action World Unit :=
  match failure with
  | some f => throw f.error
  | none => return ()

namespace LanguageHandle

/-- A new handle. -/
def make (name : LanguageName) (backend : BackendKind) (provenance : Provenance)
    (payload : Payload) : Action World LanguageHandle := do
  return ⟨← World.fresh, name, backend, provenance, payload⟩

end LanguageHandle

namespace Engine

/-- The engine for native libraries, with the table of stand-ins linked in. -/
def standard : Engine := .linked NativeLanguage.standIns

/-- A stub that claims nothing of its own but its name. -/
def wrapping (kind : BackendKind) (inner : Engine) (category : Category) (manifest : Manifest) :
    Engine :=
  .stub kind inner category manifest true none

/-- The backend it implements. -/
def kind : Engine → BackendKind
  | linked _ => .treeSitter
  | grammar k => k
  | stub k .. => k
  | foreign e => e.kind

/-- Its category. -/
def category : Engine → Category
  | linked _ => .native
  | grammar _ => .inProcess
  | stub _ _ c .. => c
  | foreign e => e.category

/-- The form in which its parsers take a language. -/
def form : Engine → Form
  | linked _ => .native
  | grammar _ => .grammar
  | stub _ inner .. => inner.form
  | foreign e => e.form

/-- What the engine for native libraries declares. -/
def linkedManifest : Manifest where
  language := ["from_library", "name"]
  parser := ["new", "set_language", "parse", "reparse"]
  tree := ["root_node", "edit"]
  node := ["kind", "start_byte", "end_byte", "child_count", "child", "start_point", "end_point",
    "has_error", "is_missing", "is_named", "parent", "next_sibling", "prev_sibling",
    "child_by_field_name"]

/-- What the engine for grammars declares. -/
def grammarManifest : Manifest where
  language := ["from_grammar", "name"]
  parser := ["new", "set_grammar", "parse"]
  tree := ["root"]
  node := ["type", "start_byte", "end_byte", "child_count", "child", "named", "has_error",
    "missing", "parent", "next_sibling", "previous_sibling", "field"]

/-- What it declares. -/
def manifest : Engine → Manifest
  | linked _ => linkedManifest
  | grammar _ => grammarManifest
  | stub _ _ _ m .. => m
  | foreign e => e.manifest

/-- Whether it is available. -/
def isAvailable : Engine → Bool
  | linked _ => true
  | grammar _ => true
  | stub _ _ _ _ a _ => a
  | foreign e => e.available

/-- The symbols it has linked in, in increasing order. -/
def symbols : Engine → List String
  | linked ss => Sorted.ofList (ss.map (·.1))
  | _ => []

/-- **Loading a language.** A stub loads through the engine behind it and puts
its own name on a new handle. -/
def load : Engine → LanguageName → Registration → Action World LanguageHandle
  | linked _, name, .grammar .. => throw (.notAvailable (.needsLibrary name))
  | linked ss, name, .library path symbol => do
    if !(← get).files.isFile path then throw (.notAvailable (.missingLibrary path name))
    match (ss.find? fun (s, _) => s == symbol).map (·.2) with
    | none => throw (.notAvailable (.unlinked symbol path))
    | some language =>
      if !language.isCompatible then throw (.notAvailable (.incompatible symbol language.version))
      World.tell (.ofTexts .debug "Loaded tree-sitter language"
        [("language", name.text), ("path", path.display), ("symbol", symbol)])
      LanguageHandle.make name .treeSitter (.library path symbol) (.native language)
  | grammar k, name, .library path _ => throw (.notAvailable (.needsGrammar k path name))
  | grammar k, name, .grammar g identifier =>
    LanguageHandle.make name k (.grammar identifier) (.grammar g)
  | stub k inner .., name, registration => do
    let h ← inner.load name registration
    LanguageHandle.make h.name k h.provenance h.payload
  | foreign e, name, registration => do
    World.recordCall (e.kind.text ++ " load_language " ++ name.text)
    match e.load (← get).files name registration with
    | .error failure => throw failure.error
    | .ok l => LanguageHandle.make l.name l.backend l.provenance l.payload

/-- **Making a parser.** -/
def newParser : Engine → Action World NativeParser
  | linked _ => return .linked none
  | grammar _ => return .grammar none
  | stub _ inner _ _ _ parserError => do
    failIf (parserError.map .unavailable)
    inner.newParser
  | foreign e => do
    World.recordCall (e.kind.text ++ " new_parser")
    failIf e.parserFailure
    return .foreign e []

/-- The report on an engine. -/
def conformance (e : Engine) (strict : Bool) : ConformanceReport :=
  .of e.kind e.category e.manifest strict

/-- The diagnostic form. -/
def diagnostic : Engine → String
  | stub k inner c .. =>
    Diagnostic.partialRecord "StubBackend"
      [("kind", k.diagnostic), ("inner", inner.kind.diagnostic), ("category", c.diagnostic)]
  | linked ss =>
    Diagnostic.record "TreeSitterBackend"
      [("linked", Diagnostic.list ((linked ss).symbols.map Quoted.text))]
  | grammar k => Diagnostic.record "GrammarBackend" [("kind", k.diagnostic)]
  | foreign e => Diagnostic.partialRecord "ForeignBackend" [("kind", e.kind.diagnostic)]

end Engine

/-- A foreign parser's outcome with a failure turned into an error. -/
def answered (outcome : Except String ForeignTree) : Action World NativeTree :=
  match outcome with
  | .ok tree => return .foreign (← World.fresh) tree
  | .error text => throw (.parse (.said text))

/-- A grammar's outcome with a failure turned into an error. -/
def parsed (outcome : Except GrammarError Arena) : Action World Arena :=
  match outcome with
  | .ok a => return a
  | .error e => throw (.ofGrammar e)

namespace NativeParser

/-- The world around a parser is acted on. -/
def inWorld {α : Type} (act : Action World α) : Action (NativeParser × World) α :=
  act.zoom Prod.snd fun w s => (s.1, w)

/-- A parser becomes another one. -/
def become (p : NativeParser) : Action (NativeParser × World) Unit := modify fun s => (p, s.2)

/-- **A parser is given its language.** Whether it takes it or not, a foreign parser may
be changed by it. -/
def setLanguage (raw : RawLanguage) : Action (NativeParser × World) Unit := do
  match (← get).1, raw with
  | linked _, .native language =>
    if language.isCompatible then become (.linked (some language))
    else throw (.notAvailable (.refusedLanguage language.version))
  | linked _, raw => throw (.configuration (.expectedNative raw.form))
  | grammar _, .grammar g => become (.grammar (some g))
  | grammar _, raw => throw (.configuration (.expectedGrammar raw.form))
  | foreign e memory, raw => do
    inWorld (World.recordCall (e.kind.text ++ " set_language " ++ raw.display))
    let (outcome, memory) := e.setLanguage memory raw
    become (.foreign e memory)
    Action.ofExcept (outcome.mapError EngineFailure.error)

/-- **A parser of one's own is given its language**, and is of no use if it does not
take it. -/
def given (p : NativeParser) (raw : RawLanguage) : Action World NativeParser := fun w =>
  let (result, p', w') := (setLanguage raw).on (p, w)
  (result.map fun _ => p', w')

/-- **A native parser runs** on a source, with an old tree if there is one. -/
def run (language : Option NativeLanguage) (old : Option LinkedTree) (source : String) :
    Action World NativeTree :=
  match language with
  | none => throw (.configuration .nativeWithoutLanguage)
  | some language =>
    match language.parse old source with
    | some arena => return .linked (← World.fresh) ⟨arena, Utf8.bytes source, []⟩
    | none => throw (.parse .noTree)

/-- **Parsing a source.** -/
def parse (p : NativeParser) (source : String) : Action World NativeTree :=
  match p with
  | linked language => run language none source
  | grammar none => throw (.configuration .engineWithoutGrammar)
  | grammar (some g) => do
    let arena ← parsed (g.parse source)
    return .grammar (← World.fresh) arena
  | foreign e memory => do
    World.recordCall (e.kind.text ++ " parse " ++ toString (Utf8.bytes source).length)
    answered (e.parse memory source)

/-- **Parsing a source with an old tree.** A native parser looks at a tree of its own
kind only, and a grammar has no use for one. -/
def reparse (p : NativeParser) (old : NativeTree) (source : String) : Action World NativeTree :=
  match p with
  | linked language => run language old.linked? source
  | grammar g => (grammar g).parse source
  | foreign e memory => do
    let seen := (old.root?.map old.kind).getD "none"
    World.recordCall
      (e.kind.text ++ " reparse " ++ seen ++ " " ++ toString (Utf8.bytes source).length)
    answered (e.reparse memory old source)

end NativeParser

end TreeBroker
