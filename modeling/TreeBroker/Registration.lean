import TreeBroker.Grammar.Basic
import TreeBroker.Symbol

/-!
# Registrations

A language is registered for a backend in one of two ways: as a native library
with the symbol it exports, or as a grammar of this process with an identifier
of where it comes from. A loaded language remembers which of the two it came
from as its *provenance*; a library can be loaded again for another backend, a
grammar cannot.
-/

namespace TreeBroker

/-- **How a language is registered.** -/
inductive Registration where
  /-- A native library and the symbol it exports. -/
  | library (path : FilePath) (symbol : String)
  /-- A grammar of this process. -/
  | grammar (grammar : Grammar) (identifier : String)

/-- **Where a loaded language comes from.** -/
inductive Provenance where
  /-- A native library. -/
  | library (path : FilePath) (symbol : String)
  /-- A grammar of this process. -/
  | grammar (identifier : String)
  deriving Repr, DecidableEq

/-- **What tells loaded languages apart in a cache.** The backend is part of it:
a language loaded for one backend is of no use to another. -/
structure CacheKey where
  /-- The backend it is loaded for. -/
  backend : BackendKind
  /-- The path of the library as shown, or the grammar's identifier. -/
  location : String
  /-- The symbol, for libraries. -/
  symbol : Option String
  /-- The language. -/
  name : LanguageName
  deriving DecidableEq

namespace CacheKey

/-- The key of a library's language. -/
def library (backend : BackendKind) (path : FilePath) (symbol : String) (name : LanguageName) :
    CacheKey :=
  ⟨backend, path.display, some symbol, name⟩

/-- The key of a grammar's language. -/
def grammar (backend : BackendKind) (identifier : String) (name : LanguageName) : CacheKey :=
  ⟨backend, identifier, none, name⟩

end CacheKey

namespace Provenance

/-- The diagnostic form. -/
def diagnostic : Provenance → String
  | library path symbol =>
    Diagnostic.record "Library" [("path", path.diagnostic), ("symbol", Quoted.text symbol)]
  | grammar identifier =>
    Diagnostic.record "Grammar" [("source_identifier", Quoted.text identifier)]

end Provenance

namespace Registration

/-- **The check of a registration**: the path before the symbol. -/
def validate : Registration → Except Error Unit
  | library path symbol =>
    match path.rejection? with
    | some reason => .error (.configuration (.unsafePath path reason))
    | none =>
      if Name.isSafeSymbol symbol.toList then .ok ()
      else .error (.configuration (.unsafeSymbol symbol))
  | grammar _ identifier =>
    if Text.isBlank identifier then .error (.configuration .blankIdentifier) else .ok ()

/-- A registration that passes the check, or why it does not. -/
def checked (r : Registration) : Except Error Registration := do
  r.validate
  return r

/-- **A library**, with its symbol derived from the path where none is given. -/
def ofLibrary (path : FilePath) (symbol : Option String) : Except Error Registration :=
  match symbol with
  | some s => (library path s).checked
  | none =>
    match path.toString?.bind Symbol.ofFileName? with
    | some s => (library path s).checked
    | none => .error (.configuration (.noSymbol path))

/-- **A grammar.** -/
def ofGrammar (g : Grammar) (identifier : String) : Except Error Registration :=
  (grammar g identifier).checked

/-- The category of the backends that it is for. -/
def category : Registration → Category
  | library .. => .native
  | grammar .. => .inProcess

/-- What a language loaded from it remembers. -/
def provenance : Registration → Provenance
  | library path symbol => .library path symbol
  | grammar _ identifier => .grammar identifier

/-- The key of its language in a cache. -/
def cacheKey (r : Registration) (backend : BackendKind) (name : LanguageName) : CacheKey :=
  match r with
  | library path symbol => .library backend path symbol name
  | grammar _ identifier => .grammar backend identifier name

/-- **The same registration.** Paths are compared by components, grammars as
objects. -/
def same : Registration → Registration → Bool
  | library p s, library q t => p.same q && s == t
  | grammar g i, grammar h j => g.isSame h && i == j
  | _, _ => false

end Registration

end TreeBroker
