import TreeBroker.Engine.Tree
import TreeBroker.Registration

/-!
# Loaded languages

A backend loads a language into a *handle*, which says for which backend it was
loaded and where it comes from, and holds what the backend's parsers need. A
handle is an object: two of them with the same content are still two, and the
cache of a registry hands out the very same one again.
-/

namespace TreeBroker

/-- **A native language**, known by the version of the interface it was built for
and by the tree it makes of a source. It may be shown an old tree, edited since it
was made, and what it makes of that is its own affair. -/
structure NativeLanguage where
  /-- The version of the interface. -/
  version : Nat
  /-- The tree of a source, where the parser comes to an end. -/
  parse : Option LinkedTree → String → Option Arena

/-- **A language that native parsers take**: its version is understood. -/
def NativeLanguage.isCompatible (l : NativeLanguage) : Bool :=
  NativeInterface.oldest ≤ l.version && l.version ≤ NativeInterface.newest

/-- **What a handle holds.** -/
inductive Payload where
  /-- A native language. -/
  | native (language : NativeLanguage)
  /-- A grammar of this process. -/
  | grammar (grammar : Grammar)
  /-- Nothing but the name. -/
  | named
  /-- Something that only its backend understands. -/
  | foreign

namespace Payload

/-- The identifier of a kind of payload. -/
def identifier : Payload → String
  | native _ => "tree_sitter"
  | grammar _ => "grammar"
  | named => "named"
  | foreign => "opaque"

/-- The kind of payload in an error's words. -/
def label : Payload → String
  | native _ => "a tree-sitter language"
  | grammar _ => "an in-process grammar"
  | named => "a name"
  | foreign => "an opaque value"

end Payload

/-- **A loaded language.** -/
structure LanguageHandle where
  /-- The number that tells it from every other handle. -/
  identity : Nat
  /-- The language. -/
  name : LanguageName
  /-- The backend it was loaded for. -/
  backend : BackendKind
  /-- Where it comes from. -/
  provenance : Provenance
  /-- What the backend's parsers need. -/
  payload : Payload

/-- **A language in the form that a native parser takes.** -/
inductive RawLanguage where
  /-- The native language itself. -/
  | native (language : NativeLanguage)
  /-- The name. -/
  | name (text : LanguageName)
  /-- The handle. -/
  | handle (handle : LanguageHandle)
  /-- The grammar. -/
  | grammar (grammar : Grammar)

namespace RawLanguage

/-- The form of a raw language. -/
def form : RawLanguage → Form
  | native _ => .native
  | name _ => .name
  | handle _ => .handle
  | grammar _ => .grammar

/-- A raw language as shown. -/
def display : RawLanguage → String
  | native _ => "Struct"
  | name n => Diagnostic.wrapped "Name" n.text
  | handle h => Diagnostic.wrapped "Handle" (h.name.text ++ "@" ++ h.backend.text)
  | grammar g => Diagnostic.wrapped "Grammar" g.name

end RawLanguage

namespace LanguageHandle

/-- The same object. -/
def isSame (a b : LanguageHandle) : Bool := a.identity == b.identity

/-- **The language in a form.** Name and handle can always be given; a native
language or a grammar only if the handle holds one. -/
def unwrap (h : LanguageHandle) (form : Form) : Except Error RawLanguage :=
  match form, h.payload with
  | .native, .native language => .ok (.native language)
  | .grammar, .grammar g => .ok (.grammar g)
  | .name, _ => .ok (.name h.name)
  | .handle, _ => .ok (.handle h)
  | form, payload => .error (.configuration (.cannotUnwrap h.name h.backend form payload.label))

/-- The diagnostic form. -/
def diagnostic (h : LanguageHandle) : String :=
  Diagnostic.partialRecord "LanguageHandle"
    [("name", h.name.diagnostic), ("backend", h.backend.diagnostic),
      ("provenance", h.provenance.diagnostic)]

end LanguageHandle

end TreeBroker
