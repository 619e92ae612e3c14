import TreeBroker.Name
import TreeBroker.Text.Diagnostic

/-!
# Categories and language forms

Backends come in two categories. A *native* one runs parsers out of shared
libraries; an *in-process* one runs grammars that are values of this process.
A parser may move to an in-process backend on its own and never to a native
one, so the category is part of a backend's contract. So is the form in which its
parsers take a language.
-/

namespace TreeBroker

/-- **The category of a backend.** -/
inductive Category where
  /-- Parsers out of shared libraries. -/
  | native
  /-- Grammars of this process. -/
  | inProcess
  deriving Repr, DecidableEq

namespace Category

/-- The category as shown. -/
def display : Category → String
  | native => "native"
  | inProcess => "in-process"

/-- The diagnostic form. -/
def diagnostic : Category → String
  | native => "Native"
  | inProcess => "InProcess"

/-- The identifier of a category. -/
def identifier : Category → String
  | native => "native"
  | inProcess => "in_process"

/-- Both categories. -/
def all : List Category := [native, inProcess]

end Category

/-- **The form in which a backend's parsers take a language.** -/
inductive Form where
  /-- The native language value itself. -/
  | native
  /-- The plain name. -/
  | name
  /-- The loaded language as the registry hands it out. -/
  | handle
  /-- A grammar of this process. -/
  | grammar
  deriving Repr, DecidableEq

namespace Form

/-- The diagnostic form. -/
def diagnostic : Form → String
  | native => "Struct"
  | name => "Name"
  | handle => "Handle"
  | grammar => "Grammar"

/-- The identifier of a form. -/
def identifier : Form → String
  | native => "struct"
  | name => "name"
  | handle => "handle"
  | grammar => "grammar"

/-- All forms. -/
def all : List Form := [native, name, handle, grammar]

end Form

/-- The diagnostic form of a backend's name. -/
def BackendKind.diagnostic (k : BackendKind) : String :=
  Diagnostic.wrapped "BackendKind" (Quoted.text k.text)

/-- The diagnostic form of a language's name. -/
def LanguageName.diagnostic (n : LanguageName) : String :=
  Diagnostic.wrapped "LanguageName" (Quoted.text n.text)

end TreeBroker
