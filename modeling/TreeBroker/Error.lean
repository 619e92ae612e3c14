import TreeBroker.Backend.Kind
import TreeBroker.Path.Rejection

/-!
# Errors

An error is a *cause*, not a text: what was missing, refused or misused, with
the values that say where. The wording stands in one place (`message`), so a
statement about when an operation fails speaks of constructors and never of
strings. Callers react by category, which is coarser than the causes.

Engines outside this library fail in their own words; the constructors named
`said` carry those.
-/

namespace TreeBroker

/-- **What went wrong with a source**, as a grammar sees it. -/
inductive SourceProblem where
  /-- A node was closed while none was open. -/
  | strayClose
  /-- A second node was created outside the first. -/
  | secondRoot
  /-- A node was still open at the end. -/
  | unclosed (kind : String)
  /-- A NUL character. -/
  | nul
  /-- A grammar's own words. -/
  | said (text : String)
  deriving Repr, DecidableEq

/-- The text of a source problem. -/
def SourceProblem.message : SourceProblem → String
  | strayClose => "close without a matching open"
  | secondRoot => "tree has more than one root"
  | unclosed kind => "unclosed `" ++ kind ++ "` node"
  | nul => "unexpected NUL byte"
  | said text => text

/-- **A grammar's failure** on a source. -/
structure GrammarError where
  /-- The name of the grammar. -/
  grammar : String
  /-- What went wrong. -/
  problem : SourceProblem
  /-- The byte offset it went wrong at. -/
  offset : Nat
  deriving Repr, DecidableEq

/-- The text of a grammar's failure. -/
def GrammarError.message (e : GrammarError) : String :=
  e.grammar ++ ": " ++ e.problem.message ++ " at byte " ++ toString e.offset

/-- The oldest version of the native interface that is understood. -/
def NativeInterface.oldest : Nat := 13

/-- The newest version of the native interface that is understood. -/
def NativeInterface.newest : Nat := 14

/-- **Why something cannot be provided.** -/
inductive Unavailable where
  /-- An engine's own words. -/
  | said (text : String)
  /-- Nothing is registered under the name. -/
  | unknownLanguage (language : LanguageName)
  /-- The language has registrations, but none for this backend. -/
  | noSlot (language : LanguageName) (backend : BackendKind)
  /-- Every backend that has a registration is unavailable. -/
  | allUnavailable (language : LanguageName) (backends : List BackendKind)
  /-- Every backend that was tried failed, each with this text. -/
  | allFailed (language : LanguageName) (attempts : List (BackendKind × String))
  /-- No backend of this kind is installed. -/
  | notInstalled (backend : BackendKind)
  /-- The backend is installed and not available. -/
  | notRunning (backend : BackendKind)
  /-- No backend is available at all. -/
  | noBackend
  /-- A native backend was given a grammar of this process. -/
  | needsLibrary (language : LanguageName)
  /-- The library's file is not there. -/
  | missingLibrary (path : FilePath) (language : LanguageName)
  /-- The library's symbol is not part of this build. -/
  | unlinked (symbol : String) (path : FilePath)
  /-- The language behind a symbol was built for another version of the interface. -/
  | incompatible (symbol : String) (version : Nat)
  /-- A native parser was given a language of another version of the interface. -/
  | refusedLanguage (version : Nat)
  /-- An in-process backend was given a library. -/
  | needsGrammar (backend : BackendKind) (path : FilePath) (language : LanguageName)
  deriving DecidableEq

/-- **What was misused.** -/
inductive Misuse where
  /-- An engine's own words. -/
  | said (text : String)
  /-- Not the name of a language. -/
  | languageName (text : String)
  /-- Not the name of a backend. -/
  | backendName (text : String)
  /-- A tag and the backend it announces disagree. -/
  | tagMismatch (backend : BackendKind) (tagged : Category × Form) (actual : Category × Form)
  /-- A registration of one category for a backend of the other. -/
  | wrongCategory (backend : BackendKind) (tagged registered : Category) (language : LanguageName)
  /-- The path has no symbol in it. -/
  | noSymbol (path : FilePath)
  /-- The path fails the structural check. -/
  | unsafePath (path : FilePath) (reason : Rejection)
  /-- Not a symbol. -/
  | unsafeSymbol (symbol : String)
  /-- A grammar registered without an identifier. -/
  | blankIdentifier
  /-- A loaded language cannot be given in the form asked for. -/
  | cannotUnwrap (language : LanguageName) (backend : BackendKind) (form : Form) (held : String)
  /-- A parser was asked to parse before it was given a language. -/
  | noLanguage
  /-- A native parser has no language. -/
  | nativeWithoutLanguage
  /-- An in-process parser has no grammar. -/
  | engineWithoutGrammar
  /-- A native parser was given something else than a native language. -/
  | expectedNative (given : Form)
  /-- An in-process parser was given something else than a grammar. -/
  | expectedGrammar (given : Form)
  deriving DecidableEq

/-- **What a backend cannot do.** -/
inductive Gap where
  /-- A backend's own words. -/
  | said (text : String)
  /-- Its trees cannot be edited. -/
  | noEditing (backend : BackendKind)
  /-- Its trees are never parsed again from an old one. -/
  | noReuse
  deriving DecidableEq

/-- **How a parse fails**: a grammar's failure, a native parser that comes to no end,
or an engine's own words. -/
inductive ParseFailure where
  /-- A grammar's failure. -/
  | grammar (error : GrammarError)
  /-- A native parser gave no tree. -/
  | noTree
  /-- An engine's own words. -/
  | said (text : String)
  deriving DecidableEq

/-- **Why a file cannot be read.** -/
inductive ReadFailure where
  /-- Nothing there. -/
  | missing
  /-- A directory. -/
  | directory
  /-- Something on the way is not a directory. -/
  | notDirectory
  /-- The links on the way go round in a circle. -/
  | circularLinks
  /-- The path or a name on it is too long. -/
  | tooLong
  /-- The path holds a NUL byte. -/
  | nulByte
  /-- The bytes are not text. -/
  | notText
  /-- Another reason. -/
  | said (text : String)
  deriving DecidableEq

/-- **An error.** -/
inductive Error where
  /-- A backend, library or registration cannot be provided. -/
  | notAvailable (cause : Unavailable)
  /-- A name, path, registration or call is wrong. -/
  | configuration (cause : Misuse)
  /-- The backend lacks an optional capability. -/
  | notSupported (gap : Gap)
  /-- A language loaded for one backend, given to a parser of another, with no
  library to load it from again. -/
  | backendMismatch (language : String) (loadedFor active : BackendKind)
  /-- A source was not accepted. -/
  | parse (failure : ParseFailure)
  /-- A file could not be read. -/
  | unreadable (failure : ReadFailure)
  /-- A settings document could not be decoded. -/
  | badDocument
  deriving DecidableEq

/-- **The categories that callers tell apart.** -/
inductive ErrorCategory where
  /-- Try another backend. -/
  | notAvailable
  /-- Mend the call or the settings. -/
  | configuration
  /-- Do without. -/
  | capabilityGap
  /-- Load the language for the right backend. -/
  | backendMismatch
  /-- Not the caller's business. -/
  | internal
  deriving Repr, DecidableEq

namespace ErrorCategory

/-- The category as shown. -/
def display : ErrorCategory → String
  | notAvailable => "not available"
  | configuration => "configuration"
  | capabilityGap => "capability gap"
  | backendMismatch => "backend mismatch"
  | internal => "internal"

/-- The diagnostic form. -/
def diagnostic : ErrorCategory → String
  | notAvailable => "NotAvailable"
  | configuration => "Configuration"
  | capabilityGap => "CapabilityGap"
  | backendMismatch => "BackendMismatch"
  | internal => "Internal"

end ErrorCategory

/-- A text between the quotes that messages use. -/
def tick (s : String) : String := "`" ++ s ++ "`"

/-- The text of an unavailability. -/
def Unavailable.message : Unavailable → String
  | said text => text
  | unknownLanguage n => "no registration for language " ++ tick n.text
  | noSlot n k => tick n.text ++ " has no registration for backend " ++ tick k.text
  | allUnavailable n ks =>
    tick n.text ++ " is registered for " ++ ", ".intercalate (ks.map (·.text)) ++
      " but none of those backends is available"
  | allFailed n attempts =>
    "no backend could load " ++ tick n.text ++ " (" ++
      "; ".intercalate (attempts.map fun (k, text) => k.text ++ ": " ++ text) ++ ")"
  | notInstalled k => "backend " ++ tick k.text ++ " is not registered"
  | notRunning k => "backend " ++ tick k.text ++ " is not available in this process"
  | noBackend => "no parsing backend is available"
  | needsLibrary n =>
    "tree-sitter needs a native library for " ++ tick n.text ++
      ", but it is registered as an in-process grammar"
  | missingLibrary p n =>
    "grammar library " ++ p.display ++ " for " ++ tick n.text ++ " does not exist"
  | unlinked symbol p =>
    "symbol " ++ tick symbol ++ " from " ++ p.display ++ " is not linked into this build"
  | incompatible symbol version =>
    tick symbol ++ " uses language ABI " ++ toString version ++ ", supported range is " ++
      toString NativeInterface.oldest ++ "..=" ++ toString NativeInterface.newest
  | refusedLanguage version =>
    "tree-sitter rejected language: Incompatible language version " ++ toString version ++
      ". Expected minimum " ++ toString NativeInterface.oldest ++ ", maximum " ++
      toString NativeInterface.newest
  | needsGrammar k p n =>
    tick k.text ++ " backend cannot load native library " ++ p.display ++ " for " ++ tick n.text

/-- The text of a misuse. -/
def Misuse.message : Misuse → String
  | said text => text
  | languageName text =>
    "invalid language name " ++ tick text ++
      " (expected lowercase letters, digits and underscores, starting with a letter)"
  | backendName text => "invalid backend name " ++ tick text
  | tagMismatch k (tc, tf) (ac, af) =>
    "tag for " ++ tick k.text ++ " declares a " ++ tc.display ++ " backend taking " ++
      tf.diagnostic ++ ", but the implementation is " ++ ac.display ++ " taking " ++ af.diagnostic
  | wrongCategory k tagged registered n =>
    tick k.text ++ " is a " ++ tagged.display ++ " backend and cannot serve a " ++
      registered.display ++ " registration for " ++ tick n.text
  | noSymbol p => "cannot derive a language symbol from " ++ p.display
  | unsafePath p reason => "unsafe library path " ++ p.display ++ ": " ++ reason.message
  | unsafeSymbol symbol => "unsafe symbol name " ++ tick symbol
  | blankIdentifier => "grammar registration needs a source identifier"
  | cannotUnwrap n k form held =>
    "language " ++ tick n.text ++ " loaded for " ++ tick k.text ++ " cannot be unwrapped to " ++
      form.diagnostic ++ " (payload is " ++ held ++ ")"
  | noLanguage => "no language assigned; call set_language first"
  | nativeWithoutLanguage => "no language assigned to the parser"
  | engineWithoutGrammar => "no grammar assigned to the parser"
  | expectedNative form => "tree-sitter parser expects a language struct, got " ++ form.diagnostic
  | expectedGrammar form =>
    "grammar parser expects an in-process grammar, got " ++ form.diagnostic

/-- The text of a gap. -/
def Gap.message : Gap → String
  | said text => text
  | noEditing k => "backend " ++ tick k.text ++ " does not support tree editing"
  | noReuse => "incremental parsing is not supported by this backend"

/-- The text of a parse failure. -/
def ParseFailure.message : ParseFailure → String
  | grammar e => e.message
  | noTree => "tree-sitter returned no tree"
  | said text => text

/-- The text of a read failure. -/
def ReadFailure.message : ReadFailure → String
  | missing => "No such file or directory (os error 2)"
  | directory => "Is a directory (os error 21)"
  | notDirectory => "Not a directory (os error 20)"
  | circularLinks => "Too many levels of symbolic links (os error 40)"
  | tooLong => "File name too long (os error 36)"
  | nulByte => "file name contained an unexpected NUL byte"
  | notText => "stream did not contain valid UTF-8"
  | said text => text

namespace Error

/-- **The text of an error.** A document that cannot be decoded is not described
further. -/
def message : Error → String
  | notAvailable cause => "not available: " ++ cause.message
  | configuration cause => "configuration error: " ++ cause.message
  | notSupported gap => "not supported: " ++ gap.message
  | backendMismatch language loadedFor active =>
    "backend mismatch: language " ++ tick language ++ " was loaded for " ++ tick loadedFor.text ++
      " but the parser is bound to " ++ tick active.text ++
      " and the grammar has no library to reload"
  | parse failure => "parse error: " ++ failure.message
  | unreadable failure => "I/O error: " ++ failure.message
  | badDocument => "invalid configuration file"

/-- **The category of an error.** -/
def category : Error → ErrorCategory
  | notAvailable _ => .notAvailable
  | configuration _ | badDocument => .configuration
  | notSupported _ => .capabilityGap
  | backendMismatch .. => .backendMismatch
  | parse _ | unreadable _ => .internal

/-- An error that the caller can mend in the call itself. -/
def isCallerError (e : Error) : Bool :=
  e.category = .configuration || e.category = .backendMismatch

/-- A grammar's failure as an error. -/
def ofGrammar (e : GrammarError) : Error := .parse (.grammar e)

end Error

/-- A language's name, or the error that says it is none. -/
def LanguageName.parse (s : String) : Except Error LanguageName :=
  match LanguageName.ofString? s with
  | some n => .ok n
  | none => .error (.configuration (.languageName s))

/-- A language's name spelled loosely. -/
def LanguageName.sanitize (s : String) : Except Error LanguageName :=
  LanguageName.parse (Name.normalize s)

/-- A backend's name, or the error that says it is none. -/
def BackendKind.parse (s : String) : Except Error BackendKind :=
  match BackendKind.ofString? s with
  | some k => .ok k
  | none => .error (.configuration (.backendName s))

/-- A backend's name as a setting spells it. -/
def BackendKind.parseSetting (s : String) : Except Error BackendKind :=
  BackendKind.parse (BackendKind.ofSetting s)

end TreeBroker
