import TreeBroker.Log
import TreeBroker.Settings
import TreeBroker.Symbol

/-!
# Finding grammar libraries

The library of a language is looked for in a fixed order of places: the path
that an environment variable names, then the usual file names in the caller's
directories, then the same names in the trusted directories. The first
candidate that is accepted is the answer, and a missing library is no error.

A candidate that is refused is kept with the reason. In a directory, a file that
is simply not there is passed over in silence – most candidates are not there –
while a path that the environment names was meant to be there, so its absence is
a refusal like any other.
-/

namespace TreeBroker

/-- **Where a candidate comes from.** -/
inductive CandidateSource where
  /-- The environment. -/
  | environment
  /-- A directory of the caller. -/
  | extraDirectory
  /-- A trusted directory. -/
  | trustedDirectory
  deriving Repr, DecidableEq

namespace CandidateSource

/-- The identifier of a source. -/
def identifier : CandidateSource → String
  | environment => "environment"
  | extraDirectory => "extra_directory"
  | trustedDirectory => "trusted_directory"

/-- The diagnostic form. -/
def diagnostic : CandidateSource → String
  | environment => "Environment"
  | extraDirectory => "ExtraDirectory"
  | trustedDirectory => "TrustedDirectory"

end CandidateSource

/-- **A library that was found**, with the symbol it is expected to export. -/
structure LocatedLibrary where
  /-- The file. -/
  path : FilePath
  /-- The symbol. -/
  symbol : String
  deriving Repr, DecidableEq

namespace LocatedLibrary

/-- The fields of a located library. -/
def keys : List String := ["path", "symbol"]

/-- A located library as data. -/
def toJson (l : LocatedLibrary) : Json :=
  .object [("path", .string l.path.display), ("symbol", .string l.symbol)]

/-- A located library from data. -/
def ofJson? (j : Json) : Option LocatedLibrary := do
  let [path, symbol] ← j.fields? keys | none
  return ⟨FilePath.ofString (← path.toString?), ← symbol.toString?⟩

end LocatedLibrary

/-- **A candidate that was refused.** -/
structure Refusal where
  /-- The candidate. -/
  path : FilePath
  /-- Where it comes from. -/
  source : CandidateSource
  /-- Why it is refused. -/
  reason : Rejection
  deriving Repr, DecidableEq

/-- **The outcome of a search.** -/
structure Discovery where
  /-- The library, if one was found. -/
  found : Option LocatedLibrary := none
  /-- The candidates refused before, in order. -/
  refusals : List Refusal := []
  /-- What happened on the way. -/
  events : List Event := []
  deriving Repr, DecidableEq, Inhabited

/-- **A locator**: whose library to look for, and where. -/
structure Locator where
  /-- The language. -/
  language : LanguageName
  /-- The places. -/
  search : SearchSettings
  /-- Refusals are warned about. -/
  debug : Bool
  /-- The environment. -/
  environment : Environment

namespace Locator

/-- The locator that settings call for. -/
def ofSettings (language : LanguageName) (c : Settings) (env : Environment) : Locator :=
  ⟨language, c.locator, c.debug, env⟩

/-- The variable that names the library. -/
def pathVariable (l : Locator) : String := l.search.envStem ++ "_" ++ l.language.upper ++ "_PATH"

/-- The symbol that the library exports. -/
def symbol (l : Locator) : String := Symbol.ofLanguage l.language

/-- **The usual names of the file.** -/
def fileNames (l : Locator) : List String :=
  let ext := "." ++ FilePath.libraryExtension
  ["libtree-sitter-" ++ l.language.dashed ++ ext, "libtree_sitter_" ++ l.language.text ++ ext,
    "tree-sitter-" ++ l.language.dashed ++ ext, l.language.text ++ ext]

/-- The candidates in directories of one source. -/
def candidatesIn (l : Locator) (source : CandidateSource) (dirs : List FilePath) :
    List (FilePath × CandidateSource) :=
  dirs.flatMap fun dir => l.fileNames.map fun name => (dir.join name, source)

/-- **The candidates in directories**, those of the caller first. -/
def candidates (l : Locator) (withExtra : Bool) : List (FilePath × CandidateSource) :=
  (if withExtra then l.candidatesIn .extraDirectory l.search.extraDirs else []) ++
    l.candidatesIn .trustedDirectory l.search.trustedDirs

/-- The paths that are looked at in directories. -/
def searchPaths (l : Locator) : List FilePath := (l.candidates true).map (·.1)

/-- A candidate as the library found. -/
def located (l : Locator) (p : FilePath) : LocatedLibrary := ⟨p, l.symbol⟩

/-- The event of a refusal. -/
def refusalEvent (l : Locator) (r : Refusal) : Event :=
  .ofTexts (if l.debug then .warn else .debug) "Rejected grammar library candidate"
    [("language", l.language.text), ("path", r.path.display), ("source", r.source.diagnostic),
      ("reason", r.reason.message)]

/-- An outcome with one more refusal in front. -/
def refuse (l : Locator) (r : Refusal) (later : Discovery) : Discovery :=
  { later with
    refusals := r :: later.refusals
    events := l.refusalEvent r :: later.events }

/-- **The path that the environment names**, unless it is ignored or empty. -/
def override? (l : Locator) : Option FilePath :=
  if l.search.envPolicy = .ignore then none
  else
    match l.environment l.pathVariable with
    | some value => if value = "" then none else some (FilePath.ofString value)
    | none => none

/-- **Why the path from the environment is refused.** The policy is asked
between the structural check and the file system. -/
def overrideRejection? (l : Locator) (fs : FileSystem) (p : FilePath) : Option Rejection :=
  match p.rejection? with
  | some reason => some reason
  | none =>
    let byPolicy :=
      match l.search.envPolicy with
      | .characterClass => p.characterRejection?
      | .trustedDirectories =>
        if fs.isTrusted p l.search.trustedDirs then none else some .untrustedDirectory
      | .ignore => none
    match byPolicy with
    | some reason => some reason
    | none => if fs.isFile p then none else some .notFound

/-- **The search through directories.** A link inside a trusted directory may
lead anywhere, so what is found there has to be within trusted directories once
its links are resolved. -/
def scan (l : Locator) (fs : FileSystem) : List (FilePath × CandidateSource) → Discovery
  | [] => {}
  | (p, source) :: rest =>
    match p.rejection? with
    | some reason => l.refuse ⟨p, source, reason⟩ (l.scan fs rest)
    | none =>
      if !fs.isFile p then
        let later := l.scan fs rest
        { later with
          events := .ofTexts .trace "Candidate does not exist" [("path", p.display)] ::
            later.events }
      else if source = .trustedDirectory && !fs.isTrusted p l.search.trustedDirs then
        l.refuse ⟨p, source, .untrustedDirectory⟩ (l.scan fs rest)
      else
        { found := some (l.located p)
          events := [.ofTexts .debug "Found grammar library"
            [("language", l.language.text), ("path", p.display),
              ("source", source.diagnostic)]] }

/-- **The search**: the environment first, then the directories. -/
def discover (l : Locator) (fs : FileSystem) : Discovery :=
  match l.override? with
  | none => l.scan fs (l.candidates true)
  | some p =>
    match l.overrideRejection? fs p with
    | some reason =>
      l.refuse ⟨p, .environment, reason⟩ (l.scan fs (l.candidates true))
    | none =>
      { found := some (l.located p)
        events := [.ofTexts .debug "Using grammar library from environment"
          [("language", l.language.text), ("path", p.display)]] }

/-- **The safe search**: trusted directories only. -/
def discoverSafe (l : Locator) (fs : FileSystem) : Discovery := l.scan fs (l.candidates false)

/-- What is said of a library that was not found. -/
def notFoundMessage (l : Locator) : String :=
  let dirs := (l.search.extraDirs ++ l.search.trustedDirs).map FilePath.display
  "tree-sitter grammar for " ++ tick l.language.text ++ " not found. Set " ++ l.pathVariable ++
    " to the library path, or install " ++ l.fileNames.headD "" ++ " into one of: " ++
    (if dirs.isEmpty then "(no search directories configured)" else ", ".intercalate dirs)

/-- The diagnostic form. -/
def diagnostic (l : Locator) : String :=
  Diagnostic.partialRecord "GrammarLocator"
    [("language", l.language.diagnostic), ("config", l.search.diagnostic),
      ("debug", Diagnostic.bool l.debug)]

end Locator

end TreeBroker
