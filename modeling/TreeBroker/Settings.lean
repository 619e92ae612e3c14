import TreeBroker.FileSystem
import TreeBroker.Json
import TreeBroker.Yaml.Printer

/-!
# Settings

Settings say which backend to prefer, whether to debug, and where grammar
libraries are looked for. They come in layers: the defaults, over them a
document, over that the environment. A document leaves out what it does not
change.

The environment is applied variable by variable to settings that already exist,
so `applyEnvironment` is a stateful action: a variable that cannot be used stops
it after the variables before have been applied.
-/

namespace TreeBroker

/-- **An environment**: the value of each variable that is set. -/
abbrev Environment := String → Option String

/-- The environment of a list of variables; of two with one name the later
counts. -/
def Environment.ofList (vars : List (String × String)) : Environment := fun name =>
  (vars.reverse.find? fun (k, _) => k == name).map (·.2)

/-- **How far a path from the environment is trusted.** -/
inductive EnvPolicy where
  /-- It may lead anywhere and has to be spelled in plain characters. -/
  | characterClass
  /-- It has to lead into a trusted directory. -/
  | trustedDirectories
  /-- It is not looked at. -/
  | ignore
  deriving Repr, DecidableEq

namespace EnvPolicy

/-- The identifier of a policy. -/
def identifier : EnvPolicy → String
  | characterClass => "character-class"
  | trustedDirectories => "trusted-directories"
  | ignore => "ignore"

/-- The diagnostic form. -/
def diagnostic : EnvPolicy → String
  | characterClass => "CharacterClass"
  | trustedDirectories => "TrustedDirectories"
  | ignore => "Ignore"

/-- All policies. -/
def all : List EnvPolicy := [characterClass, trustedDirectories, ignore]

/-- The policy of an identifier. -/
def ofIdentifier? (s : String) : Option EnvPolicy := all.find? fun p => p.identifier == s

end EnvPolicy

/-- **Where grammar libraries are looked for.** -/
structure SearchSettings where
  /-- What the variables that name a library begin with. -/
  envStem : String := "TREE_SITTER"
  /-- Directories of the caller, searched first. -/
  extraDirs : List FilePath := []
  /-- Directories that are safe to load from. -/
  trustedDirs : List FilePath := FilePath.systemDirectories
  /-- The trust in paths from the environment. -/
  envPolicy : EnvPolicy := .characterClass
  deriving Repr, DecidableEq, Inhabited

/-- **Settings.** -/
structure Settings where
  /-- The backend used where nothing else is asked for. -/
  backend : Option BackendKind := none
  /-- Refused libraries are warned about. -/
  debug : Bool := false
  /-- Where libraries are looked for. -/
  locator : SearchSettings := {}
  deriving DecidableEq, Inhabited

/-- The diagnostic form. -/
def SearchSettings.diagnostic (s : SearchSettings) : String :=
  Diagnostic.record "LocatorConfig"
    [("env_prefix", Quoted.text s.envStem),
      ("extra_dirs", Diagnostic.list (s.extraDirs.map FilePath.diagnostic)),
      ("trusted_dirs", Diagnostic.list (s.trustedDirs.map FilePath.diagnostic)),
      ("env_policy", s.envPolicy.diagnostic)]

namespace Settings

/-! ## Names -/

/-- The variable that turns debugging on. -/
def debugVariable : String := "SWITCHYARD_DEBUG"

/-- The variable that names the preferred backend. -/
def backendVariable : String := "SWITCHYARD_BACKEND"

/-- The variable that lists further trusted directories. -/
def trustedVariable : String := "SWITCHYARD_TRUSTED_DIRS"

/-- The usual name of a settings file. -/
def usualFileName : String := "switchyard.yaml"

/-- The fields of settings. -/
def keys : List String := ["backend", "debug", "locator"]

/-- The fields of search settings. -/
def searchKeys : List String := ["env-prefix", "extra-dirs", "trusted-dirs", "env-policy"]

/-! ## As data -/

/-- Paths as data: all have to be text. -/
def pathTexts? (ps : List FilePath) : Option (List String) := ps.mapM FilePath.toString?

/-- Settings as data, with paths as they are shown. -/
def toJson (c : Settings) : Json :=
  .object
    [("backend", .optional (c.backend.map (·.text))), ("debug", .bool c.debug),
      ("locator", .object
        [("env-prefix", .string c.locator.envStem),
          ("extra-dirs", .strings (c.locator.extraDirs.map FilePath.display)),
          ("trusted-dirs", .strings (c.locator.trustedDirs.map FilePath.display)),
          ("env-policy", .string c.locator.envPolicy.identifier)])]

/-- A backend's name or nothing. -/
def backendOfJson? : Json → Option (Option BackendKind)
  | .null => some none
  | .string s => (BackendKind.ofString? s).map some
  | _ => none

/-- A field that is decoded where it is present. -/
def orDefault {α : Type} (default : α) (decode : Json → Option α) : Option Json → Option α
  | none => some default
  | some j => decode j

/-- Search settings from data. -/
def searchOfJson? (j : Json) : Option SearchSettings := do
  let [stem, extra, trusted, policy] ← j.optionalFields? searchKeys | none
  let base : SearchSettings := {}
  let paths (j : Json) : Option (List FilePath) := j.toStrings?.map (·.map FilePath.ofString)
  return {
    envStem := ← orDefault base.envStem Json.toString? stem
    extraDirs := ← orDefault base.extraDirs paths extra
    trustedDirs := ← orDefault base.trustedDirs paths trusted
    envPolicy :=
      ← orDefault base.envPolicy (Json.oneOf? EnvPolicy.all EnvPolicy.identifier) policy }

/-- **Settings from data.** -/
def ofJson? (j : Json) : Option Settings := do
  let [backend, debug, locator] ← j.optionalFields? keys | none
  return {
    backend := ← orDefault none backendOfJson? backend
    debug := ← orDefault false Json.toBool? debug
    locator := ← orDefault {} searchOfJson? locator }

/-! ## As documents -/

section Reading

variable (d : Yaml.Document)

/-- The entries of a mapping; nothing counts as the empty one. -/
def entries? (n : Yaml.Node) : Option (List (Yaml.Node × Yaml.Node)) :=
  match d.view n with
  | .mapping es => some es
  | n => if n.isNothing then some [] else none

/-- The items of a list; nothing counts as the empty one. -/
def items? (n : Yaml.Node) : Option (List Yaml.Node) :=
  match d.view n with
  | .sequence ns => some ns
  | n => if n.isNothing then some [] else none

/-- The text of any scalar. -/
def text? (n : Yaml.Node) : Option String :=
  match d.view n with
  | .scalar s _ _ => some s
  | _ => none

/-- **The values of known keys** in a mapping, in the order of the keys. Unknown
keys are passed over; a known key that stands twice is refused, and so is a key
that is no scalar. -/
def known? (names : List String) (n : Yaml.Node) : Option (List (Option Yaml.Node)) := do
  let es ← entries? d n
  let texts ← es.mapM fun (k, v) => (text? d k).map fun s => (s, v)
  names.mapM fun name =>
    match texts.filter fun (s, _) => s == name with
    | [] => some none
    | [(_, v)] => some (some v)
    | _ => none

/-- A truth value: a plain scalar, or a block whose type says so. -/
def boolOfNode? (n : Yaml.Node) : Option Bool :=
  match d.view n with
  | .scalar s .plain _ => Yaml.toBool? s
  | .scalar s .literal tag => if tag == some Yaml.boolType then Yaml.toBool? s else none
  | _ => none

/-- A backend's name; a plain scalar that stands for nothing is none. A type that
says so has to be right, any other makes a name of the scalar. -/
def backendOfNode? (n : Yaml.Node) : Option (Option BackendKind) :=
  match d.view n with
  | .scalar s .plain none =>
    if Yaml.isNull s then some none else (BackendKind.ofString? s).map some
  | .scalar s .plain (some tag) =>
    if tag == Yaml.nullType then if s ≠ "" && Yaml.isNull s then some none else none
    else (BackendKind.ofString? s).map some
  | .scalar s _ _ => (BackendKind.ofString? s).map some
  | _ => none

/-- Paths. -/
def pathsOfNode? (n : Yaml.Node) : Option (List FilePath) := do
  let ns ← items? d n
  ns.mapM fun n => (text? d n).map FilePath.ofString

/-- The name that a type of the document's own gives: the type `!name`. -/
def ownType? : List UInt8 → Option String
  | 33 :: name => Utf8.toString? name
  | _ => none

/-- A policy, as a text or as the type of a value that stands for nothing. -/
def policyOfNode? (n : Yaml.Node) : Option EnvPolicy :=
  match d.view n with
  | .scalar s style tag =>
    match tag.bind ownType? with
    | some name =>
      if style == .plain && Yaml.isNull s then EnvPolicy.ofIdentifier? name else none
    | none => EnvPolicy.ofIdentifier? s
  | _ => none

/-- A value that is decoded where it is present. -/
def orElse {α : Type} (default : α) (decode : Yaml.Node → Option α) : Option Yaml.Node → Option α
  | none => some default
  | some n => decode n

/-- Search settings from a mapping. -/
def searchOfNode? (n : Yaml.Node) : Option SearchSettings := do
  let [stem, extra, trusted, policy] ← known? d searchKeys n | none
  let base : SearchSettings := {}
  return {
    envStem := ← orElse base.envStem (text? d) stem
    extraDirs := ← orElse base.extraDirs (pathsOfNode? d) extra
    trustedDirs := ← orElse base.trustedDirs (pathsOfNode? d) trusted
    envPolicy := ← orElse base.envPolicy (policyOfNode? d) policy }

/-- **Settings from a mapping.** -/
def ofNode? (n : Yaml.Node) : Option Settings := do
  let [backend, debug, locator] ← known? d keys n | none
  return {
    backend := ← orElse none (backendOfNode? d) backend
    debug := ← orElse false (boolOfNode? d) debug
    locator := ← orElse {} (searchOfNode? d) locator }

end Reading

/-- **Settings from a document.** -/
def parse (text : String) : Except Error Settings :=
  match (Yaml.read? text).bind fun d => ofNode? d d.root with
  | some c => .ok c
  | none => .error .badDocument

/-- Settings from a file. -/
def load (fs : FileSystem) (p : FilePath) : Except Error Settings := fs.readText p >>= parse

/-- A plain scalar. -/
def plain (s : String) : Yaml.Node := .scalar s .plain none

/-- A list of paths as a node. -/
def nodeOfPaths? (ps : List FilePath) : Option Yaml.Node :=
  (pathTexts? ps).map fun ts => .sequence (ts.map Yaml.Node.ofText)

/-- The entries of settings; `none` where a path is not text. -/
def toEntries? (c : Settings) : Option (List (Yaml.Node × Yaml.Node)) := do
  let extra ← nodeOfPaths? c.locator.extraDirs
  let trusted ← nodeOfPaths? c.locator.trustedDirs
  let search : List (Yaml.Node × Yaml.Node) :=
    [(plain "env-prefix", .ofText c.locator.envStem), (plain "extra-dirs", extra),
      (plain "trusted-dirs", trusted),
      (plain "env-policy", plain c.locator.envPolicy.identifier)]
  return [(plain "backend", c.backend.elim (plain "null") fun k => .ofText k.text),
    (plain "debug", plain (if c.debug then "true" else "false")),
    (plain "locator", .mapping search)]

/-- **Settings as a document.** -/
def write (c : Settings) : Except Error String :=
  match c.toEntries? with
  | some es => .ok (Yaml.write es)
  | none => .error .badDocument

/-! ## The environment -/

/-- The non-empty parts of a list of paths, which a colon separates. -/
def splitPaths (s : String) : List FilePath :=
  ((Path.splitOn 58 (Utf8.bytes s)).filter (· ≠ [])).map FilePath.mk

/-- **The environment over settings.** The variables are applied in order:
debug flag, preferred backend, trusted directories. -/
def applyEnvironment (env : Environment) : ExceptT Error (StateM Settings) Unit := do
  if let some value := env debugVariable then
    modify fun c => { c with debug := Name.isTruthy value }
  if let some value := env backendVariable then
    if !Text.isBlank value then
      let kind ← ExceptT.mk (pure (BackendKind.parseSetting value))
      modify fun c => { c with backend := some kind }
  if let some value := env trustedVariable then
    modify fun c =>
      { c with locator := { c.locator with
          trustedDirs := c.locator.trustedDirs ++ splitPaths value } }

/-- The settings after the environment was applied, or why it could not be. -/
def withEnvironment (c : Settings) (env : Environment) : Except Error Settings :=
  match (applyEnvironment env).run.run c with
  | (.ok _, c') => .ok c'
  | (.error e, _) => .error e

/-- The same settings, with paths compared by components. -/
def same (a b : Settings) : Bool :=
  let paths (ps qs : List FilePath) : Bool :=
    ps.length == qs.length && (ps.zip qs).all fun (p, q) => p.same q
  a.backend == b.backend && a.debug == b.debug && a.locator.envStem == b.locator.envStem &&
    a.locator.envPolicy == b.locator.envPolicy && paths a.locator.extraDirs b.locator.extraDirs &&
    paths a.locator.trustedDirs b.locator.trustedDirs

end Settings

end TreeBroker
