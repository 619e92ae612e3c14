import TreeBroker.Registry.Operations
import TreeBroker.Tree

/-!
# Parsers

A parser is bound to a backend, and is *explicit* if the caller chose it –
directly, by a scope or by the settings. An explicit parser keeps its backend for
life. An automatic one may move to another backend when it is given a language
loaded for that one, but only to an in-process backend; for a language of any
other backend it loads the library again for its own.

When the first available backend fails to make a parser, the first in-process
backend gets one chance in its place, and the parser remembers why.
-/

namespace TreeBroker

/-- **A parser.** -/
structure Parser where
  /-- The backend it is bound to. -/
  active : Installed
  /-- The engine's parser. -/
  native : NativeParser
  /-- The language it was given. -/
  language : Option LanguageHandle := none
  /-- The backend was the caller's choice. -/
  explicit : Bool
  /-- Why its backend is not the first one. -/
  fallbackReason : Option String := none

/-- **A parser at its broker.** -/
structure Bench where
  /-- The parser. -/
  parser : Parser
  /-- The registry and the world. -/
  broker : Broker

namespace Bench

/-- An action on the broker alone. -/
def inBroker {α : Type} (act : Action Broker α) : Action Bench α :=
  act.zoom (·.broker) fun s b => { b with broker := s }

/-- An action on the native parser in its world. -/
def inNative {α : Type} (act : Action (NativeParser × World) α) : Action Bench α :=
  act.zoom (fun b => (b.parser.native, b.broker.world)) fun (native, world) b =>
    { parser := { b.parser with native }, broker := { b.broker with world } }

/-- The parser changed. -/
def change (f : Parser → Parser) : Action Bench Unit :=
  modify fun b => { b with parser := f b.parser }

end Bench

namespace Parser

open Broker

/-- The backend it is bound to. -/
def backend (p : Parser) : BackendKind := p.active.kind

/-- What that backend is able to do. -/
def capabilities (p : Parser) : Capabilities := p.active.capabilities

/-! ## Construction -/

/-- A parser bound to a backend. -/
def bind (k : BackendKind) (explicit : Bool) : Action Broker Parser := do
  let active ← Registry.ready k
  let native ← inWorld active.engine.newParser
  tell ⟨.debug, "Created parser", [("backend", .text k.text), ("explicit", .flag explicit)]⟩
  return { active, native, explicit }

/-- **A parser of the caller's choice.** -/
def withBackend (k : BackendKind) : Action Broker Parser := bind k true

/-- The second chance, after a backend failed. -/
def fallBack (failed : BackendKind) (e : Error) : Action Broker Parser := do
  match ((← registryNow).availableIn .inProcess).find? (· ≠ failed) with
  | none => throw e
  | some k =>
    tell (.ofTexts .warn "Parser construction failed, falling back"
      [("backend", failed.text), ("fallback", k.text), ("error", e.message)])
    let p ← bind k false
    return { p with fallbackReason := some e.message }

/-- The first available backend's parser, or the second chance. -/
def automatic : Action Broker Parser := do
  match (← registryNow).available with
  | [] => throw (.notAvailable .noBackend)
  | k :: _ =>
    match ← Action.attempt (bind k false) with
    | .ok p => return p
    | .error e => fallBack k e

/-- **A parser**: of the scope's backend, else of the settings', else
automatic. -/
def new : Action Broker Parser := do
  let s ← get
  match s.world.scopes.current? with
  | some k =>
    tell (.ofTexts .debug "Using scoped backend" [("backend", k.text)])
    withBackend k
  | none =>
    match s.registry.settings.backend with
    | some k =>
      tell (.ofTexts .debug "Using configured backend" [("backend", k.text)])
      withBackend k
    | none => automatic

/-! ## Languages -/

/-- A language of its own backend is taken. -/
def assign (h : LanguageHandle) : Action Bench Unit := do
  let p := (← get).parser
  let raw ← Action.ofExcept (h.unwrap p.active.engine.form)
  Bench.inNative (NativeParser.setLanguage raw)
  Bench.change fun p => { p with language := some h }

/-- **Where an automatic parser may move** for a language: its backend, if that
is installed, in-process and available. -/
def target? (p : Parser) (r : Registry) (h : LanguageHandle) : Option Installed :=
  if p.explicit then none
  else
    match r.engine? h.backend with
    | some i =>
      if i.engine.category = .inProcess ∧ r.isAvailable i.kind = true then some i else none
    | none => none

/-- The parser moves to another backend, once a new native parser there has taken the
language. -/
def moveTo (i : Installed) (h : LanguageHandle) : Action Bench Unit := do
  let p := (← get).parser
  let fresh ← Bench.inBroker (inWorld i.engine.newParser)
  let raw ← Action.ofExcept (h.unwrap i.engine.form)
  let native ← Bench.inBroker (inWorld (fresh.given raw))
  Bench.inBroker (tell (.ofTexts .debug "Switched parser backend"
    [("from", p.backend.text), ("to", i.kind.text), ("language", h.name.text)]))
  Bench.change fun p => { p with active := i, native, language := some h }

/-- **A parser is given a language.** -/
def setLanguage (h : LanguageHandle) : Action Bench Unit := do
  let b ← get
  let p := b.parser
  if h.backend = p.backend then assign h
  else
    match p.target? b.broker.registry h with
    | some i => moveTo i h
    | none =>
      match h.provenance with
      | .grammar _ => throw (.backendMismatch h.name.text h.backend p.backend)
      | .library path symbol =>
        Bench.inBroker (tell (.ofTexts .debug "Reloading language for active backend"
          [("language", h.name.text), ("from", h.backend.text), ("to", p.backend.text)]))
        let loaded ← Bench.inBroker (Registry.loadLibrary p.backend h.name path symbol)
        assign loaded

/-- **A parser with a language**, ready to parse. -/
def forLanguage (n : LanguageName) (backend : Option BackendKind) : Action Broker Parser := do
  let p ← match backend with
    | some k => withBackend k
    | none => new
  let h ← Registry.languageFor n backend
  fun s =>
    let (result, b) := (setLanguage h).on ⟨p, s⟩
    (result.map fun _ => b.parser, b.broker)

/-! ## Parsing -/

/-- An engine's tree with all that belongs to it. -/
def wrap (p : Parser) (source : String) (native : NativeTree) : Tree :=
  ⟨native, source, p.backend, p.capabilities⟩

/-- A parser without a language does not parse. -/
def requireLanguage (p : Parser) : Action World Unit :=
  match p.language with
  | some _ => return ()
  | none => throw (.configuration .noLanguage)

/-- **Parsing.** -/
def parse (p : Parser) (source : String) : Action World Tree := do
  p.requireLanguage
  return p.wrap source (← p.native.parse source)

/-- **The old tree that is handed on**: one of the same backend, if that backend
has a use for it. -/
def usable? (p : Parser) (old : Option Tree) : Option Tree :=
  old.filter fun t => p.capabilities.incremental && t.backend == p.backend

/-- **Parsing again**, with an old tree where it is of use. -/
def parseAgain (p : Parser) (old : Option Tree) (source : String) : Action World Tree := do
  p.requireLanguage
  match p.usable? old with
  | some t => return p.wrap source (← p.native.reparse t.native source)
  | none => return p.wrap source (← p.native.parse source)

/-- The diagnostic form. -/
def diagnostic (p : Parser) : String :=
  Diagnostic.partialRecord "Parser"
    [("backend", p.backend.diagnostic),
      ("language", Diagnostic.option (p.language.map (·.name.diagnostic))),
      ("explicit", Diagnostic.bool p.explicit),
      ("fallback_reason", Diagnostic.option (p.fallbackReason.map Quoted.text))]

end Parser

end TreeBroker
