import TreeBroker.Discovery
import TreeBroker.Registry.Basic

/-!
# What a registry does

Backends and languages are registered, languages are loaded. Loading goes
through the cache in two sections: first the key is looked up; if it is not
there the language is loaded, and then it is put in *unless another load was
faster*, in which case the language already there is the answer. The two sections
are separate actions, since other callers come between them.

Without a backend asked for, a language is loaded by the preferred backend if it
is registered for that one; otherwise by the first available backend that
succeeds, in order of priority.
-/

namespace TreeBroker.Registry

open Broker

/-! ## Registering -/

/-- A tag and an engine agree on category and form. -/
def agree (t : Tag) (e : Engine) : Except Error Unit :=
  if t.category = e.category ∧ t.form = e.form then .ok ()
  else
    .error (.configuration (.tagMismatch t.kind (t.category, t.form) (e.category, e.form)))

/-- The event of an engine's installation. -/
def installEvent (e : Engine) : Event :=
  .ofTexts .debug "Registered backend"
    [("backend", e.kind.text),
      ("capabilities", (Capabilities.ofManifest e.manifest).diagnostic)]

/-- **A backend is registered** with its engine, which has to agree with a tag
that is there already. -/
def registerBackend (e : Engine) : Action Broker Unit := do
  match (← registryNow).tag? e.kind with
  | some t => Action.ofExcept (agree t e)
  | none => pure ()
  tell (installEvent e)
  change (·.install e)

/-- **A tag is registered**, which has to agree with an engine that is there
already. -/
def registerTag (t : Tag) : Action Broker Unit := do
  match (← registryNow).engine? t.kind with
  | some i => Action.ofExcept (agree t i.engine)
  | none => pure ()
  tell (.ofTexts .debug "Registered backend tag"
    [("backend", t.kind.text), ("category", t.category.display)])
  change (·.putTag t)

/-- **A language is registered** for a backend, whose category has to be that of
the registration if it is known. -/
def register (n : LanguageName) (k : BackendKind) (reg : Registration) : Action Broker Unit := do
  Action.ofExcept reg.validate
  match (← registryNow).tag? k with
  | some t =>
    if t.category ≠ reg.category then
      throw (.configuration (.wrongCategory k t.category reg.category n))
  | none => pure ()
  tell (.ofTexts .debug "Registered language" [("language", n.text), ("backend", k.text)])
  change (·.putSlot ⟨n, k, reg⟩)

/-! ## Loading -/

/-- The first section of a load through the cache. -/
def lookUp (key : CacheKey) : Action Broker (Option LanguageHandle) := do
  match (← registryNow).cached? key with
  | some h =>
    tell (.ofTexts .trace "Language cache hit"
      [("language", key.name.text), ("backend", key.backend.text)])
    return some h
  | none => return none

/-- The second section: the language is put in unless one is there. -/
def insertIfAbsent (key : CacheKey) (h : LanguageHandle) : Action Broker LanguageHandle := do
  match (← registryNow).cached? key with
  | some stored => return stored
  | none =>
    change (·.putCached key h)
    return h

/-- **A load through the cache.** -/
def fetch (key : CacheKey) (compute : Action Broker LanguageHandle) :
    Action Broker LanguageHandle := do
  match ← lookUp key with
  | some h => return h
  | none => insertIfAbsent key (← compute)

/-- **The engine of a backend**, if it is installed and available. -/
def ready (k : BackendKind) : Action Broker Installed := do
  let r ← registryNow
  match r.engine? k with
  | none => throw (.notAvailable (.notInstalled k))
  | some i =>
    if r.isAvailable k then return i else throw (.notAvailable (.notRunning k))

/-- A registration is loaded by a backend. -/
def load (k : BackendKind) (n : LanguageName) (reg : Registration) :
    Action Broker LanguageHandle := do
  let i ← ready k
  fetch (reg.cacheKey k n) (inWorld (i.engine.load n reg))

/-- **A library is loaded by a backend**, without being registered. -/
def loadLibrary (k : BackendKind) (n : LanguageName) (path : FilePath) (symbol : String) :
    Action Broker LanguageHandle := do
  let reg ← Action.ofExcept (Registration.ofLibrary path (some symbol))
  load k n reg

/-- The registration for a backend among those of a language. -/
def slotFor? (slots : List Slot) (k : BackendKind) : Option Registration :=
  (slots.find? fun s => s.backend == k).map (·.registration)

/-- **The first backend that succeeds** among several, with the failures so far. -/
def loadFirst (n : LanguageName) (slots : List Slot) :
    List BackendKind → List (BackendKind × String) → Action Broker LanguageHandle
  | [], [] => throw (.notAvailable (.allUnavailable n (slots.map (·.backend))))
  | [], failures => do
    tell ⟨.warn, "No backend could load language",
      [("language", .text n.text), ("attempts", .count failures.length)]⟩
    throw (.notAvailable (.allFailed n failures))
  | k :: ks, failures =>
    match slotFor? slots k with
    | none => loadFirst n slots ks failures
    | some reg => do
      match ← Action.attempt (load k n reg) with
      | .ok h => return h
      | .error e =>
        tell (.ofTexts .debug "Load failed, trying next backend"
          [("language", n.text), ("backend", k.text), ("error", e.message)])
        loadFirst n slots ks (failures ++ [(k, e.message)])

/-- The backend preferred now: that of the innermost scope, else that of the
settings. -/
def preferred? (s : Broker) : Option BackendKind :=
  s.world.scopes.current?.or s.registry.settings.backend

/-- **A language is loaded** by a backend, or by the best one. -/
def languageFor (n : LanguageName) (backend : Option BackendKind) :
    Action Broker LanguageHandle := do
  let slots := (← registryNow).registered n
  if slots.isEmpty then throw (.notAvailable (.unknownLanguage n))
  match backend with
  | some k =>
    match slotFor? slots k with
    | some reg => load k n reg
    | none => throw (.notAvailable (.noSlot n k))
  | none =>
    match preferred? (← get) with
    | some k =>
      match slotFor? slots k with
      | some reg => load k n reg
      | none =>
        tell (.ofTexts .debug "Preferred backend has no registration, trying others"
          [("language", n.text), ("backend", k.text)])
        loadFirst n slots (← registryNow).available []
    | none => loadFirst n slots (← registryNow).available []

/-- **A language is looked for on disk** and registered if it is found. -/
def locate (l : Locator) : Action Broker Bool := do
  let outcome := l.discover (← get).world.files
  outcome.events.forM tell
  match outcome.found with
  | none =>
    tell (.ofTexts .debug "No grammar library to register" [("language", l.language.text)])
    return false
  | some lib =>
    let reg ← Action.ofExcept (Registration.ofLibrary lib.path (some lib.symbol))
    register l.language .treeSitter reg
    return true

/-! ## Beginnings -/

/-- A registry that knows nothing. -/
def empty (settings : Settings) : Registry := { settings }

/-- **A registry with the two engines of this library.** -/
def withDefaults (settings : Settings) : Registry :=
  ((empty settings).install .standard).install (.grammar .grammar)

end TreeBroker.Registry
