import TreeBroker.Engine.Basic
import TreeBroker.Language
import TreeBroker.Settings

/-!
# The registry

A registry holds what is known: the backends and their engines, the languages
registered for them, and the languages already loaded.

A backend is announced by a *tag* – its category, the form of its languages, and
whether it is available – which may come before its engine or stay without one.
The order of the tags is the order of priority: first announced, first tried. A
tag that came with an engine asks that engine whether it is available, and keeps
its answer when another engine takes the place.
-/

namespace TreeBroker

/-- **The announcement of a backend.** -/
structure Tag where
  /-- The backend. -/
  kind : BackendKind
  /-- Its category. -/
  category : Category
  /-- The form of its languages. -/
  form : Form
  /-- Where its implementation is loaded from, for information. -/
  loadPath : Option String := none
  /-- Whether it is available; always, where nothing is said. -/
  availability : Option Bool := none
  deriving DecidableEq

namespace Tag

/-- The announcement of an engine. -/
def ofEngine (e : Engine) : Tag where
  kind := e.kind
  category := e.category
  form := e.form
  availability := some e.isAvailable

/-- Whether the backend is available. -/
def isAvailable (t : Tag) : Bool := t.availability.getD true

/-- The diagnostic form. -/
def diagnostic (t : Tag) : String :=
  Diagnostic.record "BackendTag"
    [("kind", t.kind.diagnostic), ("category", t.category.diagnostic),
      ("language_form", t.form.diagnostic),
      ("load_path", Diagnostic.option (t.loadPath.map Quoted.text)),
      ("availability", Diagnostic.option (t.availability.map fun _ => Quoted.text ".."))]

end Tag

/-- **An installed engine**, with its capabilities. -/
structure Installed where
  /-- The backend it implements. -/
  kind : BackendKind
  /-- The engine. -/
  engine : Engine
  /-- Its capabilities, as its manifest amounts to them. -/
  capabilities : Capabilities

namespace Installed

/-- An engine, installed. -/
def ofEngine (e : Engine) : Installed := ⟨e.kind, e, Capabilities.ofManifest e.manifest⟩

/-- The diagnostic form. -/
def diagnostic (i : Installed) : String :=
  Diagnostic.partialRecord "ResolvedBackend"
    [("kind", i.kind.diagnostic), ("capabilities", i.capabilities.diagnostic)]

end Installed

/-- **A language registered for a backend.** -/
structure Slot where
  /-- The language. -/
  name : LanguageName
  /-- The backend. -/
  backend : BackendKind
  /-- The registration. -/
  registration : Registration

/-- **The slot map of a language**: its registrations, one a backend. -/
abbrev SlotMap := List (BackendKind × Registration)

namespace SlotMap

/-- The registration for a backend. -/
def get? (m : SlotMap) (k : BackendKind) : Option Registration :=
  (m.find? fun entry => entry.1 == k).map (·.2)

/-- A registration in the place of the one for its backend, or behind all others. -/
def insert (m : SlotMap) (k : BackendKind) (reg : Registration) : SlotMap :=
  if (m.get? k).isSome then m.map fun old => if old.1 = k then (k, reg) else old
  else m ++ [(k, reg)]

/-- The slots of a language. -/
def slots (n : LanguageName) (m : SlotMap) : List Slot := m.map fun (k, reg) => ⟨n, k, reg⟩

end SlotMap

/-- **A registry.** -/
structure Registry where
  /-- The settings it was made with. -/
  settings : Settings
  /-- The slot maps, one a language. -/
  registrations : List (LanguageName × SlotMap) := []
  /-- The loaded languages, one a key. -/
  cache : List (CacheKey × LanguageHandle) := []
  /-- The tags, one a backend, in order of priority. -/
  tags : List Tag := []
  /-- The engines, one a backend. -/
  engines : List Installed := []
  deriving Inhabited

namespace Registry

/-! ## Looking things up -/

/-- The tag of a backend. -/
def tag? (r : Registry) (k : BackendKind) : Option Tag := r.tags.find? fun t => t.kind == k

/-- The engine of a backend. -/
def engine? (r : Registry) (k : BackendKind) : Option Installed :=
  r.engines.find? fun i => i.kind == k

/-- **Available**: an engine is installed, and the tag says so. -/
def isAvailable (r : Registry) (k : BackendKind) : Bool :=
  (r.engine? k).isSome && (r.tag? k).any Tag.isAvailable

/-- **The available backends**, in order of priority. -/
def available (r : Registry) : List BackendKind :=
  (r.tags.filter fun t => (r.engine? t.kind).isSome && t.isAvailable).map (·.kind)

/-- The available backends of a category. -/
def availableIn (r : Registry) (c : Category) : List BackendKind :=
  r.available.filter fun k => r.tags.any fun t => t.kind == k && t.category == c

/-- The slot map of a language, if it has one. -/
def slotMap? (r : Registry) (n : LanguageName) : Option SlotMap :=
  (r.registrations.find? fun entry => entry.1 == n).map (·.2)

/-- The registration of a language for a backend. -/
def registeredFor? (r : Registry) (n : LanguageName) (k : BackendKind) : Option Registration :=
  (r.slotMap? n).bind fun m => m.get? k

/-- **The registrations of a language**, by backend in increasing order. -/
def registered (r : Registry) (n : LanguageName) : List Slot :=
  (((r.slotMap? n).getD []).slots n).mergeSort fun a b => a.backend.le b.backend

/-- The languages that have a slot map, in increasing order. -/
def languages (r : Registry) : List String :=
  Sorted.ofList (r.registrations.map (·.1.text))

/-- The loaded language of a key. -/
def cached? (r : Registry) (key : CacheKey) : Option LanguageHandle :=
  (r.cache.find? fun (k, _) => k == key).map (·.2)

/-! ## Changing things -/

/-- A tag in the place of the tag of its backend, or behind all others. -/
def putTag (r : Registry) (t : Tag) : Registry :=
  if (r.tag? t.kind).isSome then
    { r with tags := r.tags.map fun old => if old.kind = t.kind then t else old }
  else { r with tags := r.tags ++ [t] }

/-- An engine in the place of the engine of its backend. -/
def putEngine (r : Registry) (i : Installed) : Registry :=
  if (r.engine? i.kind).isSome then
    { r with engines := r.engines.map fun old => if old.kind = i.kind then i else old }
  else { r with engines := r.engines ++ [i] }

/-- A language gets a slot map, an empty one, if it has none. -/
def openSlotMap (r : Registry) (n : LanguageName) : Registry :=
  if (r.slotMap? n).isSome then r else { r with registrations := r.registrations ++ [(n, [])] }

/-- A slot map in the place of that of its language. -/
def putSlotMap (r : Registry) (n : LanguageName) (m : SlotMap) : Registry :=
  { r with registrations := r.registrations.map fun old => if old.1 = n then (n, m) else old }

/-- **A registration in a slot**: the language gets a slot map if it has none, and the
registration is inserted there. -/
def putSlot (r : Registry) (s : Slot) : Registry :=
  let r' := r.openSlotMap s.name
  r'.putSlotMap s.name (((r'.slotMap? s.name).getD []).insert s.backend s.registration)

/-- A loaded language under a key that has none. -/
def putCached (r : Registry) (key : CacheKey) (h : LanguageHandle) : Registry :=
  { r with cache := r.cache ++ [(key, h)] }

/-- **An engine installed**, with a tag where its backend has none. -/
def install (r : Registry) (e : Engine) : Registry :=
  let r' := if (r.tag? e.kind).isSome then r else { r with tags := r.tags ++ [Tag.ofEngine e] }
  r'.putEngine (.ofEngine e)

/-- The cache emptied. -/
def clearCache (r : Registry) : Registry := { r with cache := [] }

/-- The cache and the registrations emptied. -/
def clearAll (r : Registry) : Registry := { r with cache := [], registrations := [] }

/-- The diagnostic form. -/
def diagnostic (r : Registry) : String :=
  Diagnostic.record "LanguageRegistry"
    [("backends", Diagnostic.list (r.tags.map (·.kind.diagnostic))),
      ("languages", toString r.languages.length), ("cached", toString r.cache.length)]

end Registry

/-- **A broker**: a registry in its world. -/
structure Broker where
  /-- The registry. -/
  registry : Registry
  /-- The world around it. -/
  world : World
  deriving Inhabited

namespace Broker

/-- An action on the world alone. -/
def inWorld {α : Type} (act : Action World α) : Action Broker α :=
  act.zoom (·.world) fun w s => { s with world := w }

/-- An event is told. -/
def tell (e : Event) : Action Broker Unit := inWorld (World.tell e)

/-- The registry as it stands. -/
def registryNow : Action Broker Registry := return (← get).registry

/-- The registry changed. -/
def change (f : Registry → Registry) : Action Broker Unit :=
  modify fun s => { s with registry := f s.registry }

end Broker

end TreeBroker
