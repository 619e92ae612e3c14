import TreeBroker.Proofs.LibraryNames
import TreeBroker.Proofs.SlotCategories

/-!
# Registering what a search finds

What a search finds is registered for the native backend, and three checks stand between
the two. The search has checked the path. A registration of a library is checked when it
is made, the path once more and then the symbol. And the registry checks the registration
again before it fills the slot, and compares its category with that of the backend's tag.

Each check could refuse what the one before has let pass, and none of them does. A path
is accepted by a search only if it passes the structural check, wherever it comes from
(`Locator.found_discover_eq_some`). The symbol is built from the name of the language,
which is short enough to leave room for the beginning of all symbols
(`Locator.ofLibrary_symbol`). What is left is the category, and only a tag that makes
something else of the native backend stands in the way.
-/

namespace TreeBroker

open TreeBroker.Action

/-! ## Filling a slot -/

namespace Registry

open Broker

variable {r : Registry} {n : LanguageName} {k : BackendKind} {reg : Registration}

/-- **A registry with one slot filled**, and nothing else changed. -/
structure FilledAt (r : Registry) (n : LanguageName) (k : BackendKind) (reg : Registration)
    (r' : Registry) : Prop where
  /-- The slot holds the registration. -/
  slot : r'.registeredFor? n k = some reg
  /-- Every other slot holds what it held. -/
  others : ∀ n' k', (n', k') ≠ (n, k) → r'.registeredFor? n' k' = r.registeredFor? n' k'
  /-- The loaded languages are the same. -/
  cache : r'.cache = r.cache
  /-- The tags are the same. -/
  tags : r'.tags = r.tags
  /-- The engines are the same. -/
  engines : r'.engines = r.engines
  /-- The settings are the same. -/
  settings : r'.settings = r.settings

theorem filledAt_putSlot (r : Registry) (n : LanguageName) (k : BackendKind)
    (reg : Registration) : r.FilledAt n k reg (r.putSlot ⟨n, k, reg⟩) where
  slot := by
    rw [registeredFor?_putSlot]
    exact if_pos ⟨rfl, rfl⟩
  others n' k' other := by
    rw [registeredFor?_putSlot]
    exact if_neg fun same => other (Prod.ext same.1.symm same.2.symm)
  cache := cache_putSlot r _
  tags := by rw [putSlot_eq]
  engines := by rw [putSlot_eq]
  settings := by rw [putSlot_eq]

/-- **A valid registration that fits its backend** is taken. -/
theorem on_register (valid : reg.validate = .ok ()) {s : Broker} (fits : s.registry.Fits k reg) :
    ∃ events, (register n k reg).on s =
      (.ok (), told { s with registry := s.registry.putSlot ⟨n, k, reg⟩ } events) := by
  have checked : (Action.ofExcept reg.validate : Action Broker Unit).on s = (.ok (), s) := by
    rw [valid]
    rfl
  rw [register, on_bind_of_ok checked, on_bind_of_ok (on_registryNow s)]
  cases ht : s.registry.tag? k with
  | none => exact ⟨_, rfl⟩
  | some t =>
    simp only [fits t ht, ne_eq, not_true, if_false]
    exact ⟨_, rfl⟩

end Registry

/-! ## From the search to the slot -/

namespace Locator

variable {l : Locator} {fs : FileSystem}

/-- **What a search finds** has the locator's symbol and lies at a path that passes the
check. -/
theorem found_discover_eq_some {lib : LocatedLibrary} (h : (l.discover fs).found = some lib) :
    lib = l.located lib.path ∧ lib.path.rejection? = none := by
  have found := h
  rw [found_discover] at h
  obtain ⟨chosen, -, rfl⟩ := Option.map_eq_some_iff.mp h
  exact ⟨rfl, (of_discover found).1⟩

/-- **Locating a language**: what is found is registered, unless the native backend has a
tag that makes something else of it. -/
theorem on_locate (l : Locator) (s : Broker)
    (native : ∀ t, s.registry.tag? .treeSitter = some t → t.category = .native) :
    ∃ events, (Registry.locate l).on s =
      match (l.discover s.world.files).found with
      | none => (.ok false, s.told events)
      | some lib => (.ok true, Broker.told { s with
          registry := s.registry.putSlot
            ⟨l.language, .treeSitter, .library lib.path l.symbol⟩ } events) := by
  rw [Registry.locate, on_bind_of_ok (on_get s)]
  dsimp only
  rw [on_bind_of_ok (Broker.on_forM_tell _ s)]
  cases hfound : (l.discover s.world.files).found with
  | none => exact ⟨_, congrArg (Prod.mk _) (Broker.told_told _ _ _)⟩
  | some lib =>
    obtain ⟨hlib, ok⟩ := found_discover_eq_some hfound
    have made : Registration.ofLibrary lib.path (some lib.symbol) =
        .ok (.library lib.path l.symbol) := by
      rw [congrArg LocatedLibrary.symbol hlib]
      exact ofLibrary_symbol ok
    have valid : (Registration.library lib.path l.symbol).validate = .ok () :=
      (Registration.checked_ok (ofLibrary_symbol ok)).2
    obtain ⟨events, taken⟩ := Registry.on_register (n := l.language) valid
      (s := s.told (l.discover s.world.files).events) native
    refine ⟨(l.discover s.world.files).events ++ events, ?_⟩
    simp only [made]
    rw [on_bind_of_ok (on_ofExcept _ _), on_bind_of_ok taken]
    exact congrArg (Prod.mk _) (Broker.told_told { s with registry := _ } _ _)

/-- **What a search finds is registered**, whatever the files, the environment, the
language and the settings are, at every registry whose native backend has no tag or one of
its category. Locating a language never fails, and it says whether something was found. If
so, the slot of the language for the native backend holds the library that was found under
the symbol of the language, and nothing else has changed; if not, nothing has. -/
theorem locate_registers (l : Locator) (s : Broker)
    (native : ∀ t, s.registry.tag? .treeSitter = some t → t.category = .native) :
    ((Registry.locate l).on s).1 = .ok (l.discover s.world.files).found.isSome ∧
    (∀ lib, (l.discover s.world.files).found = some lib →
      s.registry.FilledAt l.language .treeSitter
        (.library lib.path ("tree_sitter_" ++ l.language.text))
        ((Registry.locate l).on s).2.registry) ∧
    ((l.discover s.world.files).found = none →
      ((Registry.locate l).on s).2.registry = s.registry) := by
  obtain ⟨events, outcome⟩ := on_locate l s native
  rw [outcome]
  cases (l.discover s.world.files).found with
  | none => exact ⟨rfl, nofun, fun _ => rfl⟩
  | some lib =>
    refine ⟨rfl, fun lib' same => ?_, nofun⟩
    cases same
    exact Registry.filledAt_putSlot _ _ _ _

-- A registry with its engines, and a trusted directory that holds one library.
theorem locate_registers_bare :
    ((Registry.locate (tomlIn ["/t"])).on
        ⟨.withDefaults default, { files := holding "toml.so" }⟩).1 = .ok true ∧
      (Registry.withDefaults default).FilledAt ⟨"toml", by decide⟩ .treeSitter
        (.library (FilePath.ofString "/t/toml.so") "tree_sitter_toml")
        ((Registry.locate (tomlIn ["/t"])).on
          ⟨.withDefaults default, { files := holding "toml.so" }⟩).2.registry := by
  obtain ⟨answer, filled, -⟩ := locate_registers (tomlIn ["/t"])
    ⟨.withDefaults default, { files := holding "toml.so" }⟩ (by
      intro t ht
      cases ht
      rfl)
  rw [found_toml] at answer
  exact ⟨answer, filled _ found_toml⟩

end Locator

end TreeBroker
