import Mathlib.Data.List.Induction
import TreeBroker.Proofs.Supply

/-!
# How fresh a loaded grammar is

A slot can be given another grammar at any time, and registering one does not touch
the cache. Whether the next load sees the new grammar is decided by the cache key,
and a grammar's key is its *identifier* – not the grammar. So the identifier has to
be stable: a new grammar under an identifier whose language is already loaded is
answered with the old one, for as long as the cache is not emptied
(`Broker.languageFor_stale`).

That is all that can go wrong. What is loaded for a backend while its slot holds a
grammar was made by the backend's engine from what the slot held, under the same
identifier, at one moment of the run. The moment is the present one, unless the
language has been found in the cache at every moment since
(`Broker.languageFor_origin`). A new identifier, or an empty cache, is enough for the
new grammar to be seen; and neither another backend, nor another language, nor a
library can get in the way.
-/

namespace TreeBroker

open TreeBroker.Action

/-- An engine of this library makes of a grammar a language that holds it. -/
theorem Engine.payload_of_load {e : Engine} (built : e.IsBuiltIn) {n : LanguageName}
    {g : Grammar} {i : String} {w w' : World} {h : LanguageHandle}
    (loaded : (e.load n (.grammar g i)).on w = (.ok h, w')) : h.payload = .grammar g := by
  induction e generalizing w w' h with
  | linked ss => cases loaded
  | grammar k =>
    cases loaded
    rfl
  | stub k inner c m a f ih =>
    obtain ⟨h₀, w₀, hin, hmade⟩ := on_bind_eq_ok.mp loaded
    cases hmade
    show h₀.payload = .grammar g
    exact ih built hin
  | foreign f => exact built.elim

/-! ## The moment of a load -/

/-- **A registry yields a language** for a backend and a name from a grammar under an
identifier: the slot holds the grammar, and the engine of the backend makes the
language of it – one that holds the grammar, if the engine is of this library. -/
structure Registry.Yields (r : Registry) (k : BackendKind) (n : LanguageName) (g : Grammar)
    (i : String) (h : LanguageHandle) : Prop where
  slot : r.registeredFor? n k = some (.grammar g i)
  loaded : ∃ (e : Installed) (w w' : World), r.engine? k = some e ∧
    (e.engine.load n (.grammar g i)).on w = (.ok h, w') ∧
    (e.engine.IsBuiltIn → h.payload = .grammar g)

namespace Registry

variable {r : Registry} {k : BackendKind} {n : LanguageName} {g : Grammar} {i : String}
  {h : LanguageHandle}

theorem Yields.of_load {e : Installed} {w w' : World}
    (slot : r.registeredFor? n k = some (.grammar g i)) (he : r.engine? k = some e)
    (loaded : (e.engine.load n (.grammar g i)).on w = (.ok h, w')) : r.Yields k n g i h :=
  ⟨slot, e, w, w', he, loaded, fun built => Engine.payload_of_load built loaded⟩

/-- What is supplied under the key of a grammar comes from the slot of that key, which
holds some grammar under the identifier. -/
theorem Supplies.yields (hs : r.Supplies (.grammar k i n) h) : ∃ g, r.Yields k n g i h := by
  obtain ⟨k', e, n', reg, w, w', he, offers, hkey, hload⟩ := hs
  cases reg with
  | library path symbol =>
    -- the key of a library has a symbol
    exact absurd (congrArg CacheKey.symbol hkey) (by simp [Registration.cacheKey,
      CacheKey.grammar, CacheKey.library])
  | grammar g i' =>
    obtain ⟨rfl, rfl, rfl⟩ : k = k' ∧ i = i' ∧ n = n' := by
      simpa [Registration.cacheKey, CacheKey.grammar] using hkey
    obtain hslot | ⟨path, symbol, hlib, -⟩ := offers
    · exact ⟨g, .of_load hslot he hload⟩
    · cases hlib

end Registry

namespace Broker

variable {s s' : Broker} {ops : List Operation} {key : CacheKey} {h : LanguageHandle}

/-- **The history of a cached language.** It was put in by one operation of the run,
where there was none, and the registry supplied it at that moment; and it has been
found there ever since. -/
theorem cached?_history (new : s.registry.cache = []) (may : ∀ op ∈ ops, op.May .loadsOnly)
    (hc : (s.run ops).registry.cached? key = some h) :
    ∃ before op after, ops = before ++ op :: after ∧
      (s.run before).registry.cached? key = none ∧
      (s.run before).registry.Supplies key h ∧
      ∀ mid, mid <+: after → (s.run (before ++ op :: mid)).registry.cached? key = some h := by
  induction ops using List.reverseRecOn with
  | nil =>
    rw [run_nil, Registry.cached?, new] at hc
    cases hc
  | append_singleton ops op ih =>
    have hop : op.May .loadsOnly := may op (List.mem_append_right ops (List.mem_singleton_self op))
    have hc' := hc
    rw [run_append, run_cons, run_nil] at hc'
    obtain hold | ⟨hnone, hout | hsup⟩ := Operation.cached?_cases hop hc'
    · obtain ⟨before, op', after, rfl, hnone, hsup, hsince⟩ :=
        ih (fun x hx => may x (List.mem_append_left _ hx)) hold
      refine ⟨before, op', after ++ [op], by simp, hnone, hsup, fun mid hmid => ?_⟩
      obtain rfl | hmid := List.prefix_concat_iff.mp hmid
      · simpa using hc
      · exact hsince mid hmid
    · exact hout.elim
    · refine ⟨ops, op, [], rfl, hnone, hsup, fun mid hmid => ?_⟩
      rw [List.prefix_nil.mp hmid]
      exact hc

variable {k : BackendKind} {n : LanguageName} {g : Grammar} {i : String}

/-- **A language kept since an earlier load**: one operation of the run put it where
there was none, made of the grammar that the slot held then; and it has been found
in the cache at every moment after. -/
def KeptSince (s : Broker) (ops : List Operation) (k : BackendKind) (n : LanguageName)
    (i : String) (h : LanguageHandle) : Prop :=
  ∃ before op after g, ops = before ++ op :: after ∧
    (s.run before).registry.cached? (.grammar k i n) = none ∧
    (s.run before).registry.Yields k n g i h ∧
    ∀ mid, mid <+: after →
      (s.run (before ++ op :: mid)).registry.cached? (.grammar k i n) = some h

/-- **What is loaded while a slot holds a grammar** was made of a grammar that the slot
held under the same identifier: of the present one, or else of an earlier one whose
language has been in the cache ever since. -/
theorem languageFor_origin (new : s.registry.IsNew) (may : ∀ op ∈ ops, op.May .loadsOnly)
    (slot : (s.run ops).registry.registeredFor? n k = some (.grammar g i))
    (answer : (Registry.languageFor n (some k)).on (s.run ops) = (.ok h, s')) :
    (s.run ops).registry.Yields k n g i h ∨ s.KeptSince ops k n i h := by
  have hempty : s.registry.cache = [] := by
    cases hr : s.registry
    rw [hr] at new
    cases new <;> rfl
  rw [Registry.on_languageFor_some slot] at answer
  obtain ⟨e, he, -, ⟨hc, -⟩ | ⟨-, w, hload, -⟩⟩ := Registry.load_ok answer
  · obtain ⟨before, op, after, hops, hnone, hsup, hsince⟩ := cached?_history hempty may hc
    obtain ⟨g', hyields⟩ := hsup.yields
    exact .inr ⟨before, op, after, g', hops, hnone, hyields, hsince⟩
  · exact .inl (.of_load slot he hload)

/-! ## Two grammars under one identifier -/

theorem isSafe_assign : Name.isSafe "assign".toList = true := by decide

/-- The language of assignments. -/
def assign : LanguageName := ⟨"assign", isSafe_assign⟩

/-- A grammar is registered and loaded; then another one is registered under the same
identifier. -/
def restocking : List Operation :=
  [.register assign .grammar (.grammar (Assignment.grammar 0) "assign"),
    .languageFor assign (some .grammar),
    .register assign .grammar (.grammar (Assignment.grammar 1) "assign")]

/-- A new registry after the two grammars. -/
def restocked : Broker := run ⟨.withDefaults default, default⟩ restocking

/-- The slot holds the second grammar, and the first one is loaded for it. -/
theorem on_languageFor_restocked :
    restocked.registry.registeredFor? assign .grammar
        = some (.grammar (Assignment.grammar 1) "assign") ∧
      ∃ h s', (Registry.languageFor assign (some .grammar)).on restocked = (.ok h, s') ∧
        h.payload = .grammar (Assignment.grammar 0) := by
  have hrun : restocked = Operation.after
      (.register assign .grammar (.grammar (Assignment.grammar 1) "assign"))
      ((Registry.load .grammar assign (.grammar (Assignment.grammar 0) "assign")).on
        (Operation.after (.register assign .grammar (.grammar (Assignment.grammar 0) "assign"))
          ⟨.withDefaults default, default⟩)).2 := by
    show Operation.after _ (Operation.after (.languageFor assign (some .grammar)) _) = _
    rw [Operation.after.eq_1 (.languageFor assign (some .grammar)), Operation.perform,
      Operation.on_discard, Registry.on_languageFor_some rfl]
  have hslot : restocked.registry.registeredFor? assign .grammar
      = some (.grammar (Assignment.grammar 1) "assign") := by
    rw [hrun]
    rfl
  refine ⟨hslot, ?_⟩
  rw [Registry.on_languageFor_some hslot, hrun]
  exact ⟨_, _, rfl, rfl⟩

/-- **A stale grammar**: what is loaded holds another grammar than the slot. -/
theorem languageFor_stale :
    restocked.registry.registeredFor? assign .grammar
        = some (.grammar (Assignment.grammar 1) "assign") ∧
      ∃ h s' g, (Registry.languageFor assign (some .grammar)).on restocked = (.ok h, s') ∧
        h.payload = .grammar g ∧ g.isSame (Assignment.grammar 1) = false := by
  obtain ⟨hslot, h, s', answer, hpayload⟩ := on_languageFor_restocked
  exact ⟨hslot, h, s', _, answer, hpayload, rfl⟩

/-- The stale grammar was in the slot when it was loaded. -/
theorem languageFor_origin_restocked :
    Registry.IsNew (.withDefaults default) ∧ (∀ op ∈ restocking, op.May .loadsOnly) ∧
      restocked.registry.registeredFor? assign .grammar
        = some (.grammar (Assignment.grammar 1) "assign") ∧
      ∃ h s', (Registry.languageFor assign (some .grammar)).on restocked = (.ok h, s') ∧
        h.payload = .grammar (Assignment.grammar 0) ∧
        (restocked.registry.Yields .grammar assign (Assignment.grammar 1) "assign" h ∨
          KeptSince ⟨.withDefaults default, default⟩ restocking .grammar assign "assign" h) := by
  have new : Registry.IsNew (.withDefaults default) := .withDefaults default
  have may : ∀ op ∈ restocking, op.May .loadsOnly := by
    simp [restocking, Operation.May]
  obtain ⟨hslot, h, s', answer, hpayload⟩ := on_languageFor_restocked
  exact ⟨new, may, hslot, h, s', answer, hpayload, languageFor_origin new may hslot answer⟩

end Broker

end TreeBroker
