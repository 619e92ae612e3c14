import TreeBroker.Proofs.RegistryRuns

/-!
# Where the languages of a cache come from

What a caller gets for a language may have been loaded long ago. This module
follows a cached language back to the operation that put it there: the cache is
changed by loads alone, a load puts in at most what the engine of its backend
made of a registration *on offer* at that moment – one that the registry held
for the language and backend, or a library that was named in full and passed the
check – and what is in the cache stays as it is until the cache is emptied
(`Operation.cached?_cases`).

The registrations of a language are sorted by backend before a load picks one of
them. Sorting does not change which one it picks (`slotFor?_registered`): entries
for one backend keep their order, and only the first of them counts.
-/

namespace TreeBroker

open TreeBroker.Action

/-- **Any engine, and the registry's own loads**: callers install what they like, and
put nothing into the cache themselves. -/
def Regime.loadsOnly : Regime := ⟨fun _ => True, fun _ _ => False⟩

namespace Registry

open Broker

variable {r r' : Registry} {s s' : Broker} {k : BackendKind} {n : LanguageName}
  {reg : Registration} {h : LanguageHandle} {key : CacheKey}

/-! ## Picking a registration -/

/-- A sorted list has the same members of a kind, in the same order, as the list
that was sorted, if members of the kind are alike to the sort. -/
theorem filter_mergeSort {α : Type} {le : α → α → Bool} {p : α → Bool}
    (trans : ∀ a b c, le a b = true → le b c = true → le a c = true)
    (total : ∀ a b, (le a b || le b a) = true)
    (alike : ∀ a b, p a = true → p b = true → le a b = true) (xs : List α) :
    (xs.mergeSort le).filter p = xs.filter p := by
  have hsorted : (xs.filter p).Pairwise fun a b => le a b = true := by
    refine List.Pairwise.imp_of_mem ?_ (List.pairwise_of_forall fun _ _ => trivial)
    intro a b ha hb _
    exact alike a b (List.mem_filter.mp ha).2 (List.mem_filter.mp hb).2
  have hsub : (xs.filter p).Sublist ((xs.mergeSort le).filter p) := by
    have hmerge := List.sublist_mergeSort trans total hsorted List.filter_sublist
    have hfilter := hmerge.filter p
    rwa [List.filter_filter, List.filter_congr fun a _ => Bool.and_self (p a)] at hfilter
  have hlength : (xs.filter p).length = ((xs.mergeSort le).filter p).length :=
    ((List.mergeSort_perm xs le).filter p).length_eq.symm
  exact (hsub.eq_of_length hlength).symm

/-- **The registration that a load picks** is the one of the slot. -/
theorem slotFor?_registered (r : Registry) (n : LanguageName) (k : BackendKind) :
    slotFor? (r.registered n) k = r.registeredFor? n k := by
  have hsort : ∀ slots : List Slot,
      (slots.mergeSort fun a b => a.backend.le b.backend).find? (fun s => s.backend == k)
        = slots.find? fun s => s.backend == k := by
    intro slots
    rw [← List.head?_filter, filter_mergeSort, List.head?_filter]
    · intro a b c hab hbc
      simp only [BackendKind.le, decide_eq_true_eq] at *
      exact String.le_trans hab hbc
    · intro a b
      simp only [BackendKind.le, Bool.or_eq_true, decide_eq_true_eq]
      exact String.le_total _ _
    · intro a b ha hb
      simp only [beq_iff_eq] at ha hb
      simp [BackendKind.le, ha, hb]
  rw [slotFor?, registered, hsort, SlotMap.slots, List.find?_map, Option.map_map, registeredFor?]
  cases r.slotMap? n <;> rfl

theorem registered_isEmpty_of_registeredFor? (hreg : r.registeredFor? n k = some reg) :
    (r.registered n).isEmpty = false := by
  rw [← slotFor?_registered] at hreg
  cases hslots : r.registered n with
  | nil =>
    rw [hslots] at hreg
    cases hreg
  | cons x xs => rfl

/-- A language that is registered for a backend is loaded from its registration. -/
theorem on_languageFor_some (hreg : s.registry.registeredFor? n k = some reg) :
    (languageFor n (some k)).on s = (load k n reg).on s := by
  show (registryNow >>= _ : Action Broker LanguageHandle).on s = _
  rw [on_bind_of_ok (on_registryNow s)]
  simp only [registered_isEmpty_of_registeredFor? hreg, Bool.false_eq_true, if_false,
    slotFor?_registered, hreg]

/-- **What it takes to load a language for a backend**: it is registered for it. -/
theorem languageFor_some_ok (hl : (languageFor n (some k)).on s = (.ok h, s')) :
    ∃ reg, s.registry.registeredFor? n k = some reg ∧ (load k n reg).on s = (.ok h, s') := by
  cases hreg : s.registry.registeredFor? n k with
  | some reg => exact ⟨reg, rfl, by rw [← on_languageFor_some hreg, hl]⟩
  | none =>
    obtain ⟨r, t, hnow, hl⟩ := on_bind_eq_ok.mp hl
    cases hnow
    by_cases hslots : (s.registry.registered n).isEmpty = true
    · simp only [hslots, if_true] at hl
      cases hl
    · simp only [hslots, Bool.false_eq_true, if_false, slotFor?_registered, hreg] at hl
      cases hl

/-! ## What is put into the cache -/

theorem registry_lookUp (key : CacheKey) (s : Broker) :
    ((lookUp key).on s).2.registry = s.registry := by
  cases hc : s.registry.cached? key with
  | some h =>
    obtain ⟨w, hw⟩ := lookUp_of_some hc
    rw [hw]
  | none => rw [lookUp_of_none hc]

/-- **A registration on offer**: the registry holds it for the language and backend,
or it is a library that passes the check. -/
def Offers (r : Registry) (k : BackendKind) (n : LanguageName) (reg : Registration) : Prop :=
  r.registeredFor? n k = some reg ∨
    ∃ path symbol, reg = .library path symbol ∧ reg.validate = .ok ()

/-- **A language that a registry supplies** under a key: the engine of a backend loads
it from a registration on offer. -/
def Supplies (r : Registry) (key : CacheKey) (h : LanguageHandle) : Prop :=
  ∃ k i n reg w w', r.engine? k = some i ∧ r.Offers k n reg ∧
    key = Registration.cacheKey reg k n ∧ (i.engine.load n reg).on w = (.ok h, w')

theorem cached?_putCached (r : Registry) (key key' : CacheKey) (h : LanguageHandle) :
    (r.putCached key h).cached? key' =
      (r.cached? key').or (if key = key' then some h else none) := by
  show ((r.cache ++ [(key, h)]).find? _).map _ = _
  rw [List.find?_append, cached?]
  cases r.cache.find? fun x => x.1 == key' with
  | some x => rfl
  | none => by_cases hkey : key = key' <;> simp [hkey]

/-- **What loads make of a registry**: the engines are the same, and what is in the
cache was there before or has been supplied. -/
def Filled (r r' : Registry) : Prop :=
  r'.engines = r.engines ∧ ∀ key, r'.cached? key = r.cached? key ∨
    r.cached? key = none ∧ ∃ h, r'.cached? key = some h ∧ r.Supplies key h

theorem Filled.refl (r : Registry) : r.Filled r := ⟨rfl, fun _ => .inl rfl⟩

theorem Filled.putCached (hf : r.Filled r') (absent : r'.cached? key = none)
    (supplies : r.Supplies key h) : r.Filled (r'.putCached key h) := by
  refine ⟨hf.1, fun key' => ?_⟩
  rw [cached?_putCached]
  by_cases hkey : key = key'
  · subst hkey
    obtain hsame | ⟨-, h', hsome, -⟩ := hf.2 key
    · exact .inr ⟨hsame.symm.trans absent, h, by rw [absent, if_pos rfl]; rfl, supplies⟩
    · rw [absent] at hsome
      cases hsome
  · rw [if_neg hkey, Option.or_none]
    exact hf.2 key'

end Registry

namespace Broker

variable {s s' : Broker} {k : BackendKind} {n : LanguageName} {reg : Registration}

/-- What holds before holds after. -/
def Keeps (P : Broker → Prop) (s s' : Broker) : Prop := P s → P s'

instance (P : Broker → Prop) : IsPreorder Broker (Keeps P) where
  refl _ := id
  trans _ _ _ h h' := h' ∘ h

/-- A load of a registration on offer fills the cache. -/
theorem moves_load_filled {r : Registry} (offers : r.Offers k n reg) :
    Moves (Keeps fun s => r.Filled s.registry) (Registry.load k n reg) := by
  intro s hf
  obtain hsame | ⟨i, h, w, w', hi, hc, hload, hput⟩ := Registry.load_cases k n reg s
  · rw [hsame]
    exact hf
  · rw [hput]
    have hi' : r.engine? k = some i := by
      rw [Registry.engine?, ← hf.1]
      exact hi
    exact hf.putCached hc ⟨k, i, n, reg, w, w', hi', offers, rfl, hload⟩

theorem filled_languageFor (s : Broker) (n : LanguageName) (backend : Option BackendKind) :
    s.registry.Filled ((Registry.languageFor n backend).on s).2.registry := by
  refine Registry.languageFor_moves (R := Keeps fun t => s.registry.Filled t.registry)
    (fun e => fun _ => id) s (fun k reg hreg => ?_) backend (.refl _)
  rw [Registry.slotFor?_registered] at hreg
  exact moves_load_filled (.inl hreg)

theorem filled_loadLibrary (s : Broker) (k : BackendKind) (n : LanguageName) (path : FilePath)
    (symbol : String) :
    s.registry.Filled ((Registry.loadLibrary k n path symbol).on s).2.registry := by
  refine Registry.loadLibrary_moves (R := Keeps fun t => s.registry.Filled t.registry)
    (fun valid => ?_) s (.refl _)
  exact moves_load_filled (.inr ⟨path, symbol, rfl, valid⟩)

/-- What leaves the cache alone. -/
def SameCache (s s' : Broker) : Prop := s'.registry.cache = s.registry.cache

instance : IsPreorder Broker SameCache where
  refl _ := rfl
  trans _ _ _ h h' := h'.trans h

theorem moves_register_sameCache (n : LanguageName) (k : BackendKind) (reg : Registration) :
    Moves SameCache (Registry.register n k reg) := by
  intro s
  unfold SameCache
  obtain hsame | ⟨-, -, hput⟩ := Registry.register_cases n k reg s
  · rw [hsame]
  · rw [hput, Registry.cache_putSlot]

end Broker

namespace Operation

/-- **An operation beside the cache**: it neither reads it nor writes it. -/
def Aside : Operation → Prop
  | registerBackend _ => True
  | registerTag _ => True
  | register .. => True
  | locate _ => True
  | sway .. => True
  | elsewhere _ => True
  | _ => False

/-- The operations that empty the cache. -/
def Clears : Operation → Prop
  | clearCache => True
  | clearAll => True
  | _ => False

theorem cache_after_of_aside {op : Operation} (aside : op.Aside) (s : Broker) :
    (op.after s).registry.cache = s.registry.cache := by
  cases op with
  | registerBackend e =>
    obtain hsame | ⟨-, hput⟩ := Registry.registerBackend_cases e s
    · exact congrArg Registry.cache hsame
    · exact (congrArg Registry.cache hput).trans (s.registry.cache_install e)
  | registerTag t =>
    obtain hsame | ⟨-, hput⟩ := Registry.registerTag_cases t s
    · exact congrArg Registry.cache hsame
    · exact (congrArg Registry.cache hput).trans (s.registry.cache_putTag t)
  | register n k reg => exact Broker.moves_register_sameCache n k reg s
  | locate l =>
    refine Moves.bind (R := Broker.SameCache) ?_ (fun _ => .pure _) s
    exact Registry.locate_moves (fun e => fun _ => rfl) Broker.moves_register_sameCache l
  | sway k answer => rfl
  | elsewhere w => rfl
  | _ => exact aside.elim

/-- A performed action leaves what it leaves without its answer. -/
theorem on_discard {α : Type} (act : Action Broker α) (s : Broker) :
    ((do let _ ← act : Action Broker Unit).on s).2 = (act.on s).2 := by
  rw [on_bind]
  rcases act.on s with ⟨e | a, t⟩ <;> rfl

/-- **What becomes of the cache in an operation.** A language that is found under a
key afterwards was found there before, or there was none and the registry supplied
it, or a caller brought it in. -/
theorem cached?_cases {G : Regime} {op : Operation} (may : op.May G) {s : Broker}
    {key : CacheKey} {h : LanguageHandle}
    (hc : (op.after s).registry.cached? key = some h) :
    s.registry.cached? key = some h ∨
      s.registry.cached? key = none ∧ (G.handle key h ∨ s.registry.Supplies key h) := by
  have aside (ha : op.Aside) : s.registry.cached? key = some h := by
    rw [← hc, Registry.cached?, Registry.cached?, cache_after_of_aside ha]
  have filled (hf : s.registry.Filled (op.after s).registry) : s.registry.cached? key = some h ∨
      s.registry.cached? key = none ∧ (G.handle key h ∨ s.registry.Supplies key h) := by
    obtain hsame | ⟨hnone, h', hsome, hsup⟩ := hf.2 key
    · exact .inl (hsame.symm.trans hc)
    · rw [hsome] at hc
      cases hc
      exact .inr ⟨hnone, .inr hsup⟩
  cases op with
  | registerBackend e => exact .inl (aside trivial)
  | registerTag t => exact .inl (aside trivial)
  | register n k reg => exact .inl (aside trivial)
  | locate l => exact .inl (aside trivial)
  | sway k answer => exact .inl (aside trivial)
  | elsewhere w => exact .inl (aside trivial)
  | languageFor n backend =>
    refine filled ?_
    rw [after, perform, on_discard]
    exact Broker.filled_languageFor s n backend
  | loadLibrary k n path symbol =>
    refine filled ?_
    rw [after, perform, on_discard]
    exact Broker.filled_loadLibrary s k n path symbol
  | lookUp key' =>
    rw [after, perform, on_discard, Registry.registry_lookUp] at hc
    exact .inl hc
  | insert key' h' =>
    rw [after, perform, on_discard] at hc
    cases hkey' : s.registry.cached? key' with
    | some stored =>
      rw [Registry.insertIfAbsent_of_some hkey'] at hc
      exact .inl hc
    | none =>
      rw [Registry.insertIfAbsent_of_none hkey', Registry.cached?_putCached] at hc
      obtain hold | ⟨hnone, hnew⟩ := Option.or_eq_some_iff.mp hc
      · exact .inl hold
      · obtain ⟨rfl, rfl⟩ : key' = key ∧ h' = h := by simpa using hnew
        exact .inr ⟨hnone, .inl may⟩
  | clearCache => cases hc
  | clearAll => cases hc

end Operation

end TreeBroker
