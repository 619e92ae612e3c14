import TreeBroker.Proofs.RegistryChanges

/-!
# Runs of a registry

An operation on a registry goes through its tables by lookups and changes, and
may tell events, ask engines and fail on the way. This module opens each of them
once. What an operation does to the registry, *however it ends*, is a number of
the changes of `Registry.Change` (`Operation.evolves`); what a load answers is
said by `load_ok` and `load_error`.

A *run* is any sequence of operations. A load through the cache has two sections
that others may come between, so its sections are operations of their own: a
load whose own computation uses the registry is the first section, whatever the
computation does, and the second section. The world around a registry – its
files, the scopes, other parsers at work – may become any other between two
operations, and so may the answers of the predicates behind the tags.
-/

namespace TreeBroker

open TreeBroker.Action

/-! ## Actions of a broker -/

namespace Broker

variable {α : Type} {G : Regime}

@[simp] theorem on_inWorld (act : Action World α) (s : Broker) :
    (inWorld act).on s = ((act.on s.world).1, { s with world := (act.on s.world).2 }) := rfl

@[simp] theorem on_registryNow (s : Broker) : registryNow.on s = (.ok s.registry, s) := rfl

@[simp] theorem on_change (f : Registry → Registry) (s : Broker) :
    (change f).on s = (.ok (), { s with registry := f s.registry }) := rfl

/-- A broker that has told some more events. -/
def told (s : Broker) (events : List Event) : Broker :=
  { s with world := { s.world with events := s.world.events ++ events } }

theorem told_nil (s : Broker) : s.told [] = s := by
  unfold told
  rw [List.append_nil]

theorem told_told (s : Broker) (events events' : List Event) :
    (s.told events).told events' = s.told (events ++ events') := by
  unfold told
  rw [List.append_assoc]

theorem on_tell (e : Event) (s : Broker) : (tell e).on s = (.ok (), s.told [e]) := rfl

theorem on_forM_tell (events : List Event) (s : Broker) :
    (events.forM tell).on s = (.ok (), s.told events) := by
  induction events generalizing s with
  | nil =>
    rw [told_nil]
    rfl
  | cons e events ih =>
    show ((tell e >>= fun _ => events.forM tell) : Action Broker PUnit).on s = _
    rw [on_bind_of_ok (on_tell e s), ih, told_told]
    rfl

/-- What an action in the world alone took to succeed. -/
theorem inWorld_ok {act : Action World α} {s s' : Broker} {a : α}
    (h : (inWorld act).on s = (.ok a, s')) :
    ∃ w, act.on s.world = (.ok a, w) ∧ s' = { s with world := w } := by
  rw [on_inWorld, Prod.mk.injEq] at h
  exact ⟨_, Prod.ext h.1 rfl, h.2.symm⟩

/-- What becomes of the registry of a broker. -/
def Evolves (G : Regime) (s s' : Broker) : Prop := s.registry.Evolves G s'.registry

instance : IsPreorder Broker (Evolves G) where
  refl _ := .refl
  trans _ _ _ h h' := h.trans h'

theorem moves_inWorld (act : Action World α) : Moves (Evolves G) (inWorld act) :=
  fun _ => .refl

theorem moves_tell (e : Event) : Moves (Evolves G) (tell e) := moves_inWorld _

theorem moves_registryNow : Moves (Evolves G) registryNow := fun _ => .refl

end Broker

/-- A registration that passed the check is the one that was checked. -/
theorem Registration.checked_ok {reg reg' : Registration} (h : reg.checked = .ok reg') :
    reg' = reg ∧ reg.validate = .ok () := by
  unfold checked at h
  cases hv : reg.validate with
  | error e =>
    rw [hv] at h
    cases h
  | ok u =>
    rw [hv] at h
    cases h
    exact ⟨rfl, rfl⟩

namespace Registry

open Broker

variable {G : Regime} {s s' : Broker} {k : BackendKind} {n : LanguageName}
  {reg : Registration} {h : LanguageHandle} {e : Error}

/-! ## Loading -/

/-- **The engine of a backend** is given if it is installed and available. -/
theorem ready_ok {i : Installed} (hr : (ready k).on s = (.ok i, s')) :
    s' = s ∧ s.registry.engine? k = some i ∧ s.registry.isAvailable k = true := by
  obtain ⟨_, _, hnow, hr⟩ := on_bind_eq_ok.mp hr
  cases hnow
  cases hi : s.registry.engine? k with
  | none =>
    rw [hi] at hr
    cases hr
  | some i' =>
    simp only [hi] at hr
    split at hr
    · next ha =>
      cases hr
      exact ⟨rfl, rfl, ha⟩
    · cases hr

theorem on_ready {i : Installed} (hi : s.registry.engine? k = some i)
    (ha : s.registry.isAvailable k = true) : (ready k).on s = (.ok i, s) := by
  show (registryNow >>= _ : Action Broker Installed).on s = _
  rw [on_bind_of_ok (on_registryNow s)]
  simp only [hi, ha, if_true]
  rfl

/-- Asking for an engine changes nothing. -/
theorem ready_state (k : BackendKind) (s : Broker) : ((ready k).on s).2 = s := by
  show ((registryNow >>= _ : Action Broker Installed).on s).2 = s
  rw [on_bind_of_ok (on_registryNow s)]
  split
  · rfl
  · split <;> rfl

/-- The first section of a load finds what is in the cache, and tells so. -/
theorem lookUp_of_some {key : CacheKey} (hc : s.registry.cached? key = some h) :
    ∃ w, (lookUp key).on s = (.ok (some h), { s with world := w }) := by
  show ∃ w, (registryNow >>= _ : Action Broker _).on s = _
  rw [on_bind_of_ok (on_registryNow s), hc]
  exact ⟨_, rfl⟩

/-- The first section of a load finds nothing, and does nothing. -/
theorem lookUp_of_none {key : CacheKey} (hc : s.registry.cached? key = none) :
    (lookUp key).on s = (.ok none, s) := by
  show (registryNow >>= _ : Action Broker _).on s = _
  rw [on_bind_of_ok (on_registryNow s), hc]
  rfl

/-- The second section of a load answers with what is in the cache already. -/
theorem insertIfAbsent_of_some {key : CacheKey} {stored : LanguageHandle}
    (hc : s.registry.cached? key = some stored) :
    (insertIfAbsent key h).on s = (.ok stored, s) := by
  show (registryNow >>= _ : Action Broker _).on s = _
  rw [on_bind_of_ok (on_registryNow s), hc]
  rfl

/-- The second section of a load puts a language in where there is none. -/
theorem insertIfAbsent_of_none {key : CacheKey} (hc : s.registry.cached? key = none) :
    (insertIfAbsent key h).on s = (.ok h, { s with registry := s.registry.putCached key h }) := by
  show (registryNow >>= _ : Action Broker _).on s = _
  rw [on_bind_of_ok (on_registryNow s), hc]
  rfl

/-- The second section of a load always has an answer. -/
theorem insertIfAbsent_total (key : CacheKey) (h : LanguageHandle) (s : Broker) :
    ∃ kept s', (insertIfAbsent key h).on s = (.ok kept, s') := by
  cases hc : s.registry.cached? key with
  | some kept => exact ⟨kept, s, insertIfAbsent_of_some hc⟩
  | none => exact ⟨h, _, insertIfAbsent_of_none hc⟩

/-- A load through the cache that finds something is its first section. -/
theorem fetch_of_some {key : CacheKey} (hc : s.registry.cached? key = some h) :
    ∃ w, ∀ compute, (fetch key compute).on s = (.ok h, { s with world := w }) := by
  obtain ⟨w, hw⟩ := lookUp_of_some hc
  refine ⟨w, fun compute => ?_⟩
  rw [fetch, on_bind_of_ok hw]
  rfl

/-- A load through the cache that finds nothing is what it computes, and then its
second section. -/
theorem fetch_of_none {key : CacheKey} (hc : s.registry.cached? key = none)
    (compute : Action Broker LanguageHandle) :
    (fetch key compute).on s = (compute >>= insertIfAbsent key).on s := by
  rw [fetch, on_bind_of_ok (lookUp_of_none hc)]

/-- The engine of a backend that is ready loads through the cache. -/
theorem on_load_of_ready {i : Installed} (hi : s.registry.engine? k = some i)
    (ha : s.registry.isAvailable k = true) :
    (load k n reg).on s = (fetch (reg.cacheKey k n) (inWorld (i.engine.load n reg))).on s := by
  rw [load, on_bind_of_ok (on_ready hi ha)]

/-- **What a load answers**: the language in the cache, or else the language that
the engine loads, which is in the cache from then on. -/
theorem load_ok (hl : (load k n reg).on s = (.ok h, s')) :
    ∃ i, s.registry.engine? k = some i ∧ s.registry.isAvailable k = true ∧
      ((s.registry.cached? (reg.cacheKey k n) = some h ∧ s'.registry = s.registry) ∨
        (s.registry.cached? (reg.cacheKey k n) = none ∧
          ∃ w, (i.engine.load n reg).on s.world = (.ok h, w) ∧
            s' = ⟨s.registry.putCached (reg.cacheKey k n) h, w⟩)) := by
  obtain ⟨i, t, hready, hfetch⟩ := on_bind_eq_ok.mp hl
  obtain ⟨rfl, hi, ha⟩ := ready_ok hready
  refine ⟨i, hi, ha, ?_⟩
  cases hc : t.registry.cached? (reg.cacheKey k n) with
  | some h' =>
    obtain ⟨w, hfound⟩ := fetch_of_some hc
    rw [hfound] at hfetch
    cases hfetch
    exact .inl ⟨rfl, rfl⟩
  | none =>
    rw [fetch_of_none hc] at hfetch
    obtain ⟨h', t', hload, hins⟩ := on_bind_eq_ok.mp hfetch
    obtain ⟨w, hw, rfl⟩ := inWorld_ok hload
    rw [insertIfAbsent_of_none (s := ⟨t.registry, w⟩) hc] at hins
    cases hins
    exact .inr ⟨rfl, w, hw, rfl⟩

/-- **A load that fails** leaves the registry alone. -/
theorem load_error (hl : (load k n reg).on s = (.error e, s')) : s'.registry = s.registry := by
  rcases on_bind_eq_error.mp hl with hready | ⟨i, t, hready, hfetch⟩
  · rw [← ready_state k s, hready]
  · obtain ⟨rfl, -, -⟩ := ready_ok hready
    cases hc : t.registry.cached? (reg.cacheKey k n) with
    | some h' =>
      obtain ⟨w, hfound⟩ := fetch_of_some hc
      rw [hfound] at hfetch
      cases hfetch
    | none =>
      rw [fetch_of_none hc] at hfetch
      rcases on_bind_eq_error.mp hfetch with hload | ⟨h', t', hload, hins⟩
      · rw [on_inWorld, Prod.mk.injEq] at hload
        rw [← hload.2]
      · obtain ⟨w, -, rfl⟩ := inWorld_ok hload
        rw [insertIfAbsent_of_none (s := ⟨t.registry, w⟩) hc] at hins
        cases hins

/-- A library is loaded like a registration that passed the check. -/
theorem loadLibrary_ok {path : FilePath} {symbol : String}
    (hl : (loadLibrary k n path symbol).on s = (.ok h, s')) :
    (load k n (.library path symbol)).on s = (.ok h, s') := by
  obtain ⟨reg, t, hreg, hload⟩ := on_bind_eq_ok.mp hl
  rw [on_ofExcept, Prod.mk.injEq] at hreg
  obtain ⟨hreg, rfl⟩ := hreg
  rw [(Registration.checked_ok hreg).1] at hload
  exact hload

/-- **A load under a signed regime** gives a language of the backend that was asked for,
out of the cache or not. -/
theorem load_backend (signed : G.Signed) (hr : s.registry.Sound G)
    (hl : (load k n reg).on s = (.ok h, s')) : h.backend = k := by
  obtain ⟨i, hi, -, ⟨hc, -⟩ | ⟨-, w, hload, -⟩⟩ := load_ok hl
  · rw [(hr.accounted _ (mem_of_cached? hc)).backend_eq signed, Registration.backend_cacheKey]
  · obtain ⟨hself, may⟩ := hr.engine hi
    rw [signed.engine may hload, ← kind_of_engine? hi, hself]
    rfl

/-! ## What operations do to the registry

An operation that does several things in a row is taken apart for any relation
that is reflexive and transitive: what telling an event and loading a
registration may do to a broker, loading a language may do to it. -/

section

variable {R : Broker → Broker → Prop} [IsPreorder Broker R]

theorem loadLibrary_moves {path : FilePath} {symbol : String}
    (loads : (Registration.library path symbol).validate = .ok () →
      Moves R (load k n (.library path symbol))) :
    Moves R (loadLibrary k n path symbol) := by
  intro s
  show R s ((Action.ofExcept (Registration.library path symbol).checked >>= load k n).on s).2
  cases hreg : (Registration.library path symbol).checked with
  | error e =>
    rw [on_bind_of_error (on_ofExcept _ s)]
    exact refl_of R s
  | ok reg =>
    obtain ⟨rfl, hv⟩ := Registration.checked_ok hreg
    rw [on_bind_of_ok (on_ofExcept _ s)]
    exact loads hv s

theorem loadFirst_moves (tells : ∀ e, Moves R (tell e)) {slots : List Slot}
    (loads : ∀ k reg, slotFor? slots k = some reg → Moves R (load k n reg))
    (ks : List BackendKind) (failures : List (BackendKind × String)) :
    Moves R (loadFirst n slots ks failures) := by
  induction ks generalizing failures with
  | nil =>
    cases failures with
    | nil => exact .throw _
    | cons f fs => exact .bind (tells _) fun _ => .throw _
  | cons k ks ih =>
    unfold loadFirst
    split
    · exact ih failures
    · next reg hreg =>
      refine .bind (.attempt (loads k reg hreg)) fun outcome => ?_
      cases outcome with
      | ok h => exact .pure h
      | error e => exact .bind (tells _) fun _ => ih _

/-- **What loading a language does**: it loads registrations that the registry
holds for the language at that moment. -/
theorem languageFor_moves (tells : ∀ e, Moves R (tell e)) (s : Broker)
    (loads : ∀ k reg, slotFor? (s.registry.registered n) k = some reg → Moves R (load k n reg))
    (backend : Option BackendKind) : R s ((languageFor n backend).on s).2 := by
  show R s ((registryNow >>= _ : Action Broker LanguageHandle).on s).2
  rw [on_bind_of_ok (on_registryNow s)]
  refine (?_ : Moves R _) s
  by_cases hslots : (s.registry.registered n).isEmpty = true
  · simp only [hslots, if_true]
    exact .throw_bind _ _
  · simp only [hslots, Bool.false_eq_true, if_false]
    cases backend with
    | some k =>
      dsimp only
      split
      · next reg hreg => exact loads k reg hreg
      · exact .throw _
    | none =>
      have first : Moves R
          (registryNow >>= fun now => loadFirst n (s.registry.registered n) now.available []) :=
        .bind (.of_eq fun _ => rfl) fun _ => loadFirst_moves tells loads _ _
      refine .bind .get fun t => ?_
      split
      · split
        · next reg hreg => exact loads _ reg hreg
        · exact .bind (tells _) fun _ => first
      · exact first

theorem locate_moves (tells : ∀ e, Moves R (tell e))
    (registers : ∀ n k reg, Moves R (register n k reg)) (l : Locator) :
    Moves R (locate l) := by
  refine .bind .get fun s => .bind (.forM tells _) fun _ => ?_
  cases (l.discover s.world.files).found with
  | none => exact .bind (tells _) fun _ => .pure _
  | some lib =>
    exact .bind (.ofExcept _) fun reg => .bind (registers _ _ reg) fun _ => .pure _

end

/-- **What registering a backend does**: the engine is installed if it agrees with
the tag of its backend. -/
theorem registerBackend_cases (e : Engine) (s : Broker) :
    ((registerBackend e).on s).2.registry = s.registry ∨
      (∀ t, s.registry.tag? e.kind = some t → t.Announces e) ∧
        ((registerBackend e).on s).2.registry = s.registry.install e := by
  show ((registryNow >>= _ : Action Broker Unit).on s).2.registry = _ ∨
    _ ∧ ((registryNow >>= _ : Action Broker Unit).on s).2.registry = _
  rw [on_bind_of_ok (on_registryNow s)]
  cases ht : s.registry.tag? e.kind with
  | none => exact .inr ⟨nofun, rfl⟩
  | some t =>
    cases ha : agree t e with
    | error err =>
      simp only [ha]
      exact .inl rfl
    | ok u =>
      simp only [ha]
      refine .inr ⟨fun t' ht' => ?_, rfl⟩
      cases ht'
      exact agree_eq_ok ha

/-- **What registering a tag does**: it is put down if it agrees with the engine of
its backend. -/
theorem registerTag_cases (t : Tag) (s : Broker) :
    ((registerTag t).on s).2.registry = s.registry ∨
      (∀ i, s.registry.engine? t.kind = some i → t.Announces i.engine) ∧
        ((registerTag t).on s).2.registry = s.registry.putTag t := by
  show ((registryNow >>= _ : Action Broker Unit).on s).2.registry = _ ∨
    _ ∧ ((registryNow >>= _ : Action Broker Unit).on s).2.registry = _
  rw [on_bind_of_ok (on_registryNow s)]
  cases hi : s.registry.engine? t.kind with
  | none => exact .inr ⟨nofun, rfl⟩
  | some i =>
    cases ha : agree t i.engine with
    | error err =>
      simp only [ha]
      exact .inl rfl
    | ok u =>
      simp only [ha]
      refine .inr ⟨fun i' hi' => ?_, rfl⟩
      cases hi'
      exact agree_eq_ok ha

/-- **What registering a language does**: the slot is filled if the registration is
valid and of the category of the backend's tag. -/
theorem register_cases (n : LanguageName) (k : BackendKind) (reg : Registration) (s : Broker) :
    ((register n k reg).on s).2.registry = s.registry ∨
      reg.validate = .ok () ∧
        (∀ t, s.registry.tag? k = some t → t.category = reg.category) ∧
        ((register n k reg).on s).2.registry = s.registry.putSlot ⟨n, k, reg⟩ := by
  show ((Action.ofExcept reg.validate >>= _ : Action Broker Unit).on s).2.registry = _ ∨
    _ ∧ _ ∧ ((Action.ofExcept reg.validate >>= _ : Action Broker Unit).on s).2.registry = _
  cases hv : reg.validate with
  | error e => exact .inl rfl
  | ok u =>
    rw [on_bind_of_ok (on_ofExcept _ s), on_bind_of_ok (on_registryNow s)]
    cases ht : s.registry.tag? k with
    | none => exact .inr ⟨rfl, nofun, rfl⟩
    | some t =>
      by_cases hc : t.category = reg.category
      · simp only [hc, ne_eq, not_true, if_false]
        refine .inr ⟨trivial, fun t' ht' => ?_, rfl⟩
        cases ht'
        exact hc
      · simp only [hc, ne_eq, not_false_eq_true, if_true]
        exact .inl rfl

/-- **What a load leaves**: the registry as it was, or with a language in the cache
that the engine of the backend loaded. -/
theorem load_cases (k : BackendKind) (n : LanguageName) (reg : Registration) (s : Broker) :
    ((load k n reg).on s).2.registry = s.registry ∨
      ∃ i h w w', s.registry.engine? k = some i ∧
        s.registry.cached? (reg.cacheKey k n) = none ∧
        (i.engine.load n reg).on w = (.ok h, w') ∧
        ((load k n reg).on s).2.registry = s.registry.putCached (reg.cacheKey k n) h := by
  rcases hl : (load k n reg).on s with ⟨e | h, s'⟩
  · exact .inl (load_error hl)
  · obtain ⟨i, hi, -, ⟨-, hsame⟩ | ⟨hc, w, hload, rfl⟩⟩ := load_ok hl
    · exact .inl hsame
    · exact .inr ⟨i, h, _, w, hi, hc, hload, rfl⟩

theorem moves_load (k : BackendKind) (n : LanguageName) (reg : Registration) :
    Moves (Broker.Evolves G) (load k n reg) := by
  intro s
  unfold Broker.Evolves
  obtain hsame | ⟨i, h, w, w', hi, hc, hload, hput⟩ := load_cases k n reg s
  · rw [hsame]
    exact .refl
  · rw [hput]
    exact .single (.load n reg h hi hc hload)

theorem moves_loadLibrary (k : BackendKind) (n : LanguageName) (path : FilePath)
    (symbol : String) : Moves (Broker.Evolves G) (loadLibrary k n path symbol) :=
  loadLibrary_moves fun _ => moves_load _ _ _

theorem moves_languageFor (n : LanguageName) (backend : Option BackendKind) :
    Moves (Broker.Evolves G) (languageFor n backend) :=
  fun s => languageFor_moves moves_tell s (fun _ _ _ => moves_load _ _ _) backend

theorem moves_registerBackend {e : Engine} (may : G.engine e) :
    Moves (Broker.Evolves G) (registerBackend e) := by
  intro s
  unfold Broker.Evolves
  obtain hsame | ⟨agrees, hput⟩ := registerBackend_cases e s
  · rw [hsame]
    exact .refl
  · rw [hput]
    exact .single (.install e may agrees)

theorem moves_registerTag (t : Tag) : Moves (Broker.Evolves G) (registerTag t) := by
  intro s
  unfold Broker.Evolves
  obtain hsame | ⟨agrees, hput⟩ := registerTag_cases t s
  · rw [hsame]
    exact .refl
  · rw [hput]
    exact .single (.tag t agrees)

theorem moves_register (n : LanguageName) (k : BackendKind) (reg : Registration) :
    Moves (Broker.Evolves G) (register n k reg) := by
  intro s
  unfold Broker.Evolves
  obtain hsame | ⟨valid, fits, hput⟩ := register_cases n k reg s
  · rw [hsame]
    exact .refl
  · rw [hput]
    exact .single (.slot ⟨n, k, reg⟩ valid fits)

theorem moves_lookUp (key : CacheKey) : Moves (Broker.Evolves G) (lookUp key) := by
  refine .bind moves_registryNow fun r => ?_
  cases r.cached? key with
  | some h => exact .bind (moves_tell _) fun _ => .pure _
  | none => exact .pure _

theorem moves_insertIfAbsent {key : CacheKey} {h : LanguageHandle} (may : G.handle key h) :
    Moves (Broker.Evolves G) (insertIfAbsent key h) := by
  intro s
  cases hc : s.registry.cached? key with
  | some stored =>
    rw [insertIfAbsent_of_some hc]
    exact .refl
  | none =>
    rw [insertIfAbsent_of_none hc]
    exact .single (.insert key h may hc)

theorem moves_locate (l : Locator) : Moves (Broker.Evolves G) (locate l) :=
  locate_moves moves_tell moves_register l

end Registry

/-! ## Runs -/

/-- **An operation on a registry**, or something that happens around it. -/
inductive Operation where
  /-- A backend is registered. -/
  | registerBackend (e : Engine)
  /-- A tag is registered. -/
  | registerTag (t : Tag)
  /-- A language is registered. -/
  | register (n : LanguageName) (k : BackendKind) (reg : Registration)
  /-- A language is loaded. -/
  | languageFor (n : LanguageName) (backend : Option BackendKind)
  /-- A library is loaded. -/
  | loadLibrary (k : BackendKind) (n : LanguageName) (path : FilePath) (symbol : String)
  /-- A caller goes through the first section of a load of its own. -/
  | lookUp (key : CacheKey)
  /-- A caller goes through the second section of a load of its own. -/
  | insert (key : CacheKey) (h : LanguageHandle)
  /-- A library is looked for on disk. -/
  | locate (l : Locator)
  /-- The cache is emptied. -/
  | clearCache
  /-- The cache and the registrations are emptied. -/
  | clearAll
  /-- The predicate behind a tag changes its mind. -/
  | sway (k : BackendKind) (answer : Bool)
  /-- The world becomes another: files, scopes, and what other parsers do. -/
  | elsewhere (w : World)

namespace Operation

/-- What an operation does. Its answer is its caller's business. -/
def perform : Operation → Action Broker Unit
  | registerBackend e => Registry.registerBackend e
  | registerTag t => Registry.registerTag t
  | register n k reg => Registry.register n k reg
  | languageFor n backend => do let _ ← Registry.languageFor n backend
  | loadLibrary k n path symbol => do let _ ← Registry.loadLibrary k n path symbol
  | lookUp key => do let _ ← Registry.lookUp key
  | insert key h => do let _ ← Registry.insertIfAbsent key h
  | locate l => do let _ ← Registry.locate l
  | clearCache => Broker.change (·.clearCache)
  | clearAll => Broker.change (·.clearAll)
  | sway k answer => Broker.change (·.sway k answer)
  | elsewhere w => modify fun s => { s with world := w }

/-- The broker after an operation, successful or not. -/
def after (op : Operation) (s : Broker) : Broker := (op.perform.on s).2

/-- **What an operation brings in** is allowed. -/
def May (G : Regime) : Operation → Prop
  | registerBackend e => G.engine e
  | insert key h => G.handle key h
  | _ => True

theorem may_free (op : Operation) : op.May .free := by
  cases op <;> exact trivial

/-- **What an operation does to the registry** is a number of changes. -/
theorem evolves {G : Regime} {op : Operation} (may : op.May G) (s : Broker) :
    s.registry.Evolves G (op.after s).registry := by
  suffices h : Moves (Broker.Evolves G) op.perform from h s
  cases op with
  | registerBackend e => exact Registry.moves_registerBackend may
  | registerTag t => exact Registry.moves_registerTag t
  | register n k reg => exact Registry.moves_register n k reg
  | languageFor n backend => exact .bind (Registry.moves_languageFor n backend) fun _ => .pure _
  | loadLibrary k n path symbol =>
    exact .bind (Registry.moves_loadLibrary k n path symbol) fun _ => .pure _
  | lookUp key => exact .bind (Registry.moves_lookUp key) fun _ => .pure _
  | insert key h => exact .bind (Registry.moves_insertIfAbsent may) fun _ => .pure _
  | locate l => exact .bind (Registry.moves_locate l) fun _ => .pure _
  | clearCache => exact fun _ => .single .clearCache
  | clearAll => exact fun _ => .single .clearAll
  | sway k answer => exact fun _ => .single (.sway k answer)
  | elsewhere w => exact fun _ => .refl

end Operation

/-- **The brokers that runs lead to**, from an empty registry in any world. -/
inductive Broker.Reachable (G : Regime) : Broker → Prop
  /-- At the beginning nothing is known. -/
  | empty (settings : Settings) (w : World) : Reachable G ⟨Registry.empty settings, w⟩
  /-- Each operation leads on. -/
  | step {s : Broker} (op : Operation) (may : op.May G) (h : Reachable G s) :
      Reachable G (op.after s)

/-- **A registry at the beginning**: empty, or with the two engines of this
library. -/
inductive Registry.IsNew : Registry → Prop
  /-- Nothing is known. -/
  | empty (settings : Settings) : IsNew (Registry.empty settings)
  /-- The two engines are installed. -/
  | withDefaults (settings : Settings) : IsNew (Registry.withDefaults settings)

/-- **The broker after a number of operations.** -/
def Broker.run (s : Broker) (ops : List Operation) : Broker :=
  ops.foldl (fun s op => op.after s) s

@[simp] theorem Broker.run_nil (s : Broker) : s.run [] = s := rfl

@[simp] theorem Broker.run_cons (s : Broker) (op : Operation) (ops : List Operation) :
    s.run (op :: ops) = (op.after s).run ops := rfl

@[simp] theorem Broker.run_append (s : Broker) (ops ops' : List Operation) :
    s.run (ops ++ ops') = (s.run ops).run ops' :=
  List.foldl_append

theorem Broker.evolves_run {G : Regime} {ops : List Operation} (may : ∀ op ∈ ops, op.May G)
    (s : Broker) : s.Evolves G (s.run ops) := by
  induction ops generalizing s with
  | nil => exact .refl
  | cons op ops ih =>
    obtain ⟨hop, hops⟩ := List.forall_mem_cons.mp may
    exact (op.evolves hop s).trans (ih hops (op.after s))

namespace Broker.Reachable

variable {G : Regime}

/-- **Every run leaves the registry sound.** -/
theorem sound {s : Broker} (h : s.Reachable G) : s.registry.Sound G := by
  induction h with
  | empty settings w => exact .empty G settings
  | step op may _ ih => exact (op.evolves may _).sound ih

/-- A registry with the two engines of this library is one that runs lead to. -/
theorem withDefaults (linked : G.engine .standard) (grammar : G.engine (.grammar .grammar))
    (settings : Settings) (w : World) : Reachable G ⟨Registry.withDefaults settings, w⟩ :=
  step (.elsewhere w) trivial (step (.registerBackend (.grammar .grammar)) grammar
    (step (.registerBackend .standard) linked (empty settings w)))

/-- A registry that is new is one that runs lead to. -/
theorem of_isNew (linked : G.engine .standard) (grammar : G.engine (.grammar .grammar))
    {s : Broker} (new : s.registry.IsNew) : s.Reachable G := by
  rcases s with ⟨r, w⟩
  cases new with
  | empty settings => exact .empty settings w
  | withDefaults settings => exact withDefaults linked grammar settings w

theorem run {s : Broker} (h : s.Reachable G) {ops : List Operation}
    (may : ∀ op ∈ ops, op.May G) : (s.run ops).Reachable G := by
  induction ops generalizing s with
  | nil => exact h
  | cons op ops ih =>
    obtain ⟨hop, hops⟩ := List.forall_mem_cons.mp may
    exact ih (h.step op hop) hops

end Broker.Reachable

end TreeBroker
