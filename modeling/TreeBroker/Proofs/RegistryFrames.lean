import TreeBroker.Proofs.RegistryTables

/-!
# What an operation leaves alone

An operation that fails must leave no trace in the registry, and one that succeeds must
write only where it says: a backend in the place of a backend, a tag in the place of a
tag, a language in its slot, and a load at most one new entry of the cache. Nothing of
the kind is built into the actions, which keep what was changed before an error. It
holds because every operation looks before it writes, and writes last.

So both halves are one statement about an action at a registry (`Registry.Touches`): in
whatever world it is run, an error comes with the registry as it was, and an answer with
a registry that the action's effect allows. What comes before the last step of an
operation does not write, and a rule for each way of building an action carries the
statement along. Only the search for a backend that can load a language makes several
attempts, and it goes on only after an attempt that failed – which leaves the registry
as it was, so that the attempt that succeeds is the only one that shows.

That a table is changed *in one place* needs the table to have one entry a key. A
registry that a run led to has such tables (`Registry.Tabular`).
-/

namespace TreeBroker

open TreeBroker.Action

/-! ## Tables -/

/-- **An entry is put into a table**: in the place of the one with its key, or behind all
others if there is none. -/
inductive Put {α κ : Type} (key : α → κ) (x : α) : List α → List α → Prop
  /-- One entry makes place. -/
  | replaced (before after : List α) {old : α} (same : key old = key x) :
      Put key x (before ++ old :: after) (before ++ x :: after)
  /-- The table grows at its end. -/
  | appended {xs : List α} (new : ∀ y ∈ xs, key y ≠ key x) : Put key x xs (xs ++ [x])

theorem put_upsert {α κ : Type} [DecidableEq κ] (key : α → κ) {xs : List α}
    (h : (xs.map key).Nodup) (x : α) :
    Put key x xs
      (if (xs.find? fun y => key y == key x).isSome then
        xs.map fun y => if key y = key x then x else y
      else xs ++ [x]) := by
  split
  · next hfound =>
    obtain ⟨old, hfind⟩ := Option.isSome_iff_exists.mp hfound
    obtain ⟨hmem, hkey⟩ := (find?_eq_some_iff key h).mp hfind
    obtain ⟨before, after, rfl⟩ := List.append_of_mem hmem
    -- the key of the old entry is nobody else's, so that nobody else makes place
    rw [List.map_append, List.map_cons, List.nodup_append, List.nodup_cons] at h
    obtain ⟨-, ⟨hafter, -⟩, hbefore⟩ := h
    have hothers : ∀ ys : List α, (∀ y ∈ ys, key y ≠ key x) →
        (ys.map fun y => if key y = key x then x else y) = ys := by
      intro ys hys
      conv_rhs => rw [← List.map_id ys]
      exact List.map_congr_left fun y hy => if_neg (hys y hy)
    rw [List.map_append, List.map_cons, if_pos hkey, hothers before, hothers after]
    · exact .replaced before after hkey
    · intro y hy hsame
      exact hafter (List.mem_map.mpr ⟨y, hy, hsame.trans hkey.symm⟩)
    · intro y hy hsame
      exact hbefore _ (List.mem_map_of_mem hy) _ List.mem_cons_self (hsame.trans hkey.symm)
  · next hnone =>
    refine .appended fun y hy hsame => hnone ?_
    exact List.find?_isSome.mpr ⟨y, hy, by simpa using hsame⟩

namespace Registry

open Broker

variable {r : Registry}

/-- **A registration is put into a slot map**, and that into the table of slot maps. -/
theorem Tabular.put_putSlot (hr : r.Tabular) (s : Slot) :
    Put Prod.fst (s.backend, s.registration) ((r.slotMap? s.name).getD []) (r.slotMapWith s) ∧
      Put Prod.fst (s.name, r.slotMapWith s) r.registrations (r.putSlot s).registrations := by
  have hold : (((r.slotMap? s.name).getD []).map Prod.fst).Nodup := by
    cases hm : r.slotMap? s.name with
    | none => exact .nil
    | some m => exact (hr.slotMaps _ (mem_of_slotMap? hm)).slots
  constructor
  · rw [Registry.slotMapWith, SlotMap.insert_eq]
    exact put_upsert Prod.fst hold (s.backend, s.registration)
  · rw [registrations_putSlot]
    exact put_upsert Prod.fst hr.languages (s.name, r.slotMapWith s)

theorem put_putTag (h : (r.tags.map Tag.kind).Nodup) (t : Tag) :
    Put Tag.kind t r.tags (r.putTag t).tags := by
  rw [tags_putTag]
  exact put_upsert Tag.kind h t

theorem put_putEngine (h : (r.engines.map Installed.kind).Nodup) (i : Installed) :
    Put Installed.kind i r.engines (r.putEngine i).engines := by
  rw [engines_putEngine]
  exact put_upsert Installed.kind h i

/-! ## Touching a registry -/

/-- **What an action touches** at a registry, in whatever world: an error comes with the
registry as it was, and an answer with a registry that its effect allows. -/
def Touches {α : Type} (r : Registry) (act : Action Broker α)
    (effect : α → Registry → Prop) : Prop :=
  ∀ s : Broker, s.registry = r →
    match act.on s with
    | (.error _, s') => s'.registry = r
    | (.ok a, s') => effect a s'.registry

/-- An action that only looks. -/
abbrev Looks {α : Type} (r : Registry) (act : Action Broker α) : Prop :=
  r.Touches act fun _ r' => r' = r

namespace Touches

variable {α β : Type} {act : Action Broker α} {f : α → Action Broker β}
  {effect effect' : α → Registry → Prop} {Q : β → Registry → Prop}

theorem pure {a : α} (h : effect a r) : r.Touches (Pure.pure a) effect := by
  rintro s rfl
  exact h

theorem throw (e : Error) : r.Touches (MonadExcept.throw e) effect := fun _ hs => hs

/-- What follows an error is not run. -/
theorem throw_bind (e : Error) (f : α → Action Broker β) :
    r.Touches (MonadExcept.throw e >>= f) Q := fun _ hs => hs

theorem get : r.Looks (MonadState.get : Action Broker Broker) := fun _ hs => hs

theorem tell (e : Event) : r.Looks (Broker.tell e) := fun _ hs => hs

theorem change (g : Registry → Registry) : r.Touches (Broker.change g) fun _ r' => r' = g r := by
  rintro s rfl
  rfl

theorem mono (h : r.Touches act effect) (weaker : ∀ a r', effect a r' → effect' a r') :
    r.Touches act effect' := by
  intro s hs
  have hact := h s hs
  rcases hon : act.on s with ⟨e | a, s'⟩
  · rw [hon] at hact
    exact hact
  · rw [hon] at hact
    exact weaker a s'.registry hact

/-- **Looking before writing**: what follows an action that only looks touches what it
would touch on its own. -/
theorem bind (looks : r.Looks act) (h : ∀ a, r.Touches (f a) Q) : r.Touches (act >>= f) Q := by
  intro s hs
  have hact := looks s hs
  rcases hon : act.on s with ⟨e | a, s'⟩
  · rw [on_bind_of_error hon f]
    rw [hon] at hact
    exact hact
  · rw [on_bind_of_ok hon f]
    rw [hon] at hact
    exact h a s' hact

theorem registryNow {f : Registry → Action Broker β} (h : r.Touches (f r) Q) :
    r.Touches (Broker.registryNow >>= f) Q := by
  rintro s rfl
  rw [on_bind_of_ok (on_registryNow s)]
  exact h s rfl

/-- A check that is passed says so to what follows. -/
theorem ofExcept {x : Except Error α} (h : ∀ a, x = .ok a → r.Touches (f a) Q) :
    r.Touches (Action.ofExcept x >>= f) Q := by
  intro s hs
  cases x with
  | error e => exact hs
  | ok a => exact h a rfl s hs

end Touches

/-! ## Registering -/

theorem touches_registerBackend (r : Registry) (e : Engine) :
    r.Touches (registerBackend e) fun _ r' => r' = r.install e := by
  refine .registryNow ?_
  cases r.tag? e.kind with
  | none => exact .bind (.tell _) fun _ => .change _
  | some t => exact .ofExcept fun _ _ => .bind (.tell _) fun _ => .change _

theorem touches_registerTag (r : Registry) (t : Tag) :
    r.Touches (registerTag t) fun _ r' => r' = r.putTag t := by
  refine .registryNow ?_
  cases r.engine? t.kind with
  | none => exact .bind (.tell _) fun _ => .change _
  | some i => exact .ofExcept fun _ _ => .bind (.tell _) fun _ => .change _

theorem touches_register (r : Registry) (n : LanguageName) (k : BackendKind)
    (reg : Registration) :
    r.Touches (register n k reg) fun _ r' => r' = r.putSlot ⟨n, k, reg⟩ := by
  refine .ofExcept fun _ _ => .registryNow ?_
  cases r.tag? k with
  | none => exact .bind (.tell _) fun _ => .change _
  | some t =>
    dsimp only
    split
    · exact .throw_bind _ _
    · exact .bind (.tell _) fun _ => .change _

/-! ## Loading -/

/-- **What a load leaves** besides its answer: the registry as it was, or with the answer
in the cache under one key that had no entry. -/
def Keeps (r : Registry) (h : LanguageHandle) (r' : Registry) : Prop :=
  r' = r ∨ ∃ key, key ∉ r.cache.map Prod.fst ∧ r' = { r with cache := r.cache ++ [(key, h)] }

/-- A load whose computation does not use the registry keeps at most its answer. -/
theorem touches_fetch (r : Registry) (key : CacheKey) {compute : Action Broker LanguageHandle}
    (apart : ∀ s, (compute.on s).2.registry = s.registry) :
    r.Touches (fetch key compute) r.Keeps := by
  rintro s rfl
  cases hc : s.registry.cached? key with
  | some h =>
    obtain ⟨w, hfound⟩ := fetch_of_some hc
    rw [hfound]
    exact .inl rfl
  | none =>
    rw [fetch_of_none hc]
    have hsame := apart s
    rcases hon : compute.on s with ⟨e | h, s'⟩
    · rw [on_bind_of_error hon]
      rw [hon] at hsame
      exact hsame
    · rw [hon] at hsame
      have hc' : s'.registry.cached? key = none := by rw [hsame, hc]
      rw [on_bind_of_ok hon, insertIfAbsent_of_none hc']
      refine .inr ⟨key, notMem_cache_of_cached?_eq_none hc, ?_⟩
      rw [← hsame]
      rfl

theorem touches_load (r : Registry) (k : BackendKind) (n : LanguageName) (reg : Registration) :
    r.Touches (load k n reg) r.Keeps := by
  have ready : r.Looks (ready k) := by
    refine .registryNow ?_
    cases r.engine? k with
    | none => exact .throw _
    | some i =>
      dsimp only
      split
      · exact .pure rfl
      · exact .throw _
  exact .bind ready fun i => touches_fetch r _ fun s => rfl

theorem touches_loadLibrary (r : Registry) (k : BackendKind) (n : LanguageName)
    (path : FilePath) (symbol : String) :
    r.Touches (loadLibrary k n path symbol) r.Keeps :=
  .ofExcept fun reg _ => touches_load r k n reg

/-- **The search for a backend** keeps at most what the last attempt loaded. -/
theorem touches_loadFirst (r : Registry) (n : LanguageName) (slots : List Slot)
    (ks : List BackendKind) (failures : List (BackendKind × String)) :
    r.Touches (loadFirst n slots ks failures) r.Keeps := by
  induction ks generalizing failures with
  | nil =>
    cases failures with
    | nil => exact .throw _
    | cons f fs => exact .bind (.tell _) fun _ => .throw _
  | cons k ks ih =>
    unfold loadFirst
    split
    · exact ih failures
    · next reg _ =>
      intro s hs
      have hload := touches_load r k n reg s hs
      rw [on_bind_of_ok (on_attempt _ s)]
      rcases hon : (load k n reg).on s with ⟨e | h, s'⟩
      · -- the attempt failed, so that the search goes on from the same registry
        rw [hon] at hload
        have next := Touches.bind (.tell (.ofTexts .debug "Load failed, trying next backend"
          [("language", n.text), ("backend", k.text), ("error", e.message)]))
          fun _ => ih (failures ++ [(k, e.message)])
        exact next s' hload
      · rw [hon] at hload
        exact hload

theorem touches_languageFor (r : Registry) (n : LanguageName) (backend : Option BackendKind) :
    r.Touches (languageFor n backend) r.Keeps := by
  have first (slots : List Slot) : r.Touches
      (registryNow >>= fun now => loadFirst n slots now.available []) r.Keeps :=
    .registryNow (touches_loadFirst r n slots _ _)
  refine .registryNow ?_
  dsimp only
  split
  · exact .throw_bind _ _
  · cases backend with
    | some k =>
      dsimp only
      split
      · exact touches_load r _ n _
      · exact .throw _
    | none =>
      refine .bind .get fun s => ?_
      split
      · split
        · exact touches_load r _ n _
        · exact .bind (.tell _) fun _ => first _
      · exact first _

/-! ## The frame of each operation -/

/-- **What the operations on a registry leave alone.** Every operation that fails leaves
the whole registry as it was, and one that succeeds changes this much of it. -/
structure Framed (r : Registry) : Prop where
  /-- Registering a language: its slot, in the slot map of the language. -/
  register : ∀ n k reg, r.Touches (register n k reg) fun _ r' =>
    ∃ m registrations, Put Prod.fst (k, reg) ((r.slotMap? n).getD []) m ∧
      Put Prod.fst (n, m) r.registrations registrations ∧ r' = { r with registrations }
  /-- Registering a backend: its engine, and a tag behind the others if it has none. -/
  registerBackend : ∀ e, r.Touches (registerBackend e) fun _ r' =>
    ∃ tags engines, Put Installed.kind (.ofEngine e) r.engines engines ∧
      ((∃ t ∈ r.tags, t.kind = e.kind) ∧ tags = r.tags ∨
        (∀ t ∈ r.tags, t.kind ≠ e.kind) ∧ tags = r.tags ++ [.ofEngine e]) ∧
      r' = { r with tags, engines }
  /-- Registering a tag: the tag of its backend. -/
  registerTag : ∀ t, r.Touches (registerTag t) fun _ r' =>
    ∃ tags, Put Tag.kind t r.tags tags ∧ r' = { r with tags }
  /-- A load through the cache whose computation does not use the registry: one new entry
  of the cache at most. -/
  fetch : ∀ key compute, (∀ s, (compute.on s).2.registry = s.registry) →
    r.Touches (fetch key compute) r.Keeps
  /-- Loading a language, for a backend or the best one: one new entry at most. -/
  languageFor : ∀ n backend, r.Touches (languageFor n backend) r.Keeps
  /-- Loading a library: one new entry at most. -/
  loadLibrary : ∀ k n path symbol, r.Touches (loadLibrary k n path symbol) r.Keeps
  /-- Emptying the cache: the cache. -/
  clearCache : r.Touches Operation.clearCache.perform fun _ r' => r' = { r with cache := [] }
  /-- Emptying everything: the cache and the slot maps. -/
  clearAll : r.Touches Operation.clearAll.perform fun _ r' =>
    r' = { r with cache := [], registrations := [] }

/-- An engine is put in the place of the engine of its backend, and brings a tag where
there is none. -/
theorem Tabular.install_eq (hr : r.Tabular) (e : Engine) :
    ∃ tags engines, Put Installed.kind (.ofEngine e) r.engines engines ∧
      ((∃ t ∈ r.tags, t.kind = e.kind) ∧ tags = r.tags ∨
        (∀ t ∈ r.tags, t.kind ≠ e.kind) ∧ tags = r.tags ++ [.ofEngine e]) ∧
      r.install e = { r with tags, engines } := by
  unfold Registry.install
  split
  · next htag =>
    refine ⟨r.tags, _, put_putEngine hr.engines _, .inl ⟨?_, rfl⟩, putEngine_eq _ _⟩
    simpa [tag?] using htag
  · next htag =>
    refine ⟨r.tags ++ [.ofEngine e], _,
      put_putEngine (r := { r with tags := r.tags ++ [.ofEngine e] }) hr.engines _,
      .inr ⟨?_, rfl⟩, putEngine_eq _ _⟩
    simpa [tag?] using htag

end Registry

/-- **Operations are atomic, and each keeps to its place**, at every registry that a run
led to. -/
theorem Broker.Reachable.framed {G : Regime} {s : Broker} (hs : s.Reachable G) :
    s.registry.Framed where
  register n k reg := by
    refine (Registry.touches_register _ n k reg).mono fun _ r' hr' => ?_
    obtain ⟨hslot, hmap⟩ := hs.tabular.put_putSlot ⟨n, k, reg⟩
    exact ⟨_, _, hslot, hmap, hr'.trans (Registry.putSlot_eq _ _)⟩
  registerBackend e := by
    refine (Registry.touches_registerBackend _ e).mono fun _ r' hr' => ?_
    rw [hr']
    exact hs.tabular.install_eq e
  registerTag t := by
    refine (Registry.touches_registerTag _ t).mono fun _ r' hr' => ?_
    exact ⟨_, Registry.put_putTag hs.tabular.tags t, hr'.trans (Registry.putTag_eq _ _)⟩
  fetch key compute apart := Registry.touches_fetch _ key apart
  languageFor n backend := Registry.touches_languageFor _ n backend
  loadLibrary k n path symbol := Registry.touches_loadLibrary _ k n path symbol
  clearCache := .change _
  clearAll := .change _

/-- At a new registry, the contrary tag is refused and leaves no trace, and a grammar goes
into its slot and nowhere else. -/
theorem Broker.Reachable.framed_withDefaults :
    Reachable .free ⟨.withDefaults default, default⟩ ∧
      (∃ e s', (Registry.registerTag .contrary).on ⟨.withDefaults default, default⟩
          = (.error e, s') ∧ s'.registry = .withDefaults default) ∧
      ∃ s' m registrations, (Registry.register ⟨"assign", by decide⟩ .grammar
            (.grammar (Assignment.grammar 0) "assign")).on ⟨.withDefaults default, default⟩
          = (.ok (), s') ∧
        Put Prod.fst (.grammar, .grammar (Assignment.grammar 0) "assign") [] m ∧
        Put Prod.fst (⟨"assign", by decide⟩, m) (Registry.withDefaults default).registrations
          registrations ∧
        s'.registry = { Registry.withDefaults default with registrations } := by
  have reached : Reachable .free ⟨.withDefaults default, default⟩ :=
    withDefaults trivial trivial default default
  have refused := (framed reached).registerTag .contrary _ rfl
  obtain ⟨m, registrations, hslot, hmap, hframe⟩ := (framed reached).register
    ⟨"assign", by decide⟩ .grammar (.grammar (Assignment.grammar 0) "assign") _ rfl
  exact ⟨reached, ⟨_, _, rfl, refused⟩, _, m, registrations, rfl, hslot, hmap, hframe⟩

end TreeBroker
