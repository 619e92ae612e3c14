import TreeBroker.Proofs.Fallback

/-!
# Operations side by side

The same operation is performed at two brokers. Can what happens tell them apart?

If the registries are the same, and so are the files, the scopes and the number of the next
object (`Broker.Alike`), then it cannot: what was told and recorded before is not looked at. If
the registries differ in the cache (`Broker.SameTables`), a load may give another language.
But then the brokers still have the same tables afterwards, whatever was loaded, since nothing
but the cache is filled by a load and nothing but a load looks at the cache.

Both are one statement about a relation with a parameter, which says whether the cache and
the number of the next object are the same (`Broker.Like`). What an operation does to the
tables is proved once for both. Of a load it is only used that it respects the closer of the
two relations and does not touch what the other one is about (`Action.Tame`).
-/

namespace TreeBroker

namespace Action

variable {σ α β : Type} {R S : σ → σ → Prop} {act : Action σ α} {f : α → Action σ β}

/-- **An action that is tame**: it cannot tell states apart that are related in one way, and
leaves a state that is related to the one before in the other. -/
structure Tame (R S : σ → σ → Prop) (act : Action σ α) : Prop where
  /-- It cannot tell related states apart. -/
  respects : Respects R act
  /-- It leaves a related state. -/
  moves : Moves S act

namespace Tame

variable [IsPreorder σ S]

theorem pure (a : α) : Tame R S (Pure.pure a : Action σ α) := ⟨.pure a, .pure a⟩

theorem throw (e : Error) : Tame R S (MonadExcept.throw e : Action σ α) := ⟨.throw e, .throw e⟩

theorem bind (h : Tame R S act) (hf : ∀ a, Tame R S (f a)) : Tame R S (act >>= f) :=
  ⟨.bind h.respects fun a => (hf a).respects, .bind h.moves fun a => (hf a).moves⟩

end Tame

end Action

open TreeBroker.Action

/-! ## What engines do to the world -/

namespace World

/-- Worlds with the same files. -/
def SameFiles (w w' : World) : Prop := w'.files = w.files

instance : IsPreorder World SameFiles where
  refl _ := rfl
  trans _ _ _ h h' := h'.trans h

theorem tame_recordCall (call : String) : Tame Alike SameFiles (recordCall call) :=
  ⟨respects_recordCall call, fun _ => rfl⟩

theorem tame_fresh : Tame Alike SameFiles fresh := ⟨respects_fresh, fun _ => rfl⟩

/-- **An action that is quiet**: it gives the same answer in every world, and does nothing to
it but that it may tell and record something. -/
def Quiet {α : Type} (act : Action World α) : Prop :=
  ∃ x, ∀ w, ∃ w', act.on w = (x, w') ∧ w.Alike w'

end World

namespace Engine

theorem moves_make_files (n : LanguageName) (k : BackendKind) (v : Provenance) (c : Payload) :
    Moves World.SameFiles (LanguageHandle.make n k v c) := fun _ => rfl

/-- A load does not touch the files. -/
theorem moves_load (e : Engine) (n : LanguageName) (reg : Registration) :
    Moves World.SameFiles (e.load n reg) := by
  induction e with
  | linked ss =>
    cases reg with
    | grammar g i => exact .throw _
    | library path symbol =>
      rw [load_library_eq]
      refine .bind .get fun w => .bind (.ofExcept _) fun language => ?_
      exact .bind (fun _ => rfl) fun _ => moves_make_files _ _ _ _
  | grammar k =>
    cases reg with
    | library path symbol => exact .throw _
    | grammar g i => exact moves_make_files _ _ _ _
  | stub k inner c m a f ih => exact .bind ih fun h => moves_make_files _ _ _ _
  | foreign f =>
    refine .bind (fun _ => rfl) fun _ => .bind .get fun w => ?_
    split
    · exact .throw _
    · exact moves_make_files _ _ _ _

/-- A constructor makes no object that is counted. -/
theorem newParser_quiet (e : Engine) : World.Quiet e.newParser := by
  have fails (failure : Option EngineFailure) : Moves World.Alike (failIf failure) := by
    cases failure with
    | none => exact .pure _
    | some f => exact .throw _
  have moves : Moves World.Alike e.newParser := by
    induction e with
    | linked ss => exact .pure _
    | grammar k => exact .pure _
    | stub k inner c m a failure ih => exact .bind (fails _) fun _ => ih
    | foreign f =>
      exact .bind (World.moves_recordCall _) fun _ => .bind (fails _) fun _ => .pure _
  exact ⟨e.makes, fun w =>
    ⟨(e.newParser.on w).2, Prod.ext (e.answer_newParser w) rfl, moves w⟩⟩

end Engine

namespace NativeParser

/-- **Being given a language** does not depend on the world, and does nothing to it but that
a call may be recorded. -/
theorem setLanguage_quiet (p : NativeParser) (raw : RawLanguage) :
    ∃ x p', ∀ w, ∃ w', (setLanguage raw).on (p, w) = (x, p', w') ∧ w.Alike w' := by
  cases p with
  | linked l? =>
    cases raw with
    | native language =>
      by_cases compatible : language.isCompatible = true
      · refine ⟨.ok (), .linked (some language), fun w => ⟨w, ?_, refl_of World.Alike w⟩⟩
        rw [on_setLanguage_linked, if_pos compatible]
      · refine ⟨.error (.notAvailable (.refusedLanguage language.version)), .linked l?,
          fun w => ⟨w, ?_, refl_of World.Alike w⟩⟩
        rw [on_setLanguage_linked, if_neg compatible]
    | _ => exact ⟨_, _, fun w => ⟨w, rfl, refl_of World.Alike w⟩⟩
  | grammar g? => cases raw <;> exact ⟨_, _, fun w => ⟨w, rfl, refl_of World.Alike w⟩⟩
  | foreign e memory => exact ⟨_, _, fun w => ⟨_, rfl, World.moves_recordCall _ w⟩⟩

theorem given_quiet (p : NativeParser) (raw : RawLanguage) : World.Quiet (p.given raw) := by
  obtain ⟨x, p', quiet⟩ := p.setLanguage_quiet raw
  refine ⟨x.map fun _ => p', fun w => ?_⟩
  obtain ⟨w', hw, alike⟩ := quiet w
  refine ⟨w', ?_, alike⟩
  show (((setLanguage raw).on (p, w)).1.map fun _ => ((setLanguage raw).on (p, w)).2.1,
    ((setLanguage raw).on (p, w)).2.2) = _
  rw [hw]

theorem tame_answered (outcome : Except String ForeignTree) :
    Tame World.Alike World.SameFiles (answered outcome) := by
  cases outcome with
  | ok tree => exact .bind World.tame_fresh fun _ => .pure _
  | error text => exact .throw _

theorem tame_parsed (outcome : Except GrammarError Arena) :
    Tame World.Alike World.SameFiles (parsed outcome) := by
  cases outcome with
  | ok arena => exact .pure _
  | error e => exact .throw _

theorem tame_run (l? : Option NativeLanguage) (old : Option LinkedTree) (source : String) :
    Tame World.Alike World.SameFiles (run l? old source) := by
  cases l? with
  | none => exact .throw _
  | some l =>
    rw [run]
    cases l.parse old source with
    | none => exact .throw _
    | some arena => exact .bind World.tame_fresh fun _ => .pure _

/-- **A parse** counts the tree that it makes, and records what is asked of a foreign engine. -/
theorem tame_parse (p : NativeParser) (source : String) :
    Tame World.Alike World.SameFiles (p.parse source) := by
  cases p with
  | linked l? => exact tame_run l? none source
  | grammar g? =>
    cases g? with
    | none => exact .throw _
    | some g => exact .bind (tame_parsed _) fun _ => .bind World.tame_fresh fun _ => .pure _
  | foreign e memory => exact .bind (World.tame_recordCall _) fun _ => tame_answered _

theorem tame_reparse (p : NativeParser) (old : NativeTree) (source : String) :
    Tame World.Alike World.SameFiles (p.reparse old source) := by
  cases p with
  | linked l? => exact tame_run l? old.linked? source
  | grammar g? => exact tame_parse (.grammar g?) source
  | foreign e memory => exact .bind (World.tame_recordCall _) fun _ => tame_answered _

end NativeParser

/-! ## Brokers that are alike -/

namespace Broker

/-- **The same tables**: registries that differ in the cache only, in worlds with the same
files. -/
structure SameTables (s t : Broker) : Prop where
  /-- The registries, but for their caches. -/
  registry : t.registry.clearCache = s.registry.clearCache
  /-- The files. -/
  files : t.world.files = s.world.files

instance : IsPreorder Broker SameTables where
  refl _ := ⟨rfl, rfl⟩
  trans _ _ _ h h' := ⟨h'.registry.trans h.registry, h'.files.trans h.files⟩

theorem Alike.sameTables {s t : Broker} (h : s.Alike t) : s.SameTables t :=
  ⟨congrArg Registry.clearCache h.1, h.2.files⟩

/-- **Brokers that are alike**, or that have the same tables at least. -/
structure Like (exact : Prop) (s t : Broker) : Prop where
  /-- They have the same tables. -/
  tables : s.SameTables t
  /-- They are alike, if that is asked for. -/
  alike : exact → s.Alike t

namespace Like

variable {exact : Prop} {s t : Broker}

theorem engine? (h : s.Like exact t) (k : BackendKind) :
    t.registry.engine? k = s.registry.engine? k := by
  show t.registry.clearCache.engine? k = _
  rw [h.tables.registry]
  rfl

theorem isAvailable (h : s.Like exact t) (k : BackendKind) :
    t.registry.isAvailable k = s.registry.isAvailable k := by
  show t.registry.clearCache.isAvailable k = _
  rw [h.tables.registry]
  rfl

/-- What is told and recorded on either side makes no difference. -/
theorem worlds (h : s.Like exact t) {w w' : World} (hw : s.world.Alike w)
    (hw' : t.world.Alike w') : Like exact { s with world := w } { t with world := w' } where
  tables := ⟨h.tables.registry, hw'.files.trans (h.tables.files.trans hw.files.symm)⟩
  alike close := by
    obtain ⟨hr, alike⟩ := h.alike close
    refine ⟨hr, hw'.files.trans (alike.files.trans hw.files.symm), ?_, ?_⟩
    · exact hw'.scopes.trans (alike.scopes.trans hw.scopes.symm)
    · exact hw'.made.trans (alike.made.trans hw.made.symm)

theorem told (h : s.Like exact t) (events events' : List Event) :
    Like exact (s.told events) (t.told events') := h.worlds ⟨rfl, rfl, rfl⟩ ⟨rfl, rfl, rfl⟩

/-- **Where an action ends** that cannot tell brokers apart that are alike, and does not touch
the tables. -/
theorem of_tame {α : Type} {act : Action Broker α} (h : s.Like exact t)
    (tame : Tame Alike SameTables act) : Like exact (act.on s).2 (act.on t).2 where
  tables := by
    have hs := tame.moves s
    have ht := tame.moves t
    exact ⟨ht.registry.trans (h.tables.registry.trans hs.registry.symm),
      ht.files.trans (h.tables.files.trans hs.files.symm)⟩
  alike close := (tame.respects s t (h.alike close)).2

end Like

variable {exact : Prop} {α : Type}

theorem respects_inWorld_of_quiet {act : Action World α} (h : World.Quiet act) :
    Respects (Like exact) (inWorld act) := by
  obtain ⟨x, quiet⟩ := h
  intro s t like
  obtain ⟨w, hw, alike⟩ := quiet s.world
  obtain ⟨w', hw', alike'⟩ := quiet t.world
  rw [on_inWorld, on_inWorld, hw, hw']
  exact ⟨rfl, like.worlds alike alike'⟩

theorem respects_tell_like (e : Event) : Respects (Like exact) (tell e) :=
  respects_inWorld_of_quiet ⟨_, fun w => ⟨_, rfl, World.moves_tell e w⟩⟩

/-- The registry may be looked at where the cache is not. -/
theorem respects_registryNow_bind {f : Registry → Action Broker α}
    (h : ∀ r, Respects (Like exact) (f r)) (blind : ∀ r, f r.clearCache = f r) :
    Respects (Like exact) (registryNow >>= f) := by
  intro s t like
  rw [on_bind_of_ok (on_registryNow s), on_bind_of_ok (on_registryNow t), ← blind s.registry,
    ← blind t.registry, like.tables.registry]
  exact h _ s t like

/-- The tables may be changed. -/
theorem respects_change_like {f : Registry → Registry}
    (blind : ∀ r, (f r.clearCache).clearCache = (f r).clearCache) :
    Respects (Like exact) (change f) := by
  intro s t like
  refine ⟨rfl, ⟨?_, like.tables.files⟩, fun close => ?_⟩
  · show (f t.registry).clearCache = (f s.registry).clearCache
    rw [← blind, like.tables.registry, blind]
  · exact ⟨congrArg f (like.alike close).1, (like.alike close).2⟩

end Broker

/-! ## Operations -/

namespace Registry

open Broker

variable {exact : Prop}

theorem clearCache_putEngine (i : Installed) (r : Registry) :
    (r.putEngine i).clearCache = r.clearCache.putEngine i := by
  show (if (r.engine? i.kind).isSome then _ else _ : Registry).clearCache =
    if (r.engine? i.kind).isSome then _ else _
  split <;> rfl

/-- Installing an engine does not look at the cache. -/
theorem clearCache_install (e : Engine) (r : Registry) :
    (r.clearCache.install e).clearCache = (r.install e).clearCache := by
  unfold install
  rw [clearCache_putEngine, clearCache_putEngine]
  refine congrArg (putEngine · _) ?_
  show (if (r.tag? e.kind).isSome then _ else _ : Registry).clearCache =
    (if (r.tag? e.kind).isSome then _ else _ : Registry).clearCache
  split <;> rfl

theorem clearCache_putTag (t : Tag) (r : Registry) :
    (r.clearCache.putTag t).clearCache = (r.putTag t).clearCache := by
  show (if (r.tag? t.kind).isSome then _ else _ : Registry).clearCache =
    (if (r.tag? t.kind).isSome then _ else _ : Registry).clearCache
  split <;> rfl

theorem clearCache_putSlot (slot : Slot) (r : Registry) :
    (r.clearCache.putSlot slot).clearCache = (r.putSlot slot).clearCache := by
  have same : (r.clearCache.putSlot slot).registrations = (r.putSlot slot).registrations := by
    rw [registrations_putSlot, registrations_putSlot]
    rfl
  rw [putSlot_eq r.clearCache, same, putSlot_eq r]
  rfl

theorem respects_registerBackend (e : Engine) : Respects (Like exact) (registerBackend e) := by
  refine respects_registryNow_bind (fun r => ?_) fun r => rfl
  have write : Respects (Like exact) (do tell (installEvent e); change (·.install e)) :=
    .bind (respects_tell_like _) fun _ => respects_change_like (clearCache_install e)
  cases r.tag? e.kind with
  | none => exact write
  | some t => exact .bind (.ofExcept _) fun _ => write

theorem respects_registerTag (t : Tag) : Respects (Like exact) (registerTag t) := by
  refine respects_registryNow_bind (fun r => ?_) fun r => rfl
  have write (e : Event) : Respects (Like exact) (do tell e; change (·.putTag t)) :=
    .bind (respects_tell_like e) fun _ => respects_change_like (clearCache_putTag t)
  cases r.engine? t.kind with
  | none => exact write _
  | some i => exact .bind (.ofExcept _) fun _ => write _

theorem respects_register (n : LanguageName) (k : BackendKind) (reg : Registration) :
    Respects (Like exact) (register n k reg) := by
  refine .bind (.ofExcept _) fun _ => respects_registryNow_bind (fun r => ?_) fun r => rfl
  have write (e : Event) : Respects (Like exact) (do tell e; change (·.putSlot ⟨n, k, reg⟩)) :=
    .bind (respects_tell_like e) fun _ => respects_change_like (clearCache_putSlot _)
  cases r.tag? k with
  | none => exact write _
  | some t =>
    dsimp only
    split
    · exact .bind (.throw _) fun _ => write _
    · exact write _

theorem respects_forM_tell (events : List Event) :
    Respects (Like exact) (events.forM tell) := by
  intro s t like
  rw [on_forM_tell, on_forM_tell]
  exact ⟨rfl, like.told events events⟩

theorem respects_locate (l : Locator) : Respects (Like exact) (locate l) := by
  refine .get (fun s => ?_) fun s t like => by rw [like.tables.files]
  refine .bind (respects_forM_tell _) fun _ => ?_
  cases (l.discover s.world.files).found with
  | none => exact .bind (respects_tell_like _) fun _ => .pure _
  | some lib =>
    exact .bind (.ofExcept _) fun reg => .bind (respects_register _ _ reg) fun _ => .pure _

/-! Loads respect the closer relation, and do not touch the tables. -/

theorem failsWithin_loadLibrary (k : BackendKind) (n : LanguageName) (path : FilePath)
    (symbol : String) : FailsWithin Broker.Alike (loadLibrary k n path symbol) :=
  .after (.ofExcept _) fun reg => failsWithin_load k n reg

theorem respects_loadFirst (n : LanguageName) (slots : List Slot) (ks : List BackendKind)
    (failures : List (BackendKind × String)) :
    Respects Broker.Alike (loadFirst n slots ks failures) := by
  induction ks generalizing failures with
  | nil =>
    cases failures with
    | nil => exact .throw _
    | cons f fs => exact .bind (respects_inWorld (World.respects_tell _)) fun _ => .throw _
  | cons k ks ih =>
    rw [loadFirst]
    split
    · exact ih failures
    · next reg _ =>
      refine .bind ?_ fun outcome => ?_
      · intro s t alike
        obtain ⟨answer, left⟩ := respects_load k n reg s t alike
        exact ⟨congrArg Except.ok answer, left⟩
      · cases outcome with
        | ok h => exact .pure h
        | error e => exact .bind (respects_inWorld (World.respects_tell _)) fun _ => ih _

theorem preferred?_of_alike {s t : Broker} (alike : s.Alike t) :
    preferred? t = preferred? s := by
  rw [preferred?, preferred?, alike.1, alike.2.scopes]

theorem respects_languageFor (n : LanguageName) (backend : Option BackendKind) :
    Respects Broker.Alike (languageFor n backend) := by
  refine .bind (respects_registryNow Alike.same) fun r => ?_
  have first (slots : List Slot) : Respects Broker.Alike
      (registryNow >>= fun now => loadFirst n slots now.available []) :=
    .bind (respects_registryNow Alike.same) fun now => respects_loadFirst n slots _ _
  dsimp only
  split
  · exact .throw _
  · cases backend with
    | some k =>
      dsimp only
      split
      · exact respects_load _ _ _
      · exact .throw _
    | none =>
      refine .get (fun s => ?_) fun s t alike => by rw [preferred?_of_alike alike]
      split
      · split
        · exact respects_load _ _ _
        · exact .bind (respects_inWorld (World.respects_tell _)) fun _ => first _
      · exact first _

theorem moves_tell_tables (e : Event) : Moves SameTables (tell e) := fun _ => ⟨rfl, rfl⟩

theorem tame_lookUp (key : CacheKey) : Tame Broker.Alike SameTables (lookUp key) := by
  refine ⟨respects_lookUp key, .bind (.of_eq fun _ => rfl) fun r => ?_⟩
  split
  · exact .bind (moves_tell_tables _) fun _ => .pure _
  · exact .pure _

theorem tame_insertIfAbsent (key : CacheKey) (h : LanguageHandle) :
    Tame Broker.Alike SameTables (insertIfAbsent key h) := by
  refine ⟨respects_insertIfAbsent key h, .bind (.of_eq fun _ => rfl) fun r => ?_⟩
  split
  · exact .pure _
  · exact .bind (fun s => ⟨rfl, rfl⟩) fun _ => .pure _

theorem tame_load (k : BackendKind) (n : LanguageName) (reg : Registration) :
    Tame Broker.Alike SameTables (load k n reg) := by
  refine ⟨respects_load k n reg, .bind (.of_eq (ready_state k)) fun i => ?_⟩
  refine .bind (tame_lookUp _).moves fun found => ?_
  cases found with
  | some h => exact .pure h
  | none =>
    refine .bind (fun s => ⟨rfl, i.engine.moves_load n reg s.world⟩) fun h => ?_
    exact (tame_insertIfAbsent _ _).moves

theorem tame_loadLibrary (k : BackendKind) (n : LanguageName) (path : FilePath)
    (symbol : String) : Tame Broker.Alike SameTables (loadLibrary k n path symbol) :=
  ⟨.bind (.ofExcept _) fun reg => respects_load k n reg,
    loadLibrary_moves fun _ => (tame_load _ _ _).moves⟩

theorem tame_languageFor (n : LanguageName) (backend : Option BackendKind) :
    Tame Broker.Alike SameTables (languageFor n backend) :=
  ⟨respects_languageFor n backend, fun s =>
    languageFor_moves moves_tell_tables s (fun _ _ _ => (tame_load _ _ _).moves) backend⟩

end Registry

/-- **Operations cannot tell brokers apart** that are alike, and those that have the same
tables do not become different by them. -/
theorem Operation.after_like {exact : Prop} {s t : Broker} (like : s.Like exact t)
    (op : Operation) : (op.after s).Like exact (op.after t) := by
  unfold after perform
  cases op with
  | registerBackend e => exact (Registry.respects_registerBackend e s t like).2
  | registerTag g => exact (Registry.respects_registerTag g s t like).2
  | register n k reg => exact (Registry.respects_register n k reg s t like).2
  | locate l => exact (Respects.bind (Registry.respects_locate l) (fun _ => .pure _) s t like).2
  | languageFor n backend =>
    exact like.of_tame (.bind (Registry.tame_languageFor n backend) fun _ => .pure _)
  | loadLibrary k n path symbol =>
    exact like.of_tame (.bind (Registry.tame_loadLibrary k n path symbol) fun _ => .pure _)
  | lookUp key => exact like.of_tame (.bind (Registry.tame_lookUp key) fun _ => .pure _)
  | insert key h => exact like.of_tame (.bind (Registry.tame_insertIfAbsent key h) fun _ => .pure _)
  | clearCache => exact (Broker.respects_change_like (fun _ => rfl) s t like).2
  | clearAll => exact (Broker.respects_change_like (fun _ => rfl) s t like).2
  | sway k answer => exact (Broker.respects_change_like (fun _ => rfl) s t like).2
  | elsewhere w =>
    exact ⟨⟨like.tables.registry, rfl⟩, fun close => ⟨(like.alike close).1, rfl, rfl, rfl⟩⟩

end TreeBroker
