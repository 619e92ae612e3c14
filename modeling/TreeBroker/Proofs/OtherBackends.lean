import TreeBroker.Proofs.CacheSoundness
import TreeBroker.Proofs.Fallback

/-!
# Languages of other backends

A language belongs to the backend that it was loaded for. Given one of another backend, a
parser does one of three things. It *moves* to that backend, if nobody chose its own and the
other is registered, of this process and available (`Bench.MayMove`). If it may not move, it
*loads the library again* for its own backend; and where there is no library, it *refuses*.

The refusal has an error of its own, and one would like to read the reason off it. That asks
for more than looking at the place where it is thrown. Making a parser, loading, taking a
language are all on the way to other answers, and any of them could fail: so none of them may
ever fail with that error (`Action.FailsFor`).

What is loaded again is found by the texts of the old language – its name, the path, the
symbol – and may come out of the cache, where another caller has left it under a key that
is made of texts as well. That it is the same library after all is what the soundness of the
cache is for. It is not the same *handle*: the old one stays with its backend, while a parser
that moves takes the very handle that it is given.
-/

namespace TreeBroker

/-! ## Why an action fails -/

namespace Action

variable {σ τ α β : Type} {P : Error → Prop}

/-- **An action that fails for certain reasons only.** -/
def FailsFor (P : Error → Prop) (act : Action σ α) : Prop :=
  ∀ s e, (act.on s).1 = .error e → P e

namespace FailsFor

/-- An action that never fails. -/
theorem of_total {act : Action σ α} (h : ∀ s, ∃ a s', act.on s = (.ok a, s')) :
    FailsFor P act := by
  intro s e failed
  obtain ⟨a, s', done⟩ := h s
  rw [done] at failed
  cases failed

theorem pure (a : α) : FailsFor P (Pure.pure a : Action σ α) := of_total fun s => ⟨a, s, rfl⟩

theorem get : FailsFor P (MonadState.get : Action σ σ) := of_total fun s => ⟨s, s, rfl⟩

theorem ofExcept {x : Except Error α} (h : ∀ e, x = .error e → P e) :
    FailsFor P (Action.ofExcept x : Action σ α) := fun _ => h

theorem throw {e : Error} (h : P e) : FailsFor P (MonadExcept.throw e : Action σ α) := by
  rintro s e' failed
  cases failed
  exact h

theorem zoom {part : σ → τ} {update : τ → σ → σ} {act : Action τ α} (h : FailsFor P act) :
    FailsFor P (Action.zoom part update act) := fun s => h (part s)

theorem bind {act : Action σ α} {f : α → Action σ β} (h : FailsFor P act)
    (hf : ∀ a, FailsFor P (f a)) : FailsFor P (act >>= f) := by
  intro s e failed
  rcases on_bind_eq_error.mp (Prod.ext failed rfl) with first | ⟨a, t, -, second⟩
  · exact h s e (congrArg Prod.fst first)
  · exact hf a t e (congrArg Prod.fst second)

end FailsFor

end Action

open TreeBroker.Action

/-- **An error that is not about backends** that do not match. -/
def Error.Aside (e : Error) : Prop := e.category ≠ .backendMismatch

theorem Error.Aside.notAvailable (cause : Unavailable) : (Error.notAvailable cause).Aside := nofun

theorem Error.Aside.configuration (cause : Misuse) : (Error.configuration cause).Aside := nofun

/-- An engine fails for reasons of its own. -/
theorem EngineFailure.aside (f : EngineFailure) : f.error.Aside := by
  cases f with
  | unavailable text => exact .notAvailable _
  | misuse cause => exact .configuration cause

theorem EngineFailure.aside_of_mapError {x : Except EngineFailure Unit} {e : Error}
    (failed : x.mapError EngineFailure.error = .error e) : e.Aside := by
  cases x with
  | ok u => cases failed
  | error f =>
    cases failed
    exact f.aside

theorem failsAside_failIf (failure : Option EngineFailure) :
    FailsFor Error.Aside (failIf failure) := by
  cases failure with
  | none => exact .pure _
  | some f => exact .throw f.aside

theorem LanguageHandle.failsAside_unwrap {h : LanguageHandle} {form : Form} {e : Error}
    (failed : h.unwrap form = .error e) : e.Aside := by
  unfold unwrap at failed
  split at failed <;> cases failed
  exact .configuration _

theorem Registration.failsAside_validate {reg : Registration} {e : Error}
    (failed : reg.validate = .error e) : e.Aside := by
  cases reg with
  | grammar g identifier =>
    rw [validate] at failed
    split at failed <;> cases failed
    exact .configuration _
  | library path symbol =>
    rw [validate] at failed
    split at failed
    · cases failed
      exact .configuration _
    · split at failed <;> cases failed
      exact .configuration _

namespace Engine

/-- Making a parser. -/
theorem failsAside_newParser (e : Engine) : FailsFor Error.Aside e.newParser := by
  induction e with
  | linked ss => exact .pure _
  | grammar k => exact .pure _
  | stub k inner c m a failure ih => exact .bind (failsAside_failIf _) fun _ => ih
  | foreign f =>
    refine .bind (.of_total fun w => ⟨_, _, rfl⟩) fun _ => ?_
    exact .bind (failsAside_failIf _) fun _ => .pure _

/-- Loading a language. -/
theorem failsAside_load (e : Engine) (n : LanguageName) (reg : Registration) :
    FailsFor Error.Aside (e.load n reg) := by
  induction e with
  | linked ss =>
    cases reg with
    | grammar g i => exact .throw (.notAvailable _)
    | library path symbol =>
      rw [load_library_eq]
      refine .bind .get fun w => .bind (.ofExcept fun e failed => ?_) fun language =>
        .of_total fun w => ⟨_, _, rfl⟩
      unfold behind at failed
      split at failed
      · split at failed
        · cases failed
          exact .notAvailable _
        · split at failed <;> cases failed
          exact .notAvailable _
      · cases failed
        exact .notAvailable _
  | grammar k =>
    cases reg with
    | library path symbol => exact .throw (.notAvailable _)
    | grammar g i => exact .of_total (LanguageHandle.make_total _ _ _ _)
  | stub k inner c m a failure ih =>
    exact .bind ih fun h => .of_total (LanguageHandle.make_total _ _ _ _)
  | foreign f =>
    refine .bind (.of_total fun w => ⟨_, _, rfl⟩) fun _ => .bind .get fun w => ?_
    split
    · next failure _ => exact .throw failure.aside
    · exact .of_total (LanguageHandle.make_total _ _ _ _)

end Engine

/-- Taking a language. -/
theorem NativeParser.failsAside_setLanguage (raw : RawLanguage) :
    FailsFor Error.Aside (setLanguage raw) := by
  refine .bind .get fun s => ?_
  split
  · split
    · exact .of_total fun s => ⟨_, _, rfl⟩
    · exact .throw (.notAvailable _)
  · exact .throw (.configuration _)
  · exact .of_total fun s => ⟨_, _, rfl⟩
  · exact .throw (.configuration _)
  · refine .bind (.of_total fun s => ⟨_, _, rfl⟩) fun _ => ?_
    refine .bind (.of_total fun s => ⟨_, _, rfl⟩) fun _ => ?_
    exact .ofExcept fun e => EngineFailure.aside_of_mapError

theorem NativeParser.failsAside_given (p : NativeParser) (raw : RawLanguage) :
    FailsFor Error.Aside (p.given raw) := by
  intro w e failed
  refine failsAside_setLanguage raw (p, w) e ?_
  change (((setLanguage raw).on (p, w)).1.map _) = .error e at failed
  cases outcome : ((setLanguage raw).on (p, w)).1 with
  | ok u =>
    rw [outcome] at failed
    cases failed
  | error e' =>
    rw [outcome] at failed
    cases failed
    rfl

namespace Registry

open Broker

theorem failsAside_ready (k : BackendKind) : FailsFor Error.Aside (ready k) := by
  refine .bind (.of_total fun s => ⟨_, _, on_registryNow s⟩) fun r => ?_
  split
  · exact .throw (.notAvailable _)
  · split
    · exact .pure _
    · exact .throw (.notAvailable _)

theorem failsAside_load (k : BackendKind) (n : LanguageName) (reg : Registration) :
    FailsFor Error.Aside (load k n reg) := by
  refine .bind (failsAside_ready k) fun i => .bind ?_ fun found => ?_
  · -- the first section never fails, and neither does the second
    refine .bind (.of_total fun s => ⟨_, _, on_registryNow s⟩) fun r => ?_
    split
    · exact .bind (.of_total fun s => ⟨_, _, on_tell _ s⟩) fun _ => .pure _
    · exact .pure _
  · cases found with
    | some h => exact .pure h
    | none =>
      exact .bind (.zoom (i.engine.failsAside_load n reg)) fun h =>
        .of_total (insertIfAbsent_total (reg.cacheKey k n) h)

theorem failsAside_loadLibrary (k : BackendKind) (n : LanguageName) (path : FilePath)
    (symbol : String) : FailsFor Error.Aside (loadLibrary k n path symbol) := by
  refine .bind (.ofExcept fun e failed => ?_) fun reg => failsAside_load k n reg
  unfold Registration.ofLibrary Registration.checked at failed
  dsimp only at failed
  cases valid : (Registration.library path symbol).validate with
  | error e' =>
    rw [valid] at failed
    cases failed
    exact Registration.failsAside_validate valid
  | ok u =>
    rw [valid] at failed
    cases failed

end Registry

namespace Parser

theorem failsAside_assign (h : LanguageHandle) : FailsFor Error.Aside (assign h) := by
  refine .bind .get fun b => .bind (.ofExcept fun e => h.failsAside_unwrap) fun raw => ?_
  exact .bind (.zoom (NativeParser.failsAside_setLanguage raw)) fun _ =>
    .of_total fun b => ⟨_, _, rfl⟩

theorem failsAside_moveTo (i : Installed) (h : LanguageHandle) :
    FailsFor Error.Aside (moveTo i h) := by
  refine .bind .get fun b => .bind (.zoom (.zoom i.engine.failsAside_newParser)) fun fresh => ?_
  refine .bind (.ofExcept fun e => h.failsAside_unwrap) fun raw => ?_
  exact .bind (.zoom (.zoom (fresh.failsAside_given raw))) fun native =>
    .of_total fun b => ⟨_, _, rfl⟩

end Parser

/-! ## Moving, loading again, refusing -/

namespace Bench

open TreeBroker.Parser

variable {b b' : Bench} {h : LanguageHandle} {i : Installed}

/-- **A parser may move** to the backend of a language: nobody chose its own, and the other is
registered, of this process and available. -/
structure MayMove (b : Bench) (h : LanguageHandle) : Prop where
  automatic : b.parser.explicit = false
  inProcess : b.broker.registry.InProcess h.backend
  available : b.broker.registry.isAvailable h.backend = true

theorem mayMove_iff : b.MayMove h ↔ ∃ i, b.parser.target? b.broker.registry h = some i := by
  constructor
  · rintro ⟨automatic, ⟨i, engine, category⟩, available⟩
    have kind := Registry.kind_of_engine? engine
    refine ⟨i, ?_⟩
    unfold target?
    rw [automatic, engine]
    simp [category, kind, available]
  · rintro ⟨i, target⟩
    obtain ⟨automatic, engine, category⟩ := target?_eq_some target
    refine ⟨automatic, ⟨i, engine, category⟩, ?_⟩
    unfold target? at target
    rw [automatic, engine] at target
    rw [← Registry.kind_of_engine? engine]
    simpa [category] using target

theorem target?_of_not_mayMove (stays : ¬b.MayMove h) :
    b.parser.target? b.broker.registry h = none := by
  by_contra somewhere
  exact stays (mayMove_iff.mpr (Option.ne_none_iff_exists'.mp somewhere))

/-- **A refusal has one cause.** -/
theorem setLanguage_refuses_iff {l : String} {k active : BackendKind} :
    ((setLanguage h).on b).1 = .error (.backendMismatch l k active) ↔
      (l = h.name.text ∧ k = h.backend ∧ active = b.parser.backend) ∧
        h.backend ≠ b.parser.backend ∧ (∃ g, h.provenance = .grammar g) ∧ ¬b.MayMove h := by
  constructor
  · intro refused
    -- on every other way the error would have come from somewhere else
    have aside {act : Action Bench Unit} {t : Bench} (fails : FailsFor Error.Aside act)
        (same : (setLanguage h).on b = act.on t) : False := by
      rw [same] at refused
      exact fails t _ refused rfl
    by_cases own : h.backend = b.parser.backend
    · exact (aside (failsAside_assign h) (on_setLanguage_of_own own)).elim
    cases target : b.parser.target? b.broker.registry h with
    | some i => exact (aside (failsAside_moveTo i h) (on_setLanguage_of_target own target)).elim
    | none =>
      cases origin : h.provenance with
      | library path symbol =>
        obtain ⟨event, same⟩ := on_setLanguage_of_library own target origin
        exact (aside (.bind (.zoom (Registry.failsAside_loadLibrary _ _ _ _)) failsAside_assign)
          same).elim
      | grammar g =>
        rw [on_setLanguage_of_grammar own target origin] at refused
        cases refused
        refine ⟨⟨rfl, rfl, rfl⟩, own, ⟨g, rfl⟩, fun may => ?_⟩
        obtain ⟨i, somewhere⟩ := mayMove_iff.mp may
        rw [target] at somewhere
        cases somewhere
  · rintro ⟨⟨rfl, rfl, rfl⟩, other, ⟨g, origin⟩, stays⟩
    rw [on_setLanguage_of_grammar other (target?_of_not_mayMove stays) origin]

/-- **A parser that may move does**, and takes the very language that it is given. -/
theorem setLanguage_moves (other : h.backend ≠ b.parser.backend) (may : b.MayMove h)
    (done : (setLanguage h).on b = (.ok (), b')) :
    b'.parser.backend = h.backend ∧ b'.parser.language = some h := by
  obtain ⟨i, target⟩ := mayMove_iff.mp may
  rw [on_setLanguage_of_target other target] at done
  obtain ⟨fresh, native, w, w', -, -, moved, -⟩ := moveTo_ok done
  obtain ⟨-, engine, -⟩ := target?_eq_some target
  rw [moved]
  exact ⟨Registry.kind_of_engine? engine, rfl⟩

/-- **A parser that may not move loads the library again.** -/
theorem setLanguage_reloads (reached : b.broker.Reachable .own)
    (other : h.backend ≠ b.parser.backend) (stays : ¬b.MayMove h)
    (done : (setLanguage h).on b = (.ok (), b')) :
    b'.parser.backend = b.parser.backend ∧
      ∃ path symbol loaded, h.provenance = .library path symbol ∧
        b'.parser.language = some loaded ∧
        loaded.LoadedFor b.parser.backend h.name (.library path symbol) := by
  have nowhere := target?_of_not_mayMove stays
  cases origin : h.provenance with
  | grammar g =>
    rw [on_setLanguage_of_grammar other nowhere origin] at done
    cases done
  | library path symbol =>
    obtain ⟨event, same⟩ := on_setLanguage_of_library other nowhere origin
    rw [same] at done
    obtain ⟨loaded, t, load, done⟩ := on_bind_eq_ok.mp done
    obtain ⟨s, loads, rfl⟩ := inBroker_ok load
    obtain ⟨native, -, assigned, -⟩ := assign_ok done
    rw [assigned]
    refine ⟨rfl, path, symbol, loaded, rfl, rfl, ?_⟩
    -- telling an event is one of the things that happen around a registry
    have told : (b.broker.told [event]).Reachable .own := reached.step (.elsewhere _) trivial
    obtain ⟨reg, t, valid, -⟩ := on_bind_eq_ok.mp loads
    rw [on_ofExcept, Prod.mk.injEq] at valid
    exact told.load_loadedFor (Registration.checked_ok valid.1).2 (Registry.loadLibrary_ok loads)

/-- **What becomes of a language of another backend**, given to any parser beside a registry
that the library on its own has led to. The parser refuses it, with its name and both
backends, exactly if it comes from a grammar and the parser may not move. The parser changes
its backend only where it may move, and then, if it is not prevented, to that of the language
and with the very language. In all other cases it keeps its backend, and the language that it
gets is of the same name, from the same library and symbol, and of that backend. -/
theorem setLanguage_of_other_backend (reached : b.broker.Reachable .own) (h : LanguageHandle) :
    (∀ l k active, ((setLanguage h).on b).1 = .error (.backendMismatch l k active) ↔
      (l = h.name.text ∧ k = h.backend ∧ active = b.parser.backend) ∧
        h.backend ≠ b.parser.backend ∧ (∃ g, h.provenance = .grammar g) ∧ ¬b.MayMove h) ∧
    (((setLanguage h).on b).2.parser.backend ≠ b.parser.backend →
      h.backend ≠ b.parser.backend ∧ b.MayMove h) ∧
    (∀ b', (setLanguage h).on b = (.ok (), b') → h.backend ≠ b.parser.backend → b.MayMove h →
      b'.parser.backend = h.backend ∧ b'.parser.language = some h) ∧
    (∀ b', (setLanguage h).on b = (.ok (), b') → h.backend ≠ b.parser.backend → ¬b.MayMove h →
      b'.parser.backend = b.parser.backend ∧
        ∃ path symbol loaded, h.provenance = .library path symbol ∧
          b'.parser.language = some loaded ∧ loaded.name = h.name ∧
          loaded.provenance = .library path symbol ∧ loaded.backend = b.parser.backend) := by
  refine ⟨fun l k active => setLanguage_refuses_iff, fun changed => ?_,
    fun b' done other may => setLanguage_moves other may done, fun b' done other stays => ?_⟩
  · rcases outcome : (setLanguage h).on b with ⟨e | u, b'⟩
    · obtain ⟨native, -, same⟩ := setLanguage_error outcome
      rw [outcome, same] at changed
      exact absurd rfl changed
    · rw [outcome] at changed
      by_cases own : h.backend = b.parser.backend
      · rw [on_setLanguage_of_own own] at outcome
        obtain ⟨native, -, assigned, -⟩ := assign_ok outcome
        rw [assigned] at changed
        exact absurd rfl changed
      · refine ⟨own, by_contra fun stays => changed ?_⟩
        exact (setLanguage_reloads reached own stays outcome).1
  · obtain ⟨kept, path, symbol, loaded, origin, given, loadedFor⟩ :=
      setLanguage_reloads reached other stays done
    exact ⟨kept, path, symbol, loaded, origin, given, loadedFor.name, loadedFor.provenance,
      loadedFor.backend⟩

end Bench

/-! ## A library that another backend has loaded -/

/-- A library that is there is loaded. -/
theorem Engine.on_load_of_behind {ss : List (String × NativeLanguage)} {n : LanguageName}
    {path : FilePath} {symbol : String} {w : World} {language : NativeLanguage}
    (there : behind ss n path symbol w.files = .ok language) :
    ∃ w', ((linked ss).load n (.library path symbol)).on w =
      (.ok ⟨w.made, n, .treeSitter, .library path symbol, .native language⟩, w') := by
  rw [load_library_eq, on_bind_of_ok (on_get w), there, on_bind_of_ok (on_ofExcept _ w)]
  exact ⟨_, rfl⟩

/-- The library on the shelf passes the check of a registration. -/
theorem Registry.loadLibrary_onShelf (k : BackendKind) (n : LanguageName) :
    loadLibrary k n .onShelf "tree_sitter_c_sharp" =
      load k n (.library .onShelf "tree_sitter_c_sharp") := by
  have checked : (Registration.library .onShelf "tree_sitter_c_sharp").checked
      = .ok (.library .onShelf "tree_sitter_c_sharp") := by cbv
  funext s
  show (Action.ofExcept (Registration.library .onShelf "tree_sitter_c_sharp").checked
    >>= load k n : Action Broker LanguageHandle).on s = _
  rw [checked, on_bind_of_ok (on_ofExcept _ s)]
  rfl

/-- The library on the shelf is loaded, whatever has been told before. -/
theorem Registry.loadLibrary_besideShelf (events : List Event) :
    ∃ s', (loadLibrary .treeSitter ⟨"c_sharp", by decide⟩ .onShelf "tree_sitter_c_sharp").on
        (Broker.besideShelf.told events) =
      (.ok ⟨0, ⟨"c_sharp", by decide⟩, .treeSitter, .library .onShelf "tree_sitter_c_sharp",
        .native .cSharp⟩, s') := by
  have file : FileSystem.shelf.isFile .onShelf = true := by cbv
  have there : Engine.behind NativeLanguage.standIns ⟨"c_sharp", by decide⟩ .onShelf
      "tree_sitter_c_sharp" .shelf = .ok .cSharp := by
    rw [Engine.behind, if_pos file]
    rfl
  obtain ⟨w, loads⟩ := Engine.on_load_of_behind (w := (Broker.besideShelf.told events).world) there
  have computes : (Broker.inWorld ((Installed.ofEngine .standard).engine.load
      ⟨"c_sharp", by decide⟩ (.library .onShelf "tree_sitter_c_sharp"))).on
        (Broker.besideShelf.told events) = (.ok _, ⟨.withDefaults default, w⟩) :=
    congrArg (fun x : _ × World => (x.1, Broker.mk (.withDefaults default) x.2)) loads
  rw [loadLibrary_onShelf, on_load_of_ready rfl rfl, fetch_of_none rfl, on_bind_of_ok computes]
  exact ⟨_, insertIfAbsent_of_none rfl⟩

/-- A language of another backend, out of the library on the shelf. -/
def LanguageHandle.stray : LanguageHandle where
  identity := 0
  name := ⟨"c_sharp", by decide⟩
  backend := Broker.alpha
  provenance := .library .onShelf "tree_sitter_c_sharp"
  payload := .named

namespace Bench

open TreeBroker.Parser

/-- A native parser that a caller chose, beside the shelf. -/
def besideShelf : Bench where
  parser := { active := .ofEngine .standard, native := .linked none, explicit := true }
  broker := .besideShelf

theorem setLanguage_stray : ∃ b', (setLanguage .stray).on besideShelf = (.ok (), b') := by
  obtain ⟨event, same⟩ := on_setLanguage_of_library (b := besideShelf) (h := .stray)
    (by decide) rfl rfl
  obtain ⟨s', loads⟩ := Registry.loadLibrary_besideShelf [event]
  have brings : (inBroker (Registry.loadLibrary .treeSitter ⟨"c_sharp", by decide⟩ .onShelf
      "tree_sitter_c_sharp")).on ⟨besideShelf.parser, Broker.besideShelf.told [event]⟩
        = (.ok _, ⟨_, s'⟩) :=
    congrArg (fun x : _ × Broker => (x.1, Bench.mk besideShelf.parser x.2)) loads
  exact ⟨_, same.trans ((on_bind_of_ok brings assign).trans rfl)⟩

-- The parser may not move, and it has the library to go by.
theorem setLanguage_of_other_backend_stray :
    besideShelf.broker.Reachable .own ∧
      LanguageHandle.stray.backend ≠ besideShelf.parser.backend ∧ ¬besideShelf.MayMove .stray ∧
      ∃ b' loaded, (setLanguage .stray).on besideShelf = (.ok (), b') ∧
        b'.parser.backend = .treeSitter ∧ b'.parser.language = some loaded ∧
        loaded.name = LanguageHandle.stray.name ∧ loaded.backend = .treeSitter := by
  have reached : besideShelf.broker.Reachable .own :=
    .of_isNew (s := .besideShelf) trivial trivial (.withDefaults default)
  have other : LanguageHandle.stray.backend ≠ besideShelf.parser.backend := by decide
  have stays : ¬besideShelf.MayMove .stray := fun may => by cases may.automatic
  obtain ⟨b', done⟩ := setLanguage_stray
  obtain ⟨-, -, -, reloads⟩ := setLanguage_of_other_backend reached .stray
  obtain ⟨kept, path, symbol, loaded, -, given, name, -, backend⟩ := reloads b' done other stays
  exact ⟨reached, other, stays, b', loaded, done, kept, given, name, backend⟩

end Bench

end TreeBroker
