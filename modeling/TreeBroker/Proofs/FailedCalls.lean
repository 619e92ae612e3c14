import TreeBroker.Proofs.OtherBackends
import TreeBroker.Proofs.ParsersSideBySide
import TreeBroker.Proofs.Substitution

/-!
# Languages that are not taken

Giving a parser a language may fail at many points: the new native parser may not come
about, the library may not be loaded again, what is loaded may not be in the form that the
parser needs, and the native parser may refuse it. Whatever the point, the parser is the
parser that it was, but for what a foreign native parser remembers of what it refuses.

One would like to go on: so it makes no difference that the call was made. That is not so. A
library that is loaded again is in the cache of the registry *before* the parser takes it, and
it stays there if the parser does not (`Bench.LeavesBehind`). A later call for the same
library finds it there, where it would have loaded the library by the engine that is
installed by then, and fails where it would have succeeded.

So there are two cases. If the registry is what it was, then no run whatsoever can tell that
the call was made. Otherwise the difference is one entry of the cache, and no parse can tell
until the parser loads a library again and its native parser is handed something else. On its
own, this library is always in the first case, since what its engines load, its parsers take.
-/

namespace TreeBroker

open TreeBroker.Action

namespace Bench

/-- Benches with brokers that are alike. -/
def Beside (b b' : Bench) : Prop := b.broker.Alike b'.broker

instance : IsPreorder Bench Beside where
  refl b := refl_of Broker.Alike b.broker
  trans _ _ _ h h' := trans_of Broker.Alike h h'

theorem beside_of_quiet {α : Type} {act : Action World α} (h : World.Quiet act) :
    Moves Beside (inBroker (Broker.inWorld act)) := by
  obtain ⟨x, quiet⟩ := h
  intro b
  obtain ⟨w, hw, alike⟩ := quiet b.broker.world
  rw [on_inBroker, Broker.on_inWorld, hw]
  exact ⟨rfl, alike⟩

theorem beside_tell (e : Event) : Moves Beside (inBroker (Broker.tell e)) :=
  fun b => b.broker.alike_told [e]

theorem beside_change (f : Parser → Parser) : Moves Beside (change f) :=
  fun b => refl_of Broker.Alike b.broker

/-- An assignment does nothing to the broker but that a call may be recorded. -/
theorem beside_assign (h : LanguageHandle) : Moves Beside (Parser.assign h) := by
  refine .bind .get fun b => .bind (.ofExcept _) fun raw => .bind (fun b => ?_) fun _ =>
    beside_change _
  obtain ⟨x, native, quiet⟩ := b.parser.native.setLanguage_quiet raw
  obtain ⟨w, hw, alike⟩ := quiet b.broker.world
  rw [on_inNative, hw]
  exact ⟨rfl, alike⟩

theorem beside_moveTo (i : Installed) (h : LanguageHandle) : Moves Beside (Parser.moveTo i h) :=
  .bind .get fun _ => .bind (beside_of_quiet i.engine.newParser_quiet) fun fresh =>
    .bind (.ofExcept _) fun raw => .bind (beside_of_quiet (fresh.given_quiet raw)) fun _ =>
      .bind (beside_tell _) fun _ => beside_change _

end Bench

/-- A load that finds a language in the cache does nothing but tell so. -/
theorem Registry.alike_load_of_cached {s : Broker} {k : BackendKind} {n : LanguageName}
    {reg : Registration} {h : LanguageHandle}
    (hc : s.registry.cached? (reg.cacheKey k n) = some h) :
    s.Alike ((load k n reg).on s).2 := by
  have told : s.Alike ((lookUp (reg.cacheKey k n)).on s).2 := moves_lookUp_alike _ s
  rcases hready : (ready k).on s with ⟨e | i, t⟩
  · obtain rfl : t = s := by rw [← ready_state k s, hready]
    rw [load, on_bind_of_error hready]
    exact refl_of Broker.Alike t
  · obtain rfl : t = s := by rw [← ready_state k s, hready]
    obtain ⟨w, found⟩ := lookUp_of_some hc
    rw [found] at told
    rw [load, on_bind_of_ok hready, fetch, on_bind_of_ok found]
    exact told

/-- An entry more can be seen. -/
theorem Registry.putCached_ne (r : Registry) (key : CacheKey) (h : LanguageHandle) :
    r.putCached key h ≠ r := by
  intro same
  have longer := congrArg (fun r => r.cache.length) same
  simp [putCached] at longer

/-! ## What is left behind -/

namespace Bench

/-- **A call leaves a language behind.** The library was loaded again, by the engine that is
installed for the parser's backend; the parser did not take the language; and there it is in
the cache, where none was before. -/
structure LeavesBehind (b : Bench) (h : LanguageHandle) (b' : Bench) (path : FilePath)
    (symbol : String) (loaded : LanguageHandle) : Prop where
  /-- The parser loads the library again. -/
  reloads : b.Reloads h path symbol
  /-- It is not in the cache. -/
  absent : b.broker.registry.cached? (.library b.parser.backend path symbol h.name) = none
  /-- The engine loads it. -/
  loads : ∃ i w w', b.broker.registry.engine? b.parser.backend = some i ∧
    (i.engine.load h.name (.library path symbol)).on w = (.ok loaded, w')
  /-- The parser does not take it. -/
  refused : ∃ s e b'', (Parser.assign loaded).on { b with broker := s } = (.error e, b'')
  /-- It is in the cache. -/
  behind : b'.broker.registry =
    b.broker.registry.putCached (.library b.parser.backend path symbol h.name) loaded
  /-- The files are what they were. -/
  files : b'.broker.world.files = b.broker.world.files

variable {b b' : Bench} {h : LanguageHandle} {e : Error}

/-- **A call that fails leaves the broker as it was**, for all that matters, or it leaves a
language behind. -/
theorem broker_of_setLanguage_error (failed : (Parser.setLanguage h).on b = (.error e, b')) :
    b.broker.Alike b'.broker ∨ ∃ path symbol loaded, b.LeavesBehind h b' path symbol loaded := by
  by_cases own : h.backend = b.parser.backend
  · rw [Parser.on_setLanguage_of_own own] at failed
    have beside := beside_assign h b
    rw [failed] at beside
    exact .inl beside
  cases target : b.parser.target? b.broker.registry h with
  | some i =>
    rw [Parser.on_setLanguage_of_target own target] at failed
    have beside := beside_moveTo i h b
    rw [failed] at beside
    exact .inl beside
  | none =>
    cases origin : h.provenance with
    | grammar g =>
      rw [Parser.on_setLanguage_of_grammar own target origin] at failed
      cases failed
      exact .inl (refl_of Broker.Alike b.broker)
    | library path symbol =>
      obtain ⟨event, hon⟩ := Parser.on_setLanguage_of_library own target origin
      rw [hon] at failed
      have told := b.broker.alike_told [event]
      rcases on_bind_eq_error.mp failed with hload | ⟨loaded, t, hload, refused⟩
      · -- the library is not loaded
        rw [on_inBroker, Prod.mk.injEq] at hload
        obtain ⟨hload, rfl⟩ := hload
        refine .inl (trans_of Broker.Alike told ?_)
        exact Registry.failsWithin_loadLibrary _ _ _ _ _ _ _ (Prod.ext hload rfl)
      obtain ⟨s, hlibrary, rfl⟩ := inBroker_ok hload
      have beside := beside_assign loaded { b with broker := s }
      rw [refused] at beside
      have hl := Registry.loadLibrary_ok hlibrary
      obtain ⟨i, engine, -, ⟨cached, -⟩ | ⟨absent, w, loads, rfl⟩⟩ := Registry.load_ok hl
      · -- the language comes out of the cache
        have found := Registry.alike_load_of_cached cached
        rw [hl] at found
        exact .inl (trans_of Broker.Alike told (trans_of Broker.Alike found beside))
      · have files :=
          i.engine.moves_load h.name (.library path symbol) (b.broker.told [event]).world
        rw [loads] at files
        exact .inr ⟨path, symbol, loaded, ⟨own, target, origin⟩, absent,
          ⟨i, _, w, engine, loads⟩, ⟨_, e, b', refused⟩, beside.1, beside.2.files.trans files⟩

/-- The language is left behind in the cache, and the tables are what they were. -/
theorem LeavesBehind.sameTables {path : FilePath} {symbol : String} {loaded : LanguageHandle}
    (left : b.LeavesBehind h b' path symbol loaded) : b.broker.SameTables b'.broker := by
  refine ⟨?_, left.files⟩
  rw [left.behind]
  rfl

/-- A language that is left behind can be seen in the registry. -/
theorem LeavesBehind.registry_ne {path : FilePath} {symbol : String} {loaded : LanguageHandle}
    (left : b.LeavesBehind h b' path symbol loaded) :
    b'.broker.registry ≠ b.broker.registry := by
  rw [left.behind]
  exact Registry.putCached_ne _ _ _

end Bench

/-! ## The library on its own -/

/-- **A library that an engine of this library loads** is a native language, of a version that
native parsers take. -/
theorem Engine.load_library_ok {e : Engine} (built : e.IsBuiltIn) {n : LanguageName}
    {path : FilePath} {symbol : String} {w w' : World} {h : LanguageHandle}
    (loaded : (e.load n (.library path symbol)).on w = (.ok h, w')) :
    e.form = .native ∧
      ∃ language, h.payload = .native language ∧ language.isCompatible = true := by
  induction e generalizing w w' h with
  | linked ss =>
    rw [load_library_eq] at loaded
    obtain ⟨_, _, hget, loaded⟩ := on_bind_eq_ok.mp loaded
    cases hget
    obtain ⟨language, _, there, loaded⟩ := on_bind_eq_ok.mp loaded
    rw [on_ofExcept, Prod.mk.injEq] at there
    obtain ⟨there, rfl⟩ := there
    cases loaded
    refine ⟨rfl, language, rfl, ?_⟩
    unfold behind at there
    split at there
    · split at there
      · cases there
      · split at there
        · next compatible =>
          cases there
          exact compatible
        · cases there
    · cases there
  | grammar k => cases loaded
  | stub k inner c m a f ih =>
    obtain ⟨h', w'', inside, made⟩ := on_bind_eq_ok.mp loaded
    obtain ⟨form, language, payload, compatible⟩ := ih built inside
    cases made
    exact ⟨form, language, payload, compatible⟩
  | foreign f => exact built.elim

/-- A native parser takes a native language of a version that it understands. -/
theorem Parser.on_assign_native {b : Bench} {h : LanguageHandle} {language : NativeLanguage}
    (form : b.parser.active.engine.form = .native)
    (native : b.parser.native.form? = some .native) (payload : h.payload = .native language)
    (compatible : language.isCompatible = true) :
    ∃ b', (assign h).on b = (.ok (), b') := by
  obtain ⟨l?, linked⟩ : ∃ l?, b.parser.native = .linked l? := by
    cases hp : b.parser.native with
    | linked l? => exact ⟨l?, rfl⟩
    | grammar g? =>
      rw [hp] at native
      cases native
    | foreign e memory =>
      rw [hp] at native
      cases native
  have unwrapped : h.unwrap b.parser.active.engine.form = .ok (.native language) := by
    rw [form]
    unfold LanguageHandle.unwrap
    rw [payload]
  rw [on_assign_of_ok unwrapped, on_bind, Bench.on_inNative, linked,
    NativeParser.on_setLanguage_linked, if_pos compatible]
  exact ⟨_, rfl⟩

/-- **This library on its own leaves nothing behind**: what its engines load again, its
parsers take. -/
theorem Bench.Reachable.not_leavesBehind {b b' : Bench} (reached : b.Reachable .own)
    {h loaded : LanguageHandle} {path : FilePath} {symbol : String} :
    ¬b.LeavesBehind h b' path symbol loaded := by
  intro left
  obtain ⟨i, w, w', engine, loads⟩ := left.loads
  obtain ⟨i', engine', -, agrees⟩ := reached.settled.registered
  obtain rfl : i = i' := Option.some.inj (engine.symm.trans engine')
  have built := (reached.consistent.sound.engine engine).2
  obtain ⟨form, language, payload, compatible⟩ := Engine.load_library_ok built loads
  rw [agrees] at form
  have native := reached.consistent.form
  rw [form] at native
  obtain ⟨s, e, b'', refused⟩ := left.refused
  obtain ⟨b₁, taken⟩ := Parser.on_assign_native (b := { b with broker := s }) form native payload
    compatible
  rw [taken] at refused
  cases refused

/-! ## A call that fails late -/

/-- An engine of another library, which puts a payload of its choice on what it loads. Its
parsers take all languages that are given to them in the native form. -/
def ForeignEngine.outside (payload : Payload) : ForeignEngine where
  kind := Broker.alpha
  category := .native
  form := .native
  manifest := .minimal
  available := true
  load := fun _ name reg => .ok ⟨name, Broker.alpha, reg.provenance, payload⟩
  parserFailure := none
  setLanguage := fun memory raw => (.ok (), memory ++ [raw])
  parse := fun _ _ => .ok ⟨[], false⟩
  reparse := fun _ _ _ => .ok ⟨[], false⟩

theorem NativeParser.isSteadfast_outside (payload : Payload) (memory : List RawLanguage) :
    (foreign (.outside payload) memory).IsSteadfast := by
  intro e memory memory' raw failure was refused
  cases was
  cases refused

/-- The engine loads what is not in the cache. -/
theorem Registry.on_load_outside {s : Broker} {payload : Payload} (n : LanguageName)
    (reg : Registration)
    (engine : s.registry.engine? Broker.alpha = some (.ofEngine (.foreign (.outside payload))))
    (available : s.registry.isAvailable Broker.alpha = true)
    (absent : s.registry.cached? (reg.cacheKey Broker.alpha n) = none) :
    ∃ h w, h.payload = payload ∧ (load Broker.alpha n reg).on s =
      (.ok h, ⟨s.registry.putCached (reg.cacheKey Broker.alpha n) h, w⟩) := by
  rw [on_load_of_ready engine available, fetch_of_none absent]
  have computes : (Broker.inWorld ((Installed.ofEngine (.foreign (.outside payload))).engine.load
      n reg)).on s = (.ok _, ⟨s.registry, _⟩) := rfl
  rw [on_bind_of_ok computes]
  exact ⟨_, _, rfl, insertIfAbsent_of_none absent⟩

/-- An engine whose parsers take one language, and are of no use after they have been given
another. -/
def ForeignEngine.fickle : ForeignEngine where
  __ := ForeignEngine.outside .named
  setLanguage := fun memory raw => match memory with
    | [] => (.ok (), [raw])
    | _ :: _ => (.error (.unavailable "given a language already"), memory ++ [raw])
  parse := fun memory _ => match memory with
    | [_] => .ok ⟨[], false⟩
    | _ => .error "given more than a language"

/-- The language on the shelf, as another backend has loaded it. -/
def LanguageHandle.astray : LanguageHandle := { LanguageHandle.stray with backend := .treeSitter }

namespace Bench

/-- **A parser of the engine**, of a caller's choice. -/
structure IsOutside (b : Bench) : Prop where
  /-- It is for the backend of the engine. -/
  backend : b.parser.backend = Broker.alpha
  /-- It takes languages in the native form. -/
  form : b.parser.active.engine.form = .native
  /-- The backend was asked for. -/
  explicit : b.parser.explicit = true

variable {b : Bench}

/-- The registration of the library on the shelf. -/
def shelved : Registration := .library .onShelf "tree_sitter_c_sharp"

/-- The key of its language. -/
def shelvedKey : CacheKey := shelved.cacheKey Broker.alpha LanguageHandle.astray.name

/-- **It loads the library on the shelf again**, and what that gives is assigned. -/
theorem IsOutside.on_setLanguage (hb : b.IsOutside) {P : LanguageHandle → Registry → Prop}
    (loads : ∀ s : Broker, s.registry = b.broker.registry → ∃ loaded t, P loaded t.registry ∧
      (Registry.load Broker.alpha LanguageHandle.astray.name shelved).on s = (.ok loaded, t)) :
    ∃ loaded t, P loaded t.registry ∧
      (Parser.setLanguage .astray).on b = (Parser.assign loaded).on ⟨b.parser, t⟩ := by
  have other : LanguageHandle.astray.backend ≠ b.parser.backend := by
    rw [hb.backend]
    decide
  have nowhere : b.parser.target? b.broker.registry .astray = none := by
    unfold Parser.target?
    rw [hb.explicit]
    rfl
  obtain ⟨event, hon⟩ := Parser.on_setLanguage_of_library other nowhere rfl
  obtain ⟨loaded, t, holds, answer⟩ := loads (b.broker.told [event]) rfl
  have brings : (inBroker (Registry.load Broker.alpha LanguageHandle.astray.name shelved)).on
      ⟨b.parser, b.broker.told [event]⟩ = (.ok loaded, ⟨b.parser, t⟩) :=
    congrArg (fun x : _ × Broker => (x.1, Bench.mk b.parser x.2)) answer
  refine ⟨loaded, t, holds, ?_⟩
  rw [hon, Registry.loadLibrary_onShelf, hb.backend]
  exact on_bind_of_ok brings _

/-- A language that is nothing but a name is not taken. -/
theorem IsOutside.on_assign_named (hb : b.IsOutside) {h : LanguageHandle}
    (payload : h.payload = .named) : ∃ e, (Parser.assign h).on b = (.error e, b) := by
  obtain ⟨e, refused⟩ : ∃ e, h.unwrap b.parser.active.engine.form = .error e := by
    unfold LanguageHandle.unwrap
    rw [hb.form, payload]
    exact ⟨_, rfl⟩
  exact ⟨e, Parser.on_assign_of_error refused⟩

/-- **A call that fails late**: the library is loaded, and the language is not taken. -/
theorem IsOutside.setLanguage_late (hb : b.IsOutside)
    (engine : b.broker.registry.engine? Broker.alpha =
      some (.ofEngine (.foreign (.outside .named))))
    (available : b.broker.registry.isAvailable Broker.alpha = true)
    (absent : b.broker.registry.cached? shelvedKey = none) :
    ∃ e loaded w, loaded.payload = .named ∧ (Parser.setLanguage .astray).on b =
      (.error e, ⟨b.parser, b.broker.registry.putCached shelvedKey loaded, w⟩) := by
  obtain ⟨loaded, ⟨r, w⟩, ⟨named, rfl⟩, hon⟩ := hb.on_setLanguage
    (P := fun loaded r => loaded.payload = .named ∧
      r = b.broker.registry.putCached shelvedKey loaded) fun s same => by
    obtain ⟨loaded, w, named, loads⟩ := 
      Registry.on_load_outside LanguageHandle.astray.name shelved (same ▸ engine)
        (same ▸ available) (same ▸ absent)
    exact ⟨loaded, _, ⟨named, by rw [same]; rfl⟩, loads⟩
  have outside : IsOutside ⟨b.parser, b.broker.registry.putCached shelvedKey loaded, w⟩ :=
    ⟨hb.backend, hb.form, hb.explicit⟩
  obtain ⟨e, refused⟩ := outside.on_assign_named named
  exact ⟨e, loaded, w, named, hon.trans refused⟩

/-- **A call that finds the language in the cache** fails again, whatever is installed now. -/
theorem IsOutside.setLanguage_again (hb : b.IsOutside) {i : Installed} {loaded : LanguageHandle}
    (engine : b.broker.registry.engine? Broker.alpha = some i)
    (available : b.broker.registry.isAvailable Broker.alpha = true)
    (cached : b.broker.registry.cached? shelvedKey = some loaded)
    (named : loaded.payload = .named) :
    ((Parser.setLanguage .astray).on b).2.parser = b.parser := by
  obtain ⟨found, t, rfl, hon⟩ := hb.on_setLanguage (P := fun found _ => found = loaded)
    fun s same => by
      obtain ⟨w, hit⟩ := Registry.fetch_of_some (same ▸ cached : s.registry.cached? shelvedKey = _)
      exact ⟨loaded, _, rfl,
        (Registry.on_load_of_ready (same ▸ engine) (same ▸ available)).trans (hit _)⟩
  have outside : IsOutside ⟨b.parser, t⟩ := ⟨hb.backend, hb.form, hb.explicit⟩
  obtain ⟨e, refused⟩ := outside.on_assign_named named
  rw [hon, refused]

/-- **A call that succeeds**, since the engine that is installed now puts a native language on
what it loads. -/
theorem IsOutside.setLanguage_taken (hb : b.IsOutside) {e : ForeignEngine}
    {language : NativeLanguage} {memory : List RawLanguage}
    (native : b.parser.native = .foreign e memory)
    (takes : e.setLanguage memory (.native language) = (.ok (), memory ++ [.native language]))
    (engine : b.broker.registry.engine? Broker.alpha =
      some (.ofEngine (.foreign (.outside (.native language)))))
    (available : b.broker.registry.isAvailable Broker.alpha = true)
    (absent : b.broker.registry.cached? shelvedKey = none) :
    ∃ loaded, ((Parser.setLanguage .astray).on b).2.parser =
      { b.parser with native := .foreign e (memory ++ [.native language]),
                      language := some loaded } := by
  obtain ⟨loaded, t, payload, hon⟩ := hb.on_setLanguage
    (P := fun loaded _ => loaded.payload = .native language) fun s same => by
      obtain ⟨loaded, w, payload, loads⟩ := 
        Registry.on_load_outside LanguageHandle.astray.name shelved (same ▸ engine)
          (same ▸ available) (same ▸ absent)
      exact ⟨loaded, _, payload, loads⟩
  have unwrapped : loaded.unwrap b.parser.active.engine.form = .ok (.native language) := by
    unfold LanguageHandle.unwrap
    rw [hb.form, payload]
  refine ⟨loaded, ?_⟩
  rw [hon, Parser.on_assign_of_ok (b := ⟨b.parser, t⟩) unwrapped, on_bind, on_inNative, native,
    NativeParser.on_setLanguage_foreign, takes]
  rfl

/-- A parser that a caller has made for the first engine that was installed. -/
def firstOf (e : ForeignEngine) : Bench where
  parser := { active := .ofEngine (.foreign e), native := .foreign e [], explicit := true }
  broker := ((Parser.withBackend e.kind).on
    (Broker.run ⟨.empty default, default⟩ [.registerBackend (.foreign e)])).2

theorem reachable_firstOf {e : ForeignEngine}
    (made : ((Parser.withBackend e.kind).on
      (Broker.run ⟨.empty default, default⟩ [.registerBackend (.foreign e)])).1 =
        .ok (firstOf e).parser) : (firstOf e).Reachable .free :=
  .built (.withBackend e.kind)
    (.step (.registerBackend (.foreign e)) trivial (.empty default default)) (Prod.ext made rfl)

/-- A parser of the engine whose languages its parsers do not take. -/
def atUseless : Bench := firstOf (.outside .named)

theorem reachable_atUseless : atUseless.Reachable .free := reachable_firstOf rfl

theorem isOutside_atUseless : atUseless.IsOutside := ⟨rfl, rfl, rfl⟩

end Bench

/-! ## What can be told of a call that failed -/

/-- **What a language that is not taken leaves.** Whatever the parser, the registry and the
language: if a parser is not given a language, it is the parser that it was, but for what a
foreign native parser remembers of what it refuses. If its native parser stands by what it
has, there are two cases. If the registry is what it was as well, then after any moves every
parse answers as it would have done without the failed call. Otherwise the call left a
language behind, and every parse answers as it would have done for as long as the native
parser is handed the same whenever the parser loads a library again. And on its own this
library is always in the first case. -/
theorem Parser.setLanguage_error_leaves {b b' : Bench} {h : LanguageHandle} {e : Error}
    (failed : (Parser.setLanguage h).on b = (.error e, b')) :
    b.parser.Refusal b'.parser ∧
    (b.parser.native.IsSteadfast →
      b'.parser = b.parser ∧
      (b'.broker.registry = b.broker.registry →
        ∀ later, (b.run later).SameAnswers (b'.run later)) ∧
      (b'.broker.registry ≠ b.broker.registry →
        (∃ path symbol loaded, b.LeavesBehind h b' path symbol loaded) ∧
        ∀ later, b.HandedAlike b' later → (b.run later).SameAnswers (b'.run later))) ∧
    (b.Reachable .own → b'.parser = b.parser ∧ b'.broker.registry = b.broker.registry ∧
      ∀ later, (b.run later).SameAnswers (b'.run later)) := by
  have refusal := setLanguage_error failed
  have broker := Bench.broker_of_setLanguage_error failed
  have unchanged (steadfast : b.parser.native.IsSteadfast) : b'.parser = b.parser :=
    refusal.eq_of_isSteadfast steadfast
  -- in the first case the brokers are alike
  have invisible (same : b'.parser = b.parser)
      (registry : b'.broker.registry = b.broker.registry) (later : List Move) :
      (b.run later).SameAnswers (b'.run later) := by
    have alike : b.broker.Alike b'.broker := by
      obtain alike | ⟨path, symbol, loaded, left⟩ := broker
      · exact alike
      · exact absurd registry left.registry_ne
    have like : b.Like True b' := ⟨same ▸ .refl b.parser, alike.sameTables, fun _ => alike⟩
    exact Bench.sameAnswers_of_alike (like.run (.inl trivial)).parser
  refine ⟨refusal, fun steadfast => ⟨unchanged steadfast, invisible (unchanged steadfast),
    fun changed => ?_⟩, fun reached => ?_⟩
  · obtain alike | ⟨path, symbol, loaded, left⟩ := broker
    · exact absurd alike.1 changed
    refine ⟨⟨path, symbol, loaded, left⟩, fun later stays => ?_⟩
    have like : b.Like False b' :=
      ⟨unchanged steadfast ▸ .refl b.parser, left.sameTables, False.elim⟩
    exact Bench.sameAnswers_of_alike (like.run (.inr stays)).parser
  · have same := unchanged (NativeParser.isSteadfast_of_form? reached.consistent.form)
    have registry : b'.broker.registry = b.broker.registry := by
      obtain alike | ⟨path, symbol, loaded, left⟩ := broker
      · exact alike.1
      · exact absurd left reached.not_leavesBehind
    exact ⟨same, registry, invisible same registry⟩

/-- The parser holds a language when the call fails late. Then the cache is cleared and the
call is made again, and the parser parses as if the first one had not been made. -/
theorem Parser.setLanguage_error_leaves_late :
    ∃ (b b' : Bench) (e : Error), b.Reachable .free ∧ b.parser.language.isSome = true ∧
      (Parser.setLanguage .astray).on b = (.error e, b') ∧
      b'.broker.registry ≠ b.broker.registry ∧ b'.parser = b.parser ∧
      (b.run [.operate .clearCache, .setLanguage .astray]).SameAnswers
        (b'.run [.operate .clearCache, .setLanguage .astray]) := by
  let own : LanguageHandle := { LanguageHandle.stray with payload := .native .rust }
  let b : Bench := (Move.setLanguage own).after .atUseless
  have reached : b.Reachable .free := Bench.reachable_atUseless.move (.setLanguage own) trivial
  obtain ⟨e, loaded, w, -, late⟩ :=
    Bench.IsOutside.setLanguage_late (b := b) ⟨rfl, rfl, rfl⟩ rfl rfl rfl
  let b' : Bench := ⟨b.parser, b.broker.registry.putCached Bench.shelvedKey loaded, w⟩
  obtain ⟨-, inert, -⟩ := setLanguage_error_leaves late
  have steadfast : b.parser.native.IsSteadfast := NativeParser.isSteadfast_outside .named _
  obtain ⟨same, -, changed⟩ := inert steadfast
  have other : b.broker.registry.putCached Bench.shelvedKey loaded ≠ b.broker.registry :=
    Registry.putCached_ne _ _ _
  obtain ⟨⟨path, symbol, behind, left⟩, answers⟩ := changed other
  have like : b.Like False b' := ⟨.refl b.parser, left.sameTables, False.elim⟩
  have cleared := like.after (m := .operate .clearCache) (.inr nofun)
  refine ⟨b, b', e, reached, rfl, late, other, same, answers _ (.cons nofun (.cons ?_ .nil))⟩
  intro h path symbol same reloads
  cases same
  -- the caches hold the same, which is nothing
  exact cleared.handed_eq_of_cached nofun rfl

/-- **A failed call that makes a difference.** A native parser may stand by what it has, and
the library is loaded again, the language is not taken, and it stays in the cache. Then
another engine is installed in the place of the first, and the call is made again. It finds
the language in the cache and fails once more, where it would have succeeded; and there is
nothing to parse with, where there would have been. Or the registry is what it was, but a
foreign native parser remembers what it refuses, and can parse no longer. -/
theorem Parser.setLanguage_error_lingers :
    (∃ (b b' : Bench) (e : Error), b.Reachable .free ∧ b.parser.native.IsSteadfast ∧
      (Parser.setLanguage .astray).on b = (.error e, b') ∧
      ∃ later source, (b'.run later).answer source ≠ (b.run later).answer source) ∧
    ∃ (b b' : Bench) (h : LanguageHandle) (e : Error), b.Reachable .free ∧
      (Parser.setLanguage h).on b = (.error e, b') ∧
      b'.broker.registry = b.broker.registry ∧ b'.answer "x = 1" ≠ b.answer "x = 1" := by
  constructor
  · obtain ⟨e, loaded, w, named, late⟩ := Bench.isOutside_atUseless.setLanguage_late rfl rfl rfl
    have steadfast : Bench.atUseless.parser.native.IsSteadfast :=
      NativeParser.isSteadfast_outside .named []
    refine ⟨Bench.atUseless, _, e, Bench.reachable_atUseless, steadfast, late,
      [.operate (.registerBackend (.foreign (.outside (.native .rust)))), .setLanguage .astray],
      "x = 1", ?_⟩
    -- the benches after the other engine is installed
    let without := (Move.operate (.registerBackend (.foreign (.outside (.native .rust))))).after
      Bench.atUseless
    let within := (Move.operate (.registerBackend (.foreign (.outside (.native .rust))))).after
      ⟨Bench.atUseless.parser, Bench.atUseless.broker.registry.putCached Bench.shelvedKey loaded, w⟩
    obtain ⟨taken, succeeds⟩ := Bench.IsOutside.setLanguage_taken (b := without)
      ⟨rfl, rfl, rfl⟩ (rfl : without.parser.native = .foreign _ []) rfl rfl rfl rfl
    have cached : within.broker.registry.cached? Bench.shelvedKey = some loaded := by
      show (Bench.atUseless.broker.registry.putCached _ loaded).cached? _ = _
      rw [Registry.cached?_putCached, if_pos rfl]
      rfl
    have fails : ((Parser.setLanguage .astray).on within).2.parser = within.parser :=
      Bench.IsOutside.setLanguage_again (i := .ofEngine (.foreign (.outside (.native .rust))))
        ⟨rfl, rfl, rfl⟩ rfl rfl cached named
    show ((((Parser.setLanguage .astray).on within).2.parser.parse "x = 1").on _).1.map _ ≠
      ((((Parser.setLanguage .astray).on without).2.parser.parse "x = 1").on _).1.map _
    rw [fails, succeeds]
    exact nofun
  · let own : LanguageHandle := { LanguageHandle.stray with payload := .native .rust }
    have reached : (Bench.firstOf .fickle).Reachable .free := Bench.reachable_firstOf rfl
    exact ⟨_, _, own, _, reached.move (.setLanguage own) trivial, rfl, rfl, nofun⟩

end TreeBroker
