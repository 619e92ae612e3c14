import TreeBroker.Proofs.ParserLanguage
import TreeBroker.Proofs.SideBySide

/-!
# Parsers side by side

The same moves are made at two benches, where the parsers are the same and the registries
differ in the cache at most. Can a parse tell them apart?

There is one place where a parser asks the cache for anything: it loads a library again, for a
language of another backend that it may not move to (`Bench.Reloads`). And there is one thing
that counts of what it gets, and that is what its native parser is handed (`Bench.handed`). As
long as that is the same, the parsers stay the same but for the language that they report
(`Parser.Alike`), and that plays no part in a parse. Whatever else is loaded beside them
makes no difference, even where it is loaded at one of the two only.

So a difference of the caches has to lie under the very key that a parser asks for
(`Bench.Like.handed_eq_of_cached`). The key alone does not say everything. A language that is
loaded anew is a new object, with a number that depends on what was loaded before. A parser
that takes the handle itself sees that; all others see what is in it.
-/

namespace TreeBroker

open TreeBroker.Action

/-! ## Parsers -/

/-- **Parsers that are alike**: they are the same but for which language they report. -/
def Parser.Alike (p p' : Parser) : Prop :=
  ∃ language, language.isSome = p.language.isSome ∧ p' = { p with language }

theorem Parser.Alike.refl (p : Parser) : p.Alike p := ⟨p.language, rfl, rfl⟩

/-- **Benches that are alike**: their parsers are, and their brokers are, or have the same
tables at least. -/
structure Bench.Like (exact : Prop) (b b' : Bench) : Prop where
  /-- The parsers. -/
  parser : b.parser.Alike b'.parser
  /-- The brokers. -/
  broker : b.broker.Like exact b'.broker

namespace Bench

variable {exact : Prop} {α : Type} {b b' : Bench} {h : LanguageHandle}

theorem respects_inBroker {act : Action Broker α} (h : Respects (Broker.Like exact) act) :
    Respects (Like exact) (inBroker act) := by
  intro b b' like
  obtain ⟨answer, left⟩ := h b.broker b'.broker like.broker
  exact ⟨answer, like.parser, left⟩

/-- The parsers are changed, each in its own way. -/
theorem Like.change (like : b.Like exact b') {f f' : Parser → Parser}
    (alike : ∀ p language, (f p).Alike (f' { p with language })) :
    ((Bench.change f).on b).2.Like exact ((Bench.change f').on b').2 := by
  obtain ⟨⟨language, -, same⟩, broker⟩ := like
  refine ⟨?_, broker⟩
  show (f b.parser).Alike (f' b'.parser)
  rw [same]
  exact alike b.parser language

/-- The native parser is given a language. -/
theorem respects_setLanguage (raw : RawLanguage) :
    Respects (Like exact) (inNative (NativeParser.setLanguage raw)) := by
  intro b b' like
  obtain ⟨x, native, quiet⟩ := b.parser.native.setLanguage_quiet raw
  obtain ⟨w, hw, alike⟩ := quiet b.broker.world
  obtain ⟨w', hw', alike'⟩ := quiet b'.broker.world
  obtain ⟨⟨language, given, same⟩, broker⟩ := like
  rw [on_inNative, on_inNative, same, hw, hw']
  exact ⟨rfl, ⟨language, given, rfl⟩, broker.worlds alike alike'⟩

end Bench

namespace Parser

open Bench

variable {exact : Prop} {b b' : Bench} {h h' : LanguageHandle}

/-- A language that cannot be had in the form that the parser needs changes nothing. -/
theorem on_assign_of_error {e : Error} (refused : h.unwrap b.parser.active.engine.form = .error e) :
    (assign h).on b = (.error e, b) := by
  rw [assign, on_bind_of_ok (on_get b)]
  dsimp only
  rw [refused]
  rfl

/-- Otherwise the native parser is given it. -/
theorem on_assign_of_ok {raw : RawLanguage}
    (unwrapped : h.unwrap b.parser.active.engine.form = .ok raw) :
    (assign h).on b = (inNative (NativeParser.setLanguage raw) >>= fun _ =>
      Bench.change fun p => { p with language := some h }).on b := by
  rw [assign, on_bind_of_ok (on_get b)]
  dsimp only
  rw [unwrapped]
  exact on_bind_of_ok (on_ofExcept _ b) _

/-- Parsers that are given languages stay alike if their native parsers are handed the same. -/
theorem like_assign (like : b.Like exact b')
    (same : h'.unwrap b'.parser.active.engine.form = h.unwrap b.parser.active.engine.form) :
    ((assign h).on b).2.Like exact ((assign h').on b').2 := by
  cases unwrapped : h.unwrap b.parser.active.engine.form with
  | error e =>
    rw [on_assign_of_error unwrapped, on_assign_of_error (same.trans unwrapped)]
    exact like
  | ok raw =>
    rw [on_assign_of_ok unwrapped, on_assign_of_ok (same.trans unwrapped)]
    obtain ⟨answer, left⟩ := respects_setLanguage raw b b' like
    rcases hb : (inNative (NativeParser.setLanguage raw)).on b with ⟨x, c⟩
    rcases hb' : (inNative (NativeParser.setLanguage raw)).on b' with ⟨y, c'⟩
    rw [hb, hb'] at answer left
    obtain rfl : y = x := answer
    cases y with
    | error e =>
      rw [on_bind_of_error hb, on_bind_of_error hb']
      exact left
    | ok u =>
      rw [on_bind_of_ok hb, on_bind_of_ok hb']
      exact left.change fun p language => ⟨some h', rfl, rfl⟩

theorem like_moveTo (like : b.Like exact b') (i : Installed) (h : LanguageHandle) :
    ((moveTo i h).on b).2.Like exact ((moveTo i h).on b').2 := by
  have moves : Respects (Bench.Like exact) (moveTo i h) := by
    refine .get (fun b => ?_) fun b b' like => ?_
    · refine .bind (respects_inBroker (Broker.respects_inWorld_of_quiet i.engine.newParser_quiet))
        fun fresh => .bind (.ofExcept _) fun raw => ?_
      refine .bind (respects_inBroker (Broker.respects_inWorld_of_quiet (fresh.given_quiet raw)))
        fun native => .bind (respects_inBroker (Broker.respects_tell_like _)) fun _ => ?_
      exact fun b b' like => ⟨rfl, like.change fun p language => ⟨some h, rfl, rfl⟩⟩
    · obtain ⟨language, -, same⟩ := like.parser
      rw [same]
      rfl
  exact (moves b b' like).2

/-- Parsers that are alike parse alike. -/
theorem Alike.parseAgain_eq {p p' : Parser} (alike : p.Alike p') (old : Option Tree)
    (source : String) : p'.parseAgain old source = p.parseAgain old source := by
  obtain ⟨language, given, rfl⟩ := alike
  have requires : requireLanguage { p with language } = p.requireLanguage := by
    unfold requireLanguage
    cases hp : p.language with
    | none =>
      rw [hp, Option.isSome_none, Option.isSome_eq_false_iff, Option.isNone_iff_eq_none] at given
      rw [given]
    | some h =>
      rw [hp, Option.isSome_some, Option.isSome_iff_exists] at given
      obtain ⟨h', rfl⟩ := given
      rfl
  unfold parseAgain
  rw [requires]
  rfl

/-- A parse does what its native parser does. -/
theorem tame_parseAgain (p : Parser) (old : Option Tree) (source : String) :
    Tame World.Alike World.SameFiles (p.parseAgain old source) := by
  have requires : Tame World.Alike World.SameFiles p.requireLanguage := by
    unfold requireLanguage
    cases p.language with
    | none => exact .throw _
    | some h => exact .pure _
  unfold parseAgain
  cases p.usable? old with
  | none => exact .bind requires fun _ => .bind (p.native.tame_parse source) fun _ => .pure _
  | some t =>
    exact .bind requires fun _ => .bind (p.native.tame_reparse t.native source) fun _ => .pure _

end Parser

/-! ## Loading again -/

namespace Bench

variable {exact : Prop} {b b' : Bench} {h : LanguageHandle} {path : FilePath} {symbol : String}

/-- **A parser loads a library again** for a language of another backend that it may not
move to. -/
structure Reloads (b : Bench) (h : LanguageHandle) (path : FilePath) (symbol : String) :
    Prop where
  /-- The language is of another backend. -/
  other : h.backend ≠ b.parser.backend
  /-- The parser does not move there. -/
  nowhere : b.parser.target? b.broker.registry h = none
  /-- The language comes from the library. -/
  library : h.provenance = .library path symbol

/-- **What a native parser is handed** when a library is loaded again, or why it is not. -/
def handed (b : Bench) (h : LanguageHandle) (path : FilePath) (symbol : String) :
    Except Error RawLanguage :=
  ((Registry.loadLibrary b.parser.backend h.name path symbol).on b.broker).1.bind fun loaded =>
    loaded.unwrap b.parser.active.engine.form

theorem Like.target? (like : b.Like exact b') (h : LanguageHandle) :
    b'.parser.target? b'.broker.registry h = b.parser.target? b.broker.registry h := by
  obtain ⟨language, -, same⟩ := like.parser
  unfold Parser.target?
  rw [same, like.broker.engine?]
  simp only [like.broker.isAvailable]

/-- Where the brokers are alike as well, what is handed is the same. -/
theorem Like.handed_eq (like : b.Like exact b') (close : exact) (h : LanguageHandle)
    (path : FilePath) (symbol : String) : b'.handed h path symbol = b.handed h path symbol := by
  obtain ⟨language, -, same⟩ := like.parser
  have loads := (Registry.tame_loadLibrary b.parser.backend h.name path symbol).respects _ _
    (like.broker.alike close)
  unfold handed
  rw [same, ← loads.1]
  rfl

/-- A library is loaded again, and what is loaded is assigned. -/
def reload (b : Bench) (h : LanguageHandle) (path : FilePath) (symbol : String) : Bench :=
  ((inBroker (Registry.loadLibrary b.parser.backend h.name path symbol) >>= Parser.assign).on b).2

/-- The broker after the library is loaded again. -/
def reloadedBroker (b : Bench) (h : LanguageHandle) (path : FilePath) (symbol : String) : Broker :=
  ((Registry.loadLibrary b.parser.backend h.name path symbol).on b.broker).2

theorem reload_eq (b : Bench) (h : LanguageHandle) (path : FilePath) (symbol : String) :
    b.reload h path symbol =
      match ((Registry.loadLibrary b.parser.backend h.name path symbol).on b.broker).1 with
      | .error _ => { b with broker := b.reloadedBroker h path symbol }
      | .ok loaded =>
        ((Parser.assign loaded).on { b with broker := b.reloadedBroker h path symbol }).2 := by
  unfold reload
  rw [on_bind, on_inBroker]
  cases ((Registry.loadLibrary b.parser.backend h.name path symbol).on b.broker).1 <;> rfl

/-- Where nothing is handed to it the parser does not change. -/
theorem reload_of_error {e : Error} (nothing : b.handed h path symbol = .error e) :
    b.reload h path symbol = { b with broker := b.reloadedBroker h path symbol } := by
  unfold handed at nothing
  rw [reload_eq]
  cases loads : ((Registry.loadLibrary b.parser.backend h.name path symbol).on b.broker).1 with
  | error e' => rfl
  | ok loaded =>
    rw [loads] at nothing
    have refused := Parser.on_assign_of_error
      (b := { b with broker := b.reloadedBroker h path symbol }) nothing
    exact congrArg Prod.snd refused

theorem reload_of_ok {raw : RawLanguage} (something : b.handed h path symbol = .ok raw) :
    ∃ loaded, loaded.unwrap b.parser.active.engine.form = .ok raw ∧ b.reload h path symbol =
      ((Parser.assign loaded).on { b with broker := b.reloadedBroker h path symbol }).2 := by
  unfold handed at something
  rw [reload_eq]
  cases loads : ((Registry.loadLibrary b.parser.backend h.name path symbol).on b.broker).1 with
  | error e =>
    rw [loads] at something
    cases something
  | ok loaded =>
    rw [loads] at something
    exact ⟨loaded, something, rfl⟩

/-- **Parsers that load a library again** and are handed the same. -/
theorem Like.after_reload (like : b.Like exact b')
    (same : b'.handed h path symbol = b.handed h path symbol) :
    (b.reload h path symbol).Like exact (b'.reload h path symbol) := by
  have between : Like exact { b with broker := b.reloadedBroker h path symbol }
      { b' with broker := b'.reloadedBroker h path symbol } := by
    refine ⟨like.parser, ?_⟩
    obtain ⟨language, -, alike⟩ := like.parser
    unfold reloadedBroker
    rw [alike]
    exact like.broker.of_tame (Registry.tame_loadLibrary _ _ _ _)
  cases handed : b.handed h path symbol with
  | error e =>
    rw [reload_of_error handed, reload_of_error (same.trans handed)]
    exact between
  | ok raw =>
    obtain ⟨loaded, unwrapped, hb⟩ := reload_of_ok handed
    obtain ⟨loaded', unwrapped', hb'⟩ := reload_of_ok (same.trans handed)
    rw [hb, hb']
    exact Parser.like_assign between (unwrapped'.trans unwrapped.symm)

/-- What was told before makes no difference to what is handed. -/
theorem handed_told (b : Bench) (events : List Event) (h : LanguageHandle) (path : FilePath)
    (symbol : String) :
    handed { b with broker := b.broker.told events } h path symbol = b.handed h path symbol := by
  have alike := b.broker.alike_told events
  have like : b.Like True { b with broker := b.broker.told events } :=
    ⟨.refl b.parser, alike.sameTables, fun _ => alike⟩
  exact like.handed_eq trivial h path symbol

end Bench

/-! ## Loads up to the handle -/

/-- **A handle up to its identity.** -/
def LanguageHandle.anonymous (h : LanguageHandle) : LanguageHandle := { h with identity := 0 }

/-- Only a parser that takes the handle itself sees which handle it is. -/
theorem LanguageHandle.unwrap_anonymous {form : Form} (blind : form ≠ .handle)
    (h : LanguageHandle) : h.anonymous.unwrap form = h.unwrap form := by
  obtain ⟨identity, name, backend, provenance, payload⟩ := h
  cases form with
  | handle => exact absurd rfl blind
  | name => rfl
  | native => cases payload <;> rfl
  | grammar => cases payload <;> rfl

/-- **What an engine loads** depends on the files alone, up to the handle. -/
theorem Engine.load_steady (e : Engine) (n : LanguageName) (reg : Registration) {w w' : World}
    (same : w.SameFiles w') : ((e.load n reg).on w').1.map LanguageHandle.anonymous =
      ((e.load n reg).on w).1.map LanguageHandle.anonymous := by
  have files : w'.files = w.files := same
  induction e with
  | linked ss =>
    cases reg with
    | grammar g i => rfl
    | library path symbol =>
      rw [load_library_eq, on_bind_of_ok (on_get w), on_bind_of_ok (on_get w'), files]
      cases behind ss n path symbol w.files <;> rfl
  | grammar k => cases reg <;> rfl
  | stub k inner c m a f ih =>
    rw [load]
    rcases hx : (inner.load n reg).on w with ⟨x, v⟩
    rcases hy : (inner.load n reg).on w' with ⟨y, v'⟩
    rw [hx, hy] at ih
    cases x with
    | error e =>
      cases y with
      | error e' =>
        rw [on_bind_of_error hx, on_bind_of_error hy]
        exact ih
      | ok l' => cases ih
    | ok l =>
      cases y with
      | error e' => cases ih
      | ok l' =>
        have same : l'.anonymous = l.anonymous := Except.ok.inj ih
        rw [on_bind_of_ok hx, on_bind_of_ok hy]
        -- a stub keeps the name, the provenance and the payload
        exact congrArg (fun l : LanguageHandle => Except.ok { l with backend := k }) same
  | foreign f =>
    have recorded (call : String) (v : World) :
        (World.recordCall call).on v = (.ok (), { v with calls := v.calls ++ [call] }) := rfl
    rw [load, on_bind_of_ok (recorded _ w), on_bind_of_ok (recorded _ w'),
      on_bind_of_ok (on_get _), on_bind_of_ok (on_get _)]
    dsimp only
    rw [files]
    cases f.load w.files n reg <;> rfl

namespace Registry

variable {s t : Broker} {k : BackendKind} {n : LanguageName} {reg : Registration}

theorem respects_ready_like {exact : Prop} (k : BackendKind) :
    Respects (Broker.Like exact) (ready k) := by
  refine Broker.respects_registryNow_bind (fun r => ?_) fun r => rfl
  split
  · exact .throw _
  · split
    · exact .pure _
    · exact .throw _

/-- What is not in the cache is what the engine loads. -/
theorem answer_fetch_of_none {key : CacheKey} (absent : s.registry.cached? key = none)
    (act : Action World LanguageHandle) :
    ((fetch key (Broker.inWorld act)).on s).1 = (act.on s.world).1 := by
  rw [fetch_of_none absent]
  rcases hact : act.on s.world with ⟨x, w⟩
  have computes : (Broker.inWorld act).on s = (x, { s with world := w }) := by
    rw [Broker.on_inWorld, hact]
  cases x with
  | error e => rw [on_bind_of_error computes]
  | ok l => rw [on_bind_of_ok computes, insertIfAbsent_of_none (s := { s with world := w }) absent]

/-- **What a load gives** depends on what the cache holds under its key, and on the tables. -/
theorem load_steady (tables : s.SameTables t)
    (cached : (t.registry.cached? (reg.cacheKey k n)).map LanguageHandle.anonymous =
      (s.registry.cached? (reg.cacheKey k n)).map LanguageHandle.anonymous) :
    ((load k n reg).on t).1.map LanguageHandle.anonymous =
      ((load k n reg).on s).1.map LanguageHandle.anonymous := by
  have like : s.Like False t := ⟨tables, False.elim⟩
  obtain ⟨answer, -⟩ := respects_ready_like k s t like
  have stays := ready_state k s
  have stays' := ready_state k t
  rcases hs : (ready k).on s with ⟨x, s'⟩
  rcases ht : (ready k).on t with ⟨y, t'⟩
  rw [hs] at answer stays
  rw [ht] at answer stays'
  obtain rfl : y = x := answer
  obtain rfl : s' = s := stays
  obtain rfl : t' = t := stays'
  rw [load]
  cases y with
  | error e => rw [on_bind_of_error hs, on_bind_of_error ht]
  | ok i =>
    rw [on_bind_of_ok hs, on_bind_of_ok ht]
    cases hc : s'.registry.cached? (reg.cacheKey k n) with
    | some l =>
      rw [hc] at cached
      obtain ⟨l', hc', same⟩ := Option.map_eq_some_iff.mp cached
      obtain ⟨w, found⟩ := fetch_of_some hc
      obtain ⟨w', found'⟩ := fetch_of_some hc'
      rw [found, found']
      exact congrArg Except.ok same
    | none =>
      rw [hc] at cached
      have hc' := Option.map_eq_none_iff.mp cached
      rw [answer_fetch_of_none hc, answer_fetch_of_none hc']
      exact i.engine.load_steady n reg tables.files

end Registry

namespace Bench

variable {exact : Prop} {b b' : Bench} {h : LanguageHandle} {path : FilePath} {symbol : String}

/-- **Parsers are handed the same** where the caches hold the same under the key of the library,
unless they take the handle itself. -/
theorem Like.handed_eq_of_cached (like : b.Like exact b')
    (blind : b.parser.active.engine.form ≠ .handle)
    (cached : (b'.broker.registry.cached? (.library b.parser.backend path symbol h.name)).map
        LanguageHandle.anonymous =
      (b.broker.registry.cached? (.library b.parser.backend path symbol h.name)).map
        LanguageHandle.anonymous) : b'.handed h path symbol = b.handed h path symbol := by
  obtain ⟨language, -, same⟩ := like.parser
  have loads : ((Registry.loadLibrary b.parser.backend h.name path symbol).on b'.broker).1.map
        LanguageHandle.anonymous =
      ((Registry.loadLibrary b.parser.backend h.name path symbol).on b.broker).1.map
        LanguageHandle.anonymous := by
    rw [Registry.loadLibrary]
    cases checked : Registration.ofLibrary path (some symbol) with
    | error e => rfl
    | ok reg =>
      rw [on_bind_of_ok (on_ofExcept _ _), on_bind_of_ok (on_ofExcept _ _)]
      obtain rfl := (Registration.checked_ok checked).1
      exact Registry.load_steady like.broker.tables cached
  have unwraps (x : Except Error LanguageHandle) :
      (x.bind fun loaded => loaded.unwrap b.parser.active.engine.form) =
        (x.map LanguageHandle.anonymous).bind fun loaded =>
          loaded.unwrap b.parser.active.engine.form := by
    cases x with
    | error e => rfl
    | ok loaded => exact (loaded.unwrap_anonymous blind).symm
  unfold handed
  rw [same]
  show (((Registry.loadLibrary b.parser.backend h.name path symbol).on b'.broker).1.bind fun loaded =>
    loaded.unwrap b.parser.active.engine.form) = _
  rw [unwraps, loads, ← unwraps]

/-! ## Moves -/

/-- **Parsers that are given a language** stay alike, unless they load a library again and are
handed something else. -/
theorem Like.after_setLanguage (like : b.Like exact b')
    (stays : exact ∨ ∀ path symbol, b.Reloads h path symbol →
      b'.handed h path symbol = b.handed h path symbol) :
    ((Parser.setLanguage h).on b).2.Like exact ((Parser.setLanguage h).on b').2 := by
  have active : b'.parser.active = b.parser.active := by
    obtain ⟨language, -, same⟩ := like.parser
    rw [same]
  have backend : b'.parser.backend = b.parser.backend := congrArg Installed.kind active
  by_cases own : h.backend = b.parser.backend
  · rw [Parser.on_setLanguage_of_own own, Parser.on_setLanguage_of_own (own.trans backend.symm)]
    exact Parser.like_assign like (by rw [active])
  have own' : h.backend ≠ b'.parser.backend := by rwa [backend]
  cases target : b.parser.target? b.broker.registry h with
  | some i =>
    rw [Parser.on_setLanguage_of_target own target,
      Parser.on_setLanguage_of_target own' ((like.target? h).trans target)]
    exact Parser.like_moveTo like i h
  | none =>
    have target' := (like.target? h).trans target
    cases origin : h.provenance with
    | grammar g =>
      rw [Parser.on_setLanguage_of_grammar own target origin,
        Parser.on_setLanguage_of_grammar own' target' origin]
      exact like
    | library path symbol =>
      obtain ⟨event, hon⟩ := Parser.on_setLanguage_of_library own target origin
      obtain ⟨event', hon'⟩ := Parser.on_setLanguage_of_library own' target' origin
      have same : b'.handed h path symbol = b.handed h path symbol :=
        stays.elim (fun close => like.handed_eq close h path symbol) fun stays =>
          stays path symbol ⟨own, target, origin⟩
      have told : Like exact { b with broker := b.broker.told [event] }
          { b' with broker := b'.broker.told [event'] } :=
        ⟨like.parser, like.broker.told [event] [event']⟩
      rw [hon, hon']
      exact told.after_reload (by rw [handed_told, handed_told, same])

/-- **Parsers that parse** stay the same. -/
theorem Like.after_parseAgain (like : b.Like exact b') (old : Option Tree) (source : String) :
    ((Move.parseAgain old source).after b).Like exact ((Move.parseAgain old source).after b') := by
  have after (b : Bench) : (Move.parseAgain old source).after b =
      { b with broker := ((Broker.inWorld (b.parser.parseAgain old source)).on b.broker).2 } := by
    show ((get >>= _ : Action Bench Unit).on b).2 = _
    rw [on_bind_of_ok (on_get b), state_discard]
    rfl
  rw [after, after, like.parser.parseAgain_eq]
  obtain ⟨respects, moves⟩ := b.parser.tame_parseAgain old source
  exact ⟨like.parser, like.broker.of_tame
    ⟨Broker.respects_inWorld respects, fun s => ⟨rfl, moves s.world⟩⟩⟩

/-- **A move cannot tell benches apart** that are alike, unless it makes the parser load a
library again, and something else is handed to it. -/
theorem Like.after (like : b.Like exact b') {m : Move}
    (stays : exact ∨ ∀ h path symbol, m = .setLanguage h → b.Reloads h path symbol →
      b'.handed h path symbol = b.handed h path symbol) :
    (m.after b).Like exact (m.after b') := by
  cases m with
  | operate op => exact ⟨like.parser, Operation.after_like like.broker op⟩
  | setLanguage h =>
    exact like.after_setLanguage (stays.imp_right fun stays path symbol => stays h path symbol rfl)
  | parse source => exact like.after_parseAgain none source
  | parseAgain old source => exact like.after_parseAgain old source

/-- **Runs in which parsers are handed the same**, whenever a library is loaded again. -/
def HandedAlike (b b' : Bench) (ms : List Move) : Prop :=
  ∀ before h after path symbol, ms = before ++ .setLanguage h :: after →
    (b.run before).Reloads h path symbol →
      (b'.run before).handed h path symbol = (b.run before).handed h path symbol

theorem HandedAlike.nil : b.HandedAlike b' [] := by
  intro before h after path symbol split
  cases before <;> cases split

theorem HandedAlike.cons {m : Move} {ms : List Move}
    (first : ∀ h path symbol, m = .setLanguage h → b.Reloads h path symbol →
      b'.handed h path symbol = b.handed h path symbol)
    (stays : (m.after b).HandedAlike (m.after b') ms) : b.HandedAlike b' (m :: ms) := by
  intro before h after path symbol split
  cases before with
  | nil =>
    obtain ⟨rfl, -⟩ := List.cons.inj split
    exact first h path symbol rfl
  | cons m' before =>
    obtain ⟨rfl, rest⟩ := List.cons.inj split
    rw [run_cons, run_cons]
    exact stays before h after path symbol rest

theorem HandedAlike.tail {m : Move} {ms : List Move} (stays : b.HandedAlike b' (m :: ms)) :
    (m.after b).HandedAlike (m.after b') ms := by
  intro before h after path symbol split
  rw [← run_cons, ← run_cons]
  exact stays (m :: before) h after path symbol (congrArg (m :: ·) split)

/-- **Runs side by side**: benches that are alike stay so, as long as their parsers are handed
the same when they load libraries again – as they are where the brokers are alike. -/
theorem Like.run {ms : List Move} (like : b.Like exact b')
    (stays : exact ∨ b.HandedAlike b' ms) : (b.run ms).Like exact (b'.run ms) := by
  induction ms generalizing b b' with
  | nil => exact like
  | cons m ms ih =>
    refine ih (like.after (stays.imp_right fun stays h path symbol hm => ?_)) (stays.imp_right .tail)
    exact stays [] h ms path symbol (by rw [hm]; rfl)

/-! ## What is seen of them -/

/-- **What a parse at a bench answers**, up to the identity of the tree. -/
def answer (b : Bench) (source : String) : Except Error Tree :=
  ((b.parser.parse source).on b.broker.world).1.map Tree.anonymous

/-- What parsing again answers, up to the identity of the tree. -/
def answerAgain (b : Bench) (old : Option Tree) (source : String) : Except Error Tree :=
  ((b.parser.parseAgain old source).on b.broker.world).1.map Tree.anonymous

/-- **The same answers**: each parse, with an old tree or without, gives the same at both. -/
def SameAnswers (b b' : Bench) : Prop :=
  ∀ source, b'.answer source = b.answer source ∧
    ∀ old, b'.answerAgain old source = b.answerAgain old source

theorem sameAnswers_of_alike (alike : b.parser.Alike b'.parser) : b.SameAnswers b' := by
  have same (old : Option Tree) (source : String) :
      b'.answerAgain old source = b.answerAgain old source := by
    unfold answerAgain
    rw [alike.parseAgain_eq]
    exact b.parser.parseAgain_steady old source _ _
  exact fun source => ⟨same none source, fun old => same old source⟩

end Bench

end TreeBroker
