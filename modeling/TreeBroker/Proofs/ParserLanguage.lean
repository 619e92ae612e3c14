import TreeBroker.Proofs.ParserRuns

/-!
# A parser and the language it reports

A parser says which language it was given, and the native parser inside it holds
one. The two are kept in different places and changed at different moments: a
native parser may take a language before the parser says so, a new one may be
made and thrown away, and a language may come out of the cache of the registry
instead of the caller's hands. Nevertheless they never differ.

The result is about the library on its own, where every engine is one of
this library, with stubs stacked in front of it to any depth. Wherever a run
leads, the language that a parser reports is of the parser's own backend and is
what the native parser holds (`Bench.Consistent`). So a parse complains about a
missing language exactly when none is reported, and no complaint of the native
parser ever comes through.

What a parse answers besides is a tree *up to its identity*, since trees are numbered
objects. Up to that number it depends on the parser alone (`Parser.parseAgain_steady`).
-/

namespace TreeBroker

open TreeBroker.Action

/-! ## The language is held -/

/-- **A parser holds what it reports.** -/
def Parser.HoldsLanguage (p : Parser) : Prop :=
  ∀ h, p.language = some h → h.backend = p.backend ∧
    ∃ raw, h.unwrap p.active.engine.form = .ok raw ∧ p.native.held? = some raw

/-- **A consistent bench** of the library on its own. -/
structure Bench.Consistent (b : Bench) : Prop where
  /-- The registry is sound. -/
  sound : b.broker.registry.Sound .own
  /-- The parser's engine is one of this library. -/
  builtIn : b.parser.active.engine.IsBuiltIn
  /-- The native parser takes the form of the engine. -/
  form : b.parser.native.form? = some b.parser.active.engine.form
  /-- The native parser holds the language that the parser reports. -/
  holds : b.parser.HoldsLanguage

namespace Parser

variable {i : Installed} {native native' : NativeParser} {h : LanguageHandle}

/-- A native parser that takes a language holds it, in the form of its engine. -/
theorem Takes.held (ht : Takes i native h native') (hf : native.form? = some i.engine.form) :
    native'.form? = some i.engine.form ∧
      ∃ raw, h.unwrap i.engine.form = .ok raw ∧ native'.held? = some raw := by
  obtain ⟨raw, w, w', hraw, hset⟩ := ht
  obtain ⟨hform, hheld⟩ := NativeParser.given_ok hf hset
  exact ⟨hform, raw, hraw, hheld⟩

/-- A parser that took its language with the native parser holds it. -/
theorem holdsLanguage_of_takes {p : Parser} (ht : Takes p.active native h p.native)
    (hf : native.form? = some p.active.engine.form) (hl : p.language = some h)
    (hk : h.backend = p.backend) : p.HoldsLanguage := by
  intro h' hl'
  rw [hl] at hl'
  cases hl'
  exact ⟨hk, (ht.held hf).2⟩

end Parser

namespace Bench

/-- A fresh parser reports no language. -/
theorem consistent_of_fresh {p : Parser} {s : Broker} (hs : s.registry.Sound .own)
    (hp : p.Fresh s.registry) : Consistent ⟨p, s⟩ where
  sound := hs
  builtIn := (hs.engine hp.installed).2
  form := by
    obtain ⟨w, w', hmade⟩ := hp.made
    exact (Engine.newParser_ok (hs.engine hp.installed).2 hmade).1
  holds := by
    intro h hl
    rw [hp.silent] at hl
    cases hl

/-- **Each of the three ways to a language keeps a bench consistent.** -/
theorem Consistent.given {b : Bench} (hb : b.Consistent) {h : LanguageHandle} {p : Parser}
    (hg : Parser.Given b h p) {s : Broker} (hs : s.registry.Sound .own) : Consistent ⟨p, s⟩ := by
  cases hg with
  | assigned own takes =>
    exact ⟨hs, hb.builtIn, (takes.held hb.form).1,
      Parser.holdsLanguage_of_takes takes hb.form rfl own⟩
  | @moved i fresh native w w' target made takes =>
    obtain ⟨-, hi, -⟩ := Parser.target?_eq_some target
    have built := (hb.sound.engine hi).2
    have hform := (Engine.newParser_ok built made).1
    exact ⟨hs, built, (takes.held hform).1,
      Parser.holdsLanguage_of_takes takes hform rfl (Registry.kind_of_engine? hi).symm⟩
  | @reloaded path symbol loaded t t' native same loads takes =>
    -- the language may come out of the cache, which the registry filled by its own loads
    have own : loaded.backend = b.parser.backend :=
      Registry.load_backend Regime.signed_own (same ▸ hb.sound) loads
    exact ⟨hs, hb.builtIn, (takes.held hb.form).1,
      Parser.holdsLanguage_of_takes takes hb.form rfl own⟩

/-- **Every move keeps a bench consistent.** -/
theorem Consistent.after {b : Bench} (hb : b.Consistent) {m : Move} (may : m.May .own) :
    (m.after b).Consistent := by
  have hs : (m.after b).broker.registry.Sound .own :=
    Registry.Evolves.sound (m.evolves may b) hb.sound
  rcases m.after_cases b with hrefusal | ⟨h, -, hg⟩
  · -- a native parser of this library that refuses a language is what it was
    have hsame := hrefusal.eq_of_form? hb.form
    refine ⟨hs, ?_, ?_, ?_⟩
    · rw [hsame]
      exact hb.builtIn
    · rw [hsame]
      exact hb.form
    · rw [hsame]
      exact hb.holds
  · exact hb.given hg hs

/-- **Every run leads to a consistent bench.** -/
theorem Reachable.consistent {b : Bench} (h : b.Reachable .own) : b.Consistent :=
  h.invariant (fun _ _ hs hp => consistent_of_fresh hs hp) fun _ _ may hb => hb.after may

end Bench

/-! ## What a parse complains about -/

namespace Parser

/-- **What the native parser is asked for.** -/
def ask (p : Parser) (old : Option Tree) (source : String) : Action World NativeTree :=
  match p.usable? old with
  | some t => p.native.reparse t.native source
  | none => p.native.parse source

/-- Parsing is parsing again without an old tree. -/
theorem parse_eq_parseAgain (p : Parser) (source : String) :
    p.parse source = p.parseAgain none source := rfl

/-- **What a parse answers**: that there is no language, or else what the native
parser answers, with all that belongs to a tree. -/
theorem on_parseAgain (p : Parser) (old : Option Tree) (source : String) (w : World) :
    (p.parseAgain old source).on w =
      match p.language with
      | none => (.error (.configuration .noLanguage), w)
      | some _ => (((p.ask old source).on w).1.map (p.wrap source),
          ((p.ask old source).on w).2) := by
  have hdo : p.parseAgain old source =
      (do p.requireLanguage; return p.wrap source (← p.ask old source)) := by
    unfold parseAgain ask
    cases p.usable? old <;> rfl
  rw [hdo]
  unfold requireLanguage
  cases p.language with
  | none => rfl
  | some h =>
    show (do return p.wrap source (← p.ask old source) : Action World Tree).on w = _
    rw [on_bind]
    rcases (p.ask old source).on w with ⟨e | t, w'⟩ <;> rfl

/-- A native parser that holds a language does not complain about how it is asked. -/
theorem ask_ne_configuration {p : Parser} {raw : RawLanguage} (hp : p.native.held? = some raw)
    (old : Option Tree) (source : String) (w : World) (m : Misuse) :
    ((p.ask old source).on w).1 ≠ .error (.configuration m) := by
  unfold ask
  cases p.usable? old with
  | none => exact NativeParser.parse_ne_configuration hp source w m
  | some t => exact NativeParser.reparse_ne_configuration hp t.native source w m

/-- **A parse complains about its use** only if the parser reports no language,
and then only about that. -/
theorem parseAgain_eq_misuse_iff {p : Parser} (hp : p.HoldsLanguage) (old : Option Tree)
    (source : String) (w : World) (m : Misuse) :
    ((p.parseAgain old source).on w).1 = .error (.configuration m) ↔
      m = .noLanguage ∧ p.language = none := by
  rw [on_parseAgain]
  cases hl : p.language with
  | none =>
    constructor
    · intro h
      cases h
      exact ⟨rfl, rfl⟩
    · rintro ⟨rfl, -⟩
      rfl
  | some h =>
    obtain ⟨-, raw, -, hheld⟩ := hp h hl
    refine ⟨fun he => ?_, fun he => nomatch he.2⟩
    -- the complaint would be the native parser's, which holds a language
    have hne := ask_ne_configuration hheld old source w m
    rcases hask : (p.ask old source).on w with ⟨e | t, w'⟩
    · rw [hask] at he hne
      cases he
      exact absurd rfl hne
    · rw [hask] at he
      cases he

end Parser

/-- **A parser holds the language that it reports.** Wherever a run of the library
on its own leads, the reported language is of the parser's backend and the native
parser holds it, in the form of that backend. A parse then complains about its
use exactly when no language is reported, and in no other words than the
parser's own: neither a native parser without a language nor an engine without a
grammar is ever heard of. -/
theorem Bench.Reachable.language_held {b : Bench} (h : b.Reachable .own) :
    (∀ l, b.parser.language = some l → l.backend = b.parser.backend ∧
      ∃ raw, l.unwrap b.parser.active.engine.form = .ok raw ∧
        b.parser.native.held? = some raw) ∧
    ∀ source w m,
      (((b.parser.parse source).on w).1 = .error (.configuration m) ↔
        m = .noLanguage ∧ b.parser.language = none) ∧
      ∀ old, ((b.parser.parseAgain old source).on w).1 = .error (.configuration m) ↔
        m = .noLanguage ∧ b.parser.language = none := by
  have holds := h.consistent.holds
  refine ⟨holds, fun source w m => ⟨?_, fun old => ?_⟩⟩
  · rw [Parser.parse_eq_parseAgain]
    exact Parser.parseAgain_eq_misuse_iff holds none source w m
  · exact Parser.parseAgain_eq_misuse_iff holds old source w m

/-- An automatic parser moves to the engine of grammars and holds what it is
given there. -/
theorem Bench.Reachable.language_held_assignment :
    ∃ b : Bench, b.Reachable .own ∧ b.parser.language = some Assignment.language ∧
      ∃ raw, Assignment.language.unwrap b.parser.active.engine.form = .ok raw ∧
        b.parser.native.held? = some raw := by
  have made : Bench.Reachable .own ⟨_, _⟩ :=
    .built .new (.withDefaults trivial trivial default default) rfl
  have moved := made.move (.setLanguage Assignment.language) trivial
  exact ⟨_, moved, rfl, (moved.language_held.1 Assignment.language rfl).2⟩

/-! ## What a parse answers -/

/-- A native tree without its number. -/
def NativeTree.anonymous : NativeTree → NativeTree
  | linked _ tree => linked 0 tree
  | grammar _ arena => grammar 0 arena
  | foreign _ tree => foreign 0 tree

/-- **A tree up to its identity.** -/
def Tree.anonymous (t : Tree) : Tree := { t with native := t.native.anonymous }

/-- What a foreign engine answers does not depend on the world. -/
theorem answered_steady (outcome : Except String ForeignTree) (w w' : World) :
    ((answered outcome).on w).1.map NativeTree.anonymous =
      ((answered outcome).on w').1.map NativeTree.anonymous := by
  cases outcome <;> rfl

namespace NativeParser

theorem run_steady (l? : Option NativeLanguage) (old : Option LinkedTree) (source : String)
    (w w' : World) :
    ((run l? old source).on w).1.map NativeTree.anonymous =
      ((run l? old source).on w').1.map NativeTree.anonymous := by
  cases l? with
  | none => rfl
  | some l =>
    rw [run]
    cases l.parse old source <;> rfl

/-- **What a native parser answers does not depend on the world**, up to the
number of the tree. -/
theorem parse_steady (p : NativeParser) (source : String) (w w' : World) :
    ((p.parse source).on w).1.map NativeTree.anonymous =
      ((p.parse source).on w').1.map NativeTree.anonymous := by
  cases p with
  | linked l? => exact run_steady l? none source w w'
  | grammar g? =>
    cases g? with
    | none => rfl
    | some g =>
      rw [parse]
      cases g.parse source <;> rfl
  | foreign e memory => exact answered_steady (e.parse memory source) _ _

theorem reparse_steady (p : NativeParser) (old : NativeTree) (source : String) (w w' : World) :
    ((p.reparse old source).on w).1.map NativeTree.anonymous =
      ((p.reparse old source).on w').1.map NativeTree.anonymous := by
  cases p with
  | linked l? => exact run_steady l? old.linked? source w w'
  | grammar g? => exact parse_steady (.grammar g?) source w w'
  | foreign e memory => exact answered_steady (e.reparse memory old source) _ _

end NativeParser

/-- **What a parse answers does not depend on the world**, up to the identity of
the tree. -/
theorem Parser.parseAgain_steady (p : Parser) (old : Option Tree) (source : String)
    (w w' : World) :
    ((p.parseAgain old source).on w).1.map Tree.anonymous =
      ((p.parseAgain old source).on w').1.map Tree.anonymous := by
  have hask : ((p.ask old source).on w).1.map NativeTree.anonymous =
      ((p.ask old source).on w').1.map NativeTree.anonymous := by
    unfold ask
    cases p.usable? old with
    | some t => exact p.native.reparse_steady t.native source w w'
    | none => exact p.native.parse_steady source w w'
  -- what belongs to a tree besides the native one has no number
  have hwrap : ∀ x : Except Error NativeTree, (x.map (p.wrap source)).map Tree.anonymous =
      (x.map NativeTree.anonymous).map (p.wrap source) := by
    intro x
    cases x <;> rfl
  rw [on_parseAgain, on_parseAgain]
  cases p.language with
  | none => rfl
  | some h =>
    show (((p.ask old source).on w).1.map _).map _ = (((p.ask old source).on w').1.map _).map _
    rw [hwrap, hwrap, hask]

end TreeBroker
