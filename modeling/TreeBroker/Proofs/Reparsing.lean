import TreeBroker.Proofs.ParserLanguage

/-!
# Parsing again

A parser that parses again may hand the old tree to its native parser. Two signs
decide, and nothing that is known of the tree itself: the backend declares that it has
a use for old trees, and the tree bears the backend's name. Without both the old tree
is not looked at, and for a foreign engine its own record shows which of the two was
asked of it.

Neither sign can be trusted. A stub declares what it likes, and it may bear the name of
another engine, so that a parser of grammars is handed trees of any make: of another
language, of another grammar, or of a native parser. Nothing comes of it. Behind a
stack of stubs over the engine of grammars there is always a native parser for
grammars, which holds the grammar of the language that the parser reports
(`Parser.ReadsGrammars`). What it answers is what that grammar makes of the source, and
the old tree has no say in it (`Bench.Reachable.reparse_invisible`).

A native language is another matter. What it makes of a source may depend on the old tree
that it is shown, and which one that is depends on the two signs and on one thing more: a
tree that a stub made under the name of the native backend is handed on, but it is no tree
of a native parser, and the language is shown none.
-/

namespace TreeBroker

open TreeBroker.Action

/-! ## Engines over grammars -/

namespace Engine

/-- **An engine over grammars**: the engine of grammars, behind any number of stubs. -/
def IsOverGrammars : Engine → Prop
  | grammar _ => True
  | stub _ inner .. => inner.IsOverGrammars
  | _ => False

/-- Stubs declare what they like, but the form of a language is that of the engine
behind them. -/
theorem IsOverGrammars.form_eq {e : Engine} (hover : e.IsOverGrammars) : e.form = .grammar := by
  induction e with
  | grammar k => rfl
  | stub k inner c m a f ih => exact ih hover
  | linked ss => exact hover.elim
  | foreign f => exact hover.elim

theorem IsOverGrammars.isBuiltIn {e : Engine} (hover : e.IsOverGrammars) : e.IsBuiltIn := by
  induction e with
  | grammar k => trivial
  | stub k inner c m a f ih => exact ih hover
  | linked ss => trivial
  | foreign f => exact hover.elim

end Engine

/-- A language that is given as a grammar holds it. -/
theorem LanguageHandle.unwrap_grammar_ok {l : LanguageHandle} {raw : RawLanguage}
    (h : l.unwrap .grammar = .ok raw) : ∃ g, l.payload = .grammar g ∧ raw = .grammar g := by
  unfold unwrap at h
  cases hpayload : l.payload with
  | grammar g =>
    rw [hpayload] at h
    cases h
    exact ⟨g, rfl, rfl⟩
  | _ =>
    rw [hpayload] at h
    cases h

theorem NativeParser.eq_grammar_of_form? {p : NativeParser} (h : p.form? = some .grammar) :
    ∃ g?, p = .grammar g? := by
  cases p with
  | linked language => cases h
  | grammar g? => exact ⟨g?, rfl⟩
  | foreign e memory => cases h

namespace Parser

/-- **A parser over grammars reads grammars**: its native parser is one for grammars, and
holds the grammar of the language that the parser reports. -/
def ReadsGrammars (p : Parser) : Prop :=
  p.active.engine.IsOverGrammars →
    p.native.form? = some .grammar ∧
      ∀ l, p.language = some l → ∃ g, l.payload = .grammar g ∧ p.native = .grammar (some g)

/-- A native parser for grammars takes the grammar of a language. -/
theorem Takes.grammar {i : Installed} {native native' : NativeParser} {l : LanguageHandle}
    (ht : Takes i native l native') (hover : i.engine.IsOverGrammars)
    (hf : native.form? = some .grammar) :
    ∃ g, l.payload = .grammar g ∧ native' = .grammar (some g) := by
  obtain ⟨hform, raw, hraw, hheld⟩ := ht.held (hf.trans (congrArg some hover.form_eq.symm))
  rw [hover.form_eq] at hform hraw
  obtain ⟨g?, rfl⟩ := NativeParser.eq_grammar_of_form? hform
  obtain ⟨g, rfl, rfl⟩ := Option.map_eq_some_iff.mp hheld
  obtain ⟨g', hpayload, hraw'⟩ := LanguageHandle.unwrap_grammar_ok hraw
  cases hraw'
  exact ⟨g, hpayload, rfl⟩

theorem readsGrammars_of_takes {p : Parser} {native : NativeParser} {l : LanguageHandle}
    (ht : Takes p.active native l p.native)
    (hf : p.active.engine.IsOverGrammars → native.form? = some .grammar)
    (hl : p.language = some l) : p.ReadsGrammars := by
  intro hover
  obtain ⟨g, hpayload, hnative⟩ := ht.grammar hover (hf hover)
  refine ⟨by rw [hnative]; rfl, fun l' hl' => ?_⟩
  rw [hl] at hl'
  cases hl'
  exact ⟨g, hpayload, hnative⟩

/-- A new native parser of an engine over grammars is one for grammars. -/
theorem form?_of_newParser {i : Installed} {native : NativeParser} {w w' : World}
    (made : i.engine.newParser.on w = (.ok native, w')) (hover : i.engine.IsOverGrammars) :
    native.form? = some .grammar := by
  rw [(Engine.newParser_ok hover.isBuiltIn made).1, hover.form_eq]

theorem Fresh.readsGrammars {r : Registry} {p : Parser} (hp : p.Fresh r) : p.ReadsGrammars := by
  intro hover
  obtain ⟨w, w', hmade⟩ := hp.made
  refine ⟨form?_of_newParser hmade hover, fun l hl => ?_⟩
  rw [hp.silent] at hl
  cases hl

/-- **Each of the three ways to a language** leads to a parser that reads grammars, if it
is one over grammars. -/
theorem ReadsGrammars.given {b : Bench} (hb : b.parser.ReadsGrammars) {l : LanguageHandle}
    {p : Parser} (hg : Given b l p) : p.ReadsGrammars := by
  cases hg with
  | assigned own takes => exact readsGrammars_of_takes takes (fun hover => (hb hover).1) rfl
  | moved target made takes => exact readsGrammars_of_takes takes (form?_of_newParser made) rfl
  | reloaded same loads takes => exact readsGrammars_of_takes takes (fun hover => (hb hover).1) rfl

/-- **Every parser over grammars reads grammars**, in whatever company. -/
theorem readsGrammars_of_reachable {G : Regime} {b : Bench} (h : b.Reachable G) :
    b.parser.ReadsGrammars := by
  refine h.invariant (P := fun b => b.parser.ReadsGrammars)
    (fun p s _ hp => hp.readsGrammars) fun b m _ hb => ?_
  obtain hrefusal | ⟨l, -, hg⟩ := m.after_cases b
  · intro hover
    obtain ⟨native, -, hsame⟩ := id hrefusal
    have hactive : (m.after b).parser.active = b.parser.active := by rw [hsame]
    rw [hactive] at hover
    rw [hrefusal.eq_of_form? (hb hover).1]
    exact hb hover
  · exact hb.given hg

/-! ## What an old tree is good for -/

/-- **A parser hands an old tree on**: its backend has a use for old trees, and made this
one. -/
def HandsOn (p : Parser) (t : Tree) : Prop :=
  p.capabilities.incremental = true ∧ t.backend = p.backend

variable {p : Parser} {old : Option Tree}

theorem usable?_of_handsOn {t : Tree} (h : p.HandsOn t) : p.usable? (some t) = some t := by
  simp [usable?, h.1, h.2]

theorem usable?_eq_none (h : ∀ t ∈ old, ¬p.HandsOn t) : p.usable? old = none := by
  refine Option.filter_eq_none_iff.mpr fun t ht hand => h t ht ?_
  simpa [HandsOn] using hand

theorem ask_of_handsOn {t : Tree} (h : p.HandsOn t) (source : String) :
    p.ask (some t) source = p.native.reparse t.native source := by
  unfold ask
  rw [usable?_of_handsOn h]

theorem ask_of_not_handsOn (h : ∀ t ∈ old, ¬p.HandsOn t) (source : String) :
    p.ask old source = p.native.parse source := by
  unfold ask
  rw [usable?_eq_none h]

/-- **Only what is asked of the native parser matters.** -/
theorem on_parseAgain_congr (old' : Option Tree) {source : String}
    (h : p.ask old source = p.ask old' source) (w : World) :
    (p.parseAgain old source).on w = (p.parseAgain old' source).on w := by
  rw [on_parseAgain, on_parseAgain, h]

/-- **An old tree that is not handed on** makes no difference. -/
theorem on_parseAgain_of_not_handsOn (h : ∀ t ∈ old, ¬p.HandsOn t) (source : String)
    (w : World) : (p.parseAgain old source).on w = (p.parse source).on w := by
  exact on_parseAgain_congr none (ask_of_not_handsOn h source) w

/-- **To a parser of grammars** no old tree makes a difference. -/
theorem on_parseAgain_of_grammar (h : p.native.form? = some .grammar) (old : Option Tree)
    (source : String) (w : World) : (p.parseAgain old source).on w = (p.parse source).on w := by
  obtain ⟨g?, hnative⟩ := NativeParser.eq_grammar_of_form? h
  refine on_parseAgain_congr none ?_ w
  unfold ask
  rw [hnative]
  cases p.usable? old <;> rfl

/-- A parser with a language answers what its native parser does, with all that belongs to a
tree. -/
theorem on_parseAgain_of_language {l : LanguageHandle} (hl : p.language = some l)
    (old : Option Tree) (source : String) (w : World) :
    ((p.parseAgain old source).on w).1.map Tree.anonymous =
        (((p.ask old source).on w).1.map NativeTree.anonymous).map (p.wrap source) ∧
      ((p.parseAgain old source).on w).2 = ((p.ask old source).on w).2 := by
  rw [on_parseAgain, hl]
  refine ⟨?_, rfl⟩
  show (((p.ask old source).on w).1.map (p.wrap source)).map Tree.anonymous = _
  cases ((p.ask old source).on w).1 <;> rfl

end Parser

/-! ## What native parsers make of a source -/

/-- **What a grammar makes of a source**, as a tree without a number. -/
def Grammar.reading (g : Grammar) (source : String) : Except Error NativeTree :=
  match g.parse source with
  | .ok arena => .ok (.grammar 0 arena)
  | .error e => .error (.ofGrammar e)

/-- **What a native language makes of a source** and of an old tree of its own kind. -/
def NativeLanguage.reading (language : NativeLanguage) (old : Option LinkedTree)
    (source : String) : Except Error NativeTree :=
  match language.parse old source with
  | some arena => .ok (.linked 0 ⟨arena, Utf8.bytes source, []⟩)
  | none => .error (.parse .noTree)

namespace ForeignEngine

variable (e : ForeignEngine)

/-- **What a foreign engine makes of a source**, and of an old tree if there is one. -/
def reading (memory : List RawLanguage) (old : Option NativeTree) (source : String) :
    Except Error NativeTree :=
  match old.elim (e.parse memory source) fun t => e.reparse memory t source with
  | .ok tree => .ok (.foreign 0 tree)
  | .error text => .error (.parse (.said text))

/-- What a foreign engine records of a parse, with an old tree or without. -/
def call (old : Option NativeTree) (source : String) : String :=
  match old with
  | none => e.kind.text ++ " parse " ++ toString (Utf8.bytes source).length
  | some t => e.kind.text ++ " reparse " ++ (t.root?.map t.kind).getD "none" ++ " " ++
      toString (Utf8.bytes source).length

end ForeignEngine

namespace NativeParser

theorem on_parse_grammar (g : Grammar) (source : String) (w : World) :
    (((grammar (some g)).parse source).on w).1.map NativeTree.anonymous = g.reading source := by
  rw [parse, Grammar.reading]
  cases g.parse source <;> rfl

theorem on_run (language : NativeLanguage) (old : Option LinkedTree) (source : String)
    (w : World) :
    ((run (some language) old source).on w).1.map NativeTree.anonymous =
      language.reading old source := by
  rw [run, NativeLanguage.reading]
  cases language.parse old source <;> rfl

/-- A foreign parser answers as its engine does, and the call is recorded. -/
theorem on_parse_foreign (e : ForeignEngine) (memory : List RawLanguage) (source : String)
    (w : World) :
    (((foreign e memory).parse source).on w).1.map NativeTree.anonymous =
        e.reading memory none source ∧
      (((foreign e memory).parse source).on w).2.calls = w.calls ++ [e.call none source] := by
  show ((answered (e.parse memory source)).on _).1.map _ = _ ∧
    ((answered (e.parse memory source)).on _).2.calls = _
  rw [ForeignEngine.reading, Option.elim_none]
  cases e.parse memory source <;> exact ⟨rfl, rfl⟩

theorem on_reparse_foreign (e : ForeignEngine) (memory : List RawLanguage) (old : NativeTree)
    (source : String) (w : World) :
    (((foreign e memory).reparse old source).on w).1.map NativeTree.anonymous =
        e.reading memory (some old) source ∧
      (((foreign e memory).reparse old source).on w).2.calls =
        w.calls ++ [e.call (some old) source] := by
  show ((answered (e.reparse memory old source)).on _).1.map _ = _ ∧
    ((answered (e.reparse memory old source)).on _).2.calls = _
  rw [ForeignEngine.reading, Option.elim_some]
  cases e.reparse memory old source <;> exact ⟨rfl, rfl⟩

end NativeParser

/-! ## Parsing again is parsing -/

namespace Parser

variable {p : Parser} {l : LanguageHandle}

theorem on_parse_of_grammar {g : Grammar} (hl : p.language = some l)
    (hnative : p.native = .grammar (some g)) (source : String) (w : World) :
    ((p.parse source).on w).1.map Tree.anonymous = (g.reading source).map (p.wrap source) := by
  rw [parse_eq_parseAgain, (on_parseAgain_of_language hl none source w).1,
    ask_of_not_handsOn (nofun : ∀ t ∈ none, ¬p.HandsOn t), hnative, NativeParser.on_parse_grammar]

/-- **A native language sees an old tree** that is handed on, if the tree is of its kind. -/
theorem on_parseAgain_linked {language : NativeLanguage}
    (hnative : p.native = .linked (some language)) (hl : p.language = some l)
    (old : Option Tree) (source : String) (w : World) :
    (∀ t ∈ old, p.HandsOn t → ((p.parseAgain old source).on w).1.map Tree.anonymous =
      (language.reading t.native.linked? source).map (p.wrap source)) ∧
    ((∀ t ∈ old, ¬p.HandsOn t) → ((p.parseAgain old source).on w).1.map Tree.anonymous =
      (language.reading none source).map (p.wrap source)) := by
  rw [(on_parseAgain_of_language hl old source w).1]
  refine ⟨fun t ht hand => ?_, fun hno => ?_⟩
  · obtain rfl : old = some t := ht
    rw [ask_of_handsOn hand, hnative, NativeParser.reparse, NativeParser.on_run]
  · rw [ask_of_not_handsOn hno, hnative, NativeParser.parse, NativeParser.on_run]

/-- **A foreign engine is asked** to parse with the old tree, if that is handed on, and
otherwise without one. Its record shows which of the two it was. -/
theorem on_parseAgain_foreign {e : ForeignEngine} {memory : List RawLanguage}
    (hnative : p.native = .foreign e memory) (hl : p.language = some l) (old : Option Tree)
    (source : String) (w : World) :
    (∀ t ∈ old, p.HandsOn t →
      ((p.parseAgain old source).on w).1.map Tree.anonymous =
          (e.reading memory (some t.native) source).map (p.wrap source) ∧
        ((p.parseAgain old source).on w).2.calls = w.calls ++ [e.call (some t.native) source]) ∧
    ((∀ t ∈ old, ¬p.HandsOn t) →
      ((p.parseAgain old source).on w).1.map Tree.anonymous =
          (e.reading memory none source).map (p.wrap source) ∧
        ((p.parseAgain old source).on w).2.calls = w.calls ++ [e.call none source]) := by
  obtain ⟨hanswer, hworld⟩ := on_parseAgain_of_language hl old source w
  rw [hanswer, hworld]
  refine ⟨fun t ht hand => ?_, fun hno => ?_⟩
  · obtain rfl : old = some t := ht
    rw [ask_of_handsOn hand, hnative]
    obtain ⟨hreading, hcall⟩ := NativeParser.on_reparse_foreign e memory t.native source w
    exact ⟨congrArg _ hreading, hcall⟩
  · rw [ask_of_not_handsOn hno, hnative]
    obtain ⟨hreading, hcall⟩ := NativeParser.on_parse_foreign e memory source w
    exact ⟨congrArg _ hreading, hcall⟩

end Parser

/-- **Parsing again is invisible over grammars**, and elsewhere it depends on two signs. To a
parser over grammars, an old tree of any make is no different from none: the answer is the
same error or the same tree but for its number, and it is what the grammar of the reported
language makes of the source. Every other parser hands an old tree to its native parser if
its backend has a use for old trees and made this one; a native language then sees what it
is of its own kind, and a foreign engine sees the tree. Otherwise parsing again is parsing,
and neither of them sees any tree. -/
theorem Bench.Reachable.reparse_invisible {b : Bench} (hb : b.Reachable .free) :
    (b.parser.active.engine.IsOverGrammars →
      (∀ old source w w',
        ((b.parser.parseAgain old source).on w).1.map Tree.anonymous =
          ((b.parser.parse source).on w').1.map Tree.anonymous) ∧
      ∀ l, b.parser.language = some l → ∃ g, l.payload = .grammar g ∧ ∀ source w,
        ((b.parser.parse source).on w).1.map Tree.anonymous =
          (g.reading source).map (b.parser.wrap source)) ∧
    (∀ old source w, (∀ t ∈ old, ¬b.parser.HandsOn t) →
      (b.parser.parseAgain old source).on w = (b.parser.parse source).on w) ∧
    (∀ language l, b.parser.native = .linked (some language) → b.parser.language = some l →
      ∀ old source w,
      (∀ t ∈ old, b.parser.HandsOn t →
        ((b.parser.parseAgain old source).on w).1.map Tree.anonymous =
          (language.reading t.native.linked? source).map (b.parser.wrap source)) ∧
      ((∀ t ∈ old, ¬b.parser.HandsOn t) →
        ((b.parser.parseAgain old source).on w).1.map Tree.anonymous =
          (language.reading none source).map (b.parser.wrap source))) ∧
    ∀ e memory l, b.parser.native = .foreign e memory → b.parser.language = some l →
      ∀ old source w,
      (∀ t ∈ old, b.parser.HandsOn t →
        ((b.parser.parseAgain old source).on w).1.map Tree.anonymous =
            (e.reading memory (some t.native) source).map (b.parser.wrap source) ∧
          ((b.parser.parseAgain old source).on w).2.calls =
            w.calls ++ [e.call (some t.native) source]) ∧
      ((∀ t ∈ old, ¬b.parser.HandsOn t) →
        ((b.parser.parseAgain old source).on w).1.map Tree.anonymous =
            (e.reading memory none source).map (b.parser.wrap source) ∧
          ((b.parser.parseAgain old source).on w).2.calls = w.calls ++ [e.call none source]) := by
  refine ⟨fun hover => ?_, fun old source w hno => Parser.on_parseAgain_of_not_handsOn hno source w,
    fun language l => Parser.on_parseAgain_linked, fun e memory l => Parser.on_parseAgain_foreign⟩
  obtain ⟨hform, hholds⟩ := Parser.readsGrammars_of_reachable hb hover
  refine ⟨fun old source w w' => ?_, fun l hl => ?_⟩
  · rw [Parser.on_parseAgain_of_grammar hform, Parser.parse_eq_parseAgain]
    exact b.parser.parseAgain_steady none source w w'
  · obtain ⟨g, hpayload, hnative⟩ := hholds l hl
    exact ⟨g, hpayload, Parser.on_parse_of_grammar hl hnative⟩

/-- A stub in front of the engine of grammars that bears the name of the native backend and
declares what that does. -/
def Engine.pretender : Engine :=
  .wrapping .treeSitter (.grammar .grammar) .inProcess linkedManifest

/-- The assignment language, as loaded for the pretender. -/
def Assignment.pretended : LanguageHandle := { Assignment.language with backend := .treeSitter }

/-- A native language, as loaded for the native backend. -/
def LanguageHandle.native : LanguageHandle where
  identity := 0
  name := ⟨"rust", by decide⟩
  backend := .treeSitter
  provenance := .library (.ofString "/usr/lib/libtree-sitter-rust.so") "tree_sitter_rust"
  payload := .native .rust

/-- The pretender is handed a tree of the native backend, and makes of the source what the
grammar makes of it. The native backend is handed a tree of the pretender, and its language
sees no tree. -/
theorem Bench.Reachable.reparse_invisible_pretender :
    (∃ b : Bench, b.Reachable .free ∧ b.parser.active.engine.IsOverGrammars ∧
      b.parser.language = some Assignment.pretended ∧
      ∃ old : Tree, b.parser.HandsOn old ∧ old.native = .linked 0 default ∧
        ∀ source w w', ((b.parser.parseAgain (some old) source).on w).1.map Tree.anonymous =
          ((b.parser.parse source).on w').1.map Tree.anonymous) ∧
    ∃ b : Bench, b.Reachable .free ∧ b.parser.language = some LanguageHandle.native ∧
      ∃ old : Tree, b.parser.HandsOn old ∧ old.native = .grammar 0 default ∧
        ∀ source w, ((b.parser.parseAgain (some old) source).on w).1.map Tree.anonymous =
          (NativeLanguage.rust.reading none source).map (b.parser.wrap source) := by
  constructor
  · have installed : Broker.Reachable .free
        (Operation.after (.registerBackend .pretender) ⟨Registry.empty default, default⟩) :=
      .step _ trivial (.empty default default)
    have made : Bench.Reachable .free ⟨_, _⟩ := .built (.withBackend .treeSitter) installed rfl
    have given := made.move (.setLanguage Assignment.pretended) trivial
    refine ⟨_, given, trivial, rfl,
      ⟨.linked 0 default, "", .treeSitter, .ofManifest Engine.linkedManifest⟩, ⟨rfl, rfl⟩, rfl, ?_⟩
    exact (given.reparse_invisible.1 trivial).1 _
  · have made : Bench.Reachable .free ⟨_, _⟩ :=
      .built .new (.withDefaults trivial trivial default default) rfl
    have given := made.move (.setLanguage LanguageHandle.native) trivial
    refine ⟨_, given, rfl, ⟨.grammar 0 default, "", .treeSitter, .ofManifest Engine.linkedManifest⟩,
      ⟨rfl, rfl⟩, rfl, fun source w => ?_⟩
    exact (given.reparse_invisible.2.2.1 .rust _ rfl rfl _ source w).1 _ rfl ⟨rfl, rfl⟩

end TreeBroker
