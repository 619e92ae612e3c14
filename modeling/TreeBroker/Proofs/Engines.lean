import TreeBroker.Engine.Basic
import TreeBroker.Proofs.Actions

/-!
# What the engines of this library promise

A foreign engine may put any name on its handles and do as it likes with what it
is given. An engine of this library may not, and neither may a stub in front of
one, however many stubs are stacked: this module says once what such an engine
answers, so that no later proof has to take `Engine.load` or `Engine.newParser`
apart again.

A native parser is known from outside by two things: the form in which it takes
its language (`NativeParser.form?`), which is fixed by the engine that made it,
and the language it holds (`NativeParser.held?`), which only a successful
`setLanguage` changes. A parser that holds a language parses or fails on the
source – it never complains about how it is used.

What a parser is after it refused a language is a question of its own. A parser of
this library is what it was; one of a foreign engine may remember what it refused
(`NativeParser.Refusal`), unless it stands by what it has
(`NativeParser.IsSteadfast`).
-/

namespace TreeBroker

/-- **An engine of this library**: no foreign engine is behind it. -/
def Engine.IsBuiltIn : Engine → Prop
  | linked _ => True
  | grammar _ => True
  | stub _ inner .. => inner.IsBuiltIn
  | foreign _ => False

/-! ## Loading -/

/-- A new handle holds what it was made with. -/
theorem LanguageHandle.make_ok {n : LanguageName} {k : BackendKind} {v : Provenance}
    {c : Payload} {w w' : World} {h : LanguageHandle}
    (made : (LanguageHandle.make n k v c).on w = (.ok h, w')) :
    h.name = n ∧ h.backend = k ∧ h.provenance = v := by
  cases made
  exact ⟨rfl, rfl, rfl⟩

namespace Engine

/-- **A library is loaded** only if its file is there and its symbol is linked in,
for a version of the interface that is understood. -/
theorem load_linked_ok {ss : List (String × NativeLanguage)} {n : LanguageName}
    {path : FilePath} {symbol : String} {w w' : World} {h : LanguageHandle}
    (loaded : ((linked ss).load n (.library path symbol)).on w = (.ok h, w')) :
    w.files.isFile path = true ∧ h.name = n ∧ h.backend = .treeSitter ∧
      h.provenance = .library path symbol := by
  obtain ⟨_, _, hget, hload⟩ := Action.on_bind_eq_ok.mp loaded
  cases hget
  by_cases hfile : w.files.isFile path = true
  · rw [hfile] at hload
    cases hfind : (ss.find? fun x => x.1 == symbol).map (·.2) with
    | none =>
      rw [hfind] at hload
      cases hload
    | some language =>
      simp only [hfind, Bool.not_true, Bool.false_eq_true, if_false] at hload
      by_cases hc : language.isCompatible = true
      · rw [hc] at hload
        obtain ⟨_, _, htell, hmake⟩ := Action.on_bind_eq_ok.mp hload
        exact ⟨hfile, LanguageHandle.make_ok hmake⟩
      · rw [Bool.not_eq_true] at hc
        rw [hc] at hload
        cases hload
  · rw [Bool.not_eq_true] at hfile
    rw [hfile] at hload
    cases hload

/-- **A loaded language is the one that was asked for**: it has the name asked
for, names the engine's own backend, and remembers the registration. -/
theorem load_ok {e : Engine} (built : e.IsBuiltIn) {n : LanguageName} {reg : Registration}
    {w w' : World} {h : LanguageHandle} (loaded : (e.load n reg).on w = (.ok h, w')) :
    h.name = n ∧ h.backend = e.kind ∧ h.provenance = reg.provenance := by
  -- only a stub has an engine behind it, and it keeps all but the backend
  induction e generalizing w w' h with
  | linked ss =>
    cases reg with
    | grammar g i => cases loaded
    | library path symbol => exact (load_linked_ok loaded).2
  | grammar k =>
    cases reg with
    | library path symbol => cases loaded
    | grammar g i => exact LanguageHandle.make_ok loaded
  | stub k inner c m a f ih =>
    obtain ⟨h₀, w₀, hin, hmade⟩ := Action.on_bind_eq_ok.mp loaded
    obtain ⟨hn, -, hv⟩ := ih built hin
    obtain ⟨hn', hk', hv'⟩ := LanguageHandle.make_ok hmade
    exact ⟨hn'.trans hn, hk', hv'.trans hv⟩
  | foreign f => exact built.elim

/-- **An engine that signs its languages**: those that it loads name its backend. -/
def Signs (e : Engine) : Prop :=
  ∀ {n reg w w' h}, (e.load n reg).on w = (.ok h, w') → h.backend = e.kind

theorem IsBuiltIn.signs {e : Engine} (built : e.IsBuiltIn) : e.Signs :=
  fun loaded => (load_ok built loaded).2.1

end Engine

/-! ## Native parsers -/

namespace NativeParser

/-- The form in which a parser of this library takes its language. -/
def form? : NativeParser → Option Form
  | linked _ => some .native
  | grammar _ => some .grammar
  | foreign .. => none

/-- **The language a parser holds**, in the form it was given in. -/
def held? : NativeParser → Option RawLanguage
  | linked language => language.map .native
  | grammar g => g.map .grammar
  | foreign .. => none

/-- **A parser takes a language**: it is given it, on its own, and does not fail. -/
theorem given_eq_ok_iff {p p' : NativeParser} {raw : RawLanguage} {w w' : World} :
    (p.given raw).on w = (.ok p', w') ↔ (setLanguage raw).on (p, w) = (.ok (), p', w') := by
  have hgiven : (p.given raw).on w = (((setLanguage raw).on (p, w)).1.map fun _ =>
      ((setLanguage raw).on (p, w)).2.1, ((setLanguage raw).on (p, w)).2.2) := rfl
  rw [hgiven]
  rcases (setLanguage raw).on (p, w) with ⟨e | u, q, v⟩
  · simp [Except.map]
  · simp [Except.map]

/-- **What is left of a parser that refuses a language.** -/
inductive Refusal (p : NativeParser) : NativeParser → Prop
  /-- It is what it was. -/
  | unchanged : Refusal p p
  /-- A foreign parser may remember something else. -/
  | foreign {e : ForeignEngine} {memory : List RawLanguage} {raw : RawLanguage}
      {failure : EngineFailure} (was : p = .foreign e memory)
      (refused : (e.setLanguage memory raw).1 = .error failure) :
      Refusal p (.foreign e (e.setLanguage memory raw).2)

/-- A parser of this library that refuses a language is what it was. -/
theorem Refusal.eq_of_form? {p p' : NativeParser} (h : p.Refusal p') {f : Form}
    (hf : p.form? = some f) : p' = p := by
  cases h with
  | unchanged => rfl
  | foreign was refused =>
    rw [was] at hf
    cases hf

/-- **A parser that stands by what it has**: it does not remember what it refuses. -/
def IsSteadfast (p : NativeParser) : Prop :=
  ∀ {e memory memory' raw failure}, p = .foreign e memory →
    e.setLanguage memory raw = (.error failure, memory') → memory' = memory

theorem Refusal.eq_of_isSteadfast {p p' : NativeParser} (h : p.Refusal p')
    (steadfast : p.IsSteadfast) : p' = p := by
  cases h with
  | unchanged => rfl
  | @foreign e memory raw failure was refused =>
    have kept : (e.setLanguage memory raw).2 = memory := steadfast was (Prod.ext refused rfl)
    rw [was, kept]

theorem isSteadfast_of_form? {p : NativeParser} {f : Form} (hf : p.form? = some f) :
    p.IsSteadfast := by
  rintro e memory memory' raw failure rfl
  cases hf

/-- **What a parser of this library does with a language** needs no world. -/
theorem on_setLanguage_linked (l? : Option NativeLanguage) (language : NativeLanguage) (w : World) :
    (setLanguage (.native language)).on (linked l?, w) =
      if language.isCompatible then (.ok (), linked (some language), w)
      else (.error (.notAvailable (.refusedLanguage language.version)), linked l?, w) := by
  show (if language.isCompatible = true then become (.linked (some language))
    else throw (.notAvailable (.refusedLanguage language.version)) : Action _ Unit).on
      (linked l?, w) = _
  split <;> rfl

/-- A parser of a foreign engine does what the engine does, and the call is recorded. -/
theorem on_setLanguage_foreign (e : ForeignEngine) (memory : List RawLanguage)
    (raw : RawLanguage) (w : World) :
    (setLanguage raw).on (foreign e memory, w) =
      ((e.setLanguage memory raw).1.mapError EngineFailure.error,
        foreign e (e.setLanguage memory raw).2,
        { w with calls := w.calls ++ [e.kind.text ++ " set_language " ++ raw.display] }) := rfl

/-- **A refusal leaves the parser**, but for what a foreign one remembers. -/
theorem setLanguage_error {p p' : NativeParser} {raw : RawLanguage} {w w' : World} {e : Error}
    (set : (setLanguage raw).on (p, w) = (.error e, p', w')) : p.Refusal p' := by
  cases p with
  | linked l? =>
    cases raw with
    | native language =>
      rw [on_setLanguage_linked] at set
      split at set <;> cases set
      exact .unchanged
    | _ =>
      cases set
      exact .unchanged
  | grammar g? =>
    cases raw with
    | grammar g => cases set
    | _ =>
      cases set
      exact .unchanged
  | foreign f memory =>
    rw [on_setLanguage_foreign, Prod.mk.injEq, Prod.mk.injEq] at set
    obtain ⟨refused, rfl, -⟩ := set
    cases outcome : (f.setLanguage memory raw).1 with
    | ok u =>
      rw [outcome] at refused
      cases refused
    | error failure => exact .foreign rfl outcome

/-- **A parser that takes a language holds it**, and takes the same form as
before. -/
theorem given_ok {p p' : NativeParser} {f : Form} (hf : p.form? = some f)
    {raw : RawLanguage} {w w' : World} (set : (p.given raw).on w = (.ok p', w')) :
    p'.form? = some f ∧ p'.held? = some raw := by
  rw [given_eq_ok_iff] at set
  cases p with
  | linked l? =>
    cases raw with
    | native language =>
      rw [on_setLanguage_linked] at set
      split at set <;> cases set
      exact ⟨hf, rfl⟩
    | _ => cases set
  | grammar g? =>
    cases raw with
    | grammar g =>
      cases set
      exact ⟨hf, rfl⟩
    | _ => cases set
  | foreign e memory => cases hf

/-- A native parser that has a language never complains about how it is used. -/
theorem run_ne_configuration (l : NativeLanguage) (old : Option LinkedTree) (source : String)
    (w : World) (m : Misuse) :
    ((run (some l) old source).on w).1 ≠ .error (.configuration m) := by
  rw [run]
  cases l.parse old source <;> exact nofun

/-- **A parser that holds a language never complains** about how it is used. -/
theorem parse_ne_configuration {p : NativeParser} {raw : RawLanguage} (hp : p.held? = some raw)
    (source : String) (w : World) (m : Misuse) :
    ((p.parse source).on w).1 ≠ .error (.configuration m) := by
  cases p with
  | linked l? =>
    obtain ⟨l, rfl, -⟩ := Option.map_eq_some_iff.mp hp
    exact run_ne_configuration l none source w m
  | grammar g? =>
    obtain ⟨g, rfl, -⟩ := Option.map_eq_some_iff.mp hp
    rw [parse]
    cases g.parse source <;> exact nofun
  | foreign e memory => cases hp

/-- Nor does it with an old tree at hand. -/
theorem reparse_ne_configuration {p : NativeParser} {raw : RawLanguage}
    (hp : p.held? = some raw) (old : NativeTree) (source : String) (w : World) (m : Misuse) :
    ((p.reparse old source).on w).1 ≠ .error (.configuration m) := by
  cases p with
  | linked l? =>
    obtain ⟨l, rfl, -⟩ := Option.map_eq_some_iff.mp hp
    exact run_ne_configuration l old.linked? source w m
  | grammar g? => exact parse_ne_configuration hp source w m
  | foreign e memory => cases hp

end NativeParser

/-- **A new parser** of an engine of this library takes the engine's form and
holds nothing. -/
theorem Engine.newParser_ok {e : Engine} (built : e.IsBuiltIn) {w w' : World}
    {p : NativeParser} (made : e.newParser.on w = (.ok p, w')) :
    p.form? = some e.form ∧ p.held? = none := by
  induction e generalizing w with
  | linked ss => cases made; exact ⟨rfl, rfl⟩
  | grammar k => cases made; exact ⟨rfl, rfl⟩
  | stub k inner c m a f ih =>
    obtain ⟨_, w₀, -, hin⟩ := Action.on_bind_eq_ok.mp made
    exact ih built hin
  | foreign f => exact built.elim

end TreeBroker
