import TreeBroker.Parser
import TreeBroker.Proofs.RegistryRuns

/-!
# Runs of a parser

A parser lives at a bench: beside it stands the broker whose registry it loads
from, and between two calls on the parser anything may happen there. A run is a
sequence of *moves*, each a call on the parser or an operation of the broker.

What a parser does when it is given a language is said once. If it succeeds, it
took one of three ways (`Parser.setLanguage_ok`): the language is of its own
backend and is assigned; or it is of another one and the parser moves there; or
its library is loaded again for the parser's own backend, and what is loaded is
assigned. If it fails, the parser is what it was, at whichever point the way ended,
but for what a foreign native parser that was asked remembers of it
(`Parser.setLanguage_error`).

A parser is made in one of three ways as well. Each of them gives a fresh parser
without a language, of the backend that was asked for if one was, and makes moves
with it from there (`Construction.build_ok`): so what holds of fresh parsers and is
kept by moves holds of every parser, for life (`Bench.Reachable.invariant`).
-/

namespace TreeBroker

open TreeBroker.Action

namespace Bench

variable {α : Type} {b b' : Bench}

@[simp] theorem on_inBroker (act : Action Broker α) (b : Bench) :
    (inBroker act).on b = ((act.on b.broker).1, { b with broker := (act.on b.broker).2 }) := rfl

@[simp] theorem on_change (f : Parser → Parser) (b : Bench) :
    (change f).on b = (.ok (), { b with parser := f b.parser }) := rfl

/-- What an action of the broker alone took to succeed. -/
theorem inBroker_ok {act : Action Broker α} {a : α} (h : (inBroker act).on b = (.ok a, b')) :
    ∃ s, act.on b.broker = (.ok a, s) ∧ b' = { b with broker := s } := by
  rw [on_inBroker, Prod.mk.injEq] at h
  exact ⟨_, Prod.ext h.1 rfl, h.2.symm⟩

/-- An action on the native parser changes the parser in nothing else. -/
theorem on_inNative (act : Action (NativeParser × World) α) (b : Bench) :
    (inNative act).on b = ((act.on (b.parser.native, b.broker.world)).1,
      { parser := { b.parser with native := (act.on (b.parser.native, b.broker.world)).2.1 }
        broker := { b.broker with world := (act.on (b.parser.native, b.broker.world)).2.2 } }) :=
  rfl

/-- What becomes of the registry beside a parser. -/
def Evolves (G : Regime) (b b' : Bench) : Prop := b.broker.Evolves G b'.broker

instance {G : Regime} : IsPreorder Bench (Evolves G) where
  refl _ := .refl
  trans _ _ _ h h' := h.trans h'

theorem moves_inBroker {G : Regime} {act : Action Broker α} (h : Moves (Broker.Evolves G) act) :
    Moves (Evolves G) (inBroker act) := fun b => h b.broker

theorem moves_change {G : Regime} (f : Parser → Parser) : Moves (Evolves G) (change f) :=
  fun _ => .refl

theorem moves_inNative {G : Regime} (act : Action (NativeParser × World) α) :
    Moves (Evolves G) (inNative act) := fun _ => .refl

/-- An action of the broker alone leaves the parser as it was, also if it fails. -/
theorem inBroker_keeps {act : Action Broker α} {x : Except Error α}
    (h : (inBroker act).on b = (x, b')) : b'.parser = b.parser := by
  rw [on_inBroker, Prod.mk.injEq] at h
  rw [← h.2]

/-- A parser that is asked for something in the world stays as it was. -/
theorem consult_keeps (act : Bench → Action World α) (b : Bench) :
    ((do
      let b ← get
      let _ ← inBroker (Broker.inWorld (act b)) : Action Bench Unit).on b).2.parser = b.parser := by
  rw [on_bind_of_ok (on_get b), on_bind]
  split <;> next h => exact inBroker_keeps h

theorem moves_consult {G : Regime} (act : Bench → Action World α) :
    Moves (Evolves G) (do
      let b ← get
      let _ ← inBroker (Broker.inWorld (act b)) : Action Bench Unit) :=
  .bind .get fun _ => .bind (moves_inBroker (Broker.moves_inWorld _)) fun _ => .pure _

end Bench

namespace Parser

open Broker

variable {b b' : Bench} {h : LanguageHandle} {i : Installed} {e : Error} {u : Unit}

/-! ## Being given a language -/

/-- **A native parser takes a language** in the form of a backend. -/
def Takes (i : Installed) (native : NativeParser) (h : LanguageHandle)
    (native' : NativeParser) : Prop :=
  ∃ raw w w', h.unwrap i.engine.form = .ok raw ∧ (native.given raw).on w = (.ok native', w')

/-- **What is left of a parser that refuses a language**: the parser, but for what its
native parser remembers. -/
def Refusal (p p' : Parser) : Prop :=
  ∃ native, p.native.Refusal native ∧ p' = { p with native }

theorem Refusal.refl (p : Parser) : p.Refusal p := ⟨p.native, .unchanged, rfl⟩

/-- A parser with a native parser of this library is what it was. -/
theorem Refusal.eq_of_form? {p p' : Parser} (hr : p.Refusal p') {f : Form}
    (hf : p.native.form? = some f) : p' = p := by
  obtain ⟨native, hnative, rfl⟩ := hr
  rw [hnative.eq_of_form? hf]

theorem Refusal.eq_of_isSteadfast {p p' : Parser} (hr : p.Refusal p')
    (steadfast : p.native.IsSteadfast) : p' = p := by
  obtain ⟨native, hnative, rfl⟩ := hr
  rw [hnative.eq_of_isSteadfast steadfast]

theorem assign_ok (ha : (assign h).on b = (.ok u, b')) :
    ∃ native, Takes b.parser.active b.parser.native h native ∧
      b'.parser = { b.parser with native, language := some h } ∧
      b'.broker.registry = b.broker.registry := by
  obtain ⟨_, _, hget, ha⟩ := on_bind_eq_ok.mp ha
  cases hget
  obtain ⟨raw, _, hraw, ha⟩ := on_bind_eq_ok.mp ha
  rw [on_ofExcept, Prod.mk.injEq] at hraw
  obtain ⟨hraw, rfl⟩ := hraw
  obtain ⟨_, t, hset, ha⟩ := on_bind_eq_ok.mp ha
  rw [Bench.on_inNative, Prod.mk.injEq] at hset
  obtain ⟨hset, rfl⟩ := hset
  cases ha
  exact ⟨_, ⟨raw, _, _, hraw, NativeParser.given_eq_ok_iff.mpr (Prod.ext hset rfl)⟩, rfl, rfl⟩

/-- **A language that is not assigned** is refused, before or by the native parser. -/
theorem assign_error (ha : (assign h).on b = (.error e, b')) :
    b.parser.Refusal b'.parser ∧ b'.broker.registry = b.broker.registry := by
  rcases on_bind_eq_error.mp ha with hget | ⟨_, _, hget, ha⟩
  · cases hget
  cases hget
  rcases on_bind_eq_error.mp ha with hraw | ⟨raw, _, hraw, ha⟩
  · rw [on_ofExcept, Prod.mk.injEq] at hraw
    rw [← hraw.2]
    exact ⟨.refl _, rfl⟩
  rw [on_ofExcept, Prod.mk.injEq] at hraw
  obtain ⟨-, rfl⟩ := hraw
  rcases on_bind_eq_error.mp ha with hset | ⟨_, _, -, hchange⟩
  · rw [Bench.on_inNative, Prod.mk.injEq] at hset
    obtain ⟨hset, rfl⟩ := hset
    exact ⟨⟨_, NativeParser.setLanguage_error (Prod.ext hset rfl), rfl⟩, rfl⟩
  · cases hchange

theorem moveTo_ok (hm : (moveTo i h).on b = (.ok u, b')) :
    ∃ fresh native w w', i.engine.newParser.on w = (.ok fresh, w') ∧ Takes i fresh h native ∧
      b'.parser = { b.parser with active := i, native, language := some h } ∧
      b'.broker.registry = b.broker.registry := by
  obtain ⟨_, _, hget, hm⟩ := on_bind_eq_ok.mp hm
  cases hget
  obtain ⟨fresh, _, hnew, hm⟩ := on_bind_eq_ok.mp hm
  obtain ⟨s, hnew', rfl⟩ := Bench.inBroker_ok hnew
  obtain ⟨w, hnew'', rfl⟩ := inWorld_ok hnew'
  obtain ⟨raw, _, hraw, hm⟩ := on_bind_eq_ok.mp hm
  rw [on_ofExcept, Prod.mk.injEq] at hraw
  obtain ⟨hraw, rfl⟩ := hraw
  obtain ⟨native, _, hset, hm⟩ := on_bind_eq_ok.mp hm
  obtain ⟨s, hset', rfl⟩ := Bench.inBroker_ok hset
  obtain ⟨w', hset'', rfl⟩ := inWorld_ok hset'
  cases hm
  exact ⟨fresh, native, _, w, hnew'', ⟨raw, _, w', hraw, hset''⟩, rfl, rfl⟩

theorem moveTo_error (hm : (moveTo i h).on b = (.error e, b')) : b'.parser = b.parser := by
  rcases on_bind_eq_error.mp hm with hget | ⟨_, _, hget, hm⟩
  · cases hget
  cases hget
  -- the new native parser may not come about
  rcases on_bind_eq_error.mp hm with hnew | ⟨fresh, t, hnew, hm⟩
  · exact Bench.inBroker_keeps hnew
  have ht := Bench.inBroker_keeps hnew
  -- or the language may not be given in the form of the new backend
  rcases on_bind_eq_error.mp hm with hraw | ⟨raw, _, hraw, hm⟩
  · rw [on_ofExcept, Prod.mk.injEq] at hraw
    rw [← hraw.2, ht]
  rw [on_ofExcept, Prod.mk.injEq] at hraw
  obtain ⟨-, rfl⟩ := hraw
  -- or the new native parser may not take it
  rcases on_bind_eq_error.mp hm with hset | ⟨native, _, -, hm⟩
  · rw [Bench.inBroker_keeps hset, ht]
  · cases hm

/-- **Where an automatic parser may move.** -/
theorem target?_eq_some {p : Parser} {r : Registry} (ht : p.target? r h = some i) :
    p.explicit = false ∧ r.engine? h.backend = some i ∧ i.engine.category = .inProcess := by
  unfold target? at ht
  split at ht
  · cases ht
  · next he =>
    refine ⟨by simpa using he, ?_⟩
    split at ht
    · next i' hi =>
      split at ht
      · next hc =>
        cases ht
        exact ⟨hi, hc.1⟩
      · cases ht
    · cases ht

/-- **The three ways to a language.** -/
inductive Given (b : Bench) (h : LanguageHandle) : Parser → Prop
  /-- The language is of the parser's own backend. -/
  | assigned {native : NativeParser} (own : h.backend = b.parser.backend)
      (takes : Takes b.parser.active b.parser.native h native) :
      Given b h { b.parser with native, language := some h }
  /-- The parser moves to the backend of the language. -/
  | moved {i : Installed} {fresh native : NativeParser} {w w' : World}
      (target : b.parser.target? b.broker.registry h = some i)
      (made : i.engine.newParser.on w = (.ok fresh, w')) (takes : Takes i fresh h native) :
      Given b h { b.parser with active := i, native, language := some h }
  /-- The library of the language is loaded again, for the parser's own backend. -/
  | reloaded {path : FilePath} {symbol : String} {loaded : LanguageHandle} {s s' : Broker}
      {native : NativeParser} (same : s.registry = b.broker.registry)
      (loads : (Registry.load b.parser.backend h.name (.library path symbol)).on s
        = (.ok loaded, s'))
      (takes : Takes b.parser.active b.parser.native loaded native) :
      Given b h { b.parser with native, language := some loaded }

/-! What is done with a language depends on its backend, on where the parser may move and on
where the language comes from. -/

theorem on_setLanguage_of_own (own : h.backend = b.parser.backend) :
    (setLanguage h).on b = (assign h).on b := by
  rw [setLanguage, on_bind_of_ok (on_get b)]
  simp only [if_pos own]

theorem on_setLanguage_of_target (other : h.backend ≠ b.parser.backend)
    (target : b.parser.target? b.broker.registry h = some i) :
    (setLanguage h).on b = (moveTo i h).on b := by
  rw [setLanguage, on_bind_of_ok (on_get b)]
  simp only [if_neg other, target]

theorem on_setLanguage_of_grammar {g : String} (other : h.backend ≠ b.parser.backend)
    (nowhere : b.parser.target? b.broker.registry h = none) (origin : h.provenance = .grammar g) :
    (setLanguage h).on b =
      (.error (.backendMismatch h.name.text h.backend b.parser.backend), b) := by
  rw [setLanguage, on_bind_of_ok (on_get b)]
  simp only [if_neg other, nowhere, origin]
  rfl

theorem on_setLanguage_of_library {path : FilePath} {symbol : String}
    (other : h.backend ≠ b.parser.backend)
    (nowhere : b.parser.target? b.broker.registry h = none)
    (origin : h.provenance = .library path symbol) :
    ∃ event, (setLanguage h).on b =
      (Bench.inBroker (Registry.loadLibrary b.parser.backend h.name path symbol) >>= assign).on
        { b with broker := b.broker.told [event] } := by
  rw [setLanguage, on_bind_of_ok (on_get b)]
  simp only [if_neg other, nowhere, origin]
  exact ⟨_, on_bind_of_ok rfl _⟩

/-- **A parser that is given a language** came to it in one of the three ways. -/
theorem setLanguage_ok (hs : (setLanguage h).on b = (.ok u, b')) : Given b h b'.parser := by
  by_cases hown : h.backend = b.parser.backend
  · rw [on_setLanguage_of_own hown] at hs
    obtain ⟨native, htakes, hp, -⟩ := assign_ok hs
    rw [hp]
    exact .assigned hown htakes
  cases htarget : b.parser.target? b.broker.registry h with
  | some i =>
    rw [on_setLanguage_of_target hown htarget] at hs
    obtain ⟨fresh, native, w, w', hmade, htakes, hp, -⟩ := moveTo_ok hs
    rw [hp]
    exact .moved htarget hmade htakes
  | none =>
    cases hv : h.provenance with
    | grammar g =>
      rw [on_setLanguage_of_grammar hown htarget hv] at hs
      cases hs
    | library path symbol =>
      obtain ⟨event, hon⟩ := on_setLanguage_of_library hown htarget hv
      rw [hon] at hs
      obtain ⟨loaded, t, hload, hs⟩ := on_bind_eq_ok.mp hs
      obtain ⟨s', hload', rfl⟩ := Bench.inBroker_ok hload
      obtain ⟨native, htakes, hp, -⟩ := assign_ok hs
      rw [hp]
      exact .reloaded (s := b.broker.told [event]) rfl (Registry.loadLibrary_ok hload') htakes

/-- **A parser that is not given a language** refuses it. -/
theorem setLanguage_error (hs : (setLanguage h).on b = (.error e, b')) :
    b.parser.Refusal b'.parser := by
  by_cases hown : h.backend = b.parser.backend
  · rw [on_setLanguage_of_own hown] at hs
    exact (assign_error hs).1
  cases htarget : b.parser.target? b.broker.registry h with
  | some i =>
    rw [on_setLanguage_of_target hown htarget] at hs
    rw [moveTo_error hs]
    exact .refl _
  | none =>
    cases hv : h.provenance with
    | grammar g =>
      rw [on_setLanguage_of_grammar hown htarget hv] at hs
      cases hs
      exact .refl _
    | library path symbol =>
      obtain ⟨event, hon⟩ := on_setLanguage_of_library hown htarget hv
      rw [hon] at hs
      -- the load may fail, or what it gives may not be taken
      rcases on_bind_eq_error.mp hs with hload | ⟨loaded, t, hload, hs⟩
      · rw [Bench.inBroker_keeps hload]
        exact .refl _
      · have hrefusal := (assign_error hs).1
        rwa [Bench.inBroker_keeps hload] at hrefusal

theorem moves_assign {G : Regime} (h : LanguageHandle) :
    Moves (Bench.Evolves G) (assign h) :=
  .bind .get fun _ => .bind (.ofExcept _) fun _ =>
    .bind (Bench.moves_inNative _) fun _ => Bench.moves_change _

theorem moves_moveTo {G : Regime} (i : Installed) (h : LanguageHandle) :
    Moves (Bench.Evolves G) (moveTo i h) :=
  .bind .get fun _ => .bind (Bench.moves_inBroker (moves_inWorld _)) fun _ =>
    .bind (.ofExcept _) fun _ => .bind (Bench.moves_inBroker (moves_inWorld _)) fun _ =>
      .bind (Bench.moves_inBroker (moves_tell _)) fun _ => Bench.moves_change _

/-- A parser changes the registry only by a load. -/
theorem moves_setLanguage {G : Regime} (h : LanguageHandle) :
    Moves (Bench.Evolves G) (setLanguage h) := by
  refine .bind .get fun b => ?_
  by_cases hown : h.backend = b.parser.backend
  · simp only [if_pos hown]
    exact moves_assign h
  · simp only [if_neg hown]
    cases b.parser.target? b.broker.registry h with
    | some i => exact moves_moveTo i h
    | none =>
      cases h.provenance with
      | grammar g => exact .throw _
      | library path symbol =>
        exact .bind (Bench.moves_inBroker (moves_tell _)) fun _ =>
          .bind (Bench.moves_inBroker (Registry.moves_loadLibrary _ _ _ _)) fun _ => moves_assign _

/-! ## Being made -/

/-- **A fresh parser**: its backend is installed, its native parser is new, and it
has no language. -/
structure Fresh (r : Registry) (p : Parser) : Prop where
  /-- The backend is installed. -/
  installed : r.engine? p.backend = some p.active
  /-- The native parser is new. -/
  made : ∃ w w', p.active.engine.newParser.on w = (.ok p.native, w')
  /-- There is no language yet. -/
  silent : p.language = none

/-- **A parser honours a request**: if a backend is asked for the parser is
explicit, of that backend and no substitute, and otherwise it is automatic. -/
def Honours (p : Parser) : Option BackendKind → Prop
  | some k => p.explicit = true ∧ p.backend = k ∧ p.fallbackReason = none
  | none => p.explicit = false

variable {k : BackendKind} {explicit : Bool} {p : Parser} {s s' : Broker}

theorem bind_ok (hb : (bind k explicit).on s = (.ok p, s')) :
    p.Fresh s'.registry ∧ p.backend = k ∧ p.explicit = explicit ∧ p.fallbackReason = none := by
  obtain ⟨i, t, hready, hrest⟩ := on_bind_eq_ok.mp hb
  obtain ⟨rfl, hi, -⟩ := Registry.ready_ok hready
  obtain ⟨native, t', hnew, hrest'⟩ := on_bind_eq_ok.mp hrest
  obtain ⟨w, hnew', rfl⟩ := inWorld_ok hnew
  cases hrest'
  have hk : i.kind = k := Registry.kind_of_engine? hi
  refine ⟨⟨?_, ⟨_, _, hnew'⟩, rfl⟩, hk, rfl, rfl⟩
  show t.registry.engine? i.kind = some i
  rw [hk, hi]

theorem withBackend_ok (hw : (withBackend k).on s = (.ok p, s')) :
    p.Fresh s'.registry ∧ p.Honours (some k) := by
  obtain ⟨hfresh, hk, he, hf⟩ := bind_ok hw
  exact ⟨hfresh, he, hk, hf⟩

theorem on_fallBack_of_none {failed : BackendKind}
    (missing : (s.registry.availableIn .inProcess).find? (· ≠ failed) = none) :
    (fallBack failed e).on s = (.error e, s) := by
  rw [fallBack, on_bind_of_ok (on_registryNow s)]
  simp only [missing]
  rfl

theorem on_fallBack_of_some {failed : BackendKind}
    (found : (s.registry.availableIn .inProcess).find? (· ≠ failed) = some k) :
    ∃ event, (fallBack failed e).on s = (do
      let p ← bind k false
      return { p with fallbackReason := some e.message } : Action Broker Parser).on
        (s.told [event]) := by
  rw [fallBack, on_bind_of_ok (on_registryNow s)]
  simp only [found]
  exact ⟨_, on_bind_of_ok (on_tell _ s) _⟩

theorem fallBack_ok {failed : BackendKind} (hf : (fallBack failed e).on s = (.ok p, s')) :
    p.Fresh s'.registry ∧ p.explicit = false := by
  cases found : (s.registry.availableIn .inProcess).find? (· ≠ failed) with
  | none =>
    rw [on_fallBack_of_none found] at hf
    cases hf
  | some k =>
    obtain ⟨event, hon⟩ := on_fallBack_of_some (e := e) found
    rw [hon] at hf
    obtain ⟨q, t, hbind, hf⟩ := on_bind_eq_ok.mp hf
    cases hf
    obtain ⟨hfresh, -, he, -⟩ := bind_ok hbind
    exact ⟨⟨hfresh.installed, hfresh.made, hfresh.silent⟩, he⟩

theorem automatic_ok (ha : automatic.on s = (.ok p, s')) :
    p.Fresh s'.registry ∧ p.explicit = false := by
  obtain ⟨r, t, hnow, ha⟩ := on_bind_eq_ok.mp ha
  cases hnow
  cases hks : s.registry.available with
  | nil =>
    rw [hks] at ha
    cases ha
  | cons k ks =>
    simp only [hks] at ha
    obtain ⟨outcome, t, hbind, ha⟩ := on_bind_eq_ok.mp ha
    rw [on_attempt, Prod.mk.injEq] at hbind
    obtain ⟨houtcome, rfl⟩ := hbind
    cases houtcome
    rcases hb : (bind k false).on s with ⟨e | q, t⟩
    · rw [hb] at ha
      exact fallBack_ok ha
    · rw [hb] at ha
      cases ha
      obtain ⟨hfresh, -, he, -⟩ := bind_ok hb
      exact ⟨hfresh, he⟩

/-- **A preferred backend** makes the parser, for better or worse. -/
theorem on_new_of_preferred (preferred : Registry.preferred? s = some k) :
    ∃ event, new.on s = (withBackend k).on (s.told [event]) := by
  rw [new, on_bind_of_ok (on_get s)]
  unfold Registry.preferred? at preferred
  cases scope : s.world.scopes.current? with
  | some k' =>
    rw [scope, Option.some_or] at preferred
    obtain rfl : k' = k := Option.some.inj preferred
    exact ⟨_, on_bind_of_ok (on_tell _ s) _⟩
  | none =>
    rw [scope, Option.none_or] at preferred
    simp only [preferred]
    exact ⟨_, on_bind_of_ok (on_tell _ s) _⟩

theorem on_new_of_no_preferred (nobody : Registry.preferred? s = none) :
    new.on s = automatic.on s := by
  obtain ⟨scope, configured⟩ := Option.or_eq_none_iff.mp nobody
  rw [new, on_bind_of_ok (on_get s)]
  simp only [scope, configured]

theorem new_ok (hn : new.on s = (.ok p, s')) :
    p.Fresh s'.registry ∧ p.Honours (Registry.preferred? s) := by
  cases preferred : Registry.preferred? s with
  | some k =>
    obtain ⟨event, hon⟩ := on_new_of_preferred preferred
    rw [hon] at hn
    exact withBackend_ok hn
  | none =>
    rw [on_new_of_no_preferred preferred] at hn
    exact automatic_ok hn

theorem forLanguage_ok {n : LanguageName} {backend : Option BackendKind}
    (hf : (forLanguage n backend).on s = (.ok p, s')) :
    ∃ q t h t' u, (backend.elim new withBackend).on s = (.ok q, t) ∧
      (Registry.languageFor n backend).on t = (.ok h, t') ∧
      (setLanguage h).on ⟨q, t'⟩ = (.ok u, ⟨p, s'⟩) := by
  have hdo : forLanguage n backend = (do
      let q ← backend.elim new withBackend
      let h ← Registry.languageFor n backend
      fun s =>
        (((setLanguage h).on ⟨q, s⟩).1.map fun _ => ((setLanguage h).on ⟨q, s⟩).2.parser,
          ((setLanguage h).on ⟨q, s⟩).2.broker)) := by
    cases backend <;> rfl
  rw [hdo] at hf
  obtain ⟨q, t, hq, hf⟩ := on_bind_eq_ok.mp hf
  obtain ⟨h, t', hh, hf⟩ := on_bind_eq_ok.mp hf
  refine ⟨q, t, h, t', ?_⟩
  change (((setLanguage h).on ⟨q, t'⟩).1.map fun _ => ((setLanguage h).on ⟨q, t'⟩).2.parser,
    ((setLanguage h).on ⟨q, t'⟩).2.broker) = (.ok p, s') at hf
  rcases hset : (setLanguage h).on ⟨q, t'⟩ with ⟨e | u, b⟩
  · rw [hset] at hf
    cases hf
  · rw [hset] at hf
    cases hf
    exact ⟨u, hq, hh, rfl⟩

theorem moves_bind {G : Regime} (k : BackendKind) (explicit : Bool) :
    Moves (Broker.Evolves G) (bind k explicit) :=
  .bind (.of_eq (Registry.ready_state k)) fun _ => .bind (moves_inWorld _) fun _ =>
    .bind (moves_tell _) fun _ => .pure _

theorem moves_automatic {G : Regime} : Moves (Broker.Evolves G) automatic := by
  refine .bind moves_registryNow fun r => ?_
  cases r.available with
  | nil => exact .throw _
  | cons k ks =>
    refine .bind (.attempt (moves_bind k false)) fun outcome => ?_
    cases outcome with
    | ok p => exact .pure p
    | error e =>
      refine .bind moves_registryNow fun r => ?_
      split
      · exact .throw _
      · exact .bind (moves_tell _) fun _ => .bind (moves_bind _ _) fun _ => .pure _

theorem moves_new {G : Regime} : Moves (Broker.Evolves G) new := by
  refine .bind .get fun s => ?_
  split
  · exact .bind (moves_tell _) fun _ => moves_bind _ _
  · split
    · exact .bind (moves_tell _) fun _ => moves_bind _ _
    · exact moves_automatic

end Parser

/-! ## Runs -/

/-- **A move at a bench**: a call on the parser, or an operation beside it. -/
inductive Move where
  /-- An operation of the broker. -/
  | operate (op : Operation)
  /-- The parser is given a language. -/
  | setLanguage (h : LanguageHandle)
  /-- The parser parses. -/
  | parse (source : String)
  /-- The parser parses again. -/
  | parseAgain (old : Option Tree) (source : String)

namespace Move

/-- What a move does. Its answer is its caller's business. -/
def perform : Move → Action Bench Unit
  | operate op => Bench.inBroker op.perform
  | setLanguage h => Parser.setLanguage h
  | parse source => do
    let b ← get
    let _ ← Bench.inBroker (Broker.inWorld (b.parser.parse source))
  | parseAgain old source => do
    let b ← get
    let _ ← Bench.inBroker (Broker.inWorld (b.parser.parseAgain old source))

/-- The bench after a move, successful or not. -/
def after (m : Move) (b : Bench) : Bench := (m.perform.on b).2

/-- What a move brings in is allowed. -/
def May (G : Regime) : Move → Prop
  | operate op => op.May G
  | _ => True

variable {G : Regime}

/-- What a move does to the registry is a number of changes. -/
theorem evolves {m : Move} (may : m.May G) (b : Bench) : b.Evolves G (m.after b) := by
  suffices h : Moves (Bench.Evolves G) m.perform from h b
  cases m with
  | operate op => exact Bench.moves_inBroker (Operation.evolves may)
  | setLanguage h => exact Parser.moves_setLanguage h
  | parse source => exact Bench.moves_consult fun b => b.parser.parse source
  | parseAgain old source => exact Bench.moves_consult fun b => b.parser.parseAgain old source

/-- What a move does to the parser if it does not give it a language: nothing. -/
theorem keeps {m : Move} (h : ∀ l, m ≠ .setLanguage l) (b : Bench) :
    (m.after b).parser = b.parser := by
  cases m with
  | operate op => rfl
  | setLanguage l => exact absurd rfl (h l)
  | parse source => exact Bench.consult_keeps _ b
  | parseAgain old source => exact Bench.consult_keeps _ b

/-- **What a move does to the parser**: nothing to speak of, unless it gives it a
language. -/
theorem after_cases (m : Move) (b : Bench) :
    b.parser.Refusal (m.after b).parser ∨
      ∃ h, m = .setLanguage h ∧ Parser.Given b h (m.after b).parser := by
  by_cases hm : ∃ h, m = .setLanguage h
  · obtain ⟨h, rfl⟩ := hm
    rcases hs : (Parser.setLanguage h).on b with ⟨e | u, b'⟩
    · refine .inl ?_
      show b.parser.Refusal ((Parser.setLanguage h).on b).2.parser
      rw [hs]
      exact Parser.setLanguage_error hs
    · refine .inr ⟨h, rfl, ?_⟩
      show Parser.Given b h ((Parser.setLanguage h).on b).2.parser
      rw [hs]
      exact Parser.setLanguage_ok hs
  · rw [keeps (fun l hl => hm ⟨l, hl⟩) b]
    exact .inl (.refl _)

end Move

namespace Bench

/-- **The bench after a number of moves.** -/
def run (b : Bench) (moves : List Move) : Bench := moves.foldl (fun b m => m.after b) b

@[simp] theorem run_nil (b : Bench) : b.run [] = b := rfl

@[simp] theorem run_cons (b : Bench) (m : Move) (ms : List Move) :
    b.run (m :: ms) = (m.after b).run ms := rfl

theorem run_append (b : Bench) (ms ms' : List Move) : b.run (ms ++ ms') = (b.run ms).run ms' :=
  List.foldl_append

/-- **What each move keeps, every run keeps.** -/
theorem run_induction {G : Regime} {P : Bench → Prop}
    (step : ∀ (b : Bench) (m : Move), m.May G → P b → P (m.after b)) {b : Bench} (hb : P b)
    {ms : List Move} (may : ∀ m ∈ ms, m.May G) : P (b.run ms) := by
  induction ms generalizing b with
  | nil => exact hb
  | cons m ms ih =>
    rw [run_cons]
    exact ih (step b m (may m List.mem_cons_self) hb) fun m' h => may m' (List.mem_cons_of_mem m h)

end Bench

/-- **The ways to make a parser.** -/
inductive Construction where
  /-- A parser of the scope's or the settings' backend, or an automatic one. -/
  | new
  /-- A parser of a backend. -/
  | withBackend (k : BackendKind)
  /-- A parser with a language. -/
  | forLanguage (n : LanguageName) (backend : Option BackendKind)

namespace Construction

/-- The parser that is made. -/
def build : Construction → Action Broker Parser
  | new => Parser.new
  | withBackend k => Parser.withBackend k
  | forLanguage n backend => Parser.forLanguage n backend

/-- **The backend that is asked for**: by the caller, else by the scope, else by
the settings. -/
def requested? : Construction → Broker → Option BackendKind
  | new, s => Registry.preferred? s
  | withBackend k, _ => some k
  | forLanguage _ backend, s => backend.or (Registry.preferred? s)

variable {G : Regime} {c : Construction} {p : Parser} {s s' : Broker}

/-- Actions that end with a parser move the registry. -/
theorem evolves_of_ok {act : Action Broker Parser} (moves : Moves (Broker.Evolves G) act)
    (ha : act.on s = (.ok p, s')) : s.Evolves G s' := by
  have h := moves s
  rwa [ha] at h

/-- **How a parser comes about**: a fresh parser honours the request, and from it
moves lead to the parser that is made. -/
theorem build_ok (hb : c.build.on s = (.ok p, s')) :
    ∃ fresh t ms, s.Evolves G t ∧ fresh.Fresh t.registry ∧ fresh.Honours (c.requested? s) ∧
      (∀ m ∈ ms, Move.May G m) ∧ Bench.run ⟨fresh, t⟩ ms = ⟨p, s'⟩ := by
  cases c with
  | new =>
    rw [build] at hb
    obtain ⟨hfresh, hhonours⟩ := Parser.new_ok hb
    exact ⟨p, s', [], evolves_of_ok Parser.moves_new hb, hfresh, hhonours,
      List.forall_mem_nil _, rfl⟩
  | withBackend k =>
    rw [build] at hb
    obtain ⟨hfresh, hhonours⟩ := Parser.withBackend_ok hb
    exact ⟨p, s', [], evolves_of_ok (Parser.moves_bind k true) hb, hfresh, hhonours,
      List.forall_mem_nil _, rfl⟩
  | forLanguage n backend =>
    rw [build] at hb
    obtain ⟨q, t, h, t', u, hq, hh, hset⟩ := Parser.forLanguage_ok hb
    have hq' : q.Fresh t.registry ∧ q.Honours (backend.or (Registry.preferred? s)) ∧
        s.Evolves G t := by
      cases backend with
      | some k =>
        obtain ⟨hfresh, hhonours⟩ := Parser.withBackend_ok hq
        exact ⟨hfresh, hhonours, evolves_of_ok (Parser.moves_bind k true) hq⟩
      | none =>
        obtain ⟨hfresh, hhonours⟩ := Parser.new_ok hq
        exact ⟨hfresh, hhonours, evolves_of_ok Parser.moves_new hq⟩
    refine ⟨q, t, [.operate (.languageFor n backend), .setLanguage h], hq'.2.2, hq'.1, hq'.2.1,
      ?_, ?_⟩
    · exact List.forall_mem_cons.mpr ⟨trivial, List.forall_mem_singleton.mpr trivial⟩
    · have hop : (Move.operate (.languageFor n backend)).after ⟨q, t⟩ = ⟨q, t'⟩ := by
        show Bench.mk q ((Registry.languageFor n backend >>= fun _ => pure ()).on t).2 = _
        rw [on_bind_of_ok hh]
        rfl
      rw [Bench.run_cons, hop, Bench.run_cons, Bench.run_nil]
      show ((Parser.setLanguage h).on ⟨q, t'⟩).2 = _
      rw [hset]

end Construction

/-- **The benches that runs lead to**: a parser is made at a broker that a run led
to, and then there are moves. -/
inductive Bench.Reachable (G : Regime) : Bench → Prop
  /-- A parser is made. -/
  | built {s s' : Broker} {p : Parser} (c : Construction) (reached : s.Reachable G)
      (hb : c.build.on s = (.ok p, s')) : Reachable G ⟨p, s'⟩
  /-- Each move leads on. -/
  | move {b : Bench} (m : Move) (may : m.May G) (h : Reachable G b) : Reachable G (m.after b)

/-- **What fresh parsers have and moves keep, every parser has.** -/
theorem Bench.Reachable.invariant {G : Regime} {P : Bench → Prop}
    (fresh : ∀ (p : Parser) (s : Broker), s.registry.Sound G → p.Fresh s.registry → P ⟨p, s⟩)
    (step : ∀ (b : Bench) (m : Move), m.May G → P b → P (m.after b)) {b : Bench}
    (h : b.Reachable G) : P b := by
  induction h with
  | @built s s' p c reached hb =>
    obtain ⟨q, t, ms, hev, hq, -, may, hrun⟩ := Construction.build_ok (G := G) hb
    rw [← hrun]
    exact Bench.run_induction step (fresh q t (Registry.Evolves.sound hev reached.sound) hq) may
  | move m may _ ih => exact step _ m may ih

/-- The assignment language, as loaded for the engine of grammars. -/
def Assignment.language : LanguageHandle where
  identity := 0
  name := ⟨Assignment.name, by decide⟩
  backend := .grammar
  provenance := .grammar Assignment.name
  payload := .grammar (Assignment.grammar 0)

end TreeBroker
