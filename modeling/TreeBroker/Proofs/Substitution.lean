import TreeBroker.Proofs.ParserRuns

/-!
# Substitution of backends

A caller who asks for a backend gets it or an error, and keeps it for as long as
the parser lives. A caller who asks for none gets a parser that may be moved, and
the only moves are into the in-process category: out of it there is no way back.

The two are one statement about how a parser at a later moment *follows* the
parser at an earlier one (`Bench.Follows`): whether it was the caller's choice,
and why it is a substitute, are the same; and its engine is the same as well,
unless the choice was free and the engine of the later moment is in-process. The
relation is a preorder and every move keeps to it, so it holds between any two
moments of a run.

What callers see of a parser's engine is the backend's name, under which the
registry may meanwhile have another engine. The category is still the one that the
parser is bound to (`Bench.Settled.category?_eq`), because a registry accepts an
engine only if it agrees with the tag of its backend.
-/

namespace TreeBroker

/-! ## Following -/

/-- **A parser follows an earlier one.** -/
structure Bench.Follows (b b' : Bench) : Prop where
  /-- It is the caller's choice or not, as before. -/
  explicit : b'.parser.explicit = b.parser.explicit
  /-- It is a substitute for the same reason as before, or for none. -/
  reason : b'.parser.fallbackReason = b.parser.fallbackReason
  /-- Its engine is the same, or the choice is free and it is in-process. -/
  active : b'.parser.active = b.parser.active ∨
    b.parser.explicit = false ∧ b'.parser.active.engine.category = .inProcess

namespace Bench.Follows

variable {b b' b'' : Bench}

theorem of_eq (h : b'.parser = b.parser) : b.Follows b' := by
  refine ⟨?_, ?_, .inl ?_⟩ <;> rw [h]

/-- A parser that refuses a language is followed by what is left of it. -/
theorem of_refusal (h : b.parser.Refusal b'.parser) : b.Follows b' := by
  obtain ⟨native, -, same⟩ := h
  refine ⟨?_, ?_, .inl ?_⟩ <;> rw [same]

protected theorem trans (h : b.Follows b') (h' : b'.Follows b'') : b.Follows b'' where
  explicit := h'.explicit.trans h.explicit
  reason := h'.reason.trans h.reason
  active := by
    obtain hsame' | ⟨hfree, hin⟩ := h'.active
    · -- what the first stretch says of the engine is true of the second
      rw [hsame']
      exact h.active
    · exact .inr ⟨h.explicit ▸ hfree, hin⟩

/-- **Each way to a language is followed.** -/
theorem given {h : LanguageHandle} {p : Parser} (hg : Parser.Given b h p) (s : Broker) :
    b.Follows ⟨p, s⟩ := by
  cases hg with
  | assigned own takes => exact ⟨rfl, rfl, .inl rfl⟩
  | moved target made takes =>
    obtain ⟨hfree, -, hin⟩ := Parser.target?_eq_some target
    exact ⟨rfl, rfl, .inr ⟨hfree, hin⟩⟩
  | reloaded same loads takes => exact ⟨rfl, rfl, .inl rfl⟩

/-- Every move is followed. -/
theorem after (b : Bench) (m : Move) : b.Follows (m.after b) := by
  obtain hrefusal | ⟨h, -, hg⟩ := m.after_cases b
  · exact of_refusal hrefusal
  · exact given hg _

/-- **Every run is followed.** -/
theorem run (b : Bench) (ms : List Move) : b.Follows (b.run ms) := by
  induction ms generalizing b with
  | nil => exact of_eq rfl
  | cons m ms ih => exact (after b m).trans (ih (m.after b))

/-- A parser that follows honours the same request. -/
theorem honours (h : b.Follows b') {request : Option BackendKind}
    (hb : b.parser.Honours request) : b'.parser.Honours request := by
  cases request with
  | none => exact h.explicit.trans hb
  | some k =>
    obtain ⟨hex, hk, hr⟩ := hb
    refine ⟨h.explicit.trans hex, ?_, h.reason.trans hr⟩
    obtain hsame | ⟨hfree, -⟩ := h.active
    · show b'.parser.active.kind = k
      rw [hsame]
      exact hk
    · rw [hex] at hfree
      cases hfree

/-- A parser that follows under another name is an automatic one, of an
in-process engine. -/
theorem of_backend_ne (h : b.Follows b') (hne : b'.parser.backend ≠ b.parser.backend) :
    b.parser.explicit = false ∧ b'.parser.active.engine.category = .inProcess := by
  obtain hsame | hmoved := h.active
  · exact absurd (congrArg Installed.kind hsame) hne
  · exact hmoved

/-- There is no way out of the in-process category. -/
theorem inProcess (h : b.Follows b') (hin : b.parser.active.engine.category = .inProcess) :
    b'.parser.active.engine.category = .inProcess := by
  obtain hsame | ⟨-, hin'⟩ := h.active
  · rw [hsame]
    exact hin
  · exact hin'

end Bench.Follows

/-! ## The registered engine -/

namespace Bench

/-- **The category of the engine registered for a parser's backend.** -/
def category? (b : Bench) : Option Category :=
  (b.broker.registry.engine? b.parser.backend).map (·.engine.category)

/-- **A settled bench**: an engine is registered for the parser's backend, of the
category and the form of the parser's own. -/
structure Settled (G : Regime) (b : Bench) : Prop where
  /-- The registry is sound. -/
  sound : b.broker.registry.Sound G
  /-- The registered engine agrees with the parser's. -/
  registered : ∃ i, b.broker.registry.engine? b.parser.backend = some i ∧
    i.engine.category = b.parser.active.engine.category ∧
    i.engine.form = b.parser.active.engine.form

variable {G : Regime}

/-- The category is still the one that the parser is bound to. -/
theorem Settled.category?_eq {b : Bench} (hb : b.Settled G) :
    b.category? = some b.parser.active.engine.category := by
  obtain ⟨i, hi, hcategory, -⟩ := hb.registered
  rw [category?, hi, Option.map_some, hcategory]

/-- What becomes of the registry changes neither category nor form. -/
theorem settled_of_engine? {p : Parser} {r : Registry} {s : Broker} (hr : r.Sound G)
    (hev : r.Evolves G s.registry) {i : Installed} (hi : r.engine? p.backend = some i)
    (hcategory : i.engine.category = p.active.engine.category)
    (hform : i.engine.form = p.active.engine.form) : Settled G ⟨p, s⟩ := by
  obtain ⟨i', hi', hcat, hfor⟩ := hev.engine?_stable hr hi
  exact ⟨hev.sound hr, i', hi', hcat.trans hcategory, hfor.trans hform⟩

/-- A parser that stays with its engine is settled as before. -/
theorem Settled.stay {b : Bench} (hb : b.Settled G) {p : Parser} {s : Broker}
    (hev : b.broker.registry.Evolves G s.registry) (hp : p.active = b.parser.active) :
    Settled G ⟨p, s⟩ := by
  obtain ⟨i, hi, hcategory, hform⟩ := hb.registered
  rw [← hp] at hcategory hform
  refine settled_of_engine? hb.sound hev (i := i) ?_ hcategory hform
  show b.broker.registry.engine? p.active.kind = some i
  rw [hp]
  exact hi

/-- Each way to a language leads to a settled bench. -/
theorem Settled.given {b : Bench} (hb : b.Settled G) {h : LanguageHandle} {p : Parser}
    (hg : Parser.Given b h p) {s : Broker} (hev : b.broker.registry.Evolves G s.registry) :
    Settled G ⟨p, s⟩ := by
  cases hg with
  | assigned own takes => exact hb.stay hev rfl
  | @moved j fresh native w w' target made takes =>
    obtain ⟨-, hj, -⟩ := Parser.target?_eq_some target
    refine settled_of_engine? hb.sound hev (i := j) ?_ rfl rfl
    show b.broker.registry.engine? j.kind = some j
    rw [Registry.kind_of_engine? hj]
    exact hj
  | reloaded same loads takes => exact hb.stay hev rfl

theorem Settled.after {b : Bench} (hb : b.Settled G) {m : Move} (may : m.May G) :
    (m.after b).Settled G := by
  have hev : b.broker.registry.Evolves G (m.after b).broker.registry := m.evolves may b
  obtain ⟨native, -, hsame⟩ | ⟨h, -, hg⟩ := m.after_cases b
  · have kept : (m.after b).parser.active = b.parser.active := by rw [hsame]
    exact hb.stay hev kept
  · exact hb.given hg hev

/-- **Every run leads to a settled bench.** -/
theorem Reachable.settled {b : Bench} (h : b.Reachable G) : b.Settled G :=
  h.invariant
    (fun _ _ hs hp => settled_of_engine? hs .refl hp.installed rfl rfl)
    fun _ _ may hb => hb.after may

/-- Whatever happens, a settled bench stays settled. -/
theorem Settled.run {b : Bench} (hb : b.Settled .free) (ms : List Move) :
    (b.run ms).Settled .free := by
  have may : ∀ m ∈ ms, Move.May .free m := by
    intro m _
    cases m with
    | operate op => cases op <;> exact trivial
    | setLanguage h => exact trivial
    | parse source => exact trivial
    | parseAgain old source => exact trivial
  exact Bench.run_induction (fun _ _ may hb => hb.after may) hb may

/-- **The category cannot be left** once it is the in-process one. -/
theorem Settled.category?_run {b : Bench} (hb : b.Settled .free) (ms : List Move)
    (hin : b.parser.active.engine.category = .inProcess) :
    (b.run ms).category? = some .inProcess := by
  rw [(hb.run ms).category?_eq, (Follows.run b ms).inProcess hin]

end Bench

/-! ## Whole lives -/

/-- **The discipline of substitution.** Of a parser made at any broker, through
all that may happen afterwards there:

* the request is honoured at every moment – a backend that was asked for, by the
  caller, the scope or the settings, is reported for life and is no substitute;
* whether the parser is explicit and why it is a substitute never changes;
* between two moments at which it reports different backends the parser is
  automatic, and from then on an in-process engine is registered for what it
  reports;
* and the same is true from any moment at which that is so. -/
theorem Construction.substitution {c : Construction} {s s' : Broker} {p : Parser}
    (reached : s.Reachable .free) (hb : c.build.on s = (.ok p, s')) :
    (∀ later, ((Bench.mk p s').run later).parser.Honours (c.requested? s)) ∧
    (∀ later, ((Bench.mk p s').run later).parser.explicit = p.explicit ∧
      ((Bench.mk p s').run later).parser.fallbackReason = p.fallbackReason) ∧
    (∀ before between,
      ((Bench.mk p s').run (before ++ between)).parser.backend ≠
        ((Bench.mk p s').run before).parser.backend →
      p.explicit = false ∧
        ∀ rest, ((Bench.mk p s').run (before ++ between ++ rest)).category? = some .inProcess) ∧
    ∀ before, ((Bench.mk p s').run before).category? = some .inProcess →
      ∀ rest, ((Bench.mk p s').run (before ++ rest)).category? = some .inProcess := by
  have settled : (Bench.mk p s').Settled .free := (Bench.Reachable.built c reached hb).settled
  refine ⟨fun later => ?_, fun later => ?_, fun before between hne => ?_, fun before hin rest => ?_⟩
  · obtain ⟨fresh, t, ms, -, -, hhonours, -, hrun⟩ := build_ok (G := .free) hb
    rw [← hrun, ← Bench.run_append]
    exact (Bench.Follows.run ⟨fresh, t⟩ (ms ++ later)).honours hhonours
  · have hfollows := Bench.Follows.run (Bench.mk p s') later
    exact ⟨hfollows.explicit, hfollows.reason⟩
  · rw [Bench.run_append] at hne
    have hfollows := Bench.Follows.run ((Bench.mk p s').run before) between
    obtain ⟨hfree, hin⟩ := hfollows.of_backend_ne hne
    refine ⟨(Bench.Follows.run (Bench.mk p s') before).explicit.symm.trans hfree, fun rest => ?_⟩
    rw [Bench.run_append, Bench.run_append]
    exact ((settled.run before).run between).category?_run rest hin
  · rw [(settled.run before).category?_eq, Option.some.injEq] at hin
    rw [Bench.run_append]
    exact (settled.run before).category?_run rest hin

/-- An automatic parser of the native engine is given the assignment language and
never comes back. -/
theorem Construction.substitution_assignment :
    ∃ (s s' : Broker) (p : Parser), s.Reachable .free ∧
      Construction.new.build.on s = (.ok p, s') ∧ p.backend = .treeSitter ∧
      ∀ rest, ((Bench.mk p s').run ([.setLanguage Assignment.language] ++ rest)).category? =
        some .inProcess := by
  have reached : Broker.Reachable .free ⟨Registry.withDefaults default, default⟩ :=
    .withDefaults trivial trivial default default
  have made : Construction.new.build.on ⟨Registry.withDefaults default, default⟩ =
    (.ok _, _) := rfl
  refine ⟨_, _, _, reached, made, rfl, ?_⟩
  have left := (Construction.substitution reached made).2.2.1 []
    [.setLanguage Assignment.language]
  exact (left (by decide)).2

end TreeBroker
