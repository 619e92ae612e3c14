import TreeBroker.Proofs.ParserRuns
import TreeBroker.Proofs.Priority

/-!
# The parser that is made

A parser that nobody asked a backend for is made by the first available backend. If that
one's constructor fails, there is *one* second chance, and it is not the next backend in
order: it is the next one **of this process**. A native backend is never a substitute, and
what comes after the second one is never asked.

Three things have to be seen. A constructor gives the same answer in every world
(`Engine.makes`), so that it makes no difference whether it is called first or second, and
the outcome can be read off the registry alone (`Registry.Outcome`). An available backend
has an engine and is ready, so that the only error on the way is the constructor's own. And
the list that the second backend is taken from is computed by the *tags*, while its category
is a matter of its engine: the two agree since an engine is announced by a tag of its category.

Which constructors are called cannot be seen in the answer. It is read off the way from one
broker to the other: `Broker.Constructs` says that nothing has happened there but events that
were told and the constructors of the engines listed.
-/

namespace TreeBroker

open TreeBroker.Action

/-! ## Constructors -/

namespace Engine

/-- A constructor does not look at the world. -/
theorem respects_newParser (e : Engine) : Respects (fun _ _ => True) e.newParser := by
  induction e with
  | linked ss => exact .pure _
  | grammar k => exact .pure _
  | stub k inner c m a failure ih => exact .bind (respects_failIf _) fun _ => ih
  | foreign f =>
    refine .bind (fun _ _ _ => ⟨rfl, trivial⟩) fun _ => ?_
    exact .bind (respects_failIf _) fun _ => .pure _

/-- **What a constructor gives**: a parser, or its error. -/
def makes (e : Engine) : Except Error NativeParser := (e.newParser.on default).1

theorem answer_newParser (e : Engine) (w : World) : (e.newParser.on w).1 = e.makes :=
  (e.respects_newParser default w trivial).1

end Engine

namespace Broker

/-- The broker after a constructor has been called. -/
def constructed (s : Broker) (e : Engine) : Broker :=
  { s with world := (e.newParser.on s.world).2 }

theorem on_newParser (e : Engine) (s : Broker) :
    (inWorld e.newParser).on s = (e.makes, s.constructed e) := by
  rw [on_inWorld, e.answer_newParser]
  rfl

/-- **The constructors that were called** on the way from a broker to another, where nothing
else has happened but events that were told. -/
inductive Constructs : Broker → List Engine → Broker → Prop
  /-- Nothing happened. -/
  | nothing (s : Broker) : Constructs s [] s
  /-- An event is told. -/
  | told {s s' : Broker} {es : List Engine} (event : Event)
      (rest : Constructs (s.told [event]) es s') : Constructs s es s'
  /-- A constructor is called. -/
  | called {s s' : Broker} {es : List Engine} (e : Engine)
      (rest : Constructs (s.constructed e) es s') : Constructs s (e :: es) s'

end Broker

/-! ## Binding -/

namespace Parser

open Broker

variable {s : Broker} {k : BackendKind} {i : Installed} {native : NativeParser} {e : Error}

/-- A parser is bound to a backend that is ready if the constructor gives one. -/
theorem on_bind_of_makes (engine : s.registry.engine? k = some i)
    (available : s.registry.isAvailable k = true) (made : i.engine.makes = .ok native)
    (explicit : Bool) :
    ∃ event, (bind k explicit).on s =
      (.ok { active := i, native, explicit }, (s.constructed i.engine).told [event]) := by
  have answer : (inWorld i.engine.newParser).on s = (.ok native, s.constructed i.engine) := by
    rw [on_newParser, made]
  rw [bind, on_bind_of_ok (Registry.on_ready engine available), on_bind_of_ok answer,
    on_bind_of_ok (on_tell _ _)]
  exact ⟨_, rfl⟩

/-- Otherwise the error is the constructor's. -/
theorem on_bind_of_fails (engine : s.registry.engine? k = some i)
    (available : s.registry.isAvailable k = true) (failed : i.engine.makes = .error e)
    (explicit : Bool) :
    (bind k explicit).on s = (.error e, s.constructed i.engine) := by
  have answer : (inWorld i.engine.newParser).on s = (.error e, s.constructed i.engine) := by
    rw [on_newParser, failed]
  rw [bind, on_bind_of_ok (Registry.on_ready engine available), on_bind_of_error answer]

/-- **Binding calls one constructor** at most, that of the backend. -/
theorem constructs_bind (k : BackendKind) (explicit : Bool) (s : Broker) :
    ∃ es, s.Constructs es ((bind k explicit).on s).2 ∧
      es.Sublist ((s.registry.engine? k).map Installed.engine).toList := by
  rcases hready : (Registry.ready k).on s with ⟨e | i, t⟩
  · obtain rfl : t = s := by rw [← Registry.ready_state k s, hready]
    rw [bind, on_bind_of_error hready]
    exact ⟨[], .nothing _, List.nil_sublist _⟩
  · obtain ⟨rfl, engine, available⟩ := Registry.ready_ok hready
    refine ⟨[i.engine], ?_, by rw [engine]; exact List.Sublist.refl _⟩
    cases made : i.engine.makes with
    | error e =>
      rw [on_bind_of_fails engine available made]
      exact .called _ (.nothing _)
    | ok native =>
      obtain ⟨event, bound⟩ := on_bind_of_makes engine available made explicit
      rw [bound]
      exact .called _ (.told event (.nothing _))

/-- Binding looks at the registry only. -/
theorem respects_bind (k : BackendKind) (explicit : Bool) :
    Respects (fun s t : Broker => t.registry = s.registry) (bind k explicit) := by
  refine .bind (Registry.respects_ready (fun _ _ same => same) k) fun i => ?_
  refine .bind (fun s t same => ⟨?_, same⟩) fun native => ?_
  · rw [on_newParser, on_newParser]
  · exact .bind (fun s t same => ⟨rfl, same⟩) fun _ => .pure _

end Parser

/-! ## The outcome -/

namespace Registry

/-- A backend of this process, by its engine. -/
def InProcess (r : Registry) (k : BackendKind) : Prop :=
  ∃ i, r.engine? k = some i ∧ i.engine.category = .inProcess

/-- **The first of the available backends**, with its engine. -/
structure Leads (r : Registry) (i : Installed) : Prop where
  first : r.available.head? = some i.kind
  engine : r.engine? i.kind = some i

/-- **The backend that stands in for another**: the first of the others, among those that
are available, that is of this process. -/
structure StandsIn (r : Registry) (i i' : Installed) : Prop where
  other : i'.kind ≠ i.kind
  engine : r.engine? i'.kind = some i'
  inProcess : i'.engine.category = .inProcess
  first : ∃ before after, r.available = before ++ i'.kind :: after ∧
    ∀ k ∈ before, k ≠ i.kind → ¬r.InProcess k

/-- **What becomes of an automatic parser**, with the constructors that are called for it. -/
inductive Outcome (r : Registry) : List Engine → Except Error Parser → Prop
  /-- No backend is available. -/
  | nobody (empty : r.available = []) : Outcome r [] (.error (.notAvailable .noBackend))
  /-- The first one makes the parser. -/
  | first {i : Installed} {native : NativeParser} (leads : r.Leads i)
      (made : i.engine.makes = .ok native) :
      Outcome r [i.engine] (.ok { active := i, native, explicit := false })
  /-- The first one fails, and nobody stands in. -/
  | stranded {i : Installed} {e : Error} (leads : r.Leads i) (failed : i.engine.makes = .error e)
      (alone : ∀ k ∈ r.available, k ≠ i.kind → ¬r.InProcess k) : Outcome r [i.engine] (.error e)
  /-- The first one fails, and another one makes the parser in its place. -/
  | second {i i' : Installed} {native : NativeParser} {e : Error} (leads : r.Leads i)
      (failed : i.engine.makes = .error e) (standsIn : r.StandsIn i i')
      (made : i'.engine.makes = .ok native) :
      Outcome r [i.engine, i'.engine]
        (.ok { active := i', native, explicit := false, fallbackReason := some e.message })
  /-- The first one fails, and so does the other. -/
  | neither {i i' : Installed} {e e' : Error} (leads : r.Leads i)
      (failed : i.engine.makes = .error e) (standsIn : r.StandsIn i i')
      (failed' : i'.engine.makes = .error e') :
      Outcome r [i.engine, i'.engine] (.error e')

namespace Outcome

variable {r : Registry} {es : List Engine} {p : Parser}

theorem length_le {x : Except Error Parser} (h : r.Outcome es x) : es.length ≤ 2 := by
  cases h <;> simp

/-- **A parser knows why it is not of the first backend**, and only then. -/
theorem fallbackReason_isSome_iff (h : r.Outcome es (.ok p)) :
    p.fallbackReason.isSome = true ↔ r.available.head? ≠ some p.backend := by
  cases h with
  | first leads made => exact ⟨nofun, fun other => absurd leads.first other⟩
  | second leads failed standsIn made =>
    refine ⟨fun _ same => ?_, fun _ => rfl⟩
    rw [leads.first] at same
    exact standsIn.other (Option.some.inj same).symm

/-- A backend that stands in is of this process. -/
theorem inProcess_of_fallbackReason (h : r.Outcome es (.ok p))
    (reason : p.fallbackReason.isSome = true) : p.active.engine.category = .inProcess := by
  cases h with
  | first leads made => cases reason
  | second leads failed standsIn made => exact standsIn.inProcess

end Outcome

variable {G : Regime} {r : Registry} {k : BackendKind}

/-- An available backend has an engine. -/
theorem exists_engine_of_isAvailable (available : r.isAvailable k = true) :
    ∃ i, r.engine? k = some i ∧ i.kind = k := by
  unfold isAvailable at available
  rw [Bool.and_eq_true] at available
  obtain ⟨i, engine⟩ := Option.isSome_iff_exists.mp available.1
  exact ⟨i, engine, kind_of_engine? engine⟩

/-- The tag of a backend that has an engine is of the category of its engine. -/
theorem Tabular.mem_availableIn_inProcess_iff (hr : r.Tabular) (sound : r.Sound G) :
    k ∈ r.availableIn .inProcess ↔ k ∈ r.available ∧ r.InProcess k := by
  rw [hr.mem_availableIn_iff]
  refine and_congr_right fun listed => ?_
  obtain ⟨i, engine, -⟩ := exists_engine_of_isAvailable (hr.mem_available_iff.mp listed)
  obtain ⟨t, tag, announces, -⟩ := sound.announced engine
  constructor
  · rintro ⟨t', tag', category⟩
    obtain rfl : t = t' := Option.some.inj (tag.symm.trans tag')
    exact ⟨i, engine, announces.symm.trans category⟩
  · rintro ⟨i', engine', category⟩
    obtain rfl : i = i' := Option.some.inj (engine.symm.trans engine')
    exact ⟨t, tag, announces.trans category⟩

/-- **Who stands in** is found among the available backends of this process. -/
theorem Tabular.standsIn_of_find? (hr : r.Tabular) (sound : r.Sound G) {i : Installed}
    (found : (r.availableIn .inProcess).find? (· ≠ i.kind) = some k) :
    ∃ i', i'.kind = k ∧ r.isAvailable k = true ∧ r.StandsIn i i' := by
  have other : k ≠ i.kind := by simpa using List.find?_some found
  obtain ⟨listed, i', engine, category⟩ :=
    (hr.mem_availableIn_inProcess_iff sound).mp (List.mem_of_find?_eq_some found)
  obtain rfl : i'.kind = k := kind_of_engine? engine
  refine ⟨i', rfl, hr.mem_available_iff.mp listed, other, engine, category, ?_⟩
  -- the list of the category is the list of all, with some left out
  rw [availableIn, List.find?_filter, List.find?_eq_some_iff_append] at found
  obtain ⟨-, before, after, split, passed⟩ := found
  refine ⟨before, after, split, fun k hk hne process => ?_⟩
  have mem : k ∈ r.available := by
    rw [split]
    exact List.mem_append_left _ hk
  have member := (hr.mem_availableIn_inProcess_iff sound).mpr ⟨mem, process⟩
  rw [availableIn, List.mem_filter] at member
  have skipped := passed k hk
  rw [member.2] at skipped
  simp [hne] at skipped

theorem Tabular.alone_of_find? (hr : r.Tabular) (sound : r.Sound G) {i : Installed}
    (missing : (r.availableIn .inProcess).find? (· ≠ i.kind) = none) :
    ∀ k ∈ r.available, k ≠ i.kind → ¬r.InProcess k := by
  intro k listed other process
  have member := (hr.mem_availableIn_inProcess_iff sound).mpr ⟨listed, process⟩
  simpa [other] using List.find?_eq_none.mp missing k member

end Registry

/-! ## One second chance -/

namespace Parser

open Broker

variable {G : Regime} {s : Broker} {i : Installed} {k : BackendKind} {e : Error}

/-- **The second chance**, in the broker that the first constructor has left. -/
theorem outcome_fallBack (hr : s.registry.Tabular) (sound : s.registry.Sound G)
    (leads : s.registry.Leads i) (failed : i.engine.makes = .error e) :
    ∃ es, s.registry.Outcome es ((fallBack i.kind e).on (s.constructed i.engine)).1 ∧
      s.Constructs es ((fallBack i.kind e).on (s.constructed i.engine)).2 := by
  -- constructing and telling leave the registry alone, so that what is ready stays ready
  cases found : (s.registry.availableIn .inProcess).find? (· ≠ i.kind) with
  | none =>
    rw [on_fallBack_of_none (s := s.constructed i.engine) found]
    exact ⟨[i.engine], .stranded leads failed (hr.alone_of_find? sound found),
      .called _ (.nothing _)⟩
  | some k =>
    obtain ⟨i', rfl, available, standsIn⟩ := hr.standsIn_of_find? sound found
    obtain ⟨event, taken⟩ := on_fallBack_of_some (s := s.constructed i.engine) (e := e) found
    rw [taken]
    refine ⟨[i.engine, i'.engine], ?_⟩
    cases made : i'.engine.makes with
    | error e' =>
      have bound := on_bind_of_fails (s := (s.constructed i.engine).told [event])
        standsIn.engine available made false
      rw [on_bind_of_error bound]
      exact ⟨.neither leads failed standsIn made,
        .called _ (.told event (.called _ (.nothing _)))⟩
    | ok native =>
      obtain ⟨event', bound⟩ := on_bind_of_makes (s := (s.constructed i.engine).told [event])
        standsIn.engine available made false
      rw [on_bind_of_ok bound]
      exact ⟨.second leads failed standsIn made,
        .called _ (.told event (.called _ (.told event' (.nothing _))))⟩

/-- **What becomes of an automatic parser.** -/
theorem outcome_automatic (hr : s.registry.Tabular) (sound : s.registry.Sound G) :
    ∃ es, s.registry.Outcome es (automatic.on s).1 ∧ s.Constructs es (automatic.on s).2 := by
  rw [automatic, on_bind_of_ok (on_registryNow s)]
  cases listed : s.registry.available with
  | nil => exact ⟨[], .nobody listed, .nothing _⟩
  | cons k ks =>
    have available : s.registry.isAvailable k = true := by
      rw [← hr.mem_available_iff, listed]
      exact List.mem_cons_self
    obtain ⟨i, engine, rfl⟩ := Registry.exists_engine_of_isAvailable available
    have leads : s.registry.Leads i := ⟨by rw [listed]; rfl, engine⟩
    dsimp only
    rw [on_bind_of_ok (on_attempt _ s)]
    cases made : i.engine.makes with
    | error e =>
      rw [on_bind_of_fails engine available made]
      exact outcome_fallBack hr sound leads made
    | ok native =>
      obtain ⟨event, bound⟩ := on_bind_of_makes engine available made false
      rw [bound]
      exact ⟨[i.engine], .first leads made, .called _ (.told event (.nothing _))⟩

end Parser

namespace Broker

open TreeBroker.Parser

variable {G : Regime} {s : Broker}

/-- **How a parser is made**, in every broker that a run leads to. If the scope or the
settings prefer a backend, the parser is the one of that backend's choice, and no other
constructor is called. Otherwise the outcome is that of the first available backend, or of
the one that stands in for it, and two constructors are called at most. So a parser that no
backend was preferred for has a reason for falling back exactly if it is not of the first
available backend; and then it is of this process. -/
theorem Reachable.new_falls_back_once (hs : s.Reachable G) :
    (∀ k, Registry.preferred? s = some k →
      (new.on s).1 = ((withBackend k).on s).1 ∧
      (∃ event, new.on s = (withBackend k).on (s.told [event])) ∧
      ∃ es, s.Constructs es (new.on s).2 ∧
        es.Sublist ((s.registry.engine? k).map Installed.engine).toList) ∧
    (Registry.preferred? s = none →
      (∃ es, s.registry.Outcome es (new.on s).1 ∧ s.Constructs es (new.on s).2 ∧
        es.length ≤ 2) ∧
      ∀ p, (new.on s).1 = .ok p →
        p.explicit = false ∧
        (p.fallbackReason.isSome = true ↔ s.registry.available.head? ≠ some p.backend) ∧
        (p.fallbackReason.isSome = true → p.active.engine.category = .inProcess)) := by
  refine ⟨fun k preferred => ?_, fun nobody => ?_⟩
  · obtain ⟨event, made⟩ := on_new_of_preferred preferred
    obtain ⟨es, constructs, one⟩ := constructs_bind k true (s.told [event])
    refine ⟨?_, ⟨event, made⟩, es, ?_, one⟩
    · rw [made]
      exact (respects_bind k true s (s.told [event]) rfl).1
    · rw [made]
      exact .told event constructs
  · obtain ⟨es, outcome, constructs⟩ := outcome_automatic hs.tabular hs.sound
    rw [on_new_of_no_preferred nobody]
    refine ⟨⟨es, outcome, constructs, outcome.length_le⟩, fun p made => ?_⟩
    rw [made] at outcome
    have automatic : p.explicit = false := by cases outcome <;> rfl
    exact ⟨automatic, outcome.fallbackReason_isSome_iff, outcome.inProcess_of_fallbackReason⟩

/-- An engine whose constructor fails. -/
def broken : Engine := .stub alpha (.grammar alpha) .native .minimal true (some "out of order")

/-- The broken engine comes first, and both engines of this library after it. -/
def outOfOrder : Broker :=
  run ⟨.empty default, default⟩
    [.registerBackend broken, .registerBackend .standard, .registerBackend (.grammar .grammar)]

-- The native backend that comes next would do, but it does not stand in.
theorem Reachable.new_falls_back_once_out_of_order :
    outOfOrder.Reachable .own ∧ Registry.preferred? outOfOrder = none ∧
      outOfOrder.registry.available = [alpha, .treeSitter, .grammar] ∧
      ∃ p, (new.on outOfOrder).1 = .ok p ∧ p.backend = .grammar ∧ p.explicit = false ∧
        p.fallbackReason.isSome = true ∧ p.active.engine.category = .inProcess := by
  have reachable : outOfOrder.Reachable .own :=
    .step (.registerBackend (.grammar .grammar)) trivial (.step (.registerBackend .standard) trivial
      (.step (.registerBackend broken) trivial (.empty default default)))
  obtain ⟨-, free⟩ := reachable.new_falls_back_once
  obtain ⟨-, substituted⟩ := free rfl
  obtain ⟨automatic, reason, category⟩ := substituted _ rfl
  have fallen := reason.mpr (by decide)
  exact ⟨reachable, rfl, rfl, _, rfl, rfl, automatic, fallen, category fallen⟩

end Broker

end TreeBroker
