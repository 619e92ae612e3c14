import Mathlib.Data.Finset.Card
import Mathlib.Logic.Relation
import TreeBroker.Proofs.RegistryTables
import TreeBroker.Proofs.Supply

/-!
# Loads that run side by side

A load through the cache takes the registry twice: once to look the key up, and
once more, when a language has been made, to put it in unless one is there. In
between it does not hold the registry. Others may load the same key meanwhile, or
register, or install – or the making of the language may do so itself, which is the
same thing on one thread.

So the *traffic* at a registry is taken section by section: each step is one section
of one load, or an operation beside the cache, and nothing is assumed about who comes
next. Several languages may be made for a key, but one is kept, and every load of the
key that succeeds answers with that one (`Traffic.one_language_per_key`). The making
is unrestricted: it gives any language or any error whenever it likes.

Nothing is lost by taking loads apart. A load whose making is itself a number of steps
is a number of steps (`Traffic.steps_fetch`), and so is every operation on a registry
that does not empty the cache (`Operation.flows`).
-/

namespace TreeBroker

open TreeBroker.Action

/-! ## Sections and steps -/

/-- **How far a load has come.** -/
inductive Stage where
  /-- Nothing was found; a language is being made. -/
  | making
  /-- A language was found. -/
  | found (h : LanguageHandle)
  /-- No language could be made. -/
  | failed (e : Error)
  /-- A language was made, and one was kept: this one, or one that came before it. -/
  | stored (made kept : LanguageHandle)

/-- **A load of a key**, under way or done. -/
structure Fetch where
  /-- The key. -/
  key : CacheKey
  /-- How far it has come. -/
  stage : Stage

namespace Fetch

/-- What the load has answered. -/
def answer? (f : Fetch) : Option (Except Error LanguageHandle) :=
  match f.stage with
  | .making => none
  | .found h => some (.ok h)
  | .failed e => some (.error e)
  | .stored _ kept => some (.ok kept)

/-- The load has been through its second section. -/
def isStored (f : Fetch) : Bool :=
  match f.stage with
  | .stored .. => true
  | _ => false

end Fetch

/-- **A broker and the loads at it**, in the order in which they began. -/
structure Traffic where
  /-- The broker. -/
  broker : Broker
  /-- The loads. -/
  fetches : List Fetch

namespace Traffic

/-- **A step.** -/
inductive Step : Traffic → Traffic → Prop
  /-- A load begins, and finds a language. -/
  | hit {s s' : Broker} {fs : List Fetch} {key : CacheKey} {h : LanguageHandle}
      (looked : (Registry.lookUp key).on s = (.ok (some h), s')) :
      Step ⟨s, fs⟩ ⟨s', fs ++ [⟨key, .found h⟩]⟩
  /-- A load begins, and finds nothing. -/
  | miss {s s' : Broker} {fs : List Fetch} {key : CacheKey}
      (looked : (Registry.lookUp key).on s = (.ok none, s')) :
      Step ⟨s, fs⟩ ⟨s', fs ++ [⟨key, .making⟩]⟩
  /-- The making fails, and the load with it. -/
  | fail (s : Broker) (before after : List Fetch) (key : CacheKey) (e : Error) :
      Step ⟨s, before ++ ⟨key, .making⟩ :: after⟩ ⟨s, before ++ ⟨key, .failed e⟩ :: after⟩
  /-- The making succeeds, and the load goes through its second section. -/
  | store {s s' : Broker} (before after : List Fetch) {key : CacheKey}
      {made kept : LanguageHandle}
      (inserted : (Registry.insertIfAbsent key made).on s = (.ok kept, s')) :
      Step ⟨s, before ++ ⟨key, .making⟩ :: after⟩
        ⟨s', before ++ ⟨key, .stored made kept⟩ :: after⟩
  /-- Something happens beside the cache. -/
  | aside {op : Operation} (beside : op.Aside) (s : Broker) (fs : List Fetch) :
      Step ⟨s, fs⟩ ⟨op.after s, fs⟩

/-- **A number of steps.** -/
abbrev Steps : Traffic → Traffic → Prop := Relation.ReflTransGen Step

/-- The keys of the loads that have been through their second section. -/
def storedKeys (t : Traffic) : List CacheKey := (t.fetches.filter Fetch.isStored).map Fetch.key

end Traffic

/-! ## What a section does -/

namespace Registry

variable {s s' : Broker} {key : CacheKey} {made kept : LanguageHandle}

theorem lookUp_ok {found : Option LanguageHandle} (hl : (lookUp key).on s = (.ok found, s')) :
    s'.registry = s.registry ∧ s.registry.cached? key = found := by
  have hstate : ((lookUp key).on s).2.registry = s.registry := registry_lookUp key s
  rw [hl] at hstate
  refine ⟨hstate, ?_⟩
  cases hc : s.registry.cached? key with
  | some h =>
    obtain ⟨w, hw⟩ := lookUp_of_some hc
    rw [hw] at hl
    cases hl
    rfl
  | none =>
    rw [lookUp_of_none hc] at hl
    cases hl
    rfl

/-- **The second section** answers with what is there, or puts in what was made. -/
theorem insertIfAbsent_ok (hi : (insertIfAbsent key made).on s = (.ok kept, s')) :
    s.registry.cached? key = some kept ∧ s'.registry = s.registry ∨
      s.registry.cached? key = none ∧ s'.registry = s.registry.putCached key kept := by
  cases hc : s.registry.cached? key with
  | some h =>
    rw [insertIfAbsent_of_some hc] at hi
    cases hi
    exact .inl ⟨rfl, rfl⟩
  | none =>
    rw [insertIfAbsent_of_none hc] at hi
    cases hi
    exact .inr ⟨rfl, rfl⟩

/-- What is in the cache stays there, and what is answered is there. -/
theorem cached?_insertIfAbsent (hi : (insertIfAbsent key made).on s = (.ok kept, s')) :
    s'.registry.cached? key = some kept ∧
      ∀ key' h, s.registry.cached? key' = some h → s'.registry.cached? key' = some h := by
  obtain ⟨hc, hsame⟩ | ⟨hc, hput⟩ := insertIfAbsent_ok hi
  · rw [hsame]
    exact ⟨hc, fun _ _ => id⟩
  · rw [hput]
    refine ⟨?_, fun key' h hc' => ?_⟩
    · rw [cached?_putCached, hc, if_pos rfl, Option.none_or]
    · rw [cached?_putCached, hc', Option.some_or]

end Registry

/-! ## Answers that last -/

namespace Traffic

variable {t t' : Traffic}

theorem Step.cached? (st : Step t t') {key : CacheKey} {h : LanguageHandle}
    (hc : t.broker.registry.cached? key = some h) :
    t'.broker.registry.cached? key = some h := by
  cases st with
  | hit looked =>
    show Registry.cached? _ key = _
    rw [(Registry.lookUp_ok looked).1]
    exact hc
  | miss looked =>
    show Registry.cached? _ key = _
    rw [(Registry.lookUp_ok looked).1]
    exact hc
  | fail s before after key' e => exact hc
  | store before after inserted => exact (Registry.cached?_insertIfAbsent inserted).2 key h hc
  | aside beside s fs =>
    show Registry.cached? _ key = _
    unfold Registry.cached?
    rw [Operation.cache_after_of_aside beside]
    exact hc

/-- **What every step keeps** is kept to the end. -/
theorem Steps.keeps {P : Traffic → Prop} (keeps : ∀ {t t'}, Step t t' → P t → P t')
    (st : Steps t t') (start : P t) : P t' := by
  induction st with
  | refl => exact start
  | tail _ last ih => exact keeps last ih

/-- A load that has answered is left as it is. -/
theorem Step.settled (st : Step t t') {i : Nat} {f : Fetch} (hf : t.fetches[i]? = some f)
    (answered : f.answer?.isSome = true) : t'.fetches[i]? = some f := by
  -- only a load that is making a language is replaced, and it has not answered
  have replaced (before after : List Fetch) (key : CacheKey) (stage : Stage)
      (hf : (before ++ ⟨key, .making⟩ :: after)[i]? = some f) :
      (before ++ ⟨key, stage⟩ :: after)[i]? = some f := by
    rw [List.getElem?_append] at hf ⊢
    split
    · next hlt => rwa [if_pos hlt] at hf
    · next hlt =>
      rw [if_neg hlt] at hf
      cases hi : i - before.length with
      | zero =>
        rw [hi, List.getElem?_cons_zero] at hf
        cases hf
        cases answered
      | succ j => rwa [hi, List.getElem?_cons_succ] at hf
  have kept (fs new : List Fetch) (hf : fs[i]? = some f) : (fs ++ new)[i]? = some f := by
    rw [List.getElem?_append_left (List.getElem?_eq_some_iff.mp hf).1, hf]
  cases st with
  | hit looked => exact kept _ _ hf
  | miss looked => exact kept _ _ hf
  | fail s before after key e => exact replaced before after key _ hf
  | store before after inserted => exact replaced before after _ _ hf
  | aside beside s fs => exact hf

/-- **Every answer is in the cache.** -/
def Held (t : Traffic) : Prop :=
  ∀ f ∈ t.fetches, ∀ h, f.answer? = some (.ok h) →
    t.broker.registry.cached? f.key = some h

theorem Step.held (st : Step t t') (held : t.Held) : t'.Held := by
  intro f hf h answer
  have old (hf : f ∈ t.fetches) : t'.broker.registry.cached? f.key = some h :=
    st.cached? (held f hf h answer)
  cases st with
  | hit looked =>
    obtain hf | hf := List.mem_append.mp hf
    · exact old hf
    · cases List.mem_singleton.mp hf
      cases answer
      obtain ⟨hsame, hc⟩ := Registry.lookUp_ok looked
      show Registry.cached? _ _ = _
      rw [hsame, hc]
  | miss looked =>
    obtain hf | hf := List.mem_append.mp hf
    · exact old hf
    · cases List.mem_singleton.mp hf
      cases answer
  | fail s before after key e =>
    obtain hf | rfl | hf := by simpa using hf
    · exact old (by simp [hf])
    · cases answer
    · exact old (by simp [hf])
  | store before after inserted =>
    obtain hf | rfl | hf := by simpa using hf
    · exact old (by simp [hf])
    · cases answer
      exact (Registry.cached?_insertIfAbsent inserted).1
    · exact old (by simp [hf])
  | aside beside s fs => exact old hf

/-! ## Counting keys -/

/-- **The cache is tallied**: it has one entry for each key of a load that has been
through its second section, and no other entries. -/
structure Tallied (t : Traffic) : Prop where
  /-- One entry a key. -/
  nodup : (t.broker.registry.cache.map Prod.fst).Nodup
  /-- The keys are those of the loads. -/
  mem_iff : ∀ key, key ∈ t.broker.registry.cache.map Prod.fst ↔ key ∈ t.storedKeys

theorem Tallied.of_cache {s s' : Broker} {fs fs' : List Fetch} (tallied : Tallied ⟨s, fs⟩)
    (hcache : s'.registry.cache = s.registry.cache)
    (hkeys : ∀ key, key ∈ storedKeys ⟨s', fs'⟩ ↔ key ∈ storedKeys ⟨s, fs⟩) :
    Tallied ⟨s', fs'⟩ := by
  refine ⟨?_, fun key => ?_⟩
  · show (s'.registry.cache.map Prod.fst).Nodup
    rw [hcache]
    exact tallied.nodup
  · show key ∈ s'.registry.cache.map Prod.fst ↔ _
    rw [hcache, hkeys]
    exact tallied.mem_iff key

theorem Step.tallied (st : Step t t') (tallied : t.Tallied) : t'.Tallied := by
  cases st with
  | hit looked =>
    refine tallied.of_cache (congrArg Registry.cache (Registry.lookUp_ok looked).1) fun key => ?_
    simp [storedKeys, Fetch.isStored]
  | miss looked =>
    refine tallied.of_cache (congrArg Registry.cache (Registry.lookUp_ok looked).1) fun key => ?_
    simp [storedKeys, Fetch.isStored]
  | fail s before after key e =>
    refine tallied.of_cache rfl fun key => ?_
    simp [storedKeys, Fetch.isStored]
  | aside beside s fs =>
    exact tallied.of_cache (Operation.cache_after_of_aside beside s) fun key => .rfl
  | @store s s' before after key made kept inserted =>
    have hkeys (key' : CacheKey) :
        key' ∈ storedKeys ⟨s', before ++ ⟨key, .stored made kept⟩ :: after⟩ ↔
          key' = key ∨ key' ∈ storedKeys ⟨s, before ++ ⟨key, .making⟩ :: after⟩ := by
      simp only [storedKeys, List.filter_append, List.filter_cons, Fetch.isStored,
        List.map_append, List.map_cons, List.mem_append, List.mem_cons, if_true,
        Bool.false_eq_true, if_false]
      tauto
    obtain ⟨hc, hsame⟩ | ⟨hc, hput⟩ := Registry.insertIfAbsent_ok inserted
    · -- the key was in the cache, so it was counted before
      refine tallied.of_cache (congrArg Registry.cache hsame) fun key' => ?_
      have hkey : key ∈ s.registry.cache.map Prod.fst :=
        List.mem_map_of_mem (Registry.mem_of_cached? hc)
      rw [hkeys, or_iff_right_iff_imp]
      rintro rfl
      exact (tallied.mem_iff _).mp hkey
    · refine ⟨?_, fun key' => ?_⟩
      · show (s'.registry.cache.map Prod.fst).Nodup
        rw [hput]
        exact Registry.nodup_cache_putCached tallied.nodup hc kept
      · show key' ∈ s'.registry.cache.map Prod.fst ↔ _
        rw [hput, hkeys, ← tallied.mem_iff]
        simp [Registry.putCached, or_comm]

theorem Tallied.length_cache (tallied : t.Tallied) :
    t.broker.registry.cache.length = t.storedKeys.toFinset.card := by
  have hkeys : (t.broker.registry.cache.map Prod.fst).toFinset = t.storedKeys.toFinset := by
    ext key
    rw [List.mem_toFinset, List.mem_toFinset, tallied.mem_iff]
  rw [← hkeys, List.toFinset_card_of_nodup tallied.nodup, List.length_map]

/-! ## Loads are steps -/

/-- **What can be done in steps**, whatever loads there are, and leaving them as they
are. -/
def Flows (s s' : Broker) : Prop := ∀ fs, ∃ more, Steps ⟨s, fs⟩ ⟨s', fs ++ more⟩

instance : IsPreorder Broker Flows where
  refl s fs := ⟨[], by rw [List.append_nil]⟩
  trans s s' s'' h h' fs := by
    obtain ⟨more, hmore⟩ := h fs
    obtain ⟨rest, hrest⟩ := h' (fs ++ more)
    refine ⟨more ++ rest, ?_⟩
    rw [← List.append_assoc]
    exact hmore.trans hrest

theorem Flows.of_step {s s' : Broker} (st : ∀ fs, ∃ more, Step ⟨s, fs⟩ ⟨s', fs ++ more⟩) :
    Flows s s' := by
  intro fs
  obtain ⟨more, hmore⟩ := st fs
  exact ⟨more, .single hmore⟩

theorem Flows.of_aside {op : Operation} (beside : op.Aside) (s : Broker) :
    Flows s (op.after s) :=
  .of_step fun fs => ⟨[], by rw [List.append_nil]; exact .aside beside s fs⟩

theorem flows_lookUp (key : CacheKey) : Moves Flows (Registry.lookUp key) := by
  intro s
  refine .of_step fun fs => ?_
  cases hc : s.registry.cached? key with
  | some h =>
    obtain ⟨w, hw⟩ := Registry.lookUp_of_some hc
    rw [hw]
    exact ⟨_, .hit hw⟩
  | none =>
    have hnone := Registry.lookUp_of_none hc
    rw [hnone]
    exact ⟨_, .miss hnone⟩

/-- What happens to the world alone happens beside the cache. -/
theorem flows_inWorld {α : Type} (act : Action World α) : Moves Flows (Broker.inWorld act) := by
  intro s
  have beside : Operation.Aside (.elsewhere (act.on s.world).2) := trivial
  exact .of_aside beside s

/-- **A load is a number of steps**, if what makes its language is. It begins before
the loads that the making begins, and its answer is that of the load. -/
theorem steps_fetch {compute : Action Broker LanguageHandle} (flows : Moves Flows compute)
    (key : CacheKey) (s : Broker) (fs : List Fetch) :
    ∃ f more, Steps ⟨s, fs⟩ ⟨((Registry.fetch key compute).on s).2, fs ++ f :: more⟩ ∧
      f.key = key ∧ f.answer? = some ((Registry.fetch key compute).on s).1 := by
  cases hc : s.registry.cached? key with
  | some h =>
    obtain ⟨w, hw⟩ := Registry.lookUp_of_some hc
    rw [Registry.fetch, on_bind_of_ok hw]
    exact ⟨⟨key, .found h⟩, [], .single (.hit hw), rfl, rfl⟩
  | none =>
    rw [Registry.fetch_of_none hc]
    obtain ⟨more, hmore⟩ := flows s (fs ++ [⟨key, .making⟩])
    -- the making runs with this load among the others, and may begin more of them
    have begun : Steps ⟨s, fs⟩ ⟨(compute.on s).2, fs ++ ⟨key, .making⟩ :: more⟩ := by
      rw [List.append_assoc] at hmore
      exact .head (.miss (Registry.lookUp_of_none hc)) hmore
    rcases hmade : compute.on s with ⟨e | made, t⟩
    · rw [on_bind_of_error hmade]
      rw [hmade] at begun
      exact ⟨⟨key, .failed e⟩, more, begun.tail (.fail t fs more key e), rfl, rfl⟩
    · obtain ⟨kept, t', hins⟩ := Registry.insertIfAbsent_total key made t
      rw [on_bind_of_ok hmade, hins]
      rw [hmade] at begun
      exact ⟨⟨key, .stored made kept⟩, more, begun.tail (.store fs more hins), rfl, rfl⟩

theorem flows_fetch {compute : Action Broker LanguageHandle} (flows : Moves Flows compute)
    (key : CacheKey) : Moves Flows (Registry.fetch key compute) := by
  intro s fs
  obtain ⟨f, more, hsteps, -⟩ := steps_fetch flows key s fs
  exact ⟨f :: more, hsteps⟩

theorem flows_load (k : BackendKind) (n : LanguageName) (reg : Registration) :
    Moves Flows (Registry.load k n reg) :=
  .bind (.of_eq (Registry.ready_state k)) fun _ => flows_fetch (flows_inWorld _) _

end Traffic

/-- **Every operation that does not empty the cache** is a number of steps. -/
theorem Operation.flows {op : Operation} (may : op.May .loadsOnly) (keeps : ¬ op.Clears)
    (s : Broker) : Traffic.Flows s (op.after s) := by
  have aside (beside : op.Aside) : Traffic.Flows s (op.after s) := .of_aside beside s
  cases op with
  | registerBackend e => exact aside trivial
  | registerTag t => exact aside trivial
  | register n k reg => exact aside trivial
  | locate l => exact aside trivial
  | sway k answer => exact aside trivial
  | elsewhere w => exact aside trivial
  | languageFor n backend =>
    rw [after, perform, on_discard]
    exact Registry.languageFor_moves (fun e => Traffic.flows_inWorld _) s
      (fun k reg _ => Traffic.flows_load k n reg) backend
  | loadLibrary k n path symbol =>
    rw [after, perform, on_discard]
    exact Registry.loadLibrary_moves (fun _ => Traffic.flows_load _ _ _) s
  | lookUp key =>
    rw [after, perform, on_discard]
    exact Traffic.flows_lookUp key s
  | insert key h => exact may.elim
  | clearCache => exact (keeps trivial).elim
  | clearAll => exact (keeps trivial).elim

/-! ## One language a key -/

/-- **The laws of a load through the cache.** -/
structure Registry.FetchLaws (key : CacheKey) : Prop where
  /-- What is found is the answer, and nothing is made: the outcome is the same whatever
  the making would have done. -/
  found : ∀ {s : Broker} {h : LanguageHandle}, s.registry.cached? key = some h →
    ∃ w, ∀ compute, (fetch key compute).on s = (.ok h, { s with world := w })
  /-- The error of the making is the answer, and nothing is added to what it left. -/
  failed : ∀ {s s' : Broker} {compute : Action Broker LanguageHandle} {e : Error},
    s.registry.cached? key = none → compute.on s = (.error e, s') →
      (fetch key compute).on s = (.error e, s')
  /-- A load is a load of the traffic, with its answer, if the making is steps. -/
  sections : ∀ {compute : Action Broker LanguageHandle}, Moves Traffic.Flows compute →
    ∀ s fs, ∃ f more,
      Traffic.Steps ⟨s, fs⟩ ⟨((fetch key compute).on s).2, fs ++ f :: more⟩ ∧
      f.key = key ∧ f.answer? = some ((fetch key compute).on s).1

theorem Registry.fetchLaws (key : CacheKey) : Registry.FetchLaws key where
  found hc := fetch_of_some hc
  failed hc hfail := by rw [fetch_of_none hc, on_bind_of_error hfail]
  sections flows s fs := Traffic.steps_fetch flows key s fs

namespace Traffic

variable {s : Broker} {t t' : Traffic}

/-- **Loads agree** at one time and at a later time. -/
structure Agrees (t t' : Traffic) : Prop where
  /-- A load that has answered keeps its answer. -/
  settled : ∀ (i : Nat) (f : Fetch), t.fetches[i]? = some f → f.answer?.isSome = true →
    t'.fetches[i]? = some f
  /-- The language that a load has answered is the one in the cache. -/
  held : ∀ f ∈ t.fetches, ∀ h, f.answer? = some (.ok h) →
    t'.broker.registry.cached? f.key = some h
  /-- Loads of one key answer with one language. -/
  same : ∀ f ∈ t.fetches, ∀ f' ∈ t'.fetches, f.key = f'.key →
    ∀ h h', f.answer? = some (.ok h) → f'.answer? = some (.ok h') → h = h'

theorem Held.agrees (held : t.Held) (st : Steps t t') : t.Agrees t' := by
  have later (f : Fetch) (hf : f ∈ t.fetches) (h : LanguageHandle)
      (answer : f.answer? = some (.ok h)) : t'.broker.registry.cached? f.key = some h :=
    st.keeps (fun last hc => last.cached? hc) (held f hf h answer)
  refine ⟨fun i f hf answered => ?_, later, fun f hf f' hf' hkey h h' answer answer' => ?_⟩
  · exact st.keeps (P := fun t => t.fetches[i]? = some f)
      (fun last hf => last.settled hf answered) hf
  · -- both are what the cache has for the key
    have hc := later f hf h answer
    have hc' := st.keeps Step.held held f' hf' h' answer'
    rw [hkey, hc'] at hc
    exact (Option.some.inj hc).symm

/-- **One language a key.** However loads and other operations are interleaved, all
loads of a key that succeed answer with one language, which is in the cache from then
on; and if the cache was empty at the beginning, it has as many entries as there are
keys of loads that have been through their second section. This is true of every load
and of every operation that does not empty the cache, since all of them are steps. -/
theorem one_language_per_key (before : Steps ⟨s, []⟩ t) (after : Steps t t') :
    t.Agrees t' ∧
      (s.registry.cache = [] →
        t.broker.registry.cache.length = t.storedKeys.toFinset.card) ∧
      (∀ key, Registry.FetchLaws key) ∧
      ∀ op : Operation, op.May .loadsOnly → ¬ op.Clears → ∀ b, Flows b (op.after b) := by
  have held : t.Held := before.keeps Step.held fun f hf => absurd hf List.not_mem_nil
  refine ⟨held.agrees after, fun hempty => ?_, Registry.fetchLaws,
    fun op may keeps b => op.flows may keeps b⟩
  have start : Tallied ⟨s, []⟩ := by
    refine ⟨?_, fun key => ?_⟩ <;> simp [hempty, storedKeys]
  exact (before.keeps Step.tallied start).length_cache

/-- A key that two loads ask for. -/
def contested : CacheKey := .grammar .grammar "assign" ⟨"assign", by decide⟩

/-- The language that each of them makes. -/
def ofLoad (i : Nat) : LanguageHandle where
  identity := i
  name := contested.name
  backend := .grammar
  provenance := .grammar "assign"
  payload := .grammar (Assignment.grammar 0)

/-- Both loads find nothing; the second is the first to be done, and the first answers
with the language of the second. -/
theorem one_language_per_key_race :
    ∃ s t t', Steps ⟨s, []⟩ t ∧ Steps t t' ∧ s.registry.cache = [] ∧
      t.fetches = [⟨contested, .making⟩, ⟨contested, .stored (ofLoad 1) (ofLoad 1)⟩] ∧
      t'.fetches = [⟨contested, .stored (ofLoad 0) (ofLoad 1)⟩,
        ⟨contested, .stored (ofLoad 1) (ofLoad 1)⟩] ∧
      t.Agrees t' ∧ t'.broker.registry.cache.length = t'.storedKeys.toFinset.card := by
  let s : Broker := ⟨.withDefaults default, default⟩
  let s' : Broker := { s with registry := s.registry.putCached contested (ofLoad 1) }
  have hs : s.registry.cached? contested = none := rfl
  have hs' : s'.registry.cached? contested = some (ofLoad 1) := by
    rw [Registry.cached?_putCached, hs, if_pos rfl, Option.none_or]
  have begun : Steps ⟨s, []⟩ ⟨s, [⟨contested, .making⟩, ⟨contested, .making⟩]⟩ := by
    have miss := Registry.lookUp_of_none hs
    exact (Relation.ReflTransGen.single (.miss miss)).tail (.miss miss)
  have before : Steps ⟨s, []⟩
      ⟨s', [⟨contested, .making⟩, ⟨contested, .stored (ofLoad 1) (ofLoad 1)⟩]⟩ :=
    begun.tail (.store [⟨contested, .making⟩] [] (Registry.insertIfAbsent_of_none hs))
  have after : Steps ⟨s', [⟨contested, .making⟩, ⟨contested, .stored (ofLoad 1) (ofLoad 1)⟩]⟩
      ⟨s', [⟨contested, .stored (ofLoad 0) (ofLoad 1)⟩,
        ⟨contested, .stored (ofLoad 1) (ofLoad 1)⟩]⟩ :=
    .single (.store [] _ (Registry.insertIfAbsent_of_some hs'))
  exact ⟨s, _, _, before, after, rfl, rfl, rfl, (one_language_per_key before after).1,
    (one_language_per_key (before.trans after) .refl).2.1 rfl⟩

end Traffic

end TreeBroker
