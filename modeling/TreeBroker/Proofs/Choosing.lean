import TreeBroker.Proofs.RegistryTables
import TreeBroker.Proofs.Supply

/-!
# The backend that is chosen

A language without a backend is loaded by the preferred backend if it is registered for
that one, and otherwise by the first backend, in order of priority, that is able to. *Able
to* is meant at the moment of the call, while the loop asks one backend after another, each
in the world that the failures before it have left. So the first thing to see is that these
failures do not count: an engine looks at the files and at the number of the next object
(`World.Alike`), and a load that fails changes neither, nor the registry. What a backend
gives when its turn comes is what it would have given at once, down to the very handle.

Then the loop is a search: the answer is that of the first backend that has one
(`Registry.toOption_loadFirst`), and it does not matter that it runs through the available
backends only, since the others have none.

Which backend the handle *names* is up to its engine. A foreign engine may name any other
on it, and the registry hands out what it gets. Where engines sign what they load
(`Regime.Signed`), it names the one that was chosen.
-/

namespace TreeBroker

/-! ## Actions that see a part of the state -/

namespace Action

variable {σ α β : Type} {R : σ → σ → Prop} {act : Action σ α} {f : α → Action σ β}

/-- **An action that cannot tell related states apart**: it gives the same answer in both
of them, and leaves related ones. -/
def Respects (R : σ → σ → Prop) (act : Action σ α) : Prop :=
  ∀ s t, R s t → (act.on t).1 = (act.on s).1 ∧ R (act.on s).2 (act.on t).2

namespace Respects

theorem pure (a : α) : Respects R (Pure.pure a : Action σ α) := fun _ _ related => ⟨rfl, related⟩

theorem throw (e : Error) : Respects R (MonadExcept.throw e : Action σ α) :=
  fun _ _ related => ⟨rfl, related⟩

theorem ofExcept (x : Except Error α) : Respects R (Action.ofExcept x : Action σ α) :=
  fun _ _ related => ⟨rfl, related⟩

/-- What neither of two actions can tell apart, both together cannot. -/
theorem bind (h : Respects R act) (hf : ∀ a, Respects R (f a)) : Respects R (act >>= f) := by
  intro s t related
  obtain ⟨answer, left⟩ := h s t related
  rcases hs : act.on s with ⟨x, s'⟩
  rcases ht : act.on t with ⟨y, t'⟩
  rw [hs, ht] at answer left
  obtain rfl : y = x := answer
  cases y with
  | error e =>
    rw [on_bind_of_error hs, on_bind_of_error ht]
    exact ⟨rfl, left⟩
  | ok a =>
    rw [on_bind_of_ok hs, on_bind_of_ok ht]
    exact hf a s' t' left

/-- An action may look at the state as long as it makes nothing of the difference. -/
theorem get {f : σ → Action σ β} (h : ∀ s, Respects R (f s))
    (same : ∀ s t, R s t → f t = f s) : Respects R (MonadState.get >>= f) := by
  intro s t related
  rw [on_bind_of_ok (on_get s), on_bind_of_ok (on_get t), same s t related]
  exact h s s t related

end Respects

/-- **An action that fails without harm**: where it ends in an error, the state that is
left is related to the state before. -/
def FailsWithin (R : σ → σ → Prop) (act : Action σ α) : Prop :=
  ∀ s e s', act.on s = (.error e, s') → R s s'

namespace FailsWithin

theorem of_moves (h : Moves R act) : FailsWithin R act := by
  intro s e s' failed
  have moved := h s
  rwa [failed] at moved

/-- An action that does no harm may come first. -/
theorem after [IsPreorder σ R] (h : Moves R act) (hf : ∀ a, FailsWithin R (f a)) :
    FailsWithin R (act >>= f) := by
  intro s e s' failed
  obtain first | ⟨a, t, done, failed⟩ := on_bind_eq_error.mp failed
  · exact of_moves h s e s' first
  · have moved := h s
    rw [done] at moved
    exact trans_of R moved (hf a t e s' failed)

/-- An action that never fails may follow. -/
theorem before (h : FailsWithin R act) (total : ∀ a s, ∃ b s', (f a).on s = (.ok b, s')) :
    FailsWithin R (act >>= f) := by
  intro s e s' failed
  obtain first | ⟨a, t, -, failed⟩ := on_bind_eq_error.mp failed
  · exact h s e s' first
  · obtain ⟨b, t', done⟩ := total a t
    rw [done] at failed
    cases failed

end FailsWithin

end Action

open TreeBroker.Action

/-! ## What an engine looks at -/

namespace World

/-- **Worlds that are alike**: they have the same files and the same scopes, and the next
object gets the same number. They may differ in what was told and recorded. -/
structure Alike (w w' : World) : Prop where
  /-- The files. -/
  files : w'.files = w.files
  /-- The scopes. -/
  scopes : w'.scopes = w.scopes
  /-- The number of the next object. -/
  made : w'.made = w.made

instance : IsPreorder World Alike where
  refl _ := ⟨rfl, rfl, rfl⟩
  trans _ _ _ h h' :=
    ⟨h'.files.trans h.files, h'.scopes.trans h.scopes, h'.made.trans h.made⟩

theorem respects_tell (e : Event) : Respects Alike (tell e) :=
  fun _ _ alike => ⟨rfl, alike.files, alike.scopes, alike.made⟩

theorem respects_recordCall (call : String) : Respects Alike (recordCall call) :=
  fun _ _ alike => ⟨rfl, alike.files, alike.scopes, alike.made⟩

theorem respects_fresh : Respects Alike fresh := fun _ _ alike =>
  ⟨congrArg Except.ok alike.made, alike.files, alike.scopes, congrArg (· + 1) alike.made⟩

theorem moves_tell (e : Event) : Moves Alike (tell e) := fun _ => ⟨rfl, rfl, rfl⟩

theorem moves_recordCall (call : String) : Moves Alike (recordCall call) :=
  fun _ => ⟨rfl, rfl, rfl⟩

end World

theorem LanguageHandle.respects_make (n : LanguageName) (k : BackendKind) (v : Provenance)
    (c : Payload) : Respects World.Alike (LanguageHandle.make n k v c) :=
  .bind World.respects_fresh fun _ => .pure _

theorem LanguageHandle.make_total (n : LanguageName) (k : BackendKind) (v : Provenance)
    (c : Payload) (w : World) : ∃ h w', (LanguageHandle.make n k v c).on w = (.ok h, w') :=
  ⟨_, _, rfl⟩

theorem respects_failIf {R : World → World → Prop} (failure : Option EngineFailure) :
    Respects R (failIf failure) := by
  cases failure with
  | none => exact .pure _
  | some f => exact .throw _

namespace Engine

/-- **The native language behind a library**: the file is there, and the symbol is linked in
for a version of the interface that is understood. -/
def behind (ss : List (String × NativeLanguage)) (n : LanguageName) (path : FilePath)
    (symbol : String) (files : FileSystem) : Except Error NativeLanguage :=
  if files.isFile path then
    match (ss.find? fun (s, _) => s == symbol).map (·.2) with
    | none => .error (.notAvailable (.unlinked symbol path))
    | some language =>
      if language.isCompatible then .ok language
      else .error (.notAvailable (.incompatible symbol language.version))
  else .error (.notAvailable (.missingLibrary path n))

/-- Loading a library: the checks come first, and what comes after them cannot fail. -/
theorem load_library_eq (ss : List (String × NativeLanguage)) (n : LanguageName)
    (path : FilePath) (symbol : String) :
    (linked ss).load n (.library path symbol) = (do
      let language ← Action.ofExcept (behind ss n path symbol (← get).files)
      World.tell (.ofTexts .debug "Loaded tree-sitter language"
        [("language", n.text), ("path", path.display), ("symbol", symbol)])
      LanguageHandle.make n .treeSitter (.library path symbol) (.native language)) := by
  refine congrArg (MonadState.get >>= ·) (funext fun w => ?_)
  unfold behind
  cases w.files.isFile path with
  | false => rfl
  | true =>
    cases (ss.find? fun (s, _) => s == symbol).map (·.2) with
    | none => rfl
    | some language =>
      dsimp only
      cases language.isCompatible <;> rfl

/-- **An engine looks at the files** and at the number of the next object, and at nothing
else of the world. -/
theorem respects_load (e : Engine) (n : LanguageName) (reg : Registration) :
    Respects World.Alike (e.load n reg) := by
  induction e with
  | linked ss =>
    cases reg with
    | grammar g i => exact .throw _
    | library path symbol =>
      rw [load_library_eq]
      refine .get (fun w => ?_) fun w w' alike => by rw [alike.files]
      refine .bind (.ofExcept _) fun language => .bind (World.respects_tell _) fun _ => ?_
      exact LanguageHandle.respects_make _ _ _ _
  | grammar k =>
    cases reg with
    | library path symbol => exact .throw _
    | grammar g i => exact LanguageHandle.respects_make _ _ _ _
  | stub k inner c m a f ih => exact .bind ih fun h => LanguageHandle.respects_make _ _ _ _
  | foreign f =>
    refine .bind (World.respects_recordCall _) fun _ => .get (fun w => ?_)
      fun w w' alike => by rw [alike.files]
    split
    · exact .throw _
    · exact LanguageHandle.respects_make _ _ _ _

/-- **An engine that fails** has made no object, and touched no file. -/
theorem failsWithin_load (e : Engine) (n : LanguageName) (reg : Registration) :
    FailsWithin World.Alike (e.load n reg) := by
  induction e with
  | linked ss =>
    cases reg with
    | grammar g i => exact .of_moves (.throw _)
    | library path symbol =>
      rw [load_library_eq]
      refine .after .get fun w => .after (.ofExcept _) fun language => ?_
      exact .before (.of_moves (World.moves_tell _)) fun _ => LanguageHandle.make_total _ _ _ _
  | grammar k =>
    cases reg with
    | library path symbol => exact .of_moves (.throw _)
    | grammar g i => exact nofun
  | stub k inner c m a f ih => exact .before ih fun h => LanguageHandle.make_total _ _ _ _
  | foreign f =>
    refine .after (World.moves_recordCall _) fun _ => .after .get fun w => ?_
    split
    · exact .of_moves (.throw _)
    · exact nofun

end Engine

/-! ## What a load looks at -/

namespace Broker

/-- **Brokers that are alike**: they have the same registry, in worlds that are alike. -/
def Alike (s t : Broker) : Prop := t.registry = s.registry ∧ s.world.Alike t.world

instance : IsPreorder Broker Alike where
  refl _ := ⟨rfl, refl_of World.Alike _⟩
  trans _ _ _ h h' := ⟨h'.1.trans h.1, trans_of World.Alike h.2 h'.2⟩

/-- Looking at the registry tells apart what has another one. -/
theorem respects_registryNow {R : Broker → Broker → Prop}
    (same : ∀ s t, R s t → t.registry = s.registry) : Respects R registryNow :=
  fun s t related => ⟨congrArg Except.ok (same s t related), related⟩

theorem Alike.same (s t : Broker) (alike : s.Alike t) : t.registry = s.registry := alike.1

theorem respects_inWorld {α : Type} {act : Action World α} (h : Respects World.Alike act) :
    Respects Alike (inWorld act) :=
  fun _ _ alike => ⟨(h _ _ alike.2).1, alike.1, (h _ _ alike.2).2⟩

theorem respects_change (f : Registry → Registry) : Respects Alike (change f) :=
  fun _ _ alike => ⟨rfl, congrArg f alike.1, alike.2⟩

theorem failsWithin_inWorld {α : Type} {act : Action World α}
    (h : FailsWithin World.Alike act) : FailsWithin Alike (inWorld act) := by
  intro s e s' failed
  rw [on_inWorld, Prod.mk.injEq] at failed
  obtain ⟨failed, rfl⟩ := failed
  exact ⟨rfl, h _ _ _ (Prod.ext failed rfl)⟩

theorem alike_told (s : Broker) (events : List Event) : s.Alike (s.told events) :=
  ⟨rfl, rfl, rfl, rfl⟩

theorem moves_tell_alike (e : Event) : Moves Alike (tell e) := fun s => s.alike_told [e]

end Broker

namespace Registry

open Broker

variable {s t : Broker} {n : LanguageName} {k : BackendKind} {reg : Registration}
  {h : LanguageHandle}

theorem respects_ready {R : Broker → Broker → Prop}
    (same : ∀ s t, R s t → t.registry = s.registry) (k : BackendKind) :
    Respects R (ready k) := by
  refine .bind (respects_registryNow same) fun r => ?_
  split
  · exact .throw _
  · split
    · exact .pure _
    · exact .throw _

theorem respects_lookUp (key : CacheKey) : Respects Broker.Alike (lookUp key) := by
  refine .bind (respects_registryNow Alike.same) fun r => ?_
  split
  · exact .bind (respects_inWorld (World.respects_tell _)) fun _ => .pure _
  · exact .pure _

theorem respects_insertIfAbsent (key : CacheKey) (h : LanguageHandle) :
    Respects Broker.Alike (insertIfAbsent key h) := by
  refine .bind (respects_registryNow Alike.same) fun r => ?_
  split
  · exact .pure _
  · exact .bind (respects_change _) fun _ => .pure _

theorem moves_lookUp_alike (key : CacheKey) : Moves Broker.Alike (lookUp key) := by
  refine .bind (.of_eq fun _ => rfl) fun r => ?_
  split
  · exact .bind (moves_tell_alike _) fun _ => .pure _
  · exact .pure _

theorem respects_fetch (key : CacheKey) {compute : Action Broker LanguageHandle}
    (h : Respects Broker.Alike compute) : Respects Broker.Alike (fetch key compute) := by
  refine .bind (respects_lookUp key) fun found => ?_
  cases found with
  | some h => exact .pure h
  | none => exact .bind h (respects_insertIfAbsent key)

theorem failsWithin_fetch (key : CacheKey) {compute : Action Broker LanguageHandle}
    (h : FailsWithin Broker.Alike compute) : FailsWithin Broker.Alike (fetch key compute) := by
  refine .after (moves_lookUp_alike key) fun found => ?_
  cases found with
  | some h => exact .of_moves (.pure h)
  | none => exact .before h (insertIfAbsent_total key)

/-- **A load looks at the registry**, and at what its engine looks at. -/
theorem respects_load (k : BackendKind) (n : LanguageName) (reg : Registration) :
    Respects Broker.Alike (load k n reg) :=
  .bind (respects_ready Alike.same k) fun i =>
    respects_fetch _ (respects_inWorld (i.engine.respects_load n reg))

/-- **A load that fails** leaves a broker in which the next load finds everything as it was. -/
theorem failsWithin_load (k : BackendKind) (n : LanguageName) (reg : Registration) :
    FailsWithin Broker.Alike (load k n reg) :=
  .after (.of_eq (ready_state k)) fun i =>
    failsWithin_fetch _ (failsWithin_inWorld (i.engine.failsWithin_load n reg))

end Registry

/-! ## One backend after another -/

namespace Broker

open Registry

variable {s t : Broker} {n : LanguageName} {k : BackendKind} {h : LanguageHandle}

/-- **The language that a backend gives**, if it alone is asked: its slot is loaded. -/
def loaded? (s : Broker) (n : LanguageName) (k : BackendKind) : Option LanguageHandle :=
  (s.registry.registeredFor? n k).bind fun reg => ((load k n reg).on s).1.toOption

theorem loaded?_of_slot {reg : Registration} (slot : s.registry.registeredFor? n k = some reg) :
    s.loaded? n k = ((load k n reg).on s).1.toOption := by
  rw [loaded?, slot, Option.bind_some]

theorem loaded?_of_no_slot (slot : s.registry.registeredFor? n k = none) :
    s.loaded? n k = none := by
  rw [loaded?, slot, Option.bind_none]

/-- A backend gives a language if a load of its slot does. -/
theorem loaded?_eq_some_iff : s.loaded? n k = some h ↔
    ∃ reg s', s.registry.registeredFor? n k = some reg ∧ (load k n reg).on s = (.ok h, s') := by
  cases slot : s.registry.registeredFor? n k with
  | none =>
    rw [loaded?_of_no_slot slot]
    exact ⟨nofun, nofun⟩
  | some reg =>
    rw [loaded?_of_slot slot]
    rcases hl : (load k n reg).on s with ⟨e | h', s'⟩
    · refine ⟨nofun, ?_⟩
      rintro ⟨reg', t, same, answer⟩
      cases same
      rw [hl] at answer
      cases answer
    · refine ⟨fun same => ⟨reg, s', rfl, ?_⟩, ?_⟩
      · rw [hl, Option.some.inj same]
      · rintro ⟨reg', t, same, answer⟩
        cases same
        rw [hl] at answer
        cases answer
        rfl

/-- A backend that gives nothing fails to load its slot, if it has one. -/
theorem load_error_of_loaded? (nothing : s.loaded? n k = none) {reg : Registration}
    (slot : s.registry.registeredFor? n k = some reg) :
    ∃ e s', (load k n reg).on s = (.error e, s') := by
  rw [loaded?_of_slot slot] at nothing
  rcases hl : (load k n reg).on s with ⟨e | h, s'⟩
  · exact ⟨e, s', rfl⟩
  · rw [hl] at nothing
    cases nothing

/-- **What backends give does not depend on what has failed before.** -/
theorem Alike.loaded?_eq (alike : s.Alike t) (n : LanguageName) : t.loaded? n = s.loaded? n := by
  funext k
  unfold loaded?
  rw [alike.1]
  refine congrArg (Option.bind _) (funext fun reg => ?_)
  rw [(respects_load k n reg s t alike).1]

/-- A backend that gives something is available. -/
theorem isAvailable_of_loaded? (gives : s.loaded? n k = some h) :
    s.registry.isAvailable k = true := by
  obtain ⟨reg, s', -, answer⟩ := loaded?_eq_some_iff.mp gives
  obtain ⟨i, -, available, -⟩ := load_ok answer
  exact available

end Broker

namespace Registry

open Broker

variable {s s' : Broker} {n : LanguageName} {k : BackendKind} {slots : List Slot} {e : Error}

/-- **The loop is a search**: it answers what the first of the backends gives that gives
something. -/
theorem toOption_loadFirst (hslots : ∀ k, slotFor? slots k = s.registry.registeredFor? n k)
    (ks : List BackendKind) (failures : List (BackendKind × String)) :
    ((loadFirst n slots ks failures).on s).1.toOption = ks.findSome? (s.loaded? n) := by
  -- the loop goes on in the broker that a failure leaves, where the backends give the same
  induction ks generalizing s failures with
  | nil => cases failures <;> rfl
  | cons k ks ih =>
    rw [loadFirst, List.findSome?_cons, hslots]
    cases slot : s.registry.registeredFor? n k with
    | none =>
      rw [loaded?_of_no_slot slot]
      exact ih hslots failures
    | some reg =>
      rw [loaded?_of_slot slot]
      dsimp only
      rw [on_bind_of_ok (on_attempt _ _)]
      rcases hl : (load k n reg).on s with ⟨e | h, s'⟩
      · have alike (event : Event) : s.Alike (s'.told [event]) :=
          trans_of Broker.Alike (failsWithin_load k n reg s e s' hl) (s'.alike_told [event])
        dsimp only
        rw [on_bind_of_ok (on_tell _ s'), ih fun k' => by rw [hslots, (alike _).1],
          (alike _).loaded?_eq]
        rfl
      · rfl

/-- A loop that comes to its end without an answer says so. -/
theorem loadFirst_error {ks : List BackendKind} {failures : List (BackendKind × String)}
    (failed : (loadFirst n slots ks failures).on s = (.error e, s')) :
    ∃ why, e = .notAvailable why := by
  induction ks generalizing s failures with
  | nil =>
    cases failures with
    | nil =>
      cases failed
      exact ⟨_, rfl⟩
    | cons f fs =>
      cases failed
      exact ⟨_, rfl⟩
  | cons k ks ih =>
    rw [loadFirst] at failed
    split at failed
    · exact ih failed
    · next reg _ =>
      rw [on_bind_of_ok (on_attempt _ _)] at failed
      rcases hl : (load k n reg).on s with ⟨e' | h, t⟩
      · rw [hl] at failed
        dsimp only at failed
        rw [on_bind_of_ok (on_tell _ t)] at failed
        exact ih failed
      · rw [hl] at failed
        cases failed

/-! ## The order of priority -/

/-- The available backends are those of the tags, in their order. -/
theorem Tabular.available_eq {r : Registry} (hr : r.Tabular) :
    r.available = (r.tags.map Tag.kind).filter r.isAvailable := by
  rw [available, List.filter_map]
  refine congrArg (List.map Tag.kind) (List.filter_congr fun t ht => ?_)
  have found : r.tag? t.kind = some t := (find?_eq_some_iff Tag.kind hr.tags).mpr ⟨ht, rfl⟩
  show _ = ((r.engine? t.kind).isSome && (r.tag? t.kind).any Tag.isAvailable)
  rw [found, Option.any_some]

/-- A backend that is available has a tag. -/
theorem mem_kinds_of_isAvailable {r : Registry} (available : r.isAvailable k = true) :
    k ∈ r.tags.map Tag.kind := by
  unfold isAvailable at available
  cases tag : r.tag? k with
  | none =>
    rw [tag, Option.any_none, Bool.and_false] at available
    cases available
  | some t =>
    refine List.mem_map.mpr ⟨t, List.mem_of_find?_eq_some tag, ?_⟩
    simpa using List.find?_some tag

/-- Among the backends of the tags, those that are not available are passed over. -/
theorem findSome?_available (hr : s.registry.Tabular) :
    s.registry.available.findSome? (s.loaded? n) =
      (s.registry.tags.map Tag.kind).findSome? (s.loaded? n) := by
  rw [hr.available_eq]
  induction s.registry.tags.map Tag.kind with
  | nil => rfl
  | cons k ks ih =>
    cases gives : s.loaded? n k with
    | some h =>
      rw [List.filter_cons_of_pos (isAvailable_of_loaded? gives), List.findSome?_cons,
        List.findSome?_cons, gives]
    | none =>
      rw [List.filter_cons, List.findSome?_cons, gives]
      split
      · rw [List.findSome?_cons, gives]
        exact ih
      · exact ih

/-! ## Choosing -/

/-- A language without a slot for the backend that is asked for is not available. -/
theorem on_languageFor_of_no_slot (slot : s.registry.registeredFor? n k = none) :
    ∃ why, (languageFor n (some k)).on s = (.error (.notAvailable why), s) := by
  show ∃ why, (registryNow >>= _ : Action Broker LanguageHandle).on s = _
  rw [on_bind_of_ok (on_registryNow s)]
  by_cases hslots : (s.registry.registered n).isEmpty = true
  · simp only [hslots, if_true]
    exact ⟨_, rfl⟩
  · simp only [hslots, Bool.false_eq_true, if_false, slotFor?_registered, slot]
    exact ⟨_, rfl⟩

/-- **The preferred backend**, if it has a slot, is the only one that is tried. -/
theorem on_languageFor_preferred {reg : Registration} (preferred : preferred? s = some k)
    (slot : s.registry.registeredFor? n k = some reg) :
    (languageFor n none).on s = (load k n reg).on s := by
  show (registryNow >>= _ : Action Broker LanguageHandle).on s = _
  rw [on_bind_of_ok (on_registryNow s)]
  simp only [registered_isEmpty_of_registeredFor? slot, Bool.false_eq_true, if_false]
  rw [on_bind_of_ok (on_get s)]
  simp only [preferred, slotFor?_registered, slot]

/-- **Without a preferred backend that has a slot**, all of them are tried; an event may be
told first. -/
theorem on_languageFor_none (hslots : (s.registry.registered n).isEmpty = false)
    (nobody : ∀ k, preferred? s = some k → s.registry.registeredFor? n k = none) :
    ∃ events, (languageFor n none).on s =
      (loadFirst n (s.registry.registered n) s.registry.available []).on (s.told events) := by
  show ∃ events, (registryNow >>= _ : Action Broker LanguageHandle).on s = _
  rw [on_bind_of_ok (on_registryNow s)]
  simp only [hslots, Bool.false_eq_true, if_false]
  rw [on_bind_of_ok (on_get s)]
  cases preferred : preferred? s with
  | none =>
    refine ⟨[], ?_⟩
    rw [told_nil]
    rfl
  | some k =>
    simp only [slotFor?_registered, nobody k preferred]
    exact ⟨[_], rfl⟩

/-- A language that has no slot is not given by any backend. -/
theorem loaded?_of_isEmpty (hslots : (s.registry.registered n).isEmpty = true) :
    s.loaded? n k = none := by
  cases slot : s.registry.registeredFor? n k with
  | none => exact loaded?_of_no_slot slot
  | some reg =>
    rw [registered_isEmpty_of_registeredFor? slot] at hslots
    cases hslots

theorem on_languageFor_of_isEmpty (hslots : (s.registry.registered n).isEmpty = true) :
    (languageFor n none).on s = (.error (.notAvailable (.unknownLanguage n)), s) := by
  show (registryNow >>= _ : Action Broker LanguageHandle).on s = _
  rw [on_bind_of_ok (on_registryNow s)]
  simp only [hslots, if_true]
  rfl

/-- **The best backend** is the first in order of priority that gives something. -/
theorem toOption_languageFor (hr : s.registry.Tabular)
    (nobody : ∀ k, preferred? s = some k → s.registry.registeredFor? n k = none) :
    ((languageFor n none).on s).1.toOption =
      (s.registry.tags.map Tag.kind).findSome? (s.loaded? n) := by
  cases hslots : (s.registry.registered n).isEmpty with
  | true =>
    rw [on_languageFor_of_isEmpty hslots]
    exact (List.findSome?_eq_none_iff.mpr fun _ _ => loaded?_of_isEmpty hslots).symm
  | false =>
    obtain ⟨events, hon⟩ := on_languageFor_none hslots nobody
    have alike := s.alike_told events
    rw [hon, toOption_loadFirst (s := s.told events) (slotFor?_registered s.registry n),
      alike.loaded?_eq, findSome?_available hr]

theorem languageFor_eq_ok_iff {h : LanguageHandle} (hr : s.registry.Tabular)
    (nobody : ∀ k, preferred? s = some k → s.registry.registeredFor? n k = none) :
    ((languageFor n none).on s).1 = .ok h ↔
      (s.registry.tags.map Tag.kind).findSome? (s.loaded? n) = some h := by
  rw [← toOption_languageFor hr nobody]
  cases ((languageFor n none).on s).1 with
  | error e => exact ⟨nofun, nofun⟩
  | ok h' =>
    refine ⟨fun same => congrArg Except.toOption same, fun same => ?_⟩
    exact congrArg Except.ok (Option.some.inj same)

theorem languageFor_error
    (nobody : ∀ k, preferred? s = some k → s.registry.registeredFor? n k = none)
    (failed : (languageFor n none).on s = (.error e, s')) : ∃ why, e = .notAvailable why := by
  cases hslots : (s.registry.registered n).isEmpty with
  | true =>
    rw [on_languageFor_of_isEmpty hslots] at failed
    cases failed
    exact ⟨_, rfl⟩
  | false =>
    obtain ⟨events, hon⟩ := on_languageFor_none hslots nobody
    rw [hon] at failed
    exact loadFirst_error failed

end Registry

namespace Broker

open Registry

variable {G : Regime} {s : Broker} {n : LanguageName} {k : BackendKind} {h : LanguageHandle}

/-- **A backend that is able to load a language**: it is available, and a load of its slot
gives the language. -/
structure Loads (s : Broker) (n : LanguageName) (k : BackendKind) (h : LanguageHandle) : Prop where
  /-- It is available. -/
  available : s.registry.isAvailable k = true
  /-- Its slot is loaded. -/
  loaded : ∃ reg s', s.registry.registeredFor? n k = some reg ∧ (load k n reg).on s = (.ok h, s')

/-- **The first backend that is able to load a language**, in the order of the tags: those
before it that are available and have a slot fail to load it. -/
structure FirstToLoad (s : Broker) (n : LanguageName) (k : BackendKind) (h : LanguageHandle) :
    Prop where
  /-- It is able to. -/
  loads : s.Loads n k h
  /-- The others before it are not. -/
  before : ∃ before after, s.registry.tags.map Tag.kind = before ++ k :: after ∧
    ∀ k' ∈ before, s.registry.isAvailable k' = true →
      ∀ reg, s.registry.registeredFor? n k' = some reg →
        ∃ e s', (load k' n reg).on s = (.error e, s')

/-- **The best backend is chosen** for a language. -/
structure ChoosesBest (G : Regime) (s : Broker) (n : LanguageName) : Prop where
  /-- There is an answer exactly if some backend is able to load the language. -/
  answers : (∃ h, ((languageFor n none).on s).1 = .ok h) ↔ ∃ k h, s.Loads n k h
  /-- It is what the first of them gives; and it names that backend, where languages name
  their backend at all. -/
  first : ∀ h, ((languageFor n none).on s).1 = .ok h →
    ∃ k, s.FirstToLoad n k h ∧ (G.Signed → h.backend = k)
  /-- Otherwise the language is not available. -/
  otherwise : ∀ e, ((languageFor n none).on s).1 = .error e → ∃ why, e = .notAvailable why

theorem loads_iff : s.Loads n k h ↔ s.loaded? n k = some h := by
  rw [loaded?_eq_some_iff]
  constructor
  · exact Loads.loaded
  · intro loaded
    exact ⟨isAvailable_of_loaded? (loaded?_eq_some_iff.mpr loaded), loaded⟩

/-- What is found by going through the tags is what the first backend gives. -/
theorem exists_firstToLoad
    (found : (s.registry.tags.map Tag.kind).findSome? (s.loaded? n) = some h) :
    ∃ k, s.FirstToLoad n k h := by
  obtain ⟨before, k, after, split, gives, nothing⟩ := List.findSome?_eq_some_iff.mp found
  refine ⟨k, loads_iff.mpr gives, before, after, split, fun k' hk' _ reg slot => ?_⟩
  exact load_error_of_loaded? (nothing k' hk') slot

/-- A backend that is able to load a language has a tag. -/
theorem Loads.mem_tags (loads : s.Loads n k h) : k ∈ s.registry.tags.map Tag.kind :=
  mem_kinds_of_isAvailable loads.available

theorem choosesBest_of_tabular (hr : s.registry.Tabular) (sound : s.registry.Sound G)
    (nobody : ∀ k, preferred? s = some k → s.registry.registeredFor? n k = none) :
    s.ChoosesBest G n := by
  have first (h : LanguageHandle) (answer : ((languageFor n none).on s).1 = .ok h) :
      ∃ k, s.FirstToLoad n k h := by
    rw [languageFor_eq_ok_iff hr nobody] at answer
    exact exists_firstToLoad answer
  refine ⟨⟨?_, ?_⟩, fun h answer => ?_, fun e answer => ?_⟩
  · rintro ⟨h, answer⟩
    obtain ⟨k, hk⟩ := first h answer
    exact ⟨k, h, hk.loads⟩
  · rintro ⟨k, h, loads⟩
    have found : ((s.registry.tags.map Tag.kind).findSome? (s.loaded? n)).isSome = true := by
      rw [List.findSome?_isSome_iff]
      exact ⟨k, loads.mem_tags, by rw [loads_iff.mp loads]; rfl⟩
    obtain ⟨h', found⟩ := Option.isSome_iff_exists.mp found
    exact ⟨h', (languageFor_eq_ok_iff hr nobody).mpr found⟩
  · obtain ⟨k, hk⟩ := first h answer
    refine ⟨k, hk, fun signed => ?_⟩
    obtain ⟨reg, s', -, loaded⟩ := hk.loads.loaded
    exact load_backend signed sound loaded
  · exact languageFor_error nobody (Prod.ext answer rfl)

/-- **How the backend of a language is chosen**, in every broker that a run leads to. A
backend that is asked for loads its slot, or the language is not available. A preferred
backend that has a slot loads it, for better or worse. In all other cases the first backend
that is able to load the language does. -/
theorem Reachable.languageFor_chooses (hs : s.Reachable G) (n : LanguageName) :
    (∀ k, match s.registry.registeredFor? n k with
      | some reg => (languageFor n (some k)).on s = (load k n reg).on s
      | none => ∃ why, (languageFor n (some k)).on s = (.error (.notAvailable why), s)) ∧
    (∀ k reg, preferred? s = some k → s.registry.registeredFor? n k = some reg →
      (languageFor n none).on s = (load k n reg).on s) ∧
    ((∀ k, preferred? s = some k → s.registry.registeredFor? n k = none) →
      s.ChoosesBest G n) := by
  refine ⟨fun k => ?_, fun k reg => on_languageFor_preferred, ?_⟩
  · cases slot : s.registry.registeredFor? n k with
    | some reg => exact on_languageFor_some slot
    | none => exact on_languageFor_of_no_slot slot
  · exact choosesBest_of_tabular hs.tabular hs.sound

/-! ## A backend that fails, and one that misleads -/

/-- The backend that comes first in the registries below. -/
def alpha : BackendKind := ⟨"alpha", by decide⟩

/-- The language that is asked for. -/
def wanted : LanguageName := ⟨"wanted", by decide⟩

/-- A registry with two backends for one language: that of some engine, which comes first,
and that for grammars. -/
def rivals (e : Engine) : Broker :=
  run ⟨.empty default, default⟩
    [.registerBackend e, .registerBackend (.grammar .grammar),
      .register wanted e.kind (.grammar (Assignment.grammar 0) "assign"),
      .register wanted .grammar (.grammar (Assignment.grammar 0) "assign")]

theorem reachable_rivals {e : Engine} (may : G.engine e) (grammar : G.engine (.grammar .grammar)) :
    (rivals e).Reachable G :=
  .step _ trivial (.step _ trivial (.step (.registerBackend (.grammar .grammar)) grammar
    (.step (.registerBackend e) may (.empty default default))))

/-- An engine that passes for one of this process, with an engine for libraries behind it. -/
def pretender : Engine := .wrapping alpha (.linked []) .inProcess .minimal

-- No backend is preferred. The pretender comes first and fails, and the next one is chosen.
theorem Reachable.languageFor_chooses_pretender :
    (rivals pretender).Reachable .own ∧ preferred? (rivals pretender) = none ∧
      (rivals pretender).registry.tags.map Tag.kind = [alpha, .grammar] ∧
      ∃ h, ((languageFor wanted none).on (rivals pretender)).1 = .ok h ∧
        h.backend = .grammar := by
  have reachable : (rivals pretender).Reachable .own := reachable_rivals trivial trivial
  obtain ⟨-, -, best⟩ := reachable.languageFor_chooses wanted
  have chooses : (rivals pretender).ChoosesBest .own wanted := best nofun
  obtain ⟨h, answer⟩ := chooses.answers.mpr ⟨.grammar, _, rfl, _, _, rfl, rfl⟩
  obtain ⟨k, first, signed⟩ := chooses.first h answer
  refine ⟨reachable, rfl, rfl, h, answer, (signed Regime.signed_own).trans ?_⟩
  have tagged : k ∈ [alpha, .grammar] := first.loads.mem_tags
  obtain rfl | rfl : k = alpha ∨ k = .grammar := by simpa using tagged
  · obtain ⟨reg, s', slot, loaded⟩ := first.loads.loaded
    cases slot
    cases loaded
  · rfl

/-- An engine that names another backend on what it loads. -/
def impostor : Engine := .foreign
  { kind := alpha, category := .inProcess, form := .name, manifest := .minimal, available := true
    load := fun _ name reg => .ok ⟨name, ⟨"beta", by decide⟩, reg.provenance, .named⟩
    parserFailure := none
    setLanguage := fun memory raw => (.ok (), memory ++ [raw])
    parse := fun _ _ => .ok ⟨[], false⟩
    reparse := fun _ _ _ => .ok ⟨[], false⟩ }

/-- **A language that names another backend** than the one that was chosen. -/
theorem languageFor_misnamed :
    (rivals impostor).Reachable .free ∧ preferred? (rivals impostor) = none ∧
      (rivals impostor).registry.tags.map Tag.kind = [alpha, .grammar] ∧
      ∃ h, (rivals impostor).Loads wanted alpha h ∧
        ((languageFor wanted none).on (rivals impostor)).1 = .ok h ∧ h.backend ≠ alpha := by
  have reachable : (rivals impostor).Reachable .free := reachable_rivals trivial trivial
  refine ⟨reachable, rfl, rfl, _, ⟨rfl, _, _, rfl, rfl⟩, ?_, by decide⟩
  exact (languageFor_eq_ok_iff reachable.tabular nofun).mpr rfl

end Broker

end TreeBroker
