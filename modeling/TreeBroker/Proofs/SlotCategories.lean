import TreeBroker.Proofs.Freshness
import TreeBroker.Proofs.RegistryTables

/-!
# Slots and the categories of backends

A library is for native backends, a grammar for those of this process. The tag of a
backend says which of the two it is, and a registration of the other category is
refused.

One would like every slot to be of the category of its backend, and that depends on the
order. A language may be registered for a backend that nobody has announced, a tag may
be replaced, and neither putting down a tag nor installing an engine looks at the
slots. So a backend can be announced *after* its slots are filled, and against them
(`Broker.run_slot_contrary`).

What ends this is the engine. A tag has to agree with the engine of its backend and an
engine with the tag, so the category of a backend is settled with its first engine, and
what is registered from then on is of the category of the tag for ever. What was
registered before is of the category of the tag, unless the backend has been announced
again since, while it had no engine (`Broker.run_slot_family`).
-/

namespace TreeBroker

open TreeBroker.Action

/-! ## Slots and tags of a registry -/

namespace Registry

variable (r : Registry)

theorem registrations_putTag (t : Tag) : (r.putTag t).registrations = r.registrations := by
  rw [putTag_eq]

theorem registrations_install (e : Engine) :
    (r.install e).registrations = r.registrations := by
  unfold install
  rw [putEngine_eq]
  split <;> rfl

/-- What is registered is read off the slot maps. -/
theorem registeredFor?_congr {r r' : Registry} (h : r'.registrations = r.registrations)
    (n : LanguageName) (k : BackendKind) : r'.registeredFor? n k = r.registeredFor? n k := by
  unfold registeredFor? slotMap?
  rw [h]

/-- A backend without a tag has none after a predicate changed its mind. -/
theorem tag?_sway_eq_none {r : Registry} {k : BackendKind} (answer : Bool) {k' : BackendKind}
    (h : r.tag? k' = none) : (r.sway k answer).tag? k' = none := by
  have hkinds : k' ∉ r.tags.map Tag.kind := by
    simpa [tag?] using h
  rw [← kinds_sway r k answer] at hkinds
  simpa [tag?] using hkinds

/-- **A registration fits a backend** that has no tag, or one of its category. -/
def Fits (k : BackendKind) (reg : Registration) : Prop :=
  ∀ t, r.tag? k = some t → t.category = reg.category

end Registry

/-! ## One operation -/

/-- **What fills slots**: the tags stay as they are, and a registration that is new fits
its backend. -/
structure Broker.Fills (s s' : Broker) : Prop where
  tags : ∀ k, s'.registry.tag? k = s.registry.tag? k
  slots : ∀ {n k reg}, s'.registry.registeredFor? n k = some reg →
    s.registry.registeredFor? n k = some reg ∨ s.registry.Fits k reg

namespace Broker.Fills

variable {s s' : Broker}

/-- What does not touch tags and slots. -/
theorem of_eq (tags : s'.registry.tags = s.registry.tags)
    (same : s'.registry.registrations = s.registry.registrations) : s.Fills s' where
  tags k := by rw [Registry.tag?, tags, Registry.tag?]
  slots h := by
    rw [Registry.registeredFor?_congr same] at h
    exact .inl h

instance : IsPreorder Broker Fills where
  refl _ := .of_eq rfl rfl
  trans s t u h h' := by
    refine ⟨fun k => (h'.tags k).trans (h.tags k), fun hu => ?_⟩
    obtain ht | hfits := h'.slots hu
    · exact h.slots ht
    · exact .inr fun t ht => hfits t ((h.tags _).trans ht)

theorem moves_register (n : LanguageName) (k : BackendKind) (reg : Registration) :
    Moves Fills (Registry.register n k reg) := by
  intro s
  obtain hsame | ⟨-, fits, hput⟩ := Registry.register_cases n k reg s
  · exact .of_eq (congrArg Registry.tags hsame) (congrArg Registry.registrations hsame)
  · refine ⟨fun k' => by rw [hput, Registry.tag?_putSlot], fun {n' k' reg'} h => ?_⟩
    rw [hput, Registry.registeredFor?_putSlot] at h
    split at h
    · next hkey =>
      obtain ⟨rfl, rfl⟩ := hkey
      cases h
      exact .inr fits
    · exact .inl h

theorem moves_load (k : BackendKind) (n : LanguageName) (reg : Registration) :
    Moves Fills (Registry.load k n reg) := by
  intro s
  obtain hsame | ⟨i, h, w, w', -, -, -, hput⟩ := Registry.load_cases k n reg s
  · exact .of_eq (congrArg Registry.tags hsame) (congrArg Registry.registrations hsame)
  · exact .of_eq (by rw [hput]; rfl) (by rw [hput]; rfl)

end Broker.Fills

namespace Operation

/-- **An operation on labels**: it may change the tags, and leaves the slots alone. -/
def OnLabels : Operation → Prop
  | registerBackend _ => True
  | registerTag _ => True
  | sway .. => True
  | _ => False

theorem registrations_after_of_onLabels {op : Operation} (labels : op.OnLabels) (s : Broker) :
    (op.after s).registry.registrations = s.registry.registrations := by
  cases op with
  | registerBackend e =>
    obtain hsame | ⟨-, hput⟩ := Registry.registerBackend_cases e s
    · exact congrArg Registry.registrations hsame
    · exact (congrArg Registry.registrations hput).trans (s.registry.registrations_install e)
  | registerTag t =>
    obtain hsame | ⟨-, hput⟩ := Registry.registerTag_cases t s
    · exact congrArg Registry.registrations hsame
    · exact (congrArg Registry.registrations hput).trans (s.registry.registrations_putTag t)
  | sway k answer => rfl
  | _ => exact labels.elim

/-- **Every other operation** fills slots at most. -/
theorem fills_after {op : Operation} (labels : ¬op.OnLabels) (s : Broker) :
    s.Fills (op.after s) := by
  have tells (e : Event) : Moves Broker.Fills (Broker.tell e) := fun _ => .of_eq rfl rfl
  cases op with
  | registerBackend e => exact absurd trivial labels
  | registerTag t => exact absurd trivial labels
  | sway k answer => exact absurd trivial labels
  | register n k reg => exact Broker.Fills.moves_register n k reg s
  | languageFor n backend =>
    rw [after, perform, on_discard]
    exact Registry.languageFor_moves tells s (fun _ _ _ => Broker.Fills.moves_load _ _ _) backend
  | loadLibrary k n path symbol =>
    rw [after, perform, on_discard]
    exact Registry.loadLibrary_moves (fun _ => Broker.Fills.moves_load _ _ _) s
  | lookUp key =>
    have hsame := Registry.registry_lookUp key s
    rw [after, perform, on_discard]
    exact .of_eq (congrArg Registry.tags hsame) (congrArg Registry.registrations hsame)
  | insert key h =>
    rw [after, perform, on_discard]
    cases hc : s.registry.cached? key with
    | some stored =>
      rw [Registry.insertIfAbsent_of_some hc]
      exact .of_eq rfl rfl
    | none =>
      rw [Registry.insertIfAbsent_of_none hc]
      exact .of_eq rfl rfl
  | locate l =>
    rw [after, perform, on_discard]
    exact Registry.locate_moves tells Broker.Fills.moves_register l s
  | clearCache => exact .of_eq rfl rfl
  | clearAll =>
    refine ⟨fun _ => rfl, fun h => ?_⟩
    cases h
  | elsewhere w => exact .of_eq rfl rfl

variable {s : Broker} {op : Operation} {n : LanguageName} {k : BackendKind} {reg : Registration}

/-- **What becomes of a slot in an operation.** A registration that is new fits the tag of
its backend, which is the same before and after. -/
theorem fits_of_new (h : (op.after s).registry.registeredFor? n k = some reg)
    (hnew : s.registry.registeredFor? n k ≠ some reg) :
    s.registry.Fits k reg ∧ (op.after s).registry.tag? k = s.registry.tag? k := by
  by_cases labels : op.OnLabels
  · rw [Registry.registeredFor?_congr (registrations_after_of_onLabels labels s)] at h
    exact absurd h hnew
  · have hfills := fills_after labels s
    exact ⟨(hfills.slots h).resolve_left hnew, hfills.tags k⟩

/-- **An operation announces a backend** as one of a category: it registers a tag of the
backend, or an engine where there is no tag. -/
def Announces (r : Registry) (k : BackendKind) (c : Category) : Operation → Prop
  | registerTag t => t.kind = k ∧ t.category = c
  | registerBackend e => e.kind = k ∧ e.category = c ∧ r.tag? k = none
  | _ => False

/-- **What becomes of a tag in an operation.** Its category is that of the tag before,
unless the backend has no engine and the operation announces it. -/
theorem tag?_cases {G : Regime} (sound : s.registry.Sound G) {t : Tag}
    (ht : (op.after s).registry.tag? k = some t) :
    (∃ old, s.registry.tag? k = some old ∧ old.category = t.category) ∨
      s.registry.engine? k = none ∧ op.Announces s.registry k t.category := by
  have same (h : (op.after s).registry.tag? k = s.registry.tag? k) :
      ∃ old, s.registry.tag? k = some old ∧ old.category = t.category :=
    ⟨t, h.symm.trans ht, rfl⟩
  cases op with
  | registerBackend e =>
    obtain hsame | ⟨-, hput⟩ := Registry.registerBackend_cases e s
    · exact .inl (same (congrArg (Registry.tag? · k) hsame))
    · have hput : (after (.registerBackend e) s).registry = s.registry.install e := hput
      rw [hput, Registry.tag?_install] at ht
      obtain hold | ⟨hnone, hnew⟩ := Option.or_eq_some_iff.mp ht
      · exact .inl ⟨t, hold, rfl⟩
      · -- a backend with an engine has a tag
        have hengine : s.registry.engine? k = none := by
          by_contra hsome
          obtain ⟨i, hi⟩ := Option.ne_none_iff_exists'.mp hsome
          obtain ⟨old, hold, -⟩ := sound.announced hi
          rw [hnone] at hold
          cases hold
        obtain ⟨hk, rfl⟩ : e.kind = k ∧ Tag.ofEngine e = t := by simpa using hnew
        exact .inr ⟨hengine, hk, rfl, hnone⟩
  | registerTag t' =>
    obtain hsame | ⟨agrees, hput⟩ := Registry.registerTag_cases t' s
    · exact .inl (same (congrArg (Registry.tag? · k) hsame))
    · have hput : (after (.registerTag t') s).registry = s.registry.putTag t' := hput
      rw [hput, Registry.tag?_putTag] at ht
      split at ht
      · next hk =>
        cases ht
        subst hk
        cases hi : s.registry.engine? t.kind with
        | none => exact .inr ⟨rfl, rfl, rfl⟩
        | some i =>
          -- the tag before and the new one both agree with the engine
          obtain ⟨old, hold, hsays⟩ := sound.announced hi
          exact .inl ⟨old, hold, hsays.1.trans (agrees i hi).1.symm⟩
      · exact .inl ⟨t, ht, rfl⟩
  | sway k' answer =>
    have ht : (s.registry.sway k' answer).tag? k = some t := ht
    cases hold : s.registry.tag? k with
    | none =>
      rw [Registry.tag?_sway_eq_none answer hold] at ht
      cases ht
    | some old =>
      obtain ⟨t', ht', hcat, -⟩ := Registry.tag?_sway k' answer k hold
      rw [ht'] at ht
      cases ht
      exact .inl ⟨old, rfl, hcat.symm⟩
  | _ => exact .inl (same ((fills_after id s).tags k))

end Operation

/-! ## Runs -/

namespace Broker

variable {s : Broker} {ops : List Operation} {n : LanguageName} {k : BackendKind}
  {reg : Registration} {t : Tag}

/-- **Since when a fact holds**: since the beginning of a run, or since one of its
operations. -/
theorem run_since {P : Broker → Prop} (h : P (s.run ops)) :
    P s ∨ ∃ before op after, ops = before ++ op :: after ∧ ¬P (s.run before) ∧
      ∀ mid, mid <+: after → P (s.run (before ++ op :: mid)) := by
  induction ops using List.reverseRecOn with
  | nil => exact .inl h
  | append_singleton ops op ih =>
    by_cases hold : P (s.run ops)
    · obtain hfirst | ⟨before, op', after, rfl, hnot, hsince⟩ := ih hold
      · exact .inl hfirst
      · refine .inr ⟨before, op', after ++ [op], by simp, hnot, fun mid hmid => ?_⟩
        obtain rfl | hmid := List.prefix_concat_iff.mp hmid
        · simpa using h
        · exact hsince mid hmid
    · refine .inr ⟨ops, op, [], rfl, hold, fun mid hmid => ?_⟩
      rw [List.prefix_nil.mp hmid]
      exact h

/-- **The history of a slot.** Its registration was made by one operation of the run, when
it fitted the tag of its backend; and it has been in the slot ever since. -/
theorem registeredFor?_history (new : s.registry.registrations = [])
    (h : (s.run ops).registry.registeredFor? n k = some reg) :
    ∃ before op after, ops = before ++ op :: after ∧
      (s.run before).registry.registeredFor? n k ≠ some reg ∧
      (s.run before).registry.Fits k reg ∧
      (s.run (before ++ [op])).registry.tag? k = (s.run before).registry.tag? k ∧
      ∀ mid, mid <+: after →
        (s.run (before ++ op :: mid)).registry.registeredFor? n k = some reg := by
  obtain hfirst | ⟨before, op, after, hops, hnot, hsince⟩ :=
    run_since (P := fun s => s.registry.registeredFor? n k = some reg) h
  · rw [Registry.registeredFor?, Registry.slotMap?, new] at hfirst
    cases hfirst
  · have hmade := hsince [] List.nil_prefix
    rw [run_append, run_cons, run_nil] at hmade
    obtain ⟨hfits, htag⟩ := Operation.fits_of_new hmade hnot
    refine ⟨before, op, after, hops, hnot, hfits, ?_, hsince⟩
    rw [run_append, run_cons, run_nil, htag]

/-- **A backend is announced late** in a run: an operation announces it as one of a
category while it has no engine, and it has been of that category ever since. -/
def AnnouncedLate (s : Broker) (ops : List Operation) (k : BackendKind) (c : Category) : Prop :=
  ∃ before op after, ops = before ++ op :: after ∧
    (s.run before).registry.engine? k = none ∧ op.Announces (s.run before).registry k c ∧
    ∀ mid, mid <+: after →
      ∃ t, (s.run (before ++ op :: mid)).registry.tag? k = some t ∧ t.category = c

/-- **The history of a tag.** Its category is that of the tag at the beginning, unless the
backend has been announced late. -/
theorem tag?_history (hs : s.Reachable .free) (ht : (s.run ops).registry.tag? k = some t) :
    (∃ old, s.registry.tag? k = some old ∧ old.category = t.category) ∨
      s.AnnouncedLate ops k t.category := by
  obtain hfirst | ⟨before, op, after, hops, hnot, hsince⟩ :=
    run_since (P := fun s => ∃ u, s.registry.tag? k = some u ∧ u.category = t.category)
      ⟨t, ht, rfl⟩
  · exact .inl hfirst
  · obtain ⟨u, hu, hcat⟩ := hsince [] List.nil_prefix
    rw [run_append, run_cons, run_nil] at hu
    have hreach : (s.run before).Reachable .free := hs.run fun op _ => op.may_free
    obtain ⟨old, hold, hsame⟩ | ⟨hengine, hann⟩ := Operation.tag?_cases hreach.sound hu
    · exact absurd ⟨old, hold, hsame.trans hcat⟩ hnot
    · exact .inr ⟨before, op, after, hops, hengine, hcat ▸ hann, hsince⟩

/-- A backend that is announced late had no engine before. -/
theorem AnnouncedLate.engine?_eq_none {c : Category} (hs : s.Reachable .free)
    (h : s.AnnouncedLate ops k c) : s.registry.engine? k = none := by
  obtain ⟨before, op, after, -, hnone, -⟩ := h
  by_contra hsome
  obtain ⟨i, hi⟩ := Option.ne_none_iff_exists'.mp hsome
  have hev : s.registry.Evolves .free (s.run before).registry :=
    evolves_run (fun op _ => op.may_free) s
  obtain ⟨i', hi', -⟩ := hev.engine?_stable hs.sound hi
  rw [hnone] at hi'
  cases hi'

/-- **Slots and the categories of backends.** What a slot holds after a run was registered
at one moment of it and has been there ever since. At that moment it was of the category
of the tag of its backend, if there was one. It is of the category of the tag now, unless
the backend has been announced late since; and if the backend had an engine when the
slot was filled, it cannot have been. -/
theorem run_slot_family (new : s.registry.IsNew)
    (slot : (s.run ops).registry.registeredFor? n k = some reg) :
    ∃ before op after, ops = before ++ op :: after ∧
      (s.run before).registry.registeredFor? n k ≠ some reg ∧
      (∀ mid, mid <+: after →
        (s.run (before ++ op :: mid)).registry.registeredFor? n k = some reg) ∧
      (∀ t, (s.run before).registry.tag? k = some t → t.category = reg.category) ∧
      ∀ t, (s.run ops).registry.tag? k = some t →
        t.category = reg.category ∨
          (s.run (before ++ [op])).registry.engine? k = none ∧
            (s.run (before ++ [op])).AnnouncedLate after k t.category := by
  have hempty : s.registry.registrations = [] := by
    cases hr : s.registry
    rw [hr] at new
    cases new <;> rfl
  obtain ⟨before, op, after, rfl, hnot, hfits, htag, hsince⟩ := registeredFor?_history hempty slot
  refine ⟨before, op, after, rfl, hnot, hsince, hfits, fun t ht => ?_⟩
  have hreach : (s.run (before ++ [op])).Reachable .free :=
    (Reachable.of_isNew trivial trivial new).run fun op _ => op.may_free
  rw [List.append_cons, run_append] at ht
  obtain ⟨old, hold, hcat⟩ | hlate := tag?_history hreach ht
  · rw [htag] at hold
    exact .inl (hcat.symm.trans (hfits old hold))
  · exact .inr ⟨hlate.engine?_eq_none hreach, hlate⟩

/-! ## A tag that comes late -/

/-- A grammar is registered for a backend that nobody knows, which then is announced as
a native one. -/
def contrariwise : List Operation :=
  [.register assign .grammar (.grammar (Assignment.grammar 0) "assign"),
    .registerTag .contrary]

/-- **A slot against the tag of its backend.** -/
theorem run_slot_contrary :
    (run ⟨.empty default, default⟩ contrariwise).registry.registeredFor? assign .grammar
        = some (.grammar (Assignment.grammar 0) "assign") ∧
      (run ⟨.empty default, default⟩ contrariwise).registry.tag? .grammar = some .contrary ∧
      Tag.contrary.category ≠ (Registration.grammar (Assignment.grammar 0) "assign").category :=
  ⟨rfl, rfl, by decide⟩

/-- The contrary tag is at odds with the slot because it came late, and to a backend
without an engine. -/
theorem run_slot_family_contrariwise :
    Registry.IsNew (.empty default) ∧
      (run ⟨.empty default, default⟩ contrariwise).registry.registeredFor? assign .grammar
        = some (.grammar (Assignment.grammar 0) "assign") ∧
      ∃ before op after, contrariwise = before ++ op :: after ∧
        (run ⟨.empty default, default⟩ (before ++ [op])).AnnouncedLate after .grammar .native := by
  have new : Registry.IsNew (.empty default) := .empty default
  have slot : (run ⟨.empty default, default⟩ contrariwise).registry.registeredFor? assign .grammar
      = some (.grammar (Assignment.grammar 0) "assign") := rfl
  refine ⟨new, slot, ?_⟩
  obtain ⟨before, op, after, hops, -, -, -, hcategory⟩ :=
    run_slot_family (s := ⟨.empty default, default⟩) new slot
  obtain hagrees | ⟨-, hlate⟩ := hcategory .contrary rfl
  · cases hagrees
  · exact ⟨before, op, after, hops, hlate⟩

end Broker

end TreeBroker
