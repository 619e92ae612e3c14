import TreeBroker.Proofs.Choosing
import TreeBroker.Proofs.SlotCategories

/-!
# Priority

The order of the tags is the order of priority, and four questions are asked of it: whether
a backend is available, which backends are, and which of either category. Each of them is
computed on its own. Whether a backend is available is looked up in two tables, the list of
those that are is the table of tags filtered, and the list of a category is that list filtered
by *any* tag of the backend. They agree since there is one tag a backend
(`Registry.ViewsAgree`).

The order itself only grows. A tag is replaced in its place and a new one goes behind all
others, so whatever is done, the backends of the tags before are the first of those after
(`Registry.Evolves.kinds_grow`).

One would say that the order is that of the first *success*: a tag or an engine may be
refused. But what is refused is refused because of an engine or a tag of the same backend
that is there already, and an engine never stands without a tag. So the first attempt to
announce a backend always succeeds, and the order is that in which backends were first named
by anybody who registered a tag or an engine (`Broker.kinds_run`).
-/

namespace TreeBroker

namespace Registry

variable {G : Regime} {r r' : Registry} {k : BackendKind} {c : Category}

/-! ## Four views of the tags -/

/-- A backend is in the order of priority if it has a tag. -/
theorem mem_kinds_iff : k ∈ r.tags.map Tag.kind ↔ r.tag? k ≠ none := by
  simp [tag?]

theorem Tabular.mem_available_iff (hr : r.Tabular) :
    k ∈ r.available ↔ r.isAvailable k = true := by
  rw [hr.available_eq, List.mem_filter]
  exact ⟨And.right, fun available => ⟨mem_kinds_of_isAvailable available, available⟩⟩

/-- **The available backends of a category**: their tag is of the category. -/
theorem Tabular.mem_availableIn_iff (hr : r.Tabular) :
    k ∈ r.availableIn c ↔ k ∈ r.available ∧ ∃ t, r.tag? k = some t ∧ t.category = c := by
  have hany : (r.tags.any fun t => t.kind == k && t.category == c) = true ↔
      ∃ t, r.tag? k = some t ∧ t.category = c := by
    rw [List.any_eq_true]
    refine exists_congr fun t => ?_
    rw [tag?, find?_eq_some_iff Tag.kind hr.tags, Bool.and_eq_true, beq_iff_eq, beq_iff_eq,
      and_assoc]
  rw [availableIn, List.mem_filter, hany]

/-- **The views of a registry agree** on which backends are available. -/
structure ViewsAgree (r : Registry) : Prop where
  /-- A backend is available if it is listed. -/
  available : ∀ k, r.isAvailable k = true ↔ k ∈ r.available
  /-- It is listed once. -/
  nodup : r.available.Nodup
  /-- The list follows the order of priority. -/
  ordered : r.available.Sublist (r.tags.map Tag.kind)
  /-- So does the list of a category. -/
  categories : ∀ c, (r.availableIn c).Sublist r.available
  /-- The two categories have nothing in common. -/
  disjoint : (r.availableIn .native).Disjoint (r.availableIn .inProcess)
  /-- There is no third one. -/
  together : ∀ k, k ∈ r.available ↔ k ∈ r.availableIn .native ∨ k ∈ r.availableIn .inProcess

/-- **Where tags are a table, the views agree.** -/
theorem Tabular.viewsAgree (hr : r.Tabular) : r.ViewsAgree where
  available _ := hr.mem_available_iff.symm
  nodup := by
    rw [hr.available_eq]
    exact hr.tags.filter _
  ordered := by
    rw [hr.available_eq]
    exact List.filter_sublist
  categories _ := List.filter_sublist
  disjoint k hnative hprocess := by
    obtain ⟨-, t, ht, native⟩ := hr.mem_availableIn_iff.mp hnative
    obtain ⟨-, t', ht', process⟩ := hr.mem_availableIn_iff.mp hprocess
    obtain rfl : t = t' := Option.some.inj (ht.symm.trans ht')
    rw [native] at process
    cases process
  together k := by
    rw [hr.mem_availableIn_iff, hr.mem_availableIn_iff, ← and_or_left]
    refine (and_iff_left_of_imp fun listed => ?_).symm
    have tagged := mem_kinds_of_isAvailable (hr.mem_available_iff.mp listed)
    obtain ⟨t, ht⟩ := Option.ne_none_iff_exists'.mp (mem_kinds_iff.mp tagged)
    cases category : t.category with
    | native => exact .inl ⟨t, ht, category⟩
    | inProcess => exact .inr ⟨t, ht, category⟩

/-! ## The order of the tags -/

theorem kinds_putTag (r : Registry) (t : Tag) :
    (r.putTag t).tags.map Tag.kind =
      if t.kind ∈ r.tags.map Tag.kind then r.tags.map Tag.kind
      else r.tags.map Tag.kind ++ [t.kind] := by
  rw [tags_putTag]
  exact keys_upsert Tag.kind r.tags t

theorem kinds_install (r : Registry) (e : Engine) :
    (r.install e).tags.map Tag.kind =
      if e.kind ∈ r.tags.map Tag.kind then r.tags.map Tag.kind
      else r.tags.map Tag.kind ++ [e.kind] := by
  unfold install
  rw [putEngine_eq]
  by_cases tagged : (r.tag? e.kind).isSome = true
  · have listed := mem_kinds_iff.mpr (Option.isSome_iff_ne_none.mp tagged)
    rw [if_pos listed, if_pos tagged]
  · have unlisted : e.kind ∉ r.tags.map Tag.kind :=
      fun listed => tagged (Option.isSome_iff_ne_none.mpr (mem_kinds_iff.mp listed))
    rw [if_neg unlisted, if_neg tagged]
    exact List.map_append

theorem prefix_ite_concat (ks : List BackendKind) (k : BackendKind) :
    ks <+: if k ∈ ks then ks else ks ++ [k] := by
  split
  · exact List.prefix_rfl
  · exact List.prefix_append _ _

/-- **Every change keeps the order**: what is new comes last. -/
theorem Change.kinds_grow (hc : Change G r r') :
    r.tags.map Tag.kind <+: r'.tags.map Tag.kind := by
  cases hc with
  | install e may agrees =>
    rw [kinds_install]
    exact prefix_ite_concat _ _
  | tag t agrees =>
    rw [kinds_putTag]
    exact prefix_ite_concat _ _
  | sway k answer => exact ⟨[], by rw [kinds_sway, List.append_nil]⟩
  | slot s valid fits => exact ⟨[], by rw [putSlot_eq, List.append_nil]⟩
  | load n reg h ready absent loaded => exact List.prefix_rfl
  | insert key h may absent => exact List.prefix_rfl
  | clearCache => exact List.prefix_rfl
  | clearAll => exact List.prefix_rfl

theorem Evolves.kinds_grow (hc : Evolves G r r') :
    r.tags.map Tag.kind <+: r'.tags.map Tag.kind := by
  induction hc with
  | refl => exact List.prefix_rfl
  | tail _ hc ih => exact ih.trans hc.kinds_grow

/-- An order that grows by nothing that it does not have stays as it is. -/
theorem kinds_eq_of_grow (grows : r.tags.map Tag.kind <+: r'.tags.map Tag.kind)
    (nodup : (r'.tags.map Tag.kind).Nodup) (known : ∀ k, r'.tag? k = r.tag? k) :
    r'.tags.map Tag.kind = r.tags.map Tag.kind := by
  obtain ⟨new, grown⟩ := grows
  have none_new : new = [] := by
    refine List.eq_nil_iff_forall_not_mem.mpr fun k hk => ?_
    have after : k ∈ r'.tags.map Tag.kind := by
      rw [← grown]
      exact List.mem_append_right _ hk
    have before : k ∈ r.tags.map Tag.kind := by
      rw [mem_kinds_iff, ← known k]
      exact mem_kinds_iff.mp after
    rw [← grown] at nodup
    exact List.disjoint_of_nodup_append nodup before hk
  rw [← grown, none_new, List.append_nil]

end Registry

/-! ## Who is announced first -/

namespace Operation

/-- **The backend that an operation announces**, with a tag or with an engine. -/
def announced? : Operation → Option BackendKind
  | registerBackend e => some e.kind
  | registerTag t => some t.kind
  | _ => none

variable {G : Regime} {s : Broker} {op : Operation} {k : BackendKind}

/-- A backend that nobody has announced gets its engine. -/
theorem registry_registerBackend_of_unknown {e : Engine}
    (unknown : s.registry.tag? e.kind = none) :
    (after (.registerBackend e) s).registry = s.registry.install e := by
  show ((Broker.registryNow >>= _ : Action Broker Unit).on s).2.registry = _
  rw [Action.on_bind_of_ok (Broker.on_registryNow s), unknown]
  rfl

/-- A backend that has no engine gets its tag. -/
theorem registry_registerTag_of_no_engine {t : Tag}
    (engine : s.registry.engine? t.kind = none) :
    (after (.registerTag t) s).registry = s.registry.putTag t := by
  show ((Broker.registryNow >>= _ : Action Broker Unit).on s).2.registry = _
  rw [Action.on_bind_of_ok (Broker.on_registryNow s), engine]
  rfl

/-- **An operation that announces a backend**, accepted or refused, leaves it in the order:
where it was, or at the end. -/
theorem kinds_after_of_announced (sound : s.registry.Sound G)
    (announces : op.announced? = some k) :
    (op.after s).registry.tags.map Tag.kind =
      if k ∈ s.registry.tags.map Tag.kind then s.registry.tags.map Tag.kind
      else s.registry.tags.map Tag.kind ++ [k] := by
  cases op with
  | registerBackend e =>
    obtain rfl : e.kind = k := Option.some.inj announces
    obtain refused | ⟨-, installed⟩ := Registry.registerBackend_cases e s
    · by_cases listed : e.kind ∈ s.registry.tags.map Tag.kind
      · rw [if_pos listed]
        exact congrArg (·.tags.map Tag.kind) refused
      · -- there is nothing that the engine could disagree with
        have unknown : s.registry.tag? e.kind = none := by
          by_contra known
          exact listed (Registry.mem_kinds_iff.mpr known)
        rw [registry_registerBackend_of_unknown unknown, Registry.kinds_install]
    · rw [← Registry.kinds_install]
      exact congrArg (·.tags.map Tag.kind) installed
  | registerTag t =>
    obtain rfl : t.kind = k := Option.some.inj announces
    obtain refused | ⟨-, put⟩ := Registry.registerTag_cases t s
    · by_cases listed : t.kind ∈ s.registry.tags.map Tag.kind
      · rw [if_pos listed]
        exact congrArg (·.tags.map Tag.kind) refused
      · -- an engine that the tag could disagree with would have a tag
        have engine : s.registry.engine? t.kind = none := by
          by_contra installed
          obtain ⟨i, hi⟩ := Option.ne_none_iff_exists'.mp installed
          obtain ⟨old, hold, -⟩ := sound.announced hi
          exact listed (Registry.mem_kinds_iff.mpr (by rw [hold]; exact Option.some_ne_none old))
        rw [registry_registerTag_of_no_engine engine, Registry.kinds_putTag]
    · rw [← Registry.kinds_putTag]
      exact congrArg (·.tags.map Tag.kind) put
  | _ => cases announces

/-- **Every other operation** leaves the order alone. -/
theorem kinds_after_of_not_announced (hs : s.Reachable .free) (silent : op.announced? = none) :
    (op.after s).registry.tags.map Tag.kind = s.registry.tags.map Tag.kind := by
  cases op with
  | registerBackend e => cases silent
  | registerTag t => cases silent
  | sway k answer => exact Registry.kinds_sway s.registry k answer
  | _ =>
    exact Registry.kinds_eq_of_grow ((evolves (may_free _) s).kinds_grow)
      (hs.step _ (may_free _)).tabular.tags (fills_after id s).tags

end Operation

/-- Leaving out what has come before, one element at a time. -/
theorem eraseDups_concat (ks : List BackendKind) (k : BackendKind) :
    (ks ++ [k]).eraseDups = if k ∈ ks.eraseDups then ks.eraseDups else ks.eraseDups ++ [k] := by
  rw [List.eraseDups_append, List.cons_removeAll, List.nil_removeAll]
  by_cases before : k ∈ ks
  · rw [if_pos (List.mem_eraseDups.mpr before), if_neg (by simpa using before)]
    exact List.append_nil _
  · rw [if_neg (fun h => before (List.mem_eraseDups.mp h)), if_pos (by simpa using before)]
    rfl

namespace Broker

open Registry

/-- A new registry has its backends in order, each once. -/
theorem kinds_of_isNew {r : Registry} (new : r.IsNew) :
    (r.tags.map Tag.kind).eraseDups = r.tags.map Tag.kind := by
  cases new with
  | empty settings => rfl
  | withDefaults settings => rfl

/-- **The order of priority is the order of first announcements.** -/
theorem kinds_run {s : Broker} (new : s.registry.IsNew) (ops : List Operation) :
    (s.run ops).registry.tags.map Tag.kind =
      (s.registry.tags.map Tag.kind ++ ops.filterMap Operation.announced?).eraseDups := by
  induction ops using List.reverseRecOn with
  | nil => rw [List.filterMap_nil, List.append_nil, kinds_of_isNew new, run_nil]
  | append_singleton ops op ih =>
    have reached : (s.run ops).Reachable .free :=
      (Reachable.of_isNew trivial trivial new).run fun op _ => op.may_free
    rw [run_append, run_cons, run_nil, List.filterMap_append]
    cases announces : op.announced? with
    | none =>
      rw [Operation.kinds_after_of_not_announced reached announces, ih,
        List.filterMap_cons_none announces, List.filterMap_nil, List.append_nil]
    | some k =>
      rw [Operation.kinds_after_of_announced reached.sound announces, ih,
        List.filterMap_cons_some announces, List.filterMap_nil, ← List.append_assoc,
        eraseDups_concat]

/-- **The views of a registry agree, and its order is stable.** After any run from a new
registry, whether a backend is available, which backends are and which of either category are
four views of one list. It follows the order of the tags, which is that of the first
announcements: and whatever is done later, it is the beginning of what is then the order, so
that no backend leaves it and no two change places. -/
theorem run_priority {s : Broker} (new : s.registry.IsNew) (ops later : List Operation) :
    (s.run ops).registry.ViewsAgree ∧
      (s.run ops).registry.tags.map Tag.kind =
        (s.registry.tags.map Tag.kind ++ ops.filterMap Operation.announced?).eraseDups ∧
      (s.run ops).registry.tags.map Tag.kind <+:
        (s.run (ops ++ later)).registry.tags.map Tag.kind := by
  have reached : (s.run ops).Reachable .free :=
    (Reachable.of_isNew trivial trivial new).run fun op _ => op.may_free
  refine ⟨reached.tabular.viewsAgree, kinds_run new ops, ?_⟩
  rw [run_append]
  exact (evolves_run (fun op _ => op.may_free) (s.run ops)).kinds_grow

/-- A tag comes before the engine of its backend, and another backend gets its engine a
second time. -/
def renewal : List Operation :=
  [.registerTag { kind := alpha, category := .inProcess, form := .grammar },
    .registerBackend (.grammar .grammar), .registerBackend pretender]

-- Neither the new engine behind the old tag nor the second engine moves a backend.
theorem run_priority_renewal :
    Registry.IsNew (.withDefaults default) ∧
      (run ⟨.withDefaults default, default⟩ renewal).registry.ViewsAgree ∧
      (run ⟨.withDefaults default, default⟩ renewal).registry.tags.map Tag.kind =
        [.treeSitter, .grammar, alpha] := by
  have new : Registry.IsNew (.withDefaults default) := .withDefaults default
  obtain ⟨agree, order, -⟩ :=
    run_priority (s := ⟨.withDefaults default, default⟩) new renewal []
  exact ⟨new, agree, order.trans (by decide)⟩

end Broker

end TreeBroker
