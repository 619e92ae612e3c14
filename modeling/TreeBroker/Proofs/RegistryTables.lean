import Mathlib.Data.List.Nodup
import TreeBroker.Proofs.RegistryRuns

/-!
# The tables of a registry

A registry is four tables that are written by different operations: tags come
before, after or instead of engines, languages are registered for backends that
nobody has announced yet, and the cache is filled behind the back of all of them.
This module says what holds between the tables after *any* run.

There are two kinds of facts. That a table is a table – one entry a key – and
that what is registered is valid can be read off each change on its own
(`Registry.Tabular`). The registrations are a table of tables: a language gets an
empty slot map before its first registration is inserted there, so that no
operation may end between the two. That the engines agree with the tags is a fact about two
tables at once, and each of the operations that could break it looks at the
other table first: that is `Registry.Sound`, proved with the changes. Together
they give `Registry.WellFormed`, which speaks of every entry and not only of
those that a lookup would find.

A backend's category and the form of its languages are settled by its first engine.
A later engine has to agree with the tag, a later tag with the engine, so neither
can move the pair of them: the one that is left in place holds the other.
-/

namespace TreeBroker

/-! ## Tables with one entry a key -/

section

variable {α κ : Type} [DecidableEq κ] (key : α → κ)

/-- **The keys of a table** after an entry has taken the place of the one with its
key, or the last place. -/
theorem keys_upsert (xs : List α) (x : α) :
    (if (xs.find? fun y => key y == key x).isSome then
        xs.map fun y => if key y = key x then x else y
      else xs ++ [x]).map key =
      if key x ∈ xs.map key then xs.map key else xs.map key ++ [key x] := by
  have hfind : (xs.find? fun y => key y == key x).isSome = true ↔ key x ∈ xs.map key := by
    simp [List.find?_isSome]
  by_cases hx : key x ∈ xs.map key
  · rw [if_pos (hfind.mpr hx), if_pos hx, List.map_map]
    refine List.map_congr_left fun y _ => ?_
    by_cases hy : key y = key x <;> simp [hy]
  · rw [if_neg (fun h => hx (hfind.mp h)), if_neg hx, List.map_append]
    rfl

theorem nodup_upsert {xs : List α} (h : (xs.map key).Nodup) (x : α) :
    ((if (xs.find? fun y => key y == key x).isSome then
        xs.map fun y => if key y = key x then x else y
      else xs ++ [x]).map key).Nodup := by
  rw [keys_upsert]
  split
  · exact h
  · next hx => exact List.nodup_append.mpr ⟨h, List.nodup_singleton _, by grind⟩

/-- In a table with one entry a key, what is found under a key is what has it. -/
theorem find?_eq_some_iff {xs : List α} (h : (xs.map key).Nodup) {k : κ} {x : α} :
    xs.find? (fun y => key y == k) = some x ↔ x ∈ xs ∧ key x = k := by
  constructor
  · intro hf
    exact ⟨List.mem_of_find?_eq_some hf, by simpa using List.find?_some hf⟩
  · rintro ⟨hx, rfl⟩
    cases hf : xs.find? fun y => key y == key x with
    | none => exact absurd (List.find?_eq_none.mp hf x hx) (by simp)
    | some y =>
      have hkey : key y = key x := by simpa using List.find?_some hf
      rw [List.inj_on_of_nodup_map h (List.mem_of_find?_eq_some hf) hx hkey]

end

namespace SlotMap

variable (m : SlotMap) (k : BackendKind) (reg : Registration)

theorem insert_eq :
    m.insert k reg =
      if (m.find? fun old => old.1 == k).isSome then
        m.map fun old => if old.1 = k then (k, reg) else old
      else m ++ [(k, reg)] := by
  rw [insert, get?, Option.isSome_map]

theorem get?_insert (k' : BackendKind) :
    (m.insert k reg).get? k' = if k = k' then some reg else m.get? k' := by
  rw [insert_eq, get?, get?, find?_upsert Prod.fst m (k, reg) k']
  split <;> rfl

theorem nodup_insert (h : (m.map Prod.fst).Nodup) : ((m.insert k reg).map Prod.fst).Nodup := by
  rw [insert_eq]
  exact nodup_upsert Prod.fst h (k, reg)

/-- A slot map is not empty when something was inserted. -/
theorem insert_ne_nil : m.insert k reg ≠ [] := by
  intro h
  have hget := get?_insert m k reg k
  rw [h, if_pos rfl] at hget
  cases hget

theorem mem_insert {x : BackendKind × Registration} (h : x ∈ m.insert k reg) :
    x = (k, reg) ∨ x ∈ m := by
  rw [insert_eq] at h
  split at h
  · obtain ⟨old, hold, rfl⟩ := List.mem_map.mp h
    split
    · exact .inl rfl
    · exact .inr hold
  · simpa [or_comm] using h

/-- **A slot map as it should be**: one registration a backend, at least one of them, and
each of them valid. -/
structure Filled (m : SlotMap) : Prop where
  /-- One registration a backend. -/
  slots : (m.map Prod.fst).Nodup
  /-- There is one. -/
  occupied : m ≠ []
  /-- A registration passes the check. -/
  valid : ∀ slot ∈ m, slot.2.validate = .ok ()

end SlotMap

namespace Registry

variable {G : Regime} {r r' : Registry}

/-- **The slot maps after a registration.** -/
theorem slotMap?_putSlot (r : Registry) (s : Slot) (n : LanguageName) :
    (r.putSlot s).slotMap? n = if s.name = n then some (r.slotMapWith s) else r.slotMap? n := by
  rw [slotMap?, registrations_putSlot,
    find?_upsert Prod.fst r.registrations (s.name, r.slotMapWith s) n]
  split <;> rfl

/-- **The slots after a registration.** -/
theorem registeredFor?_putSlot (r : Registry) (s : Slot) (n : LanguageName) (k : BackendKind) :
    (r.putSlot s).registeredFor? n k =
      if s.name = n ∧ s.backend = k then some s.registration else r.registeredFor? n k := by
  rw [registeredFor?, slotMap?_putSlot, registeredFor?]
  by_cases hn : s.name = n
  · subst hn
    rw [if_pos rfl, Option.bind_some, slotMapWith, SlotMap.get?_insert]
    simp only [true_and]
    cases hm : r.slotMap? s.name <;> rfl
  · rw [if_neg hn, if_neg fun h => hn h.1]

theorem mem_registrations_putSlot {s : Slot} {entry : LanguageName × SlotMap}
    (h : entry ∈ (r.putSlot s).registrations) :
    entry = (s.name, r.slotMapWith s) ∨ entry ∈ r.registrations := by
  rw [registrations_putSlot] at h
  split at h
  · obtain ⟨old, hold, rfl⟩ := List.mem_map.mp h
    split
    · exact .inl rfl
    · exact .inr hold
  · simpa [or_comm] using h

/-- The slot map of a language is in the table. -/
theorem mem_of_slotMap? {n : LanguageName} {m : SlotMap} (h : r.slotMap? n = some m) :
    (n, m) ∈ r.registrations := by
  obtain ⟨entry, hfind, rfl⟩ := Option.map_eq_some_iff.mp h
  have hkey : entry.1 = n := by simpa using List.find?_some hfind
  exact hkey ▸ List.mem_of_find?_eq_some hfind

/-- What is registered for a backend is in a slot map of the table. -/
theorem mem_of_registeredFor? {n : LanguageName} {k : BackendKind} {reg : Registration}
    (h : r.registeredFor? n k = some reg) : ∃ m, (n, m) ∈ r.registrations ∧ (k, reg) ∈ m := by
  obtain ⟨m, hm, hget⟩ := Option.bind_eq_some_iff.mp h
  obtain ⟨slot, hfind, rfl⟩ := Option.map_eq_some_iff.mp hget
  have hkey : slot.1 = k := by simpa using List.find?_some hfind
  exact ⟨m, mem_of_slotMap? hm, hkey ▸ List.mem_of_find?_eq_some hfind⟩

theorem tags_putTag (r : Registry) (t : Tag) :
    (r.putTag t).tags =
      if (r.tags.find? fun y => y.kind == t.kind).isSome then
        r.tags.map fun y => if y.kind = t.kind then t else y
      else r.tags ++ [t] := by
  unfold putTag tag?
  split <;> rfl

theorem engines_putEngine (r : Registry) (i : Installed) :
    (r.putEngine i).engines =
      if (r.engines.find? fun y => y.kind == i.kind).isSome then
        r.engines.map fun y => if y.kind = i.kind then i else y
      else r.engines ++ [i] := by
  unfold putEngine engine?
  split <;> rfl

/-! ## Four tables -/

/-- **The tables are tables**: one tag and one engine a backend, one slot map a language,
one registration a backend in each, one loaded language a key. And what is registered is
valid, and no slot map empty. -/
structure Tabular (r : Registry) : Prop where
  tags : (r.tags.map Tag.kind).Nodup
  engines : (r.engines.map Installed.kind).Nodup
  languages : (r.registrations.map Prod.fst).Nodup
  slotMaps : ∀ entry ∈ r.registrations, entry.2.Filled
  cache : (r.cache.map Prod.fst).Nodup

theorem Tabular.empty (settings : Settings) : (Registry.empty settings).Tabular :=
  ⟨.nil, .nil, .nil, nofun, .nil⟩

/-- What is registered for a backend is valid. -/
theorem Tabular.valid_of_registeredFor? (hr : r.Tabular) {n : LanguageName} {k : BackendKind}
    {reg : Registration} (h : r.registeredFor? n k = some reg) : reg.validate = .ok () := by
  obtain ⟨m, hm, hslot⟩ := mem_of_registeredFor? h
  exact (hr.slotMaps _ hm).valid _ hslot

theorem nodup_tags_putTag (h : (r.tags.map Tag.kind).Nodup) (t : Tag) :
    ((r.putTag t).tags.map Tag.kind).Nodup := by
  rw [tags_putTag]
  exact nodup_upsert Tag.kind h t

theorem nodup_engines_putEngine (h : (r.engines.map Installed.kind).Nodup) (i : Installed) :
    ((r.putEngine i).engines.map Installed.kind).Nodup := by
  rw [engines_putEngine]
  exact nodup_upsert Installed.kind h i

theorem notMem_cache_of_cached?_eq_none {key : CacheKey} (h : r.cached? key = none) :
    key ∉ r.cache.map Prod.fst := by
  rw [cached?, Option.map_eq_none_iff, List.find?_eq_none] at h
  rintro hkey
  obtain ⟨entry, hentry, rfl⟩ := List.mem_map.mp hkey
  exact h entry hentry (by simp)

theorem nodup_cache_putCached (h : (r.cache.map Prod.fst).Nodup) {key : CacheKey}
    (absent : r.cached? key = none) (handle : LanguageHandle) :
    ((r.putCached key handle).cache.map Prod.fst).Nodup := by
  have hkey := notMem_cache_of_cached?_eq_none absent
  show ((r.cache ++ [(key, handle)]).map Prod.fst).Nodup
  rw [List.map_append]
  exact List.nodup_append.mpr ⟨h, List.nodup_singleton _, by grind⟩

theorem Tabular.putTag (hr : r.Tabular) (t : Tag) : (r.putTag t).Tabular := by
  refine ⟨nodup_tags_putTag hr.tags t, ?_, ?_, ?_, ?_⟩ <;> rw [putTag_eq]
  exacts [hr.engines, hr.languages, hr.slotMaps, hr.cache]

theorem Tabular.putEngine (hr : r.Tabular) (i : Installed) : (r.putEngine i).Tabular := by
  refine ⟨?_, nodup_engines_putEngine hr.engines i, ?_, ?_, ?_⟩ <;> rw [putEngine_eq]
  exacts [hr.tags, hr.languages, hr.slotMaps, hr.cache]

theorem Tabular.install (hr : r.Tabular) (e : Engine) : (r.install e).Tabular := by
  unfold Registry.install
  split
  · exact hr.putEngine _
  · next hno =>
    have htag : r.putTag (.ofEngine e) = { r with tags := r.tags ++ [Tag.ofEngine e] } :=
      if_neg hno
    rw [← htag]
    exact (hr.putTag _).putEngine _

/-- The slot map that a registration leaves is as it should be, also if it was opened for
it. -/
theorem Tabular.slotMapWith (hr : r.Tabular) {s : Slot}
    (valid : s.registration.validate = .ok ()) : (r.slotMapWith s).Filled := by
  have hold : (((r.slotMap? s.name).getD []).map Prod.fst).Nodup ∧
      ∀ slot ∈ (r.slotMap? s.name).getD [], slot.2.validate = .ok () := by
    cases hm : r.slotMap? s.name with
    | none => exact ⟨.nil, nofun⟩
    | some m =>
      have hfilled := hr.slotMaps _ (mem_of_slotMap? hm)
      exact ⟨hfilled.slots, hfilled.valid⟩
  refine ⟨SlotMap.nodup_insert _ _ _ hold.1, SlotMap.insert_ne_nil _ _ _, fun slot hslot => ?_⟩
  obtain rfl | hslot := SlotMap.mem_insert _ _ _ hslot
  · exact valid
  · exact hold.2 slot hslot

theorem Tabular.putSlot (hr : r.Tabular) {s : Slot} (valid : s.registration.validate = .ok ()) :
    (r.putSlot s).Tabular := by
  have hlanguages : ((r.putSlot s).registrations.map Prod.fst).Nodup := by
    rw [registrations_putSlot]
    exact nodup_upsert Prod.fst hr.languages (s.name, r.slotMapWith s)
  have hfilled : ∀ entry ∈ (r.putSlot s).registrations, entry.2.Filled := by
    intro entry hentry
    obtain rfl | hold := mem_registrations_putSlot hentry
    · exact hr.slotMapWith valid
    · exact hr.slotMaps entry hold
  refine ⟨?_, ?_, hlanguages, hfilled, ?_⟩ <;> rw [putSlot_eq]
  exacts [hr.tags, hr.engines, hr.cache]

theorem Tabular.putCached (hr : r.Tabular) {key : CacheKey} (absent : r.cached? key = none)
    (h : LanguageHandle) : (r.putCached key h).Tabular :=
  ⟨hr.tags, hr.engines, hr.languages, hr.slotMaps, nodup_cache_putCached hr.cache absent h⟩

theorem kinds_sway (r : Registry) (k : BackendKind) (answer : Bool) :
    (r.sway k answer).tags.map Tag.kind = r.tags.map Tag.kind := by
  unfold sway
  rw [List.map_map]
  refine List.map_congr_left fun t _ => ?_
  by_cases ht : t.kind = k <;> simp [ht]

/-- **Every change keeps the tables tables.** -/
theorem Change.tabular (hc : Change G r r') (hr : r.Tabular) : r'.Tabular := by
  cases hc with
  | install e may agrees => exact hr.install e
  | tag t agrees => exact hr.putTag t
  | sway k answer =>
    refine ⟨?_, hr.engines, hr.languages, hr.slotMaps, hr.cache⟩
    rw [kinds_sway]
    exact hr.tags
  | slot s valid fits => exact hr.putSlot valid
  | load n reg h ready absent loaded => exact hr.putCached absent h
  | insert key h may absent => exact hr.putCached absent h
  | clearCache => exact ⟨hr.tags, hr.engines, hr.languages, hr.slotMaps, .nil⟩
  | clearAll => exact ⟨hr.tags, hr.engines, .nil, nofun, .nil⟩

theorem Evolves.tabular (hc : Evolves G r r') (hr : r.Tabular) : r'.Tabular := by
  induction hc with
  | refl => exact hr
  | tail _ hc ih => exact hc.tabular ih

end Registry

theorem Broker.Reachable.tabular {G : Regime} {s : Broker} (h : s.Reachable G) :
    s.registry.Tabular := by
  induction h with
  | empty settings w => exact .empty settings
  | step op may _ ih => exact (op.evolves may _).tabular ih

/-! ## The registry as a whole -/

namespace Registry

/-- **A language that is listed has a registration**, since no slot map is empty. -/
theorem Tabular.registered_ne_nil {r : Registry} (hr : r.Tabular) {n : LanguageName}
    (h : n.text ∈ r.languages) : r.registered n ≠ [] := by
  rw [Registry.languages, Sorted.mem_ofList] at h
  obtain ⟨⟨⟨text, safe⟩, m⟩, hentry, htext⟩ := List.mem_map.mp h
  obtain rfl : (⟨text, safe⟩ : LanguageName) = n := by
    cases n
    simpa using htext
  have hfind := (find?_eq_some_iff Prod.fst hr.languages).mpr ⟨hentry, rfl⟩
  have hm : r.slotMap? ⟨text, safe⟩ = some m := Option.map_eq_some_iff.mpr ⟨_, hfind, rfl⟩
  rw [registered, hm, Option.getD_some, ← List.length_pos_iff, List.length_mergeSort,
    SlotMap.slots, List.length_map, List.length_pos_iff]
  exact (hr.slotMaps _ hentry).occupied

/-- **A well-formed registry.** -/
structure WellFormed (r : Registry) : Prop where
  /-- One tag a backend. -/
  tags : (r.tags.map Tag.kind).Nodup
  /-- One engine a backend. -/
  engines : (r.engines.map Installed.kind).Nodup
  /-- An engine stands under its own name, with the capabilities that its manifest gives. -/
  installed : ∀ i ∈ r.engines,
    i.kind = i.engine.kind ∧ i.capabilities = Capabilities.ofManifest i.engine.manifest
  /-- An engine has a tag of its backend that says of it what it is. -/
  announced : ∀ i ∈ r.engines, ∃ t ∈ r.tags, t.kind = i.kind ∧
    t.category = i.engine.category ∧ t.form = i.engine.form
  /-- One slot map a language. -/
  languages : (r.registrations.map Prod.fst).Nodup
  /-- One registration a backend in each slot map. -/
  slots : ∀ entry ∈ r.registrations, (entry.2.map Prod.fst).Nodup
  /-- No language has an empty slot map. -/
  occupied : ∀ entry ∈ r.registrations, entry.2 ≠ []
  /-- So a language that is listed has a registration. -/
  listed : ∀ n : LanguageName, n.text ∈ r.languages → r.registered n ≠ []
  /-- A registration passes the check. -/
  valid : ∀ entry ∈ r.registrations, ∀ slot ∈ entry.2, slot.2.validate = .ok ()

theorem WellFormed.of_sound {G : Regime} {r : Registry} (hs : r.Sound G) (ht : r.Tabular) :
    r.WellFormed where
  tags := ht.tags
  engines := ht.engines
  installed i hi := by
    have hfind : r.engine? i.kind = some i :=
      (find?_eq_some_iff Installed.kind ht.engines).mpr ⟨hi, rfl⟩
    rw [(hs.engine hfind).1]
    exact ⟨rfl, rfl⟩
  announced i hi := by
    have hfind : r.engine? i.kind = some i :=
      (find?_eq_some_iff Installed.kind ht.engines).mpr ⟨hi, rfl⟩
    obtain ⟨t, htag, hsays⟩ := hs.announced hfind
    obtain ⟨hmem, hkind⟩ := (find?_eq_some_iff Tag.kind ht.tags).mp htag
    exact ⟨t, hmem, hkind, hsays⟩
  languages := ht.languages
  slots entry h := (ht.slotMaps entry h).slots
  occupied entry h := (ht.slotMaps entry h).occupied
  listed _ := ht.registered_ne_nil
  valid entry h := (ht.slotMaps entry h).valid

end Registry

/-- **Every run leaves a well-formed registry**, whatever is installed, announced,
registered, loaded, brought in or cleared, and in whichever order: and from the
moment that a backend has an engine, neither its engine nor its tag ever change
their category or their form. -/
theorem Broker.run_wellFormed {s : Broker} (new : s.registry.IsNew)
    (ops later : List Operation) :
    (s.run ops).registry.WellFormed ∧
      ∀ k i, (s.run ops).registry.engine? k = some i →
        ∃ t i' t', (s.run ops).registry.tag? k = some t ∧
          (s.run (ops ++ later)).registry.engine? k = some i' ∧
          (s.run (ops ++ later)).registry.tag? k = some t' ∧
          i'.engine.category = i.engine.category ∧ i'.engine.form = i.engine.form ∧
          t'.category = t.category ∧ t'.form = t.form := by
  have hreach : (s.run ops).Reachable .free :=
    (Reachable.of_isNew trivial trivial new).run fun op _ => op.may_free
  refine ⟨.of_sound hreach.sound hreach.tabular, fun k i hi => ?_⟩
  have hlater : (s.run (ops ++ later)).Reachable .free := by
    rw [run_append]
    exact hreach.run fun op _ => op.may_free
  have hev : (s.run ops).registry.Evolves .free (s.run (ops ++ later)).registry := by
    rw [run_append]
    exact evolves_run (fun op _ => op.may_free) _
  -- the engines agree over time, and at each time the tag agrees with the engine
  obtain ⟨i', hi', hcat, hform⟩ := hev.engine?_stable hreach.sound hi
  obtain ⟨t, ht, hsays⟩ := hreach.sound.announced hi
  obtain ⟨t', ht', hsays'⟩ := hlater.sound.announced hi'
  refine ⟨t, i', t', ht, hi', ht', hcat, hform, ?_, ?_⟩
  · rw [hsays'.1, hcat, hsays.1]
  · rw [hsays'.2, hform, hsays.2]

/-- A tag that makes a native backend of the one for grammars. -/
def Tag.contrary : Tag := { kind := .grammar, category := .native, form := .native }

/-- The contrary tag is refused, and what comes after it does not help it. The language that
was registered before it has its slot. -/
theorem Broker.run_wellFormed_contrary :
    Registry.IsNew (.withDefaults default) ∧
      ∃ s, s = run ⟨.withDefaults default, default⟩
          [.register ⟨"assign", by decide⟩ .grammar (.grammar (Assignment.grammar 0) "assign"),
            .registerTag .contrary] ∧
        s.registry.WellFormed ∧ s.registry.registered ⟨"assign", by decide⟩ ≠ [] ∧
        ∃ i t, (s.run [.clearAll, .registerTag .contrary]).registry.engine? .grammar = some i ∧
          (s.run [.clearAll, .registerTag .contrary]).registry.tag? .grammar = some t ∧
          i.engine.category = .inProcess ∧ t.category = .inProcess := by
  have new : Registry.IsNew (.withDefaults default) := .withDefaults default
  obtain ⟨formed, stable⟩ := run_wellFormed (s := ⟨.withDefaults default, default⟩) new
    [.register ⟨"assign", by decide⟩ .grammar (.grammar (Assignment.grammar 0) "assign"),
      .registerTag .contrary] [.clearAll, .registerTag .contrary]
  have listed := formed.listed ⟨"assign", by decide⟩ (by decide)
  obtain ⟨t, i', t', ht, hi', ht', hcat, -, hcat', -⟩ :=
    stable .grammar (.ofEngine (.grammar .grammar)) rfl
  have htag : t = .ofEngine (.grammar .grammar) := (Option.some.inj ht).symm
  rw [run_append] at hi' ht'
  exact ⟨new, _, rfl, formed, listed, i', t', hi', ht', hcat, by rw [hcat', htag]; rfl⟩

end TreeBroker
