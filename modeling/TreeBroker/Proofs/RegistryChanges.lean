import Mathlib.Logic.Relation
import TreeBroker.Proofs.Engines
import TreeBroker.Registry.Operations

/-!
# What can happen to a registry

Whatever is done with a registry, its tables change in a handful of ways, each
under a guard: an engine is installed that agrees with the tag of its backend, a
tag is put down that agrees with the engine of its backend, a language is
registered, or put into the cache under a key that has none, or the tables are
emptied. `Registry.Change` lists them once, and everything that holds of every
registry is proved by going through the list.

What callers may bring in from outside is a parameter, the *regime*. Under
`Regime.free` they install any engine and put any handle into the cache. Under
`Regime.own` they install the engines of this library only, and the cache is
filled by the registry's own loads.

`Registry.Sound` is what every change keeps: an engine stands under its own
name beside a tag that agrees with it, and every cached language is *accounted
for* – an engine loaded it for the key it is found under. So a backend's category
and the form of its languages are settled once its first engine is there
(`Change.engine?_stable`), and where engines name themselves on what they load
(`Regime.Signed`) a cached language belongs to the backend of its key
(`Accounted.backend_eq`).
-/

namespace TreeBroker

/-! ## Tables -/

/-- **Looking up in a table with one entry a key** after an entry has taken the
place of the one with its key, or the last place. -/
theorem find?_upsert {α κ : Type} [DecidableEq κ] (key : α → κ) (xs : List α) (x : α) (k : κ) :
    (if (xs.find? fun y => key y == key x).isSome then
        xs.map fun y => if key y = key x then x else y
      else xs ++ [x]).find? (fun y => key y == k) =
      if key x = k then some x else xs.find? fun y => key y == k := by
  by_cases hp : (xs.find? fun y => key y == key x).isSome = true
  · rw [if_pos hp, List.find?_map]
    by_cases hk : key x = k
    · subst hk
      have hsame : ((fun y => key y == key x) ∘ fun y => if key y = key x then x else y)
          = fun y => key y == key x := by
        funext y
        by_cases hy : key y = key x <;> simp [hy]
      obtain ⟨y, hy⟩ := Option.isSome_iff_exists.mp hp
      rw [hsame, hy, if_pos rfl, Option.map_some, if_pos (by simpa using List.find?_some hy)]
    · have hother : ((fun y => key y == k) ∘ fun y => if key y = key x then x else y)
          = fun y => key y == k := by
        funext y
        by_cases hy : key y = key x <;> simp [hy]
      rw [hother, if_neg hk]
      cases hf : xs.find? fun y => key y == k with
      | none => rfl
      | some y =>
        have hy : key y = k := by simpa using List.find?_some hf
        rw [Option.map_some, if_neg (by rw [hy]; exact fun h => hk h.symm)]
  · rw [if_neg hp, List.find?_append]
    by_cases hk : key x = k
    · subst hk
      rw [Option.not_isSome_iff_eq_none] at hp
      simp [hp]
    · simp [hk]

namespace Registry

variable (r : Registry)

theorem kind_of_engine? {r : Registry} {k : BackendKind} {i : Installed}
    (h : r.engine? k = some i) : i.kind = k := by
  simpa using List.find?_some h

/-! ### A tag is put down -/

theorem putTag_eq (t : Tag) : r.putTag t = { r with tags := (r.putTag t).tags } := by
  unfold putTag
  split <;> rfl

@[simp] theorem engine?_putTag (t : Tag) (k : BackendKind) :
    (r.putTag t).engine? k = r.engine? k := by
  rw [putTag_eq]
  rfl

@[simp] theorem cache_putTag (t : Tag) : (r.putTag t).cache = r.cache := by rw [putTag_eq]

theorem tag?_putTag (t : Tag) (k : BackendKind) :
    (r.putTag t).tag? k = if t.kind = k then some t else r.tag? k := by
  have h := find?_upsert Tag.kind r.tags t k
  unfold putTag tag?
  split
  · next hp => rwa [if_pos hp] at h
  · next hp => rwa [if_neg hp] at h

/-! ### An engine is put in -/

theorem putEngine_eq (i : Installed) :
    r.putEngine i = { r with engines := (r.putEngine i).engines } := by
  unfold putEngine
  split <;> rfl

theorem engine?_putEngine (i : Installed) (k : BackendKind) :
    (r.putEngine i).engine? k = if i.kind = k then some i else r.engine? k := by
  have h := find?_upsert Installed.kind r.engines i k
  unfold putEngine engine?
  split
  · next hp => rwa [if_pos hp] at h
  · next hp => rwa [if_neg hp] at h

@[simp] theorem tag?_putEngine (i : Installed) (k : BackendKind) :
    (r.putEngine i).tag? k = r.tag? k := by
  rw [putEngine_eq]
  rfl

@[simp] theorem cache_putEngine (i : Installed) : (r.putEngine i).cache = r.cache := by
  rw [putEngine_eq]

theorem engine?_install (e : Engine) (k : BackendKind) :
    (r.install e).engine? k = if e.kind = k then some (.ofEngine e) else r.engine? k := by
  unfold install
  rw [engine?_putEngine]
  show (if e.kind = k then _ else _) = _
  split
  · rfl
  · split <;> rfl

/-- A tag comes with an engine only where its backend has none. -/
theorem tag?_install (e : Engine) (k : BackendKind) :
    (r.install e).tag? k = (r.tag? k).or (if e.kind = k then some (.ofEngine e) else none) := by
  unfold install
  rw [tag?_putEngine]
  split
  · next h =>
    by_cases hk : e.kind = k
    · obtain ⟨t, ht⟩ := Option.isSome_iff_exists.mp (hk ▸ h)
      rw [ht, Option.some_or]
    · rw [if_neg hk, Option.or_none]
  · show (r.tags ++ [Tag.ofEngine e]).find? _ = _
    rw [List.find?_append]
    by_cases hk : e.kind = k <;> simp [tag?, Tag.ofEngine, hk]

@[simp] theorem cache_install (e : Engine) : (r.install e).cache = r.cache := by
  unfold install
  rw [cache_putEngine]
  split <;> rfl

/-! ### A language is registered -/

theorem putSlot_eq (s : Slot) :
    r.putSlot s = { r with registrations := (r.putSlot s).registrations } := by
  unfold putSlot openSlotMap putSlotMap
  split <;> rfl

/-- A language that gets a slot map has the one it had, or an empty one. -/
theorem slotMap?_openSlotMap (n : LanguageName) :
    (r.openSlotMap n).slotMap? n = some ((r.slotMap? n).getD []) := by
  unfold openSlotMap
  cases hm : r.slotMap? n with
  | some m => rw [if_pos Option.isSome_some, hm, Option.getD_some]
  | none =>
    have hnone : r.registrations.find? (fun old => old.1 == n) = none := by
      simpa only [slotMap?, Option.map_eq_none_iff] using hm
    simp [slotMap?, hnone]

/-- **The slot map that a registration leaves** of its language: the one it had, or an
empty one, with the registration inserted. -/
def slotMapWith (s : Slot) : SlotMap :=
  ((r.slotMap? s.name).getD []).insert s.backend s.registration

/-- **A registration puts the slot map** of its language into the table. -/
theorem registrations_putSlot (s : Slot) :
    (r.putSlot s).registrations =
      if (r.registrations.find? fun old => old.1 == s.name).isSome then
        r.registrations.map fun old => if old.1 = s.name then (s.name, r.slotMapWith s) else old
      else r.registrations ++ [(s.name, r.slotMapWith s)] := by
  have hput : r.putSlot s = (r.openSlotMap s.name).putSlotMap s.name (r.slotMapWith s) := by
    rw [putSlot, slotMap?_openSlotMap, Option.getD_some]
    rfl
  rw [hput, putSlotMap, openSlotMap, slotMap?, Option.isSome_map]
  split
  · rfl
  · next hnone =>
    -- nobody else has the name, so that only the empty map makes place
    rw [Option.not_isSome_iff_eq_none] at hnone
    have hothers : (r.registrations.map fun old =>
        if old.1 = s.name then (s.name, r.slotMapWith s) else old) = r.registrations := by
      refine (List.map_congr_left fun old hold => if_neg ?_).trans (List.map_id' _)
      simpa using List.find?_eq_none.mp hnone old hold
    rw [List.map_append, hothers, List.map_singleton, if_pos rfl]

@[simp] theorem engine?_putSlot (s : Slot) (k : BackendKind) :
    (r.putSlot s).engine? k = r.engine? k := by
  rw [putSlot_eq]
  rfl

@[simp] theorem tag?_putSlot (s : Slot) (k : BackendKind) :
    (r.putSlot s).tag? k = r.tag? k := by
  rw [putSlot_eq]
  rfl

@[simp] theorem cache_putSlot (s : Slot) : (r.putSlot s).cache = r.cache := by rw [putSlot_eq]

end Registry

/-! ## Changes -/

@[simp] theorem Registration.backend_cacheKey (reg : Registration) (k : BackendKind)
    (n : LanguageName) : (reg.cacheKey k n).backend = k := by
  cases reg <;> rfl

/-- **What callers may bring in.** -/
structure Regime where
  /-- The engines that they install. -/
  engine : Engine → Prop
  /-- The languages that they put into the cache themselves, each under its key. -/
  handle : CacheKey → LanguageHandle → Prop

namespace Regime

/-- Anything may be brought in. -/
def free : Regime := ⟨fun _ => True, fun _ _ => True⟩

/-- **The library on its own**: no foreign engine, and no language in the cache
but those that the registry loaded. -/
def own : Regime := ⟨Engine.IsBuiltIn, fun _ _ => False⟩

/-- **A regime under which languages name their backend**: engines sign what they load, and
callers put a language into the cache for the backend that it names. -/
structure Signed (G : Regime) : Prop where
  /-- Engines sign. -/
  engine : ∀ {e}, G.engine e → e.Signs
  /-- So do callers. -/
  handle : ∀ {key h}, G.handle key h → h.backend = key.backend

theorem signed_own : own.Signed := ⟨Engine.IsBuiltIn.signs, nofun⟩

end Regime

/-- A tag says of a backend what an engine is. -/
def Tag.Announces (t : Tag) (e : Engine) : Prop := t.category = e.category ∧ t.form = e.form

namespace Registry

theorem agree_eq_ok {t : Tag} {e : Engine} {u : Unit} (h : agree t e = .ok u) :
    t.Announces e := by
  unfold agree at h
  split at h
  · next hta => exact hta
  · cases h

/-- **A backend's predicate changes its mind** about whether it is available. A
tag without a predicate has none to change. -/
def sway (r : Registry) (k : BackendKind) (answer : Bool) : Registry :=
  { r with tags := r.tags.map fun t =>
      if t.kind = k then { t with availability := t.availability.map fun _ => answer } else t }

/-- **What can happen to a registry.** -/
inductive Change (G : Regime) : Registry → Registry → Prop
  /-- An engine is installed that agrees with the tag of its backend. -/
  | install {r : Registry} (e : Engine) (may : G.engine e)
      (agrees : ∀ t, r.tag? e.kind = some t → t.Announces e) : Change G r (r.install e)
  /-- A tag is put down that agrees with the engine of its backend. -/
  | tag {r : Registry} (t : Tag)
      (agrees : ∀ i, r.engine? t.kind = some i → t.Announces i.engine) : Change G r (r.putTag t)
  /-- A predicate changes its mind. -/
  | sway {r : Registry} (k : BackendKind) (answer : Bool) : Change G r (r.sway k answer)
  /-- A valid registration is made, of the category of the backend's tag. -/
  | slot {r : Registry} (s : Slot) (valid : s.registration.validate = .ok ())
      (fits : ∀ t, r.tag? s.backend = some t → t.category = s.registration.category) :
      Change G r (r.putSlot s)
  /-- A language is put into the cache that the engine of its backend loaded. -/
  | load {r : Registry} {k : BackendKind} {i : Installed} (n : LanguageName)
      (reg : Registration) (h : LanguageHandle) {w w' : World} (ready : r.engine? k = some i)
      (absent : r.cached? (reg.cacheKey k n) = none)
      (loaded : (i.engine.load n reg).on w = (.ok h, w')) :
      Change G r (r.putCached (reg.cacheKey k n) h)
  /-- A language is put into the cache that a caller made. -/
  | insert {r : Registry} (key : CacheKey) (h : LanguageHandle) (may : G.handle key h)
      (absent : r.cached? key = none) : Change G r (r.putCached key h)
  /-- The cache is emptied. -/
  | clearCache {r : Registry} : Change G r r.clearCache
  /-- The cache and the registrations are emptied. -/
  | clearAll {r : Registry} : Change G r r.clearAll

/-! ## What every change keeps -/

/-- **A cached language is accounted for**: an engine loaded it for its key, or a
caller brought it in. -/
def Accounted (G : Regime) (key : CacheKey) (h : LanguageHandle) : Prop :=
  G.handle key h ∨ ∃ e n reg w w', G.engine e ∧ key = Registration.cacheKey reg e.kind n ∧
    (e.load n reg).on w = (.ok h, w')

/-- **A sound registry**: engines stand under their own names, each beside a tag
that agrees with it, and the cached languages are accounted for. -/
structure Sound (G : Regime) (r : Registry) : Prop where
  /-- What is known of an installed engine is read off it. -/
  engine : ∀ {k i}, r.engine? k = some i → i = .ofEngine i.engine ∧ G.engine i.engine
  /-- An installed engine is announced. -/
  announced : ∀ {k i}, r.engine? k = some i → ∃ t, r.tag? k = some t ∧ t.Announces i.engine
  /-- Every cached language is accounted for. -/
  accounted : ∀ entry ∈ r.cache, Accounted G entry.1 entry.2

variable {G : Regime} {r r' : Registry}

theorem Sound.empty (G : Regime) (settings : Settings) : (Registry.empty settings).Sound G where
  engine := nofun
  announced := nofun
  accounted := nofun

/-- Only the tags and the engines matter, and the cache may shrink. -/
theorem Sound.of_eq (hr : r.Sound G) (engines : ∀ k, r'.engine? k = r.engine? k)
    (tags : ∀ k, r'.tag? k = r.tag? k) (cache : ∀ entry ∈ r'.cache, entry ∈ r.cache) :
    r'.Sound G where
  engine h := hr.engine (by rwa [engines] at h)
  announced h := by
    rw [engines] at h
    rw [tags]
    exact hr.announced h
  accounted entry h := hr.accounted entry (cache entry h)

/-- The tag of a backend before and after a predicate changed its mind say the
same but for that. -/
theorem tag?_sway (k : BackendKind) (answer : Bool) (k' : BackendKind) {t : Tag}
    (h : r.tag? k' = some t) :
    ∃ t', (r.sway k answer).tag? k' = some t' ∧ t'.category = t.category ∧ t'.form = t.form := by
  unfold sway tag?
  rw [List.find?_map]
  have hsame : ((fun u : Tag => u.kind == k') ∘ fun u => if u.kind = k then
      { u with availability := u.availability.map fun _ => answer } else u)
      = fun u => u.kind == k' := by
    funext u
    by_cases hu : u.kind = k <;> simp [hu]
  rw [hsame, show r.tags.find? (fun u => u.kind == k') = some t from h, Option.map_some]
  refine ⟨_, rfl, ?_⟩
  split <;> exact ⟨rfl, rfl⟩

theorem Sound.install (hr : r.Sound G) {e : Engine} (may : G.engine e)
    (agrees : ∀ t, r.tag? e.kind = some t → t.Announces e) : (r.install e).Sound G where
  engine {k i} h := by
    rw [engine?_install] at h
    split at h
    · cases h
      exact ⟨rfl, may⟩
    · exact hr.engine h
  announced {k i} h := by
    rw [engine?_install] at h
    rw [tag?_install]
    split at h
    · next hk =>
      -- the new engine: its backend had a tag that agrees, or gets the engine's own
      cases h
      cases ht : r.tag? k with
      | some t => exact ⟨t, rfl, agrees t (hk ▸ ht)⟩
      | none => exact ⟨.ofEngine e, by rw [if_pos hk]; rfl, rfl, rfl⟩
    · obtain ⟨t, ht, ha⟩ := hr.announced h
      exact ⟨t, by rw [ht, Option.some_or], ha⟩
  accounted entry h := hr.accounted entry (by rwa [cache_install] at h)

theorem Sound.putTag (hr : r.Sound G) {t : Tag}
    (agrees : ∀ i, r.engine? t.kind = some i → t.Announces i.engine) : (r.putTag t).Sound G where
  engine h := hr.engine (by rwa [engine?_putTag] at h)
  announced {k i} h := by
    rw [engine?_putTag] at h
    rw [tag?_putTag]
    split
    · next hk => exact ⟨t, rfl, agrees i (hk ▸ h)⟩
    · exact hr.announced h
  accounted entry h := hr.accounted entry (by rwa [cache_putTag] at h)

theorem Sound.putCached (hr : r.Sound G) {key : CacheKey} {h : LanguageHandle}
    (accounted : Accounted G key h) : (r.putCached key h).Sound G where
  engine h := hr.engine h
  announced h := hr.announced h
  accounted entry hm := by
    rcases List.mem_append.mp hm with hm | hm
    · exact hr.accounted entry hm
    · rw [List.mem_singleton] at hm
      rw [hm]
      exact accounted

/-- **Every change keeps a registry sound.** -/
theorem Change.sound (hc : Change G r r') (hr : r.Sound G) : r'.Sound G := by
  cases hc with
  | install e may agrees => exact hr.install may agrees
  | tag t agrees => exact hr.putTag agrees
  | sway k answer =>
    refine ⟨hr.engine, fun h => ?_, hr.accounted⟩
    obtain ⟨t, ht, ha⟩ := hr.announced h
    obtain ⟨t', ht', hc, hf⟩ := tag?_sway k answer _ ht
    exact ⟨t', ht', hc.trans ha.1, hf.trans ha.2⟩
  | slot s valid fits =>
    exact hr.of_eq (r.engine?_putSlot s) (r.tag?_putSlot s) (fun e h => by rwa [cache_putSlot] at h)
  | load n reg h ready absent loaded =>
    obtain ⟨hi, may⟩ := hr.engine ready
    have hk : _ = _ := (kind_of_engine? ready).symm.trans (congrArg Installed.kind hi)
    exact hr.putCached (.inr ⟨_, n, reg, _, _, may, congrArg (reg.cacheKey · n) hk, loaded⟩)
  | insert key h may absent => exact hr.putCached (.inl may)
  | clearCache => exact hr.of_eq (fun _ => rfl) (fun _ => rfl) nofun
  | clearAll => exact hr.of_eq (fun _ => rfl) (fun _ => rfl) nofun

/-- **An engine's category is settled.** A backend that has an engine keeps having
one, of the same category and with languages of the same form. -/
theorem Change.engine?_stable (hc : Change G r r') (hr : r.Sound G) {k : BackendKind}
    {i : Installed} (h : r.engine? k = some i) :
    ∃ i', r'.engine? k = some i' ∧ i'.engine.category = i.engine.category ∧
      i'.engine.form = i.engine.form := by
  have same : ∃ i', r.engine? k = some i' ∧ i'.engine.category = i.engine.category ∧
      i'.engine.form = i.engine.form := ⟨i, h, rfl, rfl⟩
  cases hc with
  | install e may agrees =>
    rw [engine?_install]
    split
    · next hk =>
      -- the old engine and the new one both agree with the tag
      obtain ⟨t, ht, hold⟩ := hr.announced h
      have hnew := agrees t (hk ▸ ht)
      exact ⟨_, rfl, hnew.1.symm.trans hold.1, hnew.2.symm.trans hold.2⟩
    · exact same
  | tag t agrees =>
    rw [engine?_putTag]
    exact same
  | sway k answer => exact same
  | slot s valid fits =>
    rw [engine?_putSlot]
    exact same
  | load n reg h ready absent loaded => exact same
  | insert key h may absent => exact same
  | clearCache => exact same
  | clearAll => exact same

/-! ## Any number of changes -/

/-- **What becomes of a registry**, over any number of changes. -/
def Evolves (G : Regime) : Registry → Registry → Prop := Relation.ReflTransGen (Change G)

theorem Evolves.sound (hc : Evolves G r r') (hr : r.Sound G) : r'.Sound G := by
  induction hc with
  | refl => exact hr
  | tail _ hc ih => exact hc.sound ih

theorem Evolves.engine?_stable (hc : Evolves G r r') (hr : r.Sound G) {k : BackendKind}
    {i : Installed} (h : r.engine? k = some i) :
    ∃ i', r'.engine? k = some i' ∧ i'.engine.category = i.engine.category ∧
      i'.engine.form = i.engine.form := by
  induction hc with
  | refl => exact ⟨i, h, rfl, rfl⟩
  | tail hpre hc ih =>
    obtain ⟨i', hi', hcat, hform⟩ := ih
    obtain ⟨i'', hi'', hcat', hform'⟩ := hc.engine?_stable (Evolves.sound hpre hr) hi'
    exact ⟨i'', hi'', hcat'.trans hcat, hform'.trans hform⟩

/-! ## The cache -/

/-- **A cached language belongs to the backend of its key.** -/
theorem Accounted.backend_eq (signed : G.Signed) {key : CacheKey} {h : LanguageHandle}
    (ha : Accounted G key h) : h.backend = key.backend := by
  obtain hout | ⟨e, n, reg, w, w', may, rfl, hload⟩ := ha
  · exact signed.handle hout
  · rw [signed.engine may hload, Registration.backend_cacheKey]

/-- What is found in the cache is in it. -/
theorem mem_of_cached? {key : CacheKey} {h : LanguageHandle} (hc : r.cached? key = some h) :
    (key, h) ∈ r.cache := by
  obtain ⟨⟨key', h'⟩, hfind, rfl⟩ := Option.map_eq_some_iff.mp hc
  have hkey : key' = key := by simpa using List.find?_some hfind
  exact hkey ▸ List.mem_of_find?_eq_some hfind

end Registry

end TreeBroker
