import TreeBroker.Proofs.LibraryPaths
import TreeBroker.Proofs.RegistryTables
import TreeBroker.Proofs.Supply

/-!
# What a cached language can be trusted for

The cache is keyed by texts: the name of the backend, the name of the language,
the symbol if there is one, and where the language comes from *as it is shown*.
Whether a caller may take what is found under the key of its registration for the
language of its registration is therefore a question about two steps. What is in
the cache has to be what its key says, and the key has to say enough.

The first is an invariant over all runs of the library on its own: engines and
stubs may be replaced, languages registered anew, libraries loaded without being
registered, and yet a cached language was loaded by an engine of the backend in its
key, under the name in its key, from a registration with the key's texts.

The second would fail for paths in general, since paths that are not text are shown
alike. But a registration is loaded only after it passed the check, and the check
refuses a path that is not text. So a key determines where its language comes from
byte for byte (`CacheKey.provenance`), and a library and a grammar are told apart
by the symbol that only libraries have.
-/

namespace TreeBroker

open TreeBroker.Action

/-! ## What a key says -/

/-- **Where the language of a key comes from.** -/
def CacheKey.provenance (key : CacheKey) : Provenance :=
  match key.symbol with
  | some symbol => .library (.ofString key.location) symbol
  | none => .grammar key.location

@[simp] theorem Registration.name_cacheKey (reg : Registration) (k : BackendKind)
    (n : LanguageName) : (reg.cacheKey k n).name = n := by
  cases reg <;> rfl

theorem FilePath.ofString_display {p : FilePath} (h : p.rejection? = none) :
    ofString p.display = p := by
  obtain ⟨cs, spells, -⟩ := (rejection?_eq_none_iff.mp h).text
  exact congrArg FilePath.mk (Utf8.bytes_display (decode?_eq_some_iff.mpr spells))

/-- **The key of a valid registration says where its language comes from.** -/
theorem Registration.provenance_cacheKey {reg : Registration} (valid : reg.validate = .ok ())
    (k : BackendKind) (n : LanguageName) : (reg.cacheKey k n).provenance = reg.provenance := by
  cases reg with
  | grammar g i => rfl
  | library path symbol =>
    have hpath : path.rejection? = none := by
      rw [validate] at valid
      cases hrej : path.rejection? with
      | none => rfl
      | some reason =>
        rw [hrej] at valid
        cases valid
    show Provenance.library (.ofString path.display) symbol = .library path symbol
    rw [FilePath.ofString_display hpath]

/-! ## What a language was loaded for -/

/-- **A language was loaded for a backend, under a name, from a place**: it says so
itself, and an engine of this library for that backend loaded it under that name,
from a registration of that place that passes the check. -/
structure LanguageHandle.LoadedFor (h : LanguageHandle) (k : BackendKind) (n : LanguageName)
    (v : Provenance) : Prop where
  backend : h.backend = k
  name : h.name = n
  provenance : h.provenance = v
  source : ∃ (e : Engine) (reg : Registration) (w w' : World), e.IsBuiltIn ∧ e.kind = k ∧
    reg.validate = .ok () ∧ reg.provenance = v ∧ (e.load n reg).on w = (.ok h, w')

namespace Registry

variable {r : Registry} {k : BackendKind} {n : LanguageName} {reg : Registration}
  {h : LanguageHandle}

theorem loadedFor_of_load (hr : r.Sound .own) {i : Installed} (hi : r.engine? k = some i)
    (valid : reg.validate = .ok ()) {w w' : World}
    (loaded : (i.engine.load n reg).on w = (.ok h, w')) : h.LoadedFor k n reg.provenance := by
  obtain ⟨hself, built⟩ := hr.engine hi
  have hkind : i.engine.kind = k := by
    rw [← kind_of_engine? hi, hself]
    rfl
  obtain ⟨hname, hbackend, hprov⟩ := Engine.load_ok built loaded
  exact ⟨hbackend.trans hkind, hname, hprov,
    i.engine, reg, w, w', built, hkind, valid, rfl, loaded⟩

/-- A registration on offer passes the check. -/
theorem Offers.valid (ht : r.Tabular) (ho : r.Offers k n reg) : reg.validate = .ok () := by
  obtain hreg | ⟨path, symbol, rfl, valid⟩ := ho
  · exact ht.valid_of_registeredFor? hreg
  · exact valid

/-- What a registry supplies under a key was loaded for what the key says. -/
theorem Supplies.loadedFor (hr : r.Sound .own) (ht : r.Tabular) {key : CacheKey}
    (hs : r.Supplies key h) : h.LoadedFor key.backend key.name key.provenance := by
  obtain ⟨k, i, n, reg, w, w', hi, offers, rfl, loaded⟩ := hs
  have valid := offers.valid ht
  rw [Registration.backend_cacheKey, Registration.name_cacheKey,
    Registration.provenance_cacheKey valid]
  exact loadedFor_of_load hr hi valid loaded

end Registry

namespace Broker.Reachable

variable {s s' : Broker} {k : BackendKind} {n : LanguageName} {reg : Registration}
  {h : LanguageHandle} {key : CacheKey}

/-- **What is found in the cache was loaded for its key.** -/
theorem cached?_loadedFor (hs : s.Reachable .own) (hc : s.registry.cached? key = some h) :
    h.LoadedFor key.backend key.name key.provenance := by
  -- back along the run, to the operation that put the language in
  induction hs with
  | empty settings w => cases hc
  | step op may hpre ih =>
    obtain hold | ⟨-, hout | hsup⟩ := Operation.cached?_cases may hc
    · exact ih hold
    · exact hout.elim
    · exact hsup.loadedFor hpre.sound hpre.tabular

/-- A load of a valid registration gives a language of the registration, out of the
cache or not. -/
theorem load_loadedFor (hs : s.Reachable .own) (valid : reg.validate = .ok ())
    (hl : (Registry.load k n reg).on s = (.ok h, s')) : h.LoadedFor k n reg.provenance := by
  obtain ⟨i, hi, -, ⟨hc, -⟩ | ⟨-, w, hload, -⟩⟩ := Registry.load_ok hl
  · have hcached := hs.cached?_loadedFor hc
    rwa [Registration.backend_cacheKey, Registration.name_cacheKey,
      Registration.provenance_cacheKey valid] at hcached
  · exact Registry.loadedFor_of_load hs.sound hi valid hload

/-- **The cache is sound.** In every run of the library on its own, each language in
the cache was loaded for what its key says: the key's backend, its name, and the
library or grammar that its texts spell. So a language that is loaded for a backend
is that of the registration in the slot, and a library that is loaded for one is the
library that was named – backend, name and provenance are those that were asked for,
byte for byte, and what it was loaded from passes the check. -/
theorem cache_sound (hs : s.Reachable .own) :
    (∀ entry ∈ s.registry.cache,
      entry.2.LoadedFor entry.1.backend entry.1.name entry.1.provenance) ∧
    (∀ k n h s', (Registry.languageFor n (some k)).on s = (.ok h, s') →
      ∃ reg, s.registry.registeredFor? n k = some reg ∧ reg.validate = .ok () ∧
        h.LoadedFor k n reg.provenance) ∧
    (∀ k n path symbol h s', (Registry.loadLibrary k n path symbol).on s = (.ok h, s') →
      (Registration.library path symbol).validate = .ok () ∧
        h.LoadedFor k n (.library path symbol)) := by
  refine ⟨fun entry hentry => ?_, fun k n h s' hl => ?_, fun k n path symbol h s' hl => ?_⟩
  · have hfind := (find?_eq_some_iff Prod.fst hs.tabular.cache).mpr ⟨hentry, rfl⟩
    exact hs.cached?_loadedFor (Option.map_eq_some_iff.mpr ⟨entry, hfind, rfl⟩)
  · obtain ⟨reg, hreg, hload⟩ := Registry.languageFor_some_ok hl
    have valid : reg.validate = .ok () := Registry.Offers.valid hs.tabular (.inl hreg)
    exact ⟨reg, hreg, valid, hs.load_loadedFor valid hload⟩
  · obtain ⟨reg, t, hreg, -⟩ := on_bind_eq_ok.mp hl
    rw [on_ofExcept, Prod.mk.injEq] at hreg
    have valid := (Registration.checked_ok hreg.1).2
    exact ⟨valid, hs.load_loadedFor valid (Registry.loadLibrary_ok hl)⟩

end Broker.Reachable

/-! ## A library on disk -/

/-- One library, in a directory of its own. -/
def FileSystem.shelf : FileSystem where
  table :=
    [([Utf8.bytes "lib"], .directory),
      ([Utf8.bytes "lib", Utf8.bytes "libtree-sitter-c-sharp.so"], .file [])]
  storable := by decide

/-- The path of the library. -/
def FilePath.onShelf : FilePath := .ofString "/lib/libtree-sitter-c-sharp.so"

/-- A new registry beside the library. -/
def Broker.besideShelf : Broker := ⟨.withDefaults default, { files := .shelf }⟩

/-- What is loaded from the library says so, and the check has looked at it. -/
theorem Broker.Reachable.cache_sound_shelf :
    Broker.besideShelf.Reachable .own ∧
      ∃ h s', (Registry.loadLibrary .treeSitter ⟨"c_sharp", by decide⟩ .onShelf
          "tree_sitter_c_sharp").on .besideShelf = (.ok h, s') ∧
        h.LoadedFor .treeSitter ⟨"c_sharp", by decide⟩
          (.library .onShelf "tree_sitter_c_sharp") := by
  have hreach : Broker.besideShelf.Reachable .own :=
    .of_isNew (s := .besideShelf) trivial trivial (.withDefaults default)
  have hchecked : (Registration.library .onShelf "tree_sitter_c_sharp").checked
      = .ok (.library .onShelf "tree_sitter_c_sharp") := by cbv
  have hfile : FileSystem.shelf.isFile .onShelf = true := by cbv
  obtain ⟨h, w, hengine⟩ : ∃ h w, (Engine.standard.load ⟨"c_sharp", by decide⟩
      (.library .onShelf "tree_sitter_c_sharp")).on { files := .shelf } = (.ok h, w) := by
    show ∃ h w, (get >>= _ : Action World LanguageHandle).on _ = (.ok h, w)
    rw [on_bind_of_ok (on_get _)]
    simp only [hfile]
    exact ⟨_, _, rfl⟩
  obtain ⟨s', hload⟩ : ∃ s', (Registry.loadLibrary .treeSitter ⟨"c_sharp", by decide⟩ .onShelf
      "tree_sitter_c_sharp").on .besideShelf = (.ok h, s') := by
    have hcompute : (Broker.inWorld ((Installed.ofEngine .standard).engine.load
        ⟨"c_sharp", by decide⟩ (.library .onShelf "tree_sitter_c_sharp"))).on .besideShelf
          = (.ok h, ⟨.withDefaults default, w⟩) :=
      congrArg (fun x : _ × World => (x.1, Broker.mk (.withDefaults default) x.2)) hengine
    show ∃ s', (Action.ofExcept (Registration.library .onShelf "tree_sitter_c_sharp").checked
      >>= _ : Action Broker LanguageHandle).on .besideShelf = (.ok h, s')
    rw [hchecked, on_bind_of_ok (on_ofExcept _ _), Registry.on_load_of_ready rfl rfl,
      Registry.fetch_of_none rfl, on_bind_of_ok hcompute]
    exact ⟨_, Registry.insertIfAbsent_of_none rfl⟩
  exact ⟨hreach, h, s', hload, (hreach.cache_sound.2.2 _ _ _ _ _ _ hload).2⟩

end TreeBroker
