import Mathlib
import TreeBroker.Proofs.Utf8Places
import TreeBroker.Proofs.WrittenDocuments
import TreeBroker.Settings

/-!
# Settings outlive their document

Settings are written as a document and read from one, and the two sides share nothing but the
names of the keys. The texts in settings are arbitrary: a directory may be called `~` or `no`,
and a prefix may hold breaks. Such a text is put in quotes or into a block, where it is read as
a text and nothing else, and the only text that reading distinguishes from others, a name that
may be nothing, is never written in a form that could be taken for it (`backendOfNode?_ofText`).

Documents that were written elsewhere are the other half. A key may be absent at
either level, the whole document may be empty, and a value may be an alias for one that stands
elsewhere. What holds of all of them is said of the nodes that stand under a key
(`Yaml.Document.Reaches`), without the order in which the keys are looked up (`ReadFrom`).
-/

namespace TreeBroker

/-- A list is decoded item by item. -/
theorem mapM_eq_some_iff {α β : Type} {f : α → Option β} {as : List α} {bs : List β} :
    as.mapM f = some bs ↔ List.Forall₂ (fun a b => f a = some b) as bs := by
  induction as generalizing bs with
  | nil =>
    rw [List.mapM_nil, List.forall₂_nil_left_iff]
    exact Option.some_inj.trans eq_comm
  | cons a as ih =>
    rw [List.mapM_cons, List.forall₂_cons_left_iff]
    constructor
    · intro h
      obtain ⟨b, decoded, h⟩ := Option.bind_eq_some_iff.mp h
      obtain ⟨bs', rest, h⟩ := Option.bind_eq_some_iff.mp h
      exact ⟨b, bs', decoded, ih.mp rest, (Option.some.inj h).symm⟩
    · rintro ⟨b, bs', decoded, rest, rfl⟩
      rw [decoded, ih.mpr rest]
      rfl

/-! ## Paths that are text -/

theorem FilePath.toString?_eq_some_iff {p : FilePath} {s : String} :
    p.toString? = some s ↔ ofString s = p := by
  rw [toString?, Utf8.toString?, Option.map_eq_some_iff]
  constructor
  · rintro ⟨cs, decoded, rfl⟩
    rw [ofString, Utf8.bytes, String.toList_ofList, Utf8.decode?_eq_some_iff.mp decoded]
  · rintro rfl
    exact ⟨s.toList, Utf8.decode?_eq_some_iff.mpr rfl, String.ofList_toList⟩

namespace Settings

theorem pathTexts?_eq_some_iff {ps : List FilePath} {ts : List String} :
    pathTexts? ps = some ts ↔ ts.map FilePath.ofString = ps := by
  rw [pathTexts?, mapM_eq_some_iff]
  constructor
  · intro h
    induction h with
    | nil => rfl
    | cons text _ ih => rw [List.map_cons, FilePath.toString?_eq_some_iff.mp text, ih]
  · rintro rfl
    rw [List.forall₂_map_left_iff, List.forall₂_same]
    exact fun s _ => FilePath.toString?_eq_some_iff.mpr rfl

/-- Paths are texts when each of them is. -/
theorem exists_pathTexts?_iff {ps : List FilePath} :
    (∃ ts, pathTexts? ps = some ts) ↔ ∀ p ∈ ps, ∃ s, FilePath.ofString s = p := by
  constructor
  · rintro ⟨ts, h⟩ p hp
    rw [← pathTexts?_eq_some_iff.mp h] at hp
    obtain ⟨s, -, rfl⟩ := List.mem_map.mp hp
    exact ⟨s, rfl⟩
  · intro h
    have spelled : ps ∈ Set.range (List.map FilePath.ofString) := by
      rw [Set.range_list_map]
      exact h
    obtain ⟨ts, spells⟩ := spelled
    exact ⟨ts, pathTexts?_eq_some_iff.mpr spells⟩

/-! ## Writing -/

theorem exists_ofText (s : String) : ∃ style, Yaml.Node.ofText s = .scalar s style none ∧
    Yaml.Lexer.Fits s style ∧ (style = .plain → Yaml.isAmbiguous s = false) := by
  rw [Yaml.Node.ofText]
  split
  · split
    · next fits => exact ⟨.literal, rfl, fits, nofun⟩
    · exact ⟨.quoted, rfl, trivial, nofun⟩
  · split
    · next fits =>
      rw [Bool.and_eq_true, Bool.not_eq_true'] at fits
      refine ⟨.plain, rfl, ⟨?_, fits.2⟩, fun _ => fits.1⟩
      rintro empty
      rw [String.toList_eq_nil_iff.mp empty] at fits
      cases fits.1
    · exact ⟨.quoted, rfl, trivial, nofun⟩

/-- The entries of search settings whose paths are texts. -/
def searchEntries (c : Settings) (extra trusted : List String) : List (Yaml.Node × Yaml.Node) :=
  [(plain "env-prefix", .ofText c.locator.envStem),
    (plain "extra-dirs", .sequence (extra.map Yaml.Node.ofText)),
    (plain "trusted-dirs", .sequence (trusted.map Yaml.Node.ofText)),
    (plain "env-policy", plain c.locator.envPolicy.identifier)]

/-- The entries of settings whose paths are texts. -/
def entries (c : Settings) (extra trusted : List String) : List (Yaml.Node × Yaml.Node) :=
  [(plain "backend", c.backend.elim (plain "null") fun k => .ofText k.text),
    (plain "debug", plain (if c.debug then "true" else "false")),
    (plain "locator", .mapping (searchEntries c extra trusted))]

theorem toEntries?_of_texts {c : Settings} {extra trusted : List String}
    (hextra : pathTexts? c.locator.extraDirs = some extra)
    (htrusted : pathTexts? c.locator.trustedDirs = some trusted) :
    c.toEntries? = some (entries c extra trusted) := by
  rw [toEntries?, nodeOfPaths?, nodeOfPaths?, hextra, htrusted]
  rfl

theorem fits_of_mem_texts {ts : List String} : ∀ n ∈ ts.map Yaml.Node.ofText,
    ∃ s style, n = .scalar s style none ∧ Yaml.Lexer.Fits s style := by
  intro n hn
  obtain ⟨s, -, rfl⟩ := List.mem_map.mp hn
  obtain ⟨style, written, fits, -⟩ := exists_ofText s
  exact ⟨s, style, written, fits⟩

/-- **Settings are written in a form that is read back.** -/
theorem writable_entries (c : Settings) (extra trusted : List String) :
    Yaml.Writable (entries c extra trusted) := by
  have policy : Yaml.Lexer.Fits c.locator.envPolicy.identifier .plain := by
    cases c.locator.envPolicy <;> exact ⟨by decide, by decide⟩
  have debug : Yaml.Lexer.Fits (if c.debug then "true" else "false") .plain := by
    cases c.debug <;> exact ⟨by decide, by decide⟩
  have search : Yaml.Writable (searchEntries c extra trusted) := by
    obtain ⟨style, stem, fits, -⟩ := exists_ofText c.locator.envStem
    rw [searchEntries, stem]
    exact .scalar rfl fits (.sequence rfl fits_of_mem_texts (.sequence rfl fits_of_mem_texts
      (.scalar rfl policy .nil)))
  have others : Yaml.Writable [(plain "debug", plain (if c.debug then "true" else "false")),
      (plain "locator", .mapping (searchEntries c extra trusted))] :=
    .scalar rfl debug (.mapping rfl search .nil)
  rw [entries]
  cases c.backend with
  | none => exact .scalar rfl ⟨by decide, by decide⟩ others
  | some k =>
    obtain ⟨style, name, fits, -⟩ := exists_ofText k.text
    rw [Option.elim_some, name]
    exact .scalar rfl fits others

/-! ## Reading what was written -/

section Reading

variable (d : Yaml.Document)

theorem text?_ofText (s : String) : text? d (.ofText s) = some s := by
  obtain ⟨style, written, -⟩ := exists_ofText s
  rw [text?, written]
  rfl

theorem pathsOfNode?_texts (ts : List String) :
    pathsOfNode? d (.sequence (ts.map Yaml.Node.ofText)) = some (ts.map FilePath.ofString) := by
  rw [pathsOfNode?]
  show (ts.map Yaml.Node.ofText).mapM (fun n => (text? d n).map FilePath.ofString) = _
  rw [mapM_eq_some_iff, List.forall₂_map_left_iff, List.forall₂_map_right_iff, List.forall₂_same]
  intro s _
  rw [text?_ofText, Option.map_some]

theorem ofString?_text (k : BackendKind) : BackendKind.ofString? k.text = some k := by
  rw [BackendKind.ofString?, dif_pos k.safe]

/-- The name of a backend is never taken for nothing. -/
theorem backendOfNode?_ofText (k : BackendKind) :
    backendOfNode? d (.ofText k.text) = some (some k) := by
  obtain ⟨style, written, -, clear⟩ := exists_ofText k.text
  rw [backendOfNode?, written]
  cases style with
  | plain =>
    have named := clear rfl
    rw [Yaml.isAmbiguous, Bool.or_eq_false_iff, Bool.or_eq_false_iff, Bool.or_eq_false_iff] at named
    show (if Yaml.isNull k.text then some none else (BackendKind.ofString? k.text).map some) = _
    rw [named.1.1.1, ofString?_text]
    rfl
  | quoted =>
    show (BackendKind.ofString? k.text).map some = _
    rw [ofString?_text]
    rfl
  | literal =>
    show (BackendKind.ofString? k.text).map some = _
    rw [ofString?_text]
    rfl

theorem known?_searchEntries (c : Settings) (extra trusted : List String) :
    known? d searchKeys (.mapping (searchEntries c extra trusted)) =
      some [some (.ofText c.locator.envStem), some (.sequence (extra.map Yaml.Node.ofText)),
        some (.sequence (trusted.map Yaml.Node.ofText)),
        some (plain c.locator.envPolicy.identifier)] := by
  simp [known?, entries?, searchEntries, searchKeys, text?, plain, Yaml.Document.view]

theorem searchOfNode?_searchEntries (c : Settings) (extra trusted : List String) :
    searchOfNode? d (.mapping (searchEntries c extra trusted)) =
      some { c.locator with
        extraDirs := extra.map FilePath.ofString
        trustedDirs := trusted.map FilePath.ofString } := by
  have policy : policyOfNode? d (plain c.locator.envPolicy.identifier) =
      some c.locator.envPolicy := by
    cases c.locator.envPolicy <;>
      simp [policyOfNode?, plain, Yaml.Document.view, EnvPolicy.ofIdentifier?, EnvPolicy.all,
        EnvPolicy.identifier]
  rw [searchOfNode?, known?_searchEntries]
  simp [orElse, text?_ofText, pathsOfNode?_texts, policy]

theorem ofNode?_entries (c : Settings) (extra trusted : List String) :
    ofNode? d (.mapping (entries c extra trusted)) =
      some { c with locator := { c.locator with
        extraDirs := extra.map FilePath.ofString
        trustedDirs := trusted.map FilePath.ofString } } := by
  have known : known? d keys (.mapping (entries c extra trusted)) =
      some [some (c.backend.elim (plain "null") fun k => .ofText k.text),
        some (plain (if c.debug then "true" else "false")),
        some (.mapping (searchEntries c extra trusted))] := by
    simp [known?, entries?, entries, keys, text?, plain, Yaml.Document.view]
  have backend : backendOfNode? d (c.backend.elim (plain "null") fun k => .ofText k.text) =
      some c.backend := by
    cases c.backend with
    | none => rfl
    | some k => exact backendOfNode?_ofText d k
  have debug : boolOfNode? d (plain (if c.debug then "true" else "false")) = some c.debug := by
    cases c.debug <;> rfl
  rw [ofNode?, known]
  simp [orElse, backend, debug, searchOfNode?_searchEntries]

end Reading

theorem write_of_texts {c : Settings} {extra trusted : List String}
    (hextra : pathTexts? c.locator.extraDirs = some extra)
    (htrusted : pathTexts? c.locator.trustedDirs = some trusted) :
    c.write = .ok (Yaml.write (entries c extra trusted)) := by
  rw [write, toEntries?_of_texts hextra htrusted]

/-- **Written settings are read back.** -/
theorem parse_write {c : Settings} {extra trusted : List String}
    (hextra : pathTexts? c.locator.extraDirs = some extra)
    (htrusted : pathTexts? c.locator.trustedDirs = some trusted) :
    parse (Yaml.write (entries c extra trusted)) = .ok c := by
  have read : Yaml.read? (Yaml.write (entries c extra trusted)) =
      some ⟨.mapping (entries c extra trusted), []⟩ :=
    Yaml.read?_write (writable_entries c extra trusted)
  rw [parse, read, Option.bind_some, ofNode?_entries, pathTexts?_eq_some_iff.mp hextra,
    pathTexts?_eq_some_iff.mp htrusted]

/-- **Settings can be written exactly when every path is text.** -/
theorem exists_write_iff {c : Settings} : (∃ text, c.write = .ok text) ↔
    ∀ p ∈ c.locator.extraDirs ++ c.locator.trustedDirs, ∃ s, FilePath.ofString s = p := by
  rw [List.forall_mem_append, ← exists_pathTexts?_iff, ← exists_pathTexts?_iff]
  constructor
  · rintro ⟨text, written⟩
    rw [write] at written
    split at written
    · next es hes =>
      obtain ⟨_, extraNode, hes⟩ := Option.bind_eq_some_iff.mp hes
      obtain ⟨_, trustedNode, -⟩ := Option.bind_eq_some_iff.mp hes
      obtain ⟨extra, hextra, -⟩ := Option.map_eq_some_iff.mp extraNode
      obtain ⟨trusted, htrusted, -⟩ := Option.map_eq_some_iff.mp trustedNode
      exact ⟨⟨extra, hextra⟩, ⟨trusted, htrusted⟩⟩
    · cases written
  · rintro ⟨⟨extra, hextra⟩, ⟨trusted, htrusted⟩⟩
    exact ⟨_, write_of_texts hextra htrusted⟩

end Settings

/-! ## Documents -/

namespace Yaml.Document

/-- **A key has a value** in a node that stands for a mapping. -/
def Holds (d : Document) (n : Node) (key : String) (v : Node) : Prop :=
  ∃ es k style tag, d.view n = .mapping es ∧ (k, v) ∈ es ∧ d.view k = .scalar key style tag

/-- **A value stands under keys**, each within the value of the one before. -/
def Reaches (d : Document) : Node → List String → Node → Prop
  | n, [], v => n = v
  | n, key :: keys, v => ∃ m, d.Holds n key m ∧ d.Reaches m keys v

/-- **Nothing stands under keys** in a document. -/
def Lacks (d : Document) (keys : List String) : Prop := ∀ v, ¬d.Reaches d.root keys v

theorem reaches_of_holds {d : Document} {n v : Node} {key : String} (h : d.Holds n key v) :
    d.Reaches n [key] v := ⟨v, h, rfl⟩

theorem Lacks.not_holds {d : Document} {key : String} (h : d.Lacks [key]) (v : Node) :
    ¬d.Holds d.root key v := fun holds => h v (reaches_of_holds holds)

theorem Lacks.not_holds_within {d : Document} {outer inner : String} {n : Node}
    (h : d.Lacks [outer, inner]) (holds : d.Holds d.root outer n) (v : Node) :
    ¬d.Holds n inner v := fun within => h v ⟨n, holds, reaches_of_holds within⟩

end Yaml.Document

namespace Settings

section Decoding

variable {d : Yaml.Document} {n : Yaml.Node}

/-- What is known of a key: no value, or one that it has. -/
def Found (d : Yaml.Document) (n : Yaml.Node) (key : String) : Option Yaml.Node → Prop
  | none => ∀ v, ¬d.Holds n key v
  | some v => d.Holds n key v

theorem text?_eq_some_iff {s : String} :
    text? d n = some s ↔ ∃ style tag, d.view n = .scalar s style tag := by
  rw [text?]
  split
  · next text style tag view => simp [view]
  · next other => exact ⟨nofun, fun ⟨style, tag, view⟩ => absurd view (other s style tag)⟩

theorem mem_texts_iff {es : List (Yaml.Node × Yaml.Node)} {texts : List (String × Yaml.Node)}
    (h : es.mapM (fun (k, v) => (text? d k).map fun s => (s, v)) = some texts)
    {key : String} {v : Yaml.Node} :
    (key, v) ∈ texts ↔ ∃ k, (k, v) ∈ es ∧ text? d k = some key := by
  rw [mapM_eq_some_iff] at h
  induction h with
  | nil => simp
  | @cons e t es texts decoded _ ih =>
    obtain ⟨k, w⟩ := e
    obtain ⟨s, text, rfl⟩ := Option.map_eq_some_iff.mp decoded
    rw [List.mem_cons, ih]
    constructor
    · rintro (same | ⟨k', mem, key⟩)
      · obtain ⟨rfl, rfl⟩ := Prod.mk.inj same
        exact ⟨k, List.mem_cons_self, text⟩
      · exact ⟨k', List.mem_cons_of_mem _ mem, key⟩
    · rintro ⟨k', mem, key⟩
      obtain same | mem := List.mem_cons.mp mem
      · obtain ⟨rfl, rfl⟩ := Prod.mk.inj same
        rw [text] at key
        exact .inl (by rw [Option.some.inj key])
      · exact .inr ⟨k', mem, key⟩

/-- A key has a value in the entries of a node. -/
theorem holds_iff_of_entries? {es : List (Yaml.Node × Yaml.Node)} (h : entries? d n = some es)
    {key : String} {v : Yaml.Node} :
    d.Holds n key v ↔ ∃ k, (k, v) ∈ es ∧ text? d k = some key := by
  rw [entries?] at h
  split at h
  · next es' view =>
    cases h
    constructor
    · rintro ⟨es', k, style, tag, view', mem, text⟩
      rw [view] at view'
      cases view'
      exact ⟨k, mem, text?_eq_some_iff.mpr ⟨style, tag, text⟩⟩
    · rintro ⟨k, mem, text⟩
      obtain ⟨style, tag, text⟩ := text?_eq_some_iff.mp text
      exact ⟨es, k, style, tag, view, mem, text⟩
  · next other =>
    split at h
    · cases h
      constructor
      · rintro ⟨es, -, -, -, view, -⟩
        exact absurd view (other es)
      · rintro ⟨k, mem, -⟩
        cases mem
    · cases h

/-- **The values of known keys are those that the keys have.** -/
theorem found_of_known? {names : List String} {vs : List (Option Yaml.Node)}
    (h : known? d names n = some vs) : List.Forall₂ (Found d n) names vs := by
  obtain ⟨es, hes, h⟩ := Option.bind_eq_some_iff.mp h
  obtain ⟨texts, htexts, h⟩ := Option.bind_eq_some_iff.mp h
  refine (mapM_eq_some_iff.mp h).imp fun name v? found => ?_
  have listed (v : Yaml.Node) : (name, v) ∈ texts ↔ d.Holds n name v := by
    rw [holds_iff_of_entries? hes, ← mem_texts_iff htexts]
  split at found
  · next none =>
    cases found
    intro v holds
    exact List.filter_eq_nil_iff.mp none (name, v) ((listed v).mpr holds) (beq_self_eq_true name)
  · next s v only =>
    cases found
    obtain ⟨mem, same⟩ := List.mem_filter.mp (only ▸ List.mem_cons_self : (s, v) ∈ texts.filter _)
    obtain rfl : s = name := beq_iff_eq.mp same
    exact (listed v).mp mem
  · cases found

theorem eq_default_of_lacks {α : Type} {default a : α} {decode : Yaml.Node → Option α}
    {key : String} {v? : Option Yaml.Node} (found : Found d n key v?)
    (decoded : orElse default decode v? = some a) (absent : ∀ v, ¬d.Holds n key v) :
    a = default := by
  cases v? with
  | none => exact (Option.some.inj decoded).symm
  | some v => exact absurd found (absent v)

/-- **What a document says about settings**: a backend has a safe name that stands in the document,
and a field whose key is absent is the default one. -/
structure ReadFrom (c : Settings) (d : Yaml.Document) : Prop where
  /-- The name of a backend is safe, and stands in the document. -/
  named : ∀ k, c.backend = some k → Name.isSafe k.text.toList = true ∧
    ∃ v style tag, d.Reaches d.root ["backend"] v ∧ d.view v = .scalar k.text style tag
  /-- Without its key there is no backend. -/
  backend : d.Lacks ["backend"] → c.backend = ({} : Settings).backend
  /-- Without its key there is no debugging. -/
  debug : d.Lacks ["debug"] → c.debug = ({} : Settings).debug
  /-- Without their key the search settings are the default ones. -/
  locator : d.Lacks ["locator"] → c.locator = ({} : Settings).locator
  /-- The beginning of variables. -/
  envStem : d.Lacks ["locator", "env-prefix"] → c.locator.envStem = ({} : SearchSettings).envStem
  /-- The directories of the caller. -/
  extraDirs : d.Lacks ["locator", "extra-dirs"] →
    c.locator.extraDirs = ({} : SearchSettings).extraDirs
  /-- The directories that are safe to load from. -/
  trustedDirs : d.Lacks ["locator", "trusted-dirs"] →
    c.locator.trustedDirs = ({} : SearchSettings).trustedDirs
  /-- The trust in paths from the environment. -/
  envPolicy : d.Lacks ["locator", "env-policy"] →
    c.locator.envPolicy = ({} : SearchSettings).envPolicy

theorem default_of_searchOfNode? {s : SearchSettings} (h : searchOfNode? d n = some s) :
    ((∀ v, ¬d.Holds n "env-prefix" v) → s.envStem = ({} : SearchSettings).envStem) ∧
    ((∀ v, ¬d.Holds n "extra-dirs" v) → s.extraDirs = ({} : SearchSettings).extraDirs) ∧
    ((∀ v, ¬d.Holds n "trusted-dirs" v) → s.trustedDirs = ({} : SearchSettings).trustedDirs) ∧
    ((∀ v, ¬d.Holds n "env-policy" v) → s.envPolicy = ({} : SearchSettings).envPolicy) := by
  obtain ⟨vs, known, h⟩ := Option.bind_eq_some_iff.mp h
  have found := found_of_known? known
  simp only [searchKeys, List.forall₂_cons_left_iff, List.forall₂_nil_left_iff] at found
  obtain ⟨stem, _, hstem, ⟨extra, _, hextra, ⟨trusted, _, htrusted, ⟨policy, _, hpolicy, rfl, rfl⟩,
    rfl⟩, rfl⟩, rfl⟩ := found
  obtain ⟨_, dstem, h⟩ := Option.bind_eq_some_iff.mp h
  obtain ⟨_, dextra, h⟩ := Option.bind_eq_some_iff.mp h
  obtain ⟨_, dtrusted, h⟩ := Option.bind_eq_some_iff.mp h
  obtain ⟨_, dpolicy, h⟩ := Option.bind_eq_some_iff.mp h
  cases h
  exact ⟨eq_default_of_lacks hstem dstem, eq_default_of_lacks hextra dextra,
    eq_default_of_lacks htrusted dtrusted, eq_default_of_lacks hpolicy dpolicy⟩

theorem exists_scalar_of_backendOfNode? {k : BackendKind}
    (h : backendOfNode? d n = some (some k)) :
    ∃ style tag, d.view n = .scalar k.text style tag := by
  have named {s : String} (decoded : (BackendKind.ofString? s).map some = some (some k)) :
      s = k.text := by
    obtain ⟨k', made, same⟩ := Option.map_eq_some_iff.mp decoded
    rw [BackendKind.ofString?] at made
    split at made
    · cases made
      exact congrArg BackendKind.text (Option.some.inj same)
    · cases made
  rw [backendOfNode?] at h
  split at h
  · next s view =>
    split at h
    · cases h
    · exact ⟨_, _, named h ▸ view⟩
  · next s tag view =>
    split at h
    · split at h <;> cases h
    · exact ⟨_, _, named h ▸ view⟩
  · next s style tag _ _ view => exact ⟨_, _, named h ▸ view⟩
  · cases h

/-- The keys within search settings that are absent leave the default, also where there are no
search settings at all. -/
theorem default_of_found {search : SearchSettings} {v? : Option Yaml.Node}
    (found : Found d d.root "locator" v?)
    (decoded : orElse {} (searchOfNode? d) v? = some search) :
    (d.Lacks ["locator", "env-prefix"] → search.envStem = ({} : SearchSettings).envStem) ∧
    (d.Lacks ["locator", "extra-dirs"] → search.extraDirs = ({} : SearchSettings).extraDirs) ∧
    (d.Lacks ["locator", "trusted-dirs"] →
      search.trustedDirs = ({} : SearchSettings).trustedDirs) ∧
    (d.Lacks ["locator", "env-policy"] → search.envPolicy = ({} : SearchSettings).envPolicy) := by
  cases v? with
  | none =>
    cases decoded
    exact ⟨fun _ => rfl, fun _ => rfl, fun _ => rfl, fun _ => rfl⟩
  | some v =>
    obtain ⟨stem, extra, trusted, policy⟩ := default_of_searchOfNode? decoded
    exact ⟨fun lacks => stem (lacks.not_holds_within found),
      fun lacks => extra (lacks.not_holds_within found),
      fun lacks => trusted (lacks.not_holds_within found),
      fun lacks => policy (lacks.not_holds_within found)⟩

theorem named_of_found {k : BackendKind} {v? : Option Yaml.Node}
    (found : Found d d.root "backend" v?)
    (decoded : orElse none (backendOfNode? d) v? = some (some k)) :
    ∃ v style tag, d.Reaches d.root ["backend"] v ∧ d.view v = .scalar k.text style tag := by
  cases v? with
  | none => cases decoded
  | some v =>
    obtain ⟨style, tag, view⟩ := exists_scalar_of_backendOfNode? decoded
    exact ⟨v, style, tag, Yaml.Document.reaches_of_holds found, view⟩

/-- **Settings that are read follow their document.** -/
theorem readFrom_of_ofNode? {c : Settings} (h : ofNode? d d.root = some c) : ReadFrom c d := by
  obtain ⟨vs, known, h⟩ := Option.bind_eq_some_iff.mp h
  have found := found_of_known? known
  simp only [keys, List.forall₂_cons_left_iff, List.forall₂_nil_left_iff] at found
  obtain ⟨backend, _, hbackend, ⟨debug, _, hdebug, ⟨locator, _, hlocator, rfl, rfl⟩, rfl⟩, rfl⟩ :=
    found
  obtain ⟨_, dbackend, h⟩ := Option.bind_eq_some_iff.mp h
  obtain ⟨_, ddebug, h⟩ := Option.bind_eq_some_iff.mp h
  obtain ⟨_, dlocator, h⟩ := Option.bind_eq_some_iff.mp h
  cases h
  obtain ⟨stem, extra, trusted, policy⟩ := default_of_found hlocator dlocator
  exact {
    named := fun k some => ⟨k.safe, named_of_found hbackend (dbackend.trans (congrArg _ some))⟩
    backend := fun lacks => eq_default_of_lacks hbackend dbackend lacks.not_holds
    debug := fun lacks => eq_default_of_lacks hdebug ddebug lacks.not_holds
    locator := fun lacks => eq_default_of_lacks hlocator dlocator lacks.not_holds
    envStem := stem
    extraDirs := extra
    trustedDirs := trusted
    envPolicy := policy }

end Decoding

/-- **Settings outlive their document.** Settings whose paths are text are written, and read back
as they were; nothing but a path that is not text keeps them from being written; and settings that
are read follow their document. -/
theorem persistence (c : Settings) :
    ((∀ p ∈ c.locator.extraDirs ++ c.locator.trustedDirs, ∃ s, FilePath.ofString s = p) →
      ∃ text, c.write = .ok text ∧ parse text = .ok c) ∧
    ((∃ e, c.write = .error e) ↔
      ∃ p ∈ c.locator.extraDirs ++ c.locator.trustedDirs, ∀ s, FilePath.ofString s ≠ p) ∧
    ∀ text, parse text = .ok c → ∃ d, Yaml.read? text = some d ∧ ReadFrom c d := by
  refine ⟨fun texts => ?_, ?_, fun text parsed => ?_⟩
  · rw [List.forall_mem_append, ← exists_pathTexts?_iff, ← exists_pathTexts?_iff] at texts
    obtain ⟨⟨extra, hextra⟩, ⟨trusted, htrusted⟩⟩ := texts
    exact ⟨_, write_of_texts hextra htrusted, parse_write hextra htrusted⟩
  · have failed : (∃ e, c.write = .error e) ↔ ¬∃ text, c.write = .ok text := by
      cases c.write <;> simp
    rw [failed, exists_write_iff]
    push Not
    rfl
  · rw [parse] at parsed
    split at parsed
    · next decoded =>
      cases parsed
      obtain ⟨d, read, decoded⟩ := Option.bind_eq_some_iff.mp decoded
      exact ⟨d, read, readFrom_of_ofNode? decoded⟩
    · cases parsed

/-- Settings whose texts look like something else: nothing, a truth value, a number, an item, a
comment. -/
def lookalikes : Settings where
  backend := some ⟨"null", by decide⟩
  debug := true
  locator :=
    { envStem := "- no: 'yes' # or\n"
      extraDirs := ["", "~", "0x1F", " a\n\nb "].map FilePath.ofString
      trustedDirs := []
      envPolicy := .ignore }

theorem persistence_lookalikes :
    (∀ p ∈ lookalikes.locator.extraDirs ++ lookalikes.locator.trustedDirs,
      ∃ s, FilePath.ofString s = p) ∧
    ∃ text, lookalikes.write = .ok text ∧ parse text = .ok lookalikes ∧
      ∃ d, Yaml.read? text = some d ∧ ReadFrom lookalikes d := by
  have texts : ∀ p ∈ lookalikes.locator.extraDirs ++ lookalikes.locator.trustedDirs,
      ∃ s, FilePath.ofString s = p := by
    intro p hp
    rw [lookalikes, List.append_nil] at hp
    obtain ⟨s, -, same⟩ := List.mem_map.mp hp
    exact ⟨s, same⟩
  obtain ⟨text, written, parsed⟩ := (persistence lookalikes).1 texts
  exact ⟨texts, text, written, parsed, (persistence lookalikes).2.2 text parsed⟩

end Settings

end TreeBroker
