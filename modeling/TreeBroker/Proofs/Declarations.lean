import Mathlib
import TreeBroker.Backend.Conformance

/-!
# What a manifest declares, and what is said about it

Four tables are kept by hand: the aliases of each method, the methods that every backend
declares, those that one may declare, and the rules by which nine capabilities are read off a
manifest. A report on a manifest and its capabilities are made from them independently, so
nothing but the tables makes the two agree. Three facts do it: no method stands twice in the
tables, a method's text and its key tell it apart from all others although one name may be a
method of one construct and an alias in another, and the capabilities ask for every optional
method but two.

Declaring more is monotone in all of this, though a method may then be found under another
name: its canonical name comes before all aliases, and an alias before those behind it. What
counts for capabilities and reports is only that some name is declared (`Manifest.provides_iff`).
-/

namespace TreeBroker

/-! ## Names that are found -/

namespace Manifest

variable {m m' : Manifest} {c d : Construct} {method name : String}

/-- **The first alias that is declared.** -/
def FirstDeclared (m : Manifest) (c : Construct) (method name : String) : Prop :=
  ∃ before after, c.aliases method = before ++ name :: after ∧ name ∈ m.methods c ∧
    ∀ earlier ∈ before, earlier ∉ m.methods c

theorem resolve_of_mem (h : method ∈ m.methods c) : m.resolve c method = some method := by
  rw [resolve, if_pos (List.contains_iff_mem.mpr h)]

theorem resolve_of_notMem (h : method ∉ m.methods c) :
    m.resolve c method = (c.aliases method).find? fun name => (m.methods c).contains name := by
  rw [resolve, if_neg (fun there => h (List.contains_iff_mem.mp there))]

theorem resolve_eq_some_iff (h : method ∉ m.methods c) :
    m.resolve c method = some name ↔ m.FirstDeclared c method name := by
  rw [resolve_of_notMem h, List.find?_eq_some_iff_append, FirstDeclared]
  constructor
  · rintro ⟨declared, before, after, split, earlier⟩
    exact ⟨before, after, split, List.contains_iff_mem.mp declared, fun b hb there => by
      simpa [there] using earlier b hb⟩
  · rintro ⟨before, after, split, declared, earlier⟩
    exact ⟨List.contains_iff_mem.mpr declared, before, after, split, fun b hb => by
      simpa using earlier b hb⟩

theorem resolve_eq_none_iff (h : method ∉ m.methods c) :
    m.resolve c method = none ↔ ∀ name ∈ c.aliases method, name ∉ m.methods c := by
  rw [resolve_of_notMem h, List.find?_eq_none]
  exact forall₂_congr fun name _ => by rw [List.contains_iff_mem]

/-- **A method is provided** under its own name or any of its aliases. -/
theorem provides_iff :
    m.provides c method = true ↔ ∃ name ∈ method :: c.aliases method, name ∈ m.methods c := by
  rw [List.exists_mem_cons_iff]
  by_cases h : method ∈ m.methods c
  · simp [provides, resolve_of_mem h, h]
  · rw [provides, Option.isSome_iff_ne_none, Ne, resolve_eq_none_iff h]
    simp [h]

theorem provides_mono (more : ∀ d, m.methods d ⊆ m'.methods d)
    (h : m.provides c method = true) : m'.provides c method = true := by
  obtain ⟨name, known, declared⟩ := provides_iff.mp h
  exact provides_iff.mpr ⟨name, known, more c declared⟩

theorem methods_subset_declare (m : Manifest) (c d : Construct) (names : List String) :
    m.methods d ⊆ (m.declare c names).methods d := by
  rw [methods_declare]
  split
  · exact List.subset_append_left _ _
  · exact List.Subset.refl _

/-- A construct that nothing was declared for resolves as before. -/
theorem resolve_declare_of_ne (h : d ≠ c) (m : Manifest) (names : List String) (method : String) :
    (m.declare c names).resolve d method = m.resolve d method := by
  rw [resolve, methods_declare, if_neg h.symm, resolve]

end Manifest

/-! ## Texts and keys tell methods apart -/

theorem Construct.display_append_inj {c d : Construct} {s t : String}
    (h : c.display ++ s = d.display ++ t) : c = d ∧ s = t := by
  -- The four constructs begin with four letters.
  have letters := congrArg String.toList h
  cases c <;> cases d <;> simp [Construct.display] at letters <;>
    exact ⟨rfl, String.toList_injective letters⟩

theorem MissingMethod.message_injective : Function.Injective MissingMethod.message := by
  rintro ⟨c, method, needed⟩ ⟨d, method', needed'⟩ h
  simp only [MissingMethod.message, String.append_assoc] at h
  obtain ⟨rfl, behind⟩ := Construct.display_append_inj h
  have words := congrArg String.toList behind
  cases needed <;> cases needed' <;> simp at words <;> rw [String.toList_injective words]

/-- The key of a method in a table of aliases. -/
def Construct.keyOf (r : Construct × String) : String := r.1.display ++ "." ++ r.2

theorem Construct.keyOf_injective : Function.Injective Construct.keyOf := by
  rintro ⟨c, method⟩ ⟨d, method'⟩ h
  simp only [Construct.keyOf, String.append_assoc] at h
  obtain ⟨rfl, behind⟩ := Construct.display_append_inj h
  rw [String.append_right_inj] at behind
  rw [behind]

/-! ## Sorted tables as maps -/

namespace Sorted

variable {β : Type}

theorem lookup_entry (key k : String) (value : β) (rest : List (String × β)) :
    ((key, value) :: rest).lookup k = if k = key then some value else rest.lookup k := by
  rw [List.lookup_cons]
  by_cases h : k = key
  · rw [if_pos h, beq_iff_eq.mpr h]
  · rw [if_neg h, beq_false_of_ne h]

theorem lookup_insertEntry (key k : String) (value : β) (entries : List (String × β)) :
    (insertEntry key value entries).lookup k =
      if k = key then some value else entries.lookup k := by
  induction entries with
  | nil => exact lookup_entry key k value []
  | cons e rest ih =>
    obtain ⟨l, v⟩ := e
    unfold insertEntry
    split
    · rw [lookup_entry]
    · split
      · next same =>
        subst same
        rw [lookup_entry, lookup_entry]
        by_cases h : k = key <;> simp [h]
      · next ne =>
        rw [lookup_entry, ih, lookup_entry]
        by_cases h : k = l
        · rw [if_pos h, if_pos h, if_neg (fun same => ne (same.symm.trans h))]
        · rw [if_neg h, if_neg h]

/-- **A table of entries with different keys** holds each of them and nothing else. -/
theorem lookup_table_eq_some_iff {entries : List (String × β)} {k : String} {v : β}
    (h : (entries.map Prod.fst).Nodup) :
    (table entries).lookup k = some v ↔ (k, v) ∈ entries := by
  induction entries using List.reverseRecOn with
  | nil => simp [table]
  | append_singleton entries e ih =>
    obtain ⟨l, w⟩ := e
    rw [List.map_append, List.nodup_append_comm] at h
    obtain ⟨fresh, nodup⟩ := List.nodup_cons.mp h
    have last : table (entries ++ [(l, w)]) = insertEntry l w (table entries) := by
      rw [table, List.foldl_append]
      rfl
    rw [last, lookup_insertEntry, List.mem_append, List.mem_singleton, Prod.mk.injEq]
    by_cases same : k = l
    · subst same
      have absent : (k, v) ∉ entries := fun there =>
        fresh (List.mem_map.mpr ⟨(k, v), there, rfl⟩)
      simp [absent, eq_comm]
    · rw [if_neg same, ih nodup]
      simp [same]

end Sorted

/-! ## Reports -/

namespace Conformance

variable {m m' : Manifest} {c : Construct} {method : String}

/-- The methods that a backend has to declare, or those that it may. -/
def table (needed : Bool) : List (Construct × String) := if needed then required else optional

theorem nodup_tables : (required ++ optional).Nodup := by decide

theorem nodup_table (needed : Bool) : (table needed).Nodup := by
  cases needed
  · exact nodup_tables.of_append_right
  · exact nodup_tables.of_append_left

theorem mem_tables {r : Construct × String} {needed : Bool} (h : r ∈ table needed) :
    r ∈ required ++ optional := by
  cases needed
  · exact List.mem_append_right _ h
  · exact List.mem_append_left _ h

/-- The methods that are missing are those of the table that are not provided, in its
order. -/
theorem missing_eq (m : Manifest) (needed : Bool) (methods : List (Construct × String)) :
    missing m needed methods =
      (methods.filter fun r => !m.provides r.1 r.2).map fun r => ⟨r.1, r.2, needed⟩ := by
  induction methods with
  | nil => rfl
  | cons r rest ih =>
    rw [missing, List.filterMap_cons, List.filter_cons]
    rw [missing] at ih
    cases h : m.provides r.1 r.2 <;> simp [h, ih]

theorem count_missing {needed : Bool} {methods : List (Construct × String)}
    (nodup : methods.Nodup) (h : (c, method) ∈ methods) :
    (missing m needed methods).count ⟨c, method, needed⟩ =
      if m.provides c method then 0 else 1 := by
  have inj : Function.Injective fun r : Construct × String =>
      (⟨r.1, r.2, needed⟩ : MissingMethod) := by
    rintro ⟨c, method⟩ ⟨d, method'⟩ h
    simpa using h
  rw [missing_eq, List.count_map_of_injective _ _ inj (c, method)]
  cases provided : m.provides c method
  · rw [List.count_filter (by rw [provided]; rfl), List.count_eq_one_of_mem nodup h]
    rfl
  · exact List.count_eq_zero.mpr fun there => by simp [provided] at there

theorem required_of_mem_missing {needed : Bool} {methods : List (Construct × String)}
    {x : MissingMethod} (h : x ∈ missing m needed methods) : x.required = needed := by
  rw [missing_eq] at h
  obtain ⟨r, -, rfl⟩ := List.mem_map.mp h
  rfl

theorem mem_aliased {methods : List (Construct × String)} {a : AliasUse} :
    a ∈ aliased m methods ↔ (a.construct, a.method) ∈ methods ∧
      m.resolve a.construct a.method = some a.declared ∧ a.declared ≠ a.method := by
  rw [aliased, List.mem_filterMap]
  constructor
  · rintro ⟨⟨c, method⟩, known, found⟩
    dsimp only at found
    split at found
    · next declared resolved =>
      by_cases same : declared = method
      · rw [if_pos same] at found
        cases found
      · rw [if_neg same] at found
        cases found
        exact ⟨known, resolved, same⟩
    · cases found
  · rintro ⟨known, resolved, ne⟩
    refine ⟨(a.construct, a.method), known, ?_⟩
    simp [resolved, ne]

theorem sublist_aliased (m : Manifest) (methods : List (Construct × String)) :
    ((aliased m methods).map fun a => (a.construct, a.method)).Sublist methods := by
  induction methods with
  | nil => exact .slnil
  | cons r rest ih =>
    rw [aliased, List.filterMap_cons]
    rw [aliased] at ih
    split
    · exact ih.cons r
    · next a found =>
      have same : (a.construct, a.method) = r := by
        obtain ⟨c, method⟩ := r
        dsimp only at found
        split at found
        · split at found
          · cases found
          · injection found with found
            rw [← found]
        · cases found
      rw [List.map_cons, same]
      exact ih.cons_cons r

theorem nodup_keys_aliased {methods : List (Construct × String)} (nodup : methods.Nodup) :
    (((aliased m methods).map fun a => (a.key, a.declared)).map Prod.fst).Nodup := by
  have keys := (nodup.sublist (sublist_aliased m methods)).map Construct.keyOf_injective
  rw [List.map_map] at keys
  rw [List.map_map]
  exact keys

end Conformance

namespace Findings

/-- The texts about missing methods: errors about those that are required, or warnings. -/
def texts (f : Findings) (needed : Bool) : List String :=
  (if needed then f.errors else f.warnings).map MissingMethod.message

/-- The name that a method is declared under, by the table of aliases. -/
def alias? (f : Findings) (c : Construct) (method : String) : Option String :=
  f.aliasTable.lookup (Construct.keyOf (c, method))

end Findings

namespace Conformance

variable {m m' : Manifest} {c : Construct} {method : String}

/-- How a method stands in a manifest. -/
inductive Standing where
  /-- Under its own name. -/
  | declared
  /-- Under an alias. -/
  | aliased (name : String)
  /-- Not at all. -/
  | missing

/-- **What the findings say of a method**, by how it stands in the manifest. -/
inductive Stands (m : Manifest) (f : Findings) (needed : Bool) (c : Construct) (method : String) :
    Standing → Prop
  /-- A method that is declared is not mentioned. -/
  | declared (own : method ∈ m.methods c) (plain : f.alias? c method = none)
      (silent : ∀ list, MissingMethod.message ⟨c, method, needed⟩ ∉ f.texts list) :
      Stands m f needed c method .declared
  /-- A method that has only aliases is listed under the first of them that is declared. -/
  | aliased {name : String} (other : method ∉ m.methods c)
      (first : m.FirstDeclared c method name) (listed : f.alias? c method = some name)
      (silent : ∀ list, MissingMethod.message ⟨c, method, needed⟩ ∉ f.texts list) :
      Stands m f needed c method (.aliased name)
  /-- A method without any name is reported once, among those of its kind. -/
  | missing (unknown : ∀ name ∈ method :: c.aliases method, name ∉ m.methods c)
      (plain : f.alias? c method = none)
      (once : (f.texts needed).count (MissingMethod.message ⟨c, method, needed⟩) = 1)
      (apart : MissingMethod.message ⟨c, method, needed⟩ ∉ f.texts (!needed)) :
      Stands m f needed c method .missing

/-- **A method stands in one way only.** -/
theorem Stands.unique {f : Findings} {needed : Bool} {s t : Standing}
    (hs : Stands m f needed c method s) (ht : Stands m f needed c method t) : s = t := by
  cases hs with
  | declared own plain =>
    cases ht with
    | declared => rfl
    | aliased other => exact absurd own other
    | missing unknown => exact absurd own (unknown _ List.mem_cons_self)
  | aliased other _ listed =>
    cases ht with
    | declared own => exact absurd own other
    | aliased _ _ listed' =>
      rw [listed] at listed'
      cases listed'
      rfl
    | missing _ plain =>
      rw [listed] at plain
      cases plain
  | missing unknown plain =>
    cases ht with
    | declared own => exact absurd own (unknown _ List.mem_cons_self)
    | aliased _ _ listed =>
      rw [plain] at listed
      cases listed
    | missing => rfl

theorem texts_check (m : Manifest) (needed : Bool) :
    (check m false).texts needed = (missing m needed (table needed)).map MissingMethod.message := by
  cases needed <;> rfl

theorem count_texts_check {needed : Bool} (h : (c, method) ∈ table needed) :
    ((check m false).texts needed).count (MissingMethod.message ⟨c, method, needed⟩) =
      if m.provides c method then 0 else 1 := by
  rw [texts_check, List.count_map_of_injective _ _ MissingMethod.message_injective,
    count_missing (nodup_table needed) h]

theorem notMem_texts_of_provides {needed : Bool} (h : (c, method) ∈ table needed)
    (provided : m.provides c method = true) :
    MissingMethod.message ⟨c, method, needed⟩ ∉ (check m false).texts needed := by
  rw [← List.count_eq_zero, count_texts_check h, if_pos provided]

theorem notMem_texts_other (m : Manifest) (needed : Bool) (c : Construct) (method : String) :
    MissingMethod.message ⟨c, method, needed⟩ ∉ (check m false).texts (!needed) := by
  rw [texts_check, List.mem_map_of_injective MissingMethod.message_injective]
  intro there
  have same := required_of_mem_missing there
  cases needed <;> cases same

theorem silent_of_provides {needed : Bool} (h : (c, method) ∈ table needed)
    (provided : m.provides c method = true) (list : Bool) :
    MissingMethod.message ⟨c, method, needed⟩ ∉ (check m false).texts list := by
  by_cases own : list = needed
  · rw [own]
    exact notMem_texts_of_provides h provided
  · rw [Bool.eq_not_of_ne own]
    exact notMem_texts_other m needed c method

theorem lookup_aliasTable_check {key name : String} {strict : Bool} :
    (check m strict).aliasTable.lookup key = some name ↔
      ∃ r ∈ required ++ optional, key = Construct.keyOf r ∧ m.resolve r.1 r.2 = some name ∧
        name ≠ r.2 := by
  have keys : (((check m strict).aliases.map fun a => (a.key, a.declared)).map Prod.fst).Nodup :=
    nodup_keys_aliased nodup_tables
  rw [Findings.aliasTable, Sorted.lookup_table_eq_some_iff keys, List.mem_map]
  constructor
  · rintro ⟨a, used, same⟩
    obtain ⟨known, resolved, ne⟩ := mem_aliased.mp used
    cases same
    exact ⟨_, known, rfl, resolved, ne⟩
  · rintro ⟨⟨c, method⟩, known, rfl, resolved, ne⟩
    exact ⟨⟨c, method, name⟩, mem_aliased.mpr ⟨known, resolved, ne⟩, rfl⟩

theorem alias?_check_eq_some_iff {name : String} (h : (c, method) ∈ required ++ optional) :
    (check m false).alias? c method = some name ↔
      m.resolve c method = some name ∧ name ≠ method := by
  rw [Findings.alias?, lookup_aliasTable_check]
  constructor
  · rintro ⟨r, -, same, found⟩
    cases Construct.keyOf_injective same
    exact found
  · intro found
    exact ⟨(c, method), h, rfl, found⟩

theorem alias?_check_eq_none (h : (c, method) ∈ required ++ optional)
    (plain : ∀ name, m.resolve c method = some name → name = method) :
    (check m false).alias? c method = none := by
  rw [Option.eq_none_iff_forall_ne_some]
  intro name found
  obtain ⟨resolved, ne⟩ := (alias?_check_eq_some_iff h).mp found
  exact ne (plain name resolved)

/-- **Every method of the tables stands in some way.** -/
theorem exists_stands {needed : Bool} (h : (c, method) ∈ table needed) :
    ∃ s, Stands m (check m false) needed c method s := by
  have known := mem_tables h
  by_cases own : method ∈ m.methods c
  · have provided := Manifest.provides_iff.mpr ⟨method, List.mem_cons_self, own⟩
    refine ⟨_, .declared own (alias?_check_eq_none known fun name resolved => ?_)
      (silent_of_provides h provided)⟩
    rw [Manifest.resolve_of_mem own] at resolved
    exact (Option.some.inj resolved).symm
  · cases resolved : m.resolve c method with
    | some name =>
      have first := (Manifest.resolve_eq_some_iff own).mp resolved
      have ne : name ≠ method := by
        rintro rfl
        obtain ⟨-, -, -, declared, -⟩ := first
        exact own declared
      have provided : m.provides c method = true := by rw [Manifest.provides, resolved]; rfl
      exact ⟨_, .aliased own first ((alias?_check_eq_some_iff known).mpr ⟨resolved, ne⟩)
        (silent_of_provides h provided)⟩
    | none =>
      have unprovided : ¬ m.provides c method = true := by simp [Manifest.provides, resolved]
      refine ⟨_, .missing (List.forall_mem_cons.mpr
        ⟨own, (Manifest.resolve_eq_none_iff own).mp resolved⟩)
        (alias?_check_eq_none known fun name found => ?_) ?_ (notMem_texts_other m needed c method)⟩
      · rw [resolved] at found
        cases found
      · rw [count_texts_check h, if_neg unprovided]

/-! ## Capabilities -/

/-- The optional methods that no capability asks for. -/
def unasked : List (Construct × String) := [(.language, "name"), (.node, "has_error")]

/-- **All capabilities** are all optional methods but those two. -/
theorem ofManifest_eq_all_iff :
    Capabilities.ofManifest m = .all ↔
      ∀ r ∈ optional, r ∉ unasked → m.provides r.1 r.2 = true := by
  -- Both sides come out as one conjunction, in the order of the capabilities and of the table.
  simp only [Capabilities.ofManifest, Capabilities.all, Capabilities.mk.injEq, Bool.and_eq_true,
    optional, unasked, List.mem_cons, List.not_mem_nil, or_false, not_or, and_imp,
    forall_eq_or_imp, forall_eq, Prod.mk.injEq, reduceCtorEq, String.reduceEq, and_self,
    and_false, not_true_eq_false, not_false_eq_true, forall_const, IsEmpty.forall_iff, true_and]
  tauto

theorem mem_missing_iff {needed : Bool} {methods : List (Construct × String)}
    {x : MissingMethod} :
    x ∈ missing m needed methods ↔
      ∃ r ∈ methods, m.provides r.1 r.2 = false ∧ x = ⟨r.1, r.2, needed⟩ := by
  rw [missing_eq, List.mem_map]
  constructor
  · rintro ⟨r, there, rfl⟩
    obtain ⟨known, unprovided⟩ := List.mem_filter.mp there
    exact ⟨r, known, by simpa using unprovided, rfl⟩
  · rintro ⟨r, known, unprovided, rfl⟩
    exact ⟨r, List.mem_filter.mpr ⟨known, by simp [unprovided]⟩, rfl⟩

theorem forall_warnings_iff {p : String → Prop} :
    (∀ text ∈ (check m false).texts false, p text) ↔
      ∀ r ∈ optional, m.provides r.1 r.2 = false →
        p (MissingMethod.message ⟨r.1, r.2, false⟩) := by
  rw [texts_check, List.forall_mem_map]
  constructor
  · intro h r known unprovided
    exact h _ (mem_missing_iff.mpr ⟨r, known, unprovided, rfl⟩)
  · intro h x there
    obtain ⟨r, known, unprovided, rfl⟩ := mem_missing_iff.mp there
    exact h r known unprovided

theorem message_eq_iff_mem_unasked {r : Construct × String} :
    (MissingMethod.message ⟨r.1, r.2, false⟩ = "language is missing optional method `name`" ∨
      MissingMethod.message ⟨r.1, r.2, false⟩ = "node is missing optional method `has_error`") ↔
      r ∈ unasked := by
  have first : "language is missing optional method `name`" =
    MissingMethod.message ⟨.language, "name", false⟩ := by decide
  have second : "node is missing optional method `has_error`" =
    MissingMethod.message ⟨.node, "has_error", false⟩ := by decide
  rw [first, second, MissingMethod.message_injective.eq_iff, MissingMethod.message_injective.eq_iff]
  simp [unasked, Prod.ext_iff]

/-- **Reports and capabilities agree.** A strict check moves the warnings behind the errors and
changes nothing else. Of every method in the tables the findings say one thing: that it is
declared, by silence; the first alias that is declared for it; or, once and in the list of
its kind, that it is missing. The table of aliases has no other keys. And a backend has all
capabilities if it is warned about nothing but the names of languages and the errors of nodes. -/
theorem check_consistent (m : Manifest) :
    let f := check m false
    check m true = ⟨f.errors ++ f.warnings, [], f.aliases⟩ ∧
    (∀ needed, ∀ r ∈ table needed, ∃! s, Stands m f needed r.1 r.2 s) ∧
    (∀ key name, f.aliasTable.lookup key = some name →
      ∃ r ∈ required ++ optional, key = Construct.keyOf r) ∧
    (Capabilities.ofManifest m = .all ↔
      ∀ text ∈ f.texts false, text = "language is missing optional method `name`" ∨
        text = "node is missing optional method `has_error`") := by
  intro f
  refine ⟨rfl, fun needed r known => ?_, fun key name found => ?_, ?_⟩
  · obtain ⟨s, stands⟩ := exists_stands (m := m) known
    exact ⟨s, stands, fun t ht => ht.unique stands⟩
  · obtain ⟨r, known, same, -⟩ := lookup_aliasTable_check.mp found
    exact ⟨r, known, same⟩
  · rw [ofManifest_eq_all_iff, forall_warnings_iff]
    refine forall₂_congr fun r _ => ?_
    rw [message_eq_iff_mem_unasked, ← Bool.not_eq_true]
    exact not_imp_comm

/-- A manifest in which `new` is a method of one construct and an alias in another. -/
def overlapping : Manifest where
  language := ["new", "load"]
  parser := ["new", "parse_with_old_tree"]

theorem check_consistent_overlapping :
    let f := check overlapping false
    (.language, "load_language") ∈ table true ∧
      (∃! s, Stands overlapping f true .language "load_language" s) ∧
      (.parser, "new") ∈ table true ∧ (∃! s, Stands overlapping f true .parser "new" s) ∧
      f.aliasTable.lookup "parser.reparse" = some "parse_with_old_tree" ∧
      (∃ r ∈ required ++ optional, "parser.reparse" = Construct.keyOf r) := by
  intro f
  obtain ⟨-, stands, keys, -⟩ := check_consistent overlapping
  have load : (.language, "load_language") ∈ table true := by decide
  have new : (.parser, "new") ∈ table true := by decide
  have found : f.aliasTable.lookup "parser.reparse" = some "parse_with_old_tree" := by
    decide +kernel
  exact ⟨load, stands true _ load, new, stands true _ new, found, keys _ _ found⟩

end Conformance

/-! ## Declaring more -/

namespace Manifest

variable {m m' : Manifest}

theorem missing_sublist (more : ∀ d, m.methods d ⊆ m'.methods d) (needed : Bool)
    (methods : List (Construct × String)) :
    (Conformance.missing m' needed methods).Sublist (Conformance.missing m needed methods) := by
  rw [Conformance.missing_eq, Conformance.missing_eq]
  refine (List.monotone_filter_right methods fun r unprovided => ?_).map _
  rw [Bool.not_eq_true', ← Bool.not_eq_true] at *
  exact fun provided => unprovided (provides_mono more provided)

theorem errors_sublist (more : ∀ d, m.methods d ⊆ m'.methods d) (strict : Bool) :
    (Conformance.check m' strict).errors.Sublist (Conformance.check m strict).errors := by
  have needed := missing_sublist more true Conformance.required
  cases strict
  · exact needed
  · exact needed.append (missing_sublist more false Conformance.optional)

theorem warnings_sublist (more : ∀ d, m.methods d ⊆ m'.methods d) (strict : Bool) :
    (Conformance.check m' strict).warnings.Sublist (Conformance.check m strict).warnings := by
  cases strict
  · exact missing_sublist more false Conformance.optional
  · exact .slnil

/-- Capabilities grow with a manifest, one by one. -/
theorem flags_mono (more : ∀ d, m.methods d ⊆ m'.methods d) :
    List.Forall₂ (fun before after => before = true → after = true)
      (Capabilities.ofManifest m).flags (Capabilities.ofManifest m').flags := by
  have one (c : Construct) (method : String) :
      m.provides c method = true → m'.provides c method = true := provides_mono more
  have both (c : Construct) (first second : String)
      (h : (m.provides c first && m.provides c second) = true) :
      (m'.provides c first && m'.provides c second) = true := by
    rw [Bool.and_eq_true] at *
    exact ⟨one c first h.1, one c second h.2⟩
  exact .cons (one _ _) (.cons (one _ _) (.cons (one _ _) (.cons (both _ _ _) (.cons (one _ _)
    (.cons (one _ _) (.cons (both _ _ _) (.cons (one _ _) (.cons (one _ _) .nil))))))))

/-- **Declaring more takes nothing away.** Every capability stays, every report loses complaints
at most and so stays valid, whatever was provided is provided, and the constructs that
nothing was declared for resolve as before. -/
theorem declare_only_adds (m : Manifest) (c : Construct) (names : List String) :
    let m' := m.declare c names
    List.Forall₂ (fun before after => before = true → after = true)
      (Capabilities.ofManifest m).flags (Capabilities.ofManifest m').flags ∧
    (∀ strict, (Conformance.check m' strict).errors.Sublist (Conformance.check m strict).errors ∧
      (Conformance.check m' strict).warnings.Sublist (Conformance.check m strict).warnings) ∧
    (∀ backend category strict, (ConformanceReport.of backend category m strict).valid = true →
      (ConformanceReport.of backend category m' strict).valid = true) ∧
    (∀ d method, m.provides d method = true → m'.provides d method = true) ∧
    ∀ d, d ≠ c → ∀ method, m'.resolve d method = m.resolve d method := by
  intro m'
  have more (d : Construct) := methods_subset_declare m c d names
  refine ⟨flags_mono more, fun strict => ⟨errors_sublist more strict, warnings_sublist more strict⟩,
    fun backend category strict valid => ?_, fun d method => provides_mono more,
    fun d ne => resolve_declare_of_ne ne m names⟩
  have clean : (Conformance.check m strict).errors = [] := List.isEmpty_iff.mp valid
  have fewer := errors_sublist more strict
  rw [clean] at fewer
  exact List.isEmpty_iff.mpr (List.sublist_nil.mp fewer)

-- A kind is found under another name than before, and nothing else comes of it.
theorem declare_only_adds_minimal :
    let m' := minimal.declare .node ["node_type", "kind"]
    minimal.resolve .node "kind" = some "type" ∧ m'.resolve .node "kind" = some "kind" ∧
      (minimal.provides .node "kind" = true ∧ m'.provides .node "kind" = true) ∧
      ((ConformanceReport.of .grammar .inProcess minimal false).valid = true ∧
        (ConformanceReport.of .grammar .inProcess m' false).valid = true) ∧
      (Construct.tree ≠ .node ∧
        m'.resolve .tree "root_node" = minimal.resolve .tree "root_node") := by
  intro m'
  obtain ⟨-, -, valid, provides, apart⟩ :=
    declare_only_adds minimal .node ["node_type", "kind"]
  have found : minimal.resolve .node "kind" = some "type" := by decide
  have given : minimal.provides .node "kind" = true := by decide
  have fine : (ConformanceReport.of .grammar .inProcess minimal false).valid = true := by decide
  have other : Construct.tree ≠ .node := by decide
  exact ⟨found, by decide, ⟨given, provides _ _ given⟩, ⟨fine, valid _ _ _ fine⟩, other,
    apart _ other _⟩

end Manifest

end TreeBroker
