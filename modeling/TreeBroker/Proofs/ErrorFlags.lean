import TreeBroker.Proofs.GrammarNodes

/-!
# The errors of a tree

A grammar says of a node that the source lacks it, or that it stands for source that was
not understood, and it says so in the call that creates the node. A node of the finished
tree answers for more: there is an error in it if one was created *at or below* it. What
joins the two is a single pass over the entries, from the last to the first, and it moves
an error by one level only – an entry that is marked marks its parent.

One level is enough because of the numbering. Parents come before their children, so when
the pass comes to an entry all its children are behind it, and what they have to tell has
been told. The invariant of the pass says just that (`Arena.Swept`): an entry is marked
if it was marked in the beginning, or if one of its children is behind the pass and has
an error at or below it. When nothing is left, all children are behind the pass.
-/

namespace TreeBroker

/-! ## Who created a node -/

namespace Script

/-- **The call that created a node**, which is known by its index. -/
def creator? (script : List Call) (i : Nat) : Option Call := (script.filter Call.creates)[i]?

/-- A node that was created as one that the source lacks. -/
def Lacks (script : List Call) (i : Nat) : Prop :=
  ∃ kind offset, creator? script i = some (.missing kind offset)

/-- A node that was created for source that was not understood. -/
def Misreads (script : List Call) (i : Nat) : Prop :=
  ∃ start stop, creator? script i = some (.error start stop)

theorem bind_creator? (script : List Call) (i : Nat) :
    (creator? script i).bind Call.entry? = (script.filterMap Call.entry?)[i]? := by
  unfold creator?
  induction script generalizing i with
  | nil => rfl
  | cons c script ih =>
    cases he : c.entry? with
    | none =>
      rw [List.filter_cons_of_neg (by simp [Call.creates, he]), List.filterMap_cons_none he]
      exact ih i
    | some e =>
      rw [List.filter_cons_of_pos (by simp [Call.creates, he]), List.filterMap_cons_some he]
      cases i with
      | zero => exact he
      | succ i => exact ih i

theorem lacks_iff {script : List Call} {i : Nat} :
    Lacks script i ↔ ((script.filterMap Call.entry?).map (·.missing))[i]? = some true := by
  have own (c : Call) : c.entry?.map (·.missing) = some true ↔
      ∃ kind offset, c = .missing kind offset := by
    cases c <;> simp [Call.entry?]
  rw [List.getElem?_map, ← bind_creator?]
  unfold Lacks
  cases creator? script i with
  | none => simp
  | some c => simp [own]

theorem lacks_or_misreads_iff {script : List Call} {i : Nat} :
    Lacks script i ∨ Misreads script i ↔
      ((script.filterMap Call.entry?).map (·.error))[i]? = some true := by
  have own (c : Call) : c.entry?.map (·.error) = some true ↔
      (∃ kind offset, c = .missing kind offset) ∨ ∃ start stop, c = .error start stop := by
    cases c <;> simp [Call.entry?]
  rw [List.getElem?_map, ← bind_creator?]
  unfold Lacks Misreads
  cases creator? script i with
  | none => simp
  | some c => simp [own]

end Script

/-! ## The pass over the entries -/

namespace Arena

variable {a : Arena} {i j k : Nat}

/-- An entry that is marked as an error. -/
def Marked (a : Arena) (i : Nat) : Prop := (a.entries.map (·.error))[i]? = some true

/-- **An error at or below a node.** -/
def Faulty (a : Arena) (i : Nat) : Prop := ∃ j, a.Below i j ∧ a.Marked j

theorem faulty_iff : a.Faulty i ↔ a.Marked i ∨ ∃ c, a.parent? c = some i ∧ a.Faulty c := by
  constructor
  · rintro ⟨j, below, marked⟩
    obtain rfl | ⟨c, hc, below⟩ := below.cases_head
    · exact .inl marked
    · exact .inr ⟨c, hc, j, below, marked⟩
  · rintro (marked | ⟨c, hc, j, below, marked⟩)
    · exact ⟨i, .refl, marked⟩
    · exact ⟨j, .head hc below, marked⟩

/-- **One step of the pass** marks the parent of an entry that is marked. -/
theorem marked_raise (before : ∀ p, a.parent? k = some p → p < a.size) :
    Marked ⟨Builder.raise a.entries k⟩ i ↔
      a.Marked i ∨ a.parent? k = some i ∧ a.Marked k := by
  unfold Marked parent? get? at *
  rw [List.getElem?_map, List.getElem?_map, List.getElem?_map]
  unfold Builder.raise
  cases he : a.entries[k]? with
  | none => simp
  | some e =>
    rcases e with ⟨kind, start, stop, named, missing, error, field, parent, children⟩
    cases parent with
    | none => cases error <;> simp
    | some p =>
      cases error with
      | false => simp
      | true =>
        have hp : p < a.entries.length := before p (by simp [he])
        simp only [List.getElem?_modify, Option.map_some, Option.bind_some]
        by_cases hi : p = i
        · subst hi
          simp [List.getElem?_eq_getElem hp]
        · simp [hi]

/-- **The pass has come down to an index**: an entry is marked if it was before, or if a
child of it behind the pass has an error at or below it. -/
structure Swept (a : Arena) (k : Nat) (entries : List Entry) : Prop where
  /-- Links are left alone. -/
  links : entries.map Entry.links = a.entries.map Entry.links
  /-- What is marked. -/
  marked : ∀ i, Marked ⟨entries⟩ i ↔
    a.Marked i ∨ ∃ c, k ≤ c ∧ a.parent? c = some i ∧ a.Faulty c

theorem Swept.start (a : Arena) : a.Swept a.size a.entries where
  links := rfl
  marked i := by
    refine ⟨.inl, fun h => h.elim id ?_⟩
    rintro ⟨c, hc, hp, -⟩
    exact absurd (lt_size_of_parent? hp) (Nat.not_lt.mpr hc)

variable {entries : List Entry}

/-- The entry that the pass comes to is marked exactly if there is an error at or below
it: all its children are behind the pass. -/
theorem Swept.marked_iff (linked : a.Linked) (h : a.Swept (k + 1) entries) :
    Marked ⟨entries⟩ k ↔ a.Faulty k := by
  rw [h.marked, faulty_iff]
  refine or_congr_right (exists_congr fun c => and_iff_right_of_imp ?_)
  rintro ⟨hp, -⟩
  exact linked.parent_lt hp

theorem Swept.step (linked : a.Linked) (h : a.Swept (k + 1) entries) :
    a.Swept k (Builder.raise entries k) where
  links := (Builder.map_raise (fun _ => rfl) entries k).trans h.links
  marked i := by
    have parents : (⟨entries⟩ : Arena).parent? = a.parent? := parent?_congr h.links
    have before : ∀ p, (⟨entries⟩ : Arena).parent? k = some p → p < (⟨entries⟩ : Arena).size := by
      intro p hp
      rw [parents] at hp
      rw [size_congr h.links]
      exact Nat.lt_trans (linked.parent_lt hp) (lt_size_of_parent? hp)
    rw [marked_raise before, h.marked_iff linked, h.marked, parents, or_assoc]
    refine or_congr_right ⟨?_, ?_⟩
    · rintro (⟨c, hc, hp⟩ | hp)
      · exact ⟨c, Nat.le_of_succ_le hc, hp⟩
      · exact ⟨k, Nat.le_refl k, hp⟩
    · rintro ⟨c, hc, hp⟩
      obtain rfl | hc := Nat.eq_or_lt_of_le hc
      · exact .inr hp
      · exact .inl ⟨c, hc, hp⟩

theorem Swept.run (linked : a.Linked) (h : a.Swept k entries) :
    a.Swept 0 ((List.range k).reverse.foldl Builder.raise entries) := by
  induction k generalizing entries with
  | zero => exact h
  | succ k ih =>
    rw [List.range_succ, List.reverse_concat, List.foldl_cons]
    exact ih (h.step linked)

/-- **The pass is exact**: it marks the entries that have an error at or below them. -/
theorem marked_raiseAll (linked : a.Linked) :
    Marked ⟨Builder.raiseAll a.entries⟩ i ↔ a.Faulty i := by
  refine (((Swept.start a).run linked).marked i).trans ?_
  rw [faulty_iff]
  simp

/-- **The marks of a finished arena** are at and above the nodes that were created as
errors. -/
theorem marked_build {grammar : String} {script : List Call}
    (built : build grammar script = .ok a) :
    a.Marked i ↔ ∃ j, a.Below i j ∧ (Script.Lacks script j ∨ Script.Misreads script j) := by
  obtain ⟨problem, -, rfl⟩ := Builder.finish_eq_ok.mp built
  have linked : (Builder.run script).arena.Linked := (Builder.linked_run problem).arena
  have below : Below ⟨Builder.raiseAll (Builder.run script).entries⟩ =
      (Builder.run script).arena.Below :=
    below_congr (Builder.map_raiseAll (fun _ => rfl) (Builder.run script).entries)
  have own : (Builder.run script).entries.map (·.error) =
      (script.filterMap Call.entry?).map (·.error) :=
    Builder.map_run (fun _ _ => rfl) (fun _ _ => rfl) (fun _ _ => rfl) script
  rw [below]
  refine (marked_raiseAll linked).trans (exists_congr fun j => and_congr_right fun _ => ?_)
  rw [Script.lacks_or_misreads_iff, ← own]
  rfl

theorem missing_build {grammar : String} {script : List Call}
    (built : build grammar script = .ok a) :
    (a.entries.map (·.missing))[i]? = some true ↔ Script.Lacks script i := by
  have own : a.entries.map (·.missing) = (script.filterMap Call.entry?).map (·.missing) := by
    simpa [Function.comp_def, Entry.bare] using
      congrArg (List.map (·.missing)) (map_bare_build built)
  rw [Script.lacks_iff, own]

end Arena

/-! ## What nodes answer -/

namespace Node

variable {n : Node} {identity : Nat} {a : Arena}

theorem hasError_iff_marked (native : n.native = .grammar identity a) :
    n.hasError = true ↔ a.Marked n.index := by
  unfold hasError Arena.Marked
  rw [native, List.getElem?_map]
  show ((a.entries[n.index]?).getD default).error = true ↔ _
  cases a.entries[n.index]? with
  | none => exact ⟨nofun, nofun⟩
  | some e => simp

theorem missing?_iff (native : n.native = .grammar identity a) :
    n.native.missing? n.index = some true ↔ (a.entries.map (·.missing))[n.index]? = some true := by
  rw [native, List.getElem?_map]
  show some ((a.entries[n.index]?).getD default).missing = some true ↔ _
  cases a.entries[n.index]? with
  | none => exact ⟨nofun, nofun⟩
  | some e => simp

/-- The flag is seen only through a table that knows of it. -/
theorem isMissing_iff : n.isMissing = true ↔
    n.capabilities.missingFlag = true ∧ n.native.missing? n.index = some true := by
  unfold isMissing ask
  cases n.capabilities.missingFlag with
  | false => simp
  | true => cases n.native.missing? n.index <;> simp

/-- **The flags of nodes are exact** in a tree that a grammar built. There is an error in
a node if and only if the node or one below it was created as one that the source lacks,
or for source that was not understood. And the engine says of a node that the source lacks
it if and only if the node was created so; this is what the node says where its table has
the flag. -/
theorem flags_exact {grammar : String} {script : List Call}
    (built : Arena.build grammar script = .ok a) (native : n.native = .grammar identity a) :
    (n.hasError = true ↔
      ∃ j, a.Below n.index j ∧ (Script.Lacks script j ∨ Script.Misreads script j)) ∧
    (n.native.missing? n.index = some true ↔ Script.Lacks script n.index) ∧
    (n.isMissing = true ↔ n.capabilities.missingFlag = true ∧ Script.Lacks script n.index) := by
  have missing : n.native.missing? n.index = some true ↔ Script.Lacks script n.index :=
    (missing?_iff native).trans (Arena.missing_build built)
  refine ⟨(hasError_iff_marked native).trans (Arena.marked_build built), missing, ?_⟩
  rw [isMissing_iff, missing]

/-- A pair without its second half, before source that was not understood. -/
def patchy : List Call :=
  [.enter none "program" 0, .enter none "pair" 0, .leaf none "a" 0 1, .missing "b" 1, .leave 1,
    .leaf none "c" 2 3, .error 3 9, .leave 9]

-- The pair has an error two levels below the root, and the leaf beside it has none.
theorem flags_exact_patchy :
    ∃ a, Arena.build "test" patchy = .ok a ∧
      (∃ j, a.Below 0 j ∧ (Script.Lacks patchy j ∨ Script.Misreads patchy j)) ∧
      (∃ j, a.Below 1 j ∧ (Script.Lacks patchy j ∨ Script.Misreads patchy j)) ∧
      Script.Lacks patchy 3 ∧
      ¬∃ j, a.Below 4 j ∧ (Script.Lacks patchy j ∨ Script.Misreads patchy j) := by
  obtain ⟨a, built⟩ : ∃ a, Arena.build "test" patchy = .ok a := ⟨_, rfl⟩
  let tree : Tree := ⟨.grammar 0 a, "a c ?!?!?!", .grammar, .all⟩
  have flags (i : Nat) := flags_exact (n := tree.node i) built rfl
  cases built
  exact ⟨_, rfl, (flags 0).1.mp rfl, (flags 1).1.mp rfl, (flags 3).2.1.mp rfl,
    mt (flags 4).1.mpr (by decide)⟩

end Node

end TreeBroker
