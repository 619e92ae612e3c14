import TreeBroker.Path.Rejection
import TreeBroker.Proofs.TextPaths

/-!
# Library paths, read off their spelling

A library path is judged by its components, and components are a lossy reading: repeated
separators leave none, nor do the dots between them or a separator at the end. The extension
is judged by a rule of its own, in which a dot at the beginning of a name does not count. But
what is handed to the file system in the end is the spelling. So the judgement is stated here
on the bytes alone, without components and without extensions: by the pieces between the
separators, and by what the last of them ends in that is neither empty nor a dot.

The two readings differ in places. The last component of a path may be `..`, and a relative
path may begin with a `.` that is a component; in both cases the path has a fault that is
looked for earlier. That is why the order of the faults is part of the statement
(`FilePath.faults`), and why it is only for a path from the root that never climbs that the
file name is the last piece (`Path.fileName_of_isAbsolute`).
-/

namespace TreeBroker

/-! ## White space at the ends -/

namespace Text

/-- **A text without white space at its ends.** -/
structure Tight (cs : List Char) : Prop where
  /-- It does not begin with white space. -/
  first : ∀ c, cs.head? = some c → isWhiteSpace c = false
  /-- It does not end in white space. -/
  last : ∀ c, cs.getLast? = some c → isWhiteSpace c = false

variable {cs : List Char}

theorem trimStart_eq_self_iff :
    trimStart cs = cs ↔ ∀ c, cs.head? = some c → isWhiteSpace c = false := by
  rw [trimStart, List.dropWhile_eq_self_iff]
  cases cs with
  | nil => simp
  | cons d cs => simp

theorem trimEnd_eq_self_iff :
    trimEnd cs = cs ↔ ∀ c, cs.getLast? = some c → isWhiteSpace c = false := by
  show cs.rdropWhile isWhiteSpace = cs ↔ _
  rw [List.rdropWhile_eq_self_iff]
  constructor
  · intro h c hc
    obtain ⟨nonempty, rfl⟩ := List.mem_getLast?_eq_getLast hc
    exact Bool.eq_false_iff.mpr (h nonempty)
  · intro h nonempty
    exact Bool.eq_false_iff.mp (h _ (List.getLast?_eq_some_getLast nonempty))

/-- **Trimming leaves alone** what has no white space at its ends. -/
theorem trim_eq_self_iff : trim cs = cs ↔ Tight cs := by
  constructor
  · intro h
    -- Nothing is lost at the end, so nothing is lost at the front.
    have whole : (trimStart cs).length = cs.length := by
      refine Nat.le_antisymm (List.dropWhile_suffix _).length_le ?_
      calc cs.length = (trimEnd (trimStart cs)).length := congrArg List.length h.symm
        _ ≤ (trimStart cs).length := (List.rdropWhile_prefix _ _).length_le
    have front : trimStart cs = cs := (List.dropWhile_suffix _).eq_of_length whole
    rw [trim, front] at h
    exact ⟨trimStart_eq_self_iff.mp front, trimEnd_eq_self_iff.mp h⟩
  · intro h
    rw [trim, trimStart_eq_self_iff.mpr h.first, trimEnd_eq_self_iff.mpr h.last]

end Text

/-! ## Components and pieces -/

namespace Path

open Alphabet

variable {α : Type} [DecidableEq α]

theorem splitOn_eq_singleton_nil {sep : α} {cs : List α} (h : splitOn sep cs = [[]]) :
    cs = [] := by
  have spelled : [sep].intercalate (cs.splitOn sep) = cs := List.intercalate_splitOn sep
  rw [← spelled, ← splitOn_eq, h]
  rfl

variable [Alphabet α] {p segment : List α}

theorem Component.ofSegment?_eq_parent_iff :
    Component.ofSegment? segment = some .parent ↔ segment = [dot, dot] := by
  unfold Component.ofSegment?
  constructor
  · intro h
    split at h
    · cases h
    split at h
    · cases h
    split at h
    · assumption
    · cases h
  · rintro rfl
    simp

theorem Component.ofFirst?_eq_parent_iff :
    Component.ofFirst? p segment = some .parent ↔ segment = [dot, dot] := by
  rw [← Component.ofSegment?_eq_parent_iff]
  unfold Component.ofFirst?
  split
  · next empty =>
    subst empty
    split <;> simp [Component.ofSegment?]
  split
  · next single =>
    subst single
    simp [Component.ofSegment?]
  · rfl

/-- **A path climbs** if one of its pieces is `..`. -/
theorem hasParent_iff : hasParent p = true ↔ [dot, dot] ∈ splitOn slash p := by
  obtain ⟨first, rest, pieces⟩ := List.exists_cons_of_ne_nil (splitOn_ne_nil slash p)
  rw [hasParent, List.contains_iff_mem, components_of_splitOn pieces, List.mem_append,
    Option.mem_toList, Component.ofFirst?_eq_parent_iff, pieces, List.mem_cons,
    List.mem_filterMap]
  simp only [Component.ofSegment?_eq_parent_iff, exists_eq_right, eq_comm (a := first)]

/-- A piece that is looked up: it is neither empty nor a dot. -/
def counts (segment : List α) : Bool := segment ≠ [] ∧ segment ≠ [dot]

theorem Component.ofSegment?_of_not_counts (h : counts segment = false) :
    Component.ofSegment? segment = none := by
  unfold Component.ofSegment?
  by_cases empty : segment = []
  · exact if_pos empty
  · have single : segment = [dot] := by
      by_contra ne
      exact of_decide_eq_false h ⟨empty, ne⟩
    rw [if_neg empty, if_pos single]

/-- Where no piece climbs, those that count are names. -/
theorem filterMap_ofSegment?_of_notMem {segments : List (List α)} (h : [dot, dot] ∉ segments) :
    segments.filterMap Component.ofSegment? = (segments.filter counts).map .normal := by
  have names : ∀ name ∈ segments.filter counts,
      name ≠ [] ∧ name ≠ [dot] ∧ name ≠ [dot, dot] := by
    intro name mem
    obtain ⟨mem, hname⟩ := List.mem_filter.mp mem
    obtain ⟨nonempty, single⟩ := of_decide_eq_true hname
    exact ⟨nonempty, single, fun climbs => h (climbs ▸ mem)⟩
  rw [← filterMap_ofSegment? names, List.filterMap_filter]
  refine List.filterMap_congr fun segment _ => ?_
  cases hs : counts segment with
  | true => rfl
  | false => exact Component.ofSegment?_of_not_counts hs

/-- **The file name is the last piece that counts**, in a path from the root that does not
climb. -/
theorem fileName_of_isAbsolute (root : isAbsolute p = true) (stays : [dot, dot] ∉ splitOn slash p) :
    fileName p = ((splitOn slash p).filter counts).getLast? := by
  obtain ⟨q, rfl⟩ : ∃ q, p = slash :: q := List.head?_eq_some_iff.mp (of_decide_eq_true root)
  have pieces := splitOn_cons_self slash q
  rw [pieces, List.mem_cons, not_or] at stays
  have first : Component.ofFirst? (slash :: q) [] = some .root := by
    simp [Component.ofFirst?]
  have skipped : counts ([] : List α) ≠ true := by simp [counts]
  rw [fileName, components_of_splitOn pieces, first, filterMap_ofSegment?_of_notMem stays.2,
    pieces, List.filter_cons_of_neg skipped]
  rw [Option.toList_some, List.singleton_append, List.getLast?_cons, List.getLast?_map]
  cases ((splitOn slash q).filter counts).getLast? <;> rfl

/-- A name with a dot has a last one. -/
theorem exists_last_dot {name : List α} (h : dot ∈ name) :
    ∃ base ext, name = base ++ dot :: ext ∧ dot ∉ ext := by
  obtain ⟨after, before, split, clear⟩ := List.eq_append_cons_of_mem (List.mem_reverse.mpr h)
  refine ⟨before.reverse, after.reverse, ?_, mt List.mem_reverse.mp clear⟩
  rw [← List.reverse_reverse name, split]
  simp

theorem extension_of_dot {base ext : List α} (free : dot ∉ ext)
    (h : fileName p = some (base ++ dot :: ext)) :
    extension p = if base = [] then none else some ext := by
  have cut : (splitOn dot (base ++ dot :: ext)).reverse = ext :: (splitOn dot base).reverse := by
    rw [splitOn_append_cons, splitOn_of_notMem free, List.reverse_append]
    rfl
  rw [extension, h, Option.bind_some, cut]
  cases hbase : (splitOn dot base).reverse with
  | nil => exact absurd (List.reverse_eq_nil_iff.mp hbase) (splitOn_ne_nil dot base)
  | cons piece pieces =>
    by_cases empty : base = []
    · subst empty
      cases hbase
      rw [if_pos rfl]
    · rw [if_neg empty]
      cases piece with
      | cons c piece => rfl
      | nil =>
        cases pieces with
        | cons piece pieces => rfl
        | nil => exact absurd (splitOn_eq_singleton_nil (List.reverse_eq_iff.mp hbase)) empty

/-- **The extension is what stands behind the last dot** of the file name, if something stands
before it. -/
theorem extension_eq_some_iff {ext : List α} (free : dot ∉ ext) :
    extension p = some ext ↔ ∃ base, base ≠ [] ∧ fileName p = some (base ++ dot :: ext) := by
  constructor
  · intro h
    obtain ⟨name, hname, hext⟩ := Option.bind_eq_some_iff.mp h
    by_cases dotted : dot ∈ name
    · obtain ⟨base, ext', rfl, free'⟩ := exists_last_dot dotted
      rw [extension_of_dot free' hname] at h
      split at h
      · cases h
      · next nonempty =>
        cases h
        exact ⟨base, nonempty, hname⟩
    · rw [splitOn_of_notMem dotted] at hext
      cases hext
  · rintro ⟨base, nonempty, hname⟩
    rw [extension_of_dot free hname, if_neg nonempty]

end Path

/-! ## The judgement -/

namespace FilePath

open TreeBroker.Path TreeBroker.Path.Alphabet

variable {p : FilePath} {cs : List Char}

/-- The text that a path spells. -/
def Spells (p : FilePath) (cs : List Char) : Prop := Utf8.encode cs = p.bytes

/-- The last piece of a path that is neither empty nor a dot. -/
def lastPiece? (p : FilePath) : Option (List UInt8) :=
  ((p.bytes.splitOn slash).filter counts).getLast?

/-- **A path that names a library**: its last piece ends in `.so`, and that is not all of
it. -/
def NamesLibrary (p : FilePath) : Prop :=
  ∃ name, p.lastPiece? = some name ∧ Utf8.bytes ".so" <:+ name ∧
    (Utf8.bytes ".so").length < name.length

/-- **A sound library path**, read off its spelling. -/
structure Sound (p : FilePath) : Prop where
  /-- It is text, without white space at its ends. -/
  text : ∃ cs, p.Spells cs ∧ Text.Tight cs
  /-- It begins with a separator. -/
  root : p.bytes.head? = some slash
  /-- No piece of it is `..`. -/
  stays : [dot, dot] ∉ p.bytes.splitOn slash
  /-- It names a library. -/
  library : p.NamesLibrary

/-- **The faults of a path**, in the order in which they are looked for: the reason that is
given for each, and what it consists in. -/
def faults (p : FilePath) : List (Rejection × Prop) :=
  [(.invalidCharacters, ¬∃ cs, p.Spells cs),
    (.notAbsolute, p.bytes = []),
    (.whitespace, ∃ cs, p.Spells cs ∧ ¬Text.Tight cs),
    (.traversal, [dot, dot] ∈ p.bytes.splitOn slash),
    (.notAbsolute, p.bytes.head? ≠ some slash),
    (.extension, ¬p.NamesLibrary)]

theorem decode?_eq_some_iff : Utf8.decode? p.bytes = some cs ↔ p.Spells cs :=
  Utf8.decode?_eq_some_iff

theorem Spells.unique {ds : List Char} (h : p.Spells cs) (h' : p.Spells ds) : ds = cs :=
  Utf8.encode_injective (h'.trans h.symm)

theorem Spells.eq_nil_iff (h : p.Spells cs) : cs = [] ↔ p.bytes = [] := by
  rw [← h]
  exact (Utf8.encode_injective.eq_iff (b := [])).symm

theorem Spells.tight_iff (h : p.Spells cs) :
    Text.trim cs ≠ cs ↔ ∃ ds, p.Spells ds ∧ ¬Text.Tight ds := by
  rw [ne_eq, Text.trim_eq_self_iff]
  constructor
  · exact fun loose => ⟨cs, h, loose⟩
  · rintro ⟨ds, h', loose⟩
    rwa [h.unique h'] at loose

theorem hasParent_iff_mem : p.hasParent = true ↔ [dot, dot] ∈ p.bytes.splitOn slash := by
  rw [hasParent, hasParent_iff, splitOn_eq]

theorem isRelative_iff : (!p.isAbsolute) = true ↔ p.bytes.head? ≠ some slash := by
  rw [isAbsolute, Path.isAbsolute, Bool.not_eq_true', decide_eq_false_iff_not]

/-- **The extension is judged by the last piece**, where it is judged at all. -/
theorem isLibrary_iff (root : p.bytes.head? = some slash)
    (stays : [dot, dot] ∉ p.bytes.splitOn slash) : p.isLibrary = true ↔ p.NamesLibrary := by
  have name : fileName p.bytes = p.lastPiece? := by
    rw [lastPiece?, ← splitOn_eq]
    exact fileName_of_isAbsolute (decide_eq_true root) (by rwa [splitOn_eq])
  rw [isLibrary, decide_eq_true_iff, extension_eq_some_iff (by decide), name]
  constructor
  · rintro ⟨base, nonempty, h⟩
    refine ⟨_, h, List.suffix_append base _, ?_⟩
    have pos := List.length_pos_iff.mpr nonempty
    rw [List.length_append]
    exact Nat.lt_add_of_pos_left pos
  · rintro ⟨_, h, ⟨base, rfl⟩, long⟩
    refine ⟨base, ?_, h⟩
    rintro rfl
    exact Nat.lt_irrefl _ long

/-- **What is reported of faults** that are looked for in order: the reason of the first one
that there is, and nothing if there is none. -/
inductive Reports : List (Rejection × Prop) → Option Rejection → Prop
  /-- There is no fault. -/
  | nothing : Reports [] none
  /-- The first fault is there. -/
  | here {reason : Rejection} {fault : Prop} {rest : List (Rejection × Prop)} (there : fault) :
      Reports ((reason, fault) :: rest) (some reason)
  /-- The first fault is not there. -/
  | later {reason : Rejection} {fault : Prop} {rest : List (Rejection × Prop)}
      {outcome : Option Rejection} (absent : ¬fault) (h : Reports rest outcome) :
      Reports ((reason, fault) :: rest) outcome

/-- A check for the first fault, and then for the rest. -/
theorem Reports.ite {check fault : Prop} [Decidable check] {reason : Rejection}
    {rest : List (Rejection × Prop)} {outcome : Option Rejection} (finds : check ↔ fault)
    (h : ¬check → Reports rest outcome) :
    Reports ((reason, fault) :: rest) (if check then some reason else outcome) := by
  by_cases there : check
  · rw [if_pos there]
    exact .here (finds.mp there)
  · rw [if_neg there]
    exact .later (mt finds.mpr there) (h there)

theorem Reports.eq_none_iff {faults : List (Rejection × Prop)} {outcome : Option Rejection}
    (h : Reports faults outcome) : outcome = none ↔ ∀ fault ∈ faults, ¬fault.2 := by
  induction h with
  | nothing => simp
  | here there => simp [there]
  | later absent _ ih => simp [absent, ih]

/-- **The check reports the first fault.** -/
theorem reports_rejection? (p : FilePath) : Reports p.faults p.rejection? := by
  unfold rejection?
  cases hdecode : Utf8.decode? p.bytes with
  | none =>
    refine .here ?_
    rintro ⟨cs, h⟩
    rw [decode?_eq_some_iff.mpr h] at hdecode
    cases hdecode
  | some cs =>
    have spells : p.Spells cs := decode?_eq_some_iff.mp hdecode
    refine .later (not_not_intro ⟨cs, spells⟩) ?_
    refine .ite spells.eq_nil_iff fun _ => .ite spells.tight_iff fun _ => ?_
    refine .ite hasParent_iff_mem fun stays => .ite isRelative_iff fun root => ?_
    refine .ite ?_ fun _ => .nothing
    have fromRoot : p.bytes.head? = some slash := by_contra (mt isRelative_iff.mpr root)
    rw [Bool.not_eq_true', ← Bool.not_eq_true,
      isLibrary_iff fromRoot (mt hasParent_iff_mem.mpr stays)]

/-- **A path without faults is sound.** -/
theorem faultless_iff : (∀ fault ∈ p.faults, ¬fault.2) ↔ p.Sound := by
  simp only [faults, List.forall_mem_cons]
  constructor
  · rintro ⟨text, -, tight, stays, root, library, -⟩
    obtain ⟨cs, spells⟩ := not_not.mp text
    have tight : Text.Tight cs := by_contra fun loose => tight ⟨cs, spells, loose⟩
    exact ⟨⟨cs, spells, tight⟩, not_not.mp root, stays, not_not.mp library⟩
  · intro h
    obtain ⟨cs, spells, tight⟩ := h.text
    have nonempty : p.bytes ≠ [] := fun empty => by simpa [empty] using h.root
    have noneLoose : ¬∃ ds, p.Spells ds ∧ ¬Text.Tight ds := by
      rintro ⟨ds, spells', loose⟩
      exact loose (spells.unique spells' ▸ tight)
    exact ⟨not_not_intro ⟨cs, spells⟩, nonempty, noneLoose, h.stays, not_not_intro h.root,
      not_not_intro h.library, nofun⟩

theorem rejection?_eq_none_iff : p.rejection? = none ↔ p.Sound :=
  (reports_rejection? p).eq_none_iff.trans faultless_iff

/-- **A library path is judged by its spelling.** It passes the check if and only if it is
sound, and otherwise the check reports the first of its faults. -/
theorem rejection?_by_spelling (p : FilePath) :
    (p.rejection? = none ↔ p.Sound) ∧ Reports p.faults p.rejection? :=
  ⟨rejection?_eq_none_iff, reports_rejection? p⟩

-- Separators and dots around the name do not matter, and a name that is all extension is none.
example : (ofString "//./toml.so/.").rejection? = none := by cbv

example : (ofString "/.so").rejection? = some .extension := by cbv

end FilePath

end TreeBroker
