import TreeBroker.Proofs.AssignmentTrees

/-!
# Sources put together

What the assignment grammar makes of a line depends on the line alone, and on where it
begins. So one expects the tree of two sources put together to be the two trees put together.
It is, if the first source ends with a line: otherwise its last line goes on in the second.

*Put together* has a meaning for trees that are laid out flat. The two roots become one, with
the children of both; the other nodes of the first tree stay where they are, and those of the
second come behind them. So their spans are moved by the bytes of the first source, and every
index among them by the number of nodes that have come between – except the index of the root,
which is 0 in all three trees (`Entry.moved`).

The offsets come in with the script (`linesCalls_moved`), where a line is scanned from its
beginning and nothing else is known of its place. The indices come in with the layout
(`Forest.entries_moved`), and errors, which are made known to ancestors in one pass over the
whole arena, do not pass from one part to the other: they meet at the root.
-/

namespace TreeBroker

/-! ## Calls and entries, moved -/

/-- A call for a source that begins some bytes later. -/
def Call.moved (bytes : Nat) : Call → Call
  | enter field kind start => enter field kind (start + bytes)
  | leave stop => leave (stop + bytes)
  | leaf field kind start stop => leaf field kind (start + bytes) (stop + bytes)
  | anonymous kind start stop => anonymous kind (start + bytes) (stop + bytes)
  | missing kind offset => missing kind (offset + bytes)
  | error start stop => error (start + bytes) (stop + bytes)

namespace Entry

/-- An index behind some more nodes. The root stays the root. -/
def renumbered (nodes i : Nat) : Nat := if i = 0 then 0 else i + nodes

/-- **An entry moved** behind some bytes and some nodes. -/
def moved (bytes nodes : Nat) (e : Entry) : Entry :=
  { e with
    start := e.start + bytes
    stop := e.stop + bytes
    parent := e.parent.map (renumbered nodes)
    children := e.children.map (renumbered nodes) }

@[simp] theorem renumbered_zero (nodes : Nat) : renumbered nodes 0 = 0 := rfl

theorem renumbered_of_pos {i : Nat} (inside : 0 < i) (nodes : Nat) :
    renumbered nodes i = i + nodes := if_neg inside.ne'

end Entry

open Entry

theorem Call.entry?_moved (bytes nodes : Nat) (c : Call) :
    Call.entry? (c.moved bytes) = c.entry?.map (Entry.moved bytes nodes) := by
  cases c <;> rfl

theorem Call.creates_moved (bytes : Nat) (c : Call) : (c.moved bytes).creates = c.creates := by
  rw [creates, c.entry?_moved bytes 0, Option.isSome_map, creates]

theorem Call.opens_moved (bytes : Nat) (c : Call) : (c.moved bytes).opens = c.opens := by
  cases c <;> rfl

/-- A token moved. -/
def Token.moved (bytes : Nat) (t : Token) : Token where
  call := t.call.moved bytes
  creates := (t.call.creates_moved bytes).trans t.creates
  closed := (t.call.opens_moved bytes).trans t.closed

theorem Token.entry_moved (bytes nodes : Nat) (t : Token) :
    (t.moved bytes).entry = t.entry.moved bytes nodes := by
  have call : Call.entry? (t.call.moved bytes) = t.call.entry?.map (Entry.moved bytes nodes) :=
    t.call.entry?_moved bytes nodes
  rw [t.entry?_call] at call
  exact Option.some.inj ((t.moved bytes).entry?_call.symm.trans call)

/-! ## Forests, moved and put together -/

namespace Forest

/-- **A forest for a source that begins some bytes later.** -/
def moved (bytes : Nat) : Forest → Forest
  | nil => nil
  | leaf t rest => leaf (t.moved bytes) (rest.moved bytes)
  | node field kind start stop children rest =>
    node field kind (start + bytes) (stop + bytes) (children.moved bytes) (rest.moved bytes)

variable (bytes nodes : Nat) (forest other : Forest)

theorem script_moved : (forest.moved bytes).script = forest.script.map (Call.moved bytes) := by
  induction forest with
  | nil => rfl
  | leaf t rest ih =>
    rw [moved, script, ih, script, List.map_cons]
    rfl
  | node field kind start stop children rest ihc ihr =>
    rw [moved, script, ihc, ihr, script, List.map_cons, List.map_append, List.map_cons]
    rfl

@[simp] theorem size_moved : (forest.moved bytes).size = forest.size := by
  induction forest with
  | nil => rfl
  | leaf t rest ih => rw [moved, size, ih, size]
  | node field kind start stop children rest ihc ihr => rw [moved, size, ihc, ihr, size]

@[simp] theorem hasError_moved : (forest.moved bytes).hasError = forest.hasError := by
  induction forest with
  | nil => rfl
  | leaf t rest ih =>
    rw [moved, hasError, ih, t.entry_moved bytes 0, hasError]
    rfl
  | node field kind start stop children rest ihc ihr =>
    rw [moved, hasError, ihc, ihr, hasError]

theorem roots_moved {i : Nat} (inside : 0 < i) :
    (forest.moved bytes).roots (i + nodes) = (forest.roots i).map (renumbered nodes) := by
  induction forest generalizing i with
  | nil => rfl
  | leaf t rest ih =>
    rw [moved, roots, Nat.add_right_comm, ih (Nat.succ_pos i), roots, List.map_cons,
      renumbered_of_pos inside]
  | node field kind start stop children rest ihc ihr =>
    rw [moved, roots, size_moved, Nat.add_right_comm i nodes 1, Nat.add_right_comm (i + 1),
      ihr (by omega), roots, List.map_cons, renumbered_of_pos inside]

/-- **A forest that begins later and stands later** is laid out with every entry moved. -/
theorem entries_moved (raised : Bool) (parent : Option Nat) {i : Nat} (inside : 0 < i) :
    (forest.moved bytes).entries raised (parent.map (renumbered nodes)) (i + nodes) =
      (forest.entries raised parent i).map (Entry.moved bytes nodes) := by
  induction forest generalizing parent i with
  | nil => rfl
  | leaf t rest ih =>
    rw [moved, entries, Nat.add_right_comm, ih parent (Nat.succ_pos i), entries, List.map_cons,
      t.entry_moved bytes nodes]
    rfl
  | node field kind start stop children rest ihc ihr =>
    -- the node is the parent of its children, and has been renumbered like any other
    have own := ihc (some i) (Nat.succ_pos i)
    rw [Option.map_some, renumbered_of_pos inside] at own
    rw [moved, entries, size_moved, hasError_moved, Nat.add_right_comm i nodes 1,
      roots_moved bytes nodes children (Nat.succ_pos i), own, Nat.add_right_comm (i + 1),
      ihr parent (by omega), entries, List.map_cons, List.map_append]
    rfl

theorem hasError_append :
    (forest.append other).hasError = (forest.hasError || other.hasError) := by
  induction forest with
  | nil => rfl
  | leaf t rest ih => rw [append, hasError, ih, hasError, Bool.or_assoc]
  | node field kind start stop children rest ihc ihr =>
    rw [append, hasError, ihr, hasError, Bool.or_assoc]

theorem roots_append (i : Nat) :
    (forest.append other).roots i = forest.roots i ++ other.roots (i + forest.size) := by
  induction forest generalizing i with
  | nil => rfl
  | leaf t rest ih =>
    rw [append, roots, ih, roots, size, List.cons_append, Nat.add_comm rest.size, Nat.add_assoc]
  | node field kind start stop children rest ihc ihr =>
    rw [append, roots, ihr, roots, size, List.cons_append]
    congr 3
    omega

theorem entries_append (raised : Bool) (parent : Option Nat) (i : Nat) :
    (forest.append other).entries raised parent i =
      forest.entries raised parent i ++ other.entries raised parent (i + forest.size) := by
  induction forest generalizing i with
  | nil => rfl
  | leaf t rest ih =>
    rw [append, entries, ih, entries, size, List.cons_append, Nat.add_comm rest.size,
      Nat.add_assoc]
  | node field kind start stop children rest ihc ihr =>
    rw [append, entries, ihr, entries, size, List.cons_append, List.append_assoc]
    congr 4
    omega

end Forest

namespace Assignment

open Utf8 Forest Text

/-! ## Lines, moved and put together -/

section Moved

variable (bytes : Nat)

theorem afterValue_moved (valueEnd stop : Nat) (rest : List Char) :
    afterValue (valueEnd + bytes) (stop + bytes) rest =
      (afterValue valueEnd stop rest).map (Call.moved bytes) := by
  simp only [afterValue]
  split
  · rfl
  · rw [Nat.add_right_comm]
    rfl

theorem afterSign_moved (signEnd stop : Nat) (rest : List Char) :
    afterSign (signEnd + bytes) (stop + bytes) rest =
      (afterSign signEnd stop rest).map (Call.moved bytes) := by
  simp only [afterSign]
  rw [Nat.add_right_comm signEnd bytes]
  split
  · rw [Nat.add_right_comm _ bytes, afterValue_moved]
    rfl
  · split <;> rfl

theorem afterName_moved (nameEnd stop : Nat) (rest : List Char) :
    afterName (nameEnd + bytes) (stop + bytes) rest =
      (afterName nameEnd stop rest).map (Call.moved bytes) := by
  simp only [afterName]
  rw [Nat.add_right_comm nameEnd bytes]
  split
  · rfl
  · split
    · rw [Nat.add_right_comm _ bytes, afterSign_moved]
      rfl
    · rfl

/-- **A line that begins later** is read as the same line, moved. -/
theorem lineCalls_moved (offset : Nat) (line : List Char) :
    lineCalls (offset + bytes) line = (lineCalls offset line).map (Call.moved bytes) := by
  simp only [lineCalls]
  rw [Nat.add_right_comm offset bytes, Nat.add_right_comm offset bytes]
  split
  · rfl
  · split
    · rfl
    · rw [Nat.add_right_comm _ bytes, afterName_moved]
      rfl

theorem linesCalls_moved (offset : Nat) (ls : List (List Char)) :
    linesCalls (offset + bytes) ls = (linesCalls offset ls).map (Call.moved bytes) := by
  induction ls generalizing offset with
  | nil => rfl
  | cons line ls ih =>
    rw [linesCalls, lineCalls_moved, Nat.add_right_comm, ih, linesCalls, List.map_append]

end Moved

theorem linesCalls_append (offset : Nat) (ls ls' : List (List Char)) :
    linesCalls offset (ls ++ ls') =
      linesCalls offset ls ++ linesCalls (offset + length ls.flatten) ls' := by
  induction ls generalizing offset with
  | nil => rfl
  | cons line ls ih =>
    rw [List.cons_append, linesCalls, ih, linesCalls, List.flatten_cons, length_append,
      List.append_assoc, Nat.add_assoc]

/-- **A source of whole lines**, which does not end inside one. -/
def WholeLines (cs : List Char) : Prop := cs = [] ∨ cs.getLast? = some '\n'

theorem WholeLines.of_cons {c : Char} {cs : List Char} (whole : WholeLines (c :: cs)) :
    WholeLines cs := by
  cases cs with
  | nil => exact .inl rfl
  | cons d cs =>
    obtain empty | ended := whole
    · cases empty
    · rw [List.getLast?_cons_cons] at ended
      exact .inr ended

theorem lines_ne_nil {cs : List Char} (some : cs ≠ []) : lines cs ≠ [] := by
  intro none
  have flat := flatten_lines cs
  rw [none] at flat
  exact some flat.symm

/-- **Behind whole lines, a line begins.** -/
theorem lines_join {cs : List Char} (whole : WholeLines cs) (ds : List Char) :
    lines (cs ++ ds) = lines cs ++ lines ds := by
  induction cs with
  | nil => rfl
  | cons c cs ih =>
    rw [List.cons_append, lines, lines, ih whole.of_cons]
    split
    · rfl
    · next inside =>
      -- a line that has begun has more to it, or it would end without a newline
      have more : cs ≠ [] := by
        rintro rfl
        obtain empty | ended := whole
        · cases empty
        · exact inside (Option.some.inj ended)
      obtain ⟨line, rest, first⟩ := List.exists_cons_of_ne_nil (lines_ne_nil more)
      rw [first]
      rfl

/-! ## Trees put together -/

theorem laidOut_eq (cs : List Char) (forest : Forest) :
    laidOut cs forest =
      ⟨⟨"program", 0, length cs, true, false, forest.hasError, none, none, forest.roots 1⟩ ::
        forest.entries true (some 0) 1⟩ := by
  unfold laidOut
  rw [entries, entries, List.append_nil]
  rfl

/-- The layout of a forest in front of another one, which begins behind the bytes of a source:
the roots are put together, and what is below the second is moved. -/
theorem laidOut_append (cs ds : List Char) (forest other : Forest) :
    laidOut (cs ++ ds) (forest.append (other.moved (length cs))) =
      ⟨⟨"program", 0, length cs + length ds, true, false, forest.hasError || other.hasError, none,
          none, forest.roots 1 ++ (other.roots 1).map (renumbered forest.size)⟩ ::
        (forest.entries true (some 0) 1 ++
          (other.entries true (some 0) 1).map (Entry.moved (length cs) forest.size))⟩ := by
  have below := entries_moved (length cs) forest.size other true (some 0) Nat.one_pos
  rw [Option.map_some, renumbered_zero] at below
  rw [laidOut_eq, length_append, hasError_append, hasError_moved, roots_append,
    roots_moved _ _ _ Nat.one_pos, entries_append, below]

/-- **The tree of two sources put together is their two trees put together**, if the first
one ends with a line. The root spans both, has the children of both, and an error if one of
them has. Below it the nodes of the first tree are as they were, and those of the second are
moved: by the bytes of the first source, and behind the nodes of the first tree. -/
theorem parse_append {a b : String} (clean : '\x00' ∉ a.toList) (clean' : '\x00' ∉ b.toList)
    (whole : WholeLines a.toList) :
    ∃ root nodes root' nodes', parse a = .ok ⟨root :: nodes⟩ ∧ parse b = .ok ⟨root' :: nodes'⟩ ∧
      parse (a ++ b) = .ok ⟨
        { root with
          start := 0
          stop := length a.toList + length b.toList
          error := root.error || root'.error
          children := root.children ++ root'.children.map (renumbered nodes.length) } ::
        (nodes ++ nodes'.map (Entry.moved (length a.toList) nodes.length))⟩ := by
  obtain ⟨first, hfirst, -⟩ := reads_linesCalls 0 (lines a.toList)
  obtain ⟨second, hsecond, -⟩ := reads_linesCalls 0 (lines b.toList)
  have both : linesCalls 0 (lines (a ++ b).toList) =
      (first.append (second.moved (length a.toList))).script := by
    rw [String.toList_append, lines_join whole, linesCalls_append, flatten_lines, linesCalls_moved,
      hfirst, hsecond, script_append, script_moved]
  have clean_both : '\x00' ∉ (a ++ b).toList := by
    rw [String.toList_append, List.mem_append, not_or]
    exact ⟨clean, clean'⟩
  refine ⟨_, _, _, _, (parse_of_script clean hfirst).trans (congrArg Except.ok (laidOut_eq _ _)),
    (parse_of_script clean' hsecond).trans (congrArg Except.ok (laidOut_eq _ _)), ?_⟩
  rw [parse_of_script clean_both both, String.toList_append, laidOut_append, length_entries]

-- A line with wide characters that is not understood, in front of an assignment that ends early.
theorem parse_append_wide :
    ∃ root nodes root' nodes', parse "é → 1\n" = .ok ⟨root :: nodes⟩ ∧
      parse "x = " = .ok ⟨root' :: nodes'⟩ ∧
      parse "é → 1\nx = " = .ok ⟨
        { root with
          start := 0
          stop := 13
          error := root.error || root'.error
          children := root.children ++ root'.children.map (renumbered nodes.length) } ::
        (nodes ++ nodes'.map (Entry.moved 9 nodes.length))⟩ :=
  parse_append (a := "é → 1\n") (b := "x = ") (by decide) (by decide) (.inr (by decide))

end Assignment

end TreeBroker
