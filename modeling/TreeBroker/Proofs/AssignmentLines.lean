import TreeBroker.Grammar.Assignment
import TreeBroker.Proofs.Tilings

/-!
# How a line is read

The grammar of assignments is a rule about lines: a line without the white space at its
end is empty, or it is blanks, a word, blanks, an equals sign, blanks and digits
(`Assigns`). The scanner knows nothing of the rule. It cuts blanks, a word, blanks and so
on from the front of the line, and gives up at the first part that is not there, in one
of several ways: with missing nodes at the end of the line, with an error node otherwise.

What both have in common is that a part which is cut off is the longest of its class
(`cut_spec`), and that a text which is written as the rule has it is cut at its joints
(`cut_append`). The first says what the scanner makes of any line: a forest that tiles
the line, without an error only if the line is as the rule has it (`reads_lineCalls`).
The second says what it makes of a line that is: one tree, whose leaves are the word, the
sign and the digits (`lineCalls_assigns`).
-/

namespace TreeBroker

/-! ## Trimmed texts -/

namespace Text

/-- A text that does not end in white space. -/
def EndsBlack (cs : List Char) : Prop := ∀ c, cs.getLast? = some c → isWhiteSpace c = false

/-- **A text without the white space at its end.** -/
structure Trimmed (cs content : List Char) : Prop where
  /-- What is cut off is white space. -/
  tail : ∃ blanks, cs = content ++ blanks ∧ ∀ c ∈ blanks, isWhiteSpace c = true
  /-- What is left does not end in white space. -/
  last : EndsBlack content

theorem trimmed_trimEnd (cs : List Char) : Trimmed cs (trimEnd cs) where
  tail := by
    refine ⟨(cs.reverse.takeWhile isWhiteSpace).reverse, ?_, fun c hc => ?_⟩
    · rw [trimEnd, ← List.reverse_append, List.takeWhile_append_dropWhile, List.reverse_reverse]
    · exact List.mem_takeWhile_imp (List.mem_reverse.mp hc)
  last := by
    intro c hc
    rw [trimEnd, List.getLast?_reverse] at hc
    have h := List.head?_dropWhile_not isWhiteSpace cs.reverse
    rw [hc] at h
    simpa using h

/-- White space at the end is trimmed. -/
theorem trimEnd_concat {c : Char} (h : isWhiteSpace c = true) (cs : List Char) :
    trimEnd (cs ++ [c]) = trimEnd cs := by
  rw [trimEnd, List.reverse_append, List.reverse_singleton, List.singleton_append,
    List.dropWhile_cons_of_pos h, trimEnd]

theorem EndsBlack.of_append {cs ds : List Char} (h : EndsBlack (cs ++ ds)) : EndsBlack ds := by
  intro c hc
  refine h c ?_
  rw [List.getLast?_append, hc]
  rfl

theorem EndsBlack.eq_nil {cs : List Char} (h : EndsBlack cs)
    (white : ∀ c ∈ cs, isWhiteSpace c = true) : cs = [] := by
  cases hc : cs.getLast? with
  | none => exact List.getLast?_eq_none_iff.mp hc
  | some c =>
    have black := h c hc
    rw [white c (List.mem_of_getLast? hc)] at black
    cases black

end Text

namespace Assignment

open Utf8 Forest Text

/-! ## Lines -/

/-- **What the lines of a source hold**, each without the white space at its end. -/
inductive Contents : List Char → List (List Char) → Prop
  /-- There are no lines. -/
  | nil : Contents [] []
  /-- The last line has no newline. -/
  | last {line content : List Char} (some : line ≠ []) (unbroken : '\n' ∉ line)
      (trimmed : Trimmed line content) : Contents line [content]
  /-- A line ends with a newline. -/
  | cons {line content cs : List Char} {contents : List (List Char)} (unbroken : '\n' ∉ line)
      (trimmed : Trimmed line content) (rest : Contents cs contents) :
      Contents (line ++ '\n' :: cs) (content :: contents)

theorem lines_append {line : List Char} (unbroken : '\n' ∉ line) (cs : List Char) :
    lines (line ++ '\n' :: cs) = (line ++ ['\n']) :: lines cs := by
  induction line with
  | nil => rfl
  | cons c line ih =>
    rw [List.mem_cons, not_or] at unbroken
    rw [List.cons_append, lines, if_neg (Ne.symm unbroken.1), ih unbroken.2]
    rfl

theorem lines_unbroken {line : List Char} (some : line ≠ []) (unbroken : '\n' ∉ line) :
    lines line = [line] := by
  induction line with
  | nil => exact absurd rfl some
  | cons c line ih =>
    rw [List.mem_cons, not_or] at unbroken
    rw [lines, if_neg (Ne.symm unbroken.1)]
    cases line with
    | nil => rfl
    | cons d line => rw [ih (List.cons_ne_nil d line) unbroken.2]

theorem flatten_lines (cs : List Char) : (lines cs).flatten = cs := by
  induction cs with
  | nil => rfl
  | cons c cs ih =>
    rw [lines]
    split
    · rw [List.flatten_cons, ih, List.singleton_append]
    · cases hl : lines cs with
      | nil =>
        rw [hl] at ih
        rw [← ih]
        rfl
      | cons line rest =>
        rw [hl] at ih
        rw [← ih]
        rfl

/-- **The lines of a source, trimmed,** are what its lines hold. -/
theorem contents_lines (cs : List Char) : Contents cs ((lines cs).map trimEnd) := by
  by_cases h : '\n' ∈ cs
  · obtain ⟨line, rest, rfl, unbroken⟩ := List.eq_append_cons_of_mem h
    rw [lines_append unbroken, List.map_cons, trimEnd_concat rfl]
    exact .cons unbroken (trimmed_trimEnd line) (contents_lines rest)
  · by_cases some : cs = []
    · rw [some]
      exact .nil
    · rw [lines_unbroken some h]
      exact .last some h (trimmed_trimEnd cs)
termination_by cs.length
decreasing_by
  subst_vars
  simp only [List.length_append, List.length_cons]
  omega

/-! ## The rule -/

/-- A word: a letter or an underscore, and then letters, digits and underscores. -/
def IsWord (word : List Char) : Prop :=
  ∃ first later, word = first :: later ∧ (Ascii.isAlpha first || first == '_') = true ∧
    ∀ c ∈ later, isWordChar c = true

/-- **A line that assigns digits to a word.** -/
structure Assigns (line word digits : List Char) : Prop where
  /-- The word is one. -/
  isWord : IsWord word
  /-- There are digits. -/
  some_digit : digits ≠ []
  /-- The digits are digits. -/
  all_digits : ∀ c ∈ digits, Ascii.isDigit c = true
  /-- Blanks stand around the word and behind the sign. -/
  shape : ∃ margin gap space : List Char,
    line = margin ++ (word ++ (gap ++ '=' :: (space ++ digits))) ∧
      ∀ c ∈ margin ++ gap ++ space, isBlank c = true

/-- A line as the rule has it. -/
def IsGood (line : List Char) : Prop := line = [] ∨ ∃ word digits, Assigns line word digits

/-! ## Classes of characters -/

theorem isBlank_iff {c : Char} : isBlank c = true ↔ c = ' ' ∨ c = '\t' := by
  simp [isBlank]

theorem isWordChar_iff {c : Char} : isWordChar c = true ↔
    Ascii.isAlpha c = true ∨ Ascii.isDigit c = true ∨ c = '_' := by
  simp [isWordChar, Ascii.isAlphanum, or_assoc]

theorem white_of_isBlank {c : Char} (h : isBlank c = true) : isWhiteSpace c = true := by
  obtain rfl | rfl := isBlank_iff.mp h <;> rfl

theorem ascii_of_isBlank {c : Char} (h : isBlank c = true) : c.toNat < 128 := by
  obtain rfl | rfl := isBlank_iff.mp h <;> decide

theorem ascii_of_isDigit {c : Char} (h : Ascii.isDigit c = true) : c.toNat < 128 := by
  have bounds := Ascii.isDigit_iff.mp h
  omega

theorem ascii_of_isWordChar {c : Char} (h : isWordChar c = true) : c.toNat < 128 := by
  obtain alpha | digit | rfl := isWordChar_iff.mp h
  · have bounds := Ascii.isAlpha_iff.mp alpha
    omega
  · exact ascii_of_isDigit digit
  · decide

/-- A blank is of no other class. -/
theorem not_isWordChar_of_isBlank {c : Char} (h : isBlank c = true) : isWordChar c = false := by
  obtain rfl | rfl := isBlank_iff.mp h <;> rfl

theorem not_isBlank_of_isWordChar {c : Char} (h : isWordChar c = true) : isBlank c = false := by
  refine Bool.eq_false_iff.mpr fun blank => ?_
  rw [not_isWordChar_of_isBlank blank] at h
  cases h

theorem isWordChar_of_isDigit {c : Char} (h : Ascii.isDigit c = true) : isWordChar c = true :=
  isWordChar_iff.mpr (.inr (.inl h))

theorem IsWord.isWordChar {word : List Char} (h : IsWord word) :
    ∀ c ∈ word, isWordChar c = true := by
  obtain ⟨first, later, rfl, hfirst, hlater⟩ := h
  refine List.forall_mem_cons.mpr ⟨isWordChar_iff.mpr ?_, hlater⟩
  rw [Bool.or_eq_true, beq_iff_eq] at hfirst
  exact hfirst.imp_right .inr

/-- A word begins with a character of its class that is no digit. -/
theorem isWord_iff {word : List Char} (h : ∀ c ∈ word, isWordChar c = true) :
    IsWord word ↔ beginsBadly word = false := by
  cases word with
  | nil => exact ⟨nofun, nofun⟩
  | cons c word =>
    obtain ⟨hc, hword⟩ := List.forall_mem_cons.mp h
    constructor
    · rintro ⟨_, _, ⟨rfl, rfl⟩, first, -⟩
      rw [Bool.or_eq_true, Ascii.isAlpha_iff, beq_iff_eq] at first
      refine Bool.eq_false_iff.mpr fun digit => ?_
      have bounds := Ascii.isDigit_iff.mp digit
      obtain letter | rfl := first
      · omega
      · exact absurd bounds (by decide)
    · intro ok
      refine ⟨c, word, rfl, ?_, hword⟩
      obtain alpha | digit | rfl := isWordChar_iff.mp hc
      · rw [alpha]
        rfl
      · exact absurd (digit.symm.trans ok) Bool.noConfusion
      · rfl

/-! ## Cutting -/

/-- A text that does not begin with a class. -/
def Stops (p : Char → Bool) (cs : List Char) : Prop := ∀ c, cs.head? = some c → p c = false

variable {p : Char → Bool} {cs ds : List Char}

theorem Stops.nil (p : Char → Bool) : Stops p [] := nofun

theorem Stops.cons {c : Char} (h : p c = false) (cs : List Char) : Stops p (c :: cs) := by
  intro d hd
  cases hd
  exact h

theorem Stops.append (h : ∀ c ∈ cs, p c = false) (h' : Stops p ds) : Stops p (cs ++ ds) := by
  cases cs with
  | nil => exact h'
  | cons c cs => exact .cons (h c List.mem_cons_self) _

/-- **What is cut off is of the class**, and what is left does not begin with it. -/
theorem cut_spec (p : Char → Bool) (cs : List Char) :
    ∃ as bs, cut p cs = (as, bs) ∧ cs = as ++ bs ∧ (∀ c ∈ as, p c = true) ∧ Stops p bs := by
  refine ⟨_, _, rfl, List.takeWhile_append_dropWhile.symm, fun c hc => List.mem_takeWhile_imp hc,
    fun c hc => ?_⟩
  have h := List.head?_dropWhile_not p cs
  rw [hc] at h
  simpa using h

/-- **A text is cut at its joint.** -/
theorem cut_append (h : ∀ c ∈ cs, p c = true) (h' : Stops p ds) : cut p (cs ++ ds) = (cs, ds) := by
  rw [cut, List.takeWhile_append_of_pos h, List.dropWhile_append_of_pos h]
  cases ds with
  | nil => simp
  | cons d ds =>
    have hd : p d = false := h' d rfl
    simp [hd]

/-! ## What is made of any line -/

section Leaf

variable {o : Nat} {blanks piece text : List Char} {t : Token} {forest : Forest}
  (blank : ∀ c ∈ blanks, isBlank c = true) (start : t.entry.start = o + blanks.length)
  (stop : t.entry.stop = o + blanks.length + length piece)

include blank in
theorem length_blanks : length blanks = blanks.length :=
  length_of_ascii fun c hc => ascii_of_isBlank (blank c hc)

include blank in
/-- A line that does not end in white space does not end in blanks. -/
theorem blanks_eq_nil (black : EndsBlack blanks) : blanks = [] :=
  black.eq_nil fun c hc => white_of_isBlank (blank c hc)

include blank start stop in
/-- A leaf behind blanks. -/
theorem tiles_leaf (rest : Tiles (o + blanks.length + length piece) text forest) :
    Tiles o (blanks ++ (piece ++ text)) (.leaf t forest) := by
  refine .skips (fun c hc => white_of_isBlank (blank c hc)) ?_
  rw [length_blanks blank]
  exact .leaf start stop rest

/-- A leaf that the source lacks takes nothing. -/
theorem tiles_missing (start : t.entry.start = o) (stop : t.entry.stop = o)
    (rest : Tiles o text forest) : Tiles o text (.leaf t forest) := by
  have h : Tiles o ([] ++ text) (.leaf t forest) := .leaf start stop rest
  exact h

/-- **A text ends a node**: its calls are those of a forest that tiles it, and the leaving
of the node. Without an error, the text is as it should be. -/
def Finishes (o : Nat) (text : List Char) (calls : List Call) (good : Prop) : Prop :=
  ∃ forest, calls = forest.script ++ [.leave (o + length text)] ∧ Tiles o text forest ∧
    (forest.hasError = false → good)

variable {calls : List Call} {good good' : Prop}

include blank start in
/-- A leaf is put before what ends a node. -/
theorem Finishes.leaf (count : length piece = piece.length)
    (stop : t.entry.stop = o + blanks.length + piece.length)
    (h : Finishes (o + blanks.length + piece.length) text calls good) (enough : good → good') :
    Finishes o (blanks ++ (piece ++ text)) (t.call :: calls) good' := by
  rw [← count] at stop h
  obtain ⟨forest, rfl, tiles, fine⟩ := h
  refine ⟨.leaf t forest, ?_, tiles_leaf blank start stop tiles, fun ok => enough (fine ?_)⟩
  · simp only [script, length_append, length_blanks blank, List.cons_append, Nat.add_assoc]
  · exact (Bool.or_eq_false_iff.mp ok).2

include blank in
/-- What is not understood becomes an error. -/
theorem finishes_error :
    Finishes o (blanks ++ piece) [.error (o + blanks.length) (o + length (blanks ++ piece)),
      .leave (o + length (blanks ++ piece))] good := by
  let t : Token := ⟨.error (o + blanks.length) (o + length (blanks ++ piece)), rfl, rfl⟩
  have stop : t.entry.stop = o + blanks.length + length piece := by
    show o + length (blanks ++ piece) = _
    rw [length_append, length_blanks blank, Nat.add_assoc]
  have tiles := tiles_leaf (t := t) blank rfl stop (.nil _)
  rw [List.append_nil] at tiles
  exact ⟨.leaf t .nil, rfl, tiles, fun ok => absurd ok Bool.noConfusion⟩

end Leaf

theorem finishes_afterValue {o stop : Nat} {text : List Char} (black : EndsBlack text)
    (hs : stop = o + length text) :
    Finishes o text (afterValue o stop text) (text = []) := by
  obtain ⟨blanks, extra, hcut, rfl, blank, -⟩ := cut_spec isBlank text
  subst hs
  simp only [afterValue, hcut]
  cases extra with
  | nil =>
    rw [List.append_nil] at black ⊢
    rw [blanks_eq_nil blank black]
    exact ⟨.nil, rfl, .nil o, fun _ => rfl⟩
  | cons c extra => exact finishes_error blank

theorem finishes_afterSign {o stop : Nat} {text : List Char} (black : EndsBlack text)
    (hs : stop = o + length text) :
    Finishes o text (afterSign o stop text) (∃ space digits, text = space ++ digits ∧
      (∀ c ∈ space, isBlank c = true) ∧ digits ≠ [] ∧ ∀ c ∈ digits, Ascii.isDigit c = true) := by
  obtain ⟨blanks, value, hcut, rfl, blank, -⟩ := cut_spec isBlank text
  obtain ⟨digits, more, hcut', rfl, digit, -⟩ := cut_spec Ascii.isDigit value
  have count : length digits = digits.length :=
    length_of_ascii fun c hc => ascii_of_isDigit (digit c hc)
  subst hs
  simp only [afterSign, hcut, hcut']
  cases digits with
  | cons d digits =>
    refine .leaf (t := ⟨.leaf (some "value") "number" _ _, rfl, rfl⟩) blank rfl count rfl
      (finishes_afterValue black.of_append.of_append ?_) ?_
    · simp only [length_append, length_blanks blank, count, Nat.add_assoc]
    · rintro rfl
      exact ⟨blanks, d :: digits, by simp, blank, List.cons_ne_nil d digits, digit⟩
  | nil =>
    cases more with
    | nil =>
      rw [List.append_nil, List.append_nil] at black ⊢
      rw [blanks_eq_nil blank black]
      let t : Token := ⟨.missing "number" o, rfl, rfl⟩
      exact ⟨.leaf t .nil, rfl, tiles_missing rfl rfl (.nil o),
        fun ok => absurd ok Bool.noConfusion⟩
    | cons c more => exact finishes_error blank

theorem finishes_afterName {o stop : Nat} {text : List Char} (black : EndsBlack text)
    (hs : stop = o + length text) :
    Finishes o text (afterName o stop text) (∃ gap space digits,
      text = gap ++ '=' :: (space ++ digits) ∧ (∀ c ∈ gap ++ space, isBlank c = true) ∧
        digits ≠ [] ∧ ∀ c ∈ digits, Ascii.isDigit c = true) := by
  obtain ⟨blanks, tail, hcut, rfl, blank, -⟩ := cut_spec isBlank text
  subst hs
  simp only [afterName, hcut]
  cases tail with
  | nil =>
    rw [List.append_nil] at black ⊢
    rw [blanks_eq_nil blank black]
    let sign : Token := ⟨.missing "=" o, rfl, rfl⟩
    let value : Token := ⟨.missing "number" o, rfl, rfl⟩
    exact ⟨.leaf sign (.leaf value .nil), rfl,
      tiles_missing rfl rfl (tiles_missing rfl rfl (.nil o)),
      fun ok => absurd ok Bool.noConfusion⟩
  | cons c more =>
    by_cases hc : c = '='
    · subst hc
      have black' : EndsBlack (['='] ++ more) := black.of_append
      have one : length ['='] = ['='].length := rfl
      refine .leaf (t := ⟨.anonymous "=" _ _, rfl, rfl⟩) blank rfl one rfl
        (finishes_afterSign black'.of_append ?_) ?_
      · simp only [length_append, length_blanks blank, length_cons, Nat.add_assoc]
        rfl
      · rintro ⟨space, digits, rfl, space_blank, some_digit, all_digits⟩
        exact ⟨blanks, space, digits, rfl, List.forall_mem_append.mpr ⟨blank, space_blank⟩,
          some_digit, all_digits⟩
    · simp only [if_neg hc]
      exact finishes_error blank

/-- **What is made of a line**: a forest that tiles it. Without an error, the line is as
the rule has it. -/
theorem reads_lineCalls (o : Nat) {line : List Char} (black : EndsBlack line) :
    ∃ forest, lineCalls o line = forest.script ∧ Tiles o line forest ∧
      (forest.hasError = false → IsGood line) := by
  obtain ⟨blanks, content, hcut, rfl, blank, -⟩ := cut_spec isBlank line
  obtain ⟨word, rest, hcut', rfl, letters, -⟩ := cut_spec isWordChar content
  simp only [lineCalls, hcut, hcut']
  by_cases empty : (word ++ rest).isEmpty = true
  · rw [if_pos empty, List.isEmpty_iff.mp empty, List.append_nil]
    rw [List.isEmpty_iff.mp empty, List.append_nil] at black
    rw [blanks_eq_nil blank black]
    exact ⟨.nil, rfl, .nil o, fun _ => .inl rfl⟩
  rw [if_neg empty]
  by_cases bad : beginsBadly word = true
  · rw [if_pos bad]
    obtain ⟨forest, hcalls, tiles, fine⟩ :
        Finishes o (blanks ++ (word ++ rest)) _ (IsGood _) := finishes_error blank
    exact ⟨forest, List.append_cancel_right hcalls, tiles, fine⟩
  · -- The word begins the node, and what follows the word ends it.
    rw [if_neg bad]
    have count : length word = word.length :=
      length_of_ascii fun c hc => ascii_of_isWordChar (letters c hc)
    let name : Token := ⟨.leaf (some "name") "identifier" (o + blanks.length)
      (o + blanks.length + word.length), rfl, rfl⟩
    have stop : o + length (blanks ++ (word ++ rest)) =
        o + blanks.length + word.length + length rest := by
      simp only [length_append, length_blanks blank, count, Nat.add_assoc]
    obtain ⟨forest, hcalls, tiles, fine⟩ := finishes_afterName black.of_append.of_append stop
    refine ⟨.node none "assignment" (o + blanks.length)
      (o + blanks.length + length (word ++ rest)) (.leaf name forest) .nil, ?_, ?_, fun ok => ?_⟩
    · rw [hcalls]
      simp [script, name, count, Nat.add_assoc]
    · refine .skips (fun c hc => white_of_isBlank (blank c hc)) ?_
      rw [length_blanks blank]
      have whole := Tiles.node none "assignment"
        (.leaf (t := name) rfl (congrArg _ count.symm) (count ▸ tiles)) (.nil _)
      rwa [List.append_nil] at whole
    · obtain ⟨gap, space, digits, rfl, between, some_digit, all_digits⟩ :=
        fine (Bool.or_eq_false_iff.mp (Bool.or_eq_false_iff.mp ok).1).2
      refine .inr ⟨word, digits, (isWord_iff letters).mpr (Bool.eq_false_iff.mpr bad), some_digit,
        all_digits, blanks, gap, space, rfl, ?_⟩
      rw [List.append_assoc]
      exact List.forall_mem_append.mpr ⟨blank, between⟩

/-! ## What is made of an assignment -/

/-- The tree of an assignment, before other trees. -/
def assignmentBefore (start nameEnd sign value stop : Nat) (rest : Forest) : Forest :=
  .node none "assignment" start stop
    (.leaf ⟨.leaf (some "name") "identifier" start nameEnd, rfl, rfl⟩
      (.leaf ⟨.anonymous "=" sign (sign + 1), rfl, rfl⟩
        (.leaf ⟨.leaf (some "value") "number" value stop, rfl, rfl⟩ .nil)))
    rest

theorem afterSign_digits {space digits : List Char} (o stop : Nat)
    (blank : ∀ c ∈ space, isBlank c = true) (some_digit : digits ≠ [])
    (all_digits : ∀ c ∈ digits, Ascii.isDigit c = true) :
    afterSign o stop (space ++ digits) =
      [.leaf (some "value") "number" (o + space.length) (o + space.length + digits.length),
        .leave (o + space.length + digits.length)] := by
  have black : ∀ c ∈ digits, isBlank c = false := fun c hc =>
    not_isBlank_of_isWordChar (isWordChar_of_isDigit (all_digits c hc))
  have hcut : cut isBlank (space ++ digits) = (space, digits) := by
    have stops : Stops isBlank (digits ++ []) := .append black (.nil _)
    rw [List.append_nil] at stops
    exact cut_append blank stops
  have hcut' : cut Ascii.isDigit digits = (digits, []) := by
    have h := cut_append all_digits (.nil _)
    rwa [List.append_nil] at h
  have nonempty : (!digits.isEmpty) = true := by simp [some_digit]
  simp only [afterSign, hcut, hcut', if_pos nonempty]
  rfl

theorem afterName_sign {gap : List Char} (o stop : Nat) (blank : ∀ c ∈ gap, isBlank c = true)
    (text : List Char) :
    afterName o stop (gap ++ '=' :: text) =
      .anonymous "=" (o + gap.length) (o + gap.length + 1) ::
        afterSign (o + gap.length + 1) stop text := by
  have hcut : cut isBlank (gap ++ '=' :: text) = (gap, '=' :: text) :=
    cut_append blank (.cons rfl text)
  simp only [afterName, hcut, if_true]

theorem lineCalls_word {margin word text : List Char} (o : Nat)
    (blank : ∀ c ∈ margin, isBlank c = true) (isWord : IsWord word)
    (stops : Stops isWordChar text) :
    lineCalls o (margin ++ (word ++ text)) =
      .enter none "assignment" (o + margin.length) ::
        .leaf (some "name") "identifier" (o + margin.length) (o + margin.length + word.length) ::
        afterName (o + margin.length + word.length) (o + length (margin ++ (word ++ text)))
          text := by
  have letters := isWord.isWordChar
  have begins := (isWord_iff letters).mp isWord
  obtain ⟨first, later, rfl, -⟩ := isWord
  have hcut : cut isBlank (margin ++ (first :: later ++ text)) =
      (margin, first :: later ++ text) :=
    cut_append blank (.cons (not_isBlank_of_isWordChar (letters first List.mem_cons_self)) _)
  have hcut' : cut isWordChar (first :: later ++ text) = (first :: later, text) :=
    cut_append letters stops
  simp only [lineCalls, hcut, hcut', begins]
  rfl

/-- **The calls for an assignment** are those of its tree. -/
theorem lineCalls_assigns (o : Nat) {line word digits : List Char}
    (h : Assigns line word digits) :
    ∃ margin between sign, line = margin ++ (word ++ (between ++ digits)) ∧
      lineCalls o line = script (assignmentBefore (o + length margin)
        (o + length margin + length word) sign
        (o + length margin + length word + length between)
        (o + length margin + length word + length between + length digits) .nil) := by
  obtain ⟨isWord, some_digit, all_digits, margin, gap, space, rfl, blank⟩ := h
  rw [List.forall_mem_append, List.forall_mem_append] at blank
  obtain ⟨⟨margin_blank, gap_blank⟩, space_blank⟩ := blank
  have stops : Stops isWordChar (gap ++ '=' :: (space ++ digits)) :=
    .append (fun c hc => not_isWordChar_of_isBlank (gap_blank c hc)) (.cons rfl _)
  have word_count : length word = word.length :=
    length_of_ascii fun c hc => ascii_of_isWordChar (isWord.isWordChar c hc)
  have digits_count : length digits = digits.length :=
    length_of_ascii fun c hc => ascii_of_isDigit (all_digits c hc)
  have between_count : length (gap ++ '=' :: space) = gap.length + 1 + space.length := by
    rw [length_append, length_cons, length_blanks gap_blank, length_blanks space_blank,
      Nat.add_assoc]
    rfl
  refine ⟨margin, gap ++ '=' :: space, o + margin.length + word.length + gap.length,
    by simp, ?_⟩
  rw [lineCalls_word o margin_blank isWord stops, afterName_sign _ _ gap_blank,
    afterSign_digits _ _ space_blank some_digit all_digits, length_blanks margin_blank,
    word_count, between_count, digits_count]
  simp only [assignmentBefore, script, List.nil_append, List.cons_append, Nat.add_assoc]

/-! ## Errors -/

/-- **A line is read without an error** if it is as the rule has it. -/
theorem any_isError_lineCalls (o : Nat) {line : List Char} (black : EndsBlack line) :
    (lineCalls o line).any Call.isError = false ↔ IsGood line := by
  constructor
  · intro ok
    obtain ⟨forest, hcalls, -, fine⟩ := reads_lineCalls o black
    rw [hcalls, any_isError_script] at ok
    exact fine ok
  · rintro (rfl | ⟨word, digits, assigns⟩)
    · rfl
    · obtain ⟨margin, between, sign, -, hcalls⟩ := lineCalls_assigns o assigns
      rw [hcalls, any_isError_script]
      rfl

theorem any_isError_linesCalls (o : Nat) (ls : List (List Char)) :
    (linesCalls o ls).any Call.isError = false ↔ ∀ line ∈ ls, IsGood (trimEnd line) := by
  induction ls generalizing o with
  | nil => exact ⟨nofun, fun _ => rfl⟩
  | cons line ls ih =>
    rw [linesCalls, List.any_append, Bool.or_eq_false_iff, List.forall_mem_cons,
      any_isError_lineCalls o (trimmed_trimEnd line).last, ih]

/-! ## Lines one after another -/

/-- **What is made of lines**: a forest that tiles them. -/
theorem reads_linesCalls (o : Nat) (ls : List (List Char)) :
    ∃ forest, linesCalls o ls = forest.script ∧ Tiles o ls.flatten forest := by
  induction ls generalizing o with
  | nil => exact ⟨.nil, rfl, .nil o⟩
  | cons line ls ih =>
    obtain ⟨⟨blanks, hline, white⟩, black⟩ := trimmed_trimEnd line
    obtain ⟨first, hfirst, tiles, -⟩ := reads_lineCalls o black
    obtain ⟨others, hothers, tiles'⟩ := ih (o + length line)
    refine ⟨first.append others, by rw [linesCalls, hfirst, hothers, script_append], ?_⟩
    have size : o + length line = o + length (trimEnd line) + length blanks := by
      rw [Nat.add_assoc, ← length_append, ← hline]
    have whole := tiles.append (.skips white (size ▸ tiles'))
    rwa [← List.append_assoc, ← hline] at whole

end Assignment

end TreeBroker
