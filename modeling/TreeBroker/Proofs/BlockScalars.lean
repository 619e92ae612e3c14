import Mathlib
import TreeBroker.Proofs.QuotedScalars

/-!
# Texts in blocks

A text of several lines is written as a block: a header, and below it the lines, each behind
the same indentation. Three things about the text are not in its lines. Whether its first line
begins with white space decides if the header gives the indentation or if the reader takes it
from the first line that is not empty. What the text ends with decides which breaks the reader
keeps. And a text of nothing but breaks has no line at all.

A text that has a line is cut into the parts that the reader sees (`Parts`): the empty lines in
front, the lines up to the last one that is not empty, and the breaks behind. That the header
gives all of it back is a field of the parts, and every text has them or is made of breaks
(`exists_parts`). The lines themselves are read one after another (`blockLines_lines`), and from
both follows that a block is read as its text (`scanBlock_literal`).
-/

namespace TreeBroker.Yaml

/-! ## Breaks in front of a line -/

section Breaks

variable {c : Cursor} {bs breaks rest : List Char} {line indent fuel widest k : Nat}

/-- **A line of a block begins behind `k` blanks**, or a line behind the block does. -/
def BeginsLine (indent k : Nat) (rest : List Char) : Prop :=
  Black rest ∧ (indent = 0 ∨ k < indent) ∨ indent = k ∧ k ≠ 0 ∧ rest.head?.any isBreak = false

theorem takeWhile_blanks (k : Nat) (rest : List Char) :
    (blanks k ++ rest).takeWhile (· == ' ') = blanks k ++ rest.takeWhile (· == ' ') :=
  List.takeWhile_append_of_pos fun _ hch => beq_iff_eq.mpr (List.eq_of_mem_replicate hch)

theorem Black.takeWhile_blank (black : Black rest) : rest.takeWhile (· == ' ') = [] := by
  cases rest with
  | nil => rfl
  | cons ch rest =>
    refine List.takeWhile_cons_of_neg fun blank => ?_
    have white := black.head
    rw [beq_iff_eq.mp blank] at white
    cases white

theorem Black.unbroken (black : Black rest) : rest.head?.any isBreak = false := by
  cases rest with
  | nil => rfl
  | cons ch rest => exact (Bool.or_eq_false_iff.mp black.head).2

theorem Black.head_ne_tab (black : Black rest) : rest.head? ≠ some '\t' := by
  intro tab
  cases black '\t' tab

theorem BeginsLine.unbroken (begins : BeginsLine indent k rest) :
    rest.head?.any isBreak = false := by
  obtain ⟨black, -⟩ | ⟨-, -, unbroken⟩ := begins
  · exact black.unbroken
  · exact unbroken

/-- The blanks that are passed are those in front of the line. -/
theorem BeginsLine.width_eq (begins : BeginsLine indent k rest) :
    (if indent == 0 then ((blanks k ++ rest).takeWhile (· == ' ')).length
      else min ((blanks k ++ rest).takeWhile (· == ' ')).length (indent - 0)) = k := by
  rw [takeWhile_blanks, List.length_append, blanks, List.length_replicate]
  obtain ⟨black, outside⟩ | ⟨rfl, pos, -⟩ := begins
  · rw [black.takeWhile_blank, List.length_nil]
    split
    · rfl
    · next given =>
      rw [beq_iff_eq] at given
      omega
  · rw [beq_false_of_ne pos, if_neg Bool.false_ne_true]
    omega

theorem BeginsLine.tab_refused (begins : BeginsLine indent k rest) :
    ((indent == 0 || decide (k < indent)) && rest.head? == some '\t') = false := by
  obtain ⟨black, -⟩ | ⟨rfl, pos, -⟩ := begins
  · rw [beq_false_of_ne black.head_ne_tab, Bool.and_false]
  · simp [pos]

theorem blockBreaks_stop (begins : BeginsLine indent k rest) (h : c.At (blanks k ++ rest) line 0)
    (enough : (blanks k ++ rest).length ≤ fuel) :
    ∃ next, blockBreaks indent fuel widest breaks c = some (max widest k, breaks, next) ∧
      next.At rest line k := by
  obtain _ | fuel := fuel
  · obtain ⟨no_blanks, rfl⟩ := List.append_eq_nil_iff.mp
      (List.length_eq_zero_iff.mp (Nat.le_zero.mp enough))
    obtain rfl : k = 0 := by simpa [blanks] using no_blanks
    exact ⟨c, by rw [blockBreaks, Nat.max_zero], h⟩
  · have there : (c.skip k).At rest line k := by
      have skipped := h.skip
      rwa [blanks, List.length_replicate, Nat.zero_add] at skipped
    refine ⟨c.skip k, ?_, there⟩
    rw [blockBreaks, h.rest_eq, h.column_eq, begins.width_eq]
    dsimp only
    rw [there.rest_eq, there.column_eq, begins.tab_refused, begins.unbroken]
    rfl

/-- **Breaks are collected** up to the line behind them. -/
theorem blockBreaks_breaks (hbs : ∀ b ∈ bs, isKeptBreak b = true)
    (begins : BeginsLine indent k rest) (h : c.At (bs ++ (blanks k ++ rest)) line 0)
    (enough : (bs ++ (blanks k ++ rest)).length ≤ fuel) :
    ∃ next, blockBreaks indent fuel widest breaks c = some (max widest k, breaks ++ bs, next) ∧
      next.At rest (line + bs.length) k := by
  induction bs generalizing c breaks line fuel with
  | nil =>
    rw [List.append_nil]
    exact blockBreaks_stop begins h enough
  | cons b bs ih =>
    obtain _ | fuel := fuel
    · cases enough
    · rw [List.forall_mem_cons] at hbs
      have hb := isBreak_of_isKeptBreak hbs.1
      have no_blank : (b :: (bs ++ (blanks k ++ rest))).takeWhile (· == ' ') = [] := by
        refine List.takeWhile_cons_of_neg fun blank => ?_
        rw [beq_iff_eq.mp blank] at hb
        cases hb
      have no_tab : (some b == some '\t') = false := by
        refine beq_false_of_ne fun tab => ?_
        rw [Option.some.inj tab] at hb
        cases hb
      obtain ⟨after, passed, atAfter⟩ := h.skipBreak hbs.1
      obtain ⟨next, collected, there⟩ := ih hbs.2 atAfter (Nat.le_of_succ_le_succ enough)
      refine ⟨next, ?_, by rwa [Nat.add_assoc, Nat.add_comm 1] at there⟩
      have line_empty : blockBreaks indent (fuel + 1) widest breaks c =
          blockBreaks indent fuel widest (breaks ++ [b]) after := by
        rw [blockBreaks, h.rest_eq, List.cons_append, no_blank]
        simp only [List.length_nil, Nat.zero_min, ite_self, Cursor.skip_zero, h.rest_eq,
          h.column_eq, List.cons_append, no_tab, Bool.and_false, List.head?_cons,
          Option.any_some, hb, passed, Nat.max_zero, if_true, Bool.false_eq_true, if_false]
      rw [line_empty, collected, List.append_assoc]
      rfl

end Breaks

/-! ## Lines -/

theorem indented_line_break {line : List Char} (unbroken : ∀ ch ∈ line, isBreak ch = false)
    {b : Char} (hb : isBreak b = true) (width : Nat) (cs : List Char) :
    indented width false (line ++ b :: cs) = line ++ b :: indented width true cs := by
  induction line with
  | nil => rw [List.nil_append, indented, hb, if_pos rfl, List.nil_append]
  | cons ch line ih =>
    rw [List.forall_mem_cons] at unbroken
    rw [List.cons_append, indented_of_not_isBreak unbroken.1, ih unbroken.2]
    rfl

theorem indented_append_breaks {bs : List Char} (hbs : ∀ b ∈ bs, isBreak b = true) (width : Nat)
    (afterBreak : Bool) (cs : List Char) :
    indented width afterBreak (cs ++ bs) = indented width afterBreak cs ++ bs := by
  induction cs generalizing afterBreak with
  | nil =>
    cases bs with
    | nil => rfl
    | cons b bs =>
      rw [List.forall_mem_cons] at hbs
      rw [List.nil_append, indented.eq_2, hbs.1, if_pos rfl, indented_of_breaks hbs.2]
      rfl
  | cons ch cs ih =>
    simp only [List.cons_append, indented, ih]
    split
    · rfl
    · split <;> simp

theorem length_le_indented (width : Nat) (afterBreak : Bool) (cs : List Char) :
    cs.length ≤ (indented width afterBreak cs).length := by
  induction cs generalizing afterBreak with
  | nil => exact Nat.le_refl _
  | cons ch cs ih =>
    have rest := ih true
    have rest' := ih false
    rw [indented]
    split
    · simpa using rest
    · split
      · simp only [List.length_append, List.length_cons]
        omega
      · simpa using rest'

theorem exists_line (cs : List Char) :
    ∃ line ds, cs = line ++ ds ∧ (∀ ch ∈ line, isBreak ch = false) ∧
      ∀ d ∈ ds.head?, isBreak d = true := by
  refine ⟨cs.takeWhile fun ch => !isBreak ch, cs.dropWhile fun ch => !isBreak ch,
    List.takeWhile_append_dropWhile.symm, fun ch hch => ?_, fun d hd => ?_⟩
  · simpa using List.mem_takeWhile_imp hch
  · have := List.head?_dropWhile_not (fun ch => !isBreak ch) cs
    rw [Option.mem_def.mp hd] at this
    simpa using this

/-- **Lines of which neither the first nor the last is empty.** -/
structure Framed (core : List Char) : Prop where
  /-- There is a line. -/
  ne_nil : core ≠ []
  /-- The first line is not empty. -/
  starts : core.head?.any isBreak = false
  /-- The last line is not empty. -/
  ends : core.getLast?.any isBreak = false

/-- **The first line is the only one**, or is followed by breaks and further lines. -/
theorem Framed.cut {core : List Char} (framed : Framed core) :
    (∀ ch ∈ core, isBreak ch = false) ∨
      ∃ content d es others, core = content ++ d :: (es ++ others) ∧ content ≠ [] ∧
        (∀ ch ∈ content, isBreak ch = false) ∧ (∀ e ∈ d :: es, isBreak e = true) ∧
          Framed others := by
  obtain ⟨content, ds, rfl, whole, broken⟩ := exists_line core
  cases ds with
  | nil => exact .inl (by rwa [List.append_nil])
  | cons d ds =>
    obtain ⟨es, others, rfl, hes, starts⟩ := exists_breaks ds
    have breaks : ∀ e ∈ d :: es, isBreak e = true := List.forall_mem_cons.mpr ⟨broken d rfl, hes⟩
    have filled : content ≠ [] := by
      rintro rfl
      exact absurd (breaks d List.mem_cons_self) (Bool.eq_false_iff.mp framed.starts)
    have ends := framed.ends
    have ne_nil : others ≠ [] := by
      rintro rfl
      rw [List.append_nil, List.getLast?_append_of_ne_nil _ (List.cons_ne_nil d es),
        List.getLast?_eq_some_getLast (List.cons_ne_nil d es), Option.any_some,
        breaks _ (List.getLast_mem (List.cons_ne_nil d es))] at ends
      cases ends
    rw [← List.cons_append, List.getLast?_append_of_ne_nil _ (by simp),
      List.getLast?_append_of_ne_nil _ ne_nil] at ends
    exact .inr ⟨content, d, es, others, rfl, filled, whole, breaks, ne_nil, starts, ends⟩

section Lines

variable {c : Cursor} {core bs text first more rest : List Char} {b : Char}
  {line width fuel k : Nat} {blankBefore : Bool}

/-- **A line and the breaks behind it.** -/
theorem blockLines_line {content : List Char}
    (unbroken : ∀ ch ∈ content, isBreak ch = false) (hb : isKeptBreak b = true)
    (hbs : ∀ b ∈ bs, isKeptBreak b = true) (begins : BeginsLine width k rest)
    (h : c.At (content ++ b :: (bs ++ (blanks k ++ rest))) line width) :
    ∃ next blankNow, blockLines true width (fuel + 1) text first more blankBefore c =
        blockLines true width fuel (text ++ first ++ more ++ content) [b] bs blankNow next ∧
      next.At rest (line + 1 + bs.length) k := by
  obtain ⟨after, passed, atAfter⟩ := h.skip.skipBreak hb
  obtain ⟨next, collected, there⟩ : ∃ next, blockBreaks width after.rest.length 0 [] after =
      some (max 0 k, [] ++ bs, next) ∧ next.At rest (line + 1 + bs.length) k :=
    blockBreaks_breaks hbs begins atAfter (by rw [atAfter.rest_eq])
  refine ⟨next, (content ++ b :: (bs ++ (blanks k ++ rest))).head?.any isBlank, ?_, there⟩
  have cut : (content ++ b :: (bs ++ (blanks k ++ rest))).takeWhile (fun ch => !isBreak ch) =
      content := by
    rw [List.takeWhile_append_of_pos (by simpa using unbroken), List.takeWhile_cons_of_neg
      (by simp [isBreak_of_isKeptBreak hb]), List.append_nil]
  have filled : (content ++ b :: (bs ++ (blanks k ++ rest))).isEmpty = false := by
    simp
  rw [blockLines, h.column_eq, h.rest_eq, cut]
  simp only [bne_self_eq_false, filled, Bool.or_self, Bool.false_eq_true, if_false, passed,
    collected, Bool.not_true, Bool.false_and, List.nil_append]

theorem blockLines_stop (h : c.At rest line k) (left : k < width) :
    blockLines true width fuel text first more blankBefore c = some (text, first, more, c) := by
  cases fuel with
  | zero => rfl
  | succ fuel =>
    have ne : (c.column != width) = true := by
      rw [h.column_eq, bne_iff_ne]
      omega
    rw [blockLines, ne]
    rfl

/-- **The lines of a block are read** up to a line that is indented less. The breaks at the end
are kept apart. -/
theorem blockLines_lines (framed : Framed core) (printable : ∀ ch ∈ core, isPrintable ch = true)
    (hb : isKeptBreak b = true) (hbs : ∀ b ∈ bs, isKeptBreak b = true) (black : Black rest)
    (left : k < width)
    (h : c.At (indented width false (core ++ b :: bs) ++ (blanks k ++ rest)) line width)
    (enough : core.length ≤ fuel) :
    ∃ next line', blockLines true width fuel text first more blankBefore c =
        some (text ++ first ++ more ++ core, [b], bs, next) ∧
      next.At rest line' k ∧ line < line' := by
  -- One line is read in each round; what is left begins with the next line that is not empty.
  induction fuel generalizing c core text first more blankBefore line with
  | zero => exact absurd (List.length_eq_zero_iff.mp (Nat.le_zero.mp enough)) framed.ne_nil
  | succ fuel ih =>
    obtain whole | ⟨content, d, es, others, rfl, filled, whole, breaks, framed⟩ := framed.cut
    · rw [indented_line_break whole (isBreak_of_isKeptBreak hb)] at h
      have ends : indented width true bs = bs :=
        indented_of_breaks (fun b hb => isBreak_of_isKeptBreak (hbs b hb)) width
      rw [ends, List.append_assoc, List.cons_append] at h
      obtain ⟨next, blankNow, read, there⟩ :=
        blockLines_line whole hb hbs (.inl ⟨black, .inr left⟩) h
      exact ⟨next, _, by rw [read, blockLines_stop there left], there, by omega⟩
    · have kept : ∀ e ∈ d :: es, isKeptBreak e = true := fun e he =>
        isKeptBreak_of_isPrintable (breaks e he) (printable e (by simp at he ⊢; tauto))
      obtain ⟨hd, hes⟩ := List.forall_mem_cons.mp breaks
      have starts := framed.starts
      obtain ⟨ch, cs, rfl⟩ := List.exists_cons_of_ne_nil framed.ne_nil
      have parted : indented width false (content ++ d :: (es ++ ch :: cs) ++ b :: bs) =
          content ++ d :: (es ++ (blanks width ++ indented width false (ch :: cs ++ b :: bs))) := by
        rw [List.append_assoc, List.cons_append, List.append_assoc, indented_line_break whole hd,
          indented_breaks hes, List.cons_append, indented_line starts]
      rw [parted] at h
      simp only [List.append_assoc, List.cons_append] at h
      have begins : BeginsLine width width
          (indented width false (ch :: (cs ++ b :: bs)) ++ (blanks k ++ rest)) := by
        refine .inr ⟨rfl, by omega, ?_⟩
        rw [indented_of_not_isBreak starts]
        exact starts
      obtain ⟨after, blankNow, read, atAfter⟩ :=
        blockLines_line whole (kept d List.mem_cons_self)
          (fun e he => kept e (List.mem_cons_of_mem _ he)) begins h
      have fewer : (ch :: cs).length ≤ fuel := by
        have := List.length_pos_iff.mpr filled
        simp only [List.length_append, List.length_cons] at enough ⊢
        omega
      obtain ⟨next, line', read', there, later⟩ :=
        ih framed (fun ch hch => printable ch (by simp at hch ⊢; tauto)) atAfter fewer
      refine ⟨next, line', ?_, there, by omega⟩
      rw [read, read']
      simp [List.append_assoc]

end Lines

theorem fitsBlock_iff {cs : List Char} :
    fitsBlock cs = true ↔ cs ≠ [] ∧ Shown cs ∧ cs.getLast? ≠ some ' ' := by
  rw [fitsBlock, Bool.and_eq_true, Bool.and_eq_true, Bool.not_eq_true', Bool.not_eq_true',
    not_isAwkward_iff, List.isEmpty_eq_false_iff, bne_iff_ne, and_assoc]

/-! ## Headers -/

/-- The mark of a chomping in a header. -/
def Chomping.mark : Chomping → List Char
  | .strip => ['-']
  | .clip => []
  | .keep => ['+']

/-- What a chomping leaves of a block: its text, the break behind it and the breaks after that. -/
def Chomping.chomp (chomping : Chomping) (text first more : List Char) : List Char :=
  let text := if chomping == .strip then text else text ++ first
  if chomping == .keep then text ++ more else text

/-- The mark of a width, in front of a text that begins with white space. -/
def widthMark (cs : List Char) : List Char :=
  if cs.head?.any (fun c => c == ' ' || isBreak c) then ['2'] else []

/-- The break behind a text that does not end with one. -/
def closing (cs : List Char) : List Char := if cs.getLast?.any isBreak then [] else ['\n']

/-- What becomes of the breaks at the end of a text when all of it is kept. -/
def Chomping.ofText (cs : List Char) : Chomping :=
  match cs.reverse with
  | last :: before :: _ => if !isBreak last then .strip else if isBreak before then .keep else .clip
  | [last] => if isBreak last then .keep else .strip
  | [] => .strip

theorem blockMarks_eq (cs : List Char) :
    blockMarks cs = widthMark cs ++ (Chomping.ofText cs).mark := by
  rw [blockMarks, Chomping.ofText, widthMark]
  cases cs.reverse with
  | nil => rfl
  | cons last before =>
    cases before with
    | nil =>
      dsimp only
      cases isBreak last <;> rfl
    | cons d before =>
      dsimp only
      cases isBreak last <;> cases isBreak d <;> rfl

theorem blockHeader_marks (cs : List Char) (chomping : Chomping) (rest : List Char) :
    blockHeader (widthMark cs ++ chomping.mark ++ '\n' :: rest) =
      some (chomping, if (widthMark cs).isEmpty then 0 else 2,
        (widthMark cs ++ chomping.mark).length) := by
  rw [widthMark]
  split <;> cases chomping <;> rfl

/-! ## Parts -/

/-- **The parts of a block**: empty lines, the lines between the first and the last that are not
empty, and the breaks behind them, of which the first ends the last line. -/
structure Parts (cs lead core : List Char) (b : Char) (bs : List Char) : Prop
    extends Framed core where
  /-- The parts are the text and the break that ends its last line. -/
  whole : cs ++ closing cs = lead ++ (core ++ b :: bs)
  /-- In front there are breaks. -/
  lead_breaks : ∀ d ∈ lead, isBreak d = true
  /-- At the end there are breaks. -/
  breaks : ∀ d ∈ b :: bs, isBreak d = true
  /-- The breaks at the end are those of the text. -/
  chomped : (Chomping.ofText cs).chomp (lead ++ core) [b] bs = cs

/-- The lines of a text that does not end with a break, and the breaks in front of them. -/
theorem exists_lead {front : List Char} (ne_nil : front ≠ [])
    (ends : front.getLast?.any isBreak = false) :
    ∃ lead core, front = lead ++ core ∧ Framed core ∧ ∀ d ∈ lead, isBreak d = true := by
  obtain ⟨lead, core, rfl, breaks, starts⟩ := exists_breaks front
  have core_ne : core ≠ [] := by
    rintro rfl
    rw [List.append_nil] at ne_nil ends
    rw [List.getLast?_eq_some_getLast ne_nil, Option.any_some,
      breaks _ (List.getLast_mem ne_nil)] at ends
    cases ends
  rw [List.getLast?_append_of_ne_nil _ core_ne] at ends
  exact ⟨lead, core, rfl, ⟨core_ne, starts, ends⟩, breaks⟩

/-- **A text is made of breaks or has the parts of a block.** -/
theorem exists_parts {cs : List Char} (ne_nil : cs ≠ []) :
    ((∀ b ∈ cs, isBreak b = true) ∧ Chomping.ofText cs = .keep) ∨
      ∃ lead core b bs, Parts cs lead core b bs := by
  -- The breaks at the end are those in front of the reversed text.
  obtain ⟨back, tail, reversed, breaks, stops⟩ := exists_breaks cs.reverse
  have text : cs = tail.reverse ++ back.reverse := by
    rw [← List.reverse_append, ← reversed, List.reverse_reverse]
  cases tail with
  | nil =>
    rw [List.append_nil] at reversed
    have broken : ∀ b ∈ cs, isBreak b = true := fun b hb =>
      breaks b (by rwa [← reversed, List.mem_reverse])
    refine .inl ⟨broken, ?_⟩
    rw [Chomping.ofText, reversed]
    match back, breaks, reversed with
    | [], _, reversed => exact absurd (List.reverse_eq_nil_iff.mp reversed) ne_nil
    | [b], breaks, _ =>
      simp [breaks b]
    | b :: d :: _, breaks, _ =>
      simp [breaks b, breaks d]
  | cons d tail =>
    have last : (d :: tail).reverse.getLast?.any isBreak = false := by
      rw [List.getLast?_reverse]
      exact stops
    obtain ⟨lead, core, front, framed, lead_breaks⟩ := exists_lead (by simp) last
    rw [front] at text
    refine .inr ⟨lead, core, ?_⟩
    match back, breaks, reversed, text with
    | [], _, reversed, text =>
      have strips : Chomping.ofText cs = .strip := by
        rw [Chomping.ofText, reversed]
        cases tail <;> simp [show isBreak d = false from stops]
      have open_end : closing cs = ['\n'] := by
        rw [closing, text, List.reverse_nil, List.append_nil, ← front, last]
        rfl
      refine ⟨'\n', [], framed, ?_, lead_breaks, by simp [isBreak], ?_⟩
      · rw [open_end, text, List.reverse_nil, List.append_nil, List.append_assoc]
      · rw [strips, text, List.reverse_nil, List.append_nil]
        rfl
    | [b], breaks, reversed, text =>
      have clips : Chomping.ofText cs = .clip := by
        rw [Chomping.ofText, reversed]
        simp [show isBreak d = false from stops, breaks b]
      have closed : closing cs = [] := by
        rw [closing, text, List.reverse_singleton, List.getLast?_concat, Option.any_some,
          breaks b List.mem_cons_self]
        rfl
      refine ⟨b, [], framed, ?_, lead_breaks, breaks, ?_⟩
      · rw [closed, text, List.append_nil, List.append_assoc]
        rfl
      · rw [clips, text]
        rfl
    | b :: e :: back, breaks, reversed, text =>
      have keeps : Chomping.ofText cs = .keep := by
        rw [Chomping.ofText, reversed]
        simp [breaks b, breaks e]
      have closed : closing cs = [] := by
        rw [closing, text, List.reverse_cons, ← List.append_assoc, List.getLast?_concat,
          Option.any_some, breaks b List.mem_cons_self]
        rfl
      obtain ⟨f, bs, turned⟩ := List.exists_cons_of_ne_nil
        (show (b :: e :: back).reverse ≠ [] by simp)
      rw [turned] at text
      refine ⟨f, bs, framed, ?_, lead_breaks, fun d hd => ?_, ?_⟩
      · rw [closed, text, List.append_nil, List.append_assoc]
      · exact breaks d (by rwa [← turned, List.mem_reverse] at hd)
      · rw [keeps, text]
        simp [Chomping.chomp]

/-! ## Blocks -/

section Blocks

variable {c : Cursor} {cs rest : List Char} {line column w k : Nat}

theorem Cursor.At.skipWhile_of_head {p : Char → Bool} {ch : Char} (hp : p ch = false)
    (h : c.At (ch :: rest) line column) : c.skipWhile p = c := by
  rw [Cursor.skipWhile, h.rest_eq, List.takeWhile_cons_of_neg (by simp [hp])]
  exact c.skip_zero

/-- The indentation that the header of a text gives. -/
def givenWidth (w : Nat) (cs : List Char) : Nat := if (widthMark cs).isEmpty then 0 else w + 2

/-- **Behind its header a block is its breaks, its lines and what is left of the breaks at their
end.** -/
theorem scanBlock_header (w : Nat) (h : c.At (blockMarks cs ++ '\n' :: rest) line column) :
    ∃ next : Cursor, next.At rest (line + 1) 0 ∧
      ∀ {widest : Nat} {breaks text first more : List Char} {after last : Cursor},
        blockBreaks (givenWidth w cs) next.rest.length 0 [] next = some (widest, breaks, after) →
        (givenWidth w cs = 0 → widest = w + 2) →
        blockLines true (w + 2) (after.rest.length + 1) [] [] breaks false after =
          some (text, first, more, last) →
        scanBlock true w c = some ((Chomping.ofText cs).chomp text first more, last) := by
  have skipped := h.skip
  obtain ⟨next, passed, there⟩ := skipped.skipBreak rfl
  refine ⟨next, there, fun {widest breaks text first more after last} collected found read => ?_⟩
  have stays : (c.skip (blockMarks cs).length).skipWhile isBlank = c.skip (blockMarks cs).length :=
    skipped.skipWhile_of_head rfl
  have given : (if (if (widthMark cs).isEmpty then 0 else 2) == 0 then 0
      else if 0 ≤ (w : Int) then (w : Int).toNat + (if (widthMark cs).isEmpty then 0 else 2)
      else if (widthMark cs).isEmpty then 0 else 2) = givenWidth w cs := by
    rw [givenWidth]
    cases (widthMark cs).isEmpty <;> simp
  have width : (if givenWidth w cs == 0 then max (max widest ((w : Int) + 1).toNat) 1
      else givenWidth w cs) = w + 2 := by
    split
    · next none =>
      rw [found (beq_iff_eq.mp none)]
      omega
    · next some =>
      rw [givenWidth] at some ⊢
      split at some
      · exact absurd rfl some
      · next filled => rw [if_neg filled]
  have uncommented : (('\n' :: rest).head? == some '#') = false := rfl
  rw [scanBlock, h.rest_eq, blockMarks_eq, blockHeader_marks, ← blockMarks_eq]
  simp only [Option.bind_eq_bind, Option.bind_some, stays, skipped.rest_eq, uncommented,
    Bool.false_eq_true, if_false, passed, given, collected, width, read, endsLine,
    show isBreak '\n' = true from rfl, Bool.not_true]
  rfl

theorem widthMark_breaks (ne_nil : cs ≠ []) (breaks : ∀ b ∈ cs, isBreak b = true) :
    widthMark cs = ['2'] := by
  obtain ⟨b, bs, rfl⟩ := List.exists_cons_of_ne_nil ne_nil
  simp [widthMark, breaks b]

/-- A line in front of which no width is given begins with something other than white space. -/
theorem Parts.beginsLine {lead core bs : List Char} {b : Char} (parts : Parts cs lead core b bs)
    (printable : ∀ ch ∈ cs, isPrintable ch = true) (ne_nil : cs ≠ []) (w : Nat)
    (head : rest.head? = core.head?) : BeginsLine (givenWidth w cs) (w + 2) rest := by
  have starts := parts.starts
  rw [givenWidth, widthMark]
  by_cases white : cs.head?.any (fun c => c == ' ' || isBreak c) = true
  · rw [if_pos white]
    exact .inr ⟨rfl, by omega, head ▸ starts⟩
  · obtain ⟨ch, core, rfl⟩ := List.exists_cons_of_ne_nil parts.ne_nil
    obtain ⟨d, ds, rfl⟩ := List.exists_cons_of_ne_nil ne_nil
    obtain ⟨rest, rfl⟩ := List.head?_eq_some_iff.mp head
    rw [List.head?_cons, Option.any_some, Bool.or_eq_true, not_or, beq_iff_eq,
      Bool.not_eq_true] at white
    -- The text begins with its first line, since it does not begin with a break.
    have first : d = ch := by
      have whole := parts.whole
      cases lead with
      | nil => exact (List.cons.inj whole).1
      | cons e lead =>
        have broken := parts.lead_breaks e List.mem_cons_self
        rw [← (List.cons.inj whole).1, white.2] at broken
        cases broken
    subst first
    refine .inl ⟨.cons (Bool.eq_false_of_not_eq_true fun space => ?_), .inl (by simp [white])⟩
    obtain blank | broken := blank_or_isKeptBreak (printable d List.mem_cons_self) space
    · exact white.1 blank
    · rw [isBreak_of_isKeptBreak broken] at white
      exact absurd white.2 Bool.noConfusion

theorem Parts.printable {lead core bs : List Char} {b : Char} (parts : Parts cs lead core b bs)
    (printable : ∀ ch ∈ cs, isPrintable ch = true) :
    ∀ ch ∈ lead ++ (core ++ b :: bs), isPrintable ch = true := by
  intro ch hch
  rw [← parts.whole] at hch
  obtain hch | hch := List.mem_append.mp hch
  · exact printable ch hch
  · rw [closing] at hch
    split at hch
    · cases hch
    · rw [List.mem_singleton.mp hch]
      rfl

/-- A block is written as its parts: no line but an empty one is without its indentation. -/
theorem Parts.indented_eq {lead core bs : List Char} {b : Char} (parts : Parts cs lead core b bs)
    (width : Nat) : indented width true cs ++ closing cs =
      lead ++ (blanks width ++ indented width false (core ++ b :: bs)) := by
  have closes : ∀ d ∈ closing cs, isBreak d = true := by
    rw [closing]
    split <;> simp [isBreak]
  have starts := parts.starts
  obtain ⟨ch, core, rfl⟩ := List.exists_cons_of_ne_nil parts.ne_nil
  rw [← indented_append_breaks closes, parts.whole, indented_breaks parts.lead_breaks,
    List.cons_append, indented_line starts]

/-- A block without a line is read as its breaks. -/
theorem scanBlock_breaks (ne_nil : cs ≠ []) (breaks : ∀ b ∈ cs, isBreak b = true)
    (keeps : Chomping.ofText cs = .keep) (printable : ∀ ch ∈ cs, isPrintable ch = true)
    (h : c.At (blockMarks cs ++ '\n' ::
      (indented (w + 2) true cs ++ closing cs ++ (blanks k ++ rest))) line column)
    (black : Black rest) (left : k < w + 2) :
    ∃ next line', scanBlock true w c = some (cs, next) ∧ next.At rest line' k ∧ line < line' := by
  obtain ⟨start, atStart, scanned⟩ := scanBlock_header w h
  have kept : ∀ b ∈ cs, isKeptBreak b = true := fun b hb =>
    isKeptBreak_of_isPrintable (breaks b hb) (printable b hb)
  have closed : closing cs = [] := by
    rw [closing, List.getLast?_eq_some_getLast ne_nil, Option.any_some,
      breaks _ (List.getLast_mem ne_nil)]
    rfl
  have given : givenWidth w cs = w + 2 := by
    rw [givenWidth, widthMark_breaks ne_nil breaks]
    rfl
  rw [closed, indented_of_breaks breaks, List.append_nil] at atStart
  have begins : BeginsLine (givenWidth w cs) k rest := .inl ⟨black, .inr (given ▸ left)⟩
  obtain ⟨next, collected, there⟩ := blockBreaks_breaks kept begins atStart
    (Nat.le_of_eq (congrArg List.length atStart.rest_eq.symm))
  refine ⟨next, _, ?_, there, by omega⟩
  rw [scanned collected (by omega) (blockLines_stop there left), keeps]
  rfl

/-- A block with a line is read as its parts. -/
theorem scanBlock_parts {lead core bs : List Char} {b : Char} (parts : Parts cs lead core b bs)
    (ne_nil : cs ≠ []) (printable : ∀ ch ∈ cs, isPrintable ch = true)
    (h : c.At (blockMarks cs ++ '\n' ::
      (indented (w + 2) true cs ++ closing cs ++ (blanks k ++ rest))) line column)
    (black : Black rest) (left : k < w + 2) :
    ∃ next line', scanBlock true w c = some (cs, next) ∧ next.At rest line' k ∧ line < line' := by
  obtain ⟨start, atStart, scanned⟩ := scanBlock_header w h
  have shown := parts.printable printable
  have keptOf {d : Char} (broken : isBreak d = true) (mem : d ∈ lead ++ (core ++ b :: bs)) :
      isKeptBreak d = true := isKeptBreak_of_isPrintable broken (shown d mem)
  rw [parts.indented_eq, List.append_assoc, List.append_assoc] at atStart
  have begins : BeginsLine (givenWidth w cs) (w + 2)
      (indented (w + 2) false (core ++ b :: bs) ++ (blanks k ++ rest)) := by
    refine parts.beginsLine printable ne_nil w ?_
    have starts := parts.starts
    obtain ⟨ch, core, rfl⟩ := List.exists_cons_of_ne_nil parts.ne_nil
    rw [List.cons_append, indented_of_not_isBreak starts]
    rfl
  obtain ⟨after, collected, atAfter⟩ :=
    blockBreaks_breaks (fun d hd => keptOf (parts.lead_breaks d hd) (by simp [hd])) begins atStart
      (Nat.le_of_eq (congrArg List.length atStart.rest_eq.symm))
  have enough : core.length ≤ after.rest.length + 1 := by
    have spelled := length_le_indented (w + 2) false (core ++ b :: bs)
    rw [atAfter.rest_eq]
    rw [List.length_append] at spelled ⊢
    omega
  obtain ⟨next, line', read, there, later⟩ :=
    blockLines_lines parts.toFramed (fun ch hch => shown ch (by simp [hch]))
      (keptOf (parts.breaks b List.mem_cons_self) (by simp))
      (fun d hd => keptOf (parts.breaks d (List.mem_cons_of_mem _ hd)) (by simp [hd])) black left
      atAfter enough
  refine ⟨next, line', ?_, there, by omega⟩
  rw [scanned collected (fun _ => Nat.zero_max _) read]
  exact congrArg (fun text => some (text, next)) parts.chomped

/-- **A block is read as the text it was written for**, up to a line that is indented less. -/
theorem scanBlock_literal (ne_nil : cs ≠ []) (shown : Shown cs)
    (h : c.At (blockMarks cs ++ '\n' ::
      (indented (w + 2) true cs ++ closing cs ++ (blanks k ++ rest))) line column)
    (black : Black rest) (left : k < w + 2) :
    ∃ next line', scanBlock true w c = some (cs, next) ∧ next.At rest line' k ∧ line < line' := by
  obtain ⟨breaks, keeps⟩ | ⟨lead, core, b, bs, parts⟩ := exists_parts ne_nil
  · exact scanBlock_breaks ne_nil breaks keeps shown.printable h black left
  · exact scanBlock_parts parts ne_nil shown.printable h black left

end Blocks

end TreeBroker.Yaml
