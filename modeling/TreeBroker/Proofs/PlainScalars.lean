import Mathlib
import TreeBroker.Yaml.Printer

/-!
# Scalars that are written as they are

A scalar without quotes ends where something else could begin: in front of a comment, behind
a colon that ends a key, or at a line that is indented too little. The printer leaves quotes
away when a text holds none of these marks, and the reader never looks for marks in a whole
text. It reads a word, then the white space behind it, and goes on from there.

Between the two stands a description of texts that neither of them has: words with blanks
between them (`Words`). A text without marks is made of words (`words_of_fitsPlain`), and words
are read up to the end of their line, one word and one gap at a time (`scanPlain_words`). What
becomes of white space is said here once for scalars of every kind (`scanGap_blanks`,
`scanGap_breaks`), and so is where a cursor is (`Cursor.At`): nearly every decision of the
reader depends on a column.
-/

namespace TreeBroker.Yaml

/-! ## Characters -/

/-- The text goes on with something other than white space, or ends. -/
def Black (cs : List Char) : Prop := ∀ c ∈ cs.head?, isSpace c = false

theorem Black.nil : Black [] := by simp [Black]

theorem Black.cons {c : Char} {cs : List Char} (h : isSpace c = false) : Black (c :: cs) := by
  simpa [Black] using h

theorem Black.head {c : Char} {cs : List Char} (h : Black (c :: cs)) : isSpace c = false :=
  h c rfl

theorem Black.append {cs ds : List Char} (hc : Black cs) (hd : Black ds) : Black (cs ++ ds) := by
  cases cs with
  | nil => exact hd
  | cons c cs => exact .cons hc.head

/-- The breaks that are written as themselves. -/
def isKeptBreak (c : Char) : Bool := isBreak c && isPrintable c

theorem isKeptBreak_iff {c : Char} :
    isKeptBreak c = true ↔ c = '\n' ∨ c = '\u2028' ∨ c = '\u2029' := by
  constructor
  · intro h
    rw [isKeptBreak, Bool.and_eq_true] at h
    obtain ⟨isBreak, printable⟩ := h
    simp only [Yaml.isBreak, Bool.or_eq_true, beq_iff_eq] at isBreak
    obtain (((rfl | rfl) | rfl) | rfl) | rfl := isBreak
    · exact .inl rfl
    · cases printable
    · cases printable
    · exact .inr (.inl rfl)
    · exact .inr (.inr rfl)
  · rintro (rfl | rfl | rfl) <;> rfl

theorem isBreak_of_isKeptBreak {c : Char} (h : isKeptBreak c = true) : isBreak c = true :=
  (Bool.and_eq_true _ _ ▸ h).1

theorem isKeptBreak_of_isPrintable {c : Char} (broken : isBreak c = true)
    (printable : isPrintable c = true) : isKeptBreak c = true := by
  rw [isKeptBreak, broken, printable]
  rfl

theorem isBlank_of_isKeptBreak {c : Char} (h : isKeptBreak c = true) : isBlank c = false := by
  obtain rfl | rfl | rfl := isKeptBreak_iff.mp h <;> rfl

/-! ## Cursors -/

theorem Cursor.skip_zero (c : Cursor) : c.skip 0 = c := by
  simp [Cursor.skip, Cursor.width]

/-- **A cursor stands in front of a text**, at a line and a column. -/
structure Cursor.At (c : Cursor) (rest : List Char) (line column : Nat) : Prop where
  /-- What follows. -/
  rest_eq : c.rest = rest
  /-- The line. -/
  line_eq : c.line = line
  /-- The column. -/
  column_eq : c.column = column

namespace Cursor.At

variable {c : Cursor} {rest : List Char} {line column : Nat}

theorem skip {cs : List Char} (h : c.At (cs ++ rest) line column) :
    (c.skip cs.length).At rest line (column + cs.length) where
  rest_eq := by rw [Cursor.skip, h.rest_eq, List.drop_left]
  line_eq := h.line_eq
  column_eq := congrArg (· + cs.length) h.column_eq

theorem skip_one {ch : Char} (h : c.At (ch :: rest) line column) :
    (c.skip 1).At rest line (column + 1) :=
  @skip c rest line column [ch] h

theorem skipBreak {b : Char} (hb : isKeptBreak b = true) (h : c.At (b :: rest) line column) :
    ∃ next, c.skipBreak = ([b], next) ∧ next.At rest (line + 1) 0 := by
  rw [Cursor.skipBreak, h.rest_eq]
  obtain rfl | rfl | rfl := isKeptBreak_iff.mp hb
  · exact ⟨_, rfl, rfl, congrArg (· + 1) h.line_eq, rfl⟩
  · exact ⟨_, rfl, rfl, congrArg (· + 1) h.line_eq, rfl⟩
  · exact ⟨_, rfl, rfl, congrArg (· + 1) h.line_eq, rfl⟩

theorem not_atDocumentMark (h : c.At rest line column) (hc : column ≠ 0) :
    c.atDocumentMark = false := by
  rw [Cursor.atDocumentMark, h.column_eq, beq_false_of_ne hc, Bool.false_and]

end Cursor.At

/-! ## Gaps -/

section Gaps

variable (margin : Option Int) {c : Cursor} {first more bs rest : List Char}
  {line column fuel n : Nat}

theorem scanGap_stop {g : Gap} (h : c.At rest line column) (black : Black rest) :
    scanGap margin fuel g c = some (g, c) := by
  cases fuel with
  | zero => rfl
  | succ fuel =>
    rw [scanGap, h.rest_eq]
    cases rest with
    | nil => rfl
    | cons ch rest =>
      have hch := black.head
      rw [isSpace, Bool.or_eq_false_iff] at hch
      simp [hch]

/-- Blanks on a line belong to the gap. -/
theorem scanGap_blanks (bl : List Char) (h : c.At (blanks n ++ rest) line column)
    (black : Black rest) (enough : n ≤ fuel) :
    ∃ next, scanGap margin fuel { blanks := bl } c = some ({ blanks := bl ++ blanks n }, next) ∧
      next.At rest line (column + n) := by
  induction n generalizing bl c column fuel with
  | zero =>
    refine ⟨c, ?_, h⟩
    rw [scanGap_stop margin h black, blanks, List.replicate_zero, List.append_nil]
  | succ n ih =>
    obtain _ | fuel := fuel
    · cases enough
    · have step : scanGap margin (fuel + 1) { blanks := bl } c =
          scanGap margin fuel { blanks := bl ++ [' '] } (c.skip 1) := by
        rw [scanGap, h.rest_eq]
        rfl
      obtain ⟨next, scanned, there⟩ := ih (bl ++ [' ']) h.skip_one (Nat.le_of_succ_le_succ enough)
      refine ⟨next, ?_, by rwa [Nat.add_assoc, Nat.add_comm 1] at there⟩
      rw [step, scanned, List.append_assoc]
      rfl

/-- Blanks that begin a line do not belong to the gap. -/
theorem scanGap_indent (h : c.At (blanks n ++ rest) line column) (black : Black rest)
    (enough : n ≤ fuel) :
    ∃ next, scanGap margin fuel ⟨true, [], first, more⟩ c = some (⟨true, [], first, more⟩, next) ∧
      next.At rest line (column + n) := by
  induction n generalizing c column fuel with
  | zero => exact ⟨c, scanGap_stop margin h black, h⟩
  | succ n ih =>
    obtain _ | fuel := fuel
    · cases enough
    · have step : scanGap margin (fuel + 1) ⟨true, [], first, more⟩ c =
          scanGap margin fuel ⟨true, [], first, more⟩ (c.skip 1) := by
        rw [scanGap, h.rest_eq]
        rfl
      obtain ⟨next, scanned, there⟩ := ih h.skip_one (Nat.le_of_succ_le_succ enough)
      refine ⟨next, ?_, by rwa [Nat.add_assoc, Nat.add_comm 1] at there⟩
      rw [step, scanned]

/-- A break is passed. -/
theorem scanGap_break {b : Char} {g : Gap} (hb : isKeptBreak b = true)
    (h : c.At (b :: rest) line column) :
    ∃ next, scanGap margin (fuel + 1) g c =
        scanGap margin fuel
          (if g.broken then { g with more := g.more ++ [b] }
            else { g with broken := true, blanks := [], first := [b] }) next ∧
      next.At rest (line + 1) 0 := by
  obtain ⟨next, passed, there⟩ := h.skipBreak hb
  refine ⟨next, ?_, there⟩
  rw [scanGap, h.rest_eq]
  dsimp only
  rw [isBlank_of_isKeptBreak hb, isBreak_of_isKeptBreak hb, if_neg Bool.false_ne_true, if_pos rfl,
    passed]
  cases g.broken <;> rfl

/-- Breaks behind the first one. -/
theorem scanGap_more (hbs : ∀ b ∈ bs, isKeptBreak b = true)
    (h : c.At (bs ++ (blanks n ++ rest)) line 0) (black : Black rest)
    (enough : bs.length + n ≤ fuel) :
    ∃ next, scanGap margin fuel ⟨true, [], first, more⟩ c =
        some (⟨true, [], first, more ++ bs⟩, next) ∧
      next.At rest (line + bs.length) n := by
  induction bs generalizing c more line fuel with
  | nil =>
    obtain ⟨next, scanned, there⟩ := scanGap_indent margin h black (by simpa using enough)
    exact ⟨next, by rw [scanned, List.append_nil], by rwa [Nat.zero_add] at there⟩
  | cons b bs ih =>
    obtain _ | fuel := fuel
    · simp at enough
    · have left : bs.length + n ≤ fuel := by
        rw [List.length_cons] at enough
        omega
      obtain ⟨after, step, atAfter⟩ := scanGap_break margin (hbs b List.mem_cons_self) h
      obtain ⟨next, scanned, there⟩ :=
        ih (fun b' hb' => hbs b' (List.mem_cons_of_mem _ hb')) atAfter left
      refine ⟨next, ?_, by rwa [Nat.add_assoc, Nat.add_comm 1] at there⟩
      rw [step]
      exact scanned.trans (by rw [List.append_assoc]; rfl)

/-- **A gap of breaks** ends on the line of what follows. -/
theorem scanGap_breaks (bl : List Char) {b : Char} (hb : isKeptBreak b = true)
    (hbs : ∀ b ∈ bs, isKeptBreak b = true)
    (h : c.At (b :: (bs ++ (blanks n ++ rest))) line column) (black : Black rest)
    (enough : bs.length + n + 1 ≤ fuel) :
    ∃ next, scanGap margin fuel { blanks := bl } c = some (⟨true, [], [b], bs⟩, next) ∧
      next.At rest (line + 1 + bs.length) n := by
  obtain _ | fuel := fuel
  · simp at enough
  · obtain ⟨after, step, atAfter⟩ := scanGap_break margin hb h
    obtain ⟨next, scanned, there⟩ :=
      scanGap_more margin hbs atAfter black (Nat.le_of_succ_le_succ enough)
    refine ⟨next, ?_, there⟩
    rw [step]
    exact scanned

end Gaps

/-! ## Plain scalars -/

/-- **A word of a plain scalar**: it does not begin a comment and does not end a key. -/
structure IsWord (w : List Char) : Prop where
  /-- There is something of it. -/
  ne_nil : w ≠ []
  /-- It holds no white space. -/
  black : ∀ c ∈ w, isSpace c = false
  /-- It does not begin a comment. -/
  head_ne : w.head? ≠ some '#'
  /-- It does not end a key. -/
  last_ne : w.getLast? ≠ some ':'

theorem IsWord.exists_cons {w : List Char} (h : IsWord w) :
    ∃ c cs, w = c :: cs ∧ isSpace c = false ∧ c ≠ '#' := by
  obtain ⟨c, cs, rfl⟩ := List.exists_cons_of_ne_nil h.ne_nil
  exact ⟨c, cs, rfl, h.black c List.mem_cons_self, fun hc => h.head_ne (by rw [hc]; rfl)⟩

/-- **Words with blanks between them.** -/
inductive Words : List Char → Prop
  /-- The last one. -/
  | last {w : List Char} (word : IsWord w) : Words w
  /-- One more in front. -/
  | cons {w cs : List Char} (n : Nat) (word : IsWord w) (words : Words cs) :
      Words (w ++ (blanks (n + 1) ++ cs))

theorem Words.black {cs : List Char} (h : Words cs) (rest : List Char) : Black (cs ++ rest) := by
  cases h with
  | last word =>
    obtain ⟨c, cs, rfl, hc, -⟩ := word.exists_cons
    exact .cons hc
  | cons n word words =>
    obtain ⟨c, cs, rfl, hc, -⟩ := word.exists_cons
    exact .cons hc

theorem plainWord_of_endsWord {rest : List Char} (h : endsWord rest = true) :
    plainWord false rest = some [] := by
  cases rest with
  | nil => rfl
  | cons c rest =>
    rw [plainWord]
    exact if_pos h

/-- A word ends where the text goes on with something that ends it. -/
theorem plainWord_append {w rest : List Char} (black : ∀ c ∈ w, isSpace c = false)
    (last_ne : w.getLast? ≠ some ':') (stop : plainWord false rest = some []) :
    plainWord false (w ++ rest) = some w := by
  induction w with
  | nil => exact stop
  | cons c w ih =>
    have later : w.getLast? ≠ some ':' := by
      intro hw
      exact last_ne (by rw [List.getLast?_cons, hw]; rfl)
    -- A colon ends the word only before white space or the end, and neither is next.
    have inside : (c == ':' && endsWord (w ++ rest)) = false := by
      cases w with
      | nil =>
        have hc : c ≠ ':' := fun hc => last_ne (by rw [hc]; rfl)
        rw [beq_false_of_ne hc, Bool.false_and]
      | cons d w =>
        show (c == ':' && isSpace d) = false
        rw [black d (List.mem_cons_of_mem _ List.mem_cons_self), Bool.and_false]
    rw [List.cons_append, plainWord, black c List.mem_cons_self, inside,
      ih (fun d hd => black d (List.mem_cons_of_mem _ hd)) later]
    rfl

section Plain

variable {margin : Int} {c : Cursor} {w text bl rest cs : List Char} {line column fuel k : Nat}

/-- **A word and the gap behind it.** -/
theorem scanPlain_word (word : IsWord w) (h : c.At (w ++ rest) line column) (hc : column ≠ 0)
    (ends : rest.head?.any isSpace = true) :
    scanPlain false margin (fuel + 1) text { blanks := bl } c =
      match scanGap (some margin) rest.length {} (c.skip w.length) with
      | none => none
      | some (gap, next) =>
        if (next.column : Int) < margin then some (text ++ bl ++ w, gap.broken, next)
        else scanPlain false margin fuel (text ++ bl ++ w) gap next := by
  have stop : plainWord false rest = some [] := by
    cases rest with
    | nil => rfl
    | cons d rest => exact plainWord_of_endsWord ends
  have comment : (c.rest.head? == some '#') = false := by
    obtain ⟨d, ds, rfl, -, hd⟩ := word.exists_cons
    rw [h.rest_eq]
    simpa using hd
  have filled : w.isEmpty = false := by
    rw [List.isEmpty_eq_false_iff]
    exact word.ne_nil
  rw [scanPlain, h.not_atDocumentMark hc, comment, h.rest_eq,
    plainWord_append word.black word.last_ne stop]
  dsimp only
  rw [filled, h.skip.rest_eq, ends]
  simp only [Bool.or_self, Bool.false_eq_true, if_false, if_true]
  cases scanGap (some margin) rest.length {} (c.skip w.length) with
  | none => rfl
  | some found => simp only [Bool.not_false, Bool.true_and, decide_eq_true_eq, Gap.fold, if_true]

/-- **A plain scalar is read to the end of its line.** -/
theorem scanPlain_words (words : Words cs) (h : c.At (cs ++ '\n' :: (blanks k ++ rest)) line column)
    (black : Black rest) (hc : column ≠ 0) (right : margin ≤ column) (left : (k : Int) < margin)
    (enough : cs.length ≤ fuel) :
    ∃ next, scanPlain false margin fuel text { blanks := bl } c =
        some (text ++ bl ++ cs, true, next) ∧ next.At rest (line + 1) k := by
  induction words generalizing c text bl column fuel with
  | @last w word =>
    obtain _ | fuel := fuel
    · exact absurd (List.length_eq_zero_iff.mp (Nat.le_zero.mp enough)) word.ne_nil
    · have room : ([] : List Char).length + k + 1 ≤ ('\n' :: (blanks k ++ rest)).length := by
        simp [blanks]
      obtain ⟨next, gap, there⟩ :=
        scanGap_breaks (some margin) [] (b := '\n') rfl (by simp) h.skip black room
      refine ⟨next, ?_, there⟩
      rw [scanPlain_word word h hc rfl, gap]
      dsimp only
      rw [there.column_eq, if_pos left]
  | @cons w cs n word words ih =>
    rw [List.length_append, List.length_append] at enough
    have filled : 0 < w.length := List.length_pos_iff.mpr word.ne_nil
    obtain _ | fuel := fuel
    · omega
    · rw [List.append_assoc, List.append_assoc] at h
      have room : n + 1 ≤ (blanks (n + 1) ++ (cs ++ '\n' :: (blanks k ++ rest))).length := by
        simp [blanks]
      obtain ⟨after, gap, atAfter⟩ := scanGap_blanks (some margin) [] h.skip (words.black _) room
      have fewer : cs.length ≤ fuel := by omega
      obtain ⟨next, scanned, there⟩ := ih atAfter (by omega) (by omega) fewer
      refine ⟨next, ?_, there⟩
      rw [scanPlain_word word h hc rfl, gap]
      dsimp only
      rw [atAfter.column_eq, if_neg (by omega), scanned]
      simp [List.append_assoc]

end Plain

/-! ## Texts without marks -/

theorem exists_blanks (cs : List Char) :
    ∃ n ds, cs = blanks n ++ ds ∧ ds.head? ≠ some ' ' := by
  induction cs with
  | nil => exact ⟨0, [], rfl, nofun⟩
  | cons c cs ih =>
    by_cases hc : c = ' '
    · obtain ⟨n, ds, rfl, hds⟩ := ih
      exact ⟨n + 1, ds, by rw [hc]; rfl, hds⟩
    · exact ⟨0, c :: cs, rfl, fun h => hc (Option.some.inj h)⟩

theorem cons_blanks_append (n : Nat) (ds : List Char) :
    ' ' :: (blanks n ++ ds) = blanks n ++ ' ' :: ds := by
  induction n with
  | zero => rfl
  | succ n ih => exact congrArg (' ' :: ·) ih

theorem holdsPair_of_append {p q : Char → Bool} {cs ds : List Char}
    (h : holdsPair p q (cs ++ ds) = false) : holdsPair p q ds = false := by
  induction cs with
  | nil => exact h
  | cons c cs ih =>
    refine ih ?_
    rw [List.cons_append] at h
    generalize cs ++ ds = es at h
    cases es with
    | nil => rfl
    | cons e es =>
      rw [holdsPair, Bool.or_eq_false_iff] at h
      exact h.2

theorem not_pair_of_holdsPair {p q : Char → Bool} {cs ds : List Char} {c d : Char}
    (h : holdsPair p q (cs ++ c :: d :: ds) = false) (hc : p c = true) : q d = false := by
  have here := holdsPair_of_append h
  rw [holdsPair, hc, Bool.or_eq_false_iff, Bool.true_and] at here
  exact here.1

/-- **A text that single quotes can hold**: every character can be shown, and no blank is next
to a break. -/
structure Shown (cs : List Char) : Prop where
  /-- Every character can be shown. -/
  printable : ∀ c ∈ cs, isPrintable c = true
  /-- No break is behind a blank. -/
  blank_break : holdsPair (· == ' ') isBreak cs = false

theorem not_isAwkward_iff {cs : List Char} : isAwkward cs = false ↔ Shown cs := by
  rw [isAwkward, Bool.or_eq_false_iff, List.any_eq_false]
  constructor
  · rintro ⟨printable, apart⟩
    exact ⟨fun c hc => by simpa using printable c hc, apart⟩
  · rintro ⟨printable, apart⟩
    exact ⟨fun c hc => by simpa using printable c hc, apart⟩

theorem Shown.of_append {cs ds : List Char} (h : Shown (cs ++ ds)) : Shown ds where
  printable c hc := h.printable c (List.mem_append_right _ hc)
  blank_break := holdsPair_of_append h.blank_break

theorem fitsSingle_iff {cs : List Char} :
    fitsSingle cs = true ↔ Shown cs ∧ holdsPair isBreak (· == ' ') cs = false := by
  rw [fitsSingle, Bool.and_eq_true, Bool.not_eq_true', Bool.not_eq_true', not_isAwkward_iff]

/-- White space that can be shown is a blank or a break that is kept. -/
theorem blank_or_isKeptBreak {c : Char} (printable : isPrintable c = true)
    (space : isSpace c = true) : c = ' ' ∨ isKeptBreak c = true := by
  rw [isSpace, Bool.or_eq_true, isBlank, Bool.or_eq_true, beq_iff_eq, beq_iff_eq] at space
  obtain (rfl | rfl) | hc := space
  · exact .inl rfl
  · cases printable
  · exact .inr (isKeptBreak_of_isPrintable hc printable)

theorem exists_breaks (cs : List Char) :
    ∃ bs ds, cs = bs ++ ds ∧ (∀ b ∈ bs, isBreak b = true) ∧ ds.head?.any isBreak = false := by
  induction cs with
  | nil => exact ⟨[], [], rfl, nofun, rfl⟩
  | cons c cs ih =>
    by_cases hc : isBreak c = true
    · obtain ⟨bs, ds, rfl, hbs, hds⟩ := ih
      exact ⟨c :: bs, ds, rfl, List.forall_mem_cons.mpr ⟨hc, hbs⟩, hds⟩
    · exact ⟨[], c :: cs, rfl, nofun, Bool.eq_false_of_not_eq_true hc⟩

theorem holdsMark_of_append {cs ds : List Char} (h : holdsMark (cs ++ ds) = false) :
    holdsMark ds = false := by
  induction cs with
  | nil => exact h
  | cons c cs ih =>
    refine ih ?_
    rw [List.cons_append] at h
    generalize cs ++ ds = es at h
    cases es with
    | nil => rfl
    | cons e es =>
      rw [holdsMark, Bool.or_eq_false_iff] at h
      exact h.2

theorem not_mark_of_holdsMark {cs ds : List Char} {c d : Char}
    (h : holdsMark (cs ++ c :: d :: ds) = false) :
    (c == ':' && isSpace d) = false ∧ (isSpace c && d == '#') = false := by
  have here := holdsMark_of_append h
  rw [holdsMark, Bool.or_eq_false_iff, Bool.or_eq_false_iff] at here
  exact here.1

theorem isWord_of_unmarked {w : List Char} (rest : List Char) (ne_nil : w ≠ [])
    (spaces : ∀ c ∈ w, isSpace c = true → c = ' ') (blank : ' ' ∉ w)
    (head_ne : (w ++ rest).head? ≠ some '#') (ends : endsWord rest = true)
    (unmarked : holdsMark (w ++ rest) = false) : IsWord w where
  ne_nil := ne_nil
  black := by
    intro c hc
    by_contra space
    exact blank (spaces c hc (Bool.eq_true_of_not_eq_false space) ▸ hc)
  head_ne := by rwa [List.head?_append_of_ne_nil _ ne_nil] at head_ne
  last_ne := by
    intro last
    obtain ⟨ds, rfl⟩ := List.getLast?_eq_some_iff.mp last
    rw [List.append_assoc] at unmarked
    cases rest with
    | nil => cases holdsMark_of_append unmarked
    | cons d rest =>
      have mark := (not_mark_of_holdsMark unmarked).1
      rw [show isSpace d = true from ends] at mark
      cases mark

/-- **A text without marks is made of words.** -/
theorem words_of_unmarked {cs : List Char} (ne_nil : cs ≠ [])
    (spaces : ∀ c ∈ cs, isSpace c = true → c = ' ') (head_ne : cs.head? ≠ some ' ')
    (comment : cs.head? ≠ some '#') (last_ne : cs.getLast? ≠ some ' ')
    (unmarked : holdsMark cs = false) : Words cs := by
  induction hn : cs.length using Nat.strong_induction_on generalizing cs with
  | _ n ih =>
    subst hn
    by_cases blank : ' ' ∈ cs
    · obtain ⟨w, r, rfl, hw⟩ := List.eq_append_cons_of_mem blank
      obtain ⟨n, ds, rfl, hds⟩ := exists_blanks r
      have filled : w ≠ [] := by
        rintro rfl
        exact head_ne rfl
      refine .cons n (isWord_of_unmarked _ filled
        (fun c hc => spaces c (List.mem_append_left _ hc)) hw comment rfl unmarked) ?_
      rw [cons_blanks_append, ← List.append_assoc] at *
      have ending : ds ≠ [] := by
        rintro rfl
        exact last_ne List.getLast?_concat
      have within : w ++ blanks n ++ ' ' :: ds = (w ++ blanks n ++ [' ']) ++ ds := by
        rw [List.append_assoc _ [' '], List.singleton_append]
      refine ih ds.length ?_ ending
        (fun c hc => spaces c (within ▸ List.mem_append_right _ hc)) hds (fun head => ?_) ?_ ?_ rfl
      · rw [within, List.length_append, List.length_append]
        simp
      · obtain ⟨d, ds, rfl⟩ := List.exists_cons_of_ne_nil ending
        cases head
        cases (not_mark_of_holdsMark unmarked).2
      · rwa [within, List.getLast?_append_of_ne_nil _ ending] at last_ne
      · rw [within] at unmarked
        exact holdsMark_of_append unmarked
    · refine .last (isWord_of_unmarked [] ne_nil spaces blank ?_ rfl ?_)
      · rwa [List.append_nil]
      · rwa [List.append_nil]

theorem fitsPlain_iff {cs : List Char} : fitsPlain cs = true ↔
    fitsSingle cs = true ∧ cs.any isBreak = false ∧ cs.head? ≠ some ' ' ∧ cs.getLast? ≠ some ' ' ∧
      beginsMarked cs = false ∧ holdsMark cs = false := by
  simp [fitsPlain, and_assoc]

theorem words_of_fitsPlain {cs : List Char} (ne_nil : cs ≠ []) (fits : fitsPlain cs = true) :
    Words cs := by
  obtain ⟨single, unbroken, head_ne, last_ne, unmarked, pure⟩ := fitsPlain_iff.mp fits
  refine words_of_unmarked ne_nil (fun c hc space => ?_) head_ne (fun head => ?_) last_ne pure
  · have printable := (fitsSingle_iff.mp single).1.printable c hc
    obtain rfl | broken := blank_or_isKeptBreak printable space
    · rfl
    · exact absurd (isBreak_of_isKeptBreak broken) (List.any_eq_false.mp unbroken c hc)
  · obtain ⟨c, cs, rfl⟩ := List.exists_cons_of_ne_nil ne_nil
    cases head
    cases unmarked

end TreeBroker.Yaml
