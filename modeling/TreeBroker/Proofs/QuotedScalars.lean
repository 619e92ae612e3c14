import Mathlib
import TreeBroker.Proofs.PlainScalars

/-!
# Scalars in quotes

Between quotes a text is not written as it is. A single quote is doubled, what cannot be shown
is escaped, and a break is followed by the indentation of the line that it begins. Reading
undoes all of this, but it also folds white space: a newline between two words is read as
a blank, and blanks beside a break are lost. So a text is given back only if the printer puts
nothing between the quotes that would be folded.

`Spells` lists what may stand there for a text, piece by piece, with white space as a piece of
its own that reaches up to the next character that is not white. Whatever spells a text is read
back as it (`scanQuoted_spells`), and both printers spell: the one for double quotes any text
(`spells_double`), since every character has an escape that is read as it (`escapes_escape`),
the one for single quotes the texts that it is used for (`spells_single`).
-/

namespace TreeBroker.Yaml

/-! ## Escapes -/

/-- A digit behind a number in base sixteen. -/
def pushDigit (acc : Option Nat) (c : Char) : Option Nat := do
  let n ← acc
  let d ← Ascii.digitValue? c
  return n * 16 + d

theorem digitValue?_digitChar : ∀ d < 16, Ascii.digitValue? d.digitChar.toUpper = some d := by
  decide

theorem foldl_pushDigit_toDigits (n : Nat) :
    ((Nat.toDigits 16 n).map Char.toUpper).foldl pushDigit (some 0) = some n := by
  induction n using Nat.strong_induction_on with
  | _ n ih =>
    rw [Nat.toDigits_eq_if (by decide)]
    split
    · next small =>
      show pushDigit (some 0) n.digitChar.toUpper = some n
      simp [pushDigit, digitValue?_digitChar n small]
    · next large =>
      have digit := digitValue?_digitChar (n % 16) (Nat.mod_lt _ (by decide))
      rw [List.map_append, List.foldl_append, ih (n / 16) (by omega)]
      show pushDigit (some (n / 16)) (n % 16).digitChar.toUpper = some n
      simp only [pushDigit, digit, Option.bind_eq_bind, Option.bind_some, Option.pure_def]
      rw [Nat.div_add_mod' n 16]

theorem foldl_pushDigit_zeros (k : Nat) :
    (List.replicate k '0').foldl pushDigit (some 0) = some 0 := by
  induction k with
  | zero => rfl
  | succ k ih => exact ih

theorem length_hexDigits {width n : Nat} (pos : 0 < width) (h : n < 16 ^ width) :
    (hexDigits width n).length = width := by
  have le := (Nat.length_toDigits_le_iff (by decide) pos).mpr h
  simp only [hexDigits, List.length_append, List.length_replicate, List.length_map]
  omega

/-- **Digits spell the number** that they were made from. -/
theorem hexNumber?_hexDigits {width n : Nat} (pos : 0 < width) (h : n < 16 ^ width)
    (rest : List Char) : hexNumber? width (hexDigits width n ++ rest) = some n := by
  have length := length_hexDigits pos h
  have front : (hexDigits width n ++ rest).take width = hexDigits width n := by
    rw [← length, length, List.take_left' length]
  rw [hexNumber?, front, length, if_neg (Nat.lt_irrefl _)]
  show (hexDigits width n).foldl pushDigit (some 0) = some n
  rw [hexDigits, List.foldl_append, foldl_pushDigit_zeros, foldl_pushDigit_toDigits]

/-- **A code point is read as the character** that has it. -/
theorem codePoint?_hexDigits {width : Nat} (pos : 0 < width) {c : Char}
    (h : c.toNat < 16 ^ width) (rest : List Char) :
    (hexNumber? width (hexDigits width c.toNat ++ rest)).bind codePoint? = some c := by
  have valid : c.toNat.isValidChar := c.valid
  rw [hexNumber?_hexDigits pos h, Option.bind_some, codePoint?, if_pos valid, Char.ofNat_toNat]

/-- What stands behind a backslash is read as a character, whatever follows. -/
def Escapes (c : Char) (spelled : List Char) : Prop :=
  ∀ rest, escape? (spelled ++ rest) = some (c, spelled.length)

theorem Escapes.of_toNat {c : Char} {n : Nat} {spelled : List Char} (h : (c.toNat == n) = true)
    (known : Escapes (Char.ofNat n) spelled) : Escapes c spelled := by
  rwa [← beq_iff_eq.mp h, Char.ofNat_toNat] at known

theorem Escapes.of_hexDigits {c : Char} {mark : Char} {width : Nat} (pos : 0 < width)
    (h : c.toNat < 16 ^ width)
    (known : ∀ cs, escape? (mark :: cs) =
      ((hexNumber? width cs).bind codePoint?).map fun c => (c, width + 1)) :
    Escapes c (mark :: hexDigits width c.toNat) := by
  intro rest
  rw [List.cons_append, known, codePoint?_hexDigits pos h, List.length_cons,
    length_hexDigits pos h]
  rfl

theorem escape?_digits (cs : List Char) (width : Nat) :
    (do some (← codePoint? (← hexNumber? width cs), width + 1)) =
      ((hexNumber? width cs).bind codePoint?).map fun c => (c, width + 1) := by
  cases hexNumber? width cs with
  | none => rfl
  | some n =>
    show ((codePoint? n).bind fun c => some (c, width + 1)) = (codePoint? n).map _
    cases codePoint? n <;> rfl

theorem toNat_lt (c : Char) : c.toNat < 16 ^ 8 := by
  obtain small | ⟨-, small⟩ := c.valid
  · exact Nat.lt_trans small (by decide)
  · exact Nat.lt_trans small (by decide)

/-- **An escape is read as the character** that it was made from. -/
theorem escapes_escape (c : Char) : Escapes c (escape c) := by
  unfold escape
  iterate 15 refine iteInduction (fun h => Escapes.of_toNat h fun _ => rfl) fun _ => ?_
  refine iteInduction (fun h => ?_) fun _ => iteInduction (fun h => ?_) fun _ => ?_
  · exact .of_hexDigits (by decide) (Nat.lt_succ_of_le h) fun cs => escape?_digits cs 2
  · exact .of_hexDigits (by decide) (Nat.lt_succ_of_le h) fun cs => escape?_digits cs 4
  · exact .of_hexDigits (by decide) (toNat_lt c) fun cs => escape?_digits cs 8

/-! ## Scalars in quotes -/

/-- **What stands between quotes for a text.** -/
inductive Spells (quote : Char) (width : Nat) : (text spelled : List Char) → Prop
  /-- Nothing stands for nothing. -/
  | nil : Spells quote width [] []
  /-- A single quote is doubled. -/
  | doubled {cs out : List Char} (hq : quote = '\'') (h : Spells quote width cs out) :
      Spells quote width ('\'' :: cs) ('\'' :: '\'' :: out)
  /-- Any character may be escaped between double quotes. -/
  | escaped {c : Char} {cs out : List Char} (hq : quote = '"') (h : Spells quote width cs out) :
      Spells quote width (c :: cs) ('\\' :: (escape c ++ out))
  /-- A character stands for itself. -/
  | char {c : Char} {cs out : List Char} (black : isSpace c = false) (ne : c ≠ quote)
      (unescaped : quote = '"' → c ≠ '\\') (h : Spells quote width cs out) :
      Spells quote width (c :: cs) (c :: out)
  /-- Blanks stand for themselves where no break is next to them. -/
  | blanks {cs out : List Char} (n : Nat) (black : Black out) (h : Spells quote width cs out) :
      Spells quote width (blanks (n + 1) ++ cs) (blanks (n + 1) ++ out)
  /-- Breaks stand for themselves, and the line behind them is indented. -/
  | breaks {b : Char} {bs cs out : List Char} (hb : isKeptBreak b = true) (ne : b ≠ '\n')
      (hbs : ∀ b ∈ bs, isKeptBreak b = true) (black : Black out) (h : Spells quote width cs out) :
      Spells quote width (b :: (bs ++ cs)) (b :: (bs ++ (Yaml.blanks width ++ out)))

section Quoted

variable {quote : Char} {width : Nat} {c : Cursor} {text cs out rest : List Char}
  {line column fuel : Nat}

theorem isSpace_of_isKeptBreak {b : Char} (h : isKeptBreak b = true) : isSpace b = true := by
  rw [isSpace, isBreak_of_isKeptBreak h, Bool.or_true]

theorem Spells.black (h : Spells quote width cs out) (black : Black cs) : Black out := by
  cases h with
  | nil => exact .nil
  | doubled => exact .cons rfl
  | escaped => exact .cons rfl
  | char hc => exact .cons hc
  | blanks => cases black.head
  | breaks hb =>
    have space := isSpace_of_isKeptBreak hb
    rw [black.head] at space
    cases space

theorem scanQuoted_of_cons {ch : Char} (h : c.At (ch :: rest) line column) (hc : column ≠ 0) :
    scanQuoted quote (fuel + 1) text c =
      if quote == '\'' && ch == '\'' && rest.head? == some '\'' then
        scanQuoted quote fuel (text ++ ['\'']) (c.skip 2)
      else if ch == quote then some (text, c.skip 1)
      else if quote == '"' && ch == '\\' then
        if rest.head?.any isBreak then
          match scanGap none rest.length { broken := true } (c.skip 1).skipBreak.2 with
          | some (g, next) => scanQuoted quote fuel (text ++ g.fold) next
          | none => none
        else
          match escape? rest with
          | some (e, n) => scanQuoted quote fuel (text ++ [e]) (c.skip (n + 1))
          | none => none
      else if isSpace ch then
        match scanGap none (ch :: rest).length {} c with
        | some (g, next) => scanQuoted quote fuel (text ++ g.fold) next
        | none => none
      else scanQuoted quote fuel (text ++ [ch]) (c.skip 1) := by
  rw [scanQuoted, h.not_atDocumentMark hc, h.rest_eq]
  rfl

theorem scanQuoted_close (h : c.At (quote :: rest) line column) (hc : column ≠ 0)
    (apart : rest.head? ≠ some '\'') :
    scanQuoted quote (fuel + 1) text c = some (text, c.skip 1) := by
  rw [scanQuoted_of_cons h hc, if_neg (by simp [apart]), if_pos (beq_self_eq_true quote)]

theorem scanQuoted_doubled (hq : quote = '\'') (h : c.At ('\'' :: '\'' :: rest) line column)
    (hc : column ≠ 0) :
    scanQuoted quote (fuel + 1) text c = scanQuoted quote fuel (text ++ ['\'']) (c.skip 2) := by
  rw [scanQuoted_of_cons h hc, hq]
  rfl

theorem escape?_of_isBreak {d : Char} (h : isBreak d = true) (ds : List Char) :
    escape? (d :: ds) = none := by
  simp only [isBreak, Bool.or_eq_true, beq_iff_eq] at h
  obtain (((rfl | rfl) | rfl) | rfl) | rfl := h <;> rfl

theorem not_isBreak_head_escape (ch : Char) : (escape ch ++ rest).head?.any isBreak = false := by
  have read := escapes_escape ch []
  rw [List.append_nil] at read
  cases spelled : escape ch with
  | nil =>
    rw [spelled] at read
    cases read
  | cons d ds =>
    by_contra hd
    rw [spelled, escape?_of_isBreak (Bool.eq_true_of_not_eq_false hd)] at read
    cases read

theorem scanQuoted_escaped {ch : Char} (hq : quote = '"')
    (h : c.At ('\\' :: (escape ch ++ rest)) line column) (hc : column ≠ 0) :
    scanQuoted quote (fuel + 1) text c =
      scanQuoted quote fuel (text ++ [ch]) (c.skip ((escape ch).length + 1)) := by
  rw [scanQuoted_of_cons h hc, escapes_escape ch, not_isBreak_head_escape, hq]
  rfl

theorem scanQuoted_char {ch : Char} (black : isSpace ch = false) (ne : ch ≠ quote)
    (unescaped : quote = '"' → ch ≠ '\\') (h : c.At (ch :: rest) line column) (hc : column ≠ 0) :
    scanQuoted quote (fuel + 1) text c = scanQuoted quote fuel (text ++ [ch]) (c.skip 1) := by
  have single : (quote == '\'' && ch == '\'' && rest.head? == some '\'') = false := by
    by_cases hq : quote = '\''
    · have other : ch ≠ '\'' := hq ▸ ne
      rw [beq_false_of_ne other, Bool.and_false, Bool.false_and]
    · rw [beq_false_of_ne hq, Bool.false_and, Bool.false_and]
  have double : (quote == '"' && ch == '\\') = false := by
    by_cases hq : quote = '"'
    · rw [beq_false_of_ne (unescaped hq), Bool.and_false]
    · rw [beq_false_of_ne hq, Bool.false_and]
  rw [scanQuoted_of_cons h hc, single, double, beq_false_of_ne ne, black]
  rfl

/-- White space is read as what its gap leaves. -/
theorem scanQuoted_gap {ch : Char} {g : Gap} {next : Cursor} (space : isSpace ch = true)
    (hq : isSpace quote = false) (h : c.At (ch :: rest) line column) (hc : column ≠ 0)
    (gap : scanGap none (ch :: rest).length {} c = some (g, next)) :
    scanQuoted quote (fuel + 1) text c = scanQuoted quote fuel (text ++ g.fold) next := by
  have other (d : Char) (hd : isSpace d = false) : ch ≠ d := by
    rintro rfl
    rw [space] at hd
    cases hd
  rw [scanQuoted_of_cons h hc, gap, beq_false_of_ne (other quote hq),
    beq_false_of_ne (other '\'' rfl), beq_false_of_ne (other '\\' rfl), space, Bool.and_false,
    Bool.false_and, Bool.and_false]
  rfl

/-- **A text in quotes is read back**, from behind the opening quote to behind the closing
one. -/
theorem scanQuoted_spells (spells : Spells quote width cs out) (hq : isSpace quote = false)
    (indented : width ≠ 0) (h : c.At (out ++ quote :: rest) line column) (hc : column ≠ 0)
    (apart : rest.head? ≠ some '\'') (enough : out.length < fuel) :
    ∃ next line' column', scanQuoted quote fuel text c = some (text ++ cs, next) ∧
      next.At rest line' column' ∧ line ≤ line' := by
  induction spells generalizing c text line column fuel with
  | nil =>
    obtain _ | fuel := fuel
    · cases enough
    · refine ⟨c.skip 1, line, column + 1, ?_, h.skip_one, Nat.le_refl _⟩
      rw [scanQuoted_close h hc apart, List.append_nil]
  | @doubled cs out single _ ih =>
    obtain _ | fuel := fuel
    · cases enough
    · have fewer : out.length < fuel := by
        simp only [List.length_cons] at enough
        omega
      have after : (c.skip 2).At (out ++ quote :: rest) line (column + 2) :=
        @Cursor.At.skip _ _ _ _ ['\'', '\''] h
      obtain ⟨next, line', column', scanned, there⟩ := ih after (by omega) fewer
      refine ⟨next, line', column', ?_, there⟩
      rw [scanQuoted_doubled single h hc, scanned, List.append_assoc]
      rfl
  | @escaped ch cs out double _ ih =>
    obtain _ | fuel := fuel
    · cases enough
    · have fewer : out.length < fuel := by
        simp only [List.length_cons, List.length_append] at enough
        omega
      have whole : c.At (('\\' :: escape ch) ++ (out ++ quote :: rest)) line column := by
        rwa [List.cons_append, List.append_assoc] at h
      obtain ⟨next, line', column', scanned, there⟩ := ih whole.skip (by omega) fewer
      refine ⟨next, line', column', ?_, there⟩
      rw [scanQuoted_escaped double whole hc]
      exact scanned.trans (by rw [List.append_assoc]; rfl)
  | @char ch cs out black ne unescaped _ ih =>
    obtain _ | fuel := fuel
    · cases enough
    · obtain ⟨next, line', column', scanned, there⟩ :=
        ih h.skip_one (Nat.succ_ne_zero _) (Nat.lt_of_succ_lt_succ enough)
      refine ⟨next, line', column', ?_, there⟩
      rw [scanQuoted_char black ne unescaped h hc, scanned, List.append_assoc]
      rfl
  | @blanks cs out n black _ ih =>
    obtain _ | fuel := fuel
    · cases enough
    · have fewer : out.length < fuel := by
        simp only [List.length_append, Yaml.blanks, List.length_replicate] at enough
        omega
      rw [List.append_assoc] at h
      have room : n + 1 ≤ (Yaml.blanks (n + 1) ++ (out ++ quote :: rest)).length := by
        rw [List.length_append, Yaml.blanks, List.length_replicate]
        omega
      obtain ⟨after, gap, atAfter⟩ :=
        scanGap_blanks none [] h (black.append (.cons hq)) room
      obtain ⟨next, line', column', scanned, there⟩ := ih atAfter (by omega) fewer
      refine ⟨next, line', column', ?_, there⟩
      rw [scanQuoted_gap rfl hq h hc gap, scanned, ← List.append_assoc]
      rfl
  | @breaks b bs cs out hb ne hbs black _ ih =>
    obtain _ | fuel := fuel
    · cases enough
    · have fewer : out.length < fuel := by
        simp only [List.length_cons, List.length_append] at enough
        omega
      rw [List.cons_append, List.append_assoc, List.append_assoc] at h
      have room : bs.length + width + 1 ≤
          (b :: (bs ++ (Yaml.blanks width ++ (out ++ quote :: rest)))).length := by
        simp only [List.length_cons, List.length_append, Yaml.blanks, List.length_replicate]
        omega
      obtain ⟨after, gap, atAfter⟩ :=
        scanGap_breaks none [] hb hbs h (black.append (.cons hq)) room
      obtain ⟨next, line', column', scanned, there, le⟩ := ih atAfter indented fewer
      refine ⟨next, line', column', ?_, there, by omega⟩
      have folded : Gap.fold ⟨true, [], [b], bs⟩ = b :: bs := by
        simp [Gap.fold, ne]
      rw [scanQuoted_gap (isSpace_of_isKeptBreak hb) hq h hc gap, folded, scanned,
        List.append_assoc]
      rfl

end Quoted

/-! ## Indentation -/

theorem indented_of_not_isBreak {c : Char} (h : isBreak c = false) (width : Nat) (cs : List Char) :
    indented width false (c :: cs) = c :: indented width false cs := by
  rw [indented, h]
  rfl

theorem indented_breaks {bs : List Char} (h : ∀ b ∈ bs, isBreak b = true) (width : Nat)
    (cs : List Char) : indented width true (bs ++ cs) = bs ++ indented width true cs := by
  induction bs with
  | nil => rfl
  | cons b bs ih =>
    rw [List.forall_mem_cons] at h
    rw [List.cons_append, indented, h.1, if_pos rfl, ih h.2]
    rfl

/-- Empty lines are not indented. -/
theorem indented_of_breaks {bs : List Char} (h : ∀ b ∈ bs, isBreak b = true) (width : Nat) :
    indented width true bs = bs := by
  have written := indented_breaks h width []
  rwa [List.append_nil, indented, List.append_nil] at written

/-- A line that is not empty begins with its indentation. -/
theorem indented_line {c : Char} (h : isBreak c = false) (width : Nat) (cs : List Char) :
    indented width true (c :: cs) = blanks width ++ indented width false (c :: cs) := by
  rw [indented_of_not_isBreak h, indented, h]
  rfl

/-! ## Quotes -/

/-- Single quotes are doubled. -/
def quotesDoubled (cs : List Char) : List Char :=
  cs.flatMap fun c => if c == '\'' then ['\'', '\''] else [c]

/-- What stands between single quotes. -/
def insideSingle (width : Nat) (cs : List Char) : List Char :=
  indented width false (quotesDoubled cs) ++
    (if cs.getLast?.any isBreak then blanks width else [])

theorem single_eq (width : Nat) (cs : List Char) :
    single width cs = '\'' :: (insideSingle width cs ++ ['\'']) := by
  rw [single, insideSingle]
  rfl

theorem getLast?_any_cons {c : Char} (h : isBreak c = false) (cs : List Char) :
    (c :: cs).getLast?.any isBreak = cs.getLast?.any isBreak := by
  cases cs with
  | nil => exact h
  | cons d cs => rw [List.getLast?_cons_cons]

theorem insideSingle_cons {c : Char} (h : isBreak c = false) (ne : c ≠ '\'') (width : Nat)
    (cs : List Char) : insideSingle width (c :: cs) = c :: insideSingle width cs := by
  have one : quotesDoubled (c :: cs) = c :: quotesDoubled cs := by
    rw [quotesDoubled, List.flatMap_cons, beq_false_of_ne ne]
    rfl
  rw [insideSingle, one, indented_of_not_isBreak h, getLast?_any_cons h, insideSingle]
  rfl

theorem insideSingle_quote (width : Nat) (cs : List Char) :
    insideSingle width ('\'' :: cs) = '\'' :: '\'' :: insideSingle width cs := by
  rw [insideSingle, getLast?_any_cons rfl, insideSingle]
  rfl

theorem quotesDoubled_breaks {bs : List Char} (hbs : ∀ b ∈ bs, isBreak b = true)
    (cs : List Char) : quotesDoubled (bs ++ cs) = bs ++ quotesDoubled cs := by
  induction bs with
  | nil => rfl
  | cons b bs ih =>
    rw [List.forall_mem_cons] at hbs
    have ne : b ≠ '\'' := by
      rintro rfl
      cases hbs.1
    rw [List.cons_append, quotesDoubled, List.flatMap_cons, beq_false_of_ne ne]
    exact congrArg (b :: ·) (ih hbs.2)

theorem insideSingle_breaks {b : Char} {bs cs : List Char}
    (hbs : ∀ b' ∈ b :: bs, isBreak b' = true) (unbroken : cs.head?.any isBreak = false)
    (width : Nat) :
    insideSingle width (b :: (bs ++ cs)) =
      b :: (bs ++ (blanks width ++ insideSingle width cs)) := by
  have first : indented width false (quotesDoubled (b :: bs ++ cs)) =
      b :: (bs ++ indented width true (quotesDoubled cs)) := by
    rw [quotesDoubled_breaks hbs, List.cons_append, indented, hbs b List.mem_cons_self, if_pos rfl,
      indented_breaks fun b' hb' => hbs b' (List.mem_cons_of_mem _ hb')]
  rw [insideSingle, insideSingle, ← List.cons_append, first]
  cases cs with
  | nil =>
    -- The line with the closing quote is indented like any other.
    have ends : (b :: bs ++ []).getLast?.any isBreak = true := by
      rw [List.append_nil, List.getLast?_eq_some_getLast (List.cons_ne_nil b bs)]
      exact hbs _ (List.getLast_mem _)
    rw [ends]
    simp [quotesDoubled, indented]
  | cons c cs =>
    have line : indented width true (quotesDoubled (c :: cs)) =
        blanks width ++ indented width false (quotesDoubled (c :: cs)) := by
      by_cases hc : c = '\''
      · rw [hc]
        exact indented_line rfl width _
      · rw [quotesDoubled, List.flatMap_cons, beq_false_of_ne hc]
        exact indented_line unbroken width _
    rw [line, List.getLast?_append_of_ne_nil _ (List.cons_ne_nil c cs)]
    simp only [List.cons_append, List.append_assoc]

theorem insideSingle_blanks (n width : Nat) (cs : List Char) :
    insideSingle width (blanks n ++ cs) = blanks n ++ insideSingle width cs := by
  induction n with
  | zero => rfl
  | succ n ih => exact (insideSingle_cons rfl (by decide) width _).trans (congrArg (' ' :: ·) ih)

theorem head_ne_blank_of_breaks {b : Char} {bs cs : List Char}
    (hbs : ∀ b' ∈ b :: bs, isBreak b' = true)
    (apart : holdsPair isBreak (· == ' ') (b :: (bs ++ cs)) = false) : cs.head? ≠ some ' ' := by
  intro head
  obtain ⟨ds, rfl⟩ := List.head?_eq_some_iff.mp head
  have last := List.dropLast_append_getLast (List.cons_ne_nil b bs)
  rw [← List.cons_append, ← last, List.append_assoc] at apart
  cases not_pair_of_holdsPair apart (hbs _ (List.getLast_mem _))

theorem Shown.black_of_unbroken {cs ds : List Char} (shown : Shown (cs ++ ds))
    (unbroken : ds.head?.any isBreak = false) (head_ne : ds.head? ≠ some ' ') : Black ds := by
  intro d hd
  obtain ⟨ds, rfl⟩ := List.head?_eq_some_iff.mp hd
  by_contra space
  obtain rfl | broken := blank_or_isKeptBreak
    (shown.printable d (by simp)) (Bool.eq_true_of_not_eq_false space)
  · exact head_ne rfl
  · have isBreak := isBreak_of_isKeptBreak broken
    rw [show Yaml.isBreak d = false from unbroken] at isBreak
    cases isBreak

theorem Shown.black_of_blanks {n : Nat} {cs : List Char} (shown : Shown (' ' :: (blanks n ++ cs)))
    (head_ne : cs.head? ≠ some ' ') : Black cs := by
  rw [cons_blanks_append] at shown
  have unbroken : cs.head?.any isBreak = false := by
    cases cs with
    | nil => rfl
    | cons d ds => exact not_pair_of_holdsPair shown.blank_break rfl
  have later : Shown ([' '] ++ cs) := shown.of_append
  exact later.black_of_unbroken unbroken head_ne

/-- **Single quotes spell the text** between them. -/
theorem spells_single {cs : List Char} (shown : Shown cs)
    (apart : holdsPair isBreak (· == ' ') cs = false) (oneLine : '\n' ∉ cs) (width : Nat) :
    Spells '\'' width cs (insideSingle width cs) := by
  induction hn : cs.length using Nat.strong_induction_on generalizing cs with
  | _ n ih =>
    subst hn
    -- What is left of the text behind its first piece is spelled already.
    have behind (front : List Char) {back : List Char} (h : cs = front ++ back)
        (ne_nil : front ≠ []) :
        Spells '\'' width back (insideSingle width back) := by
      subst h
      refine ih back.length ?_ shown.of_append (holdsPair_of_append apart)
        (fun there => oneLine (List.mem_append_right _ there)) rfl
      rw [List.length_append]
      have := List.length_pos_iff.mpr ne_nil
      omega
    cases cs with
    | nil => exact .nil
    | cons c cs =>
      by_cases space : isSpace c = true
      · obtain rfl | hc := blank_or_isKeptBreak (shown.printable c List.mem_cons_self) space
        · obtain ⟨n, ds, rfl, head_ne⟩ := exists_blanks cs
          have rest := behind (blanks (n + 1)) rfl (by simp [blanks])
          exact insideSingle_blanks (n + 1) width ds ▸
            .blanks n (rest.black (shown.black_of_blanks head_ne)) rest
        · obtain ⟨bs, ds, rfl, hbs, unbroken⟩ := exists_breaks cs
          have rest := behind (c :: bs) rfl (by simp)
          have all : ∀ b ∈ c :: bs, isBreak b = true :=
            List.forall_mem_cons.mpr ⟨isBreak_of_isKeptBreak hc, hbs⟩
          have whole : Shown ((c :: bs) ++ ds) := shown
          have black := whole.black_of_unbroken unbroken (head_ne_blank_of_breaks all apart)
          rw [insideSingle_breaks all unbroken]
          refine .breaks hc (fun newline => oneLine ?_) (fun b hb => ?_) (rest.black black) rest
          · rw [newline]
            exact List.mem_cons_self
          · exact isKeptBreak_of_isPrintable (hbs b hb) (shown.printable b (by simp [hb]))
      · have black : isSpace c = false := Bool.eq_false_of_not_eq_true space
        have unbroken : isBreak c = false := (Bool.or_eq_false_iff.mp black).2
        have rest := behind [c] rfl (by simp)
        by_cases hc : c = '\''
        · rw [hc, insideSingle_quote]
          exact .doubled rfl rest
        · rw [insideSingle_cons unbroken hc]
          exact .char black hc (fun double => by cases double) rest

/-- What stands between double quotes. -/
def insideDouble (cs : List Char) : List Char :=
  cs.flatMap fun c =>
    if !isPrintable c || isBreak c || c == '"' || c == '\\' then '\\' :: escape c else [c]

theorem double_eq (cs : List Char) : double cs = '"' :: (insideDouble cs ++ ['"']) := rfl

theorem insideDouble_cons (c : Char) (cs : List Char) :
    insideDouble (c :: cs) =
      (if !isPrintable c || isBreak c || c == '"' || c == '\\' then '\\' :: escape c else [c]) ++
        insideDouble cs :=
  List.flatMap_cons

theorem insideDouble_blanks (n : Nat) (cs : List Char) :
    insideDouble (blanks n ++ cs) = blanks n ++ insideDouble cs := by
  induction n with
  | zero => rfl
  | succ n ih => exact congrArg (' ' :: ·) ih

/-- A character that is not escaped is a blank or is not white. -/
theorem not_isSpace_of_unescaped {c : Char} (ne : c ≠ ' ')
    (h : (!isPrintable c || isBreak c || c == '"' || c == '\\') = false) :
    isSpace c = false ∧ c ≠ '"' ∧ c ≠ '\\' := by
  simp only [Bool.or_eq_false_iff, Bool.not_eq_false', beq_eq_false_iff_ne] at h
  obtain ⟨⟨⟨printable, unbroken⟩, quote⟩, backslash⟩ := h
  refine ⟨?_, quote, backslash⟩
  by_contra space
  obtain blank | broken := blank_or_isKeptBreak printable (Bool.eq_true_of_not_eq_false space)
  · exact ne blank
  · rw [isBreak_of_isKeptBreak broken] at unbroken
    cases unbroken

theorem black_insideDouble {cs : List Char} (head_ne : cs.head? ≠ some ' ') :
    Black (insideDouble cs) := by
  cases cs with
  | nil => exact .nil
  | cons c cs =>
    have ne : c ≠ ' ' := fun hc => head_ne (by rw [hc]; rfl)
    rw [insideDouble_cons]
    split
    · exact .cons rfl
    · next h => exact .cons (not_isSpace_of_unescaped ne (Bool.eq_false_of_not_eq_true h)).1

/-- **Double quotes spell the text** between them. -/
theorem spells_double (width : Nat) (cs : List Char) :
    Spells '"' width cs (insideDouble cs) := by
  induction hn : cs.length using Nat.strong_induction_on generalizing cs with
  | _ n ih =>
    subst hn
    cases cs with
    | nil => exact .nil
    | cons c cs =>
      by_cases blank : c = ' '
      · obtain ⟨n, ds, rfl, head_ne⟩ := exists_blanks cs
        have shorter : ds.length < (c :: (blanks n ++ ds)).length := by
          rw [List.length_cons, List.length_append]
          omega
        rw [blank]
        exact insideDouble_blanks (n + 1) ds ▸
          .blanks n (black_insideDouble head_ne) (ih _ shorter ds rfl)
      · have rest := ih cs.length (Nat.lt_succ_self _) cs rfl
        rw [insideDouble_cons]
        split
        · exact .escaped rfl rest
        · next h =>
          obtain ⟨black, quote, backslash⟩ :=
            not_isSpace_of_unescaped blank (Bool.eq_false_of_not_eq_true h)
          exact .char black quote (fun _ => backslash) rest

end TreeBroker.Yaml
