import Mathlib
import TreeBroker.Proofs.BlockScalars

/-!
# The lexer, a turn at a time

The lexer goes through a document in turns: it passes white space, gives up keys that can no
longer be keys, closes the blocks that have ended, and then reads one token. A turn is cut here
at another place, in front of the token (`settle`, `resume`), because there the state can be
described: how deep the open blocks are, which tokens there are, and that no key is pending.

`Goes` relates two such states when some number of turns leads from one to the other, and no
turn is without a character that it consumes. It is transitive, so that a document can be
followed piece by piece, and since a turn costs a character the bound on the number of turns is
checked once for the whole document (`run_of_goes`).

The piece that all others are made of is a scalar with the line that it ends. Of whatever style
it is, it adds one token and leads to the next line (`reads_scalarLine`). A scalar may turn out
to be a key as long as its line goes on, so that a key is left pending and has to be found stale
on the line behind (`Idle`).
-/

namespace TreeBroker.Yaml

namespace Lexer

/-! ## Turns -/

/-- The lexer in front of its next token: white space is passed, stale keys are given up and the
blocks that have ended are closed. -/
def settle (l : Lexer) : Option Lexer :=
  (l.skipSpace (l.cursor.rest.length + 1)).dropStaleKeys.map fun l => l.unroll l.cursor.column

/-- The lexer run to the end of the text from in front of a token. -/
def resume (fuel : Nat) (l : Lexer) : Option Lexer :=
  if l.cursor.rest.isEmpty then l.finish else l.next.bind (run fuel)

theorem run_succ (fuel : Nat) (l : Lexer) : run (fuel + 1) l = l.settle.bind (resume fuel) := by
  rw [run, settle]
  cases (l.skipSpace (l.cursor.rest.length + 1)).dropStaleKeys <;> rfl

/-- **The lexer gets from one token to another** in turns that each consume something. -/
def Goes (l l' : Lexer) : Prop :=
  ∃ n, n + l'.cursor.rest.length ≤ l.cursor.rest.length ∧
    ∀ fuel, resume (n + fuel) l = resume fuel l'

theorem Goes.refl (l : Lexer) : Goes l l := ⟨0, by omega, fun fuel => by rw [Nat.zero_add]⟩

theorem Goes.trans {l m n : Lexer} (first : Goes l m) (second : Goes m n) : Goes l n := by
  obtain ⟨i, shorter, goes⟩ := first
  obtain ⟨j, shorter', goes'⟩ := second
  refine ⟨i + j, by omega, fun fuel => ?_⟩
  rw [Nat.add_assoc, goes, goes']

theorem Goes.turn {l m l' : Lexer} (step : l.next = some m) (settled : m.settle = some l')
    (shorter : l'.cursor.rest.length < l.cursor.rest.length) : Goes l l' := by
  refine ⟨1, by omega, fun fuel => ?_⟩
  have filled : l.cursor.rest.isEmpty = false := by
    rw [List.isEmpty_eq_false_iff, ← List.length_pos_iff]
    omega
  rw [resume, filled, step, Nat.add_comm]
  show run (fuel + 1) m = resume fuel l'
  rw [run_succ, settled]
  rfl

/-- **As many steps as there are characters are enough.** -/
theorem run_of_goes {l m l' : Lexer} {fuel : Nat} (settled : l.settle = some m) (goes : Goes m l')
    (ended : l'.cursor.rest = []) (enough : m.cursor.rest.length ≤ fuel) :
    run (fuel + 1) l = l'.finish := by
  obtain ⟨n, shorter, goes⟩ := goes
  have split : fuel = n + (fuel - n) := by omega
  rw [run_succ, settled, Option.bind_some, split, goes, resume, ended]
  rfl

/-! ## Blocks that end -/

theorem unroll_of_le {l : Lexer} {column : Int} (h : l.indent ≤ column) : l.unroll column = l := by
  rw [unroll]
  cases l.indents with
  | nil => rfl
  | cons outer rest =>
    rw [closeBlocks, if_neg (Int.not_lt.mpr h), ite_self]

theorem unroll_of_inFlow {l : Lexer} (h : l.inFlow = true) (column : Int) :
    l.unroll column = l := by
  rw [unroll]
  cases l.indents with
  | nil => rfl
  | cons outer rest => rw [closeBlocks, if_pos h]

theorem unroll_of_lt {l : Lexer} {column outer : Int} {rest : List Int} (h : column < l.indent)
    (open_blocks : l.indents = outer :: rest) (block : l.inFlow = false) :
    l.unroll column =
      { l.emit .blockEnd with indent := outer, indents := rest }.unroll column := by
  rw [unroll, open_blocks, closeBlocks, block, if_neg Bool.false_ne_true, if_pos h]
  rfl

end Lexer

/-! ## White space -/

/-- The text goes on with a break or a token, or ends. -/
def Clear (cs : List Char) : Prop :=
  ∀ c ∈ cs.head?, isBlank c = false ∧ c ≠ '#' ∧ c ≠ byteOrderMark

/-- **A token begins here**, or the text ends. -/
def Starts (cs : List Char) : Prop := Clear cs ∧ cs.head?.any isBreak = false

theorem Clear.cons {c : Char} {cs : List Char} (black : isBlank c = false) (comment : c ≠ '#')
    (order : c ≠ byteOrderMark) : Clear (c :: cs) := by
  rintro _ ⟨⟩
  exact ⟨black, comment, order⟩

theorem Starts.black {cs : List Char} (h : Starts cs) : Black cs := by
  intro c hc
  rw [isSpace, (h.1 c hc).1, Bool.false_or]
  simpa [Option.mem_def.mp hc] using h.2

theorem Starts.cons {c : Char} {cs : List Char} (black : isSpace c = false) (comment : c ≠ '#')
    (order : c ≠ byteOrderMark) : Starts (c :: cs) :=
  ⟨.cons (Bool.or_eq_false_iff.mp black).1 comment order, (Bool.or_eq_false_iff.mp black).2⟩

/-- The place behind the white space and the comment of a line. -/
def Cursor.pastComment (tabs : Bool) (c : Cursor) : Cursor :=
  let c := if c.column == 0 && c.rest.head? == some byteOrderMark then c.skip 1 else c
  let c := c.skipWhile fun ch => ch == ' ' || (tabs && ch == '\t')
  if c.rest.head? == some '#' then c.skipWhile (fun ch => !isBreak ch) else c

section Space

variable {rest : List Char} {line column fuel k : Nat}

theorem Clear.takeWhile_blanks (clear : Clear rest) (n : Nat) (tabs : Bool) :
    ((blanks n ++ rest).takeWhile fun ch => ch == ' ' || (tabs && ch == '\t')) = blanks n := by
  have blank : ∀ ch ∈ blanks n, (ch == ' ' || (tabs && ch == '\t')) = true := by
    intro ch hch
    rw [List.eq_of_mem_replicate hch]
    rfl
  rw [List.takeWhile_append_of_pos blank]
  cases rest with
  | nil => rw [List.takeWhile_nil, List.append_nil]
  | cons ch rest =>
    have black := (clear ch rfl).1
    rw [isBlank, Bool.or_eq_false_iff] at black
    rw [List.takeWhile_cons_of_neg (by simp [black]), List.append_nil]

theorem Cursor.At.pastComment {c : Cursor} (h : c.At (blanks k ++ rest) line column)
    (clear : Clear rest) (tabs : Bool) : c.pastComment tabs = c.skip k := by
  have mark : (c.column == 0 && c.rest.head? == some byteOrderMark) = false := by
    rw [h.rest_eq, Bool.and_eq_false_iff]
    refine .inr (beq_false_of_ne fun head => ?_)
    cases k with
    | zero => exact (clear _ head).2.2 rfl
    | succ k => cases head
  have comment : (rest.head? == some '#') = false :=
    beq_false_of_ne fun head => (clear _ head).2.1 rfl
  have skipped := h.skip.rest_eq
  rw [blanks, List.length_replicate] at skipped
  rw [Cursor.pastComment, mark]
  simp only [Bool.false_eq_true, if_false, Cursor.skipWhile]
  rw [h.rest_eq, clear.takeWhile_blanks, blanks, List.length_replicate, skipped, comment]
  rfl

namespace Lexer

variable {l : Lexer}

theorem skipSpace_succ (fuel : Nat) (l : Lexer) : l.skipSpace (fuel + 1) =
    let c := l.cursor.pastComment (l.inFlow || !l.keyAllowed)
    if c.rest.head?.any isBreak then
      skipSpace fuel { l with cursor := c.skipBreak.2, keyAllowed := l.keyAllowed || !l.inFlow }
    else { l with cursor := c } := rfl

/-- **Blanks are passed.** -/
theorem skipSpace_blanks (h : l.cursor.At (blanks k ++ rest) line column) (starts : Starts rest) :
    l.skipSpace (fuel + 1) = { l with cursor := l.cursor.skip k } := by
  have skipped := h.skip.rest_eq
  rw [blanks, List.length_replicate] at skipped
  rw [skipSpace_succ, h.pastComment starts.1]
  dsimp only
  rw [skipped, starts.2]
  rfl

/-- **A break is passed** with the blanks that begin the next line, and a key may begin there. -/
theorem skipSpace_break (fuel : Nat) (h : l.cursor.At ('\n' :: (blanks k ++ rest)) line column)
    (starts : Starts rest) (block : l.inFlow = false) :
    ∃ next, l.skipSpace (fuel + 2) = { l with cursor := next, keyAllowed := true } ∧
      next.At rest (line + 1) k := by
  obtain ⟨after, passed, atAfter⟩ := h.skipBreak rfl
  have there := atAfter.skip
  rw [blanks, List.length_replicate, Nat.zero_add] at there
  refine ⟨after.skip k, ?_, there⟩
  rw [skipSpace_succ, Cursor.At.pastComment (k := 0) h (.cons rfl (by decide) (by decide)),
    Cursor.skip_zero]
  dsimp only
  rw [h.rest_eq, passed, block, Bool.not_false, Bool.or_true]
  exact skipSpace_blanks (l := { l with cursor := after, keyAllowed := true }) atAfter starts

/-! ## Pending keys -/

/-- **No key is pending**, or one of an earlier line that need not be one. -/
def Idle (keys : List (Option PendingKey)) (line : Nat) : Prop :=
  keys = [none] ∨ ∃ k, keys = [some k] ∧ k.required = false ∧ k.line < line

theorem Idle.mono {keys : List (Option PendingKey)} {line line' : Nat} (h : Idle keys line)
    (later : line ≤ line') : Idle keys line' := by
  obtain keys | ⟨k, keys, free, earlier⟩ := h
  · exact .inl keys
  · exact .inr ⟨k, keys, free, by omega⟩

theorem inFlow_of_none {l : Lexer} (keys : l.keys = [none]) : l.inFlow = false := by
  rw [inFlow, keys]
  rfl

theorem Idle.inFlow {l : Lexer} {line : Nat} (h : Idle l.keys line) : l.inFlow = false := by
  obtain keys | ⟨k, keys, -⟩ := h <;> rw [Lexer.inFlow, keys] <;> rfl

theorem Idle.dropStaleKeys {l : Lexer} (h : Idle l.keys l.cursor.line) :
    l.dropStaleKeys = some { l with keys := [none] } := by
  obtain keys | ⟨k, keys, free, earlier⟩ := h
  · rw [Lexer.dropStaleKeys, keys]
    rfl
  · rw [Lexer.dropStaleKeys, keys]
    simp [free, earlier]

/-- **A token to the right of its block need not be a key.** -/
theorem saveKey_of_lt {l : Lexer} (keys : l.keys = [none]) (right : l.indent < l.cursor.column) :
    ∃ ks, l.saveKey = some { l with keys := ks } ∧ Idle ks (l.cursor.line + 1) := by
  cases allowed : l.keyAllowed with
  | false =>
    refine ⟨l.keys, ?_, .inl keys⟩
    rw [saveKey, allowed, Bool.not_false, if_pos rfl, ← allowed]
  | true =>
    have free : (!l.inFlow && l.indent == (l.cursor.column : Int)) = false := by
      rw [beq_false_of_ne (by omega), Bool.and_false]
    refine ⟨[some ⟨false, l.tokens.length, l.cursor.index, l.cursor.line, l.cursor.column⟩], ?_,
      .inr ⟨_, rfl, rfl, Nat.lt_succ_self _⟩⟩
    rw [saveKey, allowed, free, dropKey, keys]
    simp [keys, allowed]

/-! ## Places -/

/-- The blocks that are open and the tokens so far. -/
structure Frame where
  /-- The column of the innermost block. -/
  indent : Int
  /-- The columns of the blocks around it. -/
  indents : List Int
  /-- The tokens so far. -/
  tokens : List Token

/-- The frame of a lexer. -/
def frame (l : Lexer) : Frame := ⟨l.indent, l.indents, l.tokens⟩

theorem indent_of_frame {l : Lexer} {f : Frame} {i : Int} (h : l.frame = f)
    (indent : f.indent = i) : l.indent = i := by
  rw [← indent, ← h]
  rfl

/-- The frame with more tokens. -/
def Frame.add (f : Frame) (ts : List Token) : Frame := { f with tokens := f.tokens ++ ts }

/-- **The lexer has come to a line**: it stands behind the blanks that begin the text, a key may
begin there, and the blocks to the right have been closed. -/
def Landed (l : Lexer) (k : Nat) (rest : List Char) (line : Nat) (f : Frame) : Prop :=
  ∃ m : Lexer, l = m.unroll k ∧ m.cursor.At rest line k ∧ m.keyAllowed = true ∧ m.keys = [none] ∧
    m.frame = f

/-- **A scalar that took its line with it leaves the lexer at the next one.** -/
theorem settle_landed (h : l.cursor.At rest line k) (starts : Starts rest) (idle : Idle l.keys line)
    (allowed : l.keyAllowed = true) :
    ∃ l', l.settle = some l' ∧ l'.Landed k rest line l.frame := by
  have stale : Idle l.keys l.cursor.line := h.line_eq ▸ idle
  refine ⟨_, ?_, { l with keys := [none] }, rfl, h, allowed, rfl, rfl⟩
  rw [settle, skipSpace_blanks (k := 0) h starts, Cursor.skip_zero]
  show l.dropStaleKeys.map _ = _
  rw [stale.dropStaleKeys, Option.map_some]
  exact congrArg (fun column : Nat => some ({ l with keys := [none] }.unroll column)) h.column_eq

/-- **The end of a line leads to the next one.** -/
theorem settle_break (h : l.cursor.At ('\n' :: (blanks k ++ rest)) line column)
    (starts : Starts rest) (idle : Idle l.keys (line + 1)) :
    ∃ l', l.settle = some l' ∧ l'.Landed k rest (line + 1) l.frame := by
  obtain ⟨next, skipped, there⟩ :=
    skipSpace_break (blanks k ++ rest).length h starts idle.inFlow
  have stale : Idle l.keys next.line := there.line_eq ▸ idle
  refine ⟨_, ?_, { l with cursor := next, keyAllowed := true, keys := [none] }, rfl, there, rfl,
    rfl, rfl⟩
  rw [settle, h.rest_eq, List.length_cons, skipped,
    Idle.dropStaleKeys (l := { l with cursor := next, keyAllowed := true }) stale, Option.map_some]
  exact congrArg (fun column : Nat => some (unroll _ column)) there.column_eq

/-- **Blanks within a line lead to the next token**, which is to the right of the block. -/
theorem settle_blanks (h : l.cursor.At (blanks k ++ rest) line column) (starts : Starts rest)
    (keys : l.keys = [none]) (right : l.indent ≤ column + k) :
    l.settle = some { l with cursor := l.cursor.skip k } := by
  have there := h.skip
  rw [blanks, List.length_replicate] at there
  have stale : Idle l.keys (l.cursor.skip k).line := .inl keys
  rw [settle, skipSpace_blanks h starts,
    Idle.dropStaleKeys (l := { l with cursor := l.cursor.skip k }) stale, Option.map_some, ← keys]
  refine congrArg some (unroll_of_le ?_)
  show l.indent ≤ ((l.cursor.skip k).column : Int)
  rw [there.column_eq]
  exact_mod_cast right

theorem unroll_cursor (l : Lexer) (column : Int) : (l.unroll column).cursor = l.cursor := by
  rw [unroll]
  induction hn : l.indents generalizing l with
  | nil => rfl
  | cons outer rest ih =>
    rw [closeBlocks]
    split
    · rfl
    · split
      · exact ih { l.emit .blockEnd with indent := outer, indents := rest } rfl
      · rfl

theorem Landed.cursor {f : Frame} (h : l.Landed k rest line f) : l.cursor.At rest line k := by
  obtain ⟨m, rfl, there, -⟩ := h
  rwa [unroll_cursor]

/-! ## Scalars -/

theorem next_plain {ch : Char} (h : l.cursor.At (ch :: rest) line column)
    (block : l.inFlow = false) (margin : column ≠ 0 ∨ ch ≠ '%' ∧ ch ≠ '-' ∧ ch ≠ '.')
    (mark : isLeadMark ch = false) (black : isSpace ch = false)
    (word : ((ch == '?' || ch == ':' || ch == '-') && endsWord rest) = false) :
    l.next = l.plain := by
  have directive : (l.cursor.column == 0 && ch == '%') = false := by
    rw [h.column_eq]
    grind
  have start : (l.cursor.column == 0 && l.cursor.atMark "---") = false := by
    rw [h.column_eq, Cursor.atMark, h.rest_eq]
    have : "---".toList.isPrefixOf (ch :: rest) = ('-' == ch && "--".toList.isPrefixOf rest) := rfl
    grind
  have finish : (l.cursor.column == 0 && l.cursor.atMark "...") = false := by
    rw [h.column_eq, Cursor.atMark, h.rest_eq]
    have : "...".toList.isPrefixOf (ch :: rest) = ('.' == ch && "..".toList.isPrefixOf rest) := rfl
    grind
  simp [isLeadMark, isFlowMark] at mark
  have indicator : isIndicator ch = (ch == '-' || ch == '?' || ch == ':') := by
    rw [Bool.eq_iff_iff]
    simp [isIndicator, isFlowMark, mark, or_assoc]
  rw [next, h.rest_eq]
  simp only [directive, start, finish]
  by_cases doubtful : (ch == '-' || ch == '?' || ch == ':') = true
  · have inside : endsWord rest = false := by grind
    have unblank : rest.head?.any isBlank = false := by
      cases rest with
      | nil => rfl
      | cons d rest => exact (Bool.or_eq_false_iff.mp inside).1
    simp [block, inside, unblank, mark, indicator, black]
    grind
  · have certain := Bool.eq_false_of_not_eq_true doubtful
    rw [certain] at indicator
    simp only [Bool.or_eq_false_iff, beq_eq_false_iff_ne] at certain
    simp [mark, indicator, black, certain]

theorem next_quoted {quote : Char} (hq : quote = '\'' ∨ quote = '"')
    (h : l.cursor.At (quote :: rest) line column) (hc : column ≠ 0) : l.next = l.quoted quote := by
  rw [next, h.rest_eq]
  obtain rfl | rfl := hq
  · simp [h.column_eq, hc]
  · simp [h.column_eq, hc]

theorem next_block (h : l.cursor.At ('|' :: rest) line column) (block : l.inFlow = false)
    (hc : column ≠ 0) : l.next = l.block true := by
  rw [next, h.rest_eq]
  simp [h.column_eq, hc, block]

/-- The lexer behind a scalar that took it to a place. -/
def behind (l : Lexer) (keys : List (Option PendingKey)) (keyAllowed : Bool) (c : Cursor)
    (t : Token) : Lexer :=
  { l with keys := keys, keyAllowed := keyAllowed, cursor := c }.emit t

/-- **A scalar is read to the end of its line** and adds a token. -/
def Reads (s : String) (style : ScalarStyle) (w k : Nat) (cs rest : List Char) : Prop :=
  ∀ {l : Lexer} {line column : Nat} {f : Frame},
    l.cursor.At (cs ++ (blanks k ++ rest)) line column → l.keys = [none] → l.frame = f →
    f.indent = w → w < column →
    ∃ l' line', Goes l l' ∧ l'.Landed k rest line' (f.add [.scalar s style])

/-- A turn that leads to a line. -/
theorem goes_of_landed {m l' : Lexer} {f : Frame} {cs : List Char} {line' : Nat} (ne_nil : cs ≠ [])
    (h : l.cursor.At (cs ++ (blanks k ++ rest)) line column) (step : l.next = some m)
    (settled : m.settle = some l') (landed : l'.Landed k rest line' f) : Goes l l' := by
  refine .turn step settled ?_
  have filled := List.length_pos_iff.mpr ne_nil
  rw [landed.cursor.rest_eq, h.rest_eq, List.length_append, List.length_append]
  omega

theorem next_of_fitsPlain {cs : List Char} (ne_nil : cs ≠ []) (fits : fitsPlain cs = true)
    (h : l.cursor.At (cs ++ '\n' :: rest) line column) (block : l.inFlow = false)
    (hc : column ≠ 0) : l.next = l.plain := by
  obtain ⟨-, -, -, -, unmarked, -⟩ := fitsPlain_iff.mp fits
  have black := (words_of_fitsPlain ne_nil fits).black ('\n' :: rest)
  obtain ⟨ch, cs, rfl⟩ := List.exists_cons_of_ne_nil ne_nil
  rw [beginsMarked, Bool.or_eq_false_iff, Bool.or_eq_false_iff, Bool.or_eq_false_iff] at unmarked
  refine next_plain h block (.inl hc) unmarked.1.1.1 black.head ?_
  have ends : endsWord (cs ++ '\n' :: rest) = endsWord cs := by cases cs <;> rfl
  exact (congrArg (_ && ·) ends).trans unmarked.1.1.2

theorem reads_plain {s : String} {w : Nat} (ne_nil : s.toList ≠ [])
    (fits : fitsPlain s.toList = true) (left : k ≤ w) (starts : Starts rest) :
    Reads s .plain w k (s.toList ++ ['\n']) rest := by
  intro l line column f whole keys frame indent right
  have inBlock := indent_of_frame frame indent
  have h := whole
  rw [List.append_assoc, List.singleton_append] at h
  obtain ⟨ks, saved, idle⟩ := saveKey_of_lt (l := l) keys (by rw [inBlock, h.column_eq]; omega)
  obtain ⟨next, scanned, there⟩ : ∃ next, scanPlain false (l.indent + 1)
      (l.cursor.rest.length + 1) [] {} l.cursor = some ([] ++ [] ++ s.toList, true, next) ∧
        next.At rest (line + 1) k :=
    scanPlain_words (words_of_fitsPlain ne_nil fits) h starts.black (by omega) (by omega) (by omega)
      (by rw [h.rest_eq, List.length_append]; omega)
  have block : Lexer.inFlow { l with keys := ks } = false := Idle.inFlow idle
  have step : l.next = some (l.behind ks true next (.scalar s .plain)) := by
    rw [next_of_fitsPlain ne_nil fits h (inFlow_of_none keys) (by omega), plain,
      saved]
    show (scanPlain (Lexer.inFlow { l with keys := ks }) (l.indent + 1) (l.cursor.rest.length + 1)
      [] {} l.cursor).bind _ = _
    rw [block, scanned, List.nil_append, List.nil_append, Option.bind_some]
    simp [behind]
  obtain ⟨l', settled, landed⟩ := settle_landed (l := l.behind ks true next (.scalar s .plain))
    there starts (idle.mono (by rw [h.line_eq])) rfl
  exact ⟨l', _, goes_of_landed (by simp) whole step settled landed, by subst frame; exact landed⟩

theorem scalarLine_quoted (w : Nat) (s : String) : ∃ quote out, (quote = '\'' ∨ quote = '"') ∧
    scalarLine w s .quoted = quote :: (out ++ [quote, '\n']) ∧
      Spells quote (w + 2) s.toList out := by
  rw [scalarLine]
  split
  · next fits =>
    rw [Bool.and_eq_true, fitsSingle_iff] at fits
    obtain ⟨oneLine, shown, apart⟩ := fits
    refine ⟨'\'', insideSingle (w + 2) s.toList, .inl rfl, ?_, spells_single shown apart ?_ _⟩
    · simp [single_eq]
    · simpa using oneLine
  · refine ⟨'"', insideDouble s.toList, .inr rfl, ?_, spells_double _ _⟩
    simp [double_eq]

theorem reads_quoted (s : String) {w : Nat} (starts : Starts rest) :
    Reads s .quoted w k (scalarLine w s .quoted) rest := by
  intro l line column f whole keys frame indent right
  have inBlock := indent_of_frame frame indent
  obtain ⟨quote, out, hq, spelled, spells⟩ := scalarLine_quoted w s
  have h := whole
  rw [spelled] at h
  simp only [List.cons_append, List.append_assoc, List.nil_append] at h
  obtain ⟨ks, saved, idle⟩ := saveKey_of_lt (l := l) keys (by rw [inBlock, h.column_eq]; omega)
  have black : isSpace quote = false := by obtain rfl | rfl := hq <;> rfl
  obtain ⟨next, line', column', scanned, there, later⟩ : ∃ next line' column',
      scanQuoted quote (l.cursor.rest.length + 1) [] (l.cursor.skip 1) =
          some ([] ++ s.toList, next) ∧
        next.At ('\n' :: (blanks k ++ rest)) line' column' ∧ line ≤ line' :=
    scanQuoted_spells spells black (by omega) h.skip_one (by omega) (by simp)
      (by simp [h.rest_eq]; omega)
  have step : l.next = some (l.behind ks false next (.scalar s .quoted)) := by
    rw [next_quoted hq h (by omega), quoted, saved]
    show (scanQuoted quote (l.cursor.rest.length + 1) [] (l.cursor.skip 1)).bind _ = _
    rw [scanned, List.nil_append, Option.bind_some]
    simp [behind]
  obtain ⟨l', settled, landed⟩ := settle_break (l := l.behind ks false next (.scalar s .quoted))
    there starts (idle.mono (by rw [h.line_eq]; omega))
  exact ⟨l', _, goes_of_landed (by simp [spelled]) whole step settled landed,
    by subst frame; exact landed⟩

theorem reads_literal {s : String} {w : Nat} (fits : fitsBlock s.toList = true) (left : k ≤ w)
    (starts : Starts rest) : Reads s .literal w k (scalarLine w s .literal) rest := by
  intro l line column f whole keys frame indent right
  have inBlock := indent_of_frame frame indent
  obtain ⟨filled, shown, -⟩ := fitsBlock_iff.mp fits
  have h : l.cursor.At ('|' :: (blockMarks s.toList ++ '\n' ::
      (indented (w + 2) true s.toList ++ closing s.toList ++ (blanks k ++ rest)))) line column := by
    have := whole
    rw [scalarLine, literal] at this
    simpa [closing] using this
  obtain ⟨next, line', scanned, there, later⟩ := scanBlock_literal filled shown h.skip_one
    starts.black (by omega)
  have step : l.next = some (l.behind [none] true next (.scalar s .literal)) := by
    rw [next_block h (inFlow_of_none keys) (by omega), block, dropKey, keys]
    show (scanBlock true l.indent (l.cursor.skip 1)).bind _ = _
    rw [inBlock, scanned, Option.bind_some]
    simp [behind, keys, inBlock]
  obtain ⟨l', settled, landed⟩ :=
    settle_landed (l := l.behind [none] true next (.scalar s .literal)) there starts (.inl rfl) rfl
  refine ⟨l', _, goes_of_landed ?_ whole step settled landed, by subst frame; exact landed⟩
  rw [scalarLine, literal]
  simp

/-- **A text can be written in a style.** -/
def Fits (s : String) : ScalarStyle → Prop
  | .plain => s.toList ≠ [] ∧ fitsPlain s.toList = true
  | .quoted => True
  | .literal => fitsBlock s.toList = true

/-- **A scalar is read as it was written.** -/
theorem reads_scalarLine {s : String} {style : ScalarStyle} {w : Nat} (fits : Fits s style)
    (left : k ≤ w) (starts : Starts rest) : Reads s style w k (scalarLine w s style) rest := by
  cases style with
  | plain => exact reads_plain fits.1 fits.2 left starts
  | quoted => exact reads_quoted s starts
  | literal => exact reads_literal fits left starts

end Lexer

end Space

end TreeBroker.Yaml
