import Mathlib
import TreeBroker.Proofs.LexerTurns

/-!
# The tokens of a written document

Indentation is all that a written document says about its structure, and the lexer turns it
into tokens: a block is opened at a key that is further to the right than the block around it,
and closed at the first line that is further to the left. The opening token stands in front of
the key, but is put there only when the colon behind the key is read.

The line behind a value belongs to the entries around it, so that a value is followed up to that
line and not further (`Answers`): it ends with the lexer on that line, with blocks still to be
closed (`LandedOn`). How many are closed is then decided by those who opened them. An induction
on the entries (`goes_entries`) follows the lexer through any document of keys, scalars,
sequences of scalars and further such entries (`Writable`). The entries of a nested mapping are
the same statement at a greater width.
-/

namespace TreeBroker.Yaml

/-! ## Lines -/

/-- **A text that goes on with a line** indented by at most `w`. -/
def IsTail (w : Nat) (text : List Char) : Prop :=
  ∃ k rest, text = blanks k ++ rest ∧ k ≤ w ∧ Starts rest

namespace Lexer

variable {l : Lexer} {rest : List Char} {k line : Nat} {f : Frame}

/-- The lexer has come to the line that a text begins with. -/
def LandedOn (l : Lexer) (text : List Char) (line : Nat) (f : Frame) : Prop :=
  l.Landed (text.takeWhile (· == ' ')).length (text.dropWhile (· == ' ')) line f

theorem landedOn_iff (starts : Starts rest) :
    l.LandedOn (blanks k ++ rest) line f ↔ l.Landed k rest line f := by
  have blank : ∀ ch ∈ blanks k, (ch == ' ') = true := fun _ hch =>
    beq_iff_eq.mpr (List.eq_of_mem_replicate hch)
  have none := starts.black.takeWhile_blank
  have all : rest.dropWhile (· == ' ') = rest := by
    have whole := List.takeWhile_append_dropWhile (p := (· == ' ')) (l := rest)
    rwa [none] at whole
  rw [LandedOn, takeWhile_blanks, none, List.append_nil, List.dropWhile_append_of_pos blank, all,
    blanks, List.length_replicate]

/-- The blocks to the right of a line have been closed. -/
theorem Landed.close {i outer : Int} {is : List Int} {ts : List Token}
    (h : l.Landed k rest line ⟨i, outer :: is, ts⟩) (left : (k : Int) < i) :
    l.Landed k rest line ⟨outer, is, ts ++ [.blockEnd]⟩ := by
  obtain ⟨m, rfl, there, allowed, keys, frame⟩ := h
  obtain ⟨rfl, indents, rfl⟩ := Frame.mk.injEq .. ▸ frame
  have block : m.inFlow = false := inFlow_of_none keys
  exact ⟨_, unroll_of_lt left indents block, there, allowed, keys, rfl⟩

/-- A line at the margin of the innermost block closes none. -/
theorem Landed.stand (h : l.Landed k rest line f) (right : f.indent ≤ k) :
    l.cursor.At rest line k ∧ l.keyAllowed = true ∧ l.keys = [none] ∧ l.frame = f := by
  obtain ⟨m, rfl, there, allowed, keys, rfl⟩ := h
  have same : m.unroll k = m := unroll_of_le right
  rw [same]
  exact ⟨there, allowed, keys, rfl⟩

end Lexer

/-! ## Tokens -/

mutual

/-- The tokens of a node that is the value of a key. -/
def valueTokens : Node → List Token
  | .scalar text style _ => [.scalar text style]
  | .alias number => [.alias (toString number)]
  | .sequence [] => [.flowSequenceStart, .flowSequenceEnd]
  | .sequence (n :: ns) => itemTokens (n :: ns)
  | .mapping [] => [.flowMappingStart, .flowMappingEnd]
  | .mapping (e :: es) => .blockMappingStart :: entryTokens (e :: es) ++ [.blockEnd]

/-- The tokens of the items of a sequence. -/
def itemTokens : List Node → List Token
  | [] => []
  | n :: ns => .blockEntry :: valueTokens n ++ itemTokens ns

/-- The tokens of the entries of a mapping. -/
def entryTokens : List (Node × Node) → List Token
  | [] => []
  | (k, v) :: es => .key :: valueTokens k ++ .value :: valueTokens v ++ entryTokens es

end

/-! ## Keys -/

/-- **A key that is written as it is**: letters and dashes, and no more than a key may have. -/
def isKey (cs : List Char) : Bool :=
  cs.head?.any Ascii.isLower && cs.all (fun c => Ascii.isLower c || c == '-') && cs.length ≤ 256

section Keys

variable {cs rest : List Char} {line column w : Nat}

theorem isKey_iff : isKey cs = true ↔ cs.head?.any Ascii.isLower = true ∧
    (∀ c ∈ cs, Ascii.isLower c = true ∨ c = '-') ∧ cs.length ≤ 256 := by
  simp [isKey, and_assoc]

theorem ne_of_isLower {c d : Char} (h : Ascii.isLower c = true) (hd : Ascii.isLower d = false) :
    c ≠ d := by
  rintro rfl
  rw [h] at hd
  cases hd

theorem not_isSpace_of_isLower {c : Char} (h : Ascii.isLower c = true) : isSpace c = false := by
  have ne (d : Char) (hd : Ascii.isLower d = false) : c ≠ d := ne_of_isLower h hd
  simp [isSpace, isBlank, isBreak, ne ' ' rfl, ne '\t' rfl, ne '\n' rfl, ne '\r' rfl,
    ne '\u0085' rfl, ne '\u2028' rfl, ne '\u2029' rfl]

theorem not_isLeadMark_of_isLower {c : Char} (h : Ascii.isLower c = true) :
    isLeadMark c = false := by
  have marks : [',', '[', ']', '\x7b', '\x7d', '#', '&', '*', '!', '|', '>', '\'', '"', '%', '@',
      '\x60'].all (fun d => !Ascii.isLower d) = true := rfl
  refine Bool.eq_false_of_not_eq_true fun mark => ?_
  have listed :=
    List.all_eq_true.mp marks c (by simpa [isLeadMark, isFlowMark, or_assoc] using mark)
  rw [h] at listed
  cases listed

theorem isWord_of_isKey (h : isKey cs = true) : IsWord cs := by
  obtain ⟨head, letters, -⟩ := isKey_iff.mp h
  have filled : cs ≠ [] := by
    rintro rfl
    cases head
  refine ⟨filled, fun c hc => ?_, fun mark => ?_, fun mark => ?_⟩
  · obtain lower | rfl := letters c hc
    · exact not_isSpace_of_isLower lower
    · rfl
  · obtain lower | dash := letters '#' (List.mem_of_mem_head? mark)
    · cases lower
    · cases dash
  · obtain lower | dash := letters ':' (List.mem_of_getLast? mark)
    · cases lower
    · cases dash

theorem width_le (cs : List Char) : Cursor.width cs ≤ 4 * cs.length := by
  induction cs with
  | nil => exact Nat.le_refl _
  | cons c cs ih =>
    have := Char.utf8Size_le_four c
    rw [List.length_cons]
    show c.utf8Size + Cursor.width cs ≤ _
    omega

theorem exists_lower_of_isKey (h : isKey cs = true) :
    ∃ c ds, cs = c :: ds ∧ Ascii.isLower c = true := by
  obtain ⟨head, -⟩ := isKey_iff.mp h
  obtain ⟨c, ds, rfl⟩ := List.exists_cons_of_ne_nil (isWord_of_isKey h).ne_nil
  exact ⟨c, ds, rfl, head⟩

theorem Cursor.At.not_atDocumentMark_of_isKey {c : Cursor} (hk : isKey cs = true)
    (h : c.At (cs ++ rest) line column) : c.atDocumentMark = false := by
  obtain ⟨d, ds, rfl, lower⟩ := exists_lower_of_isKey hk
  have dash : ('-' == d) = false := beq_false_of_ne (ne_of_isLower lower rfl).symm
  have dot : ('.' == d) = false := beq_false_of_ne (ne_of_isLower lower rfl).symm
  have marks (mark : String) (ch : Char) (rest' : List Char) (spelled : mark.toList = ch :: rest')
      (ne : (ch == d) = false) : c.atMark mark = false := by
    rw [Cursor.atMark, h.rest_eq, spelled, List.cons_append, List.isPrefixOf_cons_cons, ne]
    rfl
  rw [Cursor.atDocumentMark, marks "---" '-' ['-', '-'] rfl dash,
    marks "..." '.' ['.', '.'] rfl dot, Bool.or_self, Bool.and_false]

/-- **A key is read up to its colon.** -/
theorem scanPlain_key {c : Cursor} {margin : Int} {fuel : Nat} (hk : isKey cs = true)
    (h : c.At (cs ++ ':' :: rest) line column) (ends : endsWord rest = true) :
    scanPlain false margin (fuel + 1) [] {} c = some (cs, false, c.skip cs.length) := by
  have word := isWord_of_isKey hk
  have colon : plainWord false (':' :: rest) = some [] := by
    rw [plainWord, ends]
    rfl
  have comment : (c.rest.head? == some '#') = false := by
    obtain ⟨d, ds, rfl, -, ne⟩ := word.exists_cons
    rw [h.rest_eq]
    simpa using ne
  have filled : cs.isEmpty = false := by
    rw [List.isEmpty_eq_false_iff]
    exact word.ne_nil
  rw [scanPlain, h.not_atDocumentMark_of_isKey hk, comment, h.rest_eq,
    plainWord_append word.black word.last_ne colon]
  dsimp only
  rw [filled, h.skip.rest_eq]
  rfl

end Keys

namespace Lexer

/-- The frame with a mapping open at a column. -/
def Frame.opened (f : Frame) (w : Nat) : Frame :=
  if f.indent < w then ⟨w, f.indent :: f.indents, f.tokens ++ [.blockMappingStart]⟩ else f

theorem Frame.indent_opened {f : Frame} {w : Nat} (h : f.indent ≤ w) : (f.opened w).indent = w := by
  rw [Frame.opened]
  split
  · rfl
  · omega

theorem next_value {l : Lexer} {rest : List Char} {line column : Nat}
    (h : l.cursor.At (':' :: rest) line column) (ends : endsWord rest = true) (hc : column ≠ 0) :
    l.next = l.value := by
  rw [next, h.rest_eq]
  simp [h.column_eq, hc, ends]

theorem next_of_isKey {l : Lexer} {cs rest : List Char} {line column : Nat}
    (hk : isKey cs = true) (h : l.cursor.At (cs ++ rest) line column)
    (block : l.inFlow = false) : l.next = l.plain := by
  obtain ⟨c, ds, rfl, lower⟩ := exists_lower_of_isKey hk
  have ne (d : Char) (hd : Ascii.isLower d = false) : c ≠ d := ne_of_isLower lower hd
  have word : (c == '?' || c == ':' || c == '-') = false := by
    simp [ne '?' rfl, ne ':' rfl, ne '-' rfl]
  refine next_plain h block (.inr ⟨ne '%' rfl, ne '-' rfl, ne '.' rfl⟩)
    (not_isLeadMark_of_isLower lower) (not_isSpace_of_isLower lower) ?_
  rw [word, Bool.false_and]

/-- In front of a token there is nothing to pass. -/
theorem settle_stay {l : Lexer} {rest : List Char} {line column : Nat}
    (h : l.cursor.At rest line column) (starts : Starts rest) (fresh : l.dropStaleKeys = some l)
    (open_blocks : l.unroll column = l) : l.settle = some l := by
  rw [settle, skipSpace_blanks (k := 0) h starts, Cursor.skip_zero]
  show l.dropStaleKeys.map _ = _
  rw [fresh, Option.map_some, h.column_eq, open_blocks]

theorem dropKey_of_none {l : Lexer} (keys : l.keys = [none]) : l.dropKey = some l := by
  unfold dropKey
  rw [keys]

theorem dropStaleKeys_current {l : Lexer} {k : PendingKey} (keys : l.keys = [some k])
    (line : l.cursor.line ≤ k.line) (index : l.cursor.index ≤ k.index + 1024) :
    l.dropStaleKeys = some l := by
  have current : (decide (k.line < l.cursor.line) || decide (k.index + 1024 < l.cursor.index)) =
      false := by
    rw [decide_eq_false (by omega), decide_eq_false (by omega), Bool.or_self]
  rw [dropStaleKeys, keys]
  simp only [List.mapM_cons, List.mapM_nil, current, Bool.false_eq_true, if_false]
  show some { l with keys := [some k] } = some l
  rw [← keys]

theorem openBlock_mapping {l : Lexer} {front ts : List Token} (block : l.inFlow = false)
    (tokens : l.tokens = front ++ ts) (column : Nat) :
    (l.openBlock column front.length .blockMappingStart).cursor = l.cursor ∧
      (l.openBlock column front.length .blockMappingStart).frame =
        (Frame.opened ⟨l.indent, l.indents, front⟩ column).add ts := by
  rw [openBlock, block, if_neg Bool.false_ne_true, Frame.opened]
  by_cases opens : l.indent < column
  · rw [if_pos opens, if_pos opens]
    exact ⟨rfl, by simp [frame, emitAt, tokens, Frame.add]⟩
  · rw [if_neg opens, if_neg opens]
    exact ⟨rfl, by simp [frame, tokens, Frame.add]⟩

/-- **A colon puts its key in front** of the tokens since the key began, and a mapping where one
begins. -/
theorem value_of_pending {l : Lexer} {k : PendingKey} {front ts : List Token}
    (keys : l.keys = [some k]) (tokens : l.tokens = front ++ ts)
    (number : k.tokenNumber = front.length) :
    ∃ m, l.value = some m ∧ m.cursor = l.cursor.skip 1 ∧ m.keys = [none] ∧ m.keyAllowed = false ∧
      m.frame = (Frame.opened ⟨l.indent, l.indents, front⟩ k.column).add
        (.key :: ts ++ [.value]) := by
  have block : (l.emitAt front.length .key).inFlow = false := by
    show decide (1 < l.keys.length) = false
    rw [keys]
    rfl
  have keyed : (l.emitAt front.length .key).tokens = front ++ .key :: ts := by
    simp [emitAt, tokens]
  obtain ⟨cursor, frame⟩ := openBlock_mapping block keyed k.column
  rw [value, keys]
  dsimp only
  rw [number]
  generalize (l.emitAt front.length .key).openBlock k.column front.length .blockMappingStart = o
    at cursor frame
  refine ⟨_, rfl, congrArg (Cursor.skip · 1) cursor, rfl, rfl, ?_⟩
  have added := congrArg (Frame.add · [.value]) frame
  simpa [Frame.add, Lexer.frame, skip, emit, emitAt] using added

section Entries

variable {l : Lexer} {cs rest tail : List Char} {line column w : Nat} {f : Frame}

/-- **A key and its colon.** -/
theorem goes_key {key : String} (hk : isKey key.toList = true)
    (h : l.Landed w (key.toList ++ ':' :: rest) line f) (right : f.indent ≤ w)
    (ends : endsWord rest = true) :
    ∃ l₁ m, Goes l l₁ ∧ l₁.next = some m ∧ l₁.cursor.rest = ':' :: rest ∧
      m.cursor.At rest line (w + key.toList.length + 1) ∧ m.keys = [none] ∧
      m.keyAllowed = false ∧ m.frame = (f.opened w).add [.key, .scalar key .plain, .value] := by
  obtain ⟨there, allowed, keys, rfl⟩ := h.stand right
  have filled := List.length_pos_iff.mpr (isWord_of_isKey hk).ne_nil
  set pending : PendingKey := ⟨!l.inFlow && l.indent == (l.cursor.column : Int), l.tokens.length,
    l.cursor.index, l.cursor.line, l.cursor.column⟩ with pending_eq
  set l₁ : Lexer := l.behind [some pending] false (l.cursor.skip key.toList.length)
    (.scalar key .plain) with l₁_eq
  have behind : l₁.cursor.At (':' :: rest) line (w + key.toList.length) := there.skip
  have saved : l.saveKey = some { l with keys := [some pending] } := by
    rw [saveKey, allowed, dropKey, keys]
    simp [keys, allowed, pending]
  have step : l.next = some l₁ := by
    rw [next_of_isKey hk there (inFlow_of_none keys), plain, saved]
    show (scanPlain false (l.indent + 1) (l.cursor.rest.length + 1) [] {} l.cursor).bind _ = _
    rw [scanPlain_key hk there ends, Option.bind_some]
    simp [l₁, Lexer.behind]
  have fresh : l₁.dropStaleKeys = some l₁ := by
    have near := width_le key.toList
    obtain ⟨-, -, short⟩ := isKey_iff.mp hk
    have index : l₁.cursor.index = l.cursor.index + Cursor.width key.toList := by
      show l.cursor.index + Cursor.width (l.cursor.rest.take key.toList.length) = _
      rw [there.rest_eq, List.take_left]
    refine dropStaleKeys_current rfl (Nat.le_of_eq rfl) ?_
    show l₁.cursor.index ≤ l.cursor.index + 1024
    omega
  have settled : l₁.settle = some l₁ := by
    refine settle_stay behind (.cons rfl (by decide) (by decide)) fresh (unroll_of_le ?_)
    show l.indent ≤ _
    have : l.indent ≤ w := right
    omega
  have parted : l₁.tokens = l.tokens ++ [.scalar key .plain] := rfl
  obtain ⟨m, valued, cursor, keys', disallowed, frame⟩ :=
    value_of_pending (k := pending) rfl parted rfl
  refine ⟨l₁, m, .turn step settled ?_, ?_, behind.rest_eq, ?_, keys', disallowed, ?_⟩
  · rw [behind.rest_eq, there.rest_eq, List.length_append]
    omega
  · rw [next_value behind ends (by omega), valued]
  · rw [cursor]
    exact behind.skip_one
  · rw [frame, show pending.column = w from there.column_eq]
    rfl

/-! ## Values -/

/-- **Behind a colon or a dash a value is read as its tokens**, up to the line that follows. Only
behind a dash a key may begin. -/
def Answers (keyAllowed : Bool) (w : Nat) (cs tail : List Char) (ts : List Token) : Prop :=
  ∀ ⦃m : Lexer⦄ ⦃line column : Nat⦄ ⦃f : Frame⦄, m.cursor.At (cs ++ tail) line column →
    m.keys = [none] → m.keyAllowed = keyAllowed → m.frame = f → f.indent = w → w < column →
    ∃ l l' line', m.settle = some l ∧ l.cursor.rest.length ≤ m.cursor.rest.length ∧ Goes l l' ∧
      l'.LandedOn tail line' (f.add ts)

theorem starts_scalarLine {s : String} {style : ScalarStyle} (fits : Fits s style) (w : Nat)
    (tail : List Char) : Starts (scalarLine w s style ++ tail) := by
  cases style with
  | plain =>
    obtain ⟨ne_nil, fits⟩ := fits
    obtain ⟨single, -, -, -, unmarked, -⟩ := fitsPlain_iff.mp fits
    have black := (words_of_fitsPlain ne_nil fits).black []
    have printable := (fitsSingle_iff.mp single).1.printable
    rw [scalarLine]
    obtain ⟨c, cs, spelled⟩ := List.exists_cons_of_ne_nil ne_nil
    rw [spelled] at unmarked black printable ⊢
    refine .cons black.head ?_ ?_
    · rintro rfl
      cases unmarked
    · rintro rfl
      cases printable byteOrderMark List.mem_cons_self
  | quoted =>
    obtain ⟨quote, out, hq, spelled, -⟩ := scalarLine_quoted w s
    rw [spelled]
    obtain rfl | rfl := hq
    · exact .cons rfl (by decide) (by decide)
    · exact .cons rfl (by decide) (by decide)
  | literal => exact .cons rfl (by decide) (by decide)

/-- A scalar is read as a value. -/
theorem answers_scalar {s : String} {style : ScalarStyle} (fits : Fits s style)
    (h : IsTail w tail) (keyAllowed : Bool) :
    Answers keyAllowed w (' ' :: scalarLine w s style) tail [.scalar s style] := by
  intro m line column f there keys _ frame indent right
  obtain ⟨k, rest, rfl, left, starts⟩ := h
  have inBlock := indent_of_frame frame indent
  have moved := settle_blanks (k := 1) (l := m) there (starts_scalarLine fits w _) keys (by omega)
  have atScalar : (m.cursor.skip 1).At (scalarLine w s style ++ (blanks k ++ rest)) line
      (column + 1) := there.skip_one
  obtain ⟨l', line', goes, landed⟩ := reads_scalarLine fits left starts
    (l := { m with cursor := m.cursor.skip 1 }) atScalar keys frame indent (by omega)
  refine ⟨_, l', line', moved, ?_, goes, (landedOn_iff starts).mpr landed⟩
  rw [atScalar.rest_eq, there.rest_eq, List.cons_append, List.length_cons]
  omega

/-- A break leads to the line behind it. -/
theorem settle_tail {m : Lexer} (h : IsTail w tail) (there : m.cursor.At ('\n' :: tail) line column)
    (idle : Idle m.keys (line + 1)) :
    ∃ l, m.settle = some l ∧ l.LandedOn tail (line + 1) m.frame := by
  obtain ⟨k, rest, rfl, -, starts⟩ := h
  obtain ⟨l, settled, landed⟩ := settle_break there starts idle
  exact ⟨l, settled, (landedOn_iff starts).mpr landed⟩

theorem LandedOn.length_le (h : l.LandedOn tail line f) :
    l.cursor.rest.length ≤ tail.length := by
  rw [h.cursor.rest_eq]
  exact List.length_dropWhile_le _ _

theorem next_openFlow (h : l.cursor.At ('[' :: rest) line column) (hc : column ≠ 0) :
    l.next = l.openFlow .flowSequenceStart := by
  rw [next, h.rest_eq]
  simp [h.column_eq, hc]

theorem next_closeFlow (h : l.cursor.At (']' :: rest) line column) (hc : column ≠ 0) :
    l.next = l.closeFlow .flowSequenceEnd := by
  rw [next, h.rest_eq]
  simp [h.column_eq, hc]

/-- An empty sequence is read as a value. -/
theorem answers_empty (h : IsTail w tail) :
    Answers false w " []\n".toList tail [.flowSequenceStart, .flowSequenceEnd] := by
  intro m line column f there keys allowed frame indent right
  have inBlock := indent_of_frame frame indent
  set l : Lexer := { m with cursor := m.cursor.skip 1 }
  set opened : Lexer := l.behind [none, none] true (l.cursor.skip 1) .flowSequenceStart
  set closed : Lexer := opened.behind [none] false (opened.cursor.skip 1) .flowSequenceEnd
  have atOpen : l.cursor.At ('[' :: ']' :: '\n' :: tail) line (column + 1) := there.skip_one
  have atClose : opened.cursor.At (']' :: '\n' :: tail) line (column + 2) := atOpen.skip_one
  have moved : m.settle = some l :=
    settle_blanks (k := 1) there (.cons rfl (by decide) (by decide)) keys (by omega)
  have opens : l.next = some opened := by
    rw [next_openFlow atOpen (by omega), openFlow, saveKey, show l.keyAllowed = false from allowed]
    simp [l, opened, behind, keys, skip]
  have stays : opened.settle = some opened :=
    settle_stay atClose (.cons rfl (by decide) (by decide)) rfl (unroll_of_inFlow rfl _)
  have closes : opened.next = some closed := by
    rw [next_closeFlow atClose (by omega)]
    rfl
  obtain ⟨l', settled, landed⟩ := settle_tail (m := closed) h atClose.skip_one (.inl rfl)
  have shorter := landed.length_le
  refine ⟨l, l', line + 1, moved, ?_, .trans (.turn opens stays ?_) (.turn closes settled ?_), ?_⟩
  · rw [atOpen.rest_eq, there.rest_eq]
    simp
  · rw [atOpen.rest_eq, atClose.rest_eq]
    simp
  · rw [atClose.rest_eq, List.length_cons, List.length_cons]
    omega
  · have frames : closed.frame = f.add [.flowSequenceStart, .flowSequenceEnd] := by
      rw [← frame]
      simp [closed, opened, l, behind, emit, Lexer.frame, Frame.add]
    rwa [← frames]

/-- A nested block is read as a value. -/
theorem answers_nested {ts : List Token} {v : Nat} (starts : IsTail v (cs ++ tail))
    (goes : ∀ {l line} {f : Frame}, l.LandedOn (cs ++ tail) line f → f.indent = w →
      ∃ l' line', Goes l l' ∧ l'.LandedOn tail line' (f.add ts)) :
    Answers false w ('\n' :: cs) tail ts := by
  intro m line column f there keys _ frame indent right
  obtain ⟨l, settled, landed⟩ := settle_tail starts there (.inl keys)
  rw [frame] at landed
  obtain ⟨l', line', went, arrived⟩ := goes landed indent
  refine ⟨l, l', line', settled, ?_, went, arrived⟩
  have := landed.length_le
  rw [there.rest_eq, List.cons_append, List.length_cons]
  omega

/-! ## Items -/

theorem Frame.add_add (f : Frame) (ts us : List Token) : (f.add ts).add us = f.add (ts ++ us) := by
  rw [Frame.add, Frame.add, Frame.add, List.append_assoc]

theorem Frame.add_nil (f : Frame) : f.add [] = f := by
  rw [Frame.add, List.append_nil]

theorem next_blockEntry (h : l.cursor.At ('-' :: ' ' :: rest) line column) :
    l.next = l.blockEntry := by
  have start : l.cursor.atMark "---" = false := by
    rw [Cursor.atMark, h.rest_eq]
    rfl
  have finish : l.cursor.atMark "..." = false := by
    rw [Cursor.atMark, h.rest_eq]
    rfl
  rw [next, h.rest_eq]
  simp [start, finish, endsWord, isSpace, isBlank]

/-- **An item of a sequence at its mapping's own indentation.** -/
theorem goes_item {ts : List Token} (answers : Answers true w (' ' :: cs) tail ts)
    (h : l.LandedOn (blanks w ++ '-' :: (' ' :: cs ++ tail)) line f) (indent : f.indent = w) :
    ∃ l' line', Goes l l' ∧ l'.LandedOn tail line' (f.add (.blockEntry :: ts)) := by
  have landed := (landedOn_iff (.cons rfl (by decide) (by decide))).mp h
  obtain ⟨there, allowed, keys, frame⟩ := landed.stand (Int.le_of_eq indent)
  have inBlock := indent_of_frame frame indent
  set m : Lexer := l.behind [none] true (l.cursor.skip 1) .blockEntry
  have opens : l.openBlock l.cursor.column l.tokens.length .blockSequenceStart = l := by
    rw [openBlock, there.column_eq, inBlock, if_neg (Int.lt_irrefl _), ite_self]
  have step : l.next = some m := by
    rw [next_blockEntry there, blockEntry, opens, allowed]
    simp [dropKey_of_none keys, m, Lexer.behind, keys, skip, emit]
  have framed : m.frame = f.add [.blockEntry] := by
    rw [← frame]
    rfl
  obtain ⟨l₂, l', line', settled, shorter, goes, arrived⟩ :=
    answers (m := m) there.skip_one rfl rfl framed indent (by omega)
  refine ⟨l', line', .trans (.turn step settled ?_) goes, ?_⟩
  · have left : m.cursor.rest.length < l.cursor.rest.length := by
      rw [show m.cursor.rest = _ from there.skip_one.rest_eq, there.rest_eq]
      exact Nat.lt_succ_self _
    omega
  · rwa [Frame.add_add] at arrived

theorem isTail_itemLines (ns : List Node) (h : IsTail w tail) :
    IsTail w (itemLines w ns ++ tail) := by
  cases ns with
  | nil => exact h
  | cons n ns =>
    refine ⟨w, '-' :: (valueLines w n ++ (itemLines w ns ++ tail)), ?_, Nat.le_refl w,
      .cons rfl (by decide) (by decide)⟩
    simp [itemLines]

/-- **The scalars of a sequence.** -/
theorem goes_items {ns : List Node} (h : IsTail w tail)
    (fit : ∀ n ∈ ns, ∃ s style, n = .scalar s style none ∧ Fits s style)
    (landed : l.LandedOn (itemLines w ns ++ tail) line f) (indent : f.indent = w) :
    ∃ l' line', Goes l l' ∧ l'.LandedOn tail line' (f.add (itemTokens ns)) := by
  induction ns generalizing l line f with
  | nil => exact ⟨l, line, .refl l, by rwa [itemTokens, Frame.add_nil]⟩
  | cons n ns ih =>
    rw [List.forall_mem_cons] at fit
    obtain ⟨⟨s, style, rfl, fits⟩, fit⟩ := fit
    have text : itemLines w (.scalar s style none :: ns) ++ tail =
        blanks w ++ '-' :: (' ' :: scalarLine w s style ++ (itemLines w ns ++ tail)) := by
      simp [itemLines, valueLines]
    rw [text] at landed
    obtain ⟨m, line₁, goes, reached⟩ :=
      goes_item (answers_scalar fits (isTail_itemLines ns h) true) landed indent
    obtain ⟨l', line', goes', arrived⟩ := ih fit reached indent
    refine ⟨l', line', goes.trans goes', ?_⟩
    rwa [Frame.add_add] at arrived

end Entries

end Lexer

/-! ## Entries -/

/-- **Entries that are written and read as they are**: keys of letters and dashes, with scalars,
sequences of scalars or further entries as their values. -/
inductive Writable : List (Node × Node) → Prop
  /-- No entries. -/
  | nil : Writable []
  /-- A key with a scalar. -/
  | scalar {key s : String} {style : ScalarStyle} {es : List (Node × Node)}
      (hk : isKey key.toList = true) (fits : Lexer.Fits s style) (rest : Writable es) :
      Writable ((.scalar key .plain none, .scalar s style none) :: es)
  /-- A key with a sequence of scalars. -/
  | sequence {key : String} {ns : List Node} {es : List (Node × Node)}
      (hk : isKey key.toList = true)
      (fit : ∀ n ∈ ns, ∃ s style, n = .scalar s style none ∧ Lexer.Fits s style)
      (rest : Writable es) : Writable ((.scalar key .plain none, .sequence ns) :: es)
  /-- A key with entries. -/
  | mapping {key : String} {e : Node × Node} {inner es : List (Node × Node)}
      (hk : isKey key.toList = true) (entries : Writable (e :: inner)) (rest : Writable es) :
      Writable ((.scalar key .plain none, .mapping (e :: inner)) :: es)

namespace Lexer

section Entries

variable {l : Lexer} {cs rest tail : List Char} {line column w : Nat} {f : Frame}

theorem starts_of_isKey (h : isKey cs = true) : Starts (cs ++ rest) := by
  obtain ⟨c, ds, rfl, lower⟩ := exists_lower_of_isKey h
  exact .cons (not_isSpace_of_isLower lower) (ne_of_isLower lower rfl) (ne_of_isLower lower rfl)

theorem isTail_entryLines {es : List (Node × Node)} (written : Writable es) (h : IsTail w tail) :
    IsTail w (entryLines w es ++ tail) := by
  have entry {key : String} (hk : isKey key.toList = true) (v : Node) (es : List (Node × Node)) :
      IsTail w (entryLines w ((.scalar key .plain none, v) :: es) ++ tail) := by
    refine ⟨w, key.toList ++ ':' :: (valueLines w v ++ (entryLines w es ++ tail)), ?_,
      Nat.le_refl w, starts_of_isKey hk⟩
    simp [entryLines]
  cases written with
  | nil => exact h
  | scalar hk _ _ => exact entry hk _ _
  | sequence hk _ _ => exact entry hk _ _
  | mapping hk _ _ => exact entry hk _ _

/-- **A key and its value.** -/
theorem goes_entry {key : String} {ts : List Token} (hk : isKey key.toList = true)
    (answers : Answers false w cs tail ts) (ends : endsWord (cs ++ tail) = true)
    (h : l.LandedOn (blanks w ++ (key.toList ++ ':' :: (cs ++ tail))) line f)
    (right : f.indent ≤ w) :
    ∃ l' line', Goes l l' ∧
      l'.LandedOn tail line' ((f.opened w).add (.key :: .scalar key .plain :: .value :: ts)) := by
  have landed := (landedOn_iff (starts_of_isKey hk)).mp h
  obtain ⟨l₁, m, goes, step, colon, there, keys, allowed, frame⟩ := goes_key hk landed right ends
  obtain ⟨l₂, l', line', settled, shorter, goes', arrived⟩ :=
    answers there keys allowed frame (Frame.indent_opened right) (by omega)
  refine ⟨l', line', goes.trans (.trans (.turn step settled ?_) goes'), ?_⟩
  · have left : m.cursor.rest.length < l₁.cursor.rest.length := by
      rw [there.rest_eq, colon]
      exact Nat.lt_succ_self _
    omega
  · rwa [Frame.add_add] at arrived

theorem endsWord_valueLines (w : Nat) (v : Node) (tail : List Char) :
    endsWord (valueLines w v ++ tail) = true := by
  match v with
  | .scalar .. | .alias _ | .sequence [] | .sequence (_ :: _) | .mapping [] | .mapping (_ :: _) =>
    rw [valueLines]
    rfl

theorem Frame.opened_of_indent {f : Frame} (h : f.indent = w) : f.opened w = f := by
  rw [Frame.opened, h, if_neg (Int.lt_irrefl _)]

/-- An entry and the entries behind it. -/
theorem goes_cons {key : String} {v : Node} {es : List (Node × Node)}
    (hk : isKey key.toList = true)
    (answers : Answers false w (valueLines w v) (entryLines w es ++ tail) (valueTokens v))
    (others : ∀ {l line} {f : Frame}, l.LandedOn (entryLines w es ++ tail) line f →
      f.indent ≤ w → (es = [] → f.indent = w) →
      ∃ l' line', Goes l l' ∧ l'.LandedOn tail line' ((f.opened w).add (entryTokens es)))
    (landed : l.LandedOn (entryLines w ((.scalar key .plain none, v) :: es) ++ tail) line f)
    (right : f.indent ≤ w) :
    ∃ l' line', Goes l l' ∧ l'.LandedOn tail line'
      ((f.opened w).add (entryTokens ((.scalar key .plain none, v) :: es))) := by
  have text : entryLines w ((.scalar key .plain none, v) :: es) ++ tail =
      blanks w ++ (key.toList ++ ':' :: (valueLines w v ++ (entryLines w es ++ tail))) := by
    simp [entryLines]
  rw [text] at landed
  obtain ⟨m, line₁, goes, reached⟩ :=
    goes_entry hk answers (endsWord_valueLines w v _) landed right
  have indent : ((f.opened w).add
      (.key :: .scalar key .plain :: .value :: valueTokens v)).indent = w :=
    Frame.indent_opened right
  obtain ⟨l', line', goes', arrived⟩ := others reached (Int.le_of_eq indent) fun _ => indent
  refine ⟨l', line', goes.trans goes', ?_⟩
  rw [Frame.opened_of_indent indent, Frame.add_add] at arrived
  simpa [entryTokens, valueTokens] using arrived

/-- The values of a sequence are read. -/
theorem answers_sequence {ns : List Node} (h : IsTail w tail)
    (fit : ∀ n ∈ ns, ∃ s style, n = .scalar s style none ∧ Fits s style) :
    Answers false w (valueLines w (.sequence ns)) tail (valueTokens (.sequence ns)) := by
  cases ns with
  | nil =>
    rw [valueLines, valueTokens]
    exact answers_empty h
  | cons n ns =>
    rw [valueLines, valueTokens]
    exact answers_nested (isTail_itemLines _ h) fun landed indent => goes_items h fit landed indent

/-- The entries of a mapping are read where they are nested, and then it is closed. -/
theorem answers_mapping {es : List (Node × Node)} (h : IsTail w tail) (nested : Writable es)
    (goes : ∀ {l line} {f : Frame}, l.LandedOn (entryLines (w + 2) es ++ tail) line f →
      f.indent ≤ (w + 2 : Nat) → ∃ l' line', Goes l l' ∧
        l'.LandedOn tail line' ((f.opened (w + 2)).add (entryTokens es))) :
    Answers false w ('\n' :: entryLines (w + 2) es) tail
      (.blockMappingStart :: entryTokens es ++ [.blockEnd]) := by
  have deeper : IsTail (w + 2) tail := by
    obtain ⟨k, rest, rfl, left, starts⟩ := h
    exact ⟨k, rest, rfl, by omega, starts⟩
  refine answers_nested (isTail_entryLines nested deeper) fun {l line f} landed indent => ?_
  obtain ⟨l', line', went, arrived⟩ := goes landed (by omega)
  refine ⟨l', line', went, ?_⟩
  obtain ⟨k, rest, rfl, left, starts⟩ := h
  rw [landedOn_iff starts] at arrived ⊢
  rw [Frame.opened, if_pos (by omega)] at arrived
  have closed := arrived.close (show (k : Int) < (w + 2 : Nat) by omega)
  simpa [Frame.add] using closed

/-- **The entries of a mapping**, which is opened at the first of them. -/
theorem goes_entries {es : List (Node × Node)} (written : Writable es) (h : IsTail w tail)
    (landed : l.LandedOn (entryLines w es ++ tail) line f) (right : f.indent ≤ w)
    (opened : es = [] → f.indent = w) :
    ∃ l' line', Goes l l' ∧ l'.LandedOn tail line' ((f.opened w).add (entryTokens es)) := by
  induction written generalizing l line f w tail with
  | nil =>
    refine ⟨l, line, .refl l, ?_⟩
    rwa [entryTokens, Frame.add_nil, Frame.opened_of_indent (opened rfl)]
  | @scalar key s style es hk fits rest ih =>
    have others := isTail_entryLines rest h
    refine goes_cons hk ?_ (ih h) landed right
    rw [valueLines, valueTokens]
    exact answers_scalar fits others false
  | @sequence key ns es hk fit rest ih =>
    have others := isTail_entryLines rest h
    exact goes_cons hk (answers_sequence others fit) (ih h) landed right
  | @mapping key e inner es hk entries rest ihInner ih =>
    have others := isTail_entryLines rest h
    have deeper : IsTail (w + 2) (entryLines w es ++ tail) := by
      obtain ⟨k, rest, text, left, starts⟩ := others
      exact ⟨k, rest, text, by omega, starts⟩
    refine goes_cons hk ?_ (ih h) landed right
    rw [valueLines, valueTokens]
    exact answers_mapping others entries fun landed right => ihInner deeper landed right nofun

end Entries

/-- **The tokens of a written document.** -/
theorem run_entryLines {e : Node × Node} {es : List (Node × Node)} (written : Writable (e :: es)) :
    ∃ l, run ((entryLines 0 (e :: es)).length + 1)
          { cursor := { rest := entryLines 0 (e :: es) } } = some l ∧
      l.tokens = .blockMappingStart :: entryTokens (e :: es) ++ [.blockEnd] := by
  have tail : IsTail 0 [] := ⟨0, [], rfl, Nat.le_refl 0, by simp [Starts, Clear]⟩
  obtain ⟨k, rest, text, left, starts⟩ := isTail_entryLines written tail
  obtain rfl := Nat.le_zero.mp left
  rw [List.append_nil, blanks, List.replicate_zero, List.nil_append] at text
  rw [← text] at starts
  set start : Lexer := { cursor := { rest := entryLines 0 (e :: es) } }
  have there : start.cursor.At (entryLines 0 (e :: es)) 0 0 := ⟨rfl, rfl, rfl⟩
  have stays : start.unroll (0 : Nat) = start := unroll_of_le (show (-1 : Int) ≤ 0 by decide)
  have settled : start.settle = some start := settle_stay there starts rfl stays
  have landed : start.LandedOn (entryLines 0 (e :: es) ++ []) 0 ⟨-1, [], []⟩ := by
    rw [List.append_nil]
    exact (landedOn_iff (k := 0) starts).mpr ⟨start, stays.symm, there, rfl, rfl, rfl⟩
  obtain ⟨l, line, goes, arrived⟩ := goes_entries written tail landed (by decide)
    fun empty => absurd empty (List.cons_ne_nil e es)
  obtain ⟨ended, -, keys, frame⟩ := Landed.stand (k := 0) arrived (Int.le_refl 0)
  obtain ⟨indent, indents, tokens⟩ := Frame.mk.injEq .. ▸ frame
  have block : l.inFlow = false := inFlow_of_none keys
  refine ⟨{ l.emit .blockEnd with indent := -1, indents := [] }, ?_, ?_⟩
  · rw [run_of_goes settled goes ended.rest_eq (Nat.le_refl _), finish,
      unroll_of_lt (by rw [indent]; decide) indents block, unroll_of_le (Int.le_refl _)]
    exact dropKey_of_none keys
  · show l.tokens ++ [.blockEnd] = _
    rw [tokens]
    rfl

end Lexer

end TreeBroker.Yaml
