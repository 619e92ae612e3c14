import TreeBroker.Yaml.Tag

/-!
# Cutting a document into tokens

The block structure of a document is in its indentation, so the lexer keeps the
columns of the open block collections and reports a collection's beginning and
end as tokens of their own. Whether a scalar is a key shows only when a colon
follows it: until then its place among the tokens is kept as a *pending key*,
and the colon puts a key token – and the beginning of a mapping, where one
begins – in front of it.

A pending key does not outlive its line. One that stands where only a key can
stand is *required*, and a document in which it turns out to be none is refused.
The lexer refuses without saying why: `none`.
-/

namespace TreeBroker.Yaml

/-- **A place in the text**, with what follows it. -/
structure Cursor where
  /-- What follows. -/
  rest : List Char
  /-- The number of bytes before. -/
  index : Nat := 0
  /-- The line, from zero. -/
  line : Nat := 0
  /-- The column, from zero. -/
  column : Nat := 0
  deriving Repr

namespace Cursor

/-- The number of bytes that characters take. -/
def width (cs : List Char) : Nat := cs.foldr (fun c n => c.utf8Size + n) 0

/-- The place `n` characters on, on the same line. -/
def skip (c : Cursor) (n : Nat) : Cursor :=
  { c with rest := c.rest.drop n, index := c.index + width (c.rest.take n), column := c.column + n }

/-- The place after a run of characters of the line. -/
def skipWhile (c : Cursor) (p : Char → Bool) : Cursor := c.skip (c.rest.takeWhile p).length

/-- The place at the beginning of the next line, with the break that was passed:
every usual break counts as a newline. -/
def skipBreak (c : Cursor) : List Char × Cursor :=
  match c.rest with
  | '\r' :: '\n' :: rest => (['\n'], ⟨rest, c.index + 2, c.line + 1, 0⟩)
  | b :: rest =>
    if b == '\u2028' || b == '\u2029' then ([b], ⟨rest, c.index + b.utf8Size, c.line + 1, 0⟩)
    else if isBreak b then (['\n'], ⟨rest, c.index + b.utf8Size, c.line + 1, 0⟩)
    else ([], c)
  | [] => ([], c)

/-- The text goes on with `mark` and then a blank, a break or the end. -/
def atMark (c : Cursor) (mark : String) : Bool :=
  mark.toList.isPrefixOf c.rest && endsWord (c.rest.drop mark.length)

/-- A line that ends the document or begins another. -/
def atDocumentMark (c : Cursor) : Bool :=
  c.column == 0 && (c.atMark "---" || c.atMark "...")

end Cursor

/-- The white space between two parts of a scalar. -/
structure Gap where
  /-- A line break was passed. -/
  broken : Bool := false
  /-- The blanks before the first break. -/
  blanks : List Char := []
  /-- The first break. -/
  first : List Char := []
  /-- The breaks after it. -/
  more : List Char := []
  deriving Repr

/-- **What a gap leaves in a scalar**: a single newline becomes a blank, and of
several the first is dropped. -/
def Gap.fold (g : Gap) : List Char :=
  if !g.broken then g.blanks
  else if g.first == ['\n'] then if g.more.isEmpty then [' '] else g.more
  else g.first ++ g.more

/-- The gap at a place and the place after it. Blanks that begin a line are
dropped; where `margin` is given, a tab left of it is refused. -/
def scanGap (margin : Option Int) : Nat → Gap → Cursor → Option (Gap × Cursor)
  | 0, g, c => some (g, c)
  | fuel + 1, g, c =>
    match c.rest with
    | [] => some (g, c)
    | ch :: _ =>
      if isBlank ch then
        if g.broken then
          if ch == '\t' && margin.any (fun m => (c.column : Int) < m) then none
          else scanGap margin fuel g (c.skip 1)
        else scanGap margin fuel { g with blanks := g.blanks ++ [ch] } (c.skip 1)
      else if isBreak ch then
        let (b, next) := c.skipBreak
        if g.broken then scanGap margin fuel { g with more := g.more ++ b } next
        else scanGap margin fuel { g with broken := true, blanks := [], first := b } next
      else some (g, c)

/-! ## Scalars -/

/-- The longest piece of a plain scalar without white space. In flow collections
punctuation ends it, and a colon right before punctuation is refused. -/
def plainWord (flow : Bool) : List Char → Option (List Char)
  | [] => some []
  | c :: cs =>
    if isSpace c then some []
    else if flow && c == ':' && cs.head?.any (fun d => isFlowMark d || d == '?') then none
    else if (c == ':' && endsWord cs) || (flow && isFlowMark c) then some []
    else (plainWord flow cs).map (c :: ·)

/-- A plain scalar, which may go on over lines that are indented to `margin`.
The last result says whether it was followed by a line break. -/
def scanPlain (flow : Bool) (margin : Int) :
    Nat → (text : List Char) → Gap → Cursor → Option (List Char × Bool × Cursor)
  | 0, text, g, c => some (text, g.broken, c)
  | fuel + 1, text, g, c =>
    if c.atDocumentMark || c.rest.head? == some '#' then some (text, g.broken, c)
    else
      match plainWord flow c.rest with
      | none => none
      | some word =>
        let text' := if word.isEmpty then text else text ++ g.fold ++ word
        let g' := if word.isEmpty then g else {}
        let c' := c.skip word.length
        if c'.rest.head?.any isSpace then
          match scanGap (some margin) c'.rest.length g' c' with
          | none => none
          | some (gap, next) =>
            if !flow && (next.column : Int) < margin then some (text', gap.broken, next)
            else scanPlain flow margin fuel text' gap next
        else some (text', g'.broken, c')

/-- The character of a code point; a surrogate or a number beyond the last code
point has none. -/
def codePoint? (n : Nat) : Option Char := if n.isValidChar then some (Char.ofNat n) else none

/-- A number of exactly `width` digits in base sixteen. -/
def hexNumber? (width : Nat) (cs : List Char) : Option Nat :=
  let ds := cs.take width
  if ds.length < width then none
  else
    ds.foldl (fun acc c => do
      let n ← acc
      let d ← Ascii.digitValue? c
      return n * 16 + d) (some 0)

/-- The character that stands behind a backslash, and how many characters spell
it. -/
def escape? : List Char → Option (Char × Nat)
  | [] => none
  | e :: rest =>
    match e with
    | '0' => some ('\x00', 1)
    | 'a' => some ('\x07', 1)
    | 'b' => some ('\x08', 1)
    | 't' => some ('\t', 1)
    | '\t' => some ('\t', 1)
    | 'n' => some ('\n', 1)
    | 'v' => some ('\x0b', 1)
    | 'f' => some ('\x0c', 1)
    | 'r' => some ('\r', 1)
    | 'e' => some ('\x1b', 1)
    | ' ' => some (' ', 1)
    | '"' => some ('"', 1)
    | '/' => some ('/', 1)
    | '\\' => some ('\\', 1)
    | 'N' => some ('\u0085', 1)
    | '_' => some ('\u00a0', 1)
    | 'L' => some ('\u2028', 1)
    | 'P' => some ('\u2029', 1)
    | 'x' => do some (← codePoint? (← hexNumber? 2 rest), 3)
    | 'u' => do some (← codePoint? (← hexNumber? 4 rest), 5)
    | 'U' => do some (← codePoint? (← hexNumber? 8 rest), 9)
    | _ => none

/-- A scalar in quotes, from behind the opening quote to behind the closing one. -/
def scanQuoted (quote : Char) :
    Nat → (text : List Char) → Cursor → Option (List Char × Cursor)
  | 0, _, _ => none
  | fuel + 1, text, c =>
    if c.atDocumentMark then none
    else
      match c.rest with
      | [] => none
      | ch :: rest =>
        if quote == '\'' && ch == '\'' && rest.head? == some '\'' then
          scanQuoted quote fuel (text ++ ['\'']) (c.skip 2)
        else if ch == quote then some (text, c.skip 1)
        else if quote == '"' && ch == '\\' then
          if rest.head?.any isBreak then
            match scanGap none rest.length { broken := true } (c.skip 1).skipBreak.2 with
            | some (g, next) => scanQuoted quote fuel (text ++ g.fold) next
            | none => none
          else
            match escape? rest with
            | some (e, n) => scanQuoted quote fuel (text ++ [e]) (c.skip (n + 1))
            | none => none
        else if isSpace ch then
          match scanGap none c.rest.length {} c with
          | some (g, next) => scanQuoted quote fuel (text ++ g.fold) next
          | none => none
        else scanQuoted quote fuel (text ++ [ch]) (c.skip 1)

/-- What becomes of the breaks at the end of a block scalar. -/
inductive Chomping where
  /-- All are dropped. -/
  | strip
  /-- The first is kept. -/
  | clip
  /-- All are kept. -/
  | keep
  deriving Repr, DecidableEq

/-- The breaks in front of a line of a block scalar. Without a known indentation
(`0`) the widest of the lines passed is remembered. -/
def blockBreaks (indent : Nat) :
    Nat → (widest : Nat) → (breaks : List Char) → Cursor → Option (Nat × List Char × Cursor)
  | 0, widest, breaks, c => some (widest, breaks, c)
  | fuel + 1, widest, breaks, c =>
    let blanks := (c.rest.takeWhile (· == ' ')).length
    let c' := c.skip (if indent == 0 then blanks else min blanks (indent - c.column))
    let widest' := max widest c'.column
    if (indent == 0 || c'.column < indent) && c'.rest.head? == some '\t' then none
    else if c'.rest.head?.any isBreak then
      let (b, next) := c'.skipBreak
      blockBreaks indent fuel widest' (breaks ++ b) next
    else some (widest', breaks, c')

/-- The lines of a block scalar. `first` is the break after the line before,
`more` the breaks after that, `blankBefore` says that the line before began with
a blank. -/
def blockLines (literal : Bool) (indent : Nat) :
    Nat → (text first more : List Char) → (blankBefore : Bool) → Cursor →
      Option (List Char × List Char × List Char × Cursor)
  | 0, text, first, more, _, c => some (text, first, more, c)
  | fuel + 1, text, first, more, blankBefore, c =>
    if c.column != indent || c.rest.isEmpty then some (text, first, more, c)
    else
      let blankNow := c.rest.head?.any isBlank
      let joint :=
        if !literal && first == ['\n'] && !blankBefore && !blankNow then
          if more.isEmpty then [' '] else []
        else first
      let content := c.rest.takeWhile fun ch => !isBreak ch
      let (b, next) := (c.skip content.length).skipBreak
      match blockBreaks indent next.rest.length 0 [] next with
      | none => none
      | some (_, breaks, after) =>
        blockLines literal indent fuel (text ++ joint ++ more ++ content) b breaks blankNow after

/-- The header of a block scalar: its chomping and its own indentation, in
either order. -/
def blockHeader (cs : List Char) : Option (Chomping × Nat × Nat) :=
  let chomp? (c : Char) : Option Chomping :=
    if c == '+' then some .keep else if c == '-' then some .strip else none
  let digit? (c : Char) : Option Nat :=
    if '0' ≤ c && c ≤ '9' then some (c.toNat - 48) else none
  match cs with
  | a :: rest =>
    match chomp? a, digit? a with
    | some ch, _ =>
      match rest.head?.bind digit? with
      | some 0 => none
      | some d => some (ch, d, 2)
      | none => some (ch, 0, 1)
    | none, some 0 => none
    | none, some d =>
      match rest.head?.bind chomp? with
      | some ch => some (ch, d, 2)
      | none => some (.clip, d, 1)
    | none, none => some (.clip, 0, 0)
  | [] => some (.clip, 0, 0)

/-- A block scalar, from behind its indicator; `indent` is that of the
collection it stands in. -/
def scanBlock (literal : Bool) (indent : Int) (c : Cursor) : Option (List Char × Cursor) := do
  let (chomping, own, n) ← blockHeader c.rest
  let c := (c.skip n).skipWhile isBlank
  let c := if c.rest.head? == some '#' then c.skipWhile (fun ch => !isBreak ch) else c
  if !endsLine c.rest then none
  else
    let c := c.skipBreak.2
    let given : Nat := if own == 0 then 0 else if 0 ≤ indent then indent.toNat + own else own
    let (widest, breaks, c) ← blockBreaks given c.rest.length 0 [] c
    let width := if given == 0 then max (max widest (indent + 1).toNat) 1 else given
    let (text, first, more, c) ← blockLines literal width (c.rest.length + 1) [] [] breaks false c
    let text := if chomping == .strip then text else text ++ first
    return (if chomping == .keep then text ++ more else text, c)

/-! ## The lexer -/

/-- **A pending key**: a place among the tokens where a key may begin. -/
structure PendingKey where
  /-- Only a key can stand there. -/
  required : Bool
  /-- How many tokens come before it. -/
  tokenNumber : Nat
  /-- Its place in the text. -/
  index : Nat
  /-- Its line. -/
  line : Nat
  /-- Its column. -/
  column : Nat
  deriving Repr

/-- **The lexer at work.** -/
structure Lexer where
  /-- Where it is. -/
  cursor : Cursor
  /-- The column of the innermost block collection, `-1` outside of any. -/
  indent : Int := -1
  /-- The columns of the block collections around it. -/
  indents : List Int := []
  /-- A key may begin here. -/
  keyAllowed : Bool := true
  /-- The pending key of each open flow collection, innermost first, and of the
  block around them. -/
  keys : List (Option PendingKey) := [none]
  /-- The tokens so far. -/
  tokens : List Token := []
  deriving Repr

namespace Lexer

/-- Inside a flow collection. -/
def inFlow (l : Lexer) : Bool := 1 < l.keys.length

/-- A token at the end. -/
def emit (l : Lexer) (t : Token) : Lexer := { l with tokens := l.tokens ++ [t] }

/-- A token in front of the token of a number. -/
def emitAt (l : Lexer) (number : Nat) (t : Token) : Lexer :=
  { l with tokens := l.tokens.take number ++ t :: l.tokens.drop number }

/-- The lexer `n` characters on. -/
def skip (l : Lexer) (n : Nat) : Lexer := { l with cursor := l.cursor.skip n }

/-- **Pending keys of earlier lines are given up**; a required one is missed. -/
def dropStaleKeys (l : Lexer) : Option Lexer := do
  let keys ← l.keys.mapM fun key =>
    match key with
    | none => some none
    | some k =>
      if k.line < l.cursor.line || k.index + 1024 < l.cursor.index then
        if k.required then none else some none
      else some (some k)
  return { l with keys := keys }

/-- The innermost pending key is given up. -/
def dropKey (l : Lexer) : Option Lexer :=
  match l.keys with
  | some k :: rest => if k.required then none else some { l with keys := none :: rest }
  | _ => some l

/-- A key may begin here. -/
def saveKey (l : Lexer) : Option Lexer :=
  if !l.keyAllowed then some l
  else do
    let key : PendingKey :=
      { required := !l.inFlow && l.indent == (l.cursor.column : Int)
        tokenNumber := l.tokens.length
        index := l.cursor.index
        line := l.cursor.line
        column := l.cursor.column }
    let l ← l.dropKey
    return { l with keys := some key :: l.keys.drop 1 }

/-- A block collection begins at a column, if one is not open there already. -/
def openBlock (l : Lexer) (column : Nat) (number : Nat) (t : Token) : Lexer :=
  if l.inFlow then l
  else if l.indent < (column : Int) then
    { l with indents := l.indent :: l.indents, indent := column }.emitAt number t
  else l

/-- Block collections to the right of a column end. -/
def closeBlocks (column : Int) : (indents : List Int) → Lexer → Lexer
  | [], l => l
  | outer :: rest, l =>
    if l.inFlow then l
    else if column < l.indent then
      closeBlocks column rest { l.emit .blockEnd with indent := outer, indents := rest }
    else l

/-- Block collections to the right of a column end. -/
def unroll (l : Lexer) (column : Int) : Lexer := closeBlocks column l.indents l

/-- White space and comments are passed. A tab counts as white space only where
no key may begin. A mark of byte order that begins a line is passed as well, but
takes a column. -/
def skipSpace : Nat → Lexer → Lexer
  | 0, l => l
  | fuel + 1, l =>
    let tabs := l.inFlow || !l.keyAllowed
    let c := l.cursor
    let c := if c.column == 0 && c.rest.head? == some byteOrderMark then c.skip 1 else c
    let c := c.skipWhile fun ch => ch == ' ' || (tabs && ch == '\t')
    let c := if c.rest.head? == some '#' then c.skipWhile (fun ch => !isBreak ch) else c
    if c.rest.head?.any isBreak then
      let l' := { l with cursor := c.skipBreak.2, keyAllowed := l.keyAllowed || !l.inFlow }
      skipSpace fuel l'
    else { l with cursor := c }

/-- `---` or `...`. -/
def documentMark (l : Lexer) (t : Token) : Option Lexer := do
  let l ← (l.unroll (-1)).dropKey
  return ({ l with keyAllowed := false }.skip 3).emit t

/-- A `%` line, with the break that ends it: no key may begin on the line behind it
either. -/
def directive (l : Lexer) : Option Lexer := do
  let l ← (l.unroll (-1)).dropKey
  let (t, after) ← scanDirective (l.cursor.rest.drop 1)
  let (_, c) := (l.cursor.skip (l.cursor.rest.length - after.length)).skipBreak
  return { l with keyAllowed := false, cursor := c }.emit t

/-- An opening bracket or brace. -/
def openFlow (l : Lexer) (t : Token) : Option Lexer := do
  let l ← l.saveKey
  return ({ l with keys := none :: l.keys, keyAllowed := true }.skip 1).emit t

/-- A closing bracket or brace. -/
def closeFlow (l : Lexer) (t : Token) : Option Lexer := do
  let l ← l.dropKey
  let keys := if l.inFlow then l.keys.drop 1 else l.keys
  return ({ l with keys := keys, keyAllowed := false }.skip 1).emit t

/-- A comma. -/
def flowEntry (l : Lexer) : Option Lexer := do
  let l ← l.dropKey
  return ({ l with keyAllowed := true }.skip 1).emit .flowEntry

/-- A dash. -/
def blockEntry (l : Lexer) : Option Lexer :=
  if !l.inFlow && !l.keyAllowed then none
  else do
    let l := l.openBlock l.cursor.column l.tokens.length .blockSequenceStart
    let l ← l.dropKey
    return ({ l with keyAllowed := true }.skip 1).emit .blockEntry

/-- A question mark. -/
def explicitKey (l : Lexer) : Option Lexer :=
  if !l.inFlow && !l.keyAllowed then none
  else do
    let l := l.openBlock l.cursor.column l.tokens.length .blockMappingStart
    let l ← l.dropKey
    return ({ l with keyAllowed := !l.inFlow }.skip 1).emit .key

/-- **A colon.** With a pending key, the key and the mapping it may begin are put
in front of it. -/
def value (l : Lexer) : Option Lexer :=
  match l.keys with
  | some k :: rest =>
    let l := l.emitAt k.tokenNumber .key
    let l := l.openBlock k.column k.tokenNumber .blockMappingStart
    some (({ l with keys := none :: rest, keyAllowed := false }.skip 1).emit .value)
  | _ =>
    if !l.inFlow && !l.keyAllowed then none
    else
      let l := l.openBlock l.cursor.column l.tokens.length .blockMappingStart
      some (({ l with keyAllowed := !l.inFlow }.skip 1).emit .value)

/-- A name behind `&` or `*`. -/
def named (l : Lexer) (token : String → Token) : Option Lexer := do
  let l ← l.saveKey
  let name := (l.cursor.rest.drop 1).takeWhile isWordChar
  let after := l.cursor.rest.drop (name.length + 1)
  if name.isEmpty then none
  else if !(endsWord after || after.head?.any fun c => "?:,]\x7d%@`".toList.contains c) then none
  else
    return ({ l with keyAllowed := false }.skip (name.length + 1)).emit (token (String.ofList name))

/-- A type behind `!`. -/
def tagged (l : Lexer) : Option Lexer := do
  let l ← l.saveKey
  let (handle, suffix, after) ← scanTag l.cursor.rest
  if !(endsWord after || (l.inFlow && after.head? == some ',')) then none
  else
    return ({ l with keyAllowed := false }.skip (l.cursor.rest.length - after.length)).emit
      (.tag handle suffix)

/-- A block scalar. -/
def block (l : Lexer) (literal : Bool) : Option Lexer := do
  let l ← l.dropKey
  let (text, c) ← scanBlock literal l.indent (l.cursor.skip 1)
  return { l with keyAllowed := true, cursor := c }.emit
    (.scalar (String.ofList text) (if literal then .literal else .quoted))

/-- A scalar in quotes. -/
def quoted (l : Lexer) (quote : Char) : Option Lexer := do
  let l ← l.saveKey
  let (text, c) ← scanQuoted quote (l.cursor.rest.length + 1) [] (l.cursor.skip 1)
  return { l with keyAllowed := false, cursor := c }.emit (.scalar (String.ofList text) .quoted)

/-- A plain scalar. -/
def plain (l : Lexer) : Option Lexer := do
  let l ← l.saveKey
  let (text, broken, c) ←
    scanPlain l.inFlow (l.indent + 1) (l.cursor.rest.length + 1) [] {} l.cursor
  return { l with keyAllowed := broken, cursor := c }.emit (.scalar (String.ofList text) .plain)

/-- **The next token or tokens.** `none` where none begins. -/
def next (l : Lexer) : Option Lexer :=
  match l.cursor.rest with
  | [] => none
  | ch :: rest =>
    let c := l.cursor
    if c.column == 0 && ch == '%' then l.directive
    else if c.column == 0 && c.atMark "---" then l.documentMark .documentStart
    else if c.column == 0 && c.atMark "..." then l.documentMark .documentEnd
    else if ch == '[' then l.openFlow .flowSequenceStart
    else if ch == '\x7b' then l.openFlow .flowMappingStart
    else if ch == ']' then l.closeFlow .flowSequenceEnd
    else if ch == '\x7d' then l.closeFlow .flowMappingEnd
    else if ch == ',' then l.flowEntry
    else if ch == '-' && endsWord rest then l.blockEntry
    else if ch == '?' && (l.inFlow || endsWord rest) then l.explicitKey
    else if ch == ':' && (l.inFlow || endsWord rest) then l.value
    else if ch == '*' then l.named .alias
    else if ch == '&' then l.named .anchor
    else if ch == '!' then l.tagged
    else if ch == '|' && !l.inFlow then l.block true
    else if ch == '>' && !l.inFlow then l.block false
    else if ch == '\'' || ch == '"' then l.quoted ch
    else if !isIndicator ch && !isSpace ch then l.plain
    else if ch == '-' && !rest.head?.any isBlank then l.plain
    else if !l.inFlow && (ch == '?' || ch == ':') && !endsWord rest then l.plain
    else none

/-- The end of the text ends every block. -/
def finish (l : Lexer) : Option Lexer := (l.unroll (-1)).dropKey

/-- The lexer run to the end of the text. -/
def run : Nat → Lexer → Option Lexer
  | 0, l => some l
  | fuel + 1, l => do
    let l := l.skipSpace (l.cursor.rest.length + 1)
    let l ← l.dropStaleKeys
    let l := l.unroll l.cursor.column
    if l.cursor.rest.isEmpty then l.finish
    else run fuel (← l.next)

end Lexer

/-- **The tokens of a document.** -/
def tokens (text : List Char) : Option (List Token) :=
  if text.all isAllowed then
    (Lexer.run (text.length + 1) { cursor := { rest := text } }).map (·.tokens)
  else none

end TreeBroker.Yaml
