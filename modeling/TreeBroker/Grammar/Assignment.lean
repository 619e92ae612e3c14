import TreeBroker.Grammar.Basic

/-!
# The assignment grammar

A small language to exercise everything else: a source is a sequence of lines,
and a line is empty or assigns a number to a name, `x = 12`. Every source
without a NUL character has a tree. What a line lacks is put in as a missing
node, what cannot be understood becomes an error node that takes the rest of
the line.

A line is read from left to right by taking blanks, a word, blanks, the equals
sign, blanks, digits. All of these are single bytes, so the offset of each part
is the count of characters before it; only the end of a line needs the count of
bytes, since the part that is not understood may hold any character.
-/

namespace TreeBroker.Assignment

/-- The name of the grammar. -/
def name : String := "assign"

/-- **The lines of a source**, each with the newline that ends it. -/
def lines : List Char → List (List Char)
  | [] => []
  | c :: cs =>
    if c = '\n' then [c] :: lines cs
    else
      match lines cs with
      | [] => [[c]]
      | line :: rest => (c :: line) :: rest

/-- A blank inside a line. -/
def isBlank (c : Char) : Bool := c == ' ' || c == '\t'

/-- A character of a name. -/
def isWordChar (c : Char) : Bool := Ascii.isAlphanum c || c == '_'

/-- A text cut after the longest beginning of one class. -/
def cut (p : Char → Bool) (cs : List Char) : List Char × List Char :=
  (cs.takeWhile p, cs.dropWhile p)

/-- A text does not begin like a name. -/
def beginsBadly : List Char → Bool
  | [] => true
  | c :: _ => Ascii.isDigit c

/-- The calls for what follows the value, which ends at `valueEnd`. -/
def afterValue (valueEnd stop : Nat) (rest : List Char) : List Call :=
  let (blanks, extra) := cut isBlank rest
  if extra.isEmpty then [.leave valueEnd]
  else [.error (valueEnd + blanks.length) stop, .leave stop]

/-- The calls for what follows the equals sign, which ends at `signEnd`. -/
def afterSign (signEnd stop : Nat) (rest : List Char) : List Call :=
  let (blanks, value) := cut isBlank rest
  let start := signEnd + blanks.length
  let (digits, more) := cut Ascii.isDigit value
  if !digits.isEmpty then
    .leaf (some "value") "number" start (start + digits.length) ::
      afterValue (start + digits.length) stop more
  else if value.isEmpty then [.missing "number" signEnd, .leave signEnd]
  else [.error start stop, .leave stop]

/-- The calls for what follows the name, which ends at `nameEnd`. -/
def afterName (nameEnd stop : Nat) (rest : List Char) : List Call :=
  let (blanks, tail) := cut isBlank rest
  let start := nameEnd + blanks.length
  match tail with
  | [] => [.missing "=" nameEnd, .missing "number" nameEnd, .leave nameEnd]
  | c :: more =>
    if c = '=' then .anonymous "=" start (start + 1) :: afterSign (start + 1) stop more
    else [.error start stop, .leave stop]

/-- **The calls for a line** that begins at `offset`, without its end of line. -/
def lineCalls (offset : Nat) (line : List Char) : List Call :=
  let (blanks, content) := cut isBlank line
  let start := offset + blanks.length
  let stop := offset + Utf8.length line
  if content.isEmpty then []
  else
    let (word, rest) := cut isWordChar content
    if beginsBadly word then [.error start stop]
    else
      .enter none "assignment" start ::
        .leaf (some "name") "identifier" start (start + word.length) ::
        afterName (start + word.length) stop rest

/-- The calls for lines that begin at `offset`. -/
def linesCalls (offset : Nat) : List (List Char) → List Call
  | [] => []
  | line :: rest =>
    lineCalls offset (Text.trimEnd line) ++ linesCalls (offset + Utf8.length line) rest

/-- **The calls for a source.** -/
def calls (source : List Char) : List Call :=
  .enter none "program" 0 :: linesCalls 0 (lines source) ++ [.leave (Utf8.length source)]

/-- **The tree of a source**, or the offset of its first NUL. -/
def parse (source : String) : Except GrammarError Arena :=
  let cs := source.toList
  if cs.contains '\x00' then
    .error ⟨name, .nul, Utf8.length (cs.takeWhile (· ≠ '\x00'))⟩
  else Arena.build name (calls cs)

/-- The assignment grammar as an object. -/
def grammar (identity : Nat) : Grammar := ⟨identity, name, parse⟩

end TreeBroker.Assignment
