import TreeBroker.Yaml.Node
import TreeBroker.Yaml.Scalar

/-!
# Writing a document

A document is written in block style, a line for each entry. A text is written
plain where that reads back as the same text, else between single quotes, and
between double quotes with escapes where it holds characters that cannot be
shown. A text of several lines is written as a block.
-/

namespace TreeBroker.Yaml

/-- A character that is written as itself. -/
def isPrintable (c : Char) : Bool :=
  let n := c.toNat
  n == 0x0A || (0x20 ≤ n && n ≤ 0x7E) || (0xA0 ≤ n && n ≤ 0xD7FF) ||
    (0xE000 ≤ n && n ≤ 0xFFFD && n != 0xFEFF) || 0x10000 ≤ n

/-- Characters that make a text of a block something else when they begin it. -/
def isLeadMark (c : Char) : Bool := isFlowMark c || "#&*!|>'\"%@`".toList.contains c

/-- The beginning of a text is not that of a plain scalar. -/
def beginsMarked : List Char → Bool
  | [] => false
  | c :: rest =>
    isLeadMark c || ((c == '?' || c == ':' || c == '-') && endsWord rest) ||
      "---".toList.isPrefixOf (c :: rest) || "...".toList.isPrefixOf (c :: rest)

/-- A colon with white space behind it, or a `#` with white space before it. -/
def holdsMark : List Char → Bool
  | [] => false
  | [c] => c == ':'
  | c :: d :: rest =>
    (c == ':' && isSpace d) || (isSpace c && d == '#') || holdsMark (d :: rest)

/-- Two neighbours of given classes. -/
def holdsPair (p q : Char → Bool) : List Char → Bool
  | c :: d :: rest => (p c && q d) || holdsPair p q (d :: rest)
  | _ => false

/-- A text with a break next to a blank, or with characters that cannot be shown,
fits neither plain nor between single quotes. -/
def isAwkward (cs : List Char) : Bool :=
  cs.any (fun c => !isPrintable c) || holdsPair (· == ' ') isBreak cs

/-- Single quotes will do. -/
def fitsSingle (cs : List Char) : Bool := !isAwkward cs && !holdsPair isBreak (· == ' ') cs

/-- A block will do. -/
def fitsBlock (cs : List Char) : Bool :=
  !cs.isEmpty && !isAwkward cs && cs.getLast? != some ' '

/-- No quotes are needed to keep the text together. -/
def fitsPlain (cs : List Char) : Bool :=
  fitsSingle cs && !cs.any isBreak && cs.head? != some ' ' && cs.getLast? != some ' ' &&
    !beginsMarked cs && !holdsMark cs

/-- **The scalar of a text**: a block where it has several lines, else plain where
it reads back as that text. -/
def Node.ofText (s : String) : Node :=
  if s.toList.contains '\n' then
    .scalar s (if fitsBlock s.toList then .literal else .quoted) none
  else if !isAmbiguous s && fitsPlain s.toList then .scalar s .plain none
  else .scalar s .quoted none

/-- Blanks. -/
def blanks (n : Nat) : List Char := List.replicate n ' '

/-- A text whose lines after a break begin with blanks. -/
def indented (width : Nat) : (afterBreak : Bool) → List Char → List Char
  | _, [] => []
  | afterBreak, c :: cs =>
    if isBreak c then c :: indented width true cs
    else if afterBreak then blanks width ++ c :: indented width false cs
    else c :: indented width false cs

/-- Between single quotes. -/
def single (width : Nat) (cs : List Char) : List Char :=
  let doubled := cs.flatMap fun c => if c == '\'' then ['\'', '\''] else [c]
  '\'' :: indented width false doubled ++
    (if cs.getLast?.any isBreak then blanks width else []) ++ ['\'']

/-- The digits of a number in base sixteen, in capitals, at least `width` of
them. -/
def hexDigits (width n : Nat) : List Char :=
  let ds := (Nat.toDigits 16 n).map Char.toUpper
  List.replicate (width - ds.length) '0' ++ ds

/-- A character behind a backslash. -/
def escape (c : Char) : List Char :=
  let n := c.toNat
  if n == 0 then ['0']
  else if n == 7 then ['a']
  else if n == 8 then ['b']
  else if n == 9 then ['t']
  else if n == 10 then ['n']
  else if n == 11 then ['v']
  else if n == 12 then ['f']
  else if n == 13 then ['r']
  else if n == 27 then ['e']
  else if n == 34 then ['"']
  else if n == 92 then ['\\']
  else if n == 0x85 then ['N']
  else if n == 0xA0 then ['_']
  else if n == 0x2028 then ['L']
  else if n == 0x2029 then ['P']
  else if n ≤ 0xFF then 'x' :: hexDigits 2 n
  else if n ≤ 0xFFFF then 'u' :: hexDigits 4 n
  else 'U' :: hexDigits 8 n

/-- Between double quotes. -/
def double (cs : List Char) : List Char :=
  '"' :: cs.flatMap (fun c =>
    if !isPrintable c || isBreak c || c == '"' || c == '\\' then '\\' :: escape c else [c]) ++ ['"']

/-- The header of a block: a width where the text begins with white space, then
what to do with the breaks at the end. -/
def blockMarks (cs : List Char) : List Char :=
  let width := if cs.head?.any (fun c => c == ' ' || isBreak c) then ['2'] else []
  let chomp :=
    match cs.reverse with
    | last :: before :: _ =>
      if !isBreak last then ['-'] else if isBreak before then ['+'] else []
    | [last] => if isBreak last then ['+'] else ['-']
    | [] => ['-']
  width ++ chomp

/-- A text as a block of lines. -/
def literal (width : Nat) (cs : List Char) : List Char :=
  '|' :: blockMarks cs ++ '\n' :: indented width true cs

/-- **A scalar to the end of its line**, in a collection indented by `width`. -/
def scalarLine (width : Nat) (text : String) (style : ScalarStyle) : List Char :=
  let cs := text.toList
  match style with
  | .plain => cs ++ ['\n']
  | .literal => literal (width + 2) cs ++ (if cs.getLast?.any isBreak then [] else ['\n'])
  | .quoted =>
    if !cs.contains '\n' && fitsSingle cs then single (width + 2) cs ++ ['\n']
    else double cs ++ ['\n']

mutual

/-- The lines of a node that is the value of a key at `width`, from behind the
colon. -/
def valueLines (width : Nat) : Node → List Char
  | .scalar text style _ => ' ' :: scalarLine width text style
  | .alias number => ' ' :: '*' :: (toString number).toList ++ ['\n']
  | .sequence [] => " []\n".toList
  | .sequence (n :: ns) => '\n' :: itemLines width (n :: ns)
  | .mapping [] => " \x7b\x7d\n".toList
  | .mapping (e :: es) => '\n' :: entryLines (width + 2) (e :: es)

/-- The lines of the items of a sequence. -/
def itemLines (width : Nat) : List Node → List Char
  | [] => []
  | n :: ns => blanks width ++ '-' :: valueLines width n ++ itemLines width ns

/-- The lines of the entries of a mapping. -/
def entryLines (width : Nat) : List (Node × Node) → List Char
  | [] => []
  | (k, v) :: es =>
    let key :=
      match k with
      | .scalar text _ _ => text.toList
      | _ => []
    blanks width ++ key ++ ':' :: valueLines width v ++ entryLines width es

end

/-- **A mapping as a document.** -/
def write (entries : List (Node × Node)) : String := String.ofList (entryLines 0 entries)

end TreeBroker.Yaml
