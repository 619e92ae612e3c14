import TreeBroker.Text.Ascii

/-!
# Tokens of a settings document

A document is cut into tokens before it is read. Besides the punctuation that
stands in the text there are tokens for what only indentation says: that a block
collection begins or ends here.
-/

namespace TreeBroker.Yaml

/-- How a scalar was written. -/
inductive ScalarStyle where
  /-- Without quotes. -/
  | plain
  /-- Between quotes, or as a block whose lines are joined. -/
  | quoted
  /-- As a block that keeps its lines. -/
  | literal
  deriving Repr, DecidableEq

/-- **A token.** -/
inductive Token where
  /-- The version that the document is written in. -/
  | version (major minor : Nat)
  /-- What a handle at the beginning of a type stands for. -/
  | shorthand (handle : List Char) (stem : List UInt8)
  /-- `---` -/
  | documentStart
  /-- `...` -/
  | documentEnd
  /-- The first entry of a block sequence is next. -/
  | blockSequenceStart
  /-- The first key of a block mapping is next. -/
  | blockMappingStart
  /-- The innermost block collection has ended. -/
  | blockEnd
  /-- `[` -/
  | flowSequenceStart
  /-- `]` -/
  | flowSequenceEnd
  /-- An opening brace. -/
  | flowMappingStart
  /-- A closing brace. -/
  | flowMappingEnd
  /-- `-` -/
  | blockEntry
  /-- `,` -/
  | flowEntry
  /-- A key is next. -/
  | key
  /-- `:` -/
  | value
  /-- A name for the node that is next. -/
  | anchor (name : String)
  /-- The node of that name. -/
  | alias (name : String)
  /-- The type of the node that is next: a handle, empty where the type is given
  in full, and what follows it. -/
  | tag (handle : List Char) (suffix : List UInt8)
  /-- A scalar. -/
  | scalar (text : String) (style : ScalarStyle)
  deriving Repr, DecidableEq

/-! ## Character classes -/

/-- A blank. -/
def isBlank (c : Char) : Bool := c == ' ' || c == '\t'

/-- A line break. -/
def isBreak (c : Char) : Bool :=
  c == '\n' || c == '\r' || c == '\u0085' || c == '\u2028' || c == '\u2029'

/-- A blank or a line break. -/
def isSpace (c : Char) : Bool := isBlank c || isBreak c

/-- The text goes on with a blank or a break, or ends. -/
def endsWord : List Char → Bool
  | [] => true
  | c :: _ => isSpace c

/-- The text goes on with a break, or ends. -/
def endsLine : List Char → Bool
  | [] => true
  | c :: _ => isBreak c

/-- A character of a name. -/
def isWordChar (c : Char) : Bool := Ascii.isAlphanum c || c == '_' || c == '-'

/-- A mark of byte order. -/
def byteOrderMark : Char := '\uFEFF'

/-- A character that a document may hold. -/
def isAllowed (c : Char) : Bool :=
  let n := c.toNat
  n == 0x09 || n == 0x0A || n == 0x0D || (0x20 ≤ n && n ≤ 0x7E) || n == 0x85 ||
    (0xA0 ≤ n && n ≤ 0xD7FF) || (0xE000 ≤ n && n ≤ 0xFFFD) || 0x10000 ≤ n

/-- Punctuation of flow collections. -/
def isFlowMark (c : Char) : Bool :=
  c == ',' || c == '[' || c == ']' || c == '\x7b' || c == '\x7d'

/-- Characters that no plain scalar begins with. -/
def isIndicator (c : Char) : Bool :=
  isFlowMark c || "-?:#&*!|>'\"%@`".toList.contains c

end TreeBroker.Yaml
