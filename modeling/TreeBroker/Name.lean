import TreeBroker.Text.Ascii
import TreeBroker.Text.WhiteSpace

/-!
# Names of languages and backends

A language is known by a name, and so is a backend. Both are lower-case
identifiers, short enough to stand in a file name, and a value of either type
carries the proof of it: no later stage has to ask again. Validation never
changes a spelling, so a name goes into a table exactly as it was given.
-/

namespace TreeBroker

namespace Name

/-- The longest accepted name. -/
def maxLength : Nat := 64

/-- The longest accepted symbol. -/
def maxSymbolLength : Nat := 128

/-- **An identifier** of at most `limit` characters: a first character of one
class, and all later ones of another. Both classes used are ASCII, so that
characters and bytes are the same count. -/
def isIdentifier (limit : Nat) (first later : Char → Bool) : List Char → Bool
  | [] => false
  | c :: cs => first c && (cs.length + 1 ≤ limit) && cs.all later

/-- A character of a name after its first. -/
def isNameChar (c : Char) : Bool := Ascii.isLower c || Ascii.isDigit c || c == '_'

/-- **A safe name**: a small letter, then small letters, digits, underscores. -/
def isSafe (cs : List Char) : Bool := isIdentifier maxLength Ascii.isLower isNameChar cs

/-- **A safe symbol**: what a linker takes for an exported function. -/
def isSafeSymbol (cs : List Char) : Bool :=
  isIdentifier maxSymbolLength (fun c => Ascii.isAlpha c || c == '_')
    (fun c => Ascii.isAlphanum c || c == '_') cs

/-- Names are spelled in small letters with underscores. -/
def normalize (s : String) : String :=
  String.ofList (Ascii.underscored (Ascii.lower (Text.trim s.toList)))

/-- A setting that says yes: `1`, `true`, `yes` or `on`, in any case. -/
def isTruthy (s : String) : Bool :=
  ["1", "true", "yes", "on"].contains (String.ofList (Ascii.lower (Text.trim s.toList)))

end Name

/-- **The name of a language.** -/
structure LanguageName where
  /-- The spelling. -/
  text : String
  /-- It is a safe name. -/
  safe : Name.isSafe text.toList = true
  deriving DecidableEq

/-- **The name of a backend**, which tells backends apart. -/
structure BackendKind where
  /-- The spelling. -/
  text : String
  /-- It is a safe name. -/
  safe : Name.isSafe text.toList = true
  deriving DecidableEq

namespace LanguageName

/-- The language of a safe name. -/
def ofString? (s : String) : Option LanguageName :=
  if h : Name.isSafe s.toList = true then some ⟨s, h⟩ else none

/-- The name in capitals, as it stands in the name of a variable. -/
def upper (n : LanguageName) : String := String.ofList (Ascii.upper n.text.toList)

/-- The name with dashes, as it stands in the name of a file. -/
def dashed (n : LanguageName) : String := String.ofList (Ascii.dashed n.text.toList)

end LanguageName

namespace BackendKind

/-- The backend of a safe name. -/
def ofString? (s : String) : Option BackendKind :=
  if h : Name.isSafe s.toList = true then some ⟨s, h⟩ else none

/-- A backend's name as a setting spells it: capitals and blanks around it are
forgiven, dashes are not. -/
def ofSetting (s : String) : String := String.ofList (Ascii.lower (Text.trim s.toList))

/-- The binding to native parsers in shared libraries. -/
def treeSitter : BackendKind := ⟨"tree_sitter", by decide⟩

/-- The engine for grammars of this process. -/
def grammar : BackendKind := ⟨"grammar", by decide⟩

/-- Kinds are ordered by their spelling. -/
def le (a b : BackendKind) : Bool := a.text ≤ b.text

end BackendKind

end TreeBroker
