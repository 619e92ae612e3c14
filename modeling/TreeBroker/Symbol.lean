import TreeBroker.Name
import TreeBroker.Path.Components

/-!
# Symbols

A native library exports one function for its language, and its name is the
language's behind a fixed beginning: `tree_sitter_toml`. Library files are named
after it in several ways (`libtree-sitter-toml.so`, `tree_sitter_toml.so`,
`toml.so`), and all of them lead back to the one symbol. Symbols are a normal
form: deriving a symbol from a symbol changes nothing.
-/

namespace TreeBroker.Symbol

/-- What every symbol begins with. -/
def stem : List Char := "tree_sitter_".toList

/-- The rest of a text after a beginning it may have. -/
def after? (beginning : List Char) (cs : List Char) : Option (List Char) :=
  if beginning.isPrefixOf cs then some (cs.drop beginning.length) else none

/-- The words of a file name: up to the first dot, without one `lib` in front,
in small letters with underscores. -/
def words (fileName : List Char) : List Char :=
  let base := (Path.splitOn '.' fileName).headD []
  Ascii.underscored (Ascii.lower ((after? "lib".toList base).getD base))

/-- The words behind the common beginning, which is added where it is missing. -/
def complete (ws : List Char) : List Char := if stem.isPrefixOf ws then ws else stem ++ ws

/-- **The symbol that a library file exports**, from the file's name or path or
from a symbol. `none` where nothing of a name is left. -/
def derive? (cs : List Char) : Option (List Char) :=
  (Path.fileName (Text.trim cs)).bind fun name =>
    let ws := words name
    if ws = [] then none
    else
      let symbol := complete ws
      if stem.length < symbol.length && Name.isSafeSymbol symbol then some symbol else none

/-- `derive?` on strings. -/
def ofFileName? (s : String) : Option String := (derive? s.toList).map String.ofList

/-- **The language of a library file**: its symbol without the beginning, where
that is a name. -/
def language? (s : String) : Option LanguageName :=
  (derive? s.toList).bind fun symbol =>
    (after? stem symbol).bind fun rest => LanguageName.ofString? (String.ofList rest)

/-- **The symbol of a language.** -/
def ofLanguage (n : LanguageName) : String := "tree_sitter_" ++ n.text

end TreeBroker.Symbol
