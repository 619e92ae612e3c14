import TreeBroker.Path.Basic
import TreeBroker.Text.Ascii
import TreeBroker.Text.WhiteSpace

/-!
# Which library paths are accepted

A native library runs its code when it is loaded, so the path that names one is
judged before anything is opened. The judgement here is on the spelling alone:
it holds or fails whether or not a file is there. What fails is reported with
one reason, the first of a fixed order, so that a path with two faults is
reported alike every time.
-/

namespace TreeBroker

/-- **Why a library path is refused.** -/
inductive Rejection where
  /-- White space at an end of the path. -/
  | whitespace
  /-- A `..` segment. -/
  | traversal
  /-- Not the extension of a native library. -/
  | extension
  /-- A relative path. -/
  | notAbsolute
  /-- Not text, or a character outside the accepted class. -/
  | invalidCharacters
  /-- In no trusted directory. -/
  | untrustedDirectory
  /-- No file there. -/
  | notFound
  deriving Repr, DecidableEq

namespace Rejection

/-- All reasons. -/
def all : List Rejection :=
  [whitespace, traversal, extension, notAbsolute, invalidCharacters, untrustedDirectory, notFound]

/-- The identifier of a reason, for programs. -/
def identifier : Rejection → String
  | whitespace => "whitespace"
  | traversal => "traversal"
  | extension => "extension"
  | notAbsolute => "not_absolute"
  | invalidCharacters => "invalid_characters"
  | untrustedDirectory => "untrusted_directory"
  | notFound => "not_found"

/-- The text of a reason, for people. -/
def message : Rejection → String
  | whitespace => "leading or trailing whitespace"
  | traversal => "path traversal segment"
  | extension => "not a native library for this platform"
  | notAbsolute => "path is not absolute"
  | invalidCharacters => "disallowed characters"
  | untrustedDirectory => "outside trusted directories"
  | notFound => "file does not exist"

end Rejection

namespace FilePath

/-- The extension of a native library. -/
def libraryExtension : String := "so"

/-- A path with the extension of a native library. -/
def isLibrary (p : FilePath) : Bool :=
  Path.extension p.bytes = some (Utf8.bytes libraryExtension)

/-- **The structural check**, for a library path from any source: the first
reason in the order of the cases below, or `none`. -/
def rejection? (p : FilePath) : Option Rejection :=
  match Utf8.decode? p.bytes with
  | none => some .invalidCharacters
  | some cs =>
    if cs = [] then some .notAbsolute
    else if Text.trim cs ≠ cs then some .whitespace
    else if p.hasParent then some .traversal
    else if !p.isAbsolute then some .notAbsolute
    else if !p.isLibrary then some .extension
    else none

/-- A character that a path from the environment may hold. -/
def isPlainChar (c : Char) : Bool :=
  Ascii.isAlphanum c || c == '/' || c == '.' || c == '_' || c == '-' || c == '+' || c == '@'

/-- **The character check**, for a path from the environment. -/
def characterRejection? (p : FilePath) : Option Rejection :=
  match Utf8.decode? p.bytes with
  | none => some .invalidCharacters
  | some cs => if cs.all isPlainChar then none else some .invalidCharacters

/-- The system directories that package managers install libraries into. -/
def systemDirectories : List FilePath :=
  ["/usr/lib", "/usr/lib64", "/usr/local/lib", "/usr/lib/x86_64-linux-gnu",
    "/usr/lib/aarch64-linux-gnu"].map ofString

end FilePath

end TreeBroker
