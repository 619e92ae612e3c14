import TreeBroker.Path.Components
import TreeBroker.Text.Quoted

/-!
# Paths

A path is a byte string; that it is text is a property it may lack. It keeps
the spelling it was given, which is what is shown, while comparison goes by
components.
-/

namespace TreeBroker

/-- **A path**, as the bytes that spell it. -/
structure FilePath where
  /-- The spelling. -/
  bytes : List UInt8
  deriving Repr, DecidableEq, Inhabited

namespace FilePath

/-- The path that a text spells. -/
def ofString (s : String) : FilePath := ⟨Utf8.bytes s⟩

/-- The path as text, when it is text. -/
def toString? (p : FilePath) : Option String := Utf8.toString? p.bytes

/-- **The path as shown**, with a replacement character for what is not text. -/
def display (p : FilePath) : String := Utf8.display p.bytes

/-- The diagnostic form. -/
def diagnostic (p : FilePath) : String := Quoted.byteString p.bytes

/-- The components, over bytes. -/
def components (p : FilePath) : List (Path.Component UInt8) := Path.components p.bytes

/-- Equality of paths goes by components: `/a//b/` is `/a/b`. -/
def same (p q : FilePath) : Bool := Path.same p.bytes q.bytes

/-- Inside a directory, by components. -/
def startsWith (p dir : FilePath) : Bool := Path.startsWith p.bytes dir.bytes

/-- A path with a `..` component. -/
def hasParent (p : FilePath) : Bool := Path.hasParent p.bytes

/-- A path from the root. -/
def isAbsolute (p : FilePath) : Bool := Path.isAbsolute p.bytes

/-- A name in a directory. -/
def join (dir : FilePath) (name : String) : FilePath :=
  ⟨Path.join dir.bytes (Utf8.bytes name)⟩

/-- The empty path names nothing. -/
def isEmpty (p : FilePath) : Bool := p.bytes.isEmpty

end FilePath

end TreeBroker
