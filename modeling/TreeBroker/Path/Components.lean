/-!
# The components of a path

A path is read as a sequence of components, and two spellings with the same
components are the same path: repeated separators, a separator at the end and
`.` segments leave no component behind. A `.` that begins a relative path does
leave one, since `./a` and `a` are looked up differently.

The separators are ASCII, so a path may be cut as a byte string or as a text
and is cut at the same places. `Alphabet` is what the two readings share, and every
function below is defined once for both.
-/

namespace TreeBroker.Path

/-- **The alphabet of a path**: bytes or characters, with the two that matter. -/
class Alphabet (α : Type) [DecidableEq α] where
  /-- The separator `/`. -/
  slash : α
  /-- The dot that spells `.` and `..` and begins an extension. -/
  dot : α

instance : Alphabet UInt8 := ⟨0x2F, 0x2E⟩

instance : Alphabet Char := ⟨'/', '.'⟩

open Alphabet

variable {α : Type} [DecidableEq α]

/-- **The pieces of a list between separators.** There is always one more piece
than there are separators, so the empty list has one piece, which is empty. -/
def splitOn (sep : α) : List α → List (List α)
  | [] => [[]]
  | c :: cs =>
    if c = sep then [] :: splitOn sep cs
    else
      match splitOn sep cs with
      | [] => [[c]]
      | piece :: pieces => (c :: piece) :: pieces

/-- A component of a path. -/
inductive Component (α : Type) where
  /-- The root, which begins an absolute path. -/
  | root
  /-- A `.` that begins a relative path. -/
  | current
  /-- A `..`, which leaves a directory. -/
  | parent
  /-- A name. -/
  | normal (name : List α)
  deriving Repr, DecidableEq

variable [Alphabet α]

/-- The component that a segment after the first leaves, if any. -/
def Component.ofSegment? (segment : List α) : Option (Component α) :=
  if segment = [] then none
  else if segment = [dot] then none
  else if segment = [dot, dot] then some .parent
  else some (.normal segment)

/-- The component that the first segment of `p` leaves. An empty first segment
is the root's, unless the whole path is empty. -/
def Component.ofFirst? (p segment : List α) : Option (Component α) :=
  if segment = [] then if p = [] then none else some .root
  else if segment = [dot] then some .current
  else Component.ofSegment? segment

/-- **The components of a path.** -/
def components (p : List α) : List (Component α) :=
  match splitOn slash p with
  | [] => []
  | first :: rest =>
    (Component.ofFirst? p first).toList ++ rest.filterMap Component.ofSegment?

/-- A path that begins at the root. -/
def isAbsolute (p : List α) : Bool := p.head? = some slash

/-- A path with a `..` component somewhere. -/
def hasParent (p : List α) : Bool := (components p).contains .parent

/-- **The file name**: the last component, when it is a name. -/
def fileName (p : List α) : Option (List α) :=
  match (components p).getLast? with
  | some (.normal name) => some name
  | _ => none

/-- **The extension**: what follows the last dot of the file name, if something
stands before that dot. -/
def extension (p : List α) : Option (List α) :=
  (fileName p).bind fun name =>
    match (splitOn dot name).reverse with
    | [] | [_] => none
    | [_, []] => none
    | last :: _ => some last

/-- **Inside**: the components of `dir` begin those of `p`. -/
def startsWith (p dir : List α) : Bool := (components dir).isPrefixOf (components p)

/-- The same path, however it is spelled. -/
def same (p q : List α) : Bool := components p = components q

/-- **A relative name in a directory.** The separator is added only after a
directory that is neither empty nor ends in one. -/
def join (dir name : List α) : List α :=
  if isAbsolute name then name
  else
    match dir.getLast? with
    | none => name
    | some c => if c = slash then dir ++ name else dir ++ slash :: name

omit [Alphabet α] in
@[simp] theorem splitOn_nil (sep : α) : splitOn sep [] = [[]] := rfl

omit [Alphabet α] in
/-- Cutting always gives a piece. -/
theorem splitOn_ne_nil (sep : α) (cs : List α) : splitOn sep cs ≠ [] := by
  cases cs with
  | nil => simp [splitOn]
  | cons c cs =>
    unfold splitOn
    split
    · simp
    · split <;> simp

@[simp] theorem components_nil : components ([] : List α) = [] := rfl

end TreeBroker.Path
