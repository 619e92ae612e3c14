import TreeBroker.Error

/-!
# Files, directories and links

The library asks three things of a file system: whether a path leads to a
regular file, what the path is with all links resolved, and what a file holds.
A file system is a finite table from locations – the names from the root down,
no links among them – to what stands there.

A path is followed name by name. Every segment, an empty one at the end
included, wants a directory to be looked up in. A link is replaced by its
target; after forty links the path is taken to go in a circle. Names have a
greatest length, and one that is too long is only found to be so where it is
looked up. A path that is opened has a greatest length as well.

A path is followed for two purposes. To open what it leads to, the system goes
from directory to directory, and how deep they lie does not matter. To find the
path with all links resolved, each place on the way is looked up by the resolved
path that has been found so far, which must not be longer than a path may be. So
a file can be open to all while its resolved path cannot be found.
-/

namespace TreeBroker

/-- A name in a directory. -/
abbrev FileName := List UInt8

/-- The names from the root down to a place. -/
abbrev Location := List FileName

/-- **What stands at a location.** -/
inductive FileNode where
  /-- A directory. -/
  | directory
  /-- A regular file. -/
  | file (content : List UInt8)
  /-- A symbolic link. -/
  | link (target : FilePath)
  deriving Repr, DecidableEq

/-- What a system can hold: a NUL byte ends the target of a link, so none is in it. -/
def FileNode.isStorable : FileNode → Bool
  | link target => !target.bytes.contains 0
  | _ => true

/-- **A file system**: what stands where. The root is a directory without being
listed. -/
structure FileSystem where
  /-- The table, one entry a location. -/
  table : List (Location × FileNode)
  /-- No link has a target with a NUL byte. -/
  storable : ∀ entry ∈ table, entry.2.isStorable = true
  deriving Repr

namespace FileSystem

instance : Inhabited FileSystem := ⟨⟨[], by simp⟩⟩

/-- What stands at a location. -/
def lookup (fs : FileSystem) (loc : Location) : Option FileNode :=
  if loc = [] then some .directory else (fs.table.find? fun (l, _) => l == loc).map (·.2)

/-- A location is emptied. -/
def erase (fs : FileSystem) (loc : Location) : FileSystem where
  table := fs.table.filter fun (l, _) => l != loc
  storable entry h := fs.storable entry (List.mem_filter.mp h).1

/-- A location takes a node, whatever it had before. -/
def put (fs : FileSystem) (loc : Location) (node : FileNode)
    (h : node.isStorable = true := by rfl) : FileSystem where
  table := (loc, node) :: (fs.erase loc).table
  storable := List.forall_mem_cons.mpr ⟨h, (fs.erase loc).storable⟩

/-- The most links that are followed on one way. -/
def maxLinks : Nat := 40

/-- The most bytes of a name. -/
def maxName : Nat := 255

/-- The most bytes of a path. -/
def maxPath : Nat := 4095

/-- The segments of a path, which say how to go on from a directory. -/
def segments (p : FilePath) : List FileName := Path.splitOn 47 p.bytes

/-- The segment that stays. -/
def dot : FileName := [46]

/-- The segment that goes up. -/
def dotDot : FileName := [46, 46]

/-- The path of a location. -/
def pathOf (loc : Location) : FilePath :=
  if loc = [] then ⟨[47]⟩ else ⟨loc.flatMap fun name => 47 :: name⟩

/-- What is left of a way wants a directory to go on from: it goes up next, or it has
come to its end behind a separator. -/
def wantsDirectory (rest : List FileName) : Bool :=
  match rest.dropWhile fun seg => seg = [] || seg = dot with
  | [] => !rest.isEmpty
  | next :: _ => next = dotDot

/-- The path of a location, with so many bytes behind it, is longer than a path may be. -/
def isBeyondReach (loc : Location) (more : Nat) : Bool :=
  maxPath < (pathOf loc).bytes.length + more

/-- **Following segments** from a location, with the number of links that may
still be followed. The answer is the location reached, where no link stands; the
last name on the way need not be there.

Places that are looked up by their paths have to be within reach of one, and once
more with a separator behind it where a directory is wanted. -/
def follow (fs : FileSystem) (byPath : Bool) (links : Nat) (loc : Location)
    (segs : List FileName) : Except ReadFailure Location :=
  match segs with
  | [] => .ok loc
  | seg :: rest =>
    match fs.lookup loc with
    | none => .error .missing
    | some (.file _) => .error .notDirectory
    | some (.link _) => .error .notDirectory
    | some .directory =>
      if seg = [] || seg = dot then follow fs byPath links loc rest
      else if seg = dotDot then follow fs byPath links loc.dropLast rest
      else if maxName < seg.length || byPath && isBeyondReach (loc ++ [seg]) 0 then
        .error .tooLong
      else
        match fs.lookup (loc ++ [seg]) with
        | some (.link target) =>
          match links with
          | 0 => .error .circularLinks
          | links + 1 =>
            let start := if target.isAbsolute then [] else loc
            follow fs byPath links start (segments target ++ rest)
        | _ =>
          if byPath && wantsDirectory rest && isBeyondReach (loc ++ [seg]) 1 then .error .tooLong
          else follow fs byPath links (loc ++ [seg]) rest
termination_by (links, segs.length)

/-- Where relative paths begin: a directory with nothing in it. -/
def working : Location := [Utf8.bytes "work"]

/-- Where a path begins. -/
def start (p : FilePath) : Location := if p.isAbsolute then [] else working

/-- What exists at a location that was reached. -/
def existing (fs : FileSystem) (reached : Except ReadFailure Location) :
    Except ReadFailure Location := do
  let loc ← reached
  if (fs.lookup loc).isSome then .ok loc else .error .missing

/-- **The location that a path of any length leads to**, whether or not its last
name is there; the empty path leads nowhere. -/
def destination (fs : FileSystem) (byPath : Bool) (p : FilePath) : Except ReadFailure Location :=
  if p.bytes.contains 0 then .error .nulByte
  else if p.bytes.isEmpty then .error .missing
  else follow fs byPath maxLinks (start p) (segments p)

/-- **The location that a path of any length leads to**, of what exists. -/
def resolve (fs : FileSystem) (p : FilePath) : Except ReadFailure Location :=
  fs.existing (fs.destination false p)

/-- The path is too long to be opened. -/
def isTooLong (p : FilePath) : Bool := maxPath < p.bytes.length && !p.bytes.contains 0

/-- **The location of what is opened** by its path, which has a greatest length. -/
def locate (fs : FileSystem) (p : FilePath) : Except ReadFailure Location :=
  if isTooLong p then .error .tooLong else fs.resolve p

/-- **The location whose path is that with all links resolved**, of what exists. Each
place on the way is looked up by its path. The path itself is taken apart name by
name, so its own length does not matter. -/
def realPath (fs : FileSystem) (p : FilePath) : Except ReadFailure Location :=
  fs.existing (fs.destination true p)

/-- **The path with all links resolved**, where it can be found. -/
def canonicalize? (fs : FileSystem) (p : FilePath) : Option FilePath :=
  (fs.realPath p).toOption.map pathOf

/-- The resolved path where it can be found, any other path as it stands. -/
def canonical (fs : FileSystem) (p : FilePath) : FilePath := (fs.canonicalize? p).getD p

/-- **A regular file** is at the end of the path. -/
def isFile (fs : FileSystem) (p : FilePath) : Bool :=
  match fs.locate p with
  | .ok loc =>
    match fs.lookup loc with
    | some (.file _) => true
    | _ => false
  | .error _ => false

/-- A directory is at the end of the path. -/
def isDirectory (fs : FileSystem) (p : FilePath) : Bool :=
  match fs.locate p with
  | .ok loc => fs.lookup loc == some .directory
  | .error _ => false

/-- The bytes of a file. -/
def read (fs : FileSystem) (p : FilePath) : Except ReadFailure (List UInt8) :=
  match fs.locate p with
  | .error e => .error e
  | .ok loc =>
    match fs.lookup loc with
    | some (.file content) => .ok content
    | some .directory => .error .directory
    | _ => .error .missing

/-- **The text of a file.** -/
def readText (fs : FileSystem) (p : FilePath) : Except Error String :=
  match fs.read p with
  | .error e => .error (.unreadable e)
  | .ok bytes =>
    match Utf8.toString? bytes with
    | some s => .ok s
    | none => .error (.unreadable .notText)

/-- **Within trusted directories.** Links are resolved on both sides, so that a
link cannot lead out of a trusted directory unseen; what has no resolved path is
compared as it is spelled. -/
def isTrusted (fs : FileSystem) (p : FilePath) (trusted : List FilePath) : Bool :=
  !p.hasParent && trusted.any fun dir => (fs.canonical p).startsWith (fs.canonical dir)

end FileSystem

end TreeBroker
