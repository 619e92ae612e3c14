import TreeBroker.FileSystem

/-!
# Changing a file system

A node is made at a path together with the directories above it. What cannot be
made is left out, and nothing else is: a directory or a link needs a *free place*,
where not even a link stands that leads nowhere, while a file is written wherever
its path leads, through links and over the file that was there. So a link that
leads nowhere is filled by writing to it, and neither a file nor a directory is
ever replaced by a link.

The directories of a path are made from the root down. Each of them is one
already, or takes a free place, or ends the work.
-/

namespace TreeBroker.FileSystem

/-- **The place that a path names**: the location of its last name in a directory
that is there. A link at the place itself is not followed. The root has no place,
and neither has a path that ends in a dot segment. -/
def place? (fs : FileSystem) (p : FilePath) : Option Location :=
  if isTooLong p || p.bytes.contains 0 then none
  else
    match (segments p).reverse.dropWhile (· = []) with
    | [] => none
    | name :: before =>
      if name = dot || name = dotDot || maxName < name.length then none
      else
        match follow fs false maxLinks (start p) (before.reverse ++ [[]]) with
        | .ok dir => some (dir ++ [name])
        | .error _ => none

/-- **The free place that a path names**: nothing stands there yet. -/
def vacancy? (fs : FileSystem) (p : FilePath) : Option Location :=
  (fs.place? p).filter fun loc => (fs.lookup loc).isNone

/-- The path ends in a separator. -/
def endsInSeparator (p : FilePath) : Bool := p.bytes.getLast? == some 47

/-! ## Making -/

/-- The names of a path, `..` among them. -/
def names (p : FilePath) : List FileName := (segments p).filter fun s => s ≠ [] && s ≠ dot

/-- The path that names spell, from the root or from the working directory. -/
def spell (absolute : Bool) (ns : List FileName) : FilePath :=
  if absolute then pathOf ns else ⟨(pathOf ns).bytes.drop 1⟩

/-- The paths that the first names spell: one name, two names, and so on. -/
def beginnings (absolute : Bool) (ns : List FileName) : List FilePath :=
  (List.range ns.length).map fun k => spell absolute (ns.take (k + 1))

/-- **A directory at a path**, where one is or can be. -/
def makeDirectory? (fs : FileSystem) (p : FilePath) : Option FileSystem :=
  if fs.isDirectory p then some fs
  else (fs.vacancy? p).map fun loc => fs.put loc .directory

/-- Directories at paths, up to the first that cannot be made. -/
def makeDirectories (fs : FileSystem) : List FilePath → FileSystem
  | [] => fs
  | p :: ps =>
    match fs.makeDirectory? p with
    | some fs => makeDirectories fs ps
    | none => fs

/-- **The directories along names.** -/
def makeAlong (fs : FileSystem) (absolute : Bool) (ns : List FileName) : FileSystem :=
  if ns.any (·.contains 0) then fs else fs.makeDirectories (beginnings absolute ns)

/-- The directories of a path itself. A dot segment at its end names what has to be
there before, so the last name is then left out. -/
def makePath (fs : FileSystem) (p : FilePath) : FileSystem :=
  let last := (segments p).reverse.find? (· ≠ [])
  fs.makeAlong p.isAbsolute (if last = some dot then (names p).dropLast else names p)

/-- **A link at a path.** An empty target makes none. -/
def makeLink (fs : FileSystem) (p target : FilePath) : FileSystem :=
  if h : (FileNode.link target).isStorable = true then
    if target.isEmpty || isTooLong target || endsInSeparator p then fs
    else
      match fs.vacancy? p with
      | some loc => fs.put loc (.link target) h
      | none => fs
  else fs

/-- **A file written at a path.** -/
def writeFile (fs : FileSystem) (p : FilePath) (content : List UInt8) : FileSystem :=
  if isTooLong p then fs
  else
    match fs.destination false p with
    | .ok loc => if fs.lookup loc = some .directory then fs else fs.put loc (.file content)
    | .error _ => fs

/-- **A node made at a path**, with the directories above it. -/
def create (fs : FileSystem) (p : FilePath) (node : FileNode) : FileSystem :=
  let above := fs.makeAlong p.isAbsolute (names p).dropLast
  match node with
  | .directory => fs.makePath p
  | .link target => above.makeLink p target
  | .file content => above.writeFile p content

/-! ## Removing -/

/-- **The file or link at a path is removed**; a link is not followed, and a
directory stays. A separator at the end asks for a directory. -/
def remove (fs : FileSystem) (p : FilePath) : FileSystem :=
  match fs.place? p with
  | some loc =>
    if endsInSeparator p || fs.lookup loc = some .directory then fs else fs.erase loc
  | none => fs

/-! ## What every system has -/

/-- The directories that every system has. -/
def bare : FileSystem :=
  ["/bin", "/boot", "/dev", "/etc", "/home", "/lib", "/lib64", "/media", "/mnt", "/opt", "/proc",
    "/root", "/run", "/sbin", "/srv", "/sys", "/tmp", "/usr", "/usr/bin", "/usr/include", "/usr/lib",
    "/usr/lib/x86_64-linux-gnu", "/usr/lib64", "/usr/local", "/usr/local/lib", "/usr/sbin",
    "/usr/share", "/var"].foldl
    (fun fs p => fs.create (FilePath.ofString p) .directory)
    ⟨[(working, .directory)], by simp [FileNode.isStorable]⟩

end TreeBroker.FileSystem
