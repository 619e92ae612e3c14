import TreeBroker.Yaml.Token

/-!
# Types and directives

A node may say its type behind a `!`. The type is given in full between angles,
or in short: a handle between exclamation marks and a suffix. What a handle
stands for is said by a directive, a `%` line in front of the document; two
handles are known without one.

A type is a string of bytes. It is spelled in ASCII, and any other byte is
escaped by a `%` and two digits. Escaped bytes come in groups that have the shape
of one character's UTF-8, but which bytes of that shape are one is not looked at.
A zero byte ends a type early.
-/

namespace TreeBroker.Yaml

/-- The bytes of an ASCII text. -/
def asciiBytes (cs : List Char) : List UInt8 := cs.map fun c => UInt8.ofNat c.toNat

/-- The handle of types that belong to a document alone. -/
def ownHandle : List Char := ['!']

/-- The handle of the types that every document knows. -/
def commonHandle : List Char := ['!', '!']

/-- What the handles stand for that need no directive. -/
def knownHandles : List (List Char × List UInt8) :=
  [(ownHandle, asciiBytes ownHandle), (commonHandle, asciiBytes "tag:yaml.org,2002:".toList)]

/-- The type of what stands for nothing. -/
def nullType : List UInt8 := asciiBytes "tag:yaml.org,2002:null".toList

/-- The type of truth values. -/
def boolType : List UInt8 := asciiBytes "tag:yaml.org,2002:bool".toList

/-! ## Types -/

/-- A character of a type. Brackets and commas belong to it only where the type
is given in full. -/
def isTypeChar (full : Bool) (c : Char) : Bool :=
  isWordChar c || ";/?:@&=+$.!~*'()".toList.contains c ||
    (full && (c == ',' || c == '[' || c == ']'))

/-- How many bytes follow the first byte of a character. -/
def followers? (b : Nat) : Option Nat :=
  if b < 0x80 then some 0
  else if b / 32 == 6 then some 1
  else if b / 16 == 14 then some 2
  else if b / 8 == 30 then some 3
  else none

/-- How many bytes have to follow an escaped byte, where `more` had to before. -/
def stillToCome? (more b : Nat) : Option Nat :=
  match more with
  | 0 => followers? b
  | more + 1 => if b / 64 == 2 then some more else none

/-- **The bytes of a type** and what stands behind it; `more` bytes are wanted to
complete a character. -/
def scanType (full : Bool) : (more : Nat) → List Char → Option (List UInt8 × List Char)
  | more, '%' :: a :: b :: rest =>
    match Ascii.digitValue? a, Ascii.digitValue? b with
    | some high, some low =>
      match stillToCome? more (high * 16 + low) with
      | some more' =>
        (scanType full more' rest).map fun (bs, after) =>
          (UInt8.ofNat (high * 16 + low) :: bs, after)
      | none => none
    | _, _ => none
  | more, c :: rest =>
    if more != 0 || c == '%' then none
    else if isTypeChar full c then
      (scanType full 0 rest).map fun (bs, after) => (UInt8.ofNat c.toNat :: bs, after)
    else some ([], c :: rest)
  | more, [] => if more == 0 then some ([], []) else none

/-- The bytes in front of a zero byte. -/
def beforeZero (bs : List UInt8) : List UInt8 := bs.takeWhile (· != 0)

/-- A handle, or the beginning of a type that has none, and what follows it. -/
def scanHandle : List Char → Option (List Char × List Char)
  | '!' :: rest =>
    let word := '!' :: rest.takeWhile isWordChar
    match rest.dropWhile isWordChar with
    | '!' :: after => some (word ++ ['!'], after)
    | after => some (word, after)
  | _ => none

/-- The text is a handle: it ends in a second exclamation mark. -/
def isHandle (cs : List Char) : Bool := 1 < cs.length && cs.getLast? == some '!'

/-- **A type in short**: a handle and a suffix, or a suffix alone, which then
belongs to the document's own handle. A lone `!` has no handle. -/
def scanShort (cs : List Char) : Option (List Char × List UInt8 × List Char) := do
  let (handle, rest) ← scanHandle cs
  let (bytes, after) ← scanType false 0 rest
  if isHandle handle then
    if bytes.isEmpty then none else return (handle, beforeZero bytes, after)
  else
    let suffix := beforeZero (asciiBytes (handle.drop 1) ++ bytes)
    if suffix.isEmpty then return ([], asciiBytes ownHandle, after)
    else return (ownHandle, suffix, after)

/-- **A type**: its handle, its suffix and what stands behind it. -/
def scanTag : List Char → Option (List Char × List UInt8 × List Char)
  | '!' :: '<' :: rest => do
    let (bytes, after) ← scanType true 0 rest
    match after with
    | '>' :: after => if bytes.isEmpty then none else return ([], beforeZero bytes, after)
    | _ => none
  | cs => scanShort cs

/-! ## Directives -/

/-- A part of a version: at most nine digits. -/
def scanVersionPart (cs : List Char) : Option (Nat × List Char) :=
  let ds := cs.takeWhile Ascii.isDigit
  if ds.isEmpty || 9 < ds.length then none
  else some (ds.foldl (fun n d => n * 10 + (d.toNat - 48)) 0, cs.drop ds.length)

/-- The version behind `%YAML`. -/
def scanVersion (cs : List Char) : Option (Token × List Char) := do
  let (major, rest) ← scanVersionPart (cs.dropWhile isBlank)
  match rest with
  | '.' :: rest =>
    let (minor, after) ← scanVersionPart rest
    return (.version major minor, after)
  | _ => none

/-- The handle behind `%TAG` and what it stands for. -/
def scanShorthand (cs : List Char) : Option (Token × List Char) := do
  let (handle, rest) ← scanHandle (cs.dropWhile isBlank)
  if !(handle == ownHandle || isHandle handle) || !rest.head?.any isBlank then none
  else
    let (bytes, after) ← scanType true 0 (rest.dropWhile isBlank)
    if bytes.isEmpty || !endsWord after then none
    else return (.shorthand handle (beforeZero bytes), after)

/-- **A directive**, from behind the `%`, and what stands behind it. Only a comment
may follow on its line. -/
def scanDirective (cs : List Char) : Option (Token × List Char) := do
  let name := cs.takeWhile isWordChar
  let rest := cs.drop name.length
  if !endsWord rest then none
  else
    let (token, after) ←
      if name == "YAML".toList then scanVersion rest
      else if name == "TAG".toList then scanShorthand rest
      else none
    let after := after.dropWhile isBlank
    let after :=
      if after.head? == some '#' then after.dropWhile (fun c => !isBreak c) else after
    if endsLine after then return (token, after) else none

end TreeBroker.Yaml
