import TreeBroker.Text.Quoted

/-!
# Structured data

Reports and settings leave and enter the library as structured data: the values
of JSON, with the fields of an object in the order they were written. A record
decodes from an object, whose unknown fields are ignored, or from a list that
gives its fields in the order of their declaration.
-/

namespace TreeBroker

/-- **A value of structured data.** -/
inductive Json where
  /-- Nothing. -/
  | null
  /-- A truth value. -/
  | bool (b : Bool)
  /-- A whole number. -/
  | int (n : Int)
  /-- Any other number, as it was written. -/
  | decimal (text : String)
  /-- A text. -/
  | string (s : String)
  /-- A list. -/
  | array (items : List Json)
  /-- An object. -/
  | object (fields : List (String × Json))
  deriving Inhabited

namespace Json

/-- A natural number. -/
def nat (n : Nat) : Json := .int n

/-- A list of texts. -/
def strings (ss : List String) : Json := .array (ss.map .string)

/-- A text or nothing. -/
def optional (s : Option String) : Json := s.elim .null .string

/-! ## Decoding -/

/-- The largest whole number that fits a machine word. -/
def maxWord : Int := 18446744073709551615

/-- A whole number from zero up to `maxWord`. -/
def toNat? : Json → Option Nat
  | int n => if 0 ≤ n ∧ n ≤ maxWord then some n.toNat else none
  | _ => none

/-- A truth value. -/
def toBool? : Json → Option Bool
  | bool b => some b
  | _ => none

/-- A text. -/
def toString? : Json → Option String
  | string s => some s
  | _ => none

/-- A list of texts. -/
def toStrings? : Json → Option (List String)
  | array items => items.mapM toString?
  | _ => none

/-- A field of an object. -/
def field? (fields : List (String × Json)) (key : String) : Option Json :=
  (fields.find? fun (k, _) => k == key).map (·.2)

/-- **The fields of a record**, all of which have to be there. -/
def fields? (keys : List String) : Json → Option (List Json)
  | object fields => keys.mapM (field? fields)
  | array items => if items.length = keys.length then some items else none
  | _ => none

/-- **The fields of a record that may be left out.** -/
def optionalFields? (keys : List String) : Json → Option (List (Option Json))
  | object fields => some (keys.map (field? fields))
  | array items =>
    if items.length ≤ keys.length then
      some (items.map some ++ List.replicate (keys.length - items.length) none)
    else none
  | _ => none

/-- **One of several named values**: its name, or an object with the name as its
only key and nothing under it. -/
def oneOf? {α : Type} (values : List α) (name : α → String) : Json → Option α
  | string s => values.find? fun v => name v == s
  | object [(key, .null)] => values.find? fun v => name v == key
  | _ => none

/-! ## Writing

The written form is indented by two blanks a level; an empty list or object
stands on one line. -/

/-- A digit in base sixteen. -/
def hexDigit (n : Nat) : Char := Char.ofNat (if n < 10 then 48 + n else 87 + n)

/-- One character of a written text. -/
def escapeChar (c : Char) : List Char :=
  if c = '"' then ['\\', '"']
  else if c = '\\' then ['\\', '\\']
  else if c = '\n' then ['\\', 'n']
  else if c = '\r' then ['\\', 'r']
  else if c = '\t' then ['\\', 't']
  else if c = '\x08' then ['\\', 'b']
  else if c = '\x0c' then ['\\', 'f']
  else if c.toNat < 32 then
    ['\\', 'u', '0', '0', hexDigit (c.toNat / 16), hexDigit (c.toNat % 16)]
  else [c]

/-- A written text. -/
def quote (s : String) : String := String.ofList ('"' :: s.toList.flatMap escapeChar ++ ['"'])

/-- The beginning of a line at a level. -/
def indent (level : Nat) : String := "\n" ++ String.ofList (List.replicate (2 * level) ' ')

mutual

/-- A value at a level of indentation. -/
def writeAt (level : Nat) : Json → String
  | null => "null"
  | bool b => if b then "true" else "false"
  | int n => toString n
  | decimal text => text
  | string s => quote s
  | array [] => "[]"
  | array (item :: items) =>
    "[" ++ indent (level + 1) ++ writeAt (level + 1) item ++ writeItems (level + 1) items ++
      indent level ++ "]"
  | object [] => "\x7b\x7d"
  | object ((key, value) :: fields) =>
    "\x7b" ++ indent (level + 1) ++ quote key ++ ": " ++ writeAt (level + 1) value ++
      writeFields (level + 1) fields ++ indent level ++ "\x7d"

/-- The items of a list after its first. -/
def writeItems (level : Nat) : List Json → String
  | [] => ""
  | item :: items => "," ++ indent level ++ writeAt level item ++ writeItems level items

/-- The fields of an object after its first. -/
def writeFields (level : Nat) : List (String × Json) → String
  | [] => ""
  | (key, value) :: fields =>
    "," ++ indent level ++ quote key ++ ": " ++ writeAt level value ++ writeFields level fields

end

/-- **The written form** of a value. -/
def write (j : Json) : String := writeAt 0 j

end Json

end TreeBroker
