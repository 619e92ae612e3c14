import TreeBroker.Yaml.Token
import TreeBroker.Text.Ascii
import TreeBroker.Path.Components

/-!
# What plain scalars mean

A scalar without quotes may stand for nothing, for a truth value or for a
number; in quotes it is always a text. A writer has to know this to put quotes
around a text that would otherwise be read as something else.
-/

namespace TreeBroker.Yaml

/-- A plain scalar that stands for nothing. -/
def isNull (s : String) : Bool := ["", "~", "null", "Null", "NULL"].contains s

/-- The truth value that a plain scalar stands for. -/
def toBool? (s : String) : Option Bool :=
  if ["true", "True", "TRUE"].contains s then some true
  else if ["false", "False", "FALSE"].contains s then some false
  else none

/-- A text without a sign in front. -/
def unsigned : List Char → List Char
  | '+' :: cs => cs
  | '-' :: cs => cs
  | cs => cs

/-- Several digits with a zero in front are a text, though they look like a
number. -/
def isPaddedNumber (cs : List Char) : Bool :=
  match unsigned cs with
  | '0' :: c :: rest => (c :: rest).all Ascii.isDigit
  | _ => false

/-- The number that digits spell in a base. -/
def digits? (base : Nat) (cs : List Char) : Option Nat :=
  if cs.isEmpty then none
  else
    cs.foldl (fun acc c => do
      let n ← acc
      let d ← Ascii.digitValue? c
      if d < base then some (n * base + d) else none) (some 0)

/-- Whole numbers are read up to 128 bits, of which a negative one spends one on
its sign. -/
def fitsWord (negative : Bool) (n : Nat) : Bool :=
  if negative then n ≤ Nat.pow 2 127 else n < Nat.pow 2 128

/-- A whole number in base sixteen, eight or two. -/
def isBasedInteger (cs : List Char) : Bool :=
  let fits := fitsWord (cs.head? == some '-')
  match unsigned cs with
  | '0' :: 'x' :: rest => (digits? 16 rest).any fits
  | '0' :: 'o' :: rest => (digits? 8 rest).any fits
  | '0' :: 'b' :: rest => (digits? 2 rest).any fits
  | _ => false

/-- A decimal number has an exponent in front of which digits stand, with at
most one point among them. -/
def mantissa? (cs : List Char) : Option (List Char × List Char) :=
  let whole := cs.takeWhile Ascii.isDigit
  match cs.dropWhile Ascii.isDigit with
  | '.' :: rest =>
    let part := rest.takeWhile Ascii.isDigit
    if whole.isEmpty && part.isEmpty then none
    else some (whole ++ part, rest.dropWhile Ascii.isDigit)
  | rest => if whole.isEmpty then none else some (whole, rest)

/-- The number of digits after the point. -/
def places (cs : List Char) : Nat :=
  match cs.dropWhile Ascii.isDigit with
  | '.' :: rest => (rest.takeWhile Ascii.isDigit).length
  | _ => 0

/-- The exponent of a decimal number. -/
def exponent? : List Char → Option Int
  | [] => some 0
  | e :: rest =>
    if e == 'e' || e == 'E' then
      match rest with
      | '-' :: ds => (digits? 10 ds).map fun n => -(n : Int)
      | '+' :: ds => (digits? 10 ds).map fun n => (n : Int)
      | ds => (digits? 10 ds).map fun n => (n : Int)
    else none

/-- A decimal number is finite unless it rounds beyond the largest double. -/
def isFinite (digits : Nat) (power : Int) : Bool :=
  if digits = 0 then true
  else if power ≤ 0 then
    if power < -100000 then true
    else digits < (Nat.pow 2 1024 - Nat.pow 2 970) * Nat.pow 10 power.natAbs
  else if power > 400 then false
  else digits * Nat.pow 10 power.natAbs < Nat.pow 2 1024 - Nat.pow 2 970

/-- A decimal number, with or without a point and an exponent. -/
def isDecimal (cs : List Char) : Bool :=
  let body := unsigned cs
  match mantissa? body with
  | none => false
  | some (ds, tail) =>
    match digits? 10 ds, exponent? tail with
    | some n, some e => isFinite n (e - places body)
    | _, _ => false

/-- The names of what is no finite number. -/
def isInfinityOrNan (s : String) : Bool :=
  [".inf", ".Inf", ".INF", "+.inf", "+.Inf", "+.INF", "-.inf", "-.Inf", "-.INF", ".nan", ".NaN",
    ".NAN"].contains s

/-- A plain scalar that stands for a number. -/
def isNumber (s : String) : Bool :=
  let cs := s.toList
  isBasedInteger cs || isInfinityOrNan s || (!isPaddedNumber cs && isDecimal cs)

/-- **Ambiguous**: written plain, the text would be read as something else, or
be taken for a number by another reader. -/
def isAmbiguous (s : String) : Bool :=
  isNull s || (toBool? s).isSome || isNumber s || isPaddedNumber s.toList

end TreeBroker.Yaml
