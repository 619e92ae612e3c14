import TreeBroker.Text.Unprintable
import TreeBroker.Text.Utf8

/-!
# Quoted text

The diagnostic form of a value shows a text between double quotes with the
characters escaped that would mislead a reader. A path may hold bytes that are no
text, and these are shown as `\\xFF`.
-/

namespace TreeBroker.Quoted

/-- The digits of a number in base sixteen, small letters. -/
def hexDigits (n : Nat) : List Char := Nat.toDigits 16 n

/-- A character by its number: `\u` and the number in braces. -/
def byNumber (c : Char) : List Char := ['\\', 'u', '\x7b'] ++ hexDigits c.toNat ++ ['\x7d']

/-- One character of a quoted text. -/
def escapeChar (c : Char) : List Char :=
  if c = '\x00' then ['\\', '0']
  else if c = '\t' then ['\\', 't']
  else if c = '\r' then ['\\', 'r']
  else if c = '\n' then ['\\', 'n']
  else if c = '"' then ['\\', '"']
  else if c = '\\' then ['\\', '\\']
  else if Text.isUnprintable c then byNumber c
  else [c]

/-- **A text in quotes.** -/
def text (s : String) : String :=
  String.ofList ('"' :: s.toList.flatMap escapeChar ++ ['"'])

/-- A byte as `\\x` and two digits in capitals. -/
def escapeByte (b : UInt8) : List Char :=
  let digit (n : Nat) : Char := Char.ofNat (if n < 10 then 48 + n else 55 + n)
  ['\\', 'x', digit (b.toNat / 16), digit (b.toNat % 16)]

/-- One piece of a quoted byte string. -/
def escapePiece : Utf8.Piece → List Char
  | .char c => escapeChar c
  | .ill bs => bs.flatMap escapeByte

/-- **A byte string in quotes.** -/
def byteString (bs : List UInt8) : String :=
  String.ofList ('"' :: (Utf8.pieces bs).flatMap escapePiece ++ ['"'])

end TreeBroker.Quoted
