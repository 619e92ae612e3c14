/-!
# UTF-8

Paths are byte strings and need not be text, so a reader of bytes is needed
that can fail – and one that cannot: a path that is not text is still shown to
a user, with a replacement character in the place of each ill-formed piece.
Both come from one description of how bytes fall into pieces (`pieces`).

An ill-formed piece is the longest run of bytes that could have begun a
character and was cut short, or else a single byte. So three stray bytes give
three replacement characters, while the first three bytes of a four-byte
character give one.
-/

namespace TreeBroker.Utf8

/-- The bytes of a text. -/
def encode (cs : List Char) : List UInt8 := cs.flatMap String.utf8EncodeChar

/-- The bytes of a string. -/
def bytes (s : String) : List UInt8 := encode s.toList

/-- The number of bytes of a text. -/
def length (cs : List Char) : Nat := cs.foldr (fun c n => c.utf8Size + n) 0

/-- A byte that continues a character: `10xxxxxx`. -/
def isTail (b : UInt8) : Bool := 0x80 ≤ b && b ≤ 0xBF

/-- The six payload bits of a continuing byte. -/
def payload (b : UInt8) : Nat := b.toNat % 64

/-- **The second byte's range.** After a three- or four-byte lead, the second
byte is restricted further where the plain range would give an overlong form,
a surrogate or a number beyond the last code point. -/
def isSecond (lead b : UInt8) : Bool :=
  if lead = 0xE0 then 0xA0 ≤ b && b ≤ 0xBF
  else if lead = 0xED then 0x80 ≤ b && b ≤ 0x9F
  else if lead = 0xF0 then 0x90 ≤ b && b ≤ 0xBF
  else if lead = 0xF4 then 0x80 ≤ b && b ≤ 0x8F
  else isTail b

/-- **A piece** of a byte string: a character, or bytes that spell none. -/
inductive Piece where
  /-- A well-formed character. -/
  | char (c : Char)
  /-- An ill-formed run of one to three bytes. -/
  | ill (bytes : List UInt8)
  deriving Repr, DecidableEq

/-- The number of bytes that a lead byte announces after itself, `none` where
no character begins with it. -/
def following (lead : UInt8) : Option Nat :=
  if lead < 0x80 then some 0
  else if 0xC2 ≤ lead && lead ≤ 0xDF then some 1
  else if 0xE0 ≤ lead && lead ≤ 0xEF then some 2
  else if 0xF0 ≤ lead && lead ≤ 0xF4 then some 3
  else none

/-- **The first piece** of the bytes `lead :: rest`, with the number of bytes
of `rest` that it takes. -/
def firstPiece (lead : UInt8) (rest : List UInt8) : Piece × Nat :=
  match following lead, rest with
  | some 0, _ => (.char (Char.ofNat lead.toNat), 0)
  | some 1, b :: _ =>
    if isTail b then (.char (Char.ofNat (lead.toNat % 32 * 64 + payload b)), 1)
    else (.ill [lead], 0)
  | some 2, b :: c :: _ =>
    if isSecond lead b then
      if isTail c then
        (.char (Char.ofNat (lead.toNat % 16 * 4096 + payload b * 64 + payload c)), 2)
      else (.ill [lead, b], 1)
    else (.ill [lead], 0)
  | some 2, [b] => if isSecond lead b then (.ill [lead, b], 1) else (.ill [lead], 0)
  | some 3, b :: c :: d :: _ =>
    if isSecond lead b then
      if isTail c then
        if isTail d then
          (.char (Char.ofNat (lead.toNat % 8 * 262144 + payload b * 4096 + payload c * 64
            + payload d)), 3)
        else (.ill [lead, b, c], 2)
      else (.ill [lead, b], 1)
    else (.ill [lead], 0)
  | some 3, [b, c] =>
    if isSecond lead b then
      if isTail c then (.ill [lead, b, c], 2) else (.ill [lead, b], 1)
    else (.ill [lead], 0)
  | some 3, [b] => if isSecond lead b then (.ill [lead, b], 1) else (.ill [lead], 0)
  | _, _ => (.ill [lead], 0)

/-- **The pieces of a byte string**, in order. -/
def pieces : List UInt8 → List Piece
  | [] => []
  | b :: rest =>
    let (piece, n) := firstPiece b rest
    piece :: pieces (rest.drop n)
termination_by bs => bs.length
decreasing_by simp only [List.length_drop, List.length_cons]; omega

/-- The character of a piece that is one. -/
def Piece.char? : Piece → Option Char
  | .char c => some c
  | .ill _ => none

/-- The character shown for a piece: U+FFFD stands for one that is ill-formed. -/
def Piece.shown : Piece → Char
  | .char c => c
  | .ill _ => '\uFFFD'

/-- **Strict decoding**: the text of a byte string that is well-formed UTF-8. -/
def decode? (bs : List UInt8) : Option (List Char) := (pieces bs).mapM Piece.char?

/-- **Lossy decoding**, which never fails. -/
def decodeLossy (bs : List UInt8) : List Char := (pieces bs).map Piece.shown

/-- `decode?` to a string. -/
def toString? (bs : List UInt8) : Option String := (decode? bs).map String.ofList

/-- `decodeLossy` to a string. -/
def display (bs : List UInt8) : String := String.ofList (decodeLossy bs)

/-- The bytes of `bs` from offset `start` up to `stop`; offsets past the end
count as the end. -/
def slice (bs : List UInt8) (start stop : Nat) : List UInt8 := (bs.take stop).drop start

@[simp] theorem encode_nil : encode [] = [] := rfl

@[simp] theorem encode_cons (c : Char) (cs : List Char) :
    encode (c :: cs) = String.utf8EncodeChar c ++ encode cs := by simp [encode]

@[simp] theorem encode_append (cs ds : List Char) :
    encode (cs ++ ds) = encode cs ++ encode ds := by simp [encode]

@[simp] theorem pieces_nil : pieces [] = [] := by rw [pieces]

end TreeBroker.Utf8
