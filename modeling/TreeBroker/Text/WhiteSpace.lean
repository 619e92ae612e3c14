/-!
# White space and trimming

Names, settings and source lines are trimmed of *Unicode* white space, which is
a wider class than the blanks of a programming language: it holds the no-break
space, the ideographic space and the line and paragraph separators, and it does
not hold the zero-width space. Trimming works on lists of characters, so that
every statement about it is an induction on a list.
-/

namespace TreeBroker.Text

/-- **White space**, as the Unicode property of that name has it. -/
def isWhiteSpace (c : Char) : Bool :=
  let n := c.toNat
  (9 ≤ n && n ≤ 13) || n == 0x20 || n == 0x85 || n == 0xA0 || n == 0x1680 ||
    (0x2000 ≤ n && n ≤ 0x200A) || n == 0x2028 || n == 0x2029 || n == 0x202F ||
    n == 0x205F || n == 0x3000

/-- A text without the white space it begins with. -/
def trimStart (cs : List Char) : List Char := cs.dropWhile isWhiteSpace

/-- A text without the white space it ends with. -/
def trimEnd (cs : List Char) : List Char := (cs.reverse.dropWhile isWhiteSpace).reverse

/-- A text without white space at either end. -/
def trim (cs : List Char) : List Char := trimEnd (trimStart cs)

/-- **Blank**: nothing but white space. -/
def isBlank (s : String) : Bool := s.toList.all isWhiteSpace

@[simp] theorem trimStart_nil : trimStart [] = [] := rfl

@[simp] theorem trimEnd_nil : trimEnd [] = [] := rfl

@[simp] theorem trim_nil : trim [] = [] := rfl

/-- What trimming keeps at the front does not begin with white space. -/
theorem trimStart_of_head {c : Char} {cs : List Char} (h : isWhiteSpace c = false) :
    trimStart (c :: cs) = c :: cs := by
  simp [trimStart, List.dropWhile, h]

end TreeBroker.Text
