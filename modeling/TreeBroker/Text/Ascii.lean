/-!
# The ASCII letter classes

Identifiers, path characters and environment variables are spelled in ASCII.
The classes below hold of no character beyond it, and the case maps leave every
other character alone: `É` is neither a letter nor changed by lowering.
-/

namespace TreeBroker.Ascii

/-- A letter from `a` to `z`. -/
def isLower (c : Char) : Bool := 'a' ≤ c && c ≤ 'z'

/-- A letter from `A` to `Z`. -/
def isUpper (c : Char) : Bool := 'A' ≤ c && c ≤ 'Z'

/-- A letter of either case. -/
def isAlpha (c : Char) : Bool := isLower c || isUpper c

/-- A decimal digit. -/
def isDigit (c : Char) : Bool := '0' ≤ c && c ≤ '9'

/-- A letter or a digit. -/
def isAlphanum (c : Char) : Bool := isAlpha c || isDigit c

/-- The value of a digit in base sixteen, in small letters or capitals. -/
def digitValue? (c : Char) : Option Nat :=
  if isDigit c then some (c.toNat - 48)
  else if 'a' ≤ c && c ≤ 'f' then some (c.toNat - 87)
  else if 'A' ≤ c && c ≤ 'F' then some (c.toNat - 55)
  else none

/-- The small letter of a capital one; every other character is its own. -/
def toLower (c : Char) : Char := if isUpper c then Char.ofNat (c.toNat + 32) else c

/-- The capital of a small letter; every other character is its own. -/
def toUpper (c : Char) : Char := if isLower c then Char.ofNat (c.toNat - 32) else c

/-- A text in small letters. -/
def lower (cs : List Char) : List Char := cs.map toLower

/-- A text in capitals. -/
def upper (cs : List Char) : List Char := cs.map toUpper

/-- Every `old` of a text written as `new`. -/
def replace (old new : Char) (cs : List Char) : List Char :=
  cs.map fun c => if c = old then new else c

/-- A text with its dashes written as underscores, which is how a file name's
words become an identifier's. -/
def underscored (cs : List Char) : List Char := replace '-' '_' cs

/-- A text with its underscores written as dashes. -/
def dashed (cs : List Char) : List Char := replace '_' '-' cs

theorem isLower_iff {c : Char} : isLower c = true ↔ 97 ≤ c.toNat ∧ c.toNat ≤ 122 := by
  simp only [isLower, Bool.and_eq_true, decide_eq_true_eq]
  rfl

theorem isUpper_iff {c : Char} : isUpper c = true ↔ 65 ≤ c.toNat ∧ c.toNat ≤ 90 := by
  simp only [isUpper, Bool.and_eq_true, decide_eq_true_eq]
  rfl

theorem isDigit_iff {c : Char} : isDigit c = true ↔ 48 ≤ c.toNat ∧ c.toNat ≤ 57 := by
  simp only [isDigit, Bool.and_eq_true, decide_eq_true_eq]
  rfl

theorem isAlpha_iff {c : Char} : isAlpha c = true ↔
    97 ≤ c.toNat ∧ c.toNat ≤ 122 ∨ 65 ≤ c.toNat ∧ c.toNat ≤ 90 := by
  rw [isAlpha, Bool.or_eq_true, isLower_iff, isUpper_iff]

@[simp] theorem length_lower (cs : List Char) : (lower cs).length = cs.length := by simp [lower]

@[simp] theorem length_underscored (cs : List Char) :
    (underscored cs).length = cs.length := by simp [underscored, replace]

end TreeBroker.Ascii
