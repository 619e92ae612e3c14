import TreeBroker.Arena.Script

/-!
# Grammars of this process

A grammar is a named function from sources to trees. Two grammars are the same
only if they are the same object, whatever their names and however they parse:
functions cannot be compared, so each grammar carries a number that no other
one has.
-/

namespace TreeBroker

/-- **A grammar.** -/
structure Grammar where
  /-- The number that tells it from every other grammar. -/
  identity : Nat
  /-- Its name, which its errors carry. -/
  name : String
  /-- How it parses. -/
  parse : String → Except GrammarError Arena

namespace Grammar

instance : Inhabited Grammar := ⟨⟨0, "", fun _ => .ok ⟨[]⟩⟩⟩

/-- The same object. -/
def isSame (g h : Grammar) : Bool := g.identity == h.identity

/-- A grammar that gives the tree of a fixed script for every source. -/
def scripted (identity : Nat) (name : String) (script : List Call) : Grammar :=
  ⟨identity, name, fun _ => Arena.build name script⟩

/-- A grammar that refuses every source alike. -/
def failing (identity : Nat) (name message : String) (offset : Nat) : Grammar :=
  ⟨identity, name, fun _ => .error ⟨name, .said message, offset⟩⟩

end Grammar

end TreeBroker
