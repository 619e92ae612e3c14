import TreeBroker.Text.Quoted

/-!
# Events

What the library does is told by events, each with a level, a fixed message and
the values it is about. Events never change an answer.
-/

namespace TreeBroker

/-- How much an event matters. -/
inductive Level where
  /-- Every single step. -/
  | trace
  /-- What was done. -/
  | debug
  /-- What went wrong and was got over. -/
  | warn
  deriving Repr, DecidableEq

/-- The level as shown. -/
def Level.display : Level → String
  | trace => "TRACE"
  | debug => "DEBUG"
  | warn => "WARN"

/-- The value of an event's field. -/
inductive FieldValue where
  /-- A text. -/
  | text (s : String)
  /-- A count. -/
  | count (n : Nat)
  /-- A truth value. -/
  | flag (b : Bool)
  deriving Repr, DecidableEq

/-- **An event.** -/
structure Event where
  /-- How much it matters. -/
  level : Level
  /-- What happened. -/
  message : String
  /-- What it happened to. -/
  fields : List (String × FieldValue)
  deriving Repr, DecidableEq

/-- An event all of whose fields are texts. -/
def Event.ofTexts (level : Level) (message : String) (fields : List (String × String)) : Event :=
  ⟨level, message, fields.map fun (name, value) => (name, .text value)⟩

end TreeBroker
