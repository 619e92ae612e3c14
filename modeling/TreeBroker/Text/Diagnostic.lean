import TreeBroker.Text.Quoted

/-!
# Diagnostic forms

Every value has a diagnostic form on one line: a record is its name and its
fields between braces, a wrapped value its name and the value between
parentheses, a list stands between brackets. A record that keeps some of its
fields to itself ends in two dots.
-/

namespace TreeBroker.Diagnostic

/-- The fields of a record as `name: form`, separated by commas. -/
def fieldList (fields : List (String × String)) : String :=
  ", ".intercalate (fields.map fun (name, form) => name ++ ": " ++ form)

/-- A record with all its fields. -/
def record (name : String) (fields : List (String × String)) : String :=
  name ++ " \x7b " ++ fieldList fields ++ " \x7d"

/-- A record that shows only some of its fields. -/
def partialRecord (name : String) (fields : List (String × String)) : String :=
  name ++ " \x7b " ++ fieldList fields ++ ", .. \x7d"

/-- A value wrapped under a name. -/
def wrapped (name form : String) : String := name ++ "(" ++ form ++ ")"

/-- An optional value. -/
def option (form : Option String) : String :=
  match form with
  | some f => wrapped "Some" f
  | none => "None"

/-- A list of values. -/
def list (forms : List String) : String := "[" ++ ", ".intercalate forms ++ "]"

/-- A truth value. -/
def bool (b : Bool) : String := if b then "true" else "false"

end TreeBroker.Diagnostic
