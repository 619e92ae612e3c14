import TreeBroker.Arena.Basic

/-!
# Trees in parentheses

A tree is shown as its named nodes in parentheses, each child behind its field.
Punctuation is left out, unless the source lacks it. The descent goes to
children, whose indices are larger than their parent's, so it ends after as many
levels as there are nodes; `depth` is that bound.
-/

namespace TreeBroker.Arena

/-- Whether a child is shown. -/
def isShown (a : Arena) (i : Nat) : Bool :=
  match a.get? i with
  | some e => e.named || e.missing
  | none => false

/-- A node in parentheses, with at most `depth` levels below it. -/
def sexpAt (a : Arena) : (depth : Nat) → (i : Nat) → String
  | 0, _ => ""
  | depth + 1, i =>
    match a.get? i with
    | none => ""
    | some e =>
      if e.missing then "(MISSING " ++ e.kind ++ ")"
      else
        let shown := e.children.filter a.isShown
        let part (j : Nat) : String :=
          let label :=
            match (a.get? j).bind (·.field) with
            | some field => field ++ ": "
            | none => ""
          " " ++ label ++ sexpAt a depth j
        "(" ++ e.kind ++ String.join (shown.map part) ++ ")"

/-- **The tree in parentheses**; the empty tree is the empty text. -/
def sexp (a : Arena) : String :=
  match a.root? with
  | some root => a.sexpAt a.size root
  | none => ""

end TreeBroker.Arena
