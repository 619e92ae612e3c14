import TreeBroker.FileSystem
import TreeBroker.Log
import TreeBroker.Scope

/-!
# Actions

What an operation reads and leaves behind besides its answer is a *world*: the
files, the scopes, the events told so far, the calls that engines recorded, and
the number of objects made. An action changes a state and gives an answer or an
error; a state changed before an error stays changed, so that "an error leaves
no trace" is a theorem where it holds and not built in.
-/

namespace TreeBroker

/-- **An action** on a state. -/
abbrev Action (σ : Type) := ExceptT Error (StateM σ)

namespace Action

/-- An action run on a state. -/
def on {σ α : Type} (act : Action σ α) (s : σ) : Except Error α × σ := act.run.run s

/-- An outcome that needs no state. -/
def ofExcept {σ α : Type} (e : Except Error α) : Action σ α := fun s => (e, s)

/-- **An action on a part of the state.** -/
def zoom {σ τ α : Type} (part : σ → τ) (update : τ → σ → σ) (act : Action τ α) : Action σ α :=
  fun s =>
    let (result, t) := act.on (part s)
    (result, update t s)

/-- **An action whose error is an answer.** -/
def attempt {σ α : Type} (act : Action σ α) : Action σ (Except Error α) := fun s =>
  let (result, s') := act.on s
  (.ok result, s')

end Action

/-- **The world.** -/
structure World where
  /-- The files. -/
  files : FileSystem
  /-- The scopes. -/
  scopes : Scopes := {}
  /-- The events told, in order. -/
  events : List Event := []
  /-- The calls recorded, in order. -/
  calls : List String := []
  /-- The number of objects made. -/
  made : Nat := 0
  deriving Inhabited

namespace World

/-- An event is told. -/
def tell (e : Event) : Action World Unit := modify fun w => { w with events := w.events ++ [e] }

/-- A call is recorded. -/
def recordCall (call : String) : Action World Unit :=
  modify fun w => { w with calls := w.calls ++ [call] }

/-- **A number that no object has yet.** -/
def fresh : Action World Nat := do
  let n := (← get).made
  modify fun w => { w with made := n + 1 }
  return n

end World

end TreeBroker
