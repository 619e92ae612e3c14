import TreeBroker.Backend.Kind

/-!
# Scoped preference of a backend

A caller prefers a backend for a stretch of work by entering a scope and leaving
it again. Scopes nest, and the innermost one counts. Leaving always ends the
innermost scope, whichever one the caller means to leave.
-/

namespace TreeBroker

/-- **The open scopes**, innermost first. -/
structure Scopes where
  /-- The preferred backends. -/
  kinds : List BackendKind := []
  deriving DecidableEq, Inhabited

namespace Scopes

/-- A scope is entered. -/
def enter (s : Scopes) (kind : BackendKind) : Scopes := ⟨kind :: s.kinds⟩

/-- The innermost scope is left. -/
def leave (s : Scopes) : Scopes := ⟨s.kinds.drop 1⟩

/-- **The backend preferred now.** -/
def current? (s : Scopes) : Option BackendKind := s.kinds.head?

@[simp] theorem current?_enter (s : Scopes) (kind : BackendKind) :
    (s.enter kind).current? = some kind := rfl

@[simp] theorem leave_enter (s : Scopes) (kind : BackendKind) : (s.enter kind).leave = s := rfl

end Scopes

end TreeBroker
