/-!
# Sorted lists without repetition

Sets of method names and tables of aliases are written in increasing order and
hold each entry once. A list is brought into that shape by inserting its
members one after another.
-/

namespace TreeBroker.Sorted

/-- A key put into a sorted list, where it stands already or in its place. -/
def insert (s : String) : List String → List String
  | [] => [s]
  | t :: ts => if s < t then s :: t :: ts else if s = t then t :: ts else t :: insert s ts

/-- **The members of a list**, sorted and each once. -/
def ofList (ss : List String) : List String := ss.foldl (fun sorted s => insert s sorted) []

/-- An entry put into a table sorted by keys; a later entry for a key replaces
an earlier one. -/
def insertEntry {β : Type} (key : String) (value : β) :
    List (String × β) → List (String × β)
  | [] => [(key, value)]
  | (k, v) :: rest =>
    if key < k then (key, value) :: (k, v) :: rest
    else if key = k then (key, value) :: rest
    else (k, v) :: insertEntry key value rest

/-- A table sorted by its keys. -/
def table {β : Type} (entries : List (String × β)) : List (String × β) :=
  entries.foldl (fun sorted (k, v) => insertEntry k v sorted) []

/-- A key is a member after it was inserted, and nothing is lost. -/
@[simp] theorem mem_insert (s t : String) (ts : List String) :
    t ∈ insert s ts ↔ t = s ∨ t ∈ ts := by
  induction ts with
  | nil => simp [insert]
  | cons u us ih =>
    unfold insert
    split
    · simp
    · split
      · next h => subst h; simp
      · simp [ih, or_left_comm]

/-- Sorting keeps the members. -/
theorem mem_ofList (t : String) (ss : List String) : t ∈ ofList ss ↔ t ∈ ss := by
  suffices h : ∀ acc, t ∈ ss.foldl (fun sorted s => insert s sorted) acc ↔ t ∈ acc ∨ t ∈ ss by
    simpa [ofList] using h []
  induction ss with
  | nil => simp
  | cons u us ih =>
    intro acc
    simp [ih, or_assoc, or_left_comm]

end TreeBroker.Sorted
