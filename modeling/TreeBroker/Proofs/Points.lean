import Mathlib
import TreeBroker.Position

/-!
# Offsets and points

A place in a source has two names: a byte offset, and a point of a row and a column.
The point is found by two scans of the bytes before the place that know nothing of each
other, one that counts newlines and one that looks for the last of them. That they belong
together is what has to be proved: the row that the first one counts is the row that the
second one measures, also at a newline and right behind it, where a slip of one would put
the place at the end of the wrong row.

The statement is about one byte at a time. A byte moves a point one column on, or to the
beginning of the next row (`Point.next`), and either way forward in the order of points.
So points follow one another as their offsets do (`Point.cmp_ofOffset`), and an invariant
which every byte keeps says where the row of a point begins (`Point.Locates`). Nothing here
asks for a whole character before the place: an offset inside one is an offset like any
other.
-/

namespace TreeBroker.Point

variable {source : List UInt8} {offset : Nat} {p q r : Point}

/-! ## The order of points -/

theorem cmp_eq_lt_iff : p.cmp q = .lt ↔ p.row < q.row ∨ p.row = q.row ∧ p.column < q.column := by
  rw [cmp, Ordering.then_eq_lt, Nat.compare_eq_lt, Nat.compare_eq_eq, Nat.compare_eq_lt]

theorem cmp_self (p : Point) : p.cmp p = .eq := by
  simp [cmp]

theorem cmp_swap (p q : Point) : (p.cmp q).swap = q.cmp p := by
  rw [cmp, Ordering.swap_then, Nat.compare_swap, Nat.compare_swap, cmp]

theorem cmp_trans (hpq : p.cmp q = .lt) (hqr : q.cmp r = .lt) : p.cmp r = .lt := by
  rw [cmp_eq_lt_iff] at *
  omega

/-! ## One byte on -/

/-- **The point behind a byte** that stands at a point. -/
def next (p : Point) (b : UInt8) : Point :=
  if b = newline then ⟨p.row + 1, 0⟩ else ⟨p.row, p.column + 1⟩

theorem next_newline (p : Point) : p.next newline = ⟨p.row + 1, 0⟩ := if_pos rfl

theorem next_of_ne {b : UInt8} (h : b ≠ newline) (p : Point) :
    p.next b = ⟨p.row, p.column + 1⟩ := if_neg h

/-- A byte moves forward. -/
theorem cmp_next (p : Point) (b : UInt8) : p.cmp (p.next b) = .lt := by
  rw [cmp_eq_lt_iff]
  by_cases h : b = newline
  · rw [h, next_newline]
    exact .inl (Nat.lt_succ_self p.row)
  · rw [next_of_ne h]
    exact .inr ⟨rfl, Nat.lt_succ_self p.column⟩

theorem atEnd_concat (before : List UInt8) (b : UInt8) :
    atEnd (before ++ [b]) = (atEnd before).next b := by
  by_cases h : b = newline
  · subst h
    rw [next_newline]
    simp [atEnd, List.count_append]
  · rw [next_of_ne h]
    simp [atEnd, List.count_append, h]

/-- Bytes of one row add to the column. -/
theorem column_atEnd_append (before : List UInt8) {line : List UInt8} (h : newline ∉ line) :
    (atEnd (before ++ line)).column = (atEnd before).column + line.length := by
  induction line using List.reverseRecOn with
  | nil => rw [List.append_nil, List.length_nil, Nat.add_zero]
  | append_singleton line b ih =>
    rw [List.mem_append, List.mem_singleton, not_or] at h
    rw [← List.append_assoc, atEnd_concat, next_of_ne (Ne.symm h.2), ih h.1, List.length_append]
    rfl

theorem ofOffset_succ (h : offset < source.length) :
    ofOffset source (offset + 1) = (ofOffset source offset).next source[offset] := by
  rw [ofOffset, ← List.take_concat_get' source offset h, atEnd_concat, ofOffset]

theorem ofOffset_min (source : List UInt8) (offset : Nat) :
    ofOffset source (min offset source.length) = ofOffset source offset := by
  rw [ofOffset, ← List.take_eq_take_min, ofOffset]

/-! ## Points follow one another as their offsets do -/

theorem cmp_ofOffset_of_lt {a b : Nat} (hab : a < b) (hb : b ≤ source.length) :
    (ofOffset source a).cmp (ofOffset source b) = .lt := by
  induction b, hab using Nat.le_induction with
  | base =>
    rw [ofOffset_succ hb]
    exact cmp_next _ _
  | succ b hab ih =>
    have earlier := ih (Nat.le_of_succ_le hb)
    rw [ofOffset_succ hb]
    exact cmp_trans earlier (cmp_next _ _)

/-- **The order of points is the order of offsets**, where an offset past the end counts as
the end. -/
theorem cmp_ofOffset (source : List UInt8) (a b : Nat) :
    (ofOffset source a).cmp (ofOffset source b) =
      compare (min a source.length) (min b source.length) := by
  rw [← ofOffset_min source a, ← ofOffset_min source b]
  obtain lt | eq | gt := Nat.lt_trichotomy (min a source.length) (min b source.length)
  · rw [cmp_ofOffset_of_lt lt (Nat.min_le_right _ _), Nat.compare_eq_lt.mpr lt]
  · rw [eq, cmp_self, Nat.compare_eq_eq.mpr rfl]
  · rw [← cmp_swap, cmp_ofOffset_of_lt gt (Nat.min_le_right _ _), Nat.compare_eq_gt.mpr gt]
    rfl

/-! ## Where a row begins -/

/-- **The offset at which a row begins**: the first one with so many newlines before it. -/
structure RowStart (source : List UInt8) (row start : Nat) : Prop where
  /-- The row begins in the source, or at its end. -/
  within : start ≤ source.length
  /-- So many newlines are before it. -/
  rows : (source.take start).count newline = row
  /-- At every earlier offset there are fewer. -/
  first : ∀ earlier < start, (source.take earlier).count newline < row

/-- **A point is the place of an offset**: it counts the newlines before it, and its column
is the way to the offset from where the row begins, with no newline on it. -/
structure Locates (source : List UInt8) (offset : Nat) (p : Point) : Prop where
  /-- The row counts the newlines before the offset. -/
  row : p.row = (source.take offset).count newline
  /-- The column leads from where the row begins to the offset. -/
  column : ∃ start, RowStart source p.row start ∧ start + p.column = offset ∧
    newline ∉ Utf8.slice source start offset

theorem count_take_le (source : List UInt8) {a b : Nat} (h : a ≤ b) :
    (source.take a).count newline ≤ (source.take b).count newline :=
  (List.take_sublist_take_left h).count_le newline

theorem count_take_newline (h : offset < source.length) (hb : source[offset] = newline) :
    (source.take (offset + 1)).count newline = (source.take offset).count newline + 1 := by
  rw [← List.take_concat_get' source offset h, hb, List.count_append, List.count_singleton_self]

theorem count_take_of_ne (h : offset < source.length) (hb : source[offset] ≠ newline) :
    (source.take (offset + 1)).count newline = (source.take offset).count newline := by
  rw [← List.take_concat_get' source offset h, List.count_append, List.count_singleton,
    beq_false_of_ne hb]
  rfl

theorem slice_succ {start : Nat} (le : start ≤ offset) (h : offset < source.length) :
    Utf8.slice source start (offset + 1) =
      Utf8.slice source start offset ++ [source[offset]] := by
  have inside : start ≤ (source.take offset).length := by
    rw [List.length_take, Nat.min_eq_left (Nat.le_of_lt h)]
    exact le
  rw [Utf8.slice, ← List.take_concat_get' source offset h, List.drop_append_of_le_length inside,
    Utf8.slice]

theorem locates_zero (source : List UInt8) : Locates source 0 ⟨0, 0⟩ where
  row := rfl
  column := ⟨0, ⟨Nat.zero_le _, rfl, nofun⟩, rfl, List.not_mem_nil⟩

/-- **A byte keeps the point in its place.** -/
theorem Locates.next (hp : Locates source offset p) (h : offset < source.length) :
    Locates source (offset + 1) (p.next source[offset]) := by
  by_cases hb : source[offset] = newline
  · -- The next row begins behind the newline, and it is still empty.
    have count := count_take_newline h hb
    rw [← hp.row] at count
    rw [hb, next_newline]
    refine ⟨count.symm, offset + 1, ⟨h, count, fun earlier lt => ?_⟩, rfl, ?_⟩
    · have le := count_take_le source (Nat.le_of_lt_succ lt)
      rw [← hp.row] at le
      exact Nat.lt_succ_of_le le
    · simp [Utf8.slice]
  · -- The row is the same, and one byte longer.
    obtain ⟨start, begins, way, clear⟩ := hp.column
    have count := count_take_of_ne h hb
    rw [← hp.row] at count
    rw [next_of_ne hb]
    refine ⟨count.symm, start, begins, congrArg (· + 1) way, ?_⟩
    rw [slice_succ (way ▸ Nat.le_add_right _ _) h, List.mem_append, List.mem_singleton, not_or]
    exact ⟨clear, Ne.symm hb⟩

/-- **The point of an offset is its place.** -/
theorem locates_ofOffset (h : offset ≤ source.length) :
    Locates source offset (ofOffset source offset) := by
  induction offset with
  | zero =>
    rw [ofOffset_zero]
    exact locates_zero source
  | succ offset ih =>
    rw [ofOffset_succ h]
    exact (ih (Nat.le_of_succ_le h)).next h

/-! ## The two scans, step by step -/

/-- The difference of two numbers, if it is one. -/
def minus? (m n : Nat) : Option Nat := if n ≤ m then some (m - n) else none

/-- The first bytes of a source, if it has so many. -/
def beginning? (source : List UInt8) (stop : Nat) : Option (List UInt8) :=
  if stop ≤ source.length then some (source.take stop) else none

/-- The index of the last newline. -/
def lastNewline? : List UInt8 → Option Nat
  | [] => none
  | b :: bs =>
    match lastNewline? bs with
    | some i => some (i + 1)
    | none => if b = newline then some 0 else none

/-- **The point of an offset, with every step checked**: no byte is read past the end of the
source, and nothing is taken from less than it. -/
def scan? (source : List UInt8) (offset : Nat) : Option Point := do
  let before ← beginning? source (min offset source.length)
  let column ←
    match lastNewline? before with
    | none => some before.length
    | some i => (minus? before.length i).bind fun behind => minus? behind 1
  some ⟨before.count newline, column⟩

theorem notMem_of_lastNewline? {bs : List UInt8} (h : lastNewline? bs = none) : newline ∉ bs := by
  induction bs with
  | nil => exact List.not_mem_nil
  | cons b bs ih =>
    rw [lastNewline?] at h
    cases hbs : lastNewline? bs with
    | some i =>
      rw [hbs] at h
      cases h
    | none =>
      rw [hbs] at h
      have ne : b ≠ newline := fun hb => by simp [hb] at h
      rw [List.mem_cons, not_or]
      exact ⟨ne.symm, ih hbs⟩

/-- **The last newline** has a whole row behind it. -/
theorem exists_of_lastNewline? {bs : List UInt8} {i : Nat} (h : lastNewline? bs = some i) :
    ∃ rows line, bs = rows ++ newline :: line ∧ rows.length = i ∧ newline ∉ line := by
  induction bs generalizing i with
  | nil => cases h
  | cons b bs ih =>
    rw [lastNewline?] at h
    cases hbs : lastNewline? bs with
    | some j =>
      rw [hbs] at h
      cases h
      obtain ⟨rows, line, rfl, rfl, clear⟩ := ih hbs
      exact ⟨b :: rows, line, rfl, rfl, clear⟩
    | none =>
      rw [hbs] at h
      by_cases hb : b = newline
      · rw [if_pos hb] at h
        cases h
        exact ⟨[], bs, by rw [hb]; rfl, rfl, notMem_of_lastNewline? hbs⟩
      · rw [if_neg hb] at h
        cases h

theorem column_atEnd_of_notMem {line : List UInt8} (h : newline ∉ line) :
    (atEnd line).column = line.length := by
  have column := column_atEnd_append [] h
  rwa [List.nil_append, show (atEnd []).column = 0 from rfl, Nat.zero_add] at column

theorem column_atEnd_newline (rows : List UInt8) {line : List UInt8} (h : newline ∉ line) :
    (atEnd (rows ++ newline :: line)).column = line.length := by
  rw [← List.singleton_append, ← List.append_assoc, column_atEnd_append _ h, atEnd_concat,
    next_newline, Nat.zero_add]

/-- **No step fails**, and the steps lead to the point. -/
theorem scan?_eq (source : List UInt8) (offset : Nat) :
    scan? source offset = some (ofOffset source offset) := by
  have read : beginning? source (min offset source.length) = some (source.take offset) := by
    rw [beginning?, if_pos (Nat.min_le_right _ _), ← List.take_eq_take_min]
  rw [scan?, read, Option.bind_eq_bind, Option.bind_some, ofOffset]
  generalize source.take offset = before
  cases hlast : lastNewline? before with
  | none =>
    show some (Point.mk _ before.length) = _
    rw [← column_atEnd_of_notMem (notMem_of_lastNewline? hlast)]
    rfl
  | some i =>
    obtain ⟨rows, line, rfl, rfl, clear⟩ := exists_of_lastNewline? hlast
    have first : minus? (rows ++ newline :: line).length rows.length = some (line.length + 1) := by
      rw [minus?, List.length_append, List.length_cons, if_pos (Nat.le_add_right _ _),
        Nat.add_sub_cancel_left]
    have second : minus? (line.length + 1) 1 = some line.length := if_pos (Nat.le_add_left 1 _)
    simp only [first, second, Option.bind_some, Option.bind_eq_bind]
    rw [← column_atEnd_newline rows clear]
    rfl

/-- **Offsets and points.** The point of an offset is its place, or that of the end of the
source past the end, and it is found without a step that could fail. Points are ordered as
their offsets are, so that different offsets up to the end have different points. -/
theorem ofOffset_faithful (source : List UInt8) :
    (∀ offset, Locates source (min offset source.length) (ofOffset source offset)) ∧
    (∀ a b, a < b → b ≤ source.length → (ofOffset source a).cmp (ofOffset source b) = .lt) ∧
    (∀ a b, a ≤ source.length → b ≤ source.length → a ≠ b →
      ofOffset source a ≠ ofOffset source b) ∧
    (∀ offset, source.length ≤ offset →
      ofOffset source offset = ofOffset source source.length) ∧
    ∀ offset, scan? source offset = some (ofOffset source offset) := by
  refine ⟨fun offset => ?_, fun a b => cmp_ofOffset_of_lt, fun a b ha hb ne eq => ne ?_,
    fun offset past => ?_, scan?_eq source⟩
  · rw [← ofOffset_min]
    exact locates_ofOffset (Nat.min_le_right _ _)
  · have same := cmp_ofOffset source a b
    rw [eq, cmp_self, Nat.min_eq_left ha, Nat.min_eq_left hb] at same
    exact Nat.compare_eq_eq.mp same.symm
  · rw [← ofOffset_min, Nat.min_eq_right past]

/-- A source whose first letter has two bytes. -/
def accented : List UInt8 := Utf8.bytes "é\nb"

-- An offset inside the letter is a place of its row like any other.
theorem ofOffset_faithful_accented :
    Locates accented 1 ⟨0, 1⟩ ∧
      (1 < 3 ∧ 3 ≤ accented.length ∧ (ofOffset accented 1).cmp (ofOffset accented 3) = .lt) ∧
      (2 ≤ accented.length ∧ ofOffset accented 2 ≠ ofOffset accented 3) ∧
      (accented.length ≤ 9 ∧ ofOffset accented 9 = ofOffset accented accented.length) := by
  have size : accented.length = 4 := by decide
  obtain ⟨place, order, distinct, past, -⟩ := ofOffset_faithful accented
  refine ⟨place 1, ⟨by decide, by omega, order 1 3 (by decide) (by omega)⟩,
    ⟨by omega, distinct 2 3 (by omega) (by omega) (by decide)⟩, by omega, past 9 (by omega)⟩

end TreeBroker.Point
