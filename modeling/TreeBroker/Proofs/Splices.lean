import Mathlib
import TreeBroker.Proofs.Points

/-!
# Edits describe splices

An edit is made of offsets into two sources, the old one and the one with a piece of it
replaced, and each of its points is read off the source that its offset belongs to, from
the beginning. Nothing ties the points together: that the two ends lie where the removed
and the inserted text lead from the common start is a law of counting rows and columns over
a concatenation.

The law is that of one byte, taken along a text. What a text does to a point is said without
looking at its bytes one by one (`Point.advance`): its newlines go to the row, and what is
behind the last of them is the column – or, where there is none, is added to it. That is the
case to get wrong, since a text that begins or ends with a newline changes which of the two
rules holds for the text around it.
-/

namespace TreeBroker

namespace Point

/-- **The point behind a text** that begins at a point: the newlines of the text are added
to the row, and the column counts the bytes behind the last of them. A text without one adds
its length to the column. -/
def advance (p : Point) (text : List UInt8) : Point where
  row := p.row + text.count newline
  column :=
    match lastNewline? text with
    | none => p.column + text.length
    | some i => (text.drop (i + 1)).length

@[simp] theorem advance_nil (p : Point) : p.advance [] = p := rfl

/-! ## One byte more -/

theorem lastNewline?_concat_newline (text : List UInt8) :
    lastNewline? (text ++ [newline]) = some text.length := by
  induction text with
  | nil => rfl
  | cons b text ih => rw [List.cons_append, lastNewline?, ih, List.length_cons]

theorem lastNewline?_concat_of_ne {b : UInt8} (h : b ≠ newline) (text : List UInt8) :
    lastNewline? (text ++ [b]) = lastNewline? text := by
  induction text with
  | nil => exact if_neg h
  | cons c text ih => rw [List.cons_append, lastNewline?, ih, lastNewline?]

/-- **A byte behind a text** moves the point behind it as it would any other. -/
theorem advance_concat (p : Point) (text : List UInt8) (b : UInt8) :
    p.advance (text ++ [b]) = (p.advance text).next b := by
  by_cases hb : b = newline
  · -- The new row is empty, whatever the text was.
    rw [hb, next_newline, advance, lastNewline?_concat_newline, advance]
    simp [List.count_append, Nat.add_assoc]
  · rw [next_of_ne hb, advance, lastNewline?_concat_of_ne hb, advance]
    have rows : (text ++ [b]).count newline = text.count newline := by
      rw [List.count_append, List.count_singleton, beq_false_of_ne hb]
      rfl
    rw [rows]
    cases hlast : lastNewline? text with
    | none =>
      show Point.mk _ (p.column + (text ++ [b]).length) = _
      rw [List.length_append, ← Nat.add_assoc]
      rfl
    | some i =>
      obtain ⟨before, line, rfl, rfl, -⟩ := exists_of_lastNewline? hlast
      have inside : before.length + 1 ≤ (before ++ newline :: line).length := by
        rw [List.length_append, List.length_cons]
        omega
      show Point.mk _ (((before ++ newline :: line) ++ [b]).drop (before.length + 1)).length = _
      rw [List.drop_append_of_le_length inside, List.length_append]
      rfl

/-! ## A whole text more -/

/-- **The concatenation law**: behind two texts stands the point that the second one leads to
from behind the first. -/
theorem atEnd_append (before text : List UInt8) :
    atEnd (before ++ text) = (atEnd before).advance text := by
  induction text using List.reverseRecOn with
  | nil => rw [List.append_nil, advance_nil]
  | append_singleton text b ih => rw [← List.append_assoc, atEnd_concat, ih, advance_concat]

/-- Between two offsets of a source lies the text that leads from the one's point to the
other's. -/
theorem advance_slice (source : List UInt8) {start stop : Nat} (h : start ≤ stop) :
    (ofOffset source start).advance (Utf8.slice source start stop) = ofOffset source stop := by
  have halves : source.take start ++ Utf8.slice source start stop = source.take stop := by
    have cut := List.take_append_drop start (source.take stop)
    rwa [List.take_take, Nat.min_eq_left h] at cut
  rw [ofOffset, ← atEnd_append, halves, ofOffset]

theorem isLE_cmp_ofOffset (source : List UInt8) {a b : Nat} (h : a ≤ b) :
    ((ofOffset source a).cmp (ofOffset source b)).isLE = true := by
  rw [cmp_ofOffset, Nat.isLE_compare]
  exact min_le_min_right _ h

end Point

namespace Edit

/-- **A source with a piece replaced**: the bytes from `start` to `oldEnd` are gone, and a
text stands in their place. -/
def spliced (old : List UInt8) (start oldEnd : Nat) (text : List UInt8) : List UInt8 :=
  old.take start ++ text ++ old.drop oldEnd

variable {old text : List UInt8} {start oldEnd : Nat}

theorem take_start_spliced (h : start ≤ old.length) :
    (spliced old start oldEnd text).take start = old.take start := by
  rw [spliced, List.append_assoc, List.take_append_of_le_length, List.take_take, Nat.min_self]
  rw [List.length_take, Nat.min_eq_left h]

theorem slice_spliced (h : start ≤ old.length) :
    Utf8.slice (spliced old start oldEnd text) start (start + text.length) = text := by
  have length : (old.take start).length = start := by
    rw [List.length_take, Nat.min_eq_left h]
  have front : (old.take start ++ text).length = start + text.length := by
    rw [List.length_append, length]
  rw [Utf8.slice, spliced, ← front, List.take_left]
  nth_rewrite 1 [← length]
  rw [List.drop_left]

/-- **An edit describes the splice it is made from.** Its start is at the same point in both
sources and before both ends, and each end is where the text of its side leads to from there:
the removed bytes to the old end, the inserted ones to the new. -/
theorem ofOffsets_describes (old text : List UInt8) (start oldEnd : Nat) (order : start ≤ oldEnd)
    (within : oldEnd ≤ old.length) :
    let new := spliced old start oldEnd text
    let e := ofOffsets old new start oldEnd (start + text.length)
    e.startPoint = Point.ofOffset new start ∧
    (e.startPoint.cmp e.oldEndPoint).isLE = true ∧
    (e.startPoint.cmp e.newEndPoint).isLE = true ∧
    e.oldEndPoint = e.startPoint.advance (Utf8.slice old start oldEnd) ∧
    e.newEndPoint = e.startPoint.advance text := by
  intro new e
  have inside : start ≤ old.length := Nat.le_trans order within
  have same : e.startPoint = Point.ofOffset new start := by
    show Point.atEnd (old.take start) = Point.atEnd (new.take start)
    rw [take_start_spliced inside]
  refine ⟨same, Point.isLE_cmp_ofOffset old order, ?_, (Point.advance_slice old order).symm, ?_⟩
  · rw [same]
    exact Point.isLE_cmp_ofOffset new (Nat.le_add_right _ _)
  · have behind := Point.advance_slice new (Nat.le_add_right start text.length)
    rw [slice_spliced inside, ← same] at behind
    exact behind.symm

-- A piece with a two-byte letter and a newline gives way to one that ends in a newline.
theorem ofOffsets_describes_accented :
    let old := Utf8.bytes "aé\nb"
    let text := Utf8.bytes "x\ny\n"
    let new := spliced old 1 4 text
    let e := ofOffsets old new 1 4 5
    1 ≤ 4 ∧ 4 ≤ old.length ∧ e.startPoint = Point.ofOffset new 1 ∧ e.startPoint = ⟨0, 1⟩ ∧
      e.oldEndPoint = e.startPoint.advance (Utf8.slice old 1 4) ∧ e.oldEndPoint = ⟨1, 0⟩ ∧
      e.newEndPoint = e.startPoint.advance text ∧ e.newEndPoint = ⟨2, 0⟩ := by
  intro old text new e
  have within : 4 ≤ old.length := by decide
  obtain ⟨start, -, -, oldEnd, newEnd⟩ :=
    ofOffsets_describes old text 1 4 (by decide) within
  exact ⟨by decide, within, start, by decide, oldEnd, by decide, newEnd, by decide⟩

end Edit

end TreeBroker
