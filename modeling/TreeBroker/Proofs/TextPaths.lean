import TreeBroker.Proofs.CanonicalPaths
import TreeBroker.Proofs.Utf8Places

/-!
# Paths as bytes and as text

A path is cut at its separators, and there are two ways to read it: as the bytes that it
is, and as the text that the bytes may spell. The separators are ASCII, and the bytes of
no other character are. So a text and its bytes are cut at the same places
(`Path.splitOn_encode`), they have the same components, and the file name of the bytes is
the file name of the text (`Path.fileName_encode`).

The other statement is about names put into a directory: however the directory is spelled,
the file name of the path is the name (`Path.fileName_join`).
-/

namespace TreeBroker

namespace Utf8

theorem encode_injective : Function.Injective encode := by
  intro cs ds h
  have pieces_eq := congrArg pieces h
  rw [pieces_encode, pieces_encode] at pieces_eq
  exact List.map_injective_iff.mpr (fun _ _ => Piece.char.inj) pieces_eq

/-- **An ASCII byte is the byte of one character**, and of no other. -/
theorem notMem_encodeChar {c : Char} {b : UInt8} (hb : b.toNat < 128) (h : c.toNat ≠ b.toNat) :
    b ∉ String.utf8EncodeChar c := by
  have valid : c.toNat < 0xD800 ∨ 0xDFFF < c.toNat ∧ c.toNat < 0x110000 := c.valid
  have encoded := encodeChar_ofNat (v := c.toNat) c.valid
  rw [Char.ofNat_toNat] at encoded
  have other {m : Nat} (hm : m < 256) (ne : m ≠ b.toNat) : b ≠ UInt8.ofNat m := by
    rintro rfl
    exact ne (toNat_ofNat_of_lt hm).symm
  rw [encoded]
  split
  · simp [other (m := c.toNat) (by omega) h]
  split
  · simp only [List.mem_cons, List.not_mem_nil, not_or, or_false]
    exact ⟨other (by omega) (by omega), other (by omega) (by omega)⟩
  split
  · simp only [List.mem_cons, List.not_mem_nil, not_or, or_false]
    exact ⟨other (by omega) (by omega), other (by omega) (by omega),
      other (by omega) (by omega)⟩
  · simp only [List.mem_cons, List.not_mem_nil, not_or, or_false]
    exact ⟨other (by omega) (by omega), other (by omega) (by omega),
      other (by omega) (by omega), other (by omega) (by omega)⟩

end Utf8

namespace Path

open Alphabet Utf8

/-! ## The same cuts -/

/-- **A text and its bytes are cut at the same places.** -/
theorem splitOn_encode (cs : List Char) :
    splitOn (slash : UInt8) (encode cs) = (splitOn (slash : Char) cs).map encode := by
  induction cs with
  | nil => rfl
  | cons c cs ih =>
    rw [encode_cons]
    by_cases hc : c = '/'
    · subst hc
      show splitOn (0x2F : UInt8) (0x2F :: encode cs) = _
      rw [splitOn_cons_self]
      show [] :: splitOn (slash : UInt8) (encode cs) = (splitOn '/' ('/' :: cs)).map encode
      rw [ih, splitOn_cons_self]
      rfl
    · have free : (slash : UInt8) ∉ String.utf8EncodeChar c :=
        notMem_encodeChar (by decide) fun h => hc (Char.toNat_inj.mp h)
      have hc' : c ≠ (slash : Char) := hc
      rw [splitOn_append free, ih, splitOn_cons_of_ne hc']
      cases splitOn (slash : Char) cs with
      | nil => rfl
      | cons piece pieces => rw [List.map_cons, List.modifyHead_cons, List.modifyHead_cons,
          List.map_cons, encode_cons]

/-- A component in another alphabet. -/
def Component.map {α β : Type} (f : List α → List β) : Component α → Component β
  | root => root
  | current => current
  | parent => parent
  | normal name => normal (f name)

theorem Component.ofSegment?_encode (segment : List Char) :
    Component.ofSegment? (encode segment) =
      (Component.ofSegment? segment).map (Component.map encode) := by
  have nil : encode segment = [] ↔ segment = [] := encode_injective.eq_iff (b := [])
  have single : encode segment = [dot] ↔ segment = [dot] := encode_injective.eq_iff (b := [dot])
  have double : encode segment = [dot, dot] ↔ segment = [dot, dot] :=
    encode_injective.eq_iff (b := [dot, dot])
  unfold Component.ofSegment?
  simp only [nil, single, double]
  split
  · rfl
  split
  · rfl
  split <;> rfl

theorem Component.ofFirst?_encode (cs segment : List Char) :
    Component.ofFirst? (encode cs) (encode segment) =
      (Component.ofFirst? cs segment).map (Component.map encode) := by
  have nil (ds : List Char) : encode ds = [] ↔ ds = [] := encode_injective.eq_iff (b := [])
  have single : encode segment = [dot] ↔ segment = [dot] := encode_injective.eq_iff (b := [dot])
  unfold Component.ofFirst?
  simp only [nil, single, ofSegment?_encode]
  split
  · split <;> rfl
  split <;> rfl

/-- **A text and its bytes have the same components.** -/
theorem components_encode (cs : List Char) :
    components (encode cs) = (components cs).map (Component.map encode) := by
  unfold components
  rw [splitOn_encode]
  cases splitOn (slash : Char) cs with
  | nil => rfl
  | cons first rest =>
    simp only [List.map_cons, List.map_append, List.filterMap_map, List.map_filterMap,
      Component.ofFirst?_encode, Option.toList_map]
    congr 1
    exact List.filterMap_congr fun segment _ => Component.ofSegment?_encode segment

/-- **A text and its bytes have the same file name.** -/
theorem fileName_encode (cs : List Char) : fileName (encode cs) = (fileName cs).map encode := by
  unfold fileName
  rw [components_encode, List.getLast?_map]
  cases (components cs).getLast? with
  | none => rfl
  | some c => cases c <;> rfl

/-! ## Names in directories -/

variable {α : Type} [DecidableEq α]

/-- Cutting is the cutting of the list library. -/
theorem splitOn_eq (sep : α) (cs : List α) : splitOn sep cs = cs.splitOn sep := by
  rw [List.splitOn_eq_splitOnP]
  induction cs with
  | nil => rfl
  | cons c cs ih =>
    rw [List.splitOnP_cons_eq_if_modifyHead, ← ih]
    by_cases hc : c = sep
    · rw [if_pos (by simpa using hc), hc, splitOn_cons_self]
    · rw [if_neg (by simpa using hc), splitOn_cons_of_ne hc]

theorem splitOn_of_notMem {sep : α} {cs : List α} (h : sep ∉ cs) : splitOn sep cs = [cs] := by
  have cut := splitOn_append h []
  rw [List.append_nil] at cut
  rw [cut, splitOn_nil, List.modifyHead_cons, List.append_nil]

/-- A separator ends a piece. -/
theorem splitOn_append_cons (sep : α) (as bs : List α) :
    splitOn sep (as ++ sep :: bs) = splitOn sep as ++ splitOn sep bs := by
  induction as with
  | nil => exact splitOn_cons_self sep bs
  | cons a as ih =>
    by_cases ha : a = sep
    · subst ha
      rw [List.cons_append, splitOn_cons_self, splitOn_cons_self, ih, List.cons_append]
    · rw [List.cons_append, splitOn_cons_of_ne ha, splitOn_cons_of_ne ha, ih]
      cases hs : splitOn sep as with
      | nil => exact absurd hs (splitOn_ne_nil sep as)
      | cons piece pieces => rfl

variable [Alphabet α] {p name : List α}

/-- **A name that may stand in a directory**: it has no separator, and it is not empty, `.`
or `..`. -/
structure IsPlain (name : List α) : Prop where
  /-- No separator is in it. -/
  whole : slash ∉ name
  /-- It is not empty. -/
  ne_nil : name ≠ []
  /-- It is not `.`. -/
  ne_dot : name ≠ [dot]
  /-- It is not `..`. -/
  ne_dotDot : name ≠ [dot, dot]

theorem IsPlain.ofSegment? (h : IsPlain name) :
    Component.ofSegment? name = some (.normal name) := by
  unfold Component.ofSegment?
  rw [if_neg h.ne_nil, if_neg h.ne_dot, if_neg h.ne_dotDot]

theorem IsPlain.ofFirst? (h : IsPlain name) (p : List α) :
    Component.ofFirst? p name = some (.normal name) := by
  unfold Component.ofFirst?
  rw [if_neg h.ne_nil, if_neg h.ne_dot, h.ofSegment?]

/-- The bytes of a name are a name. -/
theorem IsPlain.encode {name : List Char} (h : IsPlain name) : IsPlain (Utf8.encode name) where
  whole := by
    have single : splitOn (slash : UInt8) (Utf8.encode name) = [Utf8.encode name] := by
      rw [splitOn_encode, splitOn_of_notMem h.whole]
      rfl
    have mem : Utf8.encode name ∈ splitOn (slash : UInt8) (Utf8.encode name) := by
      rw [single]
      exact List.mem_singleton_self _
    exact sep_notMem_of_mem_splitOn mem
  ne_nil := encode_injective.ne h.ne_nil
  ne_dot := encode_injective.ne h.ne_dot
  ne_dotDot := encode_injective.ne h.ne_dotDot

/-- **The file name is the last piece**, if that is a name. -/
theorem fileName_of_splitOn {pieces : List (List α)} (h : splitOn slash p = pieces ++ [name])
    (plain : IsPlain name) : fileName p = some name := by
  have last : (components p).getLast? = some (.normal name) := by
    unfold components
    rw [h]
    cases pieces with
    | nil => simp [plain.ofFirst?]
    | cons first rest => simp [List.filterMap_append, plain.ofSegment?]
  rw [fileName, last]

/-- **The file name of a name** is the name. -/
theorem fileName_of_isPlain (plain : IsPlain name) : fileName name = some name := by
  have single : splitOn slash name = [] ++ [name] := splitOn_of_notMem plain.whole
  exact fileName_of_splitOn single plain

/-- **The file name of a name in a directory** is the name, however the directory is
spelled. -/
theorem fileName_join (dir : List α) (plain : IsPlain name) :
    fileName (join dir name) = some name := by
  have behind (before : List α) : fileName (before ++ slash :: name) = some name := by
    have pieces : splitOn slash (before ++ slash :: name) = splitOn slash before ++ [name] := by
      rw [splitOn_append_cons, splitOn_of_notMem plain.whole]
    exact fileName_of_splitOn pieces plain
  have relative : isAbsolute name = false := by
    refine Bool.eq_false_iff.mpr fun h => plain.whole ?_
    exact List.mem_of_mem_head? (of_decide_eq_true h)
  unfold join
  rw [relative, if_neg Bool.false_ne_true]
  cases hd : dir.getLast? with
  | none => exact fileName_of_isPlain plain
  | some c =>
    show fileName (if c = slash then _ else _) = _
    split
    · next hc =>
      obtain ⟨before, rfl⟩ := List.getLast?_eq_some_iff.mp hd
      rw [hc, List.append_assoc]
      exact behind before
    · exact behind dir

end Path

end TreeBroker
