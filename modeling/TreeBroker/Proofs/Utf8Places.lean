import TreeBroker.Proofs.Utf8Decoding

/-!
# Places in a text

Offsets count bytes, and texts are lists of characters. An offset is a *place* of a text
if it is the number of bytes of some beginning of it; all other offsets fall inside a
character. Between two places lies a piece of the text, and what is shown of its bytes is
that piece (`display_slice`): nothing is replaced, because the bytes of a text are read
back as the text (`pieces_encode`).
-/

namespace TreeBroker.Utf8

/-! ## Lengths -/

@[simp] theorem length_nil : length [] = 0 := rfl

@[simp] theorem length_cons (c : Char) (cs : List Char) :
    length (c :: cs) = c.utf8Size + length cs := rfl

@[simp] theorem length_append (cs ds : List Char) :
    length (cs ++ ds) = length cs + length ds := by
  induction cs with
  | nil => simp
  | cons c cs ih => rw [List.cons_append, length_cons, length_cons, ih, Nat.add_assoc]

@[simp] theorem length_encode (cs : List Char) : (encode cs).length = length cs := by
  induction cs with
  | nil => rfl
  | cons c cs ih =>
    rw [encode_cons, List.length_append, String.length_utf8EncodeChar, ih, length_cons]

theorem utf8Size_of_ascii {c : Char} (h : c.toNat < 128) : c.utf8Size = 1 := by
  have le : c.val ≤ 127 := UInt32.le_iff_toNat_le.mpr (Nat.le_of_lt_succ h)
  exact if_pos le

/-- Where all characters are ASCII, characters and bytes are the same count. -/
theorem length_of_ascii {cs : List Char} (h : ∀ c ∈ cs, c.toNat < 128) :
    length cs = cs.length := by
  induction cs with
  | nil => rfl
  | cons c cs ih =>
    obtain ⟨hc, hcs⟩ := List.forall_mem_cons.mp h
    rw [length_cons, List.length_cons, utf8Size_of_ascii hc, ih hcs, Nat.add_comm]

/-! ## Ranges of bytes, from numbers -/

section Ranges

variable {lead b : UInt8}

theorem following_of_lt (h : lead.toNat < 0x80) : following lead = some 0 := by
  simp only [following, UInt8.lt_iff_toNat_lt, UInt8.reduceToNat]
  exact if_pos h

theorem following_two_bytes (h : 0xC2 ≤ lead.toNat ∧ lead.toNat ≤ 0xDF) :
    following lead = some 1 := by
  simp only [following, UInt8.lt_iff_toNat_lt, UInt8.le_iff_toNat_le, UInt8.reduceToNat]
  grind

theorem following_three_bytes (h : 0xE0 ≤ lead.toNat ∧ lead.toNat ≤ 0xEF) :
    following lead = some 2 := by
  simp only [following, UInt8.lt_iff_toNat_lt, UInt8.le_iff_toNat_le, UInt8.reduceToNat]
  grind

theorem following_four_bytes (h : 0xF0 ≤ lead.toNat ∧ lead.toNat ≤ 0xF4) :
    following lead = some 3 := by
  simp only [following, UInt8.lt_iff_toNat_lt, UInt8.le_iff_toNat_le, UInt8.reduceToNat]
  grind

theorem isSecond_of_bounds (h : 0x80 ≤ b.toNat ∧ b.toNat ≤ 0xBF)
    (he0 : lead.toNat = 0xE0 → 0xA0 ≤ b.toNat) (hed : lead.toNat = 0xED → b.toNat ≤ 0x9F)
    (hf0 : lead.toNat = 0xF0 → 0x90 ≤ b.toNat) (hf4 : lead.toNat = 0xF4 → b.toNat ≤ 0x8F) :
    isSecond lead b = true := by
  simp only [isSecond, isTail, ← UInt8.toNat_inj, UInt8.le_iff_toNat_le, UInt8.reduceToNat]
  grind

/-! ## What is encoded is read back -/

theorem firstPiece_one (h : lead.toNat < 0x80) (rest : List UInt8) :
    firstPiece lead rest = (.char (Char.ofNat lead.toNat), 0) := by
  unfold firstPiece
  rw [following_of_lt h]
  rfl

theorem firstPiece_two (h : 0xC2 ≤ lead.toNat ∧ lead.toNat ≤ 0xDF) (hb : isTail b = true)
    (rest : List UInt8) :
    firstPiece lead (b :: rest) =
      (.char (Char.ofNat (lead.toNat % 32 * 64 + payload b)), 1) := by
  unfold firstPiece
  rw [following_two_bytes h]
  exact if_pos hb

theorem firstPiece_three (h : 0xE0 ≤ lead.toNat ∧ lead.toNat ≤ 0xEF)
    (hb : isSecond lead b = true) {d : UInt8} (hd : isTail d = true) (rest : List UInt8) :
    firstPiece lead (b :: d :: rest) =
      (.char (Char.ofNat (lead.toNat % 16 * 4096 + payload b * 64 + payload d)), 2) := by
  unfold firstPiece
  rw [following_three_bytes h]
  exact (if_pos hb).trans (if_pos hd)

theorem firstPiece_four (h : 0xF0 ≤ lead.toNat ∧ lead.toNat ≤ 0xF4)
    (hb : isSecond lead b = true) {d e : UInt8} (hd : isTail d = true) (he : isTail e = true)
    (rest : List UInt8) :
    firstPiece lead (b :: d :: e :: rest) =
      (.char (Char.ofNat (lead.toNat % 8 * 262144 + payload b * 4096 + payload d * 64
        + payload e)), 3) := by
  unfold firstPiece
  rw [following_four_bytes h]
  exact (if_pos hb).trans ((if_pos hd).trans (if_pos he))

end Ranges

theorem toNat_ofNat_of_lt {m : Nat} (h : m < 256) : (UInt8.ofNat m).toNat = m := by
  rw [UInt8.toNat_ofNat']
  exact Nat.mod_eq_of_lt h

/-- **The bytes of a character are one piece**, whatever follows them. -/
theorem firstPiece_encodeChar (c : Char) :
    ∃ lead tail, String.utf8EncodeChar c = lead :: tail ∧
      ∀ rest, firstPiece lead (tail ++ rest) = (.char c, tail.length) := by
  obtain ⟨v, hc⟩ : ∃ v, c.toNat = v := ⟨_, rfl⟩
  have hv : v < 0xD800 ∨ 0xDFFF < v ∧ v < 0x110000 := hc ▸ c.valid
  have number {m k : Nat} (hm : m = v) : (Piece.char (Char.ofNat m), k) = (Piece.char c, k) := by
    rw [hm, ← hc, Char.ofNat_toNat]
  have encoded := encodeChar_ofNat (hc ▸ hv : c.toNat.isValidChar)
  rw [Char.ofNat_toNat, hc] at encoded
  rw [encoded]
  split
  · have ha := toNat_ofNat_of_lt (m := v) (by omega)
    refine ⟨_, [], rfl, fun rest => (firstPiece_one (by omega) _).trans (number ?_)⟩
    omega
  split
  · have ha := toNat_ofNat_of_lt (m := v / 64 % 32 + 192) (by omega)
    have hb := toNat_ofNat_of_lt (m := v % 64 + 128) (by omega)
    refine ⟨_, [_], rfl, fun rest =>
      (firstPiece_two (by omega) (isTail_iff.mpr (by omega)) _).trans (number ?_)⟩
    simp only [payload]
    omega
  split
  · have ha := toNat_ofNat_of_lt (m := v / 4096 % 16 + 224) (by omega)
    have hb := toNat_ofNat_of_lt (m := v / 64 % 64 + 128) (by omega)
    have hd := toNat_ofNat_of_lt (m := v % 64 + 128) (by omega)
    -- a surrogate would need `ED` with a second byte out of its range
    have second : isSecond (UInt8.ofNat (v / 4096 % 16 + 224))
        (UInt8.ofNat (v / 64 % 64 + 128)) = true :=
      isSecond_of_bounds (by omega) (by omega) (by omega) (by omega) (by omega)
    refine ⟨_, [_, _], rfl, fun rest =>
      (firstPiece_three (by omega) second (isTail_iff.mpr (by omega)) _).trans (number ?_)⟩
    simp only [payload]
    omega
  · have ha := toNat_ofNat_of_lt (m := v / 262144 % 8 + 240) (by omega)
    have hb := toNat_ofNat_of_lt (m := v / 4096 % 64 + 128) (by omega)
    have hd := toNat_ofNat_of_lt (m := v / 64 % 64 + 128) (by omega)
    have he := toNat_ofNat_of_lt (m := v % 64 + 128) (by omega)
    have second : isSecond (UInt8.ofNat (v / 262144 % 8 + 240))
        (UInt8.ofNat (v / 4096 % 64 + 128)) = true :=
      isSecond_of_bounds (by omega) (by omega) (by omega) (by omega) (by omega)
    refine ⟨_, [_, _, _], rfl, fun rest =>
      (firstPiece_four (by omega) second (isTail_iff.mpr (by omega)) (isTail_iff.mpr (by omega))
        _).trans (number ?_)⟩
    simp only [payload]
    omega

/-- **The bytes of a text** fall into its characters. -/
theorem pieces_encode (cs : List Char) : pieces (encode cs) = cs.map .char := by
  induction cs with
  | nil => exact pieces_nil
  | cons c cs ih =>
    obtain ⟨lead, tail, hc, piece⟩ := firstPiece_encodeChar c
    rw [encode_cons, hc, List.cons_append, pieces, piece]
    show .char c :: pieces ((tail ++ encode cs).drop tail.length) = _
    rw [List.drop_left, ih, List.map_cons]

/-- **The bytes that are text** are the bytes of one. -/
theorem decode?_eq_some_iff {bs : List UInt8} {cs : List Char} :
    decode? bs = some cs ↔ encode cs = bs := by
  constructor
  · exact fun h => encode_of_pieces (pieces_of_decode? h)
  · rintro rfl
    rw [decode?, pieces_encode]
    induction cs with
    | nil => rfl
    | cons c cs ih =>
      rw [List.map_cons, List.mapM_cons, ih]
      rfl

theorem display_encode (cs : List Char) : display (encode cs) = String.ofList cs := by
  rw [display, decodeLossy, pieces_encode, List.map_map]
  exact congrArg String.ofList (List.map_id cs)

/-! ## Pieces of a text -/

theorem slice_encode (before within after : List Char) :
    slice (encode (before ++ within ++ after)) (length before) (length before + length within) =
      encode within := by
  rw [slice, encode_append, List.take_append_of_le_length (by simp), encode_append,
    List.take_of_length_le (by simp), List.drop_left' (length_encode before)]

/-- **What is shown between two places** is the text between them. -/
theorem display_slice (before within after : List Char) :
    display (slice (encode (before ++ within ++ after)) (length before)
      (length before + length within)) = String.ofList within := by
  rw [slice_encode, display_encode]

end TreeBroker.Utf8
