import Mathlib
import TreeBroker.Text.Utf8

/-!
# Decoding loses nothing

A byte string that is text can be read back from what is shown of it. That is not
so for byte strings in general: every ill-formed piece is shown as the same
character, so two paths may look alike and differ. On text the two readers agree,
and each piece is the one spelling of its character: the ranges of the second byte
shut out overlong forms, surrogates and numbers beyond the last code point, which
are exactly the cases where the bytes could not be told from the number.

`bytes_display` is what the rest of the library uses.
-/

namespace TreeBroker.Utf8

/-! ## Ranges of bytes, as numbers -/

theorem isTail_iff {b : UInt8} : isTail b = true ↔ 0x80 ≤ b.toNat ∧ b.toNat ≤ 0xBF := by
  simp [isTail, UInt8.le_iff_toNat_le]

theorem bounds_of_isSecond {lead b : UInt8} (h : isSecond lead b = true) :
    0x80 ≤ b.toNat ∧ b.toNat ≤ 0xBF ∧
      (lead.toNat = 0xE0 → 0xA0 ≤ b.toNat) ∧ (lead.toNat = 0xED → b.toNat ≤ 0x9F) ∧
      (lead.toNat = 0xF0 → 0x90 ≤ b.toNat) ∧ (lead.toNat = 0xF4 → b.toNat ≤ 0x8F) := by
  simp only [isSecond, isTail, ← UInt8.toNat_inj, UInt8.le_iff_toNat_le, UInt8.reduceToNat] at h
  grind

theorem bounds_of_following {lead : UInt8} {n : Nat} (h : following lead = some n) :
    (n = 0 ∧ lead.toNat < 0x80) ∨ (n = 1 ∧ 0xC2 ≤ lead.toNat ∧ lead.toNat ≤ 0xDF) ∨
      (n = 2 ∧ 0xE0 ≤ lead.toNat ∧ lead.toNat ≤ 0xEF) ∨
      (n = 3 ∧ 0xF0 ≤ lead.toNat ∧ lead.toNat ≤ 0xF4) := by
  simp only [following, UInt8.lt_iff_toNat_lt, UInt8.le_iff_toNat_le, UInt8.reduceToNat] at h
  grind

/-! ## One character -/

theorem ofNat_of_toNat {b : UInt8} {m : Nat} (h : b.toNat = m) : UInt8.ofNat m = b := by
  rw [← h, UInt8.ofNat_toNat]

/-- The bytes of a character that is given by its number. -/
theorem encodeChar_ofNat {v : Nat} (hv : v.isValidChar) :
    String.utf8EncodeChar (Char.ofNat v) =
      if v ≤ 127 then [UInt8.ofNat v]
      else if v ≤ 2047 then [UInt8.ofNat (v / 64 % 32 + 192), UInt8.ofNat (v % 64 + 128)]
      else if v ≤ 65535 then
        [UInt8.ofNat (v / 4096 % 16 + 224), UInt8.ofNat (v / 64 % 64 + 128),
          UInt8.ofNat (v % 64 + 128)]
      else
        [UInt8.ofNat (v / 262144 % 8 + 240), UInt8.ofNat (v / 4096 % 64 + 128),
          UInt8.ofNat (v / 64 % 64 + 128), UInt8.ofNat (v % 64 + 128)] := by
  have h : (Char.ofNat v).val.toNat = v := by
    rw [Char.ofNat, dif_pos hv]
    rfl
  rw [String.utf8EncodeChar]
  simp only [h]

theorem encodeChar_one {a : UInt8} (ha : a.toNat < 0x80) :
    String.utf8EncodeChar (Char.ofNat a.toNat) = [a] := by
  rw [encodeChar_ofNat (.inl (by omega)), if_pos (by omega), ofNat_of_toNat rfl]

theorem encodeChar_two {a b : UInt8} (ha : 0xC2 ≤ a.toNat ∧ a.toNat ≤ 0xDF)
    (hb : isTail b = true) :
    String.utf8EncodeChar (Char.ofNat (a.toNat % 32 * 64 + payload b)) = [a, b] := by
  rw [isTail_iff] at hb
  rw [payload, encodeChar_ofNat (.inl (by omega)), if_neg (by omega), if_pos (by omega),
    ofNat_of_toNat (b := a) (by omega), ofNat_of_toNat (b := b) (by omega)]

theorem encodeChar_three {a b c : UInt8} (ha : 0xE0 ≤ a.toNat ∧ a.toNat ≤ 0xEF)
    (hb : isSecond a b = true) (hc : isTail c = true) :
    String.utf8EncodeChar (Char.ofNat (a.toNat % 16 * 4096 + payload b * 64 + payload c)) =
      [a, b, c] := by
  obtain ⟨hlow, hhigh, he0, hed, -, -⟩ := bounds_of_isSecond hb
  rw [isTail_iff] at hc
  -- `E0` would give an overlong form and `ED` a surrogate
  have hv : (a.toNat % 16 * 4096 + payload b * 64 + payload c).isValidChar := by
    simp only [Nat.isValidChar, payload]
    omega
  rw [encodeChar_ofNat hv, payload, payload, if_neg (by omega), if_neg (by omega),
    if_pos (by omega), ofNat_of_toNat (b := a) (by omega), ofNat_of_toNat (b := b) (by omega),
    ofNat_of_toNat (b := c) (by omega)]

theorem encodeChar_four {a b c d : UInt8} (ha : 0xF0 ≤ a.toNat ∧ a.toNat ≤ 0xF4)
    (hb : isSecond a b = true) (hc : isTail c = true) (hd : isTail d = true) :
    String.utf8EncodeChar (Char.ofNat (a.toNat % 8 * 262144 + payload b * 4096 + payload c * 64
      + payload d)) = [a, b, c, d] := by
  obtain ⟨hlow, hhigh, -, -, hf0, hf4⟩ := bounds_of_isSecond hb
  rw [isTail_iff] at hc hd
  -- `F0` would give an overlong form and `F4` a number beyond the last code point
  have hv : (a.toNat % 8 * 262144 + payload b * 4096 + payload c * 64
      + payload d).isValidChar := by
    simp only [Nat.isValidChar, payload]
    omega
  rw [encodeChar_ofNat hv, payload, payload, payload, if_neg (by omega), if_neg (by omega),
    if_neg (by omega), ofNat_of_toNat (b := a) (by omega), ofNat_of_toNat (b := b) (by omega),
    ofNat_of_toNat (b := c) (by omega), ofNat_of_toNat (b := d) (by omega)]

/-- **A piece that is a character is spelled by the bytes it takes.** -/
theorem encodeChar_firstPiece {lead : UInt8} {rest : List UInt8} {c : Char} {n : Nat}
    (h : firstPiece lead rest = (.char c, n)) :
    String.utf8EncodeChar c = lead :: rest.take n := by
  unfold firstPiece at h
  split at h
  · next hf =>
    obtain ⟨rfl, rfl⟩ : _ ∧ _ := by simpa using h
    have ha := bounds_of_following hf
    exact encodeChar_one (by omega)
  · next b bs hf =>
    have ha := bounds_of_following hf
    by_cases hb : isTail b = true
    · obtain ⟨rfl, rfl⟩ : _ ∧ _ := by simpa [hb] using h
      exact encodeChar_two (by omega) hb
    · grind
  · next b d bs hf =>
    have ha := bounds_of_following hf
    by_cases hbd : isSecond lead b = true ∧ isTail d = true
    · obtain ⟨rfl, rfl⟩ : _ ∧ _ := by simpa [hbd] using h
      exact encodeChar_three (by omega) hbd.1 hbd.2
    · grind
  · grind
  · next b d e bs hf =>
    have ha := bounds_of_following hf
    by_cases hbde : isSecond lead b = true ∧ isTail d = true ∧ isTail e = true
    · obtain ⟨rfl, rfl⟩ : _ ∧ _ := by simpa [hbde] using h
      exact encodeChar_four (by omega) hbde.1 hbde.2.1 hbde.2.2
    · grind
  -- what is cut short is no character
  · grind
  · grind
  · grind

/-! ## A byte string -/

/-- **What is decoded is all characters.** -/
theorem pieces_of_decode? {bs : List UInt8} {cs : List Char} (h : decode? bs = some cs) :
    pieces bs = cs.map .char := by
  unfold decode? at h
  generalize pieces bs = ps at h ⊢
  induction ps generalizing cs with
  | nil =>
    cases h
    rfl
  | cons piece ps ih =>
    rw [List.mapM_cons] at h
    obtain ⟨c, hc, h⟩ := Option.bind_eq_some_iff.mp h
    obtain ⟨ds, hds, h⟩ := Option.bind_eq_some_iff.mp h
    cases h
    cases piece with
    | ill bs => cases hc
    | char c' =>
      cases hc
      rw [ih hds, List.map_cons]

theorem decodeLossy_of_decode? {bs : List UInt8} {cs : List Char} (h : decode? bs = some cs) :
    decodeLossy bs = cs := by
  rw [decodeLossy, pieces_of_decode? h, List.map_map]
  exact List.map_id _

theorem encode_of_pieces {bs : List UInt8} {cs : List Char} (h : pieces bs = cs.map .char) :
    encode cs = bs := by
  fun_induction pieces bs generalizing cs with
  | case1 =>
    rw [List.map_eq_nil_iff.mp h.symm]
    rfl
  | case2 b rest piece n hp ih =>
    obtain ⟨c, ds, rfl, hc, hds⟩ := List.map_eq_cons_iff.mp h.symm
    rw [encode_cons, ih hds.symm, encodeChar_firstPiece (hc ▸ hp), List.cons_append,
      List.take_append_drop]

/-- **Text is read back from what is shown of it.** -/
theorem bytes_display {bs : List UInt8} {cs : List Char} (h : decode? bs = some cs) :
    bytes (display bs) = bs := by
  rw [bytes, display, String.toList_ofList, decodeLossy_of_decode? h,
    encode_of_pieces (pieces_of_decode? h)]

end TreeBroker.Utf8
