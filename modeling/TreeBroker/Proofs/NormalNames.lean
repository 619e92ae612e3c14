import TreeBroker.Proofs.LibraryNames

/-!
# Normal forms of symbols and names

Symbols and names are each read in two ways: as they are spelled, and loosely, from whatever
leads to them. The loose reading of a symbol takes a path apart, cuts its last piece at the
first dot, strips one mark of a library from it, lowers its letters, writes its dashes as
underscores and puts the beginning of all symbols in front, unless it is there. That this
lands in one form and that the form stays as it is are two statements, and they meet in the
middle: what is derived is normal (`Symbol.isNormal_of_derive?`), and each of the stages is
harmless on what is normal (`Symbol.derive?_of_isNormal`). So the symbols that are derived are
those from which nothing new is derived (`Symbol.derive?_self_iff`).

For languages there are two loose readings, of a name and of the name of a library. The
second one goes through symbols and so has a limit of its own, which is the wider one; and it
adds a mark that the name itself may begin with. They agree all the same: between the mark in
front and the extension behind, a name without dots and separators comes through as it is
(`Symbol.words_marked`), and it is lowered and written with underscores by both.
-/

namespace TreeBroker

/-! ## Small letters -/

/-- Lowering leaves no capital. -/
theorem Ascii.isUpper_toLower (c : Char) : isUpper (toLower c) = false := by
  refine Bool.eq_false_iff.mpr fun upper => ?_
  unfold toLower at upper
  split at upper
  · next capital =>
    have old := isUpper_iff.mp capital
    have new := isUpper_iff.mp upper
    rw [Char.toNat_ofNat, if_pos (.inl (by omega))] at new
    omega
  · next small => exact small upper

namespace Name

/-- A letter, digit or underscore that is no capital is a character of names. -/
theorem isNameChar_of_not_isUpper {c : Char} (h : (Ascii.isAlphanum c || c == '_') = true)
    (small : Ascii.isUpper c = false) : isNameChar c = true := by
  simpa only [isNameChar, Ascii.isAlphanum, Ascii.isAlpha, small, Bool.or_false] using h

theorem ascii_of_isNameChar {c : Char} (h : isNameChar c = true) : c.toNat < 128 := by
  have bounds := bounds_of_isFileChar (isFileChar_of_isNameChar h)
  omega

theorem length_encode {cs : List Char} (chars : ∀ c ∈ cs, isNameChar c = true) :
    (Utf8.encode cs).length = cs.length := by
  rw [Utf8.length_encode, Utf8.length_of_ascii fun c hc => ascii_of_isNameChar (chars c hc)]

/-- **A language's name is spelled as names are**: the loose reading gives it back. -/
theorem normalize_text (n : LanguageName) : normalize n.text = n.text := by
  obtain ⟨-, -, chars⟩ := n.spelling
  have file : ∀ c ∈ n.text.toList, isFileChar c = true := fun c hc =>
    isFileChar_of_isNameChar (chars c hc)
  rw [normalize, Text.trim_of_black fun c hc => white_of_isFileChar (file c hc),
    lower_of_isFileChar file, underscored_of_isNameChar chars, String.ofList_toList]

end Name

namespace Symbol

variable {cs ws symbol : List Char}

/-! ## What is derived is normal -/

/-- **A symbol in normal form**: something stands behind the beginning of all symbols, all of
it is small letters, digits and underscores, and it is not too long. -/
structure IsNormal (symbol : List Char) : Prop where
  /-- Something stands behind the beginning. -/
  mark : ∃ rest, rest ≠ [] ∧ symbol = stem ++ rest
  /-- It is spelled in small letters, digits and underscores. -/
  chars : ∀ c ∈ symbol, Name.isNameChar c = true
  /-- It has not too many bytes. -/
  short : (Utf8.encode symbol).length ≤ Name.maxSymbolLength

theorem isUpper_of_mem_words {name : List Char} {c : Char} (h : c ∈ words name) :
    Ascii.isUpper c = false := by
  obtain ⟨d, hd, rfl⟩ := List.mem_map.mp h
  obtain ⟨e, -, rfl⟩ := List.mem_map.mp hd
  split
  · rfl
  · exact Ascii.isUpper_toLower e

theorem stem_isPrefix_complete (ws : List Char) : stem <+: complete ws := by
  unfold complete
  split
  · next h => exact List.isPrefixOf_iff_prefix.mp h
  · exact List.prefix_append stem ws

theorem mem_complete {c : Char} (h : c ∈ complete ws) : c ∈ stem ∨ c ∈ ws := by
  unfold complete at h
  split at h
  · exact .inr h
  · exact List.mem_append.mp h

/-- **A symbol that is derived** is made of the words of a file's name. -/
theorem derive?_eq_some (h : derive? cs = some symbol) :
    ∃ name, symbol = complete (words name) ∧ stem.length < symbol.length ∧
      Name.isSafeSymbol symbol = true := by
  obtain ⟨name, hname, -⟩ := Option.bind_eq_some_iff.mp h
  rw [derive?_of_fileName hname] at h
  unfold ofWords at h
  split at h
  · cases h
  split at h
  · next ok =>
    cases h
    rw [Bool.and_eq_true, decide_eq_true_eq] at ok
    exact ⟨name, rfl, ok⟩
  · cases h

theorem isNormal_of_derive? (h : derive? cs = some symbol) : IsNormal symbol := by
  obtain ⟨name, made, long, safe⟩ := derive?_eq_some h
  obtain ⟨-, short, spelled⟩ := Name.isSafeSymbol_iff.mp safe
  have chars : ∀ c ∈ symbol, Name.isNameChar c = true := by
    intro c hc
    refine Name.isNameChar_of_not_isUpper (spelled c hc) ?_
    obtain mark | word := mem_complete (made ▸ hc)
    · have small : stem.all (fun c => !Ascii.isUpper c) = true := by decide
      simpa using List.all_eq_true.mp small c mark
    · exact isUpper_of_mem_words word
  obtain ⟨rest, hrest⟩ := made ▸ stem_isPrefix_complete (words name)
  refine ⟨⟨rest, ?_, hrest.symm⟩, chars, (Name.length_encode chars).trans_le short⟩
  rintro rfl
  rw [← hrest, List.append_nil] at long
  exact Nat.lt_irrefl _ long

/-! ## What is normal stays -/

theorem IsNormal.isSafeSymbol (h : IsNormal symbol) : Name.isSafeSymbol symbol = true := by
  obtain ⟨rest, -, rfl⟩ := h.mark
  refine isSafeSymbol_stem (fun c hc => h.chars c (List.mem_append_right stem hc)) ?_
  rw [← Name.length_encode h.chars]
  exact h.short

theorem IsNormal.file (h : IsNormal symbol) : ∀ c ∈ symbol, Name.isFileChar c = true :=
  fun c hc => Name.isFileChar_of_isNameChar (h.chars c hc)

/-- A normal symbol is the name of a file. -/
theorem IsNormal.fileName (h : IsNormal symbol) :
    Path.fileName (Text.trim symbol) = some symbol := by
  have free : '.' ∉ symbol := Name.notMem_of_isFileChar h.file (.inl rfl)
  obtain ⟨rest, -, spelled⟩ := h.mark
  rw [Text.trim_of_black fun c hc => Name.white_of_isFileChar (h.file c hc)]
  refine Path.fileName_of_isPlain ⟨Name.notMem_of_isFileChar h.file (.inr rfl), ?_, ?_, ?_⟩
  · rintro rfl
    cases spelled
  · rintro rfl
    exact free List.mem_cons_self
  · rintro rfl
    exact free List.mem_cons_self

/-- The words of a normal symbol are the symbol. -/
theorem IsNormal.words (h : IsNormal symbol) : words symbol = symbol := by
  have unmarked : after? "lib".toList symbol = none := by
    obtain ⟨rest, -, rfl⟩ := h.mark
    rfl
  unfold Symbol.words
  rw [Path.splitOn_of_notMem (Name.notMem_of_isFileChar h.file (.inl rfl))]
  show Ascii.underscored (Ascii.lower ((after? "lib".toList symbol).getD symbol)) = symbol
  rw [unmarked, Option.getD_none, Name.lower_of_isFileChar h.file,
    Name.underscored_of_isNameChar h.chars]

theorem derive?_of_isNormal (h : IsNormal symbol) : derive? symbol = some symbol := by
  rw [derive?_of_fileName h.fileName, h.words]
  obtain ⟨rest, nonempty, spelled⟩ := h.mark
  have whole : complete symbol = symbol := by
    rw [spelled]
    exact complete_eq_iff.mpr (.inl rfl)
  have long : stem.length < symbol.length := by
    rw [spelled, List.length_append]
    exact Nat.lt_add_of_pos_right (List.length_pos_iff.mpr nonempty)
  have some_word : symbol ≠ [] := List.ne_nil_of_length_pos (Nat.zero_lt_of_lt long)
  rw [ofWords, if_neg some_word, whole, decide_eq_true long, h.isSafeSymbol]
  rfl

/-- **The symbols from which nothing new is derived** are the normal ones. -/
theorem derive?_self_iff : derive? symbol = some symbol ↔ IsNormal symbol :=
  ⟨isNormal_of_derive?, derive?_of_isNormal⟩

theorem isNormal_ofLanguage (n : LanguageName) : IsNormal (stem ++ n.text.toList) := by
  obtain ⟨nonempty, -, chars⟩ := n.spelling
  have mark : stem.all Name.isNameChar = true := by decide
  have spelled : ∀ c ∈ stem ++ n.text.toList, Name.isNameChar c = true :=
    List.forall_mem_append.mpr ⟨List.all_eq_true.mp mark, chars⟩
  obtain ⟨-, short, -⟩ := Name.isSafeSymbol_iff.mp (isSafeSymbol_ofLanguage n)
  exact ⟨⟨_, nonempty, rfl⟩, spelled, (Name.length_encode spelled).trans_le short⟩

/-- **Symbols are a normal form.** What is derived is normal and safe, and from it nothing new
is derived. A file is one of a language exactly if its symbol is that of the language. And the
symbol of a language is derived from itself and leads back to the language. -/
theorem ofFileName?_normalizes :
    (∀ s symbol, ofFileName? s = some symbol →
      IsNormal symbol.toList ∧ Name.isSafeSymbol symbol.toList = true ∧
        ofFileName? symbol = some symbol) ∧
    (∀ s n, language? s = some n ↔ ofFileName? s = some (ofLanguage n)) ∧
    ∀ n, ofFileName? (ofLanguage n) = some (ofLanguage n) ∧ language? (ofLanguage n) = some n := by
  have own (n : LanguageName) : ofFileName? (ofLanguage n) = some (ofLanguage n) := by
    rw [ofFileName?_eq_some_iff, toList_ofLanguage]
    exact derive?_self_iff.mpr (isNormal_ofLanguage n)
  refine ⟨fun s symbol h => ?_, fun s n => language?_eq_some_iff, fun n => ⟨own n, ?_⟩⟩
  · have normal := isNormal_of_derive? (ofFileName?_eq_some_iff.mp h)
    exact ⟨normal, normal.isSafeSymbol, ofFileName?_eq_some_iff.mpr (derive?_self_iff.mpr normal)⟩
  · exact language?_eq_some_iff.mpr (own n)

-- Everything that may stand around a name is here at once.
theorem ofFileName?_normalizes_versioned :
    ofFileName? " /opt/libTree-Sitter-C-Sharp.so.0 " = some "tree_sitter_c_sharp" ∧
      IsNormal "tree_sitter_c_sharp".toList ∧
      ofFileName? "tree_sitter_c_sharp" = some "tree_sitter_c_sharp" := by
  have derived : ofFileName? " /opt/libTree-Sitter-C-Sharp.so.0 " = some "tree_sitter_c_sharp" := by
    cbv
  obtain ⟨normal, -, stays⟩ := ofFileName?_normalizes.1 _ _ derived
  exact ⟨derived, normal, stays⟩

/-! ## Two loose readings of a language -/

/-- **The words of a name behind the mark of a library** are the name, in small letters with
underscores, as part of a symbol. -/
theorem words_marked {x : List Char} (free : '.' ∉ x) :
    words (fileOf ("libtree-sitter-".toList ++ x)) =
      stem ++ Ascii.underscored (Ascii.lower x) := by
  have unmarked : after? "lib".toList ("libtree-sitter-".toList ++ x) =
      some ("tree-sitter-".toList ++ x) := after?_eq_some_iff.mpr rfl
  have free' : '.' ∉ "libtree-sitter-".toList ++ x := by
    rw [List.mem_append, not_or]
    exact ⟨by decide, free⟩
  rw [words_fileOf_of_notMem free', unmarked, Option.getD_some]
  unfold Ascii.underscored Ascii.replace Ascii.lower
  rw [List.map_append, List.map_append]
  rfl

/-- The symbol of a name behind the mark of a library. -/
theorem derive?_marked {x : List Char} (free : '.' ∉ x) (whole : '/' ∉ x) :
    derive? (fileOf ("libtree-sitter-".toList ++ x)) =
      ofWords (stem ++ Ascii.underscored (Ascii.lower x)) := by
  have tight : Text.Tight (fileOf ("libtree-sitter-".toList ++ x)) := by
    refine ⟨?_, ?_⟩
    · intro c hc
      cases hc
      rfl
    · intro c hc
      rw [fileOf, List.getLast?_append] at hc
      cases hc
      rfl
  have whole' : '/' ∉ "libtree-sitter-".toList ++ x := by
    rw [List.mem_append, not_or]
    exact ⟨by decide, whole⟩
  rw [← words_marked free]
  refine derive?_of_fileName ?_
  rw [Text.trim_eq_self_iff.mpr tight]
  exact Path.fileName_of_isPlain (isPlain_fileOf whole')

end Symbol

namespace LanguageName

open TreeBroker.Symbol

theorem parse_eq_ok_iff {s : String} {n : LanguageName} : parse s = .ok n ↔ n.text = s := by
  rw [← ofString?_eq_some_iff, parse]
  cases ofString? s with
  | none => exact ⟨nofun, nofun⟩
  | some m =>
    constructor
    · exact fun h => congrArg some (Except.ok.inj h)
    · exact fun h => congrArg Except.ok (Option.some.inj h)

theorem sanitize_eq_ok_iff {s : String} {n : LanguageName} :
    sanitize s = .ok n ↔ n.text = Name.normalize s := parse_eq_ok_iff

/-- **The two loose readings of a language agree.** A name without dots, separators and white
space at its ends is read alike by itself and between the marks of a library. And what is read
loosely is a name that every reading gives back. -/
theorem sanitize_agrees :
    (∀ x : String, '.' ∉ x.toList → '/' ∉ x.toList → Text.Tight x.toList → ∀ n,
      language? ("libtree-sitter-" ++ x ++ ".so") = some n ↔ sanitize x = .ok n) ∧
    ∀ y n, sanitize y = .ok n →
      ofString? n.text = some n ∧ parse n.text = .ok n ∧ sanitize n.text = .ok n := by
  refine ⟨fun x free whole tight n => ?_, fun y n _ => ?_⟩
  · have spelled : ("libtree-sitter-" ++ x ++ ".so").toList =
        fileOf ("libtree-sitter-".toList ++ x.toList) := by
      rw [String.toList_append, String.toList_append]
      rfl
    have normal : Name.normalize x = String.ofList (Ascii.underscored (Ascii.lower x.toList)) := by
      rw [Name.normalize, Text.trim_eq_self_iff.mpr tight]
    rw [language?_eq_some_iff, ofFileName?_eq_some_iff, toList_ofLanguage, spelled,
      derive?_marked free whole, ofWords_eq_some_iff, sanitize_eq_ok_iff, normal]
    constructor
    · rintro (h | ⟨h, unmarked⟩)
      · rw [List.append_cancel_left h, String.ofList_toList]
      · exact absurd (h ▸ List.prefix_append stem _) unmarked
    · intro h
      rw [h, String.toList_ofList]
      exact .inl rfl
  · -- What was read is a name, and names are spelled as the loose reading spells them.
    exact ⟨ofString?_eq_some_iff.mpr rfl, parse_eq_ok_iff.mpr rfl,
      sanitize_eq_ok_iff.mpr (Name.normalize_text n).symm⟩

/-- A language that is written with capitals and a dash. -/
def fSharp : LanguageName := ⟨"f_sharp", by decide⟩

theorem sanitize_agrees_capitals :
    ('.' ∉ "F-Sharp".toList ∧ '/' ∉ "F-Sharp".toList ∧ Text.Tight "F-Sharp".toList ∧
      language? ("libtree-sitter-" ++ "F-Sharp" ++ ".so") = some fSharp) ∧
    sanitize "F-Sharp" = .ok fSharp ∧ parse fSharp.text = .ok fSharp ∧
      sanitize fSharp.text = .ok fSharp := by
  have free : '.' ∉ "F-Sharp".toList := by decide
  have whole : '/' ∉ "F-Sharp".toList := by decide
  have tight : Text.Tight "F-Sharp".toList := Text.trim_eq_self_iff.mp (by decide)
  have read : sanitize "F-Sharp" = .ok fSharp := sanitize_eq_ok_iff.mpr (by decide)
  obtain ⟨agree, again⟩ := sanitize_agrees
  exact ⟨⟨free, whole, tight, (agree _ free whole tight fSharp).mpr read⟩, read,
    (again _ _ read).2⟩

end LanguageName

end TreeBroker
