import TreeBroker.Proofs.Containment
import TreeBroker.Proofs.LibraryPaths
import TreeBroker.Proofs.RegistryRuns

/-!
# What the name of a library says

There are two conventions between languages and files. A locator spells the names of the
files that may hold a language. And a symbol is derived from the name of a file, which
tells the language again. The second is meant to undo the first, and for the three long
spellings it does: whatever the language, the words of the name are the beginning of all
symbols and the language behind it.

The bare spelling is ambiguous. In `libtoml.so` the first three letters are taken for the
mark of a library, and the file is one of `toml`; but a language may be called `libtoml`,
and then its locator looks for that file too. Likewise a language may be called
`tree_sitter_toml`. Those are all the exceptions (`Locator.Identifies`): for every name that
a locator looks for, the symbol that is derived is the locator's exactly if the name is not
bare or the language begins with neither mark.

The second half is about paths. A library that was found lies at a path that passed the
check, and what is derived from such a path is what is derived from its file name
(`FilePath.symbol_of_hasName`). A path that the environment names may have any file name;
in a directory it is one of the locator's.
-/

namespace TreeBroker

/-! ## Characters of names -/

theorem Text.trim_of_black {cs : List Char} (h : ∀ c ∈ cs, Text.isWhiteSpace c = false) :
    Text.trim cs = cs := by
  refine Text.trim_eq_self_iff.mpr ⟨fun c hc => h c ?_, fun c hc => h c ?_⟩
  · exact List.mem_of_mem_head? hc
  · exact List.mem_of_getLast? hc

namespace Name

/-- **An identifier, character by character**, where the first may also stand later. -/
theorem isIdentifier_iff {limit : Nat} {first later : Char → Bool} {cs : List Char}
    (sub : ∀ c, first c = true → later c = true) :
    isIdentifier limit first later cs = true ↔
      (∃ c, cs.head? = some c ∧ first c = true) ∧ cs.length ≤ limit ∧ ∀ c ∈ cs, later c = true := by
  cases cs with
  | nil => simp [isIdentifier]
  | cons c cs =>
    rw [isIdentifier, Bool.and_eq_true, Bool.and_eq_true, decide_eq_true_eq, List.all_eq_true,
      List.forall_mem_cons, List.length_cons]
    constructor
    · rintro ⟨⟨first, short⟩, later⟩
      exact ⟨⟨c, rfl, first⟩, short, sub c first, later⟩
    · rintro ⟨⟨d, head, first⟩, short, -, later⟩
      cases head
      exact ⟨⟨first, short⟩, later⟩

/-- **What a safe symbol is spelled with.** -/
theorem isSafeSymbol_iff {cs : List Char} :
    isSafeSymbol cs = true ↔
      (∃ c, cs.head? = some c ∧ (Ascii.isAlpha c || c == '_') = true) ∧
        cs.length ≤ maxSymbolLength ∧ ∀ c ∈ cs, (Ascii.isAlphanum c || c == '_') = true := by
  refine isIdentifier_iff fun c first => ?_
  rw [Bool.or_eq_true] at first ⊢
  exact first.imp_left fun alpha => by rw [Ascii.isAlphanum, alpha, Bool.true_or]

/-- A character of a file's name, up to the dot. -/
def isFileChar (c : Char) : Bool := isNameChar c || c == '-'

theorem isNameChar_iff {c : Char} : isNameChar c = true ↔
    (97 ≤ c.toNat ∧ c.toNat ≤ 122) ∨ (48 ≤ c.toNat ∧ c.toNat ≤ 57) ∨ c = '_' := by
  simp only [isNameChar, Bool.or_eq_true, beq_iff_eq, or_assoc, Ascii.isLower_iff,
    Ascii.isDigit_iff]

theorem isFileChar_iff {c : Char} : isFileChar c = true ↔ isNameChar c = true ∨ c = '-' := by
  simp [isFileChar]

/-- **The numbers of file characters.** -/
theorem bounds_of_isFileChar {c : Char} (h : isFileChar c = true) :
    (97 ≤ c.toNat ∧ c.toNat ≤ 122) ∨ (48 ≤ c.toNat ∧ c.toNat ≤ 57) ∨ c.toNat = 95 ∨
      c.toNat = 45 := by
  obtain name | rfl := isFileChar_iff.mp h
  · obtain lower | digit | rfl := isNameChar_iff.mp name
    · exact .inl lower
    · exact .inr (.inl digit)
    · exact .inr (.inr (.inl rfl))
  · exact .inr (.inr (.inr rfl))

theorem white_of_isFileChar {c : Char} (h : isFileChar c = true) : Text.isWhiteSpace c = false := by
  have bounds := bounds_of_isFileChar h
  refine Bool.eq_false_iff.mpr fun white => ?_
  simp only [Text.isWhiteSpace, Bool.or_eq_true, Bool.and_eq_true, decide_eq_true_eq,
    beq_iff_eq] at white
  omega

/-- A character with a number that no file character has. -/
theorem notMem_of_isFileChar {cs : List Char} (h : ∀ c ∈ cs, isFileChar c = true) {d : Char}
    (hd : d.toNat = 46 ∨ d.toNat = 47) : d ∉ cs := by
  intro mem
  have bounds := bounds_of_isFileChar (h d mem)
  omega

/-- File characters are small. -/
theorem lower_of_isFileChar {cs : List Char} (h : ∀ c ∈ cs, isFileChar c = true) :
    Ascii.lower cs = cs := by
  have small : ∀ c ∈ cs, Ascii.toLower c = id c := by
    intro c hc
    have bounds := bounds_of_isFileChar (h c hc)
    refine if_neg fun upper => ?_
    have bounds' := Ascii.isUpper_iff.mp upper
    omega
  exact (List.map_congr_left small).trans (List.map_id cs)

theorem isFileChar_of_isNameChar {c : Char} (h : isNameChar c = true) : isFileChar c = true :=
  isFileChar_iff.mpr (.inl h)

theorem ne_dash_of_isNameChar {c : Char} (h : isNameChar c = true) : c ≠ '-' := by
  rintro rfl
  cases h

theorem underscored_of_isNameChar {cs : List Char} (h : ∀ c ∈ cs, isNameChar c = true) :
    Ascii.underscored cs = cs := by
  have kept : ∀ c ∈ cs, (if c = '-' then '_' else c) = id c := fun c hc =>
    if_neg (ne_dash_of_isNameChar (h c hc))
  exact (List.map_congr_left kept).trans (List.map_id cs)

/-- **Underscores written as dashes** are read as underscores again. -/
theorem underscored_dashed {cs : List Char} (h : ∀ c ∈ cs, isNameChar c = true) :
    Ascii.underscored (Ascii.dashed cs) = cs := by
  have back : ∀ c ∈ cs, ((fun c => if c = '-' then '_' else c) ∘
      fun c => if c = '_' then '-' else c) c = id c := by
    intro c hc
    have ne := ne_dash_of_isNameChar (h c hc)
    by_cases underscore : c = '_'
    · simp [underscore]
    · simp [underscore, ne]
  unfold Ascii.underscored Ascii.dashed Ascii.replace
  rw [List.map_map]
  exact (List.map_congr_left back).trans (List.map_id cs)

theorem isFileChar_of_dashed {cs : List Char} (h : ∀ c ∈ cs, isNameChar c = true) :
    ∀ c ∈ Ascii.dashed cs, isFileChar c = true := by
  intro c hc
  obtain ⟨d, hd, rfl⟩ := List.mem_map.mp hc
  by_cases underscore : d = '_'
  · rw [if_pos underscore]
    rfl
  · rw [if_neg underscore]
    exact isFileChar_of_isNameChar (h d hd)

end Name

/-- **How a language is spelled.** -/
theorem LanguageName.spelling (n : LanguageName) :
    n.text.toList ≠ [] ∧ n.text.toList.length ≤ Name.maxLength ∧
      ∀ c ∈ n.text.toList, Name.isNameChar c = true := by
  have sub (c : Char) (lower : Ascii.isLower c = true) : Name.isNameChar c = true := by
    rw [Name.isNameChar, lower, Bool.true_or, Bool.true_or]
  obtain ⟨⟨c, head, -⟩, short, chars⟩ := (Name.isIdentifier_iff sub).mp n.safe
  exact ⟨fun empty => by simp [empty] at head, short, chars⟩

theorem LanguageName.ofString?_eq_some_iff {n : LanguageName} {s : String} :
    ofString? s = some n ↔ n.text = s := by
  unfold ofString?
  constructor
  · intro h
    split at h
    · cases h
      rfl
    · cases h
  · rintro rfl
    exact dif_pos n.safe

namespace Symbol

variable {n : LanguageName} {ws base : List Char}

/-! ## From words to symbols -/

/-- The symbol of the words of a file's name. -/
def ofWords (ws : List Char) : Option (List Char) :=
  if ws = [] then none
  else if stem.length < (complete ws).length && Name.isSafeSymbol (complete ws) then
    some (complete ws)
  else none

theorem derive?_of_fileName {cs name : List Char} (h : Path.fileName (Text.trim cs) = some name) :
    derive? cs = ofWords (words name) := by
  rw [derive?, h]
  rfl

/-- **The words that complete to the symbol of a language**: the symbol itself, or the
language, if it does not look like a symbol. -/
theorem complete_eq_iff {text : List Char} :
    complete ws = stem ++ text ↔ ws = stem ++ text ∨ ws = text ∧ ¬stem <+: text := by
  unfold complete
  by_cases h : stem <+: ws
  · rw [if_pos (List.isPrefixOf_iff_prefix.mpr h)]
    constructor
    · exact .inl
    · rintro (rfl | ⟨rfl, not⟩)
      · rfl
      · exact absurd h not
  · rw [if_neg (mt List.isPrefixOf_iff_prefix.mp h), List.append_cancel_left_eq]
    constructor
    · rintro rfl
      exact .inr ⟨rfl, h⟩
    · rintro (rfl | ⟨rfl, -⟩)
      · exact absurd (List.prefix_append stem text) h
      · rfl

theorem after?_eq_some_iff {beginning cs rest : List Char} :
    after? beginning cs = some rest ↔ cs = beginning ++ rest := by
  unfold after?
  constructor
  · intro h
    split at h
    · next hp =>
      obtain ⟨tail, rfl⟩ := List.isPrefixOf_iff_prefix.mp hp
      rw [List.drop_left] at h
      rw [Option.some.inj h]
    · cases h
  · rintro rfl
    rw [if_pos (List.isPrefixOf_iff_prefix.mpr (List.prefix_append _ _)), List.drop_left]

theorem toList_ofLanguage (n : LanguageName) :
    (ofLanguage n).toList = stem ++ n.text.toList := by
  rw [ofLanguage, String.toList_append]
  rfl

/-- Characters of names behind the beginning of all symbols make a safe symbol. -/
theorem isSafeSymbol_stem {text : List Char} (chars : ∀ c ∈ text, Name.isNameChar c = true)
    (short : (stem ++ text).length ≤ Name.maxSymbolLength) :
    Name.isSafeSymbol (stem ++ text) = true := by
  have mark : stem.all (fun c => Ascii.isAlphanum c || c == '_') = true := by decide
  have later : ∀ c ∈ text, (Ascii.isAlphanum c || c == '_') = true := by
    intro c hc
    obtain (lower | digit) | underscore : (Ascii.isLower c = true ∨ Ascii.isDigit c = true) ∨
        (c == '_') = true := by
      simpa only [Name.isNameChar, Bool.or_eq_true] using chars c hc
    · simp [Ascii.isAlphanum, Ascii.isAlpha, lower]
    · simp [Ascii.isAlphanum, digit]
    · simp [underscore]
  exact Name.isSafeSymbol_iff.mpr ⟨⟨'t', rfl, rfl⟩, short,
    List.forall_mem_append.mpr ⟨List.all_eq_true.mp mark, later⟩⟩

/-- The symbol of a language is safe. -/
theorem isSafeSymbol_ofLanguage (n : LanguageName) :
    Name.isSafeSymbol (stem ++ n.text.toList) = true := by
  obtain ⟨-, short, chars⟩ := n.spelling
  refine isSafeSymbol_stem chars ?_
  rw [List.length_append]
  exact Nat.le_trans (Nat.add_le_add_left short stem.length) (by decide)

theorem ofWords_eq_some_iff : ofWords ws = some (stem ++ n.text.toList) ↔
    ws = stem ++ n.text.toList ∨ ws = n.text.toList ∧ ¬stem <+: n.text.toList := by
  rw [← complete_eq_iff]
  obtain ⟨nonempty, -, -⟩ := n.spelling
  constructor
  · intro h
    unfold ofWords at h
    split at h
    · cases h
    · split at h
      · exact Option.some.inj h
      · cases h
  · intro h
    have some_word : ws ≠ [] := by
      rintro rfl
      have empty : stem ++ [] = stem ++ n.text.toList := h
      exact nonempty (List.append_cancel_left empty).symm
    have long : stem.length < (stem ++ n.text.toList).length := by
      have pos := List.length_pos_iff.mpr nonempty
      rw [List.length_append]
      omega
    unfold ofWords
    rw [if_neg some_word, h, decide_eq_true long, isSafeSymbol_ofLanguage]
    rfl

theorem ofFileName?_eq_some_iff {s symbol : String} :
    ofFileName? s = some symbol ↔ derive? s.toList = some symbol.toList := by
  rw [ofFileName?, Option.map_eq_some_iff]
  constructor
  · rintro ⟨derived, h, rfl⟩
    rw [String.toList_ofList]
    exact h
  · intro h
    exact ⟨_, h, String.ofList_toList⟩

/-- **A file is one of a language** if its symbol is that of the language. -/
theorem language?_eq_some_iff {s : String} :
    language? s = some n ↔ ofFileName? s = some (ofLanguage n) := by
  rw [ofFileName?_eq_some_iff, toList_ofLanguage, language?]
  constructor
  · intro h
    obtain ⟨symbol, hsymbol, h⟩ := Option.bind_eq_some_iff.mp h
    obtain ⟨rest, hrest, h⟩ := Option.bind_eq_some_iff.mp h
    rw [LanguageName.ofString?_eq_some_iff] at h
    rw [hsymbol, after?_eq_some_iff.mp hrest, h, String.toList_ofList]
  · intro h
    rw [h, Option.bind_some, after?_eq_some_iff.mpr rfl, Option.bind_some,
      LanguageName.ofString?_eq_some_iff, String.ofList_toList]

/-! ## The words of a library's name -/

/-- The name of a library file. -/
def fileOf (base : List Char) : List Char := base ++ '.' :: FilePath.libraryExtension.toList

/-- **The words of a library's name** are those before its dot. -/
theorem words_fileOf_of_notMem (free : '.' ∉ base) : words (fileOf base) =
    Ascii.underscored (Ascii.lower ((after? "lib".toList base).getD base)) := by
  have cut : (Path.splitOn '.' (fileOf base)).headD [] = base := by
    rw [fileOf, Path.splitOn_append_cons, Path.splitOn_of_notMem free]
    rfl
  show Ascii.underscored (Ascii.lower ((after? _ ((Path.splitOn '.' (fileOf base)).headD [])).getD
    ((Path.splitOn '.' (fileOf base)).headD []))) = _
  rw [cut]

theorem isPlain_fileOf (whole : '/' ∉ base) : Path.IsPlain (fileOf base) where
  whole := by
    rw [fileOf, List.mem_append, not_or]
    exact ⟨whole, by decide⟩
  ne_nil := by simp [fileOf]
  ne_dot := fun h => by simpa [fileOf, FilePath.libraryExtension] using congrArg List.length h
  ne_dotDot := fun h => by simpa [fileOf, FilePath.libraryExtension] using congrArg List.length h

section Base

variable (chars : ∀ c ∈ base, Name.isFileChar c = true)
include chars

/-- The words of a name in small letters. -/
theorem words_fileOf : words (fileOf base) =
    Ascii.underscored ((after? "lib".toList base).getD base) := by
  have kept : Ascii.lower ((after? "lib".toList base).getD base) =
      (after? "lib".toList base).getD base := by
    refine Name.lower_of_isFileChar fun c hc => chars c ?_
    unfold after? at hc
    split at hc
    · exact List.mem_of_mem_drop hc
    · exact hc
  rw [words_fileOf_of_notMem (Name.notMem_of_isFileChar chars (.inl rfl)), kept]

theorem trim_fileOf : Text.trim (fileOf base) = fileOf base := by
  have ending : ∀ c ∈ '.' :: FilePath.libraryExtension.toList, Text.isWhiteSpace c = false := by
    simp [FilePath.libraryExtension, Text.isWhiteSpace]
  refine Text.trim_of_black (List.forall_mem_append.mpr ⟨fun c hc => ?_, ending⟩)
  exact Name.white_of_isFileChar (chars c hc)

theorem derive?_fileOf : derive? (fileOf base) = ofWords (words (fileOf base)) := by
  refine derive?_of_fileName ?_
  rw [trim_fileOf chars]
  exact Path.fileName_of_isPlain (isPlain_fileOf (Name.notMem_of_isFileChar chars (.inr rfl)))

end Base

/-- A language's name behind a mark of a symbol. -/
theorem underscored_mark (n : LanguageName) :
    Ascii.underscored ("tree-sitter-".toList ++ Ascii.dashed n.text.toList) =
      stem ++ n.text.toList := by
  rw [Ascii.underscored, Ascii.replace, List.map_append]
  exact congrArg (stem ++ ·) (Name.underscored_dashed n.spelling.2.2)

/-- **The words of a bare name** are the language, but for a mark of a library. -/
theorem words_bare (n : LanguageName) :
    words (fileOf n.text.toList) = (after? "lib".toList n.text.toList).getD n.text.toList := by
  obtain ⟨-, -, chars⟩ := n.spelling
  rw [words_fileOf fun c hc => Name.isFileChar_of_isNameChar (chars c hc)]
  refine Name.underscored_of_isNameChar fun c hc => chars c ?_
  unfold after? at hc
  split at hc
  · exact List.mem_of_mem_drop hc
  · exact hc

/-- **When a bare name tells its language.** -/
theorem ofWords_bare (n : LanguageName) :
    ofWords (words (fileOf n.text.toList)) = some (stem ++ n.text.toList) ↔
      ¬"lib".toList <+: n.text.toList ∧ ¬stem <+: n.text.toList := by
  rw [ofWords_eq_some_iff, words_bare]
  cases hl : after? "lib".toList n.text.toList with
  | none =>
    have unmarked : ¬"lib".toList <+: n.text.toList := by
      rintro ⟨rest, hrest⟩
      rw [after?_eq_some_iff.mpr hrest.symm] at hl
      cases hl
    have short : n.text.toList ≠ stem ++ n.text.toList := fun h =>
      List.cons_ne_nil _ _ (List.self_eq_append_left.mp h)
    simp only [Option.getD_none, short, unmarked, not_false_eq_true, true_and, false_or]
  | some rest =>
    have marked : n.text.toList = "lib".toList ++ rest := after?_eq_some_iff.mp hl
    have short : rest.length < n.text.toList.length := by
      rw [marked, List.length_append]
      exact Nat.lt_add_of_pos_left (by decide)
    -- What is left is shorter than the language, so it is no spelling of it.
    constructor
    · rintro (h | ⟨h, -⟩)
      · have long := congrArg List.length h
        rw [Option.getD_some, List.length_append] at long
        omega
      · exact absurd (congrArg List.length h) (Nat.ne_of_lt short)
    · rintro ⟨unmarked, -⟩
      exact absurd ⟨rest, marked.symm⟩ unmarked

end Symbol

/-! ## The names that a locator looks for -/

namespace Locator

open TreeBroker.Symbol

variable {l : Locator} {fs : FileSystem} {p : FilePath} {name : String}

/-- The bare name: the language and the extension. -/
def bareName (l : Locator) : String := l.language.text ++ ("." ++ FilePath.libraryExtension)

/-- **A name that tells the language** of a locator: any but the bare name of a language
that begins like the name of a library or like a symbol. -/
def Identifies (l : Locator) (name : String) : Prop :=
  name = l.bareName →
    ¬"lib".toList <+: l.language.text.toList ∧ ¬stem <+: l.language.text.toList

/-- **The names that a locator looks for** are names of libraries. All but the bare one
have the locator's symbol for their words. -/
theorem exists_base (h : name ∈ l.fileNames) :
    ∃ base, name.toList = fileOf base ∧ (∀ c ∈ base, Name.isFileChar c = true) ∧
      (words (fileOf base) = stem ++ l.language.text.toList ∧ name ≠ l.bareName ∨
        base = l.language.text.toList ∧ name = l.bareName) := by
  obtain ⟨-, -, chars⟩ := l.language.spelling
  have bare : l.bareName.toList = fileOf l.language.text.toList := by
    rw [bareName, String.toList_append]
    rfl
  -- A name with a mark before the language is longer than the bare one.
  have marked (mark : List Char) {spelled : List Char} {s : String}
      (hs : s.toList = fileOf (mark ++ spelled))
      (hmark : mark.all Name.isFileChar = true) (pos : 0 < mark.length)
      (hspelled : ∀ c ∈ spelled, Name.isFileChar c = true)
      (size : spelled.length = l.language.text.toList.length)
      (hwords : Ascii.underscored ((after? "lib".toList (mark ++ spelled)).getD (mark ++ spelled)) =
        stem ++ l.language.text.toList) :
      ∃ base, s.toList = fileOf base ∧ (∀ c ∈ base, Name.isFileChar c = true) ∧
        (words (fileOf base) = stem ++ l.language.text.toList ∧ s ≠ l.bareName ∨
          base = l.language.text.toList ∧ s = l.bareName) := by
    have hbase : ∀ c ∈ mark ++ spelled, Name.isFileChar c = true :=
      List.forall_mem_append.mpr ⟨List.all_eq_true.mp hmark, hspelled⟩
    refine ⟨_, hs, hbase, .inl ⟨(words_fileOf hbase).trans hwords, ?_⟩⟩
    rintro rfl
    have long := congrArg List.length (List.append_cancel_right (bare.symm.trans hs))
    rw [List.length_append] at long
    omega
  have plain : ∀ c ∈ l.language.text.toList, Name.isFileChar c = true := fun c hc =>
    Name.isFileChar_of_isNameChar (chars c hc)
  have dashed := Name.isFileChar_of_dashed chars
  have size : (Ascii.dashed l.language.text.toList).length = l.language.text.toList.length :=
    List.length_map _
  simp only [fileNames, List.mem_cons, List.not_mem_nil, or_false] at h
  obtain rfl | rfl | rfl | rfl := h
  · refine marked "libtree-sitter-".toList ?_ rfl (by decide) dashed size
      (underscored_mark l.language)
    simp [fileOf, LanguageName.dashed]
  · refine marked "libtree_sitter_".toList ?_ rfl (by decide) plain rfl ?_
    · simp [fileOf]
    · exact congrArg (stem ++ ·) (Name.underscored_of_isNameChar chars)
  · refine marked "tree-sitter-".toList ?_ rfl (by decide) dashed size
      (underscored_mark l.language)
    simp [fileOf, LanguageName.dashed]
  · exact ⟨_, bare, plain, .inr ⟨rfl, rfl⟩⟩

/-- **The symbol of a name** is the locator's if the name tells the language. -/
theorem ofFileName?_iff (h : name ∈ l.fileNames) :
    ofFileName? name = some l.symbol ↔ l.Identifies name := by
  obtain ⟨base, hbase, chars, ⟨hwords, long⟩ | ⟨rfl, rfl⟩⟩ := exists_base h
  · rw [symbol, ofFileName?_eq_some_iff, toList_ofLanguage, hbase, derive?_fileOf chars]
    exact ⟨fun _ bare => absurd bare long, fun _ => ofWords_eq_some_iff.mpr (.inl hwords)⟩
  · rw [symbol, ofFileName?_eq_some_iff, toList_ofLanguage, hbase, derive?_fileOf chars,
      ofWords_bare]
    exact ⟨fun ok _ => ok, fun ok => ok rfl⟩

end Locator

/-! ## Paths of libraries -/

namespace FilePath

open TreeBroker.Symbol

variable {p : FilePath} {name : String}

/-- The file name of a path. -/
def HasName (p : FilePath) (name : String) : Prop :=
  Path.fileName p.bytes = some (Utf8.bytes name)

/-- **What is derived from a path** is what is derived from its file name. -/
theorem symbol_of_hasName {base : List Char} (hbase : name.toList = fileOf base)
    (chars : ∀ c ∈ base, Name.isFileChar c = true) (ok : p.rejection? = none)
    (h : p.HasName name) : p.toString?.bind ofFileName? = ofFileName? name := by
  obtain ⟨cs, spells, tight⟩ := (rejection?_eq_none_iff.mp ok).text
  have bytes : Utf8.encode cs = p.bytes := spells
  have trimmed := Text.trim_eq_self_iff.mpr tight
  have file : Path.fileName cs = some name.toList := by
    rw [HasName, ← bytes, Path.fileName_encode] at h
    exact Option.map_injective Utf8.encode_injective h
  have derived : derive? cs = derive? name.toList := by
    rw [hbase, derive?_fileOf chars, derive?_of_fileName (trimmed.symm ▸ file), hbase]
  rw [toString?, Utf8.toString?, decode?_eq_some_iff.mpr spells]
  show (derive? (String.ofList cs).toList).map _ = (derive? name.toList).map _
  rw [String.toList_ofList, derived]

end FilePath

namespace Locator

open TreeBroker.Symbol

variable {l : Locator} {fs : FileSystem} {p : FilePath} {name : String}

/-- The locator's symbol may be registered for every path that passes the check. -/
theorem ofLibrary_symbol (ok : p.rejection? = none) :
    Registration.ofLibrary p (some l.symbol) = .ok (.library p l.symbol) := by
  have safe : Name.isSafeSymbol l.symbol.toList = true := by
    rw [symbol, toList_ofLanguage]
    exact isSafeSymbol_ofLanguage l.language
  simp [Registration.ofLibrary, Registration.checked, Registration.validate, ok, safe, bind,
    Except.bind, pure, Except.pure]

/-- **Without a symbol, the locator's is registered** if the file name tells the language. -/
theorem ofLibrary_none_iff (ok : p.rejection? = none) (mem : name ∈ l.fileNames)
    (h : p.HasName name) :
    Registration.ofLibrary p none = .ok (.library p l.symbol) ↔ l.Identifies name := by
  obtain ⟨base, hbase, chars, -⟩ := exists_base mem
  rw [← ofFileName?_iff mem, Registration.ofLibrary, FilePath.symbol_of_hasName hbase chars ok h]
  cases ofFileName? name with
  | none => exact ⟨nofun, nofun⟩
  | some s =>
    constructor
    · intro checked
      obtain ⟨same, -⟩ := Registration.checked_ok checked
      cases same
      rfl
    · intro same
      rw [Option.some.inj same]
      exact ofLibrary_symbol ok

/-! ## Libraries that are found -/

/-- **A library that a search finds**, the safe one or the other. -/
def Finds (l : Locator) (fs : FileSystem) (p : FilePath) : Prop :=
  (l.discover fs).found = some (l.located p) ∨ (l.discoverSafe fs).found = some (l.located p)

/-- **A library that a search finds in a directory.** -/
def FindsInDirectory (l : Locator) (fs : FileSystem) (p : FilePath) : Prop :=
  (l.discover fs).found = some (l.located p) ∧ l.source? fs ≠ some .environment ∨
    (l.discoverSafe fs).found = some (l.located p)

theorem rejection?_of_accepts {source : CandidateSource} (h : l.accepts fs (p, source) = true) :
    p.rejection? = none := by
  simp only [accepts, Bool.and_eq_true, Option.isNone_iff_eq_none] at h
  exact h.1.1

theorem rejection?_of_override (h : l.overrideRejection? fs p = none) : p.rejection? = none := by
  unfold overrideRejection? at h
  split at h
  · cases h
  · assumption

/-- The candidate that a search through directories settles on. -/
theorem mem_of_scan {candidates : List (FilePath × CandidateSource)}
    (h : (l.scan fs candidates).found = some (l.located p)) :
    ∃ source, (p, source) ∈ candidates ∧ l.accepts fs (p, source) = true := by
  rw [found_scan] at h
  obtain ⟨⟨q, source⟩, found, hq⟩ := Option.map_eq_some_iff.mp h
  have path : q = p := congrArg LocatedLibrary.path hq
  subst path
  exact ⟨source, List.mem_of_find?_eq_some found, List.find?_some found⟩

/-- **What a search finds** was named by the environment or is a candidate in a directory,
and passed the check. -/
theorem of_discover (h : (l.discover fs).found = some (l.located p)) :
    p.rejection? = none ∧ (l.source? fs = some .environment ∨
      ∃ source, (p, source) ∈ l.candidates true) := by
  rw [found_discover] at h
  obtain ⟨⟨q, source⟩, chosen, hq⟩ := Option.map_eq_some_iff.mp h
  have path : q = p := congrArg LocatedLibrary.path hq
  subst path
  rw [source?, chosen]
  unfold choice? at chosen
  split at chosen
  · next named hnamed =>
    cases chosen
    have accepted := (Option.filter_eq_some_iff.mp hnamed).2
    exact ⟨rejection?_of_override (Option.isNone_iff_eq_none.mp accepted), .inl rfl⟩
  · exact ⟨rejection?_of_accepts (List.find?_some chosen),
      .inr ⟨source, List.mem_of_find?_eq_some chosen⟩⟩

theorem Finds.rejection? (h : l.Finds fs p) : p.rejection? = none := by
  obtain found | found := h
  · exact (of_discover found).1
  · obtain ⟨source, -, accepted⟩ := mem_of_scan found
    exact rejection?_of_accepts accepted

theorem FindsInDirectory.mem_candidates (h : l.FindsInDirectory fs p) :
    ∃ withExtra source, (p, source) ∈ l.candidates withExtra := by
  obtain ⟨found, inside⟩ | found := h
  · obtain environment | candidate := (of_discover found).2
    · exact absurd environment inside
    · exact ⟨true, candidate⟩
  · obtain ⟨source, mem, -⟩ := mem_of_scan found
    exact ⟨false, source, mem⟩

/-- **A candidate in a directory** has one of the locator's names. -/
theorem hasName_of_mem_candidates {withExtra : Bool} {source : CandidateSource}
    (h : (p, source) ∈ l.candidates withExtra) : ∃ name ∈ l.fileNames, p.HasName name := by
  have named {from' : CandidateSource} {dirs : List FilePath}
      (h : (p, source) ∈ l.candidatesIn from' dirs) : ∃ name ∈ l.fileNames, p.HasName name := by
    obtain ⟨dir, -, h⟩ := List.mem_flatMap.mp h
    obtain ⟨name, mem, h⟩ := List.mem_map.mp h
    cases h
    obtain ⟨base, hbase, chars, -⟩ := exists_base mem
    refine ⟨name, mem, Path.fileName_join dir.bytes ?_⟩
    rw [Utf8.bytes, hbase]
    exact (isPlain_fileOf (Name.notMem_of_isFileChar chars (.inr rfl))).encode
  unfold candidates at h
  obtain h | h := List.mem_append.mp h
  · cases withExtra with
    | true => exact named h
    | false => cases h
  · exact named h

/-- **What the name of a library says.** For every name that a locator looks for, the symbol
and the language that are derived from it are the locator's exactly if the name tells the
language. A library that a search finds in a directory has one of these names. And whether
it is registered with the locator's symbol or with none makes no difference exactly if its
name tells the language. -/
theorem fileNames_identify (l : Locator) :
    (∀ name ∈ l.fileNames,
      (Symbol.ofFileName? name = some l.symbol ↔ l.Identifies name) ∧
      (Symbol.language? name = some l.language ↔ l.Identifies name)) ∧
    ∀ (fs : FileSystem) (p : FilePath), l.Finds fs p →
      Registration.ofLibrary p (some l.symbol) = .ok (.library p l.symbol) ∧
      (∀ name ∈ l.fileNames, p.HasName name →
        (Registration.ofLibrary p none = Registration.ofLibrary p (some l.symbol) ↔
          l.Identifies name)) ∧
      (l.FindsInDirectory fs p → ∃ name ∈ l.fileNames, p.HasName name) := by
  refine ⟨fun name mem => ⟨ofFileName?_iff mem, ?_⟩, fun fs p found => ?_⟩
  · rw [Symbol.language?_eq_some_iff]
    exact ofFileName?_iff mem
  · have ok := found.rejection?
    refine ⟨ofLibrary_symbol ok, fun name mem named => ?_, fun inside => ?_⟩
    · rw [ofLibrary_symbol ok]
      exact ofLibrary_none_iff ok mem named
    · obtain ⟨withExtra, source, mem⟩ := inside.mem_candidates
      exact hasName_of_mem_candidates mem

/-- A directory `t` that holds one file. -/
def holding (file : String) : FileSystem where
  table := [([Utf8.bytes "t"], .directory), ([Utf8.bytes "t", Utf8.bytes file], .file [])]
  storable := by simp [FileNode.isStorable]

theorem found_toml : ((tomlIn ["/t"]).discover (holding "toml.so")).found =
    some ((tomlIn ["/t"]).located (FilePath.ofString "/t/toml.so")) := by cbv

-- The bare name of `toml` tells the language.
theorem fileNames_identify_bare :
    (tomlIn ["/t"]).Finds (holding "toml.so") (FilePath.ofString "/t/toml.so") ∧
      Registration.ofLibrary (FilePath.ofString "/t/toml.so") none =
        Registration.ofLibrary (FilePath.ofString "/t/toml.so") (some "tree_sitter_toml") := by
  have found : (tomlIn ["/t"]).Finds (holding "toml.so") (FilePath.ofString "/t/toml.so") :=
    .inl found_toml
  have named : (FilePath.ofString "/t/toml.so").HasName "toml.so" := by
    unfold FilePath.HasName
    cbv
  obtain ⟨-, same, -⟩ := (fileNames_identify (tomlIn ["/t"])).2 _ _ found
  exact ⟨found, (same "toml.so" (by decide) named).mpr fun _ => ⟨by decide, by decide⟩⟩

/-- A locator for a language that is called like a library. -/
def libtoml : Locator := { tomlIn ["/t"] with language := ⟨"libtoml", by decide⟩ }

/-- **A bare name that misleads.** The library of a language `libtoml` is found, and without
a symbol it is registered as one of `toml`. -/
theorem fileNames_mislead :
    "libtoml.so" ∈ libtoml.fileNames ∧
      Symbol.ofFileName? "libtoml.so" ≠ some libtoml.symbol ∧
      Symbol.language? "libtoml.so" ≠ some libtoml.language ∧
      (libtoml.discover (holding "libtoml.so")).found =
        some (libtoml.located (FilePath.ofString "/t/libtoml.so")) ∧
      Registration.ofLibrary (FilePath.ofString "/t/libtoml.so") none ≠
        Registration.ofLibrary (FilePath.ofString "/t/libtoml.so") (some libtoml.symbol) := by
  have mem : "libtoml.so" ∈ libtoml.fileNames := by decide
  have misleads : ¬libtoml.Identifies "libtoml.so" := fun tells => (tells rfl).1 (by decide)
  have ok : (FilePath.ofString "/t/libtoml.so").rejection? = none := by cbv
  have named : (FilePath.ofString "/t/libtoml.so").HasName "libtoml.so" := by
    unfold FilePath.HasName
    cbv
  refine ⟨mem, mt (ofFileName?_iff mem).mp misleads, ?_, by cbv, ?_⟩
  · rw [ne_eq, Symbol.language?_eq_some_iff]
    exact mt (ofFileName?_iff mem).mp misleads
  · rw [ofLibrary_symbol ok]
    exact mt (ofLibrary_none_iff ok mem named).mp misleads

end Locator

end TreeBroker
