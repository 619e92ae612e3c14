import TreeBroker.Proofs.LibraryNames
import TreeBroker.Proofs.Verdicts

/-!
# Candidates in directories

A locator puts four names into every directory that it is given, and has each of the four
paths judged. Putting a name into a directory is done on the spelling. Judging a path looks
at its components, at its two ends and at its extension, and any of them might come from the
directory, from the name, or from the place where the two meet: a directory may end in a
separator or not, it may be empty, and it need not be text.

None of it matters. A separator byte is never a part of another character, so a path is text
exactly if its directory is (`FilePath.IsLibraryName.decode?_join`). The pieces of the path
are those of the directory and the name. White space at the end of the directory is inside the
path, and only white space at its beginning is at an end. And the name has the extension. What
is left is a judgement on the directory alone (`FilePath.directoryRejection?`), and it is the
same for every name that any locator looks for (`FilePath.IsLibraryName.rejection?_join`).
-/

namespace TreeBroker

/-! ## A separator in a text -/

namespace Utf8

open Path.Alphabet

theorem encode_ne_nil {cs : List Char} (h : cs ≠ []) : encode cs ≠ [] :=
  encode_injective.ne h

/-- **A separator is read as one**: where the bytes of a text have one, the text has one. -/
theorem exists_of_encode_eq {cs : List Char} {before after : List UInt8}
    (h : encode cs = before ++ slash :: after) :
    ∃ ds es, cs = ds ++ '/' :: es ∧ encode ds = before ∧ encode es = after := by
  induction cs generalizing before with
  | nil => simp at h
  | cons c cs ih =>
    rw [encode_cons] at h
    by_cases hc : c = '/'
    · subst hc
      cases before with
      | nil => exact ⟨[], cs, rfl, rfl, (List.cons.inj h).2⟩
      | cons b before =>
        obtain ⟨hb, hcs⟩ := List.cons.inj h
        obtain ⟨ds, es, rfl, hds, hes⟩ := ih hcs
        exact ⟨'/' :: ds, es, rfl, hb ▸ hds ▸ rfl, hes⟩
    · have free : (slash : UInt8) ∉ String.utf8EncodeChar c :=
        notMem_encodeChar (by decide) fun same => hc (Char.toNat_inj.mp same)
      -- The separator is not in the first character, so that stands before it.
      obtain ⟨rest, hbefore, hcs⟩ : ∃ rest, before = String.utf8EncodeChar c ++ rest ∧
          encode cs = rest ++ slash :: after := by
        obtain ⟨rest, hbefore, hcs⟩ | ⟨rest, hchar, hrest⟩ := List.append_eq_append_iff.mp h
        · exact ⟨rest, hbefore, hcs⟩
        · cases rest with
          | nil => exact ⟨[], by rw [hchar, List.append_nil, List.append_nil], hrest.symm⟩
          | cons b rest =>
            rw [hchar, ← (List.cons.inj hrest).1] at free
            exact absurd (List.mem_append_right before List.mem_cons_self) free
      obtain ⟨ds, es, rfl, hds, hes⟩ := ih hcs
      exact ⟨c :: ds, es, rfl, by rw [encode_cons, hds, hbefore], hes⟩

end Utf8

/-! ## A name in a directory -/

namespace Path

open Alphabet

variable {α : Type} [DecidableEq α] [Alphabet α] {dir name : List α}

theorem IsPlain.isAbsolute (plain : IsPlain name) : isAbsolute name = false :=
  Bool.eq_false_iff.mpr fun h => plain.whole (List.mem_of_mem_head? (of_decide_eq_true h))

theorem join_nil (name : List α) : join [] name = name := by
  unfold join
  split <;> rfl

theorem join_concat (plain : IsPlain name) (before : List α) :
    join (before ++ [slash]) name = before ++ slash :: name := by
  simp [join, plain.isAbsolute]

theorem join_of_getLast? (plain : IsPlain name) (nonempty : dir ≠ [])
    (h : dir.getLast? ≠ some slash) : join dir name = dir ++ slash :: name := by
  obtain ⟨c, hc⟩ := Option.ne_none_iff_exists'.mp (mt List.getLast?_eq_none_iff.mp nonempty)
  have other : c ≠ slash := by
    rintro rfl
    exact h hc
  simp [join, plain.isAbsolute, hc, other]

/-- **The ways to put a name into a directory**: in place of an empty one, behind the
separator that it ends in, or behind a new one. -/
theorem directory_cases (dir : List α) :
    dir = [] ∨ (∃ before, dir = before ++ [slash]) ∨ dir ≠ [] ∧ dir.getLast? ≠ some slash := by
  by_cases nonempty : dir = []
  · exact .inl nonempty
  by_cases h : dir.getLast? = some slash
  · exact .inr (.inl (List.getLast?_eq_some_iff.mp h))
  · exact .inr (.inr ⟨nonempty, h⟩)

section Plain

variable (dir) (plain : IsPlain name)
include plain

theorem head?_join : (join dir name).head? = dir.head?.or name.head? := by
  obtain rfl | ⟨before, rfl⟩ | ⟨nonempty, h⟩ := directory_cases dir
  · rw [join_nil]
    rfl
  · rw [join_concat plain]
    cases before <;> rfl
  · rw [join_of_getLast? plain nonempty h]
    cases dir with
    | nil => exact absurd rfl nonempty
    | cons c dir => rfl

theorem getLast?_join : (join dir name).getLast? = name.getLast? := by
  obtain ⟨c, hc⟩ := Option.ne_none_iff_exists'.mp (mt List.getLast?_eq_none_iff.mp plain.ne_nil)
  obtain rfl | ⟨before, rfl⟩ | ⟨nonempty, h⟩ := directory_cases dir
  · rw [join_nil]
  · rw [join_concat plain]
    simp [List.getLast?_append, List.getLast?_cons, hc]
  · rw [join_of_getLast? plain nonempty h]
    simp [List.getLast?_append, List.getLast?_cons, hc]

/-- **A name keeps a directory where it begins.** -/
theorem isAbsolute_join : isAbsolute (join dir name) = isAbsolute dir := by
  have relative : name.head? ≠ some slash := of_decide_eq_false plain.isAbsolute
  unfold isAbsolute
  rw [head?_join dir plain]
  cases dir with
  | nil => simp [relative]
  | cons c dir => rfl

/-- **A name does not climb**: the pieces that are `..` are those of the directory. -/
theorem hasParent_join : hasParent (join dir name) = hasParent dir := by
  have behind (before : List α) :
      [dot, dot] ∈ splitOn slash (before ++ slash :: name) ↔ [dot, dot] ∈ splitOn slash before := by
    rw [splitOn_append_cons, splitOn_of_notMem plain.whole, List.mem_append, List.mem_singleton]
    exact or_iff_left plain.ne_dotDot.symm
  rw [Bool.eq_iff_iff, hasParent_iff, hasParent_iff]
  obtain rfl | ⟨before, rfl⟩ | ⟨nonempty, h⟩ := directory_cases dir
  · rw [join_nil, splitOn_of_notMem plain.whole]
    simp [plain.ne_dotDot.symm]
  · rw [join_concat plain, behind, splitOn_append_cons]
    simp
  · rw [join_of_getLast? plain nonempty h, behind]

end Plain

/-- **A name in a directory, as bytes and as text**, is the same. -/
theorem join_encode {name : List Char} (plain : IsPlain name) (cs : List Char) :
    join (Utf8.encode cs) (Utf8.encode name) = Utf8.encode (join cs name) := by
  obtain rfl | ⟨before, rfl⟩ | ⟨nonempty, h⟩ := directory_cases cs
  · rw [join_nil, Utf8.encode_nil, join_nil]
  · rw [join_concat plain, Utf8.encode_append, Utf8.encode_append]
    exact join_concat plain.encode (Utf8.encode before)
  · have bytes : (Utf8.encode cs).getLast? ≠ some slash := by
      intro last
      obtain ⟨before, hbefore⟩ := List.getLast?_eq_some_iff.mp last
      obtain ⟨ds, es, rfl, -, hes⟩ := Utf8.exists_of_encode_eq hbefore
      obtain rfl : es = [] := Utf8.encode_injective hes
      exact h List.getLast?_concat
    rw [join_of_getLast? plain nonempty h, Utf8.encode_append,
      join_of_getLast? plain.encode (Utf8.encode_ne_nil nonempty) bytes]
    rfl

/-- **A path is text only if its directory is.** -/
theorem exists_of_encode_eq_join {dir : List UInt8} {name cs : List Char} (plain : IsPlain name)
    (h : Utf8.encode cs = join dir (Utf8.encode name)) : ∃ ds, Utf8.encode ds = dir := by
  obtain rfl | ⟨before, rfl⟩ | ⟨nonempty, last⟩ := directory_cases dir
  · exact ⟨[], rfl⟩
  · rw [join_concat plain.encode] at h
    obtain ⟨ds, es, -, hds, -⟩ := Utf8.exists_of_encode_eq h
    exact ⟨ds ++ ['/'], by rw [Utf8.encode_append, hds]; rfl⟩
  · rw [join_of_getLast? plain.encode nonempty last] at h
    obtain ⟨ds, es, -, hds, -⟩ := Utf8.exists_of_encode_eq h
    exact ⟨ds, hds⟩

end Path

/-! ## The judgement -/

namespace FilePath

open TreeBroker.Path TreeBroker.Path.Alphabet

variable {d : FilePath} {name : String}

/-- **What is wrong with a directory**, as a place for libraries: the first reason in the
order of the cases below. White space at its end is no fault, since a name comes behind it. -/
def directoryRejection? (d : FilePath) : Option Rejection :=
  match Utf8.decode? d.bytes with
  | none => some .invalidCharacters
  | some cs =>
    if Text.trimStart cs ≠ cs then some .whitespace
    else if d.hasParent then some .traversal
    else if !d.isAbsolute then some .notAbsolute
    else none

/-- A text whose bytes begin with a separator begins with one. -/
theorem Spells.trimStart {cs : List Char} (h : d.Spells cs) (root : d.isAbsolute = true) :
    Text.trimStart cs = cs := by
  obtain ⟨after, hafter⟩ := List.head?_eq_some_iff.mp (of_decide_eq_true root)
  have begins : Utf8.encode cs = [] ++ slash :: after := h.trans hafter
  obtain ⟨ds, es, rfl, hds, -⟩ := Utf8.exists_of_encode_eq begins
  obtain rfl : ds = [] := Utf8.encode_injective hds
  exact Text.trimStart_of_head (by decide)

/-- **A directory that may hold libraries** is text, begins at the root and does not climb. -/
theorem directoryRejection?_eq_none_iff :
    d.directoryRejection? = none ↔
      (∃ cs, d.Spells cs) ∧ d.isAbsolute = true ∧ d.hasParent = false := by
  unfold directoryRejection?
  cases hd : Utf8.decode? d.bytes with
  | none =>
    refine ⟨nofun, ?_⟩
    rintro ⟨⟨cs, spells⟩, -⟩
    rw [decode?_eq_some_iff.mpr spells] at hd
    cases hd
  | some cs =>
    have spells : d.Spells cs := decode?_eq_some_iff.mp hd
    constructor
    · intro h
      dsimp only at h
      split_ifs at h with loose climbs relative
      exact ⟨⟨cs, spells⟩, by simpa using relative, by simpa using climbs⟩
    · rintro ⟨-, root, stays⟩
      simp [spells.trimStart root, root, stays]

theorem directoryRejection?_eq_some {reason : Rejection} (h : d.directoryRejection? = some reason) :
    reason ∈ [.invalidCharacters, .whitespace, .traversal, .notAbsolute] := by
  unfold directoryRejection? at h
  grind

/-- **A name for a library file**, as it stands in a directory. -/
structure IsLibraryName (name : String) : Prop where
  /-- It is a name. -/
  plain : IsPlain name.toList
  /-- There is no white space at its ends. -/
  tight : Text.Tight name.toList
  /-- It has the extension, and something before it. -/
  extended : ∃ base ≠ [], name.toList = Symbol.fileOf base

namespace IsLibraryName

variable (h : IsLibraryName name) (d : FilePath)
include h

/-- **The text of the path** is the name in the text of the directory. -/
theorem decode?_join : Utf8.decode? (d.join name).bytes =
    (Utf8.decode? d.bytes).map (Path.join · name.toList) := by
  refine Option.ext fun es => ?_
  rw [Utf8.decode?_eq_some_iff, Option.map_eq_some_iff]
  simp only [Utf8.decode?_eq_some_iff]
  constructor
  · intro text
    obtain ⟨cs, hcs⟩ := exists_of_encode_eq_join h.plain text
    refine ⟨cs, hcs, Utf8.encode_injective ?_⟩
    rw [text, ← join_encode h.plain, hcs]
    rfl
  · rintro ⟨cs, hcs, rfl⟩
    rw [← join_encode h.plain, hcs]
    rfl

theorem isLibrary_join : (d.join name).isLibrary = true := by
  obtain ⟨base, nonempty, hbase⟩ := h.extended
  have file : fileName (d.join name).bytes = some (Utf8.encode name.toList) :=
    fileName_join d.bytes h.plain.encode
  rw [hbase, Symbol.fileOf, Utf8.encode_append] at file
  refine decide_eq_true ((extension_eq_some_iff (by decide)).mpr ⟨_, ?_, file⟩)
  exact Utf8.encode_ne_nil nonempty

/-- **White space at an end of the path** is at the beginning of the directory. -/
theorem trim_join_iff (cs : List Char) :
    Text.trim (Path.join cs name.toList) = Path.join cs name.toList ↔ Text.trimStart cs = cs := by
  rw [Text.trim_eq_self_iff, Text.trimStart_eq_self_iff]
  constructor
  · intro tight c hc
    exact tight.first c (by rw [head?_join cs h.plain, hc]; rfl)
  · intro black
    refine ⟨fun c hc => ?_, fun c hc => ?_⟩
    · rw [head?_join cs h.plain, Option.or_eq_some_iff] at hc
      exact hc.elim (black c) fun hc => h.tight.first c hc.2
    · rw [getLast?_join cs h.plain] at hc
      exact h.tight.last c hc

/-- **The check is made on the directory alone.** -/
theorem rejection?_join : (d.join name).rejection? = d.directoryRejection? := by
  have parent : (d.join name).hasParent = d.hasParent := hasParent_join d.bytes h.plain.encode
  have root : (d.join name).isAbsolute = d.isAbsolute := isAbsolute_join d.bytes h.plain.encode
  unfold rejection? directoryRejection?
  rw [h.decode?_join, parent, root, h.isLibrary_join]
  cases Utf8.decode? d.bytes with
  | none => rfl
  | some cs =>
    have filled : Path.join cs name.toList ≠ [] := by
      intro empty
      have last := getLast?_join cs h.plain
      rw [empty] at last
      exact h.plain.ne_nil (List.getLast?_eq_none_iff.mp last.symm)
    simp only [Option.map_some, filled, ne_eq, h.trim_join_iff, Bool.not_true, Bool.false_eq_true,
      if_false]

end IsLibraryName

end FilePath

namespace Locator

open FilePath

variable {l : Locator} {fs : FileSystem} {name : String} {r : Refusal}

/-- **Every name that a locator looks for** is one for a library file. -/
theorem isLibraryName_of_mem (mem : name ∈ l.fileNames) : IsLibraryName name := by
  obtain ⟨base, hbase, chars, hwords⟩ := exists_base mem
  refine ⟨?_, ?_, base, ?_, hbase⟩
  · rw [hbase]
    exact Symbol.isPlain_fileOf (Name.notMem_of_isFileChar chars (.inr rfl))
  · rw [hbase]
    exact Text.trim_eq_self_iff.mp (Symbol.trim_fileOf chars)
  · rintro rfl
    obtain ⟨hwords, -⟩ | ⟨empty, -⟩ := hwords
    · have none : Symbol.words (Symbol.fileOf []) = [] := rfl
      rw [none] at hwords
      exact absurd (List.append_eq_nil_iff.mp hwords.symm).1 (by decide)
    · exact l.language.spelling.1 empty.symm

theorem refusal?_eq_some {c : FilePath × CandidateSource} (h : l.refusal? fs c = some r) :
    c = (r.path, r.source) ∧ l.verdict fs c = .refused r.reason := by
  unfold refusal? at h
  split at h
  · next reason hv =>
    cases h
    exact ⟨rfl, hv⟩
  · cases h

/-- A file in a directory is refused by the check, or because it is not to be trusted. -/
theorem verdict_eq_refused {p : FilePath} {source : CandidateSource} {reason : Rejection}
    (inside : source ≠ .environment) (h : l.verdict fs (p, source) = .refused reason) :
    p.rejection? = some reason ∨ source = .trustedDirectory ∧ reason = .untrustedDirectory := by
  unfold verdict at h
  cases hr : p.rejection? with
  | some first =>
    left
    cases source <;> simpa [checks, hr] using h
  | none =>
    cases source with
    | environment => exact absurd rfl inside
    | extraDirectory => cases hf : fs.isFile p <;> simp [checks, hr, hf] at h
    | trustedDirectory =>
      cases hf : fs.isFile p <;> cases ht : fs.isTrusted p l.search.trustedDirs <;>
        simp [checks, hr, hf, ht] at h
      exact .inr ⟨rfl, h.symm⟩

/-- **Candidates in directories** are names that the locator looks for. -/
theorem exists_of_mem_allCandidates {c : FilePath × CandidateSource} (mem : c ∈ l.allCandidates)
    (inside : c.2 ≠ .environment) : ∃ d : FilePath, ∃ name ∈ l.fileNames, c.1 = d.join name := by
  have named {source : CandidateSource} {dirs : List FilePath}
      (h : c ∈ l.inDirectories source dirs) :
      ∃ d : FilePath, ∃ name ∈ l.fileNames, c.1 = d.join name := by
    obtain ⟨place, hplace, rfl⟩ := List.mem_map.mp h
    exact ⟨place.1, place.2, (List.mem_product.mp hplace).2, rfl⟩
  rw [allCandidates, List.mem_append, List.mem_append] at mem
  obtain (mem | mem) | mem := mem
  · rw [fromEnvironment_eq] at mem
    obtain ⟨p, -, rfl⟩ := List.mem_map.mp mem
    exact absurd rfl inside
  · exact named mem
  · exact named mem

/-- **Why a candidate in a directory is refused**: because of its directory, or because it
leads out of the trusted ones. -/
theorem reason_of_mem_refusals (mem : r ∈ (l.discover fs).refusals)
    (inside : r.source ≠ .environment) :
    (∃ d : FilePath, ∃ name ∈ l.fileNames, r.path = d.join name ∧
        d.directoryRejection? = some r.reason) ∨
      r.source = .trustedDirectory ∧ r.reason = .untrustedDirectory := by
  have settled : (l.discover fs).refusals = (l.settle fs l.allCandidates).2 :=
    congrArg Prod.snd (found_refusals_discover l fs)
  rw [settled] at mem
  obtain ⟨c, hc, hr⟩ := List.mem_filterMap.mp mem
  obtain ⟨rfl, refused⟩ := refusal?_eq_some hr
  obtain ⟨d, name, hname, hpath⟩ :=
    exists_of_mem_allCandidates ((List.takeWhile_subset _) hc) inside
  obtain rejected | untrusted := verdict_eq_refused inside refused
  · refine .inl ⟨d, name, hname, hpath, ?_⟩
    rw [← (isLibraryName_of_mem hname).rejection?_join, ← hpath]
    exact rejected
  · exact .inr untrusted

/-- **A candidate in a directory is judged by the directory.** Whatever bytes spell a
directory, there is one outcome of the check for all names that any locator looks for in it.
The outcome is good if and only if the directory is text, begins at the root and does not
climb, and it is never that the extension is wrong. So no search refuses a candidate in a
directory for its extension or because it is not there, and none in a directory of the
caller because it is not to be trusted. -/
theorem judged_by_directory :
    (∀ d : FilePath, ∃ outcome,
      (∀ (l : Locator), ∀ name ∈ l.fileNames, (d.join name).rejection? = outcome) ∧
      (outcome = none ↔ (∃ cs, d.Spells cs) ∧ d.isAbsolute = true ∧ d.hasParent = false) ∧
      outcome ≠ some .extension) ∧
    ∀ (l : Locator) (fs : FileSystem) (r : Refusal),
      r ∈ (l.discover fs).refusals ∨ r ∈ (l.discoverSafe fs).refusals →
      r.source ≠ .environment →
      r.reason ≠ .extension ∧ r.reason ≠ .notFound ∧
        (r.source = .extraDirectory → r.reason ≠ .untrustedDirectory) := by
  refine ⟨fun d => ⟨d.directoryRejection?,
    fun l name mem => (isLibraryName_of_mem mem).rejection?_join d,
    directoryRejection?_eq_none_iff, fun h => ?_⟩, fun l fs r mem inside => ?_⟩
  · exact absurd (directoryRejection?_eq_some h) (by decide)
  · -- The safe search is a search of a locator with the same names.
    have reasons : (∃ d : FilePath, ∃ name ∈ l.fileNames, r.path = d.join name ∧
          d.directoryRejection? = some r.reason) ∨
        r.source = .trustedDirectory ∧ r.reason = .untrustedDirectory := by
      obtain mem | mem := mem
      · exact reason_of_mem_refusals mem inside
      · rw [← discover_sheltered] at mem
        exact reason_of_mem_refusals (l := l.sheltered) mem inside
    obtain ⟨d, -, -, -, hd⟩ | ⟨source, reason⟩ := reasons
    · have few := directoryRejection?_eq_some hd
      refine ⟨?_, ?_, fun _ => ?_⟩ <;>
      · intro h
        rw [h] at few
        exact absurd few (by decide)
    · rw [reason, source]
      exact ⟨nofun, nofun, nofun⟩

/-- A locator for `toml` that is given a directory of the caller, which is not text. -/
def astray : Locator :=
  { tomlIn [] with search := { extraDirs := [⟨[0x2F, 0xFF]⟩], trustedDirs := [] } }

-- A blank behind a directory is harmless, and a directory that is not text is refused for that.
theorem judged_by_directory_astray :
    ((FilePath.ofString "/t /./").join "toml.so").rejection? = none ∧
      ((FilePath.ofString "/t /./").join "libtree-sitter-toml.so").rejection? = none ∧
      ∃ r ∈ (astray.discover default).refusals,
        r.source = .extraDirectory ∧ r.reason = .invalidCharacters ∧
          r.reason ≠ .extension ∧ r.reason ≠ .notFound ∧ r.reason ≠ .untrustedDirectory := by
  obtain ⟨outcome, same, good, -⟩ := judged_by_directory.1 (FilePath.ofString "/t /./")
  have fine : outcome = none := good.mpr ⟨⟨"/t /./".toList, rfl⟩, by decide, by decide⟩
  have refused : (⟨FilePath.join ⟨[0x2F, 0xFF]⟩ "toml.so", .extraDirectory, .invalidCharacters⟩ :
      Refusal) ∈ (astray.discover default).refusals := by
    have listed : (astray.discover default).refusals = astray.fileNames.map fun name =>
        ⟨FilePath.join ⟨[0x2F, 0xFF]⟩ name, .extraDirectory, .invalidCharacters⟩ := by cbv
    rw [listed]
    exact List.mem_map.mpr ⟨"toml.so", by decide, rfl⟩
  obtain ⟨extension, notFound, untrusted⟩ :=
    judged_by_directory.2 astray default _ (.inl refused) (by decide)
  refine ⟨?_, ?_, _, refused, rfl, rfl, extension, notFound, untrusted rfl⟩
  · rw [same (tomlIn []) "toml.so" (by decide), fine]
  · rw [same (tomlIn []) "libtree-sitter-toml.so" (by decide), fine]

end Locator

end TreeBroker
