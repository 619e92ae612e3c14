import Mathlib
import TreeBroker.Discovery
import TreeBroker.Proofs.CanonicalPaths

/-!
# What a search may find

A library that a search takes from a trusted place has to lie in a trusted
directory once all links are resolved: a link inside a trusted directory may lead
anywhere. The check compares resolved paths, and what has no resolved path it takes
as it is spelled, on either side.

On the side of the list that is harmless for almost every entry. An entry that does
not resolve vouches for nothing, since a resolved path cannot be disguised – but for
two degenerate ones. The empty entry resolves to nothing and has no components, so
it begins every path and vouches for everything. And an entry that spells a file
with a separator or a dot behind it does not resolve either, and vouches for that
file. These are the entries that *overreach* (`FileSystem.Overreaches`). Without them
the check is containment and no more (`FileSystem.isTrusted_iff`); with an empty
entry in the list a link does lead out of the trusted directories.

On the side of the library one would expect no such case, since a library that is
found is a file that is there. But it may lie so deep that it can be opened through
a link and not be looked up by its resolved path (`FileSystem.IsOutOfReach`). Then
the link itself is compared, and that says nothing of where it leads.

Where the library that is found comes from is not part of the outcome of a
search, so the search is described here by the candidate that it settles on,
with its source (`Locator.choice?`, `Locator.found_discover`).
-/

namespace TreeBroker

namespace FileSystem

variable {fs : FileSystem} {p d c : FilePath} {dirs : List FilePath}

/-! ## Which entries vouch for a path -/

/-- **A resolved path lies in one of the directories**, each of them resolved. An
entry that does not exist is above nothing. -/
def Encloses (fs : FileSystem) (dirs : List FilePath) (c : FilePath) : Prop :=
  ∃ d ∈ dirs, ∃ d', fs.canonicalize? d = some d' ∧ d'.components <+: c.components

/-- **An entry overreaches**: it is empty, or it does not resolve and spells the
resolved path itself. -/
def Overreaches (fs : FileSystem) (d c : FilePath) : Prop :=
  d.bytes = [] ∨ fs.canonicalize? d = none ∧ d.components = c.components

/-- **A path is out of reach**: a place on its way is too deep to be looked up by its
path, so that what it leads to has no resolved path. -/
def IsOutOfReach (fs : FileSystem) (p : FilePath) : Prop := fs.realPath p = .error .tooLong

/-- The empty path does not resolve. -/
theorem canonicalize?_empty (hd : d.bytes = []) : fs.canonicalize? d = none := by
  unfold canonicalize? realPath existing destination
  rw [hd]
  rfl

theorem Overreaches.canonicalize?_eq_none (h : fs.Overreaches d c) :
    fs.canonicalize? d = none := by
  obtain hd | hd := h
  · exact canonicalize?_empty hd
  · exact hd.1

theorem Overreaches.isPrefix (h : fs.Overreaches d c) : d.components <+: c.components := by
  obtain hd | ⟨-, hd⟩ := h
  · rw [FilePath.components, hd]
    exact List.nil_prefix
  · exact hd ▸ List.prefix_refl d.components

/-- **An entry vouches for a resolved path** if it is above it, resolved, or if it
overreaches. -/
theorem isPrefix_canonical_iff (hp : fs.canonicalize? p = some c) (d : FilePath) :
    (fs.canonical d).components <+: c.components ↔ fs.Encloses [d] c ∨ fs.Overreaches d c := by
  constructor
  · intro h
    cases hd : fs.canonicalize? d with
    | some d' =>
      rw [canonical, hd] at h
      exact .inl ⟨d, List.mem_singleton_self d, d', hd, h⟩
    | none =>
      rw [canonical, hd] at h
      -- what the path resolved to can be reached, so a prefix of it is no other entry
      obtain ⟨loc, hloc, rfl⟩ := Option.map_eq_some_iff.mp hp
      cases hr : fs.realPath p with
      | error e =>
        rw [hr] at hloc
        cases hloc
      | ok reached =>
        rw [hr] at hloc
        cases hloc
        obtain hempty | hsame := unresolved_of_isPrefix hr hd h
        · exact .inr (.inl hempty)
        · exact .inr (.inr ⟨hd, hsame⟩)
  · rintro (⟨d₀, hmem, d', hd, h⟩ | h)
    · rw [List.mem_singleton.mp hmem] at hd
      rw [canonical, hd]
      exact h
    · rw [canonical, h.canonicalize?_eq_none]
      exact h.isPrefix

/-- **What the check looks at**: whether an entry, resolved if it can be, is above the
path, resolved if it can be. -/
theorem isTrusted_eq_true_iff (dirs : List FilePath) :
    fs.isTrusted p dirs = true ↔ p.hasParent = false ∧
      ∃ d ∈ dirs, (fs.canonical d).components <+: (fs.canonical p).components := by
  unfold isTrusted
  rw [Bool.and_eq_true, Bool.not_eq_true', List.any_eq_true]
  simp only [FilePath.startsWith, Path.startsWith, List.isPrefixOf_iff_prefix,
    FilePath.components]

/-- **What the check accepts** of paths that resolve: those in a trusted directory,
and those that an entry overreaches to. -/
theorem isTrusted_iff (hp : fs.canonicalize? p = some c) (hparent : p.hasParent = false)
    (dirs : List FilePath) :
    fs.isTrusted p dirs = true ↔ fs.Encloses dirs c ∨ ∃ d ∈ dirs, fs.Overreaches d c := by
  have hc : fs.canonical p = c := by rw [canonical, hp, Option.getD_some]
  rw [isTrusted_eq_true_iff, hc]
  constructor
  · rintro ⟨-, d, hd, hpre⟩
    obtain ⟨d₀, hmem, h⟩ | h := (isPrefix_canonical_iff hp d).mp hpre
    · exact .inl ⟨d, hd, List.mem_singleton.mp hmem ▸ h⟩
    · exact .inr ⟨d, hd, h⟩
  · rintro (⟨d, hd, h⟩ | ⟨d, hd, h⟩)
    · exact ⟨hparent, d, hd,
        (isPrefix_canonical_iff hp d).mpr (.inl ⟨d, List.mem_singleton_self d, h⟩)⟩
    · exact ⟨hparent, d, hd, (isPrefix_canonical_iff hp d).mpr (.inr h)⟩

/-- **Overreaching is vouching without enclosing.** -/
theorem overreaches_iff (hp : fs.canonicalize? p = some c) (hparent : p.hasParent = false)
    (d : FilePath) :
    fs.Overreaches d c ↔ fs.isTrusted p [d] = true ∧ ¬ fs.Encloses [d] c := by
  rw [isTrusted_iff hp hparent]
  constructor
  · intro h
    refine ⟨.inr ⟨d, List.mem_singleton_self d, h⟩, ?_⟩
    rintro ⟨d₀, hmem, d', hd, -⟩
    rw [List.mem_singleton.mp hmem, h.canonicalize?_eq_none] at hd
    cases hd
  · rintro ⟨h | ⟨d₀, hmem, h⟩, hnot⟩
    · exact absurd h hnot
    · rw [List.mem_singleton.mp hmem] at h
      exact h

/-- **A regular file resolves**, unless it is out of reach. -/
theorem canonicalize?_of_isFile (h : fs.isFile p = true) (hreach : ¬ fs.IsOutOfReach p) :
    ∃ c, fs.canonicalize? p = some c := by
  unfold isFile locate at h
  by_cases hlong : isTooLong p = true
  · rw [if_pos hlong] at h
    cases h
  · rw [if_neg hlong] at h
    cases hr : fs.resolve p with
    | error e =>
      rw [hr] at h
      cases h
    | ok loc =>
      obtain hreal | hfar := realPath_of_resolve hr
      · exact ⟨pathOf loc, by rw [canonicalize?, hreal]; rfl⟩
      · exact absurd hfar hreach

theorem IsOutOfReach.canonicalize?_eq_none (h : fs.IsOutOfReach p) :
    fs.canonicalize? p = none := by
  rw [canonicalize?, h]
  rfl

end FileSystem

namespace Locator

variable {l : Locator} {fs : FileSystem} {p : FilePath}

/-! ## The candidate that is chosen -/

/-- **A candidate in a directory is accepted**: its path passes the structural
check, a file is there, and it may be trusted if it has to be. -/
def accepts (l : Locator) (fs : FileSystem) (candidate : FilePath × CandidateSource) : Bool :=
  candidate.1.rejection?.isNone && fs.isFile candidate.1 &&
    (candidate.2 != .trustedDirectory || fs.isTrusted candidate.1 l.search.trustedDirs)

/-- **The candidate that a search settles on**, with its source. -/
def choice? (l : Locator) (fs : FileSystem) : Option (FilePath × CandidateSource) :=
  match l.override?.filter fun p => (l.overrideRejection? fs p).isNone with
  | some p => some (p, .environment)
  | none => (l.candidates true).find? (l.accepts fs)

/-- **The source of what a search finds.** -/
def source? (l : Locator) (fs : FileSystem) : Option CandidateSource := (l.choice? fs).map (·.2)

/-- **A search through directories finds the first candidate that is accepted.** -/
theorem found_scan (l : Locator) (fs : FileSystem)
    (candidates : List (FilePath × CandidateSource)) :
    (l.scan fs candidates).found =
      (candidates.find? (l.accepts fs)).map fun chosen => l.located chosen.1 := by
  induction candidates with
  | nil => rfl
  | cons candidate rest ih =>
    obtain ⟨p, source⟩ := candidate
    rw [scan]
    cases hr : p.rejection? with
    | some reason =>
      rw [List.find?_cons_of_neg (by simp [accepts, hr])]
      exact ih
    | none =>
      by_cases hf : fs.isFile p = true
      · by_cases ht : (source = .trustedDirectory && !fs.isTrusted p l.search.trustedDirs) = true
        · rw [List.find?_cons_of_neg (by simpa [accepts, hr, hf] using ht)]
          simp only [hf, ht, Bool.not_true, Bool.false_eq_true, if_false, if_true]
          exact ih
        · rw [List.find?_cons_of_pos (by
            simp only [accepts, hr, hf, Option.isNone_none, Bool.true_and, Bool.or_eq_true,
              bne_iff_ne, ne_eq]
            simpa [Classical.or_iff_not_imp_left] using ht)]
          simp only [hf, ht, Bool.not_true, Bool.false_eq_true, if_false]
          rfl
      · rw [List.find?_cons_of_neg (by simp [accepts, hf])]
        simp only [hf, Bool.not_false, if_true]
        exact ih

/-- **A search finds the candidate that it settles on.** -/
theorem found_discover (l : Locator) (fs : FileSystem) :
    (l.discover fs).found = (l.choice? fs).map fun chosen => l.located chosen.1 := by
  unfold discover choice?
  cases l.override? with
  | none => exact found_scan l fs (l.candidates true)
  | some p =>
    cases hr : l.overrideRejection? fs p with
    | none => simp [Option.filter, hr]
    | some reason =>
      simp only [Option.filter, hr, Option.isNone_some, Bool.false_eq_true, if_false]
      exact found_scan l fs (l.candidates true)

/-- What a search finds, from its source, is the candidate that it settles on. -/
theorem choice?_eq_some {source : CandidateSource} (h : (l.discover fs).found = some (l.located p))
    (hs : l.source? fs = some source) : l.choice? fs = some (p, source) := by
  rw [found_discover] at h
  obtain ⟨⟨q, t⟩, hc, hq⟩ := Option.map_eq_some_iff.mp h
  rw [source?, hc, Option.map_some, Option.some.injEq] at hs
  have hpath : q = p := congrArg LocatedLibrary.path hq
  rw [hc, hpath, ← hs]

/-! ## Containment -/

/-- **A library that a search vouches for**: the safe search finds it, or a search
finds it in a trusted directory, or through the environment where only trusted
directories are allowed. -/
def VouchesFor (l : Locator) (fs : FileSystem) (p : FilePath) : Prop :=
  (l.discoverSafe fs).found = some (l.located p) ∨
    (l.discover fs).found = some (l.located p) ∧
      (l.source? fs = some .trustedDirectory ∨
        l.source? fs = some .environment ∧ l.search.envPolicy = .trustedDirectories)

/-- Every candidate in directories of a source is of that source. -/
theorem source_of_mem_candidatesIn {source : CandidateSource} {dirs : List FilePath}
    {candidate : FilePath × CandidateSource} (h : candidate ∈ l.candidatesIn source dirs) :
    candidate.2 = source := by
  obtain ⟨dir, -, h⟩ := List.mem_flatMap.mp h
  obtain ⟨name, -, rfl⟩ := List.mem_map.mp h
  rfl

/-- A candidate of a trusted directory is accepted if it is a file that may be
trusted. -/
theorem isTrusted_of_accepts (h : l.accepts fs (p, .trustedDirectory) = true) :
    fs.isFile p = true ∧ fs.isTrusted p l.search.trustedDirs = true := by
  simp only [accepts, Bool.and_eq_true, Bool.or_eq_true, bne_self_eq_false,
    Bool.false_eq_true, false_or] at h
  exact ⟨h.1.2, h.2⟩

/-- A path from the environment is accepted, where only trusted directories are
allowed, if it is a file that may be trusted. -/
theorem isTrusted_of_overrideRejection? (hpolicy : l.search.envPolicy = .trustedDirectories)
    (h : l.overrideRejection? fs p = none) :
    fs.isFile p = true ∧ fs.isTrusted p l.search.trustedDirs = true := by
  unfold overrideRejection? at h
  rw [hpolicy] at h
  cases hr : p.rejection? with
  | some reason =>
    rw [hr] at h
    cases h
  | none =>
    simp only [hr] at h
    by_cases ht : fs.isTrusted p l.search.trustedDirs = true
    · simp only [ht, if_true] at h
      by_cases hf : fs.isFile p = true
      · exact ⟨hf, ht⟩
      · rw [if_neg hf] at h
        cases h
    · simp only [ht, Bool.false_eq_true, if_false] at h
      cases h

/-- What is found through the environment was not refused. -/
theorem overrideRejection?_of_choice? (h : l.choice? fs = some (p, .environment)) :
    l.overrideRejection? fs p = none := by
  unfold choice? at h
  split at h
  · next q hq =>
    cases h
    simpa using (Option.filter_eq_some_iff.mp hq).2
  · -- a candidate in a directory is of another source
    have hmem := List.mem_of_find?_eq_some h
    unfold candidates at hmem
    obtain hmem | hmem := List.mem_append.mp hmem
    · rw [if_pos rfl] at hmem
      cases source_of_mem_candidatesIn hmem
    · cases source_of_mem_candidatesIn hmem

/-- What is found in a trusted directory was accepted there. -/
theorem accepts_of_choice? (h : l.choice? fs = some (p, .trustedDirectory)) :
    l.accepts fs (p, .trustedDirectory) = true := by
  unfold choice? at h
  split at h
  · cases h
  · exact List.find?_some h

/-- What the safe search finds was accepted in a trusted directory. -/
theorem accepts_of_discoverSafe (h : (l.discoverSafe fs).found = some (l.located p)) :
    l.accepts fs (p, .trustedDirectory) = true := by
  rw [discoverSafe, found_scan] at h
  obtain ⟨⟨q, source⟩, hfind, hq⟩ := Option.map_eq_some_iff.mp h
  have hsource : source = .trustedDirectory := by
    have hmem := List.mem_of_find?_eq_some hfind
    unfold candidates at hmem
    rw [if_neg Bool.false_ne_true, List.nil_append] at hmem
    exact source_of_mem_candidatesIn hmem
  have hpath : q = p := congrArg LocatedLibrary.path hq
  rw [← hpath, ← hsource]
  exact List.find?_some hfind

theorem VouchesFor.isTrusted (h : l.VouchesFor fs p) :
    fs.isFile p = true ∧ fs.isTrusted p l.search.trustedDirs = true := by
  obtain h | ⟨h, hs | ⟨hs, hpolicy⟩⟩ := h
  · exact isTrusted_of_accepts (accepts_of_discoverSafe h)
  · exact isTrusted_of_accepts (accepts_of_choice? (choice?_eq_some h hs))
  · exact isTrusted_of_overrideRejection? hpolicy
      (overrideRejection?_of_choice? (choice?_eq_some h hs))

/-- **Containment of a search.** What a search vouches for resolves unless it is out of
reach, and unless an entry of the list overreaches it lies in a trusted directory. Both
exceptions are exact. An entry overreaches just if the check accepts the library on its
strength although it encloses nothing of the kind. And what is out of reach has no
resolved path, so that an entry is above it as it is spelled. -/
theorem containment (h : l.VouchesFor fs p) :
    (¬ fs.IsOutOfReach p → ∃ c, fs.canonicalize? p = some c ∧
      ((∀ d ∈ l.search.trustedDirs, ¬ fs.Overreaches d c) →
        fs.Encloses l.search.trustedDirs c) ∧
      ∀ d, fs.Overreaches d c ↔ fs.isTrusted p [d] = true ∧ ¬ fs.Encloses [d] c) ∧
    (fs.IsOutOfReach p → fs.canonicalize? p = none ∧
      ∃ d ∈ l.search.trustedDirs, (fs.canonical d).components <+: p.components) := by
  obtain ⟨hfile, htrusted⟩ := h.isTrusted
  obtain ⟨hparent, above⟩ := (FileSystem.isTrusted_eq_true_iff _).mp htrusted
  refine ⟨fun hreach => ?_, fun hfar => ?_⟩
  · obtain ⟨c, hc⟩ := FileSystem.canonicalize?_of_isFile hfile hreach
    refine ⟨c, hc, fun hodd => ?_, FileSystem.overreaches_iff hc hparent⟩
    obtain hin | ⟨d, hd, hover⟩ := (FileSystem.isTrusted_iff hc hparent _).mp htrusted
    · exact hin
    · exact absurd hover (hodd d hd)
  · have hnone := hfar.canonicalize?_eq_none
    rw [FileSystem.canonical, hnone, Option.getD_none] at above
    exact ⟨hnone, above⟩

/-! ## A link out of a directory -/

/-- A locator for `toml` with a list of trusted directories. -/
def tomlIn (dirs : List String) : Locator where
  language := ⟨"toml", by decide⟩
  search := { trustedDirs := dirs.map FilePath.ofString }
  debug := false
  environment := fun _ => none

/-- Two directories, `t` and `o`. In `o` there is a file, and in `t` a link to it
with the name of a library. -/
def crossed : FileSystem where
  table :=
    [([Utf8.bytes "t"], .directory), ([Utf8.bytes "o"], .directory),
      ([Utf8.bytes "o", Utf8.bytes "evil.so"], .file []),
      ([Utf8.bytes "t", Utf8.bytes "libtree-sitter-toml.so"],
        .link (FilePath.ofString "/o/evil.so"))]
  storable := by decide

/-- The link. -/
def crossing : FilePath := FilePath.ofString "/t/libtree-sitter-toml.so"

/-- Where both directories are trusted, the link may be followed. -/
theorem containment_crossed :
    ∃ c, crossed.canonicalize? crossing = some c ∧
      crossed.Encloses (tomlIn ["/t", "/o"]).search.trustedDirs c := by
  have found : (tomlIn ["/t", "/o"]).VouchesFor crossed crossing := .inl (by cbv)
  have ht : crossed.canonicalize? (FilePath.ofString "/t") = some (FilePath.ofString "/t") := by cbv
  have ho : crossed.canonicalize? (FilePath.ofString "/o") = some (FilePath.ofString "/o") := by cbv
  have hreal : crossed.realPath crossing = .ok [Utf8.bytes "o", Utf8.bytes "evil.so"] := by cbv
  obtain ⟨c, hc, hin, -⟩ := (containment found).1 fun hfar => by
    rw [FileSystem.IsOutOfReach, hreal] at hfar
    cases hfar
  refine ⟨c, hc, hin (List.forall_mem_cons.mpr ⟨fun h => ?_, List.forall_mem_singleton.mpr
    fun h => ?_⟩)⟩
  · rw [h.canonicalize?_eq_none] at ht
    cases ht
  · rw [h.canonicalize?_eq_none] at ho
    cases ho

/-- **An empty entry lets the link out**: only one directory is trusted besides it,
and what the safe search finds is not in it. -/
theorem discoverSafe_crossed :
    ((tomlIn ["", "/t"]).discoverSafe crossed).found = some ((tomlIn ["", "/t"]).located crossing) ∧
      ¬ ∃ c, crossed.canonicalize? crossing = some c ∧
        crossed.Encloses (tomlIn ["", "/t"]).search.trustedDirs c := by
  have ht : crossed.canonicalize? (FilePath.ofString "/t") = some (FilePath.ofString "/t") := by cbv
  have hc : crossed.canonicalize? crossing = some (FilePath.ofString "/o/evil.so") := by cbv
  refine ⟨by cbv, ?_⟩
  rintro ⟨c, hc', d, hd, d', hd', hpre⟩
  rw [hc] at hc'
  cases hc'
  have hd : d ∈ [FilePath.ofString "", FilePath.ofString "/t"] := hd
  rw [List.mem_cons, List.mem_singleton] at hd
  obtain rfl | rfl := hd
  · have hempty : (FilePath.ofString "").bytes = [] := rfl
    rw [FileSystem.canonicalize?_empty hempty] at hd'
    cases hd'
  · rw [ht] at hd'
    cases hd'
    exact absurd hpre (by decide)

-- the other entry that overreaches: a file with a separator behind it
example : crossed.Overreaches (FilePath.ofString "/o/evil.so/") (FilePath.ofString "/o/evil.so") :=
  .inr ⟨by cbv, by decide⟩

end Locator

end TreeBroker
