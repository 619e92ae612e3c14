import Mathlib.Data.List.ProdSigma
import TreeBroker.Discovery

/-!
# What a search makes of its candidates

A search is written as a walk: it looks at one candidate after another, keeps a
refusal here and passes over a missing file there, and stops where it is content.
Three kinds of candidates come along, and each is checked in an order of its own –
a path from the environment has to please the policy before it has to exist, a
file in a trusted directory has to exist before it has to be trusted, and a file in
a directory of the caller is trusted as it is.

The reference below has no walk. There is *one list of candidates*, fixed before
anything is opened (`Locator.allCandidates`), and *one verdict on each*, which
looks at nothing but the candidate: the first of its checks that fails says what
becomes of it (`Locator.verdict`). The library is the first candidate that is
accepted, and the refusals are those of the candidates before it
(`Locator.discover_settles`).

The search through trusted directories alone is the same search with nothing else
allowed, so neither the environment nor the caller's directories have a say in it.
-/

namespace TreeBroker

/-- **What becomes of a candidate.** -/
inductive Verdict where
  /-- It is the library. -/
  | accepted
  /-- It is passed over in silence. -/
  | passedOver
  /-- It is kept with the reason. -/
  | refused (reason : Rejection)
  deriving Repr, DecidableEq

namespace Locator

variable (l : Locator) (fs : FileSystem)

/-! ## One list of candidates -/

/-- The usual file names in every one of some directories. -/
def inDirectories (source : CandidateSource) (dirs : List FilePath) :
    List (FilePath × CandidateSource) :=
  (dirs ×ˢ l.fileNames).map fun place => (place.1.join place.2, source)

/-- The path from the environment: none if the policy is to ignore it, or if the
variable is not set or empty. -/
def fromEnvironment : List (FilePath × CandidateSource) :=
  if l.search.envPolicy = .ignore then []
  else ((l.environment l.pathVariable).filter (· ≠ "")).toList.map fun value =>
    (FilePath.ofString value, .environment)

/-- **The candidates of a search**, in the order in which they count. -/
def allCandidates : List (FilePath × CandidateSource) :=
  l.fromEnvironment ++ l.inDirectories .extraDirectory l.search.extraDirs ++
    l.inDirectories .trustedDirectory l.search.trustedDirs

/-! ## One verdict on each -/

/-- What the policy has against a path from the environment. -/
def policyRejection? (p : FilePath) : Option Rejection :=
  match l.search.envPolicy with
  | .characterClass => p.characterRejection?
  | .trustedDirectories =>
    if fs.isTrusted p l.search.trustedDirs then none else some .untrustedDirectory
  | .ignore => none

/-- **The checks of a candidate**, in order. A check that fails says what becomes of
the candidate, and one that is passed says nothing. -/
def checks (p : FilePath) : CandidateSource → List (Option Verdict)
  | .environment =>
    [p.rejection?.map .refused, (l.policyRejection? fs p).map .refused,
      if fs.isFile p then none else some (.refused .notFound)]
  | .extraDirectory =>
    [p.rejection?.map .refused, if fs.isFile p then none else some .passedOver]
  | .trustedDirectory =>
    [p.rejection?.map .refused, if fs.isFile p then none else some .passedOver,
      if fs.isTrusted p l.search.trustedDirs then none else some (.refused .untrustedDirectory)]

/-- **The verdict on a candidate**: that of the first check that fails. -/
def verdict (candidate : FilePath × CandidateSource) : Verdict :=
  ((l.checks fs candidate.1 candidate.2).findSome? id).getD .accepted

/-- The refusal of a candidate, if it is refused. -/
def refusal? (candidate : FilePath × CandidateSource) : Option Refusal :=
  match l.verdict fs candidate with
  | .refused reason => some ⟨candidate.1, candidate.2, reason⟩
  | _ => none

/-- **What a list of candidates comes to**: the first that is accepted, and the
refusals of those before it. -/
def settle (candidates : List (FilePath × CandidateSource)) :
    Option LocatedLibrary × List Refusal :=
  ((candidates.find? fun c => l.verdict fs c = .accepted).map fun c => l.located c.1,
    (candidates.takeWhile fun c => l.verdict fs c ≠ .accepted).filterMap (l.refusal? fs))

variable {l fs} {p : FilePath} {source : CandidateSource}
  {candidate : FilePath × CandidateSource} {rest : List (FilePath × CandidateSource)}

theorem settle_cons_of_accepted (h : l.verdict fs candidate = .accepted) :
    l.settle fs (candidate :: rest) = (some (l.located candidate.1), []) := by
  simp [settle, h]

theorem settle_cons_of_passedOver (h : l.verdict fs candidate = .passedOver) :
    l.settle fs (candidate :: rest) = l.settle fs rest := by
  simp [settle, refusal?, h]

theorem settle_cons_of_refused {reason : Rejection}
    (h : l.verdict fs candidate = .refused reason) :
    l.settle fs (candidate :: rest) =
      ((l.settle fs rest).1,
        ⟨candidate.1, candidate.2, reason⟩ :: (l.settle fs rest).2) := by
  simp [settle, refusal?, h]

/-- **What is accepted** passes the structural check and is a file. -/
theorem isFile_of_accepted (h : l.verdict fs (p, source) = .accepted) :
    p.rejection? = none ∧ fs.isFile p = true := by
  unfold verdict at h
  cases hr : p.rejection? with
  | some reason => cases source <;> simp [checks, hr] at h
  | none =>
    refine ⟨rfl, ?_⟩
    by_contra hf
    cases source with
    | environment => cases hp : l.policyRejection? fs p <;> simp [checks, hr, hf, hp] at h
    | extraDirectory => simp [checks, hr, hf] at h
    | trustedDirectory => simp [checks, hr, hf] at h

/-! ## The walk comes to the same -/

/-- **The walk through directories** comes to what its candidates come to. -/
theorem scan_settles (fs : FileSystem) {candidates : List (FilePath × CandidateSource)}
    (inside : ∀ c ∈ candidates, c.2 ≠ .environment) :
    ((l.scan fs candidates).found, (l.scan fs candidates).refusals)
      = l.settle fs candidates := by
  induction candidates with
  | nil => rfl
  | cons candidate rest ih =>
    obtain ⟨p, source⟩ := candidate
    obtain ⟨hsource, hrest⟩ := List.forall_mem_cons.mp inside
    have ih := ih hrest
    rw [scan]
    cases hr : p.rejection? with
    | some reason =>
      have hv : l.verdict fs (p, source) = .refused reason := by
        cases source <;> simp [verdict, checks, hr]
      rw [settle_cons_of_refused hv, ← ih]
      rfl
    | none =>
      by_cases hf : fs.isFile p = true
      · by_cases ht : (source = .trustedDirectory && !fs.isTrusted p l.search.trustedDirs) = true
        · -- only a trusted directory is asked whether the file may be trusted
          have hv : l.verdict fs (p, source) = .refused .untrustedDirectory := by
            obtain ⟨rfl, hno⟩ : source = .trustedDirectory ∧
                fs.isTrusted p l.search.trustedDirs = false := by simpa using ht
            simp [verdict, checks, hr, hf, hno]
          rw [settle_cons_of_refused hv, ← ih]
          simp only [hf, ht, Bool.not_true, Bool.false_eq_true, if_false, if_true]
          rfl
        · have hv : l.verdict fs (p, source) = .accepted := by
            cases source with
            | environment => exact absurd rfl hsource
            | extraDirectory => simp [verdict, checks, hr, hf]
            | trustedDirectory => simp_all [verdict, checks]
          rw [settle_cons_of_accepted hv]
          simp only [hf, ht, Bool.not_true, Bool.false_eq_true, if_false]
      · have hv : l.verdict fs (p, source) = .passedOver := by
          cases source with
          | environment => exact absurd rfl hsource
          | extraDirectory => simp [verdict, checks, hr, hf]
          | trustedDirectory => simp [verdict, checks, hr, hf]
        rw [settle_cons_of_passedOver hv, ← ih]
        simp only [hf, Bool.not_false, if_true]

theorem candidatesIn_eq (l : Locator) (source : CandidateSource) (dirs : List FilePath) :
    l.candidatesIn source dirs = l.inDirectories source dirs := by
  simp [candidatesIn, inDirectories, SProd.sprod, List.product, List.map_flatMap,
    Function.comp_def]

theorem ne_environment_of_mem_inDirectories {dirs : List FilePath}
    (h : candidate ∈ l.inDirectories source dirs) (hs : source ≠ .environment) :
    candidate.2 ≠ .environment := by
  obtain ⟨place, -, rfl⟩ := List.mem_map.mp h
  exact hs

/-- The directories' part of the candidates, as the walk has it. -/
theorem candidates_true (l : Locator) :
    l.candidates true = l.inDirectories .extraDirectory l.search.extraDirs ++
      l.inDirectories .trustedDirectory l.search.trustedDirs := by
  rw [candidates, if_pos rfl, candidatesIn_eq, candidatesIn_eq]

/-- The environment's part of the candidates, as the walk has it. -/
theorem fromEnvironment_eq (l : Locator) :
    l.fromEnvironment = l.override?.toList.map fun p => (p, .environment) := by
  unfold fromEnvironment override?
  split
  · rfl
  · cases l.environment l.pathVariable with
    | none => rfl
    | some value => by_cases hv : value = "" <;> simp [hv]

/-- What the walk has against a path from the environment is the first of three
reasons. -/
theorem overrideRejection?_eq (l : Locator) (fs : FileSystem) (p : FilePath) :
    l.overrideRejection? fs p =
      p.rejection?.or ((l.policyRejection? fs p).or
        (if fs.isFile p then none else some .notFound)) := by
  unfold overrideRejection? policyRejection?
  cases p.rejection? with
  | some reason => rfl
  | none =>
    cases l.search.envPolicy with
    | characterClass => cases p.characterRejection? <;> rfl
    | trustedDirectories => cases fs.isTrusted p l.search.trustedDirs <;> rfl
    | ignore => rfl

theorem verdict_environment (l : Locator) (fs : FileSystem) (p : FilePath) :
    l.verdict fs (p, .environment) = (l.overrideRejection? fs p).elim .accepted .refused := by
  rw [overrideRejection?_eq]
  unfold verdict checks
  cases p.rejection? with
  | some reason => rfl
  | none =>
    cases l.policyRejection? fs p with
    | some reason => rfl
    | none => cases fs.isFile p <;> rfl

/-- **The whole walk** comes to what all candidates come to. -/
theorem found_refusals_discover (l : Locator) (fs : FileSystem) :
    ((l.discover fs).found, (l.discover fs).refusals) = l.settle fs l.allCandidates := by
  have inside : ∀ c ∈ l.candidates true, c.2 ≠ .environment := by
    rw [candidates_true]
    intro c hc
    obtain hc | hc := List.mem_append.mp hc
    · exact ne_environment_of_mem_inDirectories hc nofun
    · exact ne_environment_of_mem_inDirectories hc nofun
  have hscan := scan_settles (l := l) fs inside
  rw [allCandidates, List.append_assoc, ← candidates_true, fromEnvironment_eq]
  unfold discover
  cases l.override? with
  | none => exact hscan
  | some p =>
    have hv := verdict_environment l fs p
    show _ = l.settle fs ((p, .environment) :: l.candidates true)
    cases hr : l.overrideRejection? fs p with
    | none =>
      rw [hr] at hv
      rw [settle_cons_of_accepted hv]
      simp only [hr]
    | some reason =>
      rw [hr] at hv
      rw [settle_cons_of_refused hv, ← hscan]
      simp only [hr]
      rfl

/-! ## The safe search -/

/-- A locator that has nothing but its trusted directories. -/
def sheltered (l : Locator) : Locator :=
  { l with search := { l.search with envPolicy := .ignore, extraDirs := [] } }

/-- **A walk through directories** asks a locator only for its language, its trusted
directories and its debug flag. -/
theorem scan_congr {l l' : Locator} (language : l'.language = l.language)
    (trusted : l'.search.trustedDirs = l.search.trustedDirs) (debug : l'.debug = l.debug)
    (fs : FileSystem) (candidates : List (FilePath × CandidateSource)) :
    l'.scan fs candidates = l.scan fs candidates := by
  induction candidates with
  | nil => rfl
  | cons candidate rest ih =>
    simp only [scan, refuse, refusalEvent, located, symbol, ih, language, trusted, debug]

/-- **The safe search** asks for no more. -/
theorem discoverSafe_congr {l l' : Locator} (language : l'.language = l.language)
    (trusted : l'.search.trustedDirs = l.search.trustedDirs) (debug : l'.debug = l.debug)
    (fs : FileSystem) : l'.discoverSafe fs = l.discoverSafe fs := by
  have hcandidates : l'.candidates false = l.candidates false := by
    simp only [candidates, candidatesIn, fileNames, language, trusted, Bool.false_eq_true, if_false]
  rw [discoverSafe, discoverSafe, scan_congr language trusted debug, hcandidates]

/-- A search with nothing but trusted directories is the safe search. -/
theorem discover_sheltered (l : Locator) (fs : FileSystem) :
    l.sheltered.discover fs = l.discoverSafe fs := by
  show l.sheltered.discoverSafe fs = l.discoverSafe fs
  apply discoverSafe_congr <;> rfl

/-- **Searching is settling.** The outcome of a search is that of its candidates: the
library is the first that is accepted, under the symbol of the language, and the
refusals are those of the candidates before it, one each and in order. What is found
passes the structural check and is a file. The safe search is a search with nothing
but trusted directories, and comes to the same in any environment and with any other
setting of the locator. -/
theorem discover_settles (l : Locator) (fs : FileSystem) :
    (l.discover fs).found =
      ((l.allCandidates.find? fun c => l.verdict fs c = .accepted).map fun c =>
        ⟨c.1, "tree_sitter_" ++ l.language.text⟩) ∧
    (l.discover fs).refusals =
      (l.allCandidates.takeWhile fun c => l.verdict fs c ≠ .accepted).filterMap
        (l.refusal? fs) ∧
    (∀ lib ∈ (l.discover fs).found, lib.path.rejection? = none ∧ fs.isFile lib.path = true) ∧
    l.discoverSafe fs = l.sheltered.discover fs ∧
    ∀ env stem extra policy,
      discoverSafe { l with
        environment := env
        search := { l.search with envStem := stem, extraDirs := extra, envPolicy := policy } } fs
        = l.discoverSafe fs := by
  have hsettle := found_refusals_discover l fs
  rw [settle, Prod.mk.injEq] at hsettle
  obtain ⟨hfound, hrefusals⟩ := hsettle
  refine ⟨hfound, hrefusals, fun lib hlib => ?_, (discover_sheltered l fs).symm,
    fun env stem extra policy => ?_⟩
  · rw [hfound] at hlib
    obtain ⟨c, hc, rfl⟩ := Option.map_eq_some_iff.mp hlib
    have haccepted : l.verdict fs (c.1, c.2) = .accepted := by simpa using List.find?_some hc
    exact isFile_of_accepted haccepted
  · apply discoverSafe_congr <;> rfl

end Locator

end TreeBroker
