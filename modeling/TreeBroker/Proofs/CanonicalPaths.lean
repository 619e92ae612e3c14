import TreeBroker.FileSystem

/-!
# Resolved paths

A path with all links resolved is more than a spelling: it is the path of a
location, every name of it is one that a directory can hold, and every directory
on the way is a directory and no link (`FileSystem.Sits`). This is what following
a path keeps, link after link, whatever stands in the table of the file system.
And it is no longer than a path may be, since the location was looked up by it.

The same limit is the one reason for which something that can be opened has no
resolved path: either the path is followed to the same location for both purposes,
or a place on the way lies too deep to be looked up by its path
(`FileSystem.follow_byPath`).

A resolved path is therefore hard to disguise. Whatever spells a directory above
it – with separators repeated, with dots between them – is followed to that very
directory. So if a path does not resolve, and its components nevertheless begin
those of a resolved path, it is one of two degenerate spellings: the empty path,
which has no components at all, or the resolved path itself with something behind
it that asks for a directory where there is a file
(`FileSystem.unresolved_of_isPrefix`).
-/

namespace TreeBroker

/-! ## Pieces -/

namespace Path

variable {α : Type} [DecidableEq α] {sep c : α}

theorem splitOn_cons_self (sep : α) (cs : List α) :
    splitOn sep (sep :: cs) = [] :: splitOn sep cs := by
  rw [splitOn, if_pos rfl]

theorem splitOn_cons_of_ne (h : c ≠ sep) (cs : List α) :
    splitOn sep (c :: cs) = (splitOn sep cs).modifyHead (c :: ·) := by
  rw [splitOn, if_neg h]
  cases hs : splitOn sep cs with
  | nil => exact absurd hs (splitOn_ne_nil sep cs)
  | cons piece pieces => rfl

/-- What stands before the first separator goes to the first piece. -/
theorem splitOn_append {as : List α} (h : sep ∉ as) (bs : List α) :
    splitOn sep (as ++ bs) = (splitOn sep bs).modifyHead (as ++ ·) := by
  induction as with
  | nil =>
    show splitOn sep bs = _
    cases splitOn sep bs <;> rfl
  | cons a as ih =>
    rw [List.mem_cons, not_or] at h
    rw [List.cons_append, splitOn_cons_of_ne (fun ha => h.1 ha.symm), ih h.2,
      List.modifyHead_modifyHead]
    rfl

/-- **Names with a separator before each** are cut back into the names. -/
theorem splitOn_flatMap {names : List (List α)} (h : ∀ name ∈ names, sep ∉ name) :
    splitOn sep (names.flatMap fun name => sep :: name) = [] :: names := by
  induction names with
  | nil => rfl
  | cons name names ih =>
    obtain ⟨hname, hnames⟩ := List.forall_mem_cons.mp h
    rw [List.flatMap_cons, List.cons_append, splitOn_cons_self, splitOn_append hname, ih hnames]
    show [] :: (name ++ []) :: names = _
    rw [List.append_nil]

/-- No piece has a separator in it. -/
theorem sep_notMem_of_mem_splitOn {cs piece : List α} (h : piece ∈ splitOn sep cs) :
    sep ∉ piece := by
  induction cs generalizing piece with
  | nil =>
    rw [splitOn_nil, List.mem_singleton] at h
    rw [h]
    exact List.not_mem_nil
  | cons c cs ih =>
    by_cases hc : c = sep
    · subst hc
      rw [splitOn_cons_self, List.mem_cons] at h
      obtain rfl | h := h
      · exact List.not_mem_nil
      · exact ih h
    · rw [splitOn_cons_of_ne hc] at h
      cases hs : splitOn sep cs with
      | nil => exact absurd hs (splitOn_ne_nil sep cs)
      | cons first rest =>
        rw [hs, List.modifyHead_cons, List.mem_cons] at h
        obtain rfl | h := h
        · rw [List.mem_cons, not_or]
          exact ⟨fun he => hc he.symm, ih (by rw [hs]; exact List.mem_cons_self)⟩
        · exact ih (by rw [hs]; exact List.mem_cons_of_mem first h)

/-- **Nothing but separators is lost**: another letter is in a piece exactly if it
is in the whole. -/
theorem exists_mem_splitOn_iff {cs : List α} (hc : c ≠ sep) :
    (∃ piece ∈ splitOn sep cs, c ∈ piece) ↔ c ∈ cs := by
  induction cs with
  | nil => simp
  | cons a cs ih =>
    by_cases ha : a = sep
    · subst ha
      rw [splitOn_cons_self]
      simp [ih, hc]
    · rw [splitOn_cons_of_ne ha, List.mem_cons, ← ih]
      cases hs : splitOn sep cs with
      | nil => exact absurd hs (splitOn_ne_nil sep cs)
      | cons first rest => simp [or_assoc]

/-! ## Components -/

open Alphabet

variable [Alphabet α] {p : List α}

/-- Segments that are names leave themselves. -/
theorem filterMap_ofSegment? {names : List (List α)}
    (h : ∀ name ∈ names, name ≠ [] ∧ name ≠ [dot] ∧ name ≠ [dot, dot]) :
    names.filterMap Component.ofSegment? = names.map .normal := by
  induction names with
  | nil => rfl
  | cons name names ih =>
    obtain ⟨⟨hne, hdot, hdotDot⟩, hnames⟩ := List.forall_mem_cons.mp h
    have hname : Component.ofSegment? name = some (.normal name) := by
      unfold Component.ofSegment?
      rw [if_neg hne, if_neg hdot, if_neg hdotDot]
    rw [List.filterMap_cons_some hname, ih hnames, List.map_cons]

/-- A segment that leaves nothing stays where it is. -/
theorem Component.ofSegment?_eq_none {segment : List α}
    (h : Component.ofSegment? segment = none) : segment = [] ∨ segment = [dot] := by
  unfold Component.ofSegment? at h
  split at h
  · next hs => exact .inl hs
  · split at h
    · next hs => exact .inr hs
    · split at h <;> cases h

/-- A segment that leaves a name is that name. -/
theorem Component.ofSegment?_eq_normal {segment name : List α}
    (h : Component.ofSegment? segment = some (.normal name)) : segment = name := by
  unfold Component.ofSegment? at h
  split at h
  · cases h
  · split at h
    · cases h
    · split at h
      · cases h
      · cases h
        rfl

/-- Where only names are left, every segment stays or is one of them. -/
theorem mem_of_filterMap_ofSegment? {segments names : List (List α)} {segment : List α}
    (h : segments.filterMap Component.ofSegment? = names.map .normal)
    (hs : segment ∈ segments) : segment = [] ∨ segment = [dot] ∨ segment ∈ names := by
  cases hc : Component.ofSegment? segment with
  | none =>
    obtain hnil | hdot := Component.ofSegment?_eq_none hc
    · exact .inl hnil
    · exact .inr (.inl hdot)
  | some c =>
    have hmem : c ∈ segments.filterMap Component.ofSegment? :=
      List.mem_filterMap.mpr ⟨segment, hs, hc⟩
    rw [h] at hmem
    obtain ⟨name, hname, rfl⟩ := List.mem_map.mp hmem
    rw [Component.ofSegment?_eq_normal hc]
    exact .inr (.inr hname)

/-- No segment after the first leaves the root. -/
theorem Component.ofSegment?_ne_root (segment : List α) :
    Component.ofSegment? segment ≠ some .root := by
  unfold Component.ofSegment?
  split
  · exact nofun
  · split
    · exact nofun
    · split <;> exact nofun

/-- The first segment of a path that is not empty leaves something. -/
theorem Component.ofFirst?_ne_none (hp : p ≠ []) (segment : List α) :
    Component.ofFirst? p segment ≠ none := by
  unfold Component.ofFirst? Component.ofSegment?
  split
  · exact nofun
  · split
    · exact nofun
    · split <;> exact nofun

/-- The first segment leaves the root only if it is empty. -/
theorem Component.eq_nil_of_ofFirst?_eq_root {segment : List α}
    (h : Component.ofFirst? p segment = some .root) : segment = [] := by
  unfold Component.ofFirst? at h
  split at h
  · next hs => exact hs
  · split at h
    · cases h
    · exact absurd h (Component.ofSegment?_ne_root segment)

/-- What the segments of a path leave are its components. -/
theorem components_of_splitOn {first : List α} {rest : List (List α)}
    (h : splitOn slash p = first :: rest) :
    components p = (Component.ofFirst? p first).toList ++
      rest.filterMap Component.ofSegment? := by
  unfold components
  rw [h]

/-- **Only the empty path has no components.** -/
theorem components_eq_nil_iff : components p = [] ↔ p = [] := by
  constructor
  · intro h
    by_cases hp : p = []
    · exact hp
    obtain ⟨first, rest, hs⟩ := List.exists_cons_of_ne_nil (splitOn_ne_nil slash p)
    rw [components_of_splitOn hs, List.append_eq_nil_iff, Option.toList_eq_nil_iff] at h
    exact absurd h.1 (Component.ofFirst?_ne_none hp first)
  · rintro rfl
    rfl

/-- **A path from the root** begins with an empty segment, and the other segments
leave the other components. -/
theorem splitOn_of_components_eq_root {cs : List (Component α)}
    (h : components p = .root :: cs) :
    ∃ rest, splitOn slash p = [] :: rest ∧ rest.filterMap Component.ofSegment? = cs := by
  have hp : p ≠ [] := by
    rintro rfl
    cases h
  obtain ⟨first, rest, hs⟩ := List.exists_cons_of_ne_nil (splitOn_ne_nil slash p)
  obtain ⟨c, hc⟩ := Option.ne_none_iff_exists'.mp (Component.ofFirst?_ne_none hp first)
  rw [components_of_splitOn hs, hc, Option.toList_some, List.singleton_append,
    List.cons.injEq] at h
  rw [h.1] at hc
  exact ⟨rest, Component.eq_nil_of_ofFirst?_eq_root hc ▸ hs, h.2⟩

/-- A path whose first segment is empty begins at the root. -/
theorem isAbsolute_of_splitOn {rest : List (List α)} (hp : p ≠ [])
    (h : splitOn slash p = [] :: rest) : isAbsolute p = true := by
  cases p with
  | nil => exact absurd rfl hp
  | cons c cs =>
    by_cases hc : c = slash
    · subst hc
      exact decide_eq_true rfl
    · rw [splitOn_cons_of_ne hc] at h
      cases hs : splitOn slash cs with
      | nil => exact absurd hs (splitOn_ne_nil slash cs)
      | cons first others =>
        rw [hs, List.modifyHead_cons] at h
        cases h

end Path

namespace FileSystem

/-! ## Locations that are reached -/

/-- A segment that can be looked up: it has neither a separator nor a NUL byte. -/
def IsSegment (seg : FileName) : Prop := 47 ∉ seg ∧ 0 ∉ seg

/-- **A name that a directory can hold.** -/
structure IsName (name : FileName) : Prop where
  /-- It is a segment. -/
  segment : IsSegment name
  /-- It is not empty. -/
  ne_nil : name ≠ []
  /-- It does not stay. -/
  ne_dot : name ≠ dot
  /-- It does not go up. -/
  ne_dotDot : name ≠ dotDot
  /-- It is not too long. -/
  short : name.length ≤ maxName

/-- **A location that can be reached**: its names are names, and what is above it
is a directory each time. -/
structure Sits (fs : FileSystem) (loc : Location) : Prop where
  /-- The names are names. -/
  names : ∀ name ∈ loc, IsName name
  /-- What is above is a directory. -/
  above : ∀ dir, dir <+: loc → dir ≠ loc → fs.lookup dir = some .directory

variable {fs : FileSystem} {loc loc' : Location}

@[simp] theorem lookup_nil (fs : FileSystem) : fs.lookup [] = some .directory := if_pos rfl

theorem sits_nil (fs : FileSystem) : fs.Sits [] where
  names := nofun
  above _ h hne := absurd (List.prefix_nil.mp h) hne

theorem Sits.of_isPrefix (h : fs.Sits loc) {dir : Location} (hdir : dir <+: loc) :
    fs.Sits dir where
  names name hname := h.names name (hdir.subset hname)
  above above habove hne := by
    refine h.above above (habove.trans hdir) ?_
    rintro rfl
    exact hne (habove.eq_of_length_le hdir.length_le)

/-- A name in a directory that can be reached can be reached. -/
theorem Sits.append (h : fs.Sits loc) (hloc : fs.lookup loc = some .directory) {name : FileName}
    (hname : IsName name) : fs.Sits (loc ++ [name]) where
  names n hn := by
    obtain hn | hn := List.mem_append.mp hn
    · exact h.names n hn
    · rw [List.mem_singleton] at hn
      rw [hn]
      exact hname
  above dir hdir hne := by
    obtain hdir | hdir := List.prefix_concat_iff.mp hdir
    · exact absurd hdir hne
    · by_cases heq : dir = loc
      · rw [heq]
        exact hloc
      · exact h.above dir hdir heq

theorem sits_working (fs : FileSystem) : fs.Sits working := by
  refine (sits_nil fs).append (lookup_nil fs) ⟨⟨?_, ?_⟩, ?_, ?_, ?_, ?_⟩ <;> decide

theorem sits_start (fs : FileSystem) (p : FilePath) : fs.Sits (start p) := by
  unfold start
  split
  · exact sits_nil fs
  · exact sits_working fs

/-- The segments of a path without a NUL byte are segments. -/
theorem isSegment_of_mem_segments {p : FilePath} (hp : 0 ∉ p.bytes) {seg : FileName}
    (h : seg ∈ segments p) : IsSegment seg := by
  refine ⟨Path.sep_notMem_of_mem_splitOn h, fun h0 => hp ?_⟩
  exact (Path.exists_mem_splitOn_iff (by decide)).mp ⟨seg, h, h0⟩

/-- A link that stands somewhere has a target without a NUL byte. -/
theorem notMem_of_lookup_link {target : FilePath} (h : fs.lookup loc = some (.link target)) :
    0 ∉ target.bytes := by
  unfold lookup at h
  split at h
  · cases h
  · obtain ⟨⟨l, node⟩, hfind, rfl⟩ := Option.map_eq_some_iff.mp h
    have hs := fs.storable _ (List.mem_of_find?_eq_some hfind)
    simpa [FileNode.isStorable] using hs

/-- **Following keeps to locations that can be reached**, through any links. -/
theorem follow_sits {byPath : Bool} {links : Nat} {segs : List FileName} (hs : fs.Sits loc)
    (hsegs : ∀ seg ∈ segs, IsSegment seg) (h : follow fs byPath links loc segs = .ok loc') :
    fs.Sits loc' := by
  -- the induction is the recursion of `follow`: on the links left, then on the segments
  fun_induction follow fs byPath links loc segs with
  | case1 links loc =>
    cases h
    exact hs
  | case2 links loc seg rest hloc => cases h
  | case3 links loc seg rest content hloc => cases h
  | case4 links loc seg rest target hloc => cases h
  | case5 links loc seg rest hloc hstay ih =>
    exact ih hs (List.forall_mem_cons.mp hsegs).2 h
  | case6 links loc rest hloc hstay ih =>
    exact ih (hs.of_isPrefix (List.dropLast_prefix loc)) (List.forall_mem_cons.mp hsegs).2 h
  | case7 links loc seg rest hloc hstay hup hlong => cases h
  | case8 loc seg rest hloc hstay hup hlong target hlink => cases h
  | case9 loc seg rest hloc hstay hup hlong target hlink links start ih =>
    -- the way goes on from the root or from here, along the target of the link
    have hstart : fs.Sits start := by
      show fs.Sits (if target.isAbsolute = true then [] else loc)
      split
      · exact sits_nil fs
      · exact hs
    refine ih hstart (fun seg hseg => ?_) h
    obtain hseg | hseg := List.mem_append.mp hseg
    · exact isSegment_of_mem_segments (notMem_of_lookup_link hlink) hseg
    · exact (List.forall_mem_cons.mp hsegs).2 seg hseg
  | case10 links loc seg rest hloc hstay hup hlong hlink hfar => cases h
  | case11 links loc seg rest hloc hstay hup hlong hlink hfar ih =>
    obtain ⟨hseg, hrest⟩ := List.forall_mem_cons.mp hsegs
    rw [Bool.or_eq_true, decide_eq_true_eq, decide_eq_true_eq, not_or] at hstay
    rw [Bool.or_eq_true, decide_eq_true_eq, not_or, Nat.not_lt] at hlong
    exact ih (hs.append hloc ⟨hseg, hstay.1, hstay.2, hup, hlong.1⟩) hrest h

/-- What a path leads to, of what exists, is where following its segments ends. -/
theorem follow_of_existing {byPath : Bool} {p : FilePath}
    (h : fs.existing (fs.destination byPath p) = .ok loc) :
    0 ∉ p.bytes ∧ fs.follow byPath maxLinks (start p) (segments p) = .ok loc ∧
      (fs.lookup loc).isSome = true := by
  unfold existing destination at h
  by_cases hnul : p.bytes.contains 0 = true
  · rw [if_pos hnul] at h
    cases h
  rw [if_neg hnul] at h
  by_cases hempty : p.bytes.isEmpty = true
  · rw [if_pos hempty] at h
    cases h
  rw [if_neg hempty] at h
  cases hf : follow fs byPath maxLinks (start p) (segments p) with
  | error e =>
    rw [hf] at h
    cases h
  | ok reached =>
    rw [hf] at h
    by_cases hsome : (fs.lookup reached).isSome = true
    · have hreached : reached = loc := by
        simpa [bind, Except.bind, hsome] using h
      rw [← hreached]
      exact ⟨by simpa using hnul, rfl, hsome⟩
    · simp [bind, Except.bind, hsome] at h

/-- **What a resolved path stands for can be reached.** -/
theorem sits_of_realPath {p : FilePath} (h : fs.realPath p = .ok loc) : fs.Sits loc := by
  obtain ⟨hnul, hfollow, -⟩ := follow_of_existing h
  exact follow_sits (sits_start fs p) (fun _ => isSegment_of_mem_segments hnul) hfollow

/-! ## Locations within reach -/

/-- The path of a location is longer than that of a location above it, by a name and
its separator. -/
theorem length_pathOf_concat (loc : Location) (name : FileName) :
    (pathOf loc).bytes.length ≤ (pathOf (loc ++ [name])).bytes.length ∧
      (name ≠ [] → (pathOf loc).bytes.length < (pathOf (loc ++ [name])).bytes.length) := by
  have hpath : (pathOf (loc ++ [name])).bytes
      = (loc.flatMap fun name => (47 : UInt8) :: name) ++ 47 :: name := by
    simp [pathOf]
  rw [hpath, List.length_append, List.length_cons]
  by_cases hloc : loc = []
  · subst hloc
    refine ⟨by simp [pathOf], fun hne => ?_⟩
    have := List.length_pos_iff.mpr hne
    simp [pathOf]
    omega
  · have hself : (pathOf loc).bytes = loc.flatMap fun name => (47 : UInt8) :: name := by
      simp [pathOf, hloc]
    rw [hself]
    exact ⟨by omega, fun _ => by omega⟩

/-- **A location above one within reach** is within reach. -/
theorem isBeyondReach_of_isPrefix {dir : Location} {more : Nat} (hdir : dir <+: loc)
    (h : isBeyondReach loc more = false) : isBeyondReach dir more = false := by
  obtain ⟨names, rfl⟩ := hdir
  induction names generalizing dir with
  | nil => rwa [List.append_nil] at h
  | cons name names ih =>
    have hstep : dir ++ name :: names = dir ++ [name] ++ names := by simp
    have hnext := ih (hstep ▸ h)
    have hle := (length_pathOf_concat dir name).1
    simp only [isBeyondReach, decide_eq_false_iff_not, Nat.not_lt] at hnext ⊢
    omega

/-- **A directory above a location within reach** is within reach with a separator
behind its path. -/
theorem isBeyondReach_above {dir : Location} (hs : fs.Sits loc) (hdir : dir <+: loc)
    (hne : dir ≠ loc) (h : isBeyondReach loc 0 = false) : isBeyondReach dir 1 = false := by
  obtain ⟨names, rfl⟩ := hdir
  cases names with
  | nil => exact absurd (List.append_nil dir).symm hne
  | cons name names =>
    have hstep : dir ++ [name] <+: dir ++ name :: names := ⟨names, by simp⟩
    have hname := (hs.names name (hstep.subset (by simp))).ne_nil
    have hlt := (length_pathOf_concat dir name).2 hname
    have hreach := isBeyondReach_of_isPrefix hstep h
    simp only [isBeyondReach, decide_eq_false_iff_not, Nat.not_lt] at hreach ⊢
    omega

theorem isBeyondReach_start (p : FilePath) : isBeyondReach (start p) 0 = false := by
  unfold start
  split <;> decide

/-- **What is looked up by its path is within reach** of one. -/
theorem follow_withinReach {links : Nat} {segs : List FileName}
    (hreach : isBeyondReach loc 0 = false) (h : follow fs true links loc segs = .ok loc') :
    isBeyondReach loc' 0 = false := by
  fun_induction follow fs true links loc segs with
  | case1 links loc =>
    cases h
    exact hreach
  | case2 links loc seg rest hloc => cases h
  | case3 links loc seg rest content hloc => cases h
  | case4 links loc seg rest target hloc => cases h
  | case5 links loc seg rest hloc hstay ih => exact ih hreach h
  | case6 links loc rest hloc hstay ih =>
    exact ih (isBeyondReach_of_isPrefix (List.dropLast_prefix loc) hreach) h
  | case7 links loc seg rest hloc hstay hup hlong => cases h
  | case8 loc seg rest hloc hstay hup hlong target hlink => cases h
  | case9 loc seg rest hloc hstay hup hlong target hlink links start ih =>
    refine ih ?_ h
    show isBeyondReach (if target.isAbsolute = true then [] else loc) 0 = false
    split
    · decide
    · exact hreach
  | case10 links loc seg rest hloc hstay hup hlong hlink hfar => cases h
  | case11 links loc seg rest hloc hstay hup hlong hlink hfar ih =>
    rw [Bool.or_eq_true, not_or, Bool.true_and] at hlong
    exact ih (eq_false_of_ne_true hlong.2) h

theorem withinReach_of_realPath {p : FilePath} (h : fs.realPath p = .ok loc) :
    isBeyondReach loc 0 = false :=
  follow_withinReach (isBeyondReach_start p) (follow_of_existing h).2.1

/-- **Both purposes lead to the same place**, unless a place on the way is out of reach
of a path. -/
theorem follow_byPath (fs : FileSystem) (links : Nat) (loc : Location) (segs : List FileName) :
    fs.follow true links loc segs = fs.follow false links loc segs ∨
      fs.follow true links loc segs = .error .tooLong := by
  fun_induction follow fs true links loc segs with
  | case1 links loc => exact .inl (by rw [follow])
  | case2 links loc seg rest hloc => exact .inl (by rw [follow, hloc])
  | case3 links loc seg rest content hloc => exact .inl (by rw [follow, hloc])
  | case4 links loc seg rest target hloc => exact .inl (by rw [follow, hloc])
  | case5 links loc seg rest hloc hstay ih =>
    rw [follow.eq_def fs false links loc (seg :: rest)]
    simpa only [hloc, if_pos hstay] using ih
  | case6 links loc rest hloc hstay ih =>
    rw [follow.eq_def fs false links loc (dotDot :: rest)]
    simpa only [hloc, if_neg hstay, if_true] using ih
  | case7 => exact .inr rfl
  | case8 loc seg rest hloc hstay hup hlong target hlink =>
    rw [Bool.true_and, Bool.or_eq_true, not_or, decide_eq_true_eq] at hlong
    rw [follow.eq_def fs false 0 loc (seg :: rest)]
    simp only [hloc, if_neg hstay, if_neg hup, Bool.false_and, Bool.or_false, decide_eq_true_eq,
      if_neg hlong.1, hlink, true_or]
  | case9 loc seg rest hloc hstay hup hlong target hlink links start ih =>
    rw [Bool.true_and, Bool.or_eq_true, not_or, decide_eq_true_eq] at hlong
    rw [follow.eq_def fs false (links + 1) loc (seg :: rest)]
    simp only [hloc, if_neg hstay, if_neg hup, Bool.false_and, Bool.or_false, decide_eq_true_eq,
      if_neg hlong.1, hlink]
    exact ih
  | case10 => exact .inr rfl
  | case11 links loc seg rest hloc hstay hup hlong hlink hfar ih =>
    rw [Bool.true_and, Bool.or_eq_true, not_or, decide_eq_true_eq] at hlong
    rw [follow.eq_def fs false links loc (seg :: rest)]
    simpa only [hloc, if_neg hstay, if_neg hup, Bool.false_and, Bool.or_false, decide_eq_true_eq,
      if_neg hlong.1, Bool.false_eq_true, if_false] using ih

/-- **What can be opened has a resolved path**, unless that cannot be found for its
length. -/
theorem realPath_of_resolve {p : FilePath} (h : fs.resolve p = .ok loc) :
    fs.realPath p = .ok loc ∨ fs.realPath p = .error .tooLong := by
  obtain ⟨hnul, hfollow, hsome⟩ := follow_of_existing h
  have hne : p.bytes.isEmpty = false := by
    cases hempty : p.bytes.isEmpty with
    | false => rfl
    | true =>
      simp [resolve, existing, destination, hnul, hempty, bind, Except.bind] at h
  have hdest : fs.destination true p = fs.follow true maxLinks (start p) (segments p) := by
    simp [destination, hnul, hne]
  rw [realPath, hdest]
  obtain hsame | hfar := follow_byPath fs maxLinks (start p) (segments p)
  · rw [hsame, hfollow]
    exact .inl (by simp [existing, bind, Except.bind, hsome])
  · rw [hfar]
    exact .inr rfl

/-! ## The paths of locations -/

/-- **The components of a resolved path** are the root and its names. -/
theorem components_pathOf (h : ∀ name ∈ loc, IsName name) :
    (pathOf loc).components = .root :: loc.map .normal := by
  have hnames : loc.filterMap Path.Component.ofSegment? = loc.map .normal :=
    Path.filterMap_ofSegment? fun name hname =>
      ⟨(h name hname).ne_nil, (h name hname).ne_dot, (h name hname).ne_dotDot⟩
  by_cases hloc : loc = []
  · subst hloc
    rfl
  · have hsplit : Path.splitOn 47 (loc.flatMap fun name => 47 :: name) = [] :: loc :=
      Path.splitOn_flatMap fun name hname => (h name hname).segment.1
    have hne : (loc.flatMap fun name => (47 : UInt8) :: name) ≠ [] := by
      intro hnil
      rw [hnil] at hsplit
      cases hsplit
      exact hloc rfl
    have hpath : pathOf loc = ⟨loc.flatMap fun name => 47 :: name⟩ := if_neg hloc
    rw [hpath]
    show Path.components (loc.flatMap fun name => (47 : UInt8) :: name) = _
    rw [Path.components_of_splitOn hsplit, hnames, Path.Component.ofFirst?, if_pos rfl, if_neg hne]
    rfl

/-- A segment that stays is passed over. -/
theorem follow_stay {byPath : Bool} {links : Nat} {seg : FileName} {rest : List FileName}
    (hloc : fs.lookup loc = some .directory) (hseg : seg = [] ∨ seg = dot) :
    follow fs byPath links loc (seg :: rest) = follow fs byPath links loc rest := by
  rw [follow, hloc]
  have hstay : (decide (seg = []) || decide (seg = dot)) = true := by simpa using hseg
  simp only [hstay, if_true]

/-- A directory is entered by its name, where it is within reach. -/
theorem follow_enter {byPath : Bool} {links : Nat} {name : FileName} {rest : List FileName}
    (hloc : fs.lookup loc = some .directory) (hname : IsName name)
    (hdir : fs.lookup (loc ++ [name]) = some .directory)
    (hreach : isBeyondReach (loc ++ [name]) 1 = false) :
    follow fs byPath links loc (name :: rest) = follow fs byPath links (loc ++ [name]) rest := by
  rw [follow, hloc]
  have hstay : (decide (name = []) || decide (name = dot)) = false := by
    simp [hname.ne_nil, hname.ne_dot]
  have hreach₀ : isBeyondReach (loc ++ [name]) 0 = false := by
    simp only [isBeyondReach, decide_eq_false_iff_not] at hreach ⊢
    omega
  simp only [hstay, hname.ne_dotDot, Nat.not_lt.mpr hname.short, hdir, hreach, hreach₀, if_false,
    Bool.false_eq_true, decide_false, Bool.and_false, Bool.or_false]

/-- **Segments that spell directories lead there**: if what is here and everything
below it on the way is a directory within reach, the way is followed to its end. -/
theorem follow_directories (fs : FileSystem) (byPath : Bool) (links : Nat) (here : Location)
    {segs : List FileName} {names : List FileName}
    (hsegs : segs.filterMap Path.Component.ofSegment? = names.map .normal)
    (hnames : ∀ name ∈ names, IsName name)
    (hdirs : ∀ dir, here <+: dir → dir <+: here ++ names → fs.lookup dir = some .directory)
    (hreach : isBeyondReach (here ++ names) 1 = false) :
    follow fs byPath links here segs = .ok (here ++ names) := by
  induction segs generalizing here names with
  | nil =>
    rw [List.filterMap_nil, eq_comm, List.map_eq_nil_iff] at hsegs
    rw [hsegs, List.append_nil, follow]
  | cons seg segs ih =>
    have hhere := hdirs here (List.prefix_refl here) (List.prefix_append here names)
    cases hc : Path.Component.ofSegment? seg with
    | none =>
      rw [List.filterMap_cons_none hc] at hsegs
      rw [follow_stay hhere (Path.Component.ofSegment?_eq_none hc)]
      exact ih here hsegs hnames hdirs hreach
    | some c =>
      rw [List.filterMap_cons_some hc] at hsegs
      cases names with
      | nil => cases hsegs
      | cons name names =>
        rw [List.map_cons, List.cons.injEq] at hsegs
        rw [hsegs.1] at hc
        have hseg : seg = name := Path.Component.ofSegment?_eq_normal hc
        subst hseg
        obtain ⟨hname, hrest⟩ := List.forall_mem_cons.mp hnames
        have hstep : here ++ seg :: names = here ++ [seg] ++ names := by simp
        rw [hstep] at hdirs hreach ⊢
        have hon : here ++ [seg] <+: here ++ [seg] ++ names := List.prefix_append _ _
        have hdir := hdirs (here ++ [seg]) (List.prefix_append here [seg]) hon
        rw [follow_enter hhere hname hdir (isBeyondReach_of_isPrefix hon hreach)]
        refine ih (here ++ [seg]) hsegs.2 hrest (fun dir h => hdirs dir ?_) hreach
        exact (List.prefix_append here [seg]).trans h

/-- **A path that spells a directory has its resolved path**, however it spells it, if
the directory is within reach. -/
theorem realPath_of_components {dir : Location} (hnames : ∀ name ∈ dir, IsName name)
    (hdirs : ∀ above, above <+: dir → fs.lookup above = some .directory)
    (hreach : isBeyondReach dir 1 = false) {d : FilePath}
    (hd : d.components = .root :: dir.map .normal) : fs.realPath d = .ok dir := by
  obtain ⟨rest, hsplit, hrest⟩ := Path.splitOn_of_components_eq_root hd
  have hne : d.bytes ≠ [] := by
    intro hnil
    rw [FilePath.components, hnil] at hd
    cases hd
  have hnul : 0 ∉ d.bytes := by
    intro h0
    obtain ⟨seg, hseg, h0⟩ : ∃ seg ∈ segments d, 0 ∈ seg :=
      (Path.exists_mem_splitOn_iff (by decide)).mpr h0
    rw [show segments d = [] :: rest from hsplit, List.mem_cons] at hseg
    obtain rfl | hseg := hseg
    · cases h0
    · obtain rfl | rfl | hname := Path.mem_of_filterMap_ofSegment? hrest hseg
      · cases h0
      · exact absurd h0 (by decide)
      · exact (hnames seg hname).segment.2 h0
  have habs : d.isAbsolute = true := Path.isAbsolute_of_splitOn hne hsplit
  have hroot : fs.lookup [] = some .directory := lookup_nil fs
  have hfollow : follow fs true maxLinks (start d) (segments d) = .ok dir := by
    rw [start, if_pos habs, show segments d = [] :: rest from hsplit,
      follow_stay hroot (.inl rfl)]
    exact follow_directories fs true maxLinks [] hrest hnames (fun above _ h => hdirs above h)
      hreach
  have hdest : fs.destination true d = .ok dir := by
    unfold destination
    rw [if_neg (by simpa using hnul), if_neg (by simpa using hne), hfollow]
  rw [realPath, hdest]
  simp [existing, bind, Except.bind, hdirs dir (List.prefix_refl dir)]

/-- **A resolved path cannot be disguised.** A path that has no resolved path, and whose
components begin those of a resolved one, is empty or spells just that one. -/
theorem unresolved_of_isPrefix {p d : FilePath} (hp : fs.realPath p = .ok loc)
    (hd : fs.canonicalize? d = none) (hpre : d.components <+: (pathOf loc).components) :
    d.bytes = [] ∨ d.components = (pathOf loc).components := by
  have hs := sits_of_realPath hp
  rw [components_pathOf hs.names] at hpre ⊢
  obtain hnil | ⟨cs, hcs, hpre⟩ := List.prefix_cons_iff.mp hpre
  · exact .inl (Path.components_eq_nil_iff.mp hnil)
  · obtain ⟨dir, hdir, rfl⟩ := List.prefix_map_iff.mp hpre
    by_cases heq : dir = loc
    · exact .inr (by rw [hcs, heq])
    · -- what is above is a directory, and not so long by the name that is missing
      have hdirs : ∀ above, above <+: dir → fs.lookup above = some .directory := by
        intro above habove
        refine hs.above above (habove.trans hdir) ?_
        rintro rfl
        exact heq (hdir.eq_of_length_le habove.length_le)
      have hreal := realPath_of_components (hs.of_isPrefix hdir).names hdirs
        (isBeyondReach_above hs hdir heq (withinReach_of_realPath hp)) hcs
      rw [canonicalize?, hreal] at hd
      cases hd

end FileSystem

end TreeBroker
