import Mathlib.Data.List.Induction
import TreeBroker.Scope

/-!
# How long a scope lasts

Entering a scope gives the caller a *guard*, and dropping the guard leaves the scope
again. A guard is a value like any other: its owner may keep it, hand it on, and drop
it at any time, so nothing makes a caller drop the youngest guard first. The scopes
themselves know nothing of guards. They are a bare stack, and a drop takes the
innermost scope away, whichever guard it was that went.

What a caller may rely on whatever it does is the *number*: as many scopes are open as
guards are alive, so that no backend is preferred exactly if no guard is alive. Which
backend is preferred is another matter. It ought to be that of the youngest guard
(`Thread.Lasting`), and it is, as long as drops are *orderly*: all living guards that
are younger than the dropped one prefer the same backend as it. Dropping the youngest
guard is always orderly, and so is every drop of a caller that works with one backend
only. With the first drop that is not, the scopes and the guards part for good: the
scopes still go down from the innermost one, and on the way there is a moment at which
the backend of a dropped guard is preferred, or that of a living one is not.
-/

namespace TreeBroker

/-- **A guard**, which is to keep a scope open until it is dropped. -/
structure Guard where
  /-- How many guards the thread was given before it. -/
  number : Nat
  /-- The backend that is to be preferred. -/
  kind : BackendKind
  deriving DecidableEq

/-- **What a thread does with its scopes.** -/
inductive ScopeEvent where
  /-- A scope is entered, and a guard is given out. -/
  | enter (kind : BackendKind)
  /-- The guard of a number is dropped. -/
  | drop (number : Nat)
  deriving DecidableEq

/-- **A thread**: its scopes, and the guards that are alive, the youngest first. -/
structure Thread where
  /-- The open scopes. -/
  scopes : Scopes := {}
  /-- The living guards. -/
  guards : List Guard := []
  /-- The number of guards given out so far. -/
  entered : Nat := 0
  deriving DecidableEq

namespace Thread

/-- What an event makes of a thread. A guard can be dropped once only: there is nothing
to drop where it is not alive. -/
def after (t : Thread) : ScopeEvent → Thread
  | .enter kind =>
    { scopes := t.scopes.enter kind
      guards := ⟨t.entered, kind⟩ :: t.guards
      entered := t.entered + 1 }
  | .drop n =>
    if n ∈ t.guards.map Guard.number then
      { t with scopes := t.scopes.leave, guards := t.guards.eraseP (·.number == n) }
    else t

/-- **A thread after a number of events.** -/
def run (t : Thread) (es : List ScopeEvent) : Thread := es.foldl after t

/-- A thread that has entered no scope yet. -/
def start : Thread := {}

/-- **An override lasts as long as its guard**: the preferred backend is that of the
youngest living guard. -/
def Lasting (t : Thread) : Prop := t.scopes.current? = t.guards.head?.map Guard.kind

/-- **An orderly event**: the living guards that are younger than a dropped one prefer
the same backend as it. -/
def Orderly (t : Thread) : ScopeEvent → Prop
  | .enter _ => True
  | .drop n => ∀ g ∈ t.guards, g.number = n → ∀ h ∈ t.guards, n < h.number → h.kind = g.kind

/-- **Events that are orderly**, each at its moment. -/
def AllOrderly (t : Thread) : List ScopeEvent → Prop
  | [] => True
  | e :: es => t.Orderly e ∧ (t.after e).AllOrderly es

/-- The youngest guards dropped, one after another. -/
def unwinding (t : Thread) (n : Nat) : List ScopeEvent :=
  (t.guards.take n).map fun g => .drop g.number

variable {t : Thread}

@[simp] theorem run_nil (t : Thread) : t.run [] = t := rfl

@[simp] theorem run_cons (t : Thread) (e : ScopeEvent) (es : List ScopeEvent) :
    t.run (e :: es) = (t.after e).run es := rfl

@[simp] theorem run_append (t : Thread) (es es' : List ScopeEvent) :
    t.run (es ++ es') = (t.run es).run es' :=
  List.foldl_append

/-! ## Numbers -/

/-- **A thread in order**: the guards are numbered in the order in which they were
entered, and there are as many as there are open scopes. -/
structure InOrder (t : Thread) : Prop where
  /-- Younger guards have larger numbers. -/
  descending : t.guards.Pairwise fun g h => h.number < g.number
  /-- The next number is larger than all of them. -/
  bounded : ∀ g ∈ t.guards, g.number < t.entered
  /-- There is one scope a guard. -/
  counted : t.scopes.kinds.length = t.guards.length

/-- **What a drop does**: nothing if the guard is not alive; otherwise the guard goes,
and the innermost scope with it. -/
theorem InOrder.drop_cases (ht : t.InOrder) (n : Nat) :
    (∀ g ∈ t.guards, g.number ≠ n) ∧ t.after (.drop n) = t ∨
      ∃ younger g older, t.guards = younger ++ g :: older ∧ g.number = n ∧
        (∀ h ∈ younger, n < h.number) ∧ (∀ h ∈ older, h.number < n) ∧
        t.after (.drop n) = { t with scopes := t.scopes.leave, guards := younger ++ older } := by
  by_cases hn : n ∈ t.guards.map Guard.number
  · obtain ⟨g, hg, rfl⟩ := List.mem_map.mp hn
    obtain ⟨younger, older, hsplit⟩ := List.append_of_mem hg
    have hdesc := ht.descending
    rw [hsplit, List.pairwise_append, List.pairwise_cons] at hdesc
    obtain ⟨-, ⟨holder, -⟩, hyounger⟩ := hdesc
    have hlt : ∀ h ∈ younger, g.number < h.number :=
      fun h hh => hyounger h hh g List.mem_cons_self
    refine .inr ⟨younger, g, older, hsplit, rfl, hlt, holder, ?_⟩
    have herase : t.guards.eraseP (·.number == g.number) = younger ++ older := by
      rw [hsplit, List.eraseP_append_right, List.eraseP_cons_of_pos (by simp)]
      intro h hh
      simpa using Nat.ne_of_gt (hlt h hh)
    show (if _ then _ else _) = _
    rw [if_pos hn, herase]
  · refine .inl ⟨fun g hg h => hn (List.mem_map.mpr ⟨g, hg, h⟩), ?_⟩
    show (if _ then _ else _) = _
    rw [if_neg hn]

theorem inOrder_start : start.InOrder := ⟨.nil, nofun, rfl⟩

theorem InOrder.after (ht : t.InOrder) (e : ScopeEvent) : (t.after e).InOrder := by
  cases e with
  | enter kind =>
    refine ⟨List.pairwise_cons.mpr ⟨ht.bounded, ht.descending⟩, ?_, ?_⟩
    · refine List.forall_mem_cons.mpr ⟨Nat.lt_succ_self _, fun g hg => ?_⟩
      exact Nat.lt_succ_of_lt (ht.bounded g hg)
    · show t.scopes.kinds.length + 1 = t.guards.length + 1
      rw [ht.counted]
  | drop n =>
    obtain ⟨-, hsame⟩ | ⟨younger, g, older, hsplit, -, -, -, hdrop⟩ := ht.drop_cases n
    · rwa [hsame]
    · have hsub : (younger ++ older).Sublist t.guards := by
        rw [hsplit]
        exact (List.sublist_cons_self g older).append_left younger
      rw [hdrop]
      refine ⟨ht.descending.sublist hsub, fun h hh => ht.bounded h (hsub.subset hh), ?_⟩
      show (t.scopes.kinds.drop 1).length = (younger ++ older).length
      simp [ht.counted, hsplit]

theorem InOrder.run (ht : t.InOrder) (es : List ScopeEvent) : (t.run es).InOrder := by
  induction es generalizing t with
  | nil => exact ht
  | cons e es ih => exact ih (ht.after e)

theorem InOrder.current?_eq_none_iff (ht : t.InOrder) :
    t.scopes.current? = none ↔ t.guards = [] := by
  unfold Scopes.current?
  rw [List.head?_eq_none_iff, ← List.length_eq_zero_iff, ← List.length_eq_zero_iff, ht.counted]

/-! ## Scopes and guards in step -/

/-- **In step**: each scope is that of a guard, in the order of the guards. -/
def InStep (t : Thread) : Prop := t.scopes.kinds = t.guards.map Guard.kind

/-- The youngest guards take the innermost scopes with them. -/
theorem run_unwinding (counted : t.scopes.kinds.length = t.guards.length) (n : Nat) :
    t.run (t.unwinding n) =
      { t with scopes := ⟨t.scopes.kinds.drop n⟩, guards := t.guards.drop n } := by
  induction n generalizing t with
  | zero => simp [unwinding]
  | succ n ih =>
    rcases t with ⟨⟨_ | ⟨k, ks⟩⟩, _ | ⟨g, gs⟩, entered⟩
    · simp [unwinding]
    · simp at counted
    · simp at counted
    · have hdrop : Thread.after ⟨⟨k :: ks⟩, g :: gs, entered⟩ (.drop g.number)
          = ⟨⟨ks⟩, gs, entered⟩ := by
        simp [Thread.after, Scopes.leave]
      have hrest : unwinding ⟨⟨k :: ks⟩, g :: gs, entered⟩ (n + 1)
          = .drop g.number :: unwinding ⟨⟨ks⟩, gs, entered⟩ n := by
        simp [unwinding]
      rw [hrest, run_cons, hdrop, ih (by simpa using counted)]
      rfl

/-- **In step means lasting to the end**: however many of the youngest guards are
dropped, the preferred backend is that of the youngest one left. -/
theorem InOrder.inStep_iff (ht : t.InOrder) :
    t.InStep ↔ ∀ n, (t.run (t.unwinding n)).Lasting := by
  have hlasting (n : Nat) : (t.run (t.unwinding n)).Lasting ↔
      t.scopes.kinds[n]? = (t.guards.map Guard.kind)[n]? := by
    rw [run_unwinding ht.counted, Lasting, Scopes.current?, List.head?_drop, List.head?_drop,
      List.getElem?_map]
  simp only [hlasting, InStep, List.ext_getElem?_iff]

/-- What is left without the head is what is left without another member exactly if
that member and all before it are alike. -/
theorem tail_eq_append_iff {α : Type} (xs ys : List α) (a : α) :
    (xs ++ a :: ys).drop 1 = xs ++ ys ↔ ∀ x ∈ xs, x = a := by
  cases xs with
  | nil => simp
  | cons x xs =>
    show xs ++ a :: ys = x :: (xs ++ ys) ↔ _
    induction xs generalizing x with
    | nil => simp [eq_comm]
    | cons y zs ih =>
      rw [List.cons_append, List.cons_append, List.cons.injEq, ih]
      simp only [List.forall_mem_cons]
      constructor
      · rintro ⟨rfl, rfl, hz⟩
        exact ⟨rfl, rfl, hz⟩
      · rintro ⟨rfl, rfl, hz⟩
        exact ⟨rfl, rfl, hz⟩

/-- **An event keeps scopes and guards in step exactly if it is orderly.** -/
theorem InStep.after_iff (hs : t.InStep) (ht : t.InOrder) (e : ScopeEvent) :
    (t.after e).InStep ↔ t.Orderly e := by
  cases e with
  | enter kind =>
    refine iff_of_true ?_ trivial
    show kind :: t.scopes.kinds = kind :: t.guards.map Guard.kind
    rw [hs]
  | drop n =>
    obtain ⟨hdead, hsame⟩ | ⟨younger, g, older, hsplit, rfl, hy, ho, hdrop⟩ := ht.drop_cases n
    · rw [hsame]
      exact iff_of_true hs fun g hg h => absurd h (hdead g hg)
    · -- the guard that goes is `g`, the scope that goes is the innermost one
      have hkinds : (t.after (.drop g.number)).InStep ↔ ∀ h ∈ younger, h.kind = g.kind := by
        rw [hdrop]
        show t.scopes.kinds.drop 1 = (younger ++ older).map Guard.kind ↔ _
        rw [show t.scopes.kinds = t.guards.map Guard.kind from hs, hsplit, List.map_append,
          List.map_cons, List.map_append, tail_eq_append_iff]
        simp
      rw [hkinds]
      constructor
      · intro halike g' hg' hnum h hh hlt
        have hg : g' = g := by
          rw [hsplit] at hg'
          grind
        rw [hsplit] at hh
        obtain hh | rfl | hh : h ∈ younger ∨ h = g ∨ h ∈ older := by simpa using hh
        · rw [hg, halike h hh]
        · rw [hg]
        · exact absurd (ho h hh) (Nat.lt_asymm hlt)
      · intro horderly h hh
        exact horderly g (by simp [hsplit]) rfl h (by simp [hsplit, hh]) (hy h hh)

/-- Dropping the youngest guard is orderly. -/
theorem InOrder.orderly_youngest (ht : t.InOrder) {g : Guard} {gs : List Guard}
    (hg : t.guards = g :: gs) : t.Orderly (.drop g.number) := by
  intro g' _ _ h hh hlt
  have hdesc := ht.descending
  rw [hg] at hh hdesc
  obtain rfl | hh := List.mem_cons.mp hh
  · exact absurd hlt (Nat.lt_irrefl _)
  · exact absurd ((List.pairwise_cons.mp hdesc).1 h hh) (Nat.lt_asymm hlt)

/-! ## Whole lives -/

theorem allOrderly_concat (t : Thread) (es : List ScopeEvent) (e : ScopeEvent) :
    t.AllOrderly (es ++ [e]) ↔ t.AllOrderly es ∧ (t.run es).Orderly e := by
  induction es generalizing t with
  | nil => simp [AllOrderly]
  | cons e' es ih =>
    show t.Orderly e' ∧ (t.after e').AllOrderly (es ++ [e]) ↔ _
    rw [ih, run_cons, ← and_assoc]
    rfl

/-- **Events are orderly exactly if they keep scopes and guards in step** at every
moment. -/
theorem InOrder.allOrderly_iff (ht : t.InOrder) (hs : t.InStep) (es : List ScopeEvent) :
    t.AllOrderly es ↔ ∀ before, before <+: es → (t.run before).InStep := by
  induction es using List.reverseRecOn with
  | nil =>
    refine iff_of_true trivial fun before hb => ?_
    rwa [List.prefix_nil.mp hb]
  | append_singleton es e ih =>
    have hprefix : (∀ before, before <+: es ++ [e] → (t.run before).InStep) ↔
        (∀ before, before <+: es → (t.run before).InStep) ∧ (t.run (es ++ [e])).InStep := by
      simp only [List.prefix_concat_iff, or_imp, forall_and, forall_eq]
      exact and_comm
    rw [allOrderly_concat, ih, hprefix]
    refine and_congr_right fun hall => ?_
    rw [run_append]
    exact ((hall es List.prefix_rfl).after_iff (ht.run es) e).symm

/-- **How long a scope lasts.** Whatever a thread enters and drops, no backend is
preferred exactly if no guard is alive. If all drops are orderly, as those of youngest
guards are, the preferred backend is that of the youngest living guard. And nothing less
will do: if a drop is not orderly, the thread has come to a moment from which dropping
some of the youngest guards, one after another, leads to a preference that is not that
of the youngest guard left. -/
theorem scope_lasts (es : List ScopeEvent) :
    ((start.run es).scopes.current? = none ↔ (start.run es).guards = []) ∧
      (∀ g gs, (start.run es).guards = g :: gs → (start.run es).Orderly (.drop g.number)) ∧
      (start.AllOrderly es → (start.run es).Lasting) ∧
      (¬ start.AllOrderly es → ∃ before n, before <+: es ∧
        ¬ (start.run (before ++ (start.run before).unwinding n)).Lasting) := by
  have hsteps := inOrder_start.allOrderly_iff rfl es
  have hes := inOrder_start.run es
  refine ⟨hes.current?_eq_none_iff, fun g gs => hes.orderly_youngest, fun horderly => ?_,
    fun hdisorderly => ?_⟩
  · have hstep := hsteps.mp horderly es List.prefix_rfl
    exact hes.inStep_iff.mp hstep 0
  · rw [hsteps] at hdisorderly
    push Not at hdisorderly
    obtain ⟨before, hbefore, hout⟩ := hdisorderly
    rw [(inOrder_start.run before).inStep_iff, not_forall] at hout
    obtain ⟨n, hn⟩ := hout
    exact ⟨before, n, hbefore, by rwa [run_append]⟩

/-- Two scopes, of which the outer guard is dropped first. -/
def crossing : List ScopeEvent := [.enter .grammar, .enter .treeSitter, .drop 0]

/-- **A scope that outlives its guard**: the guard for native libraries is the only one
alive, and the backend of the dropped guard is preferred. -/
theorem scope_outlives_guard :
    (start.run crossing).guards = [⟨1, .treeSitter⟩] ∧
      (start.run crossing).scopes.current? = some .grammar ∧
      ¬ (start.run crossing).Lasting := by
  refine ⟨by decide, by decide, ?_⟩
  unfold Lasting
  decide

end Thread

end TreeBroker
