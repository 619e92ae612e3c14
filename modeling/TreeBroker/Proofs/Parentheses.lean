import Mathlib.Data.List.Basic
import TreeBroker.Proofs.ShownForests

/-!
# Trees in parentheses, read back

The text of a tree spells marks, one after another, and a mark is spelled with parentheses,
blanks and colons. Kinds and labels are spelled as they are. So the text can be read back
only if they keep to words, without any of these characters. Then what stands around a
parenthesis tells the node: it ends where the next such character is.

Two things might still be mistaken. A kind may itself be `MISSING`, with a blank and a label
behind it that looks like a kind; but a label ends in a colon, and the kind of a node that the
source lacks in a parenthesis. And a label is only one if it is all there is between a blank
and a colon, for the end of a label is a text before a colon too. The statement names these
ends (`Caption.StandsBetween`), and with them it is exact (`Arena.sexp_shows_all`).
-/

namespace TreeBroker

/-! ## Balanced texts -/

namespace Text

/-- **Balanced parentheses**: as many are closed as are opened, and at no place more. -/
structure Balanced (cs : List Char) : Prop where
  /-- In the end. -/
  settled : cs.count ')' = cs.count '('
  /-- And up to any place. -/
  upTo : ∀ beginning, beginning <+: cs → beginning.count ')' ≤ beginning.count '('

/-- A text without parentheses. -/
def Bare (cs : List Char) : Prop := '(' ∉ cs ∧ ')' ∉ cs

variable {as bs cs ds : List Char}

theorem Bare.nil : Bare [] := ⟨List.not_mem_nil, List.not_mem_nil⟩

theorem Bare.append (h : Bare as) (h' : Bare bs) : Bare (as ++ bs) := by
  unfold Bare at *
  simp [h, h']

theorem Bare.blank (h : Bare cs) : Bare (' ' :: cs) := by
  have single : Bare [' '] := ⟨by decide, by decide⟩
  exact single.append h

theorem Bare.balanced (h : Bare cs) : Balanced cs where
  settled := by rw [List.count_eq_zero_of_not_mem h.1, List.count_eq_zero_of_not_mem h.2]
  upTo beginning hb := by
    rw [List.count_eq_zero_of_not_mem fun mem => h.2 (hb.subset mem)]
    exact Nat.zero_le _

namespace Balanced

theorem append (h : Balanced as) (h' : Balanced bs) : Balanced (as ++ bs) where
  settled := by rw [List.count_append, List.count_append, h.settled, h'.settled]
  upTo beginning hb := by
    obtain within | ⟨rest, rfl⟩ := List.prefix_or_prefix_of_prefix hb (List.prefix_append as bs)
    · exact h.upTo beginning within
    · have := h'.upTo rest ((List.prefix_append_right_inj as).mp hb)
      have := h.settled
      rw [List.count_append, List.count_append]
      omega

/-- **A balanced text in parentheses** is balanced. -/
theorem wrap (h : Balanced cs) : Balanced ('(' :: (cs ++ [')'])) where
  settled := by simp [List.count_append, h.settled]
  upTo beginning hb := by
    obtain rfl | ⟨rest, rfl, hrest⟩ := List.prefix_cons_iff.mp hb
    · simp
    · obtain rfl | within := List.prefix_concat_iff.mp hrest
      · simp [List.count_append, h.settled]
      · have := h.upTo rest within
        rw [List.count_cons_self, List.count_cons_of_ne (by decide)]
        omega

end Balanced

/-- **The first character of a class** cuts a text in one way. -/
theorem first_of_class {p : Char → Bool} {c d : Char} (ha : ∀ x ∈ as, p x = false)
    (hb : ∀ x ∈ bs, p x = false) (hc : p c = true) (hd : p d = true)
    (h : as ++ c :: cs = bs ++ d :: ds) : as = bs ∧ c = d := by
  have cut {as cs : List Char} {c : Char} (ha : ∀ x ∈ as, p x = false) (hc : p c = true) :
      (as ++ c :: cs).takeWhile (fun x => !p x) = as := by
    rw [List.takeWhile_append_of_pos fun x hx => by rw [ha x hx]; rfl,
      List.takeWhile_cons_of_neg (by simp [hc]), List.append_nil]
  have same := congrArg (List.takeWhile fun x => !p x) h
  rw [cut ha hc, cut hb hd] at same
  subst same
  exact ⟨rfl, (List.cons.inj (List.append_cancel_left h)).1⟩

/-- The first parenthesis of a text. -/
theorem Bare.first {c d : Char} (ha : Bare as) (hb : Bare bs) (hc : c = '(' ∨ c = ')')
    (hd : d = '(' ∨ d = ')') (h : as ++ c :: cs = bs ++ d :: ds) : as = bs ∧ c = d := by
  have bare {cs : List Char} (h : Bare cs) : ∀ x ∈ cs, (x == '(' || x == ')') = false := by
    intro x hx
    have := ne_of_mem_of_not_mem hx h.1
    have := ne_of_mem_of_not_mem hx h.2
    simp [*]
  refine first_of_class (p := fun x => x == '(' || x == ')') (bare ha) (bare hb) ?_ ?_ h
  · simpa using hc
  · simpa using hd

/-- The last blank of a text. -/
theorem last_blank (ha : ' ' ∉ as) (hb : ' ' ∉ bs) (h : cs ++ ' ' :: as = ds ++ ' ' :: bs) :
    as = bs := by
  have free {cs : List Char} (h : ' ' ∉ cs) : ∀ x ∈ cs.reverse, (x == ' ') = false :=
    fun x hx => beq_false_of_ne (ne_of_mem_of_not_mem (List.mem_reverse.mp hx) h)
  have back := congrArg List.reverse h
  simp only [List.reverse_append, List.reverse_cons, List.append_assoc,
    List.singleton_append] at back
  exact List.reverse_inj.mp (first_of_class (free ha) (free hb) (by decide) (by decide) back).1

end Text

open Text

/-! ## Reading the text -/

/-- **A word** has no parenthesis, blank or colon in it. -/
def Text.IsWord (s : String) : Prop := ∀ c ∈ s.toList, c ∉ ['(', ')', ' ', ':']

instance (s : String) : Decidable (IsWord s) :=
  List.decidableBAll (fun c => c ∉ ['(', ')', ' ', ':']) s.toList

namespace Caption

/-- **A caption in words.** -/
structure InWords (c : Caption) : Prop where
  /-- The kind is a word. -/
  kind : IsWord c.kind
  /-- The label is one, if there is one. -/
  field : ∀ field ∈ c.field, IsWord field

instance (c : Caption) : Decidable c.InWords :=
  decidable_of_iff (IsWord c.kind ∧ ∀ field ∈ c.field, IsWord field)
    ⟨fun h => ⟨h.1, h.2⟩, fun h => ⟨h.kind, h.field⟩⟩

/-- **How a node stands in the text**: what is before its parenthesis, and what is behind. -/
structure StandsBetween (c : Caption) (isRoot : Prop) (before after : List Char) : Prop where
  /-- Its kind stands behind the parenthesis, alone or behind the word for a node that the
  source lacks, and ends there. -/
  kind : ∃ rest, after = (if c.missing then "MISSING ".toList else []) ++ c.kind.toList ++ rest ∧
    (rest.head? = some ' ' ∨ rest.head? = some ')')
  /-- The word is there exactly if the source lacks the node. -/
  missing : "MISSING ".toList ++ c.kind.toList ++ [')'] <+: after ↔ c.missing = true
  /-- A label stands before the parenthesis exactly if it is the node's. -/
  label : ∀ l, IsWord l → (' ' :: (l.toList ++ [':', ' ']) <:+ before ↔ ¬isRoot ∧ c.field = some l)
  /-- Where there is no label, nothing looks like one. -/
  labelled : [':', ' '] <:+ before ↔ ¬isRoot ∧ c.field.isSome = true

variable {c : Caption} (h : c.InWords)
include h

theorem InWords.bare_kind : Bare c.kind.toList :=
  ⟨fun mem => h.kind _ mem (by decide), fun mem => h.kind _ mem (by decide)⟩

theorem InWords.bare_missing : Bare ("MISSING ".toList ++ c.kind.toList) :=
  Bare.append ⟨by decide, by decide⟩ h.bare_kind

theorem InWords.bare_label : Bare c.label := by
  unfold label
  cases hf : c.field with
  | none => exact Bare.nil
  | some field =>
    have word := h.field field hf
    exact Bare.append ⟨fun mem => word _ mem (by decide), fun mem => word _ mem (by decide)⟩
      ⟨by decide, by decide⟩

theorem InWords.notMem_body {d : Char} (hd : d = '(' ∨ d = ':') : d ∉ c.body := by
  have kind : d ∉ c.kind.toList := fun mem => h.kind d mem (by rcases hd with rfl | rfl <;> decide)
  have other : d ∉ "MISSING ".toList ∧ d ∉ [')'] := by rcases hd with rfl | rfl <;> decide
  unfold body
  split
  · simp only [List.mem_append, not_or]
    exact ⟨⟨other.1, kind⟩, other.2⟩
  · exact kind

end Caption

namespace Mark

variable {ms ms' : List Mark} {c : Caption}

/-- **Marks in words.** -/
def InWords (ms : List Mark) : Prop := ∀ c ∈ ms.filterMap caption?, c.InWords

@[simp] theorem inWords_append : InWords (ms ++ ms') ↔ InWords ms ∧ InWords ms' := by
  unfold InWords
  rw [List.filterMap_append, List.forall_mem_append]

@[simp] theorem inWords_opening : InWords (opening c :: ms) ↔ c.InWords ∧ InWords ms := by
  unfold InWords
  rw [List.filterMap_cons_some (caption?_opening c), List.forall_mem_cons]

@[simp] theorem inWords_closing : InWords (closing :: ms) ↔ InWords ms := by
  unfold InWords
  rw [List.filterMap_cons_none caption?_closing]

@[simp] theorem inWords_close (missing : Bool) : InWords (close missing) := by
  unfold InWords
  rw [filterMap_close]
  exact nofun

/-- **Every mark that opens** has one parenthesis that does. -/
theorem count_spell (words : InWords ms) :
    (ms.flatMap spell).count '(' = (ms.filterMap caption?).length := by
  induction ms with
  | nil => rfl
  | cons m ms ih =>
    rw [List.flatMap_cons, List.count_append]
    cases m with
    | closing =>
      rw [ih (inWords_closing.mp words), List.filterMap_cons_none caption?_closing]
      exact Nat.zero_add _
    | opening c =>
      obtain ⟨hc, words⟩ := inWords_opening.mp words
      rw [ih words, List.filterMap_cons_some (caption?_opening c), List.length_cons, spell,
        List.count_cons_of_ne (by decide), List.count_append, List.count_cons_self,
        List.count_eq_zero_of_not_mem hc.bare_label.1,
        List.count_eq_zero_of_not_mem (hc.notMem_body (.inl rfl))]
      omega

/-- **The mark that opens a node** among others. -/
theorem exists_split {k : Nat} (h : (ms.filterMap caption?)[k]? = some c) :
    ∃ before after, ms = before ++ opening c :: after ∧ (before.filterMap caption?).length = k := by
  induction ms generalizing k with
  | nil => simp at h
  | cons m ms ih =>
    cases m with
    | closing =>
      obtain ⟨before, after, rfl, hk⟩ := ih h
      exact ⟨closing :: before, after, rfl, hk⟩
    | opening c' =>
      rw [List.filterMap_cons_some (caption?_opening c')] at h
      cases k with
      | zero =>
        cases h
        exact ⟨[], ms, rfl, rfl⟩
      | succ k =>
        obtain ⟨before, after, rfl, hk⟩ := ih h
        exact ⟨opening c' :: before, after, rfl, congrArg (· + 1) hk⟩

section Balanced

variable (hc : c.InWords) (inner : Balanced (ms.flatMap spell)) (empty : c.missing = true → ms = [])
include hc inner empty

/-- **A node in its parentheses is balanced** if what is inside it is. -/
theorem balanced_body : Balanced ('(' :: (c.body ++ (ms ++ close c.missing).flatMap spell)) := by
  cases hm : c.missing with
  | true => simpa [Caption.body, hm, close, empty hm] using hc.bare_missing.balanced.wrap
  | false =>
    simpa [Caption.body, hm, close, spell] using (hc.bare_kind.balanced.append inner).wrap

theorem balanced_opening : Balanced ((opening c :: (ms ++ close c.missing)).flatMap spell) := by
  have label : Bare (' ' :: c.label) := hc.bare_label.blank
  have whole := label.balanced.append (balanced_body hc inner empty)
  rwa [List.flatMap_cons, spell, List.cons_append, List.append_assoc, List.cons_append]

end Balanced

end Mark

/-- **The marks of a forest are balanced.** -/
theorem Forest.balanced_marks (forest : Forest) (words : Mark.InWords forest.marks) :
    Balanced (forest.marks.flatMap Mark.spell) := by
  induction forest with
  | nil => exact Bare.nil.balanced
  | leaf t rest ih =>
    rw [marks, Mark.inWords_append] at words
    rw [marks, List.flatMap_append]
    refine Balanced.append ?_ (ih words.2)
    cases hn : t.entry.named with
    | false => exact Bare.nil.balanced
    | true =>
      rw [if_pos hn, Mark.inWords_opening] at words
      have inner : Balanced (([] : List Mark).flatMap Mark.spell) := Bare.nil.balanced
      exact Mark.balanced_opening words.1.1 inner fun _ => rfl
  | node field kind start stop children rest ihc ihr =>
    rw [marks, Mark.inWords_opening, Mark.inWords_append, Mark.inWords_closing] at words
    obtain ⟨own, below, behind⟩ := words
    have first := Mark.balanced_opening own (ihc below) fun absent => by cases absent
    have whole := first.append (ihr behind)
    rw [← List.flatMap_append] at whole
    simpa [marks, Mark.close] using whole

/-! ## Around a parenthesis -/

namespace Caption

variable {c : Caption} {ms : List Mark}

/-- What stands behind a kind: a parenthesis that closes, or a blank, and then at most a label
up to a parenthesis that opens. -/
theorem exists_of_ne_nil (words : Mark.InWords ms) (h : ms ≠ []) :
    (∃ rest, ms.flatMap Mark.spell = ')' :: rest) ∨
      ∃ label rest, ms.flatMap Mark.spell = ' ' :: (label ++ '(' :: rest) ∧ Bare label := by
  cases ms with
  | nil => exact absurd rfl h
  | cons m ms =>
    cases m with
    | closing => exact .inl ⟨_, rfl⟩
    | opening c =>
      have own := (Mark.inWords_opening.mp words).1
      exact .inr ⟨c.label, c.body ++ ms.flatMap Mark.spell, by simp [Mark.spell], own.bare_label⟩

/-- **What stands behind a parenthesis.** -/
theorem InWords.behind (h : c.InWords) (words : Mark.InWords ms)
    (closed : c.missing = false → ms ≠ []) :
    (∃ rest, c.body ++ ms.flatMap Mark.spell =
        (if c.missing then "MISSING ".toList else []) ++ c.kind.toList ++ rest ∧
      (rest.head? = some ' ' ∨ rest.head? = some ')')) ∧
    ("MISSING ".toList ++ c.kind.toList ++ [')'] <+: c.body ++ ms.flatMap Mark.spell ↔
      c.missing = true) := by
  cases hm : c.missing with
  | true =>
    rw [body, if_pos hm, if_pos rfl]
    refine ⟨⟨')' :: ms.flatMap Mark.spell, by simp, .inr rfl⟩, ?_⟩
    exact iff_of_true (List.prefix_append _ _) rfl
  | false =>
    rw [body, hm, if_neg Bool.false_ne_true, if_neg Bool.false_ne_true, List.nil_append]
    refine ⟨⟨_, rfl, ?_⟩, iff_of_false ?_ Bool.false_ne_true⟩
    · obtain ⟨rest, hrest⟩ | ⟨label, rest, hrest, -⟩ := exists_of_ne_nil words (closed hm)
      · exact .inr (by rw [hrest]; rfl)
      · exact .inl (by rw [hrest]; rfl)
    · rintro ⟨tail, htail⟩
      rw [List.append_assoc] at htail
      obtain ⟨rest, hrest⟩ | ⟨label, rest, hrest, bare⟩ := exists_of_ne_nil words (closed hm)
      · -- The first parenthesis closes, so the kind would be longer than itself.
        rw [hrest] at htail
        obtain ⟨same, -⟩ := h.bare_missing.first h.bare_kind (.inr rfl) (.inr rfl) htail
        exact absurd (List.append_left_eq_self.mp same) (by decide)
      · -- The first parenthesis opens, and behind the word it would close.
        rw [hrest, ← List.cons_append, ← List.append_assoc c.kind.toList] at htail
        have blank : Bare (c.kind.toList ++ ' ' :: label) :=
          h.bare_kind.append bare.blank
        obtain ⟨-, same⟩ := h.bare_missing.first blank (.inr rfl) (.inl rfl) htail
        exact absurd same (by decide)

/-- **What stands before a parenthesis**, behind a text that does not end in a colon. -/
theorem InWords.before (h : c.InWords) {x : List Char} (hx : x.getLast? ≠ some ':') :
    (∀ l, IsWord l →
      (' ' :: (l.toList ++ [':', ' ']) <:+ x ++ ' ' :: c.label ↔ c.field = some l)) ∧
    ([':', ' '] <:+ x ++ ' ' :: c.label ↔ c.field.isSome = true) := by
  unfold label
  cases hf : c.field with
  | none =>
    have none : ¬[':', ' '] <:+ x ++ [' '] := by
      rintro ⟨t, ht⟩
      have ends : t ++ [':'] = x := (List.append_left_inj [' ']).mp (by simpa using ht)
      exact hx (by rw [← ends]; exact List.getLast?_concat)
    refine ⟨fun l _ => iff_of_false (fun labelled => none ?_) nofun, iff_of_false none nofun⟩
    exact .trans (List.suffix_append (' ' :: l.toList) [':', ' ']) labelled
  | some field =>
    have word := h.field field hf
    refine ⟨fun l hl => ⟨?_, ?_⟩, iff_of_true ?_ rfl⟩
    · rintro ⟨t, ht⟩
      have cut : t ++ ' ' :: l.toList = x ++ ' ' :: field.toList :=
        (List.append_left_inj [':', ' ']).mp (by simpa using ht)
      have same : l.toList = field.toList :=
        last_blank (fun mem => hl _ mem (by decide)) (fun mem => word _ mem (by decide)) cut
      rw [String.toList_inj.mp same]
    · intro same
      cases same
      exact List.suffix_append x _
    · exact ⟨x ++ ' ' :: field.toList, by simp⟩

/-- What is spelled before a node does not end in a colon. -/
theorem InWords.getLast?_ne (h : c.InWords) (words : Mark.InWords ms) :
    ('(' :: (c.body ++ ms.flatMap Mark.spell)).getLast? ≠ some ':' := by
  have ending {c : Caption} (h : c.InWords) (x : List Char) :
      (x ++ '(' :: c.body).getLast? ≠ some ':' := by
    intro last
    rw [List.getLast?_append_cons] at last
    obtain bad | mem := List.mem_cons.mp (List.mem_of_getLast? last)
    · exact absurd bad (by decide)
    · exact h.notMem_body (.inr rfl) mem
  obtain rfl | ⟨ms, m, rfl⟩ := List.eq_nil_or_concat ms
  · simpa using ending h []
  · rw [List.concat_eq_append, List.flatMap_append, List.flatMap_singleton]
    cases m with
    | closing =>
      rw [← List.append_assoc, ← List.cons_append, Mark.spell, List.getLast?_concat]
      decide
    | opening c' =>
      rw [List.concat_eq_append, Mark.inWords_append, Mark.inWords_opening] at words
      have last := ending words.2.1 ('(' :: (c.body ++ (ms.flatMap Mark.spell ++ ' ' :: c'.label)))
      simpa [Mark.spell] using last

variable {isRoot : Prop}

/-- **The root** has nothing before it. -/
theorem InWords.standsBetween_root (h : c.InWords) (words : Mark.InWords ms)
    (closed : c.missing = false → ms ≠ []) (root : isRoot) :
    c.StandsBetween isRoot [] (c.body ++ ms.flatMap Mark.spell) where
  kind := (h.behind words closed).1
  missing := (h.behind words closed).2
  label l _ := iff_of_false (fun labelled => by simp at labelled) fun other => other.1 root
  labelled := iff_of_false (fun labelled => by simp at labelled) fun other => other.1 root

/-- **Any other node** has its label before it. -/
theorem InWords.standsBetween (h : c.InWords) (words : Mark.InWords ms)
    (closed : c.missing = false → ms ≠ []) {x : List Char} (hx : x.getLast? ≠ some ':')
    (other : ¬isRoot) :
    c.StandsBetween isRoot (x ++ ' ' :: c.label) (c.body ++ ms.flatMap Mark.spell) where
  kind := (h.behind words closed).1
  missing := (h.behind words closed).2
  label l hl := ((h.before hx).1 l hl).trans (iff_and_self.mpr fun _ => other)
  labelled := (h.before hx).2.trans (iff_and_self.mpr fun _ => other)

/-- **Where a node stands** in the text of a root and the marks inside it. -/
theorem InWords.exists_standsBetween {root : Caption} (hroot : root.InWords)
    (words : Mark.InWords ms)
    (closed : ∀ before after c, ms = before ++ .opening c :: after → after ≠ []) {k : Nat}
    (h : (ms.filterMap Mark.caption?)[k]? = some c) (other : ¬isRoot) :
    ∃ before after, '(' :: (root.body ++ ms.flatMap Mark.spell) = before ++ '(' :: after ∧
      before.count '(' = k + 1 ∧ c.StandsBetween isRoot before after := by
  obtain ⟨earlier, later, rfl, hk⟩ := Mark.exists_split h
  have later_ne := closed earlier later c rfl
  rw [Mark.inWords_append, Mark.inWords_opening] at words
  obtain ⟨hearlier, own, hlater⟩ := words
  refine ⟨'(' :: (root.body ++ earlier.flatMap Mark.spell) ++ ' ' :: c.label,
    c.body ++ later.flatMap Mark.spell, by simp [Mark.spell], ?_,
    own.standsBetween hlater (fun _ => later_ne) (hroot.getLast?_ne hearlier) other⟩
  rw [List.count_append, List.count_cons_self, List.count_append, Mark.count_spell hearlier, hk,
    List.count_cons_of_ne (by decide), List.count_eq_zero_of_not_mem own.bare_label.1,
    List.count_eq_zero_of_not_mem (hroot.notMem_body (.inl rfl))]
  omega

end Caption

namespace Arena

variable {a : Arena} {grammar : String} {script : List Call}

/-- **The nodes that are shown**: the root, and then all others that are named, in the order
of the arena. -/
def shown (a : Arena) : List Entry := a.entries.take 1 ++ (a.entries.drop 1).filter (·.named)

/-- The captions of an arena are in words if those of the calls are. -/
theorem inWords_of_build (built : build grammar script = .ok a)
    (words : ∀ c ∈ script, ∀ e ∈ c.entry?, e.caption.InWords) :
    ∀ e ∈ a.entries, e.caption.InWords := by
  intro e he
  have bare := map_bare_build built
  have mem : e.bare ∈ (script.filterMap Call.entry?).map Entry.bare := by
    rw [← bare]
    exact List.mem_map_of_mem he
  obtain ⟨e', he', same⟩ := List.mem_map.mp mem
  obtain ⟨c, hc, hce⟩ := List.mem_filterMap.mp he'
  have caption : e'.bare.caption = e.bare.caption := congrArg Entry.caption same
  exact Eq.subst (motive := Caption.InWords) caption (words c hc e' hce)

/-- **No named node is lost** from the text of a tree, if kinds and labels are words. The text
is balanced, and it has one parenthesis that opens for every node that is shown. In the order
of the arena, each of them stands between the label of its node and the kind. -/
theorem sexp_shows_all (built : build grammar script = .ok a) (nonempty : a.entries ≠ [])
    (words : ∀ c ∈ script, ∀ e ∈ c.entry?, e.caption.InWords) :
    Balanced a.sexp.toList ∧
    a.sexp.toList.count '(' = a.shown.length ∧
    ∀ i e, a.shown[i]? = some e → ∃ before after,
      a.sexp.toList = before ++ '(' :: after ∧ before.count '(' = i ∧
        e.caption.StandsBetween (i = 0) before after := by
  obtain ⟨root, others, forest, laid, empty, captions, text⟩ := exists_marks built nonempty
  have all := inWords_of_build built words
  rw [laid, List.forall_mem_cons] at all
  obtain ⟨hroot, hothers⟩ := all
  have shown : a.shown = root :: others.filter (·.named) := by rw [Arena.shown, laid]; rfl
  have hmarks : Mark.InWords forest.marks := by
    unfold Mark.InWords
    rw [captions, List.forall_mem_map]
    exact fun e he => hothers e (List.mem_of_mem_filter he)
  let ms := forest.marks ++ Mark.close root.missing
  have hms : Mark.InWords ms := Mark.inWords_append.mpr ⟨hmarks, Mark.inWords_close _⟩
  have opened : ms.filterMap Mark.caption? = (others.filter (·.named)).map Entry.caption := by
    rw [List.filterMap_append, Mark.filterMap_close, List.append_nil, captions]
  rw [shown, text]
  refine ⟨Mark.balanced_body hroot (forest.balanced_marks hmarks) empty, ?_, fun i e he => ?_⟩
  · rw [List.count_cons_self, List.count_append, Mark.count_spell hms, opened,
      List.count_eq_zero_of_not_mem (hroot.notMem_body (.inl rfl)), List.length_map, Nat.zero_add,
      List.length_cons]
  · cases i with
    | zero =>
      cases he
      refine ⟨[], _, rfl, rfl, hroot.standsBetween_root hms (fun present => ?_) rfl⟩
      rw [show root.missing = false from present]
      exact List.append_ne_nil_of_right_ne_nil _ (List.cons_ne_nil _ _)
    | succ k =>
      refine hroot.exists_standsBetween hms (fun _ _ _ => Mark.ne_nil_of_close empty) ?_
        (Nat.succ_ne_zero k)
      rw [opened, List.getElem?_map, show (others.filter (·.named))[k]? = some e from he]
      rfl

/-- A tree with a label at its root, a kind and a label that are spelled like the word for
a node that the source lacks, such a node, and punctuation. -/
def lookalike : List Call :=
  [.enter (some "top") "r" 0, .enter none "MISSING" 0, .leaf (some "MISSING") "k" 0 1,
    .anonymous "," 1 2, .leave 2, .missing "k" 2, .leave 2]

-- The first `MISSING` is a kind, the second a label, and only the third tells of a node that is
-- not there.
theorem sexp_shows_all_lookalike :
    ∃ a, build "test" lookalike = .ok a ∧
      a.sexp = "(r (MISSING MISSING: (k)) (MISSING k))" ∧
      Balanced a.sexp.toList ∧ a.sexp.toList.count '(' = 4 ∧
      (∃ before after, a.sexp.toList = before ++ '(' :: after ∧ before.count '(' = 1 ∧
        ¬"MISSING MISSING)".toList <+: after) ∧
      ∃ before after, a.sexp.toList = before ++ '(' :: after ∧ before.count '(' = 2 ∧
        " MISSING: ".toList <:+ before := by
  obtain ⟨a, built⟩ : ∃ a, build "test" lookalike = .ok a := ⟨_, rfl⟩
  have words : ∀ c ∈ lookalike, ∀ e ∈ c.entry?, e.caption.InWords := by decide
  have shows := @sexp_shows_all a "test" lookalike built
  cases built
  obtain ⟨balanced, count, stands⟩ := shows (by decide) words
  obtain ⟨before, after, text, place, node⟩ := stands 1 _ rfl
  obtain ⟨before', after', text', place', node'⟩ := stands 2 _ rfl
  refine ⟨_, rfl, rfl, balanced, count, ⟨before, after, text, place, ?_⟩,
    before', after', text', place', ?_⟩
  · exact mt node.missing.mp (by decide)
  · exact (node'.label "MISSING" (by decide)).mpr ⟨by decide, rfl⟩

end Arena

end TreeBroker
