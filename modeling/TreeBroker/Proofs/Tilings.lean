import TreeBroker.Proofs.Forests
import TreeBroker.Proofs.GrammarNodes
import TreeBroker.Proofs.Utf8Places
import TreeBroker.Text.WhiteSpace

/-!
# Forests that tile a text

A forest *tiles* a text if the nodes take the text to pieces: each leaf takes the piece
that stands before what is left, a node takes the piece that its children tile, and all
that may be passed over is white space. That is one relation between a text and a forest
(`Forest.Tiles`), and everything that is asked of spans is in it. Pieces are lists of
characters, so no span begins or ends inside a character; they follow one another, so
spans of siblings do not overlap; a node's piece is the text of its children, so they lie
inside it; and nothing but white space is passed over, so each other character is in the
piece of exactly one leaf.

The relation speaks of forests, where a node stands before what follows it. The last
section says the same of the nodes of a tree whose arena is laid out by the forest
(`Tree.Faithful`).
-/

namespace TreeBroker

open Utf8 Entry

namespace Forest

/-- **A forest tiles a text** that begins at an offset. -/
inductive Tiles : Nat → List Char → Forest → Prop
  /-- Nothing is left. -/
  | nil (o : Nat) : Tiles o [] .nil
  /-- White space is passed over. -/
  | skip {o : Nat} {c : Char} {cs : List Char} {forest : Forest}
      (white : Text.isWhiteSpace c = true) (rest : Tiles (o + c.utf8Size) cs forest) :
      Tiles o (c :: cs) forest
  /-- A leaf takes a piece, which may be empty. -/
  | leaf {o : Nat} {piece cs : List Char} {t : Token} {forest : Forest}
      (start : t.entry.start = o) (stop : t.entry.stop = o + length piece)
      (rest : Tiles (o + length piece) cs forest) : Tiles o (piece ++ cs) (.leaf t forest)
  /-- A node takes what its children tile. -/
  | node {o : Nat} {piece cs : List Char} {children forest : Forest} (field : Option String)
      (kind : String) (inside : Tiles o piece children)
      (rest : Tiles (o + length piece) cs forest) :
      Tiles o (piece ++ cs) (.node field kind o (o + length piece) children forest)

variable {o : Nat} {cs ds : List Char} {forest other : Forest}

namespace Tiles

theorem append (h : Tiles o cs forest) (h' : Tiles (o + length cs) ds other) :
    Tiles o (cs ++ ds) (forest.append other) := by
  induction h with
  | nil o => exact h'
  | skip white _ ih => exact .skip white (ih (by simpa [Nat.add_assoc] using h'))
  | leaf start stop _ ih =>
    rw [List.append_assoc]
    exact .leaf start stop (ih (by simpa [Nat.add_assoc] using h'))
  | node field kind inside _ _ ih =>
    rw [List.append_assoc]
    exact .node field kind inside (ih (by simpa [Nat.add_assoc] using h'))

/-- White space before a text is passed over. -/
theorem skips {blanks : List Char} (white : ∀ c ∈ blanks, Text.isWhiteSpace c = true)
    (h : Tiles (o + length blanks) cs forest) : Tiles o (blanks ++ cs) forest := by
  induction blanks generalizing o with
  | nil => exact h
  | cons c blanks ih =>
    obtain ⟨hc, hblanks⟩ := List.forall_mem_cons.mp white
    exact .skip hc (ih hblanks (by simpa [Nat.add_assoc] using h))

/-! ## Pieces -/

/-- **A span of a text**: what lies between two of its places. -/
def Spans (o : Nat) (cs : List Char) (start stop : Nat) : Prop :=
  ∃ before within after, cs = before ++ within ++ after ∧ start = o + length before ∧
    stop = start + length within

theorem Spans.bounds {start stop : Nat} (h : Spans o cs start stop) :
    o ≤ start ∧ start ≤ stop ∧ stop ≤ o + length cs := by
  obtain ⟨before, within, after, rfl, rfl, rfl⟩ := h
  simp only [length_append]
  omega

theorem Spans.behind {start stop : Nat} (h : Spans (o + length cs) ds start stop) :
    Spans o (cs ++ ds) start stop := by
  obtain ⟨before, within, after, rfl, rfl, rfl⟩ := h
  exact ⟨cs ++ before, within, after, by simp, by simp [Nat.add_assoc], rfl⟩

theorem Spans.before {start stop : Nat} (h : Spans o cs start stop) (ds : List Char) :
    Spans o (cs ++ ds) start stop := by
  obtain ⟨before, within, after, rfl, rfl, rfl⟩ := h
  exact ⟨before, within, after ++ ds, by simp, rfl, rfl⟩

/-- **Every node spans a piece of the text.** -/
theorem spans (h : Tiles o cs forest) (parent : Option Nat) (i : Nat) :
    ∀ e ∈ forest.entries true parent i, Spans o cs e.start e.stop := by
  induction h generalizing parent i with
  | nil o => exact nofun
  | @skip o c cs forest _ _ ih =>
    intro e he
    rw [← List.singleton_append]
    exact (ih parent i e he).behind
  | @leaf o piece cs t forest start stop _ ih =>
    intro e he
    rw [entries, List.mem_cons] at he
    obtain rfl | he := he
    · exact ⟨[], piece, cs, by simp, start, by rw [stop_below, start_below, start, stop]⟩
    · exact (ih parent (i + 1) e he).behind
  | @node o piece cs children forest field kind _ _ ihc ihr =>
    intro e he
    rw [entries, List.mem_cons, List.mem_append] at he
    obtain rfl | he | he := he
    · exact ⟨[], piece, cs, by simp, rfl, rfl⟩
    · exact (ihc (some i) (i + 1) e he).before cs
    · exact (ihr parent _ e he).behind

/-! ## Leaves -/

/-- A leaf that takes the bytes from an offset on. -/
def covers (offset bytes : Nat) (e : Entry) : Bool :=
  e.children.isEmpty && decide (e.start ≤ offset) && decide (offset + bytes ≤ e.stop)

theorem covers_eq_false {offset bytes : Nat} {e : Entry} (pos : 0 < bytes)
    (outside : e.stop ≤ offset ∨ offset + bytes ≤ e.start) : covers offset bytes e = false := by
  simp only [covers, Bool.and_eq_false_iff, decide_eq_false_iff_not]
  omega

/-- The ways to find a character in a text of two parts. -/
theorem split_append {before after : List Char} {c : Char} (h : cs ++ ds = before ++ c :: after) :
    (∃ rest, cs = before ++ c :: rest) ∨ ∃ more, before = cs ++ more ∧ ds = more ++ c :: after := by
  obtain ⟨more, rfl, hd⟩ | ⟨rest, rfl, hr⟩ := List.append_eq_append_iff.mp h
  · exact .inr ⟨more, rfl, hd⟩
  · cases rest with
    | nil => exact .inr ⟨[], by simp, by simpa using hr.symm⟩
    | cons c' rest =>
      cases hr
      exact .inl ⟨rest, rfl⟩

theorem roots_ne_nil {i : Nat} (h : forest ≠ .nil) : forest.roots i ≠ [] := by
  cases forest with
  | nil => exact absurd rfl h
  | leaf t rest => exact List.cons_ne_nil _ _
  | node field kind start stop children rest => exact List.cons_ne_nil _ _

/-- **Each character that is no white space is in one leaf**, and in no other. -/
theorem countP_covers (h : Tiles o cs forest) (parent : Option Nat) (i : Nat)
    {before after : List Char} {c : Char} (hs : cs = before ++ c :: after)
    (black : Text.isWhiteSpace c = false) :
    (forest.entries true parent i).countP (covers (o + length before) c.utf8Size) = 1 := by
  have pos : 0 < c.utf8Size := c.utf8Size_pos
  -- No entry covers the character from outside the text that holds it.
  have outside {o' : Nat} {cs' : List Char} {forest' : Forest} (h : Tiles o' cs' forest')
      (parent : Option Nat) (i : Nat) {offset : Nat}
      (far : o' + length cs' ≤ offset ∨ offset + c.utf8Size ≤ o') :
      (forest'.entries true parent i).countP (covers offset c.utf8Size) = 0 := by
    rw [List.countP_eq_zero]
    intro e he
    obtain ⟨low, mid, high⟩ := (h.spans parent i e he).bounds
    rw [covers_eq_false pos (by omega)]
    exact Bool.false_ne_true
  induction h generalizing parent i before after with
  | nil o => simp at hs
  | @skip o c' cs forest white _ ih =>
    cases before with
    | nil =>
      cases hs
      rw [white] at black
      cases black
    | cons b before =>
      cases hs
      rw [length_cons, ← Nat.add_assoc]
      exact ih parent i rfl
  | @leaf o piece cs t forest start stop rest ih =>
    rw [entries]
    obtain ⟨more, rfl⟩ | ⟨more, rfl, rfl⟩ := split_append hs
    · have own : covers (o + length before) c.utf8Size (t.entry.below parent) = true := by
        simp [covers, start, stop, t.links_entry.2]
        omega
      rw [List.countP_cons_of_pos own, outside rest _ _ (.inr ?_)]
      simp only [length_append, length_cons]
      omega
    · rw [List.countP_cons_of_neg, length_append, ← Nat.add_assoc, ih parent (i + 1) rfl]
      rw [covers_eq_false pos (.inl ?_)]
      · exact Bool.false_ne_true
      · show t.entry.stop ≤ _
        rw [stop, length_append]
        omega
  | @node o piece cs children forest field kind inside rest ihc ihr =>
    rw [entries]
    obtain ⟨more, rfl⟩ | ⟨more, rfl, rfl⟩ := split_append hs
    · -- The children hold the character, so there are some, and the node is no leaf.
      have within := ihc (some i) (i + 1) rfl
      have some_child : children.roots (i + 1) ≠ [] := by
        refine roots_ne_nil ?_
        rintro rfl
        simp [entries] at within
      rw [List.countP_cons_of_neg, List.countP_append, within, outside rest _ _ (.inr ?_)]
      · simp only [length_append, length_cons]
        omega
      · simp [covers, some_child]
    · rw [List.countP_cons_of_neg, List.countP_append, outside inside _ _ (.inl ?_),
        length_append, ← Nat.add_assoc, ihr parent _ rfl]
      · rw [length_append]
        omega
      · rw [covers_eq_false pos (.inl ?_)]
        · exact Bool.false_ne_true
        · show o + length piece ≤ _
          rw [length_append]
          omega

/-! ## Siblings -/

/-- **Nodes in line** between two offsets: each ends before the next begins. -/
structure InLine (low high : Nat) (ns : List Node) : Prop where
  /-- Each ends before the next begins. -/
  chain : ns.IsChain fun m n => m.stop ≤ n.start
  /-- All lie between the offsets. -/
  bounds : ∀ n ∈ ns, low ≤ n.start ∧ n.stop ≤ high

theorem InLine.nil (low high : Nat) : InLine low high [] :=
  ⟨.nil, fun _ h => absurd h List.not_mem_nil⟩

theorem InLine.cons {low mid high : Nat} {n : Node} {ns : List Node} (start : n.start = low)
    (stop : n.stop = mid) (le : low ≤ mid) (le' : mid ≤ high) (h : InLine mid high ns) :
    InLine low high (n :: ns) where
  chain := by
    refine List.isChain_cons.mpr ⟨fun m hm => ?_, h.chain⟩
    rw [stop]
    exact (h.bounds m (List.mem_of_mem_head? hm)).1
  bounds := by
    refine List.forall_mem_cons.mpr ⟨by omega, fun m hm => ?_⟩
    obtain ⟨hlow, hhigh⟩ := h.bounds m hm
    omega

section Nodes

variable {t : Tree} {identity : Nat} {a : Arena} (native : t.native = .grammar identity a)
include native

/-- **The roots of a forest lie in the text**, one after another. -/
theorem inLine_roots (h : Tiles o cs forest) {parent : Option Nat} {i : Nat}
    (placed : Placed a parent i forest) :
    InLine o (o + length cs) ((forest.roots i).map t.node) := by
  induction h generalizing parent i with
  | nil o => exact .nil o _
  | skip white _ ih =>
    obtain ⟨chain, bounds⟩ := ih placed
    refine ⟨chain, fun n hn => ?_⟩
    obtain ⟨low, high⟩ := bounds n hn
    rw [length_cons]
    omega
  | @leaf o piece cs token forest start stop _ ih =>
    have first := placed.get?_leaf
    have start' : (t.node i).start = o := (Node.start_eq (n := t.node i) native first).trans start
    have stop' : (t.node i).stop = o + length piece :=
      (Node.stop_eq (n := t.node i) native first).trans stop
    rw [roots, List.map_cons, length_append, ← Nat.add_assoc]
    exact .cons start' stop' (Nat.le_add_right _ _) (Nat.le_add_right _ _) (ih placed.rest_leaf)
  | @node o piece cs children forest field kind _ _ _ ih =>
    have first := placed.get?_node
    have start' : (t.node i).start = o := Node.start_eq (n := t.node i) native first
    have stop' : (t.node i).stop = o + length piece := Node.stop_eq (n := t.node i) native first
    rw [roots, List.map_cons, length_append, ← Nat.add_assoc]
    exact .cons start' stop' (Nat.le_add_right _ _) (Nat.le_add_right _ _) (ih placed.inside.2)

/-- **The children of every node lie in it**, one after another. -/
theorem inLine_children (h : Tiles o cs forest) {parent : Option Nat} {i : Nat}
    (placed : Placed a parent i forest) :
    ∀ e ∈ forest.entries true parent i, InLine e.start e.stop (e.children.map t.node) := by
  induction h generalizing parent i with
  | nil o => exact nofun
  | skip _ _ ih => exact ih placed
  | @leaf o piece cs token forest _ _ _ ih =>
    intro e he
    rw [entries, List.mem_cons] at he
    obtain rfl | he := he
    · rw [children_below, token.links_entry.2]
      exact .nil _ _
    · exact ih placed.rest_leaf e he
  | @node o piece cs children forest field kind inside _ ihc ihr =>
    intro e he
    rw [entries, List.mem_cons, List.mem_append] at he
    obtain rfl | he | he := he
    · exact inLine_roots native inside placed.inside.1
    · exact ihc placed.inside.1 e he
    · exact ihr placed.inside.2 e he

end Nodes

end Tiles

end Forest

/-! ## Trees over a text -/

/-- **The text of a node that spans a piece** is that piece. -/
theorem Node.text_of_spans {n : Node} {identity : Nat} {a : Arena}
    (native : n.native = .grammar identity a) {before piece after : List Char}
    (source : n.tree.source.toList = before ++ piece ++ after) (start : n.start = length before)
    (stop : n.stop = length before + length piece) : n.text = String.ofList piece := by
  rw [text_eq native, start, stop]
  show display (slice (encode n.tree.source.toList) _ _) = _
  rw [source, display_slice]

/-- A node without children that takes the bytes from an offset on. -/
def Node.IsLeafOver (n : Node) (offset bytes : Nat) : Prop :=
  n.childCount = 0 ∧ n.start ≤ offset ∧ offset + bytes ≤ n.stop

/-- **A tree that is faithful to its source.** -/
structure Tree.Faithful (t : Tree) : Prop where
  /-- The root spans the source. -/
  root : ∃ n, t.root? = some n ∧ n.start = 0 ∧ n.stop = t.bytes.length
  /-- A node begins before it ends, and ends in the source. -/
  span : ∀ i < t.native.size, (t.node i).start ≤ (t.node i).stop ∧
    (t.node i).stop ≤ t.bytes.length
  /-- A child lies in its parent. -/
  child : ∀ i < t.native.size, ∀ n ∈ (t.node i).children,
    (t.node i).start ≤ n.start ∧ n.stop ≤ (t.node i).stop
  /-- A child ends before the next one begins. -/
  siblings : ∀ i < t.native.size, (t.node i).children.IsChain fun m n => m.stop ≤ n.start
  /-- A node begins and ends at a place of the source, and its text is what lies between. -/
  text : ∀ i < t.native.size, ∃ before within after,
    t.source.toList = before ++ within ++ after ∧ (t.node i).start = length before ∧
      (t.node i).stop = length (before ++ within) ∧ (t.node i).text = String.ofList within
  /-- Each character that is no white space is in the span of one leaf. -/
  leaf : ∀ before c after, t.source.toList = before ++ c :: after →
    Text.isWhiteSpace c = false →
      ∃! i, i < t.native.size ∧ (t.node i).IsLeafOver (length before) c.utf8Size

/-- One entry that passes a test is at one place. -/
theorem Entry.existsUnique_of_countP {es : List Entry} {test : Entry → Bool}
    (h : es.countP test = 1) : ∃! i : Nat, ∃ e, es[i]? = some e ∧ test e = true := by
  induction es with
  | nil => cases h
  | cons e es ih =>
    cases he : test e with
    | true =>
      rw [List.countP_cons_of_pos he, Nat.add_eq_right, List.countP_eq_zero] at h
      refine ⟨0, ⟨e, rfl, he⟩, ?_⟩
      rintro (_ | i) ⟨e', hi, he'⟩
      · rfl
      · exact absurd he' (h e' (List.mem_of_getElem? hi))
    | false =>
      rw [List.countP_cons_of_neg (by simp [he])] at h
      obtain ⟨i, hi, only⟩ := ih h
      refine ⟨i + 1, hi, ?_⟩
      rintro (_ | j) ⟨e', hj, he'⟩
      · cases hj
        rw [he] at he'
        cases he'
      · exact congrArg (· + 1) (only j ⟨e', hj, he'⟩)

namespace Tree

open Forest

variable {t : Tree} {identity : Nat} {a : Arena} {forest : Forest}

theorem root?_eq (native : t.native = .grammar identity a) {e : Entry} (h : a.get? 0 = some e) :
    t.root? = some (t.node 0) := by
  have nonempty : a.entries.length ≠ 0 := by
    intro empty
    rw [Arena.get?, List.getElem?_eq_none (Nat.le_of_eq empty)] at h
    cases h
  unfold root? NativeTree.root?
  rw [native]
  show Option.map _ (if a.entries.length = 0 then _ else _) = _
  rw [if_neg nonempty]
  rfl

section Laid

variable (native : t.native = .grammar identity a)
  (laid : a.entries = forest.entries true none 0) (tiles : Tiles 0 t.source.toList forest)

include native laid in
/-- The nodes of the tree are the entries of the layout. -/
theorem exists_entry {i : Nat} (hi : i < t.native.size) :
    ∃ e, a.get? i = some e ∧ e ∈ forest.entries true none 0 := by
  rw [native] at hi
  have he : a.entries[i]? = some a.entries[i] := List.getElem?_eq_getElem hi
  exact ⟨_, he, laid ▸ List.mem_of_getElem? he⟩

include native laid tiles

theorem spans_node {i : Nat} (hi : i < t.native.size) :
    Tiles.Spans 0 t.source.toList (t.node i).start (t.node i).stop := by
  obtain ⟨e, he, mem⟩ := exists_entry native laid hi
  rw [Node.start_eq (n := t.node i) native he, Node.stop_eq (n := t.node i) native he]
  exact tiles.spans none 0 e mem

theorem inLine_node {i : Nat} (hi : i < t.native.size) :
    Tiles.InLine (t.node i).start (t.node i).stop (t.node i).children := by
  obtain ⟨e, he, mem⟩ := exists_entry native laid hi
  rw [Node.start_eq (n := t.node i) native he, Node.stop_eq (n := t.node i) native he,
    Node.children_eq (n := t.node i) native]
  have children : a.children i = e.children := by simp [Arena.children, he]
  show Tiles.InLine _ _ ((a.children i).map t.node)
  rw [children]
  exact tiles.inLine_children native (.whole laid) e mem

theorem existsUnique_leaf {before after : List Char} {c : Char}
    (hs : t.source.toList = before ++ c :: after) (black : Text.isWhiteSpace c = false) :
    ∃! i, i < t.native.size ∧ (t.node i).IsLeafOver (length before) c.utf8Size := by
  have one := tiles.countP_covers none 0 hs black
  rw [← laid, Nat.zero_add] at one
  have same {i : Nat} : (∃ e, a.entries[i]? = some e ∧
        Tiles.covers (length before) c.utf8Size e = true) ↔
      i < t.native.size ∧ (t.node i).IsLeafOver (length before) c.utf8Size := by
    have count (e : Entry) (he : a.get? i = some e) :
        Tiles.covers (length before) c.utf8Size e = true ↔
          (t.node i).IsLeafOver (length before) c.utf8Size := by
      unfold Node.IsLeafOver
      rw [Node.start_eq (n := t.node i) native he, Node.stop_eq (n := t.node i) native he,
        Node.childCount_eq (n := t.node i) native]
      show _ ↔ (a.children i).length = 0 ∧ _
      simp [Tiles.covers, Arena.children, he, and_assoc]
    constructor
    · rintro ⟨e, he, hc⟩
      exact ⟨native ▸ (List.getElem?_eq_some_iff.mp he).1, (count e he).mp hc⟩
    · rintro ⟨hi, hl⟩
      obtain ⟨e, he, -⟩ := exists_entry native laid hi
      exact ⟨e, he, (count e he).mpr hl⟩
  simpa only [same] using Entry.existsUnique_of_countP one

end Laid

/-- **A tree laid out by a forest that tiles its source is faithful to it.** -/
theorem faithful_of_tiles {field : Option String} {kind : String}
    (native : t.native = .grammar identity a)
    (laid : a.entries = (Forest.node field kind 0 (length t.source.toList) forest .nil).entries
      true none 0)
    (tiles : Tiles 0 t.source.toList forest) : t.Faithful := by
  have whole := Tiles.node field kind tiles (.nil _)
  rw [List.append_nil, Nat.zero_add] at whole
  have bytes : t.bytes.length = length t.source.toList := length_encode _
  have root := (Placed.whole laid).get?_node
  refine ⟨⟨t.node 0, root?_eq native root, ?_, ?_⟩, fun i hi => ?_, fun i hi => ?_, fun i hi => ?_,
    fun i hi => ?_, fun before c after hs black => existsUnique_leaf native laid whole hs black⟩
  · exact Node.start_eq (n := t.node 0) native root
  · rw [bytes]
    exact Node.stop_eq (n := t.node 0) native root
  · obtain ⟨-, le, le'⟩ := (spans_node native laid whole hi).bounds
    rw [bytes]
    omega
  · exact (inLine_node native laid whole hi).bounds
  · exact (inLine_node native laid whole hi).chain
  · obtain ⟨before, within, after, hs, start, stop⟩ := spans_node native laid whole hi
    rw [Nat.zero_add] at start
    rw [start] at stop
    exact ⟨before, within, after, hs, start, stop.trans (length_append before within).symm,
      Node.text_of_spans (n := t.node i) native hs start stop⟩

end Tree

end TreeBroker
