import Mathlib
import TreeBroker.Proofs.DocumentLines

/-!
# Written documents are read back

A document is refused when it holds a character that may not stand in one, so it has to be seen
that the printer escapes all of these (`allowed_entryLines`). What is left is to read the tokens
as nodes. The reader has the structure of a grammar, with a bound on its depth that is made from
the number of tokens, and the statement about a value (`ReadsBack`) asks for no more steps than
the value has tokens.

The items of a sequence stand at the indentation of the mapping that holds it, so that no token
ends them. They end where the next token is not an item, which is what a value needs to know of
the tokens behind it.
-/

namespace TreeBroker.Yaml

/-! ## Characters -/

/-- A text that a document may hold. -/
def Allowed (cs : List Char) : Prop := ∀ c ∈ cs, isAllowed c = true

theorem Allowed.append {cs ds : List Char} (hc : Allowed cs) (hd : Allowed ds) :
    Allowed (cs ++ ds) := List.forall_mem_append.mpr ⟨hc, hd⟩

theorem Allowed.cons {c : Char} {cs : List Char} (hc : isAllowed c = true) (hcs : Allowed cs) :
    Allowed (c :: cs) := List.forall_mem_cons.mpr ⟨hc, hcs⟩

theorem Allowed.nil : Allowed [] := nofun

theorem allowed_blanks (n : Nat) : Allowed (blanks n) := by
  intro c hc
  rw [List.eq_of_mem_replicate hc]
  rfl

theorem isAllowed_of_isPrintable {c : Char} (h : isPrintable c = true) : isAllowed c = true := by
  simp only [isPrintable, isAllowed, Bool.or_eq_true, Bool.and_eq_true, beq_iff_eq, bne_iff_ne,
    decide_eq_true_eq] at h ⊢
  omega

theorem allowed_of_printable {cs : List Char} (h : ∀ c ∈ cs, isPrintable c = true) :
    Allowed cs := fun c hc => isAllowed_of_isPrintable (h c hc)

theorem allowed_indented {cs : List Char} (h : Allowed cs) (width : Nat) (afterBreak : Bool) :
    Allowed (indented width afterBreak cs) := by
  induction cs generalizing afterBreak with
  | nil => exact h
  | cons c cs ih =>
    obtain ⟨hc, hcs⟩ := List.forall_mem_cons.mp h
    rw [indented]
    split
    · exact .cons hc (ih hcs true)
    · split
      · exact (allowed_blanks width).append (.cons hc (ih hcs false))
      · exact .cons hc (ih hcs false)

theorem isAllowed_digitChar : ∀ d < 16, isAllowed d.digitChar.toUpper = true := by
  decide

theorem allowed_toDigits (n : Nat) : Allowed ((Nat.toDigits 16 n).map Char.toUpper) := by
  induction n using Nat.strong_induction_on with
  | _ n ih =>
    rw [Nat.toDigits_eq_if (by decide)]
    split
    · next small => exact .cons (isAllowed_digitChar n small) .nil
    · next large =>
      rw [List.map_append]
      exact (ih (n / 16) (by omega)).append
        (.cons (isAllowed_digitChar (n % 16) (Nat.mod_lt _ (by decide))) .nil)

theorem allowed_hexDigits (width n : Nat) : Allowed (hexDigits width n) := by
  refine Allowed.append (fun c hc => ?_) (allowed_toDigits n)
  rw [List.eq_of_mem_replicate hc]
  rfl

theorem allowed_escape (c : Char) : Allowed (escape c) := by
  unfold escape
  iterate 15 refine iteInduction (fun _ => .cons rfl .nil) fun _ => ?_
  refine iteInduction (fun _ => ?_) fun _ => iteInduction (fun _ => ?_) fun _ => ?_
  · exact .cons rfl (allowed_hexDigits 2 _)
  · exact .cons rfl (allowed_hexDigits 4 _)
  · exact .cons rfl (allowed_hexDigits 8 _)

theorem allowed_single {cs : List Char} (h : Allowed cs) (width : Nat) :
    Allowed (single width cs) := by
  have doubled : Allowed (quotesDoubled cs) := by
    intro c hc
    obtain ⟨d, hd, hc⟩ := List.mem_flatMap.mp hc
    split at hc
    · simp only [List.mem_cons, List.not_mem_nil, or_false, or_self] at hc
      rw [hc]
      rfl
    · rw [List.mem_singleton.mp hc]
      exact h d hd
  rw [single_eq, insideSingle]
  refine .cons rfl (((allowed_indented doubled width false).append ?_).append (.cons rfl .nil))
  split
  · exact allowed_blanks width
  · exact .nil

theorem allowed_double (cs : List Char) : Allowed (double cs) := by
  rw [double_eq]
  refine .cons rfl (Allowed.append (fun c hc => ?_) (.cons rfl .nil))
  obtain ⟨d, -, hc⟩ := List.mem_flatMap.mp hc
  split at hc
  · exact Allowed.cons rfl (allowed_escape d) c hc
  · next plain =>
    simp only [Bool.or_eq_true, Bool.not_eq_true', not_or, Bool.not_eq_false] at plain
    rw [List.mem_singleton.mp hc]
    exact isAllowed_of_isPrintable plain.1.1.1

theorem allowed_blockMarks (cs : List Char) : Allowed (blockMarks cs) := by
  rw [blockMarks_eq]
  refine Allowed.append ?_ ?_
  · rw [widthMark]
    split
    · exact .cons rfl .nil
    · exact .nil
  · cases Chomping.ofText cs
    · exact .cons rfl .nil
    · exact .nil
    · exact .cons rfl .nil

/-- **A scalar is written in characters that a document may hold.** -/
theorem allowed_scalarLine {s : String} {style : ScalarStyle} (fits : Lexer.Fits s style)
    (w : Nat) : Allowed (scalarLine w s style) := by
  have newline : Allowed ['\n'] := .cons rfl .nil
  cases style with
  | plain =>
    obtain ⟨single, -⟩ := fitsPlain_iff.mp fits.2
    rw [scalarLine]
    exact (allowed_of_printable (fitsSingle_iff.mp single).1.printable).append newline
  | quoted =>
    rw [scalarLine]
    split
    · next fits =>
      rw [Bool.and_eq_true, fitsSingle_iff] at fits
      exact (allowed_single (allowed_of_printable fits.2.1.printable) _).append newline
    · exact (allowed_double _).append newline
  | literal =>
    have shown := allowed_of_printable (fitsBlock_iff.mp fits).2.1.printable
    rw [scalarLine, literal]
    refine Allowed.append (.cons rfl ((allowed_blockMarks _).append
      (.cons rfl (allowed_indented shown _ _)))) ?_
    split
    · exact .nil
    · exact newline

theorem allowed_of_isKey {cs : List Char} (h : isKey cs = true) : Allowed cs := by
  intro c hc
  obtain ⟨-, letters, -⟩ := isKey_iff.mp h
  obtain lower | rfl := letters c hc
  · have := Ascii.isLower_iff.mp lower
    simp only [isAllowed, Bool.or_eq_true, Bool.and_eq_true, beq_iff_eq, decide_eq_true_eq]
    omega
  · rfl

theorem allowed_itemLines {ns : List Node}
    (fit : ∀ n ∈ ns, ∃ s style, n = .scalar s style none ∧ Lexer.Fits s style) (w : Nat) :
    Allowed (itemLines w ns) := by
  induction ns with
  | nil =>
    rw [itemLines]
    exact .nil
  | cons n ns ih =>
    rw [List.forall_mem_cons] at fit
    obtain ⟨⟨s, style, rfl, fits⟩, fit⟩ := fit
    rw [itemLines, valueLines]
    exact ((allowed_blanks w).append (.cons rfl (.cons rfl (allowed_scalarLine fits w)))).append
      (ih fit)

/-- **A document is written in characters that a document may hold.** -/
theorem allowed_entryLines {es : List (Node × Node)} (written : Writable es) (w : Nat) :
    Allowed (entryLines w es) := by
  have entry {key : String} {v : Node} {es : List (Node × Node)} (hk : isKey key.toList = true)
      (w : Nat) (hv : Allowed (valueLines w v)) (hes : Allowed (entryLines w es)) :
      Allowed (entryLines w ((.scalar key .plain none, v) :: es)) := by
    rw [entryLines]
    exact (((allowed_blanks w).append (allowed_of_isKey hk)).append (.cons rfl hv)).append hes
  induction written generalizing w with
  | nil =>
    rw [entryLines]
    exact .nil
  | scalar hk fits _ ih =>
    refine entry hk w ?_ (ih w)
    rw [valueLines]
    exact .cons rfl (allowed_scalarLine fits w)
  | @sequence key ns es hk fit _ ih =>
    refine entry hk w ?_ (ih w)
    cases ns with
    | nil =>
      rw [valueLines]
      exact .cons rfl (.cons rfl (.cons rfl (.cons rfl .nil)))
    | cons n ns =>
      rw [valueLines]
      exact .cons rfl (allowed_itemLines fit w)
  | mapping hk _ _ ihInner ih =>
    refine entry hk w ?_ (ih w)
    rw [valueLines]
    exact .cons rfl (ihInner (w + 2))

theorem tokens_entryLines {e : Node × Node} {es : List (Node × Node)}
    (written : Writable (e :: es)) :
    tokens (entryLines 0 (e :: es)) =
      some (.blockMappingStart :: entryTokens (e :: es) ++ [.blockEnd]) := by
  obtain ⟨l, run, tokens⟩ := Lexer.run_entryLines written
  have allowed := allowed_entryLines written 0
  rw [Yaml.tokens, if_pos (List.all_eq_true.mpr allowed), run, Option.map_some, tokens]

/-! ## Nodes -/

section Nodes

variable {s : ReadState} {ts : List Token} {fuel : Nat}

theorem ReadState.peek_cons (t : Token) : { s with tokens := t :: ts }.peek = some t := rfl

theorem ReadState.advance_cons (t : Token) :
    { s with tokens := t :: ts }.advance = { s with tokens := ts } := rfl

theorem ReadState.nextIs_cons (t : Token) (us : List Token) :
    { s with tokens := t :: ts }.nextIs us = us.contains t := rfl

theorem readNode_scalar (block indentless : Bool) (text : String) (style : ScalarStyle) :
    readNode (fuel + 1) block indentless { s with tokens := .scalar text style :: ts } =
      some (.scalar text style none, { s with tokens := ts }) := by
  rw [readNode]
  rfl

/-- **The scalars of a sequence are read.** -/
theorem readIndentless_items {ns acc : List Node}
    (fit : ∀ n ∈ ns, ∃ s style, n = .scalar s style none ∧ Lexer.Fits s style)
    (stop : ts.head? ≠ some .blockEntry) (enough : ns.length < fuel) :
    readIndentless fuel acc { s with tokens := itemTokens ns ++ ts } =
      some (.sequence (acc ++ ns), { s with tokens := ts }) := by
  induction ns generalizing acc fuel with
  | nil =>
    obtain _ | fuel := fuel
    · cases enough
    · rw [readIndentless, itemTokens, List.nil_append, List.append_nil]
      split
      · next entry => exact absurd entry stop
      · rfl
  | cons n ns ih =>
    rw [List.forall_mem_cons] at fit
    obtain ⟨⟨text, style, rfl, -⟩, fit⟩ := fit
    obtain _ | _ | fuel := fuel
    · cases enough
    · simp at enough
    · have item : readIndentless (fuel + 2) acc
          { s with tokens := .blockEntry :: .scalar text style :: (itemTokens ns ++ ts) } =
          readIndentless (fuel + 1) (acc ++ [.scalar text style none])
            { s with tokens := itemTokens ns ++ ts } := by
        rw [readIndentless]
        dsimp only [ReadState.peek_cons, ReadState.advance_cons]
        rw [readNode_scalar]
        rfl
      rw [itemTokens, valueTokens]
      exact item.trans ((ih fit (Nat.lt_of_succ_lt_succ enough)).trans (by simp))

/-- **A value is read behind its colon**, as the node that its tokens stand for. -/
theorem readBlockValue_value {v : Node} {t : Token} {us : List Token}
    (head : ([.key, .value, .blockEnd] : List Token).contains t = false)
    (node : readNode fuel true true { s with tokens := t :: us } =
      some (v, { s with tokens := ts })) :
    readBlockValue (fuel + 1) { s with tokens := .value :: t :: us } =
      some (v, { s with tokens := ts }) := by
  rw [readBlockValue]
  dsimp only [ReadState.peek_cons, ReadState.advance_cons]
  rw [ReadState.nextIs_cons, head, if_neg Bool.false_ne_true, node]

/-- **An entry is read** and the entries behind it are next. -/
theorem readBlockEntries_entry {key : String} {v : Node} {us : List Token}
    {acc : List (Node × Node)}
    (value : readBlockValue (fuel + 1) { s with tokens := us } =
      some (v, { s with tokens := ts })) :
    readBlockEntries (fuel + 2) acc { s with tokens := .key :: .scalar key .plain :: us } =
      readBlockEntries (fuel + 1) (acc ++ [(.scalar key .plain none, v)])
        { s with tokens := ts } := by
  rw [readBlockEntries]
  dsimp only [ReadState.peek_cons, ReadState.advance_cons]
  rw [readNode_scalar, ReadState.nextIs_cons,
    show ([.key, .value, .blockEnd] : List Token).contains (.scalar key .plain) = false from rfl,
    if_neg Bool.false_ne_true]
  dsimp only
  rw [value]

theorem head_entryTokens {es : List (Node × Node)} (ts : List Token) :
    (entryTokens es ++ .blockEnd :: ts).head? ≠ some .blockEntry := by
  cases es with
  | nil => simp [entryTokens]
  | cons e es => simp [entryTokens]

theorem exists_head_valueTokens (v : Node) : ∃ t us, valueTokens v = t :: us ∧
    ([.key, .value, .blockEnd] : List Token).contains t = false := by
  match v with
  | .scalar .. | .alias _ | .sequence [] | .mapping [] | .mapping (_ :: _) =>
    rw [valueTokens]
    exact ⟨_, _, rfl, rfl⟩
  | .sequence (_ :: _) =>
    rw [valueTokens, itemTokens]
    exact ⟨_, _, rfl, rfl⟩

theorem two_mul_length_le_itemTokens (ns : List Node) :
    2 * ns.length ≤ (itemTokens ns).length := by
  induction ns with
  | nil => exact Nat.zero_le _
  | cons n ns ih =>
    obtain ⟨t, us, head, -⟩ := exists_head_valueTokens n
    rw [itemTokens, head, List.length_append, List.length_cons, List.length_cons, List.length_cons]
    omega

/-- **A value is read back** from its tokens. -/
def ReadsBack (v : Node) : Prop :=
  ∀ (s : ReadState) (ts : List Token) (fuel : Nat), ts.head? ≠ some .blockEntry →
    (valueTokens v).length < fuel →
    readNode fuel true true { s with tokens := valueTokens v ++ ts } =
      some (v, { s with tokens := ts })

theorem readsBack_scalar (text : String) (style : ScalarStyle) :
    ReadsBack (.scalar text style none) := by
  intro s ts fuel _ enough
  obtain _ | fuel := fuel
  · cases enough
  · rw [valueTokens]
    exact readNode_scalar true true text style

theorem readsBack_sequence {ns : List Node}
    (fit : ∀ n ∈ ns, ∃ s style, n = .scalar s style none ∧ Lexer.Fits s style) :
    ReadsBack (.sequence ns) := by
  intro s ts fuel stop enough
  obtain _ | _ | fuel := fuel
  · cases enough
  · cases ns with
    | nil => simp [valueTokens] at enough
    | cons n ns => simp [valueTokens, itemTokens] at enough
  · cases ns with
    | nil =>
      rw [valueTokens, readNode]
      show ((readFlowItems (fuel + 1) true []
        { s with tokens := .flowSequenceEnd :: ts }).bind _ : Option (Node × ReadState)) = _
      rw [readFlowItems]
      rfl
    | cons n ns =>
      have fewer := two_mul_length_le_itemTokens (n :: ns)
      rw [List.length_cons] at fewer
      rw [valueTokens] at enough
      have items := @readIndentless_items s ts (fuel + 1) (n :: ns) [] fit stop
        (by rw [List.length_cons]; omega)
      rw [valueTokens, readNode]
      show ((readIndentless (fuel + 1) []
        { s with tokens := itemTokens (n :: ns) ++ ts }).bind _ : Option (Node × ReadState)) = _
      rw [items]
      rfl

/-- A mapping is read from its entries. -/
theorem readNode_mapping {es : List (Node × Node)} (indentless : Bool)
    (entries : readBlockEntries fuel [] { s with tokens := entryTokens es ++ .blockEnd :: ts } =
      some (.mapping es, { s with tokens := ts })) :
    readNode (fuel + 1) true indentless
        { s with tokens := .blockMappingStart :: (entryTokens es ++ .blockEnd :: ts) } =
      some (.mapping es, { s with tokens := ts }) := by
  rw [readNode]
  show ((readBlockEntries fuel []
    { s with tokens := entryTokens es ++ .blockEnd :: ts }).bind _ : Option (Node × ReadState)) = _
  rw [entries]
  rfl

theorem readsBack_mapping {e : Node × Node} {es : List (Node × Node)}
    (entries : ∀ (s : ReadState) (ts : List Token) (fuel : Nat),
      (entryTokens (e :: es)).length < fuel →
      readBlockEntries fuel [] { s with tokens := entryTokens (e :: es) ++ .blockEnd :: ts } =
        some (.mapping (e :: es), { s with tokens := ts })) :
    ReadsBack (.mapping (e :: es)) := by
  intro s ts fuel _ enough
  have text : valueTokens (.mapping (e :: es)) ++ ts =
      .blockMappingStart :: (entryTokens (e :: es) ++ .blockEnd :: ts) := by
    simp [valueTokens]
  rw [valueTokens, List.length_append, List.length_cons] at enough
  obtain _ | fuel := fuel
  · cases enough
  · rw [text]
    exact readNode_mapping true (entries s ts fuel (by omega))

/-- An entry and the entries behind it are read back. -/
theorem readBlockEntries_cons {key : String} {v : Node} {es acc : List (Node × Node)}
    (value : ReadsBack v)
    (others : ∀ {acc : List (Node × Node)} {fuel : Nat}, (entryTokens es).length < fuel →
      readBlockEntries fuel acc { s with tokens := entryTokens es ++ .blockEnd :: ts } =
        some (.mapping (acc ++ es), { s with tokens := ts }))
    (enough : (entryTokens ((.scalar key .plain none, v) :: es)).length < fuel) :
    readBlockEntries fuel acc
        { s with tokens := entryTokens ((.scalar key .plain none, v) :: es) ++ .blockEnd :: ts } =
      some (.mapping (acc ++ (.scalar key .plain none, v) :: es), { s with tokens := ts }) := by
  have text : entryTokens ((.scalar key .plain none, v) :: es) ++ .blockEnd :: ts =
      .key :: .scalar key .plain :: .value ::
        (valueTokens v ++ (entryTokens es ++ .blockEnd :: ts)) := by
    simp [entryTokens, valueTokens]
  have length : (entryTokens ((.scalar key .plain none, v) :: es)).length =
      (valueTokens v).length + (entryTokens es).length + 3 := by
    simp [entryTokens, valueTokens]
  rw [length] at enough
  obtain _ | _ | fuel := fuel
  · cases enough
  · omega
  · obtain ⟨t, us, head, other⟩ := exists_head_valueTokens v
    have node := value s (entryTokens es ++ .blockEnd :: ts) fuel (head_entryTokens ts) (by omega)
    rw [head, List.cons_append] at node text
    rw [text, readBlockEntries_entry (readBlockValue_value other node), others (by omega)]
    simp

/-- **The entries of a mapping are read** as they were written. -/
theorem readBlockEntries_entries {es acc : List (Node × Node)} (written : Writable es)
    (enough : (entryTokens es).length < fuel) :
    readBlockEntries fuel acc { s with tokens := entryTokens es ++ .blockEnd :: ts } =
      some (.mapping (acc ++ es), { s with tokens := ts }) := by
  induction written generalizing acc s ts fuel with
  | nil =>
    obtain _ | fuel := fuel
    · cases enough
    · rw [entryTokens, List.append_nil, readBlockEntries]
      rfl
  | scalar _ _ _ ih =>
    exact readBlockEntries_cons (readsBack_scalar _ _) (fun enough => ih enough) enough
  | sequence _ fit _ ih =>
    exact readBlockEntries_cons (readsBack_sequence fit) (fun enough => ih enough) enough
  | mapping _ _ _ ihInner ih =>
    exact readBlockEntries_cons (readsBack_mapping fun s ts fuel enough => ihInner enough)
      (fun enough => ih enough) enough

end Nodes

/-- **A written document is read back** as the mapping that it was written from. -/
theorem read?_write {e : Node × Node} {es : List (Node × Node)} (written : Writable (e :: es)) :
    read? (write (e :: es)) = some ⟨.mapping (e :: es), []⟩ := by
  have entries : readBlockEntries (3 * ((entryTokens (e :: es)).length + 2) + 2) []
      { tokens := entryTokens (e :: es) ++ [.blockEnd], handles := knownHandles } =
        some (.mapping (e :: es), { tokens := [], handles := knownHandles }) :=
    readBlockEntries_entries (s := { tokens := [], handles := knownHandles }) written (by omega)
  have root := readNode_mapping (s := { tokens := [], handles := knownHandles }) false entries
  have length : (Token.blockMappingStart :: entryTokens (e :: es) ++ [Token.blockEnd]).length =
      (entryTokens (e :: es)).length + 2 := by
    simp
  rw [read?, write, String.toList_ofList, tokens_entryLines written]
  show ((readContent knownHandles
    (.blockMappingStart :: entryTokens (e :: es) ++ [.blockEnd])).bind _ : Option Document) = _
  rw [readContent, length]
  show ((readNode (3 * ((entryTokens (e :: es)).length + 2) + 2 + 1) true false
    { tokens := .blockMappingStart :: (entryTokens (e :: es) ++ [.blockEnd]),
      handles := knownHandles }).map _).bind _ = _
  rw [root]
  rfl

end TreeBroker.Yaml
