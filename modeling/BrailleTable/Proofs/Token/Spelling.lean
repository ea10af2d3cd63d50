/-
How written texts are cut into tokens.

`Spells rules inExpression text P` says that wherever the text stands after the opcode of a line, and a blank, the
end of the line or a closing parenthesis follows, the lexer takes tokens from it that satisfy `P`.  Texts are put
together with blanks and parentheses, and what they spell is put together with them.
-/
import BrailleTable.Proofs.Cursor
import BrailleTable.Proofs.Token.Order
import BrailleTable.Value.Printer
import Mathlib.Data.List.Forall2

namespace BrailleTable

namespace Text

theorem quote_eq (v : Text) : v.quote = ('"' : CodePoint) :: (v.flatMap quoteOne ++ [('"' : CodePoint)]) := rfl

theorem sealed_quote {v : Text} (h : ('\n' : CodePoint) ∉ v) : v.quote.Sealed := by
  have hlast : v.quote.getLast? = some ('"' : CodePoint) := by
    rw [quote_eq, ← List.cons_append]
    exact List.getLast?_concat
  refine ⟨fun hfeed => ?_, ⟨'"', hlast, by decide⟩, .of_getLast? (by rw [hlast]; decide)⟩
  rw [quote_eq] at hfeed
  rcases List.mem_cons.mp hfeed with hfeed | hfeed
  · exact absurd hfeed (by decide)
  · rcases List.mem_append.mp hfeed with hfeed | hfeed
    · obtain ⟨c, hc, hfeed⟩ := List.mem_flatMap.mp hfeed
      unfold quoteOne at hfeed
      split at hfeed
      · rcases List.mem_cons.mp hfeed with hfeed | hfeed
        · exact absurd hfeed (by decide)
        · exact h (List.mem_singleton.mp hfeed ▸ hc)
      · exact h (List.mem_singleton.mp hfeed ▸ hc)
    · exact absurd hfeed (by decide)

theorem length_lt_quote (v : Text) : v.length < v.quote.length := by
  have hle : v.length ≤ (v.flatMap quoteOne).length := by
    induction v with
    | nil => exact Nat.le_refl _
    | cons c v ih =>
      have hone : 1 ≤ (quoteOne c).length := by
        unfold quoteOne
        split <;> simp
      rw [List.flatMap_cons, List.length_cons, List.length_append]
      omega
  rw [quote_eq, List.length_cons, List.length_append]
  omega

end Text

namespace Token

/-- An unquoted token with this spelling. -/
structure IsPlain (w : Text) (t : Token) : Prop where
  kind_eq : t.kind = .ofText w
  text_eq : t.text = w

theorem CutFrom.isPlain {line : LogicalLine} {t : Token} (h : t.CutFrom line) (hquoted : t.kind ≠ .quoted) :
    t.IsPlain t.text :=
  ⟨(h.plain hquoted).1, rfl⟩

/-- A quoted token that stands for this text. -/
structure IsQuoted (v : Text) (t : Token) : Prop where
  kind_eq : t.kind = .quoted
  value_eq : t.value = v

/-- A text that is one piece for the operators. -/
def IsWhole (w : Text) : Prop := w.length = 1 ∨ ∃ piece, pieces w = [piece]

theorem splitOperators_of_isWhole {t : Token} (h : IsWhole t.text) : t.splitOperators = [t] := by
  unfold splitOperators
  cases t.source with
  | none => rfl
  | some line =>
    dsimp only
    rcases h with h | ⟨piece, h⟩
    · rw [if_pos (.inr h)]
    · split
      · rfl
      · rw [h]

theorem splitOperators_of_quoted {t : Token} (h : t.kind = .quoted) : t.splitOperators = [t] := by
  unfold splitOperators
  cases t.source with
  | none => rfl
  | some line =>
    dsimp only
    rw [if_pos (.inl h)]

/-- A text without operators is one piece. -/
theorem pieces_of_forall {w : Text} (hne : w ≠ []) (h : ∀ c ∈ w, isOperatorChar c = false) :
    pieces w = [w] := by
  fun_induction pieces w with
  | case1 => exact absurd rfl hne
  | case2 c => rfl
  | case3 c d rest hcond ih =>
    have hd := h d (List.mem_cons_of_mem c List.mem_cons_self)
    rw [Bool.and_eq_true, decide_eq_true_iff] at hcond
    rw [hcond.2] at hd
    exact absurd hd (by decide)
  | case4 c d rest hcond hoperator ih =>
    rw [h c List.mem_cons_self, h d (List.mem_cons_of_mem c List.mem_cons_self)] at hoperator
    cases hoperator
  | case5 c d rest hcond hoperator hnil ih =>
    rw [ih (List.cons_ne_nil d rest) fun b hb => h b (List.mem_cons_of_mem c hb)] at hnil
    cases hnil
  | case6 c d rest hcond hoperator piece more hpieces ih =>
    rw [ih (List.cons_ne_nil d rest) fun b hb => h b (List.mem_cons_of_mem c hb)] at hpieces
    cases hpieces
    rfl

theorem isWhole_of_forall {w : Text} (hne : w ≠ []) (h : ∀ c ∈ w, isOperatorChar c = false) :
    IsWhole w :=
  .inr ⟨w, pieces_of_forall hne h⟩

end Token

namespace Lexer

/-! ## Taking tokens -/

/-- The lexer takes these tokens one after the other. -/
inductive Takes : Lexer → List Token → Lexer → Prop
  | nil (lx : Lexer) : Takes lx [] lx
  | cons {lx lx' lx'' : Lexer} {t : Token} {ts : List Token} :
      lx.next = (.ok (some t), lx') → Takes lx' ts lx'' → Takes lx (t :: ts) lx''

theorem Takes.append {lx lx' lx'' : Lexer} {ts us : List Token} (h : Takes lx ts lx')
    (h' : Takes lx' us lx'') : Takes lx (ts ++ us) lx'' := by
  induction h with
  | nil => exact h'
  | cons hnext _ ih => exact .cons hnext (ih h')

theorem Takes.of_next_eq {lx lx' lx'' : Lexer} {ts : List Token} (h : Takes lx' ts lx'') (hne : ts ≠ [])
    (hnext : lx.next = lx'.next) : Takes lx ts lx'' := by
  cases h with
  | nil => exact absurd rfl hne
  | cons hfirst hrest => exact .cons (hnext.trans hfirst) hrest

theorem drain_of_takes {lx lx' lx'' : Lexer} {ts : List Token} (h : Takes lx ts lx')
    (hend : lx'.next = (.ok none, lx'')) {limit : Nat} (hlimit : ts.length < limit) :
    drain limit lx = (.ok ts, lx'') := by
  induction h generalizing limit with
  | nil =>
    cases limit with
    | zero => omega
    | succ limit =>
      unfold drain
      rw [hend]
  | @cons lx lx' lx'' t ts hnext _ ih =>
    cases limit with
    | zero => omega
    | succ limit =>
      have hlt : ts.length < limit := by
        rw [List.length_cons] at hlimit
        omega
      unfold drain
      rw [hnext]
      dsimp only
      rw [ih hend hlt]
      rfl

theorem next_eq_read {lx : Lexer} (hpeeked : lx.peeked = none) : lx.next = lx.read := by
  unfold next
  rw [hpeeked]

/-- Each token takes the lexer further along its line. -/
theorem Takes.length_le {lx lx' : Lexer} {line : LogicalLine} {ts : List Token} (h : Takes lx ts lx')
    (hline : lx.line = some line) (hpeeked : lx.peeked = none) : ts.length ≤ line.text.length - lx.index := by
  induction h with
  | nil => exact Nat.zero_le _
  | @cons lx lx₁ lx₂ t ts hnext _ ih =>
    rw [next_eq_read hpeeked] at hnext
    obtain ⟨hcut, hline₁, hpeeked₁, -⟩ := read_eq_ok_some hline hnext
    obtain ⟨hstart, hstop⟩ := index_read hline hnext
    have hlt := hcut.start_lt
    have hle := hcut.stop_le
    have hrest := ih hline₁ (hpeeked₁.trans hpeeked)
    rw [List.length_cons]
    omega

theorem tokenize_of_takes {lx lx' lx'' : Lexer} {line : LogicalLine} {ts : List Token}
    (h : Takes (lx.reset line) ts lx') (hend : lx'.next = (.ok none, lx'')) : lx.tokenize line = (.ok ts, lx'') := by
  have hlength : ts.length ≤ line.text.length - (lx.reset line).index := h.length_le rfl rfl
  exact drain_of_takes h hend (by omega)

/-! ## Where the lexer stands -/

/-- The lexer stands before `rest` in a line, with its modes as given. -/
structure At (lx : Lexer) (rules : LexRules) (line : LogicalLine) (inHead inExpression : Bool)
    (rest : Text) : Prop where
  rules_eq : lx.rules = rules
  line_eq : lx.line = some line
  inHead_eq : lx.inHead = inHead
  inExpression_eq : lx.inExpression = inExpression
  peeked_eq : lx.peeked = none
  comment_eq : lx.comment = none
  drop_eq : line.text.drop lx.index = rest

variable {lx lx' : Lexer} {rules : LexRules} {line : LogicalLine} {inHead inExpression : Bool}

theorem At.next_eq_read {rest : Text} (h : lx.At rules line inHead inExpression rest) :
    lx.next = lx.read :=
  Lexer.next_eq_read h.peeked_eq

theorem At.drop_append {w rest : Text} (h : lx.At rules line inHead inExpression (w ++ rest)) :
    line.text.drop (lx.index + w.length) = rest := by
  rw [← List.drop_drop, h.drop_eq, List.drop_left]

/-- White space before a token makes no difference to it. -/
theorem At.next_blank {b : CodePoint} {rest : Text}
    (h : lx.At rules line inHead inExpression (b :: rest)) (hb : b.isBlank = true) :
    ∃ lx' : Lexer, lx'.At rules line inHead inExpression rest ∧ lx.next = lx'.next := by
  have hdrop : line.text.drop (lx.index + 1) = rest := by
    rw [← List.drop_drop, h.drop_eq]
    rfl
  have hat : ({ lx with index := lx.index + 1 } : Lexer).At rules line inHead inExpression rest :=
    ⟨h.rules_eq, h.line_eq, h.inHead_eq, h.inExpression_eq, h.peeked_eq, h.comment_eq, hdrop⟩
  refine ⟨_, hat, ?_⟩
  rw [h.next_eq_read, hat.next_eq_read]
  unfold read
  simp only [h.line_eq, hdrop, h.drop_eq, List.takeWhile_cons, hb, if_true, List.length_cons,
    List.dropWhile_cons]
  rw [Nat.add_assoc, Nat.add_comm 1]

/-- A code point that is neither blank nor the comment mark starts a token. -/
theorem At.next_token {c : CodePoint} {rest : Text}
    (h : lx.At rules line inHead inExpression (c :: rest)) (hc : c.isBlank = false)
    (hmark : [c] ≠ rules.commentMark) {t : Token}
    (hread : lx.readToken line c rest = .ok (t, lx')) : lx.next = (.ok (some t), lx') := by
  have hmark' : [c] ≠ lx.rules.commentMark := by
    rw [h.rules_eq]
    exact hmark
  rw [h.next_eq_read]
  unfold read
  simp only [h.line_eq, h.drop_eq, List.takeWhile_cons, List.dropWhile_cons, hc, Bool.false_eq_true,
    if_false, List.length_nil, Nat.add_zero, if_neg hmark']
  have hsame : Lexer.mk lx.rules (some line) lx.index lx.inHead lx.inExpression lx.peeked lx.comment =
      lx := by
    rw [← h.line_eq]
  rw [hsame, hread]

/-- At the end of a line no token is left, and no comment. -/
theorem At.next_nil (h : lx.At rules line inHead inExpression []) :
    ∃ lx' : Lexer, lx.next = (.ok none, lx') ∧ lx'.comment = none := by
  rw [h.next_eq_read]
  unfold read
  simp only [h.line_eq, h.drop_eq, List.dropWhile_nil]
  exact ⟨_, rfl, h.comment_eq⟩

/-- A comment ends the line. -/
theorem At.next_comment {c : CodePoint} {rest : Text}
    (h : lx.At rules line inHead inExpression (c :: rest)) (hc : c.isBlank = false)
    (hmark : [c] = rules.commentMark) :
    ∃ lx' : Lexer, lx.next = (.ok none, lx') ∧ lx'.comment = some (Text.strip rest) := by
  have hmark' : [c] = lx.rules.commentMark := by
    rw [h.rules_eq]
    exact hmark
  rw [h.next_eq_read]
  unfold read
  simp only [h.line_eq, h.drop_eq, List.takeWhile_cons, List.dropWhile_cons, hc, Bool.false_eq_true,
    if_false, List.length_nil, Nat.add_zero, if_pos hmark']
  exact ⟨_, rfl, rfl⟩

/-! ## Single tokens -/

/-- What may follow a token: nothing, a blank or, in an expression, a closing parenthesis. -/
def Ends (inExpression : Bool) (rest : Text) : Prop :=
  ∀ c, rest.head? = some c → c.isBlank = true ∨ inExpression = true ∧ c = ')'

/-- A word of an unquoted token. -/
structure IsWord (rules : LexRules) (inExpression : Bool) (w : Text) : Prop where
  ne_nil : w ≠ []
  blank : ∀ c ∈ w, c.isBlank = false
  parenthesis : inExpression = true → ∀ c ∈ w, isParenthesis c = false
  head : ∀ c, w.head? = some c → c ≠ '"' ∧ [c] ≠ rules.commentMark

theorem At.next_word {w rest : Text} (h : lx.At rules line inHead inExpression (w ++ rest))
    (hw : IsWord rules inExpression w) (hrest : Ends inExpression rest) :
    ∃ t : Token, lx.next = (.ok (some t), lx.note t) ∧ t.IsPlain w ∧ line.text.drop t.stop = rest := by
  cases w with
  | nil => exact absurd rfl hw.ne_nil
  | cons c more =>
    obtain ⟨hquote, hmark⟩ := hw.head c rfl
    have hgroup : (lx.inExpression && isParenthesis c) = false := by
      rw [h.inExpression_eq]
      cases inExpression with
      | false => rfl
      | true => rw [hw.parenthesis rfl c List.mem_cons_self]; rfl
    have htake : (more ++ rest).takeWhile
        (fun d => !d.isBlank && !(lx.inExpression && isParenthesis d)) = more := by
      rw [List.takeWhile_append_of_pos]
      · have hstop : rest.takeWhile
            (fun d => !d.isBlank && !(lx.inExpression && isParenthesis d)) = [] := by
          cases rest with
          | nil => rfl
          | cons d rest =>
            rw [List.takeWhile_cons, if_neg]
            rcases hrest d rfl with hd | ⟨hin, rfl⟩
            · rw [hd]
              exact Bool.false_ne_true
            · rw [h.inExpression_eq, hin]
              decide
        rw [hstop, List.append_nil]
      · intro d hd
        rw [hw.blank d (List.mem_cons_of_mem c hd), h.inExpression_eq]
        cases inExpression with
        | false => rfl
        | true => rw [hw.parenthesis rfl d (List.mem_cons_of_mem c hd)]; rfl
    have hread : lx.readToken line c (more ++ rest) =
        .ok (Token.plain line (.ofText (c :: more)) lx.index (lx.index + (c :: more).length),
          lx.note (Token.plain line (.ofText (c :: more)) lx.index
            (lx.index + (c :: more).length))) := by
      unfold readToken
      simp only [hgroup, Bool.false_eq_true, if_false, if_neg hquote, htake]
    refine ⟨_, h.next_token (hw.blank c List.mem_cons_self) hmark hread, ⟨rfl, ?_⟩, h.drop_append⟩
    exact Text.slice_of_drop_eq h.drop_eq

theorem At.next_parenthesis {c : CodePoint} {rest : Text}
    (h : lx.At rules line inHead true (c :: rest)) (hc : isParenthesis c = true)
    (hmark : [c] ≠ rules.commentMark) :
    ∃ (t : Token) (lx' : Lexer), lx.next = (.ok (some t), lx') ∧ t.kind = .punctuation ∧ t.text = [c] ∧
      lx'.At rules line inHead true rest := by
  have hblank : c.isBlank = false := by
    rcases isParenthesis_iff.mp hc with rfl | rfl <;> decide
  have hat : lx.At rules line inHead true ([c] ++ rest) := h
  have hread : lx.readToken line c rest =
      .ok (Token.plain line .punctuation lx.index (lx.index + 1), { lx with index := lx.index + 1 }) := by
    unfold readToken
    simp only [h.inExpression_eq, hc, Bool.and_self, if_true]
  exact ⟨_, _, h.next_token hblank hmark hread, rfl, Text.slice_of_drop_eq hat.drop_eq,
    ⟨h.rules_eq, h.line_eq, h.inHead_eq, h.inExpression_eq, h.peeked_eq, h.comment_eq, hat.drop_append⟩⟩

/-- A quoted text is read back. -/
theorem readQuoted_flatMap (line : LogicalLine) (start i : Nat) (v rest : Text) :
    readQuoted line start i (v.flatMap Text.quoteOne ++ ('"' : CodePoint) :: rest) =
      .ok (v, i + (v.flatMap Text.quoteOne).length + 1) := by
  induction v generalizing i with
  | nil =>
    cases rest with
    | nil => rfl
    | cons d rest => rfl
  | cons c v ih =>
    obtain ⟨d, more, hmore⟩ : ∃ d more, v.flatMap Text.quoteOne ++ ('"' : CodePoint) :: rest = d :: more := by
      cases v.flatMap Text.quoteOne with
      | nil => exact ⟨_, _, rfl⟩
      | cons d more => exact ⟨_, _, rfl⟩
    rw [List.flatMap_cons, List.append_assoc, List.length_append]
    by_cases hc : c = '"' ∨ c = '\\'
    · have hone : Text.quoteOne c = [('\\' : CodePoint), c] := if_pos hc
      have hstop : i + 2 + (v.flatMap Text.quoteOne).length + 1 =
          i + (2 + (v.flatMap Text.quoteOne).length) + 1 := by omega
      rw [hone]
      show readQuoted line start i
        (('\\' : CodePoint) :: c :: (v.flatMap Text.quoteOne ++ ('"' : CodePoint) :: rest)) = _
      rw [readQuoted, if_neg (by decide), if_pos rfl, if_pos hc, ih, hstop]
      rfl
    · have hone : Text.quoteOne c = [c] := if_neg hc
      have hstop : i + 1 + (v.flatMap Text.quoteOne).length + 1 =
          i + (1 + (v.flatMap Text.quoteOne).length) + 1 := by omega
      rw [not_or] at hc
      rw [hone]
      show readQuoted line start i (c :: (v.flatMap Text.quoteOne ++ ('"' : CodePoint) :: rest)) = _
      rw [hmore, readQuoted, if_neg hc.1, if_neg hc.2, ← hmore, ih, hstop]
      rfl

theorem At.next_quoted {v rest : Text} (h : lx.At rules line inHead inExpression (v.quote ++ rest))
    (hmark : [('"' : CodePoint)] ≠ rules.commentMark) (hrest : Ends inExpression rest) :
    ∃ t : Token, lx.next = (.ok (some t), lx.note t) ∧ t.IsQuoted v ∧ line.text.drop t.stop = rest := by
  have hgroup : (lx.inExpression && isParenthesis '"') = false := Bool.and_false _
  have hlength : lx.index + 1 + (v.flatMap Text.quoteOne).length + 1 = lx.index + v.quote.length := by
    rw [Text.quote_eq, List.length_cons, List.length_append, List.length_singleton]
    omega
  have hquoted : readQuoted line lx.index (lx.index + 1)
      ((v.flatMap Text.quoteOne ++ [('"' : CodePoint)]) ++ rest) =
        .ok (v, lx.index + v.quote.length) := by
    rw [List.append_assoc, ← hlength]
    exact readQuoted_flatMap line lx.index (lx.index + 1) v rest
  have hread : lx.readToken line '"' ((v.flatMap Text.quoteOne ++ [('"' : CodePoint)]) ++ rest) =
      .ok (Token.ofLine line .quoted lx.index (lx.index + v.quote.length) v,
        lx.note (Token.ofLine line .quoted lx.index (lx.index + v.quote.length) v)) := by
    unfold readToken
    simp only [hgroup, Bool.false_eq_true, if_false, if_true, hquoted, h.drop_append]
    cases rest with
    | nil => rfl
    | cons d rest =>
      have hfollow : lx.mayFollowQuote d = true := by
        unfold mayFollowQuote
        rcases hrest d rfl with hd | ⟨hin, rfl⟩
        · rw [hd]
          rfl
        · rw [h.inExpression_eq, hin]
          exact Bool.or_true _
      dsimp only
      rw [if_pos hfollow]
  have hat : lx.At rules line inHead inExpression
      (('"' : CodePoint) :: ((v.flatMap Text.quoteOne ++ [('"' : CodePoint)]) ++ rest)) := h
  exact ⟨_, hat.next_token (by decide) hmark hread, ⟨rfl, rfl⟩, h.drop_append⟩

/-! ## The head of a line -/

/-- After the opcode a token changes nothing but the place. -/
theorem note_argument {t : Token} (h : lx.inHead = false) : lx.note t = { lx with index := t.stop } := by
  unfold note
  simp only [h, Bool.not_false, if_true]

theorem note_modifier {t : Token} (h : lx.inHead = true) (hkind : t.kind = .word)
    (hname : t.text.lower ∈ lx.rules.modifiers) : lx.note t = { lx with index := t.stop } := by
  unfold note
  simp only [h, hkind, hname, Bool.not_true, Bool.false_eq_true, if_false, if_true]

/-- The opcode decides whether an expression follows, and only a word can say so. -/
theorem note_opcode {t : Token} (h : lx.inHead = true) (hname : t.kind = .word → t.text.lower ∉ lx.rules.modifiers) :
    lx.note t = { lx with index := t.stop, inHead := false,
                          inExpression := t.kind = .word ∧ t.text.lower ∈ lx.rules.expressionOpcodes } := by
  unfold note
  by_cases hkind : t.kind = .word
  · simp only [h, hkind, hname hkind, Bool.not_true, Bool.false_eq_true, if_false, if_true, true_and]
  · simp only [h, hkind, Bool.not_true, Bool.false_eq_true, if_false, false_and, decide_false]

theorem At.note_argument {rest rest' : Text} {t : Token} (h : lx.At rules line false inExpression rest)
    (hdrop : line.text.drop t.stop = rest') : (lx.note t).At rules line false inExpression rest' := by
  rw [Lexer.note_argument h.inHead_eq]
  exact ⟨h.rules_eq, h.line_eq, h.inHead_eq, h.inExpression_eq, h.peeked_eq, h.comment_eq, hdrop⟩

/-- After a modifier the lexer is still in the head of the line. -/
theorem At.note_modifier {rest rest' : Text} {t : Token} (h : lx.At rules line true false rest)
    (hkind : t.kind = .word) (hname : t.text.lower ∈ rules.modifiers)
    (hdrop : line.text.drop t.stop = rest') : (lx.note t).At rules line true false rest' := by
  rw [Lexer.note_modifier h.inHead_eq hkind (by rw [h.rules_eq]; exact hname)]
  exact ⟨h.rules_eq, h.line_eq, h.inHead_eq, h.inExpression_eq, h.peeked_eq, h.comment_eq, hdrop⟩

theorem At.note_opcode {rest rest' : Text} {t : Token} (h : lx.At rules line true false rest)
    (hname : t.kind = .word → t.text.lower ∉ rules.modifiers) (hdrop : line.text.drop t.stop = rest') :
    (lx.note t).At rules line false (decide (t.kind = .word ∧ t.text.lower ∈ rules.expressionOpcodes)) rest' := by
  rw [Lexer.note_opcode h.inHead_eq (by rw [h.rules_eq]; exact hname)]
  refine ⟨h.rules_eq, h.line_eq, rfl, ?_, h.peeked_eq, h.comment_eq, hdrop⟩
  rw [h.rules_eq]

/-! ## Spelling -/

/-- Tokens that stand for a written text. -/
structure Cutting (inExpression : Bool) (text : Text) (ts : List Token) : Prop where
  ne_nil : ts ≠ []
  length_le : ts.length ≤ text.length
  whole : inExpression = true → ∀ t ∈ ts, t.splitOperators = [t]

/-- The tokens that the lexer takes from a text satisfy `P`, wherever it stands after the opcode. -/
def Spells (rules : LexRules) (inExpression : Bool) (text : Text) (P : List Token → Prop) : Prop :=
  ∀ (lx : Lexer) (line : LogicalLine) (rest : Text),
    lx.At rules line false inExpression (text ++ rest) → Ends inExpression rest →
    ∃ ts lx', Takes lx ts lx' ∧ lx'.At rules line false inExpression rest ∧
      Cutting inExpression text ts ∧ P ts

variable {P Q : List Token → Prop} {a b : Text}

theorem Spells.imp (h : Spells rules inExpression a P) (himp : ∀ ts, P ts → Q ts) :
    Spells rules inExpression a Q := by
  intro lx line rest hat hrest
  obtain ⟨ts, lx', htakes, hat', hcut, hP⟩ := h lx line rest hat hrest
  exact ⟨ts, lx', htakes, hat', hcut, himp ts hP⟩

theorem Spells.cutting (h : Spells rules inExpression a P) :
    Spells rules inExpression a fun ts => Cutting inExpression a ts ∧ P ts := by
  intro lx line rest hat hrest
  obtain ⟨ts, lx', htakes, hat', hcut, hP⟩ := h lx line rest hat hrest
  exact ⟨ts, lx', htakes, hat', hcut, hcut, hP⟩

theorem ends_blank (rest : Text) : Ends inExpression ((' ' : CodePoint) :: rest) := by
  intro c hc
  cases hc
  exact .inl (by decide)

theorem Spells.blank (ha : Spells rules inExpression a P) (hb : Spells rules inExpression b Q) :
    Spells rules inExpression (a ++ " " ++ b) fun ts => ∃ us vs, ts = us ++ vs ∧ P us ∧ Q vs := by
  intro lx line rest hat hrest
  have hsplit : a ++ " " ++ b ++ rest = a ++ ((' ' : CodePoint) :: (b ++ rest)) := by
    rw [List.append_assoc, List.append_assoc]
    rfl
  rw [hsplit] at hat
  obtain ⟨us, lx₁, hus, hat₁, hcuta, hP⟩ := ha lx line _ hat (ends_blank _)
  obtain ⟨lx₂, hat₂, hnext⟩ := hat₁.next_blank (by decide)
  obtain ⟨vs, lx₃, hvs, hat₃, hcutb, hQ⟩ := hb lx₂ line rest hat₂ hrest
  refine ⟨us ++ vs, lx₃, hus.append (hvs.of_next_eq hcutb.ne_nil hnext), hat₃, ⟨?_, ?_, ?_⟩,
    us, vs, rfl, hP, hQ⟩
  · exact List.append_ne_nil_of_left_ne_nil hcuta.ne_nil vs
  · have hlea := hcuta.length_le
    have hleb := hcutb.length_le
    rw [List.length_append, List.length_append, List.length_append]
    omega
  · intro hin t ht
    rcases List.mem_append.mp ht with ht | ht
    · exact hcuta.whole hin t ht
    · exact hcutb.whole hin t ht

theorem spells_word {w : Text} (hw : IsWord rules inExpression w)
    (hwhole : inExpression = true → Token.IsWhole w) :
    Spells rules inExpression w fun ts => ∃ t, ts = [t] ∧ t.IsPlain w := by
  intro lx line rest hat hrest
  obtain ⟨t, hnext, ht, hdrop⟩ := hat.next_word hw hrest
  refine ⟨[t], _, .cons hnext (.nil _), hat.note_argument hdrop, ⟨List.cons_ne_nil t [], ?_, ?_⟩,
    t, rfl, ht⟩
  · exact List.length_pos_of_ne_nil hw.ne_nil
  · intro hin u hu
    rw [List.mem_singleton.mp hu]
    refine Token.splitOperators_of_isWhole ?_
    rw [ht.text_eq]
    exact hwhole hin

theorem spells_quote (hmark : [('"' : CodePoint)] ≠ rules.commentMark) (v : Text) :
    Spells rules inExpression v.quote fun ts => ∃ t, ts = [t] ∧ t.IsQuoted v := by
  intro lx line rest hat hrest
  obtain ⟨t, hnext, ht, hdrop⟩ := hat.next_quoted hmark hrest
  refine ⟨[t], _, .cons hnext (.nil _), hat.note_argument hdrop, ⟨List.cons_ne_nil t [], ?_, ?_⟩,
    t, rfl, ht⟩
  · exact Nat.le_add_left 1 _
  · intro _ u hu
    rw [List.mem_singleton.mp hu]
    exact Token.splitOperators_of_quoted ht.kind_eq

/-- A text in parentheses, inside an expression. -/
theorem Spells.parentheses (h : Spells rules true a P) (hopen : [('(' : CodePoint)] ≠ rules.commentMark)
    (hclose : [(')' : CodePoint)] ≠ rules.commentMark) :
    Spells rules true ("(" ++ a ++ ")") fun ts =>
      ∃ o us c, ts = o :: (us ++ [c]) ∧ o.IsMark "(" ∧ P us ∧ c.IsMark ")" := by
  intro lx line rest hat hrest
  have hsplit : "(" ++ a ++ ")" ++ rest = ('(' : CodePoint) :: (a ++ ((')' : CodePoint) :: rest)) := by
    rw [List.append_assoc, List.append_assoc]
    rfl
  rw [hsplit] at hat
  obtain ⟨o, lx₁, hopened, hokind, hotext, hat₁⟩ := hat.next_parenthesis (by decide) hopen
  have hends : Ends true ((')' : CodePoint) :: rest) := by
    intro c hc
    cases hc
    exact .inr ⟨rfl, rfl⟩
  obtain ⟨us, lx₂, hus, hat₂, hcut, hP⟩ := h lx₁ line _ hat₁ hends
  obtain ⟨c, lx₃, hclosed, hckind, hctext, hat₃⟩ := hat₂.next_parenthesis (by decide) hclose
  refine ⟨o :: (us ++ [c]), lx₃, .cons hopened (hus.append (.cons hclosed (.nil _))), hat₃,
    ⟨List.cons_ne_nil _ _, ?_, ?_⟩, o, us, c, rfl, ⟨hokind, hotext⟩, hP, ⟨hckind, hctext⟩⟩
  · have hle := hcut.length_le
    rw [List.length_cons, List.length_append, List.length_append, List.length_append]
    show us.length + 1 + 1 ≤ 1 + a.length + 1
    omega
  · intro hin t ht
    rcases List.mem_cons.mp ht with rfl | ht
    · exact Token.splitOperators_of_isWhole (.inl (by rw [hotext]; rfl))
    · rcases List.mem_append.mp ht with ht | ht
      · exact hcut.whole hin t ht
      · rw [List.mem_singleton.mp ht]
        exact Token.splitOperators_of_isWhole (.inl (by rw [hctext]; rfl))

theorem ne_nil_of_forall₂ {α β : Type} {R : α → β → Prop} {as : List α} {bs : List β}
    (h : List.Forall₂ R as bs) (hne : bs ≠ []) : as ≠ [] := by
  intro hnil
  rw [hnil] at h
  cases h
  exact hne rfl

/-- Texts with blanks between them, each of which stands for something. -/
theorem spells_join {α : Type} {R : List Token → α → Prop} {texts : List Text} {as : List α}
    (h : List.Forall₂ (fun text a => Spells rules inExpression text (R · a)) texts as) (hne : as ≠ []) :
    Spells rules inExpression (Text.join " " texts) fun ts =>
      ∃ ws, ts = ws.flatten ∧ List.Forall₂ R ws as := by
  induction h with
  | nil => exact absurd rfl hne
  | @cons text a texts as hfirst hrest ih =>
    by_cases has : as = []
    · subst has
      cases hrest
      refine Spells.imp hfirst fun ts hts => ?_
      exact ⟨[ts], by simp, .cons hts .nil⟩
    · rw [Text.join_cons (ne_nil_of_forall₂ hrest has)]
      refine (Spells.blank hfirst (ih has)).imp fun ts hts => ?_
      obtain ⟨us, vs, rfl, hus, ws, rfl, hws⟩ := hts
      exact ⟨us :: ws, rfl, .cons hus hws⟩

theorem forall₂_flatten {α : Type} {R : Token → α → Prop} {ws : List (List Token)} {as : List α}
    (h : List.Forall₂ (fun w a => ∃ t, w = [t] ∧ R t a) ws as) : List.Forall₂ R ws.flatten as := by
  induction h with
  | nil => exact .nil
  | cons hfirst _ ih =>
    obtain ⟨t, rfl, ht⟩ := hfirst
    exact .cons ht ih

/-! ## Texts that may end a line -/

/-- What is known of a text that was read from `line` and is written at the end of another one: it is sealed, and if
`line` is a single line, its tokens satisfy `P`. -/
structure Closed (rules : LexRules) (inExpression : Bool) (line text : Text) (P : List Token → Prop) :
    Prop where
  isSealed : text.Sealed
  spells : ('\n' : CodePoint) ∉ line → ('\r' : CodePoint) ∉ line → Spells rules inExpression text P

theorem Closed.imp {line : Text} (h : Closed rules inExpression line a P) (himp : ∀ ts, P ts → Q ts) :
    Closed rules inExpression line a Q :=
  ⟨h.isSealed, fun hfeed hreturn => (h.spells hfeed hreturn).imp himp⟩

theorem exists_of_forall₂ {α β : Type} {R : α → β → Prop} {as : List α} {bs : List β}
    (h : List.Forall₂ R as bs) : ∀ a ∈ as, ∃ b ∈ bs, R a b := by
  induction h with
  | nil => exact fun a ha => absurd ha List.not_mem_nil
  | @cons a b as bs hfirst _ ih =>
    intro c hc
    rcases List.mem_cons.mp hc with rfl | hc
    · exact ⟨b, List.mem_cons_self, hfirst⟩
    · obtain ⟨d, hd, hR⟩ := ih c hc
      exact ⟨d, List.mem_cons_of_mem b hd, hR⟩

theorem Closed.join {α : Type} {line : Text} {R : List Token → α → Prop} {texts : List Text} {as : List α}
    (h : List.Forall₂ (fun text a => Closed rules inExpression line text (R · a)) texts as)
    (hne : as ≠ []) :
    Closed rules inExpression line (Text.join " " texts) fun ts =>
      ∃ ws, ts = ws.flatten ∧ List.Forall₂ R ws as where
  isSealed := by
    refine Text.Sealed.join (ne_nil_of_forall₂ h hne) fun text htext => ?_
    obtain ⟨a, -, hclosed⟩ := exists_of_forall₂ h text htext
    exact hclosed.isSealed
  spells := fun hfeed hreturn =>
    spells_join (h.imp fun text a hclosed => hclosed.spells hfeed hreturn) hne

end Lexer
end BrailleTable
