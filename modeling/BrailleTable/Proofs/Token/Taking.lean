/-
The tokens of a line one after the other, and the mode that they are taken in.

A lexer that has come through a line has taken its tokens one by one and then found none.  Where it stands in between, its
mode follows from the tokens behind it: the first of them that is no modifier decides whether the rest is an expression.
-/
import BrailleTable.Proofs.Table.Alone
import BrailleTable.Proofs.Token.Spelling

namespace BrailleTable

namespace LexRules

/-- Whether a token may stand before the opcode. -/
def isModifier (rules : LexRules) (t : Token) : Bool := t.kind = .word && t.text.lower ∈ rules.modifiers

/-- Whether a token is the name of an opcode with an expression. -/
def opensExpression (rules : LexRules) (t : Token) : Bool := t.kind = .word && t.text.lower ∈ rules.expressionOpcodes

/-- Whether the rest of a line that starts with these tokens is an expression. -/
def expectsExpression (rules : LexRules) (seen : List Token) : Bool :=
  (seen.find? fun t => !rules.isModifier t).any rules.opensExpression

variable {rules : LexRules} {seen us : List Token} {t : Token}

theorem isModifier_iff : rules.isModifier t = true ↔ t.kind = .word ∧ t.text.lower ∈ rules.modifiers := by
  unfold isModifier
  rw [Bool.and_eq_true, decide_eq_true_iff, decide_eq_true_iff]

theorem opensExpression_iff :
    rules.opensExpression t = true ↔ t.kind = .word ∧ t.text.lower ∈ rules.expressionOpcodes := by
  unfold opensExpression
  rw [Bool.and_eq_true, decide_eq_true_iff, decide_eq_true_iff]

theorem find?_eq_none_iff : (seen.find? fun t => !rules.isModifier t) = none ↔ seen.all rules.isModifier = true := by
  rw [List.find?_eq_none, List.all_eq_true]
  refine forall₂_congr fun t _ => ?_
  cases rules.isModifier t <;> decide

/-- Among modifiers the next token decides. -/
theorem expectsExpression_append (h : seen.all rules.isModifier = true) :
    rules.expectsExpression (seen ++ us) = rules.expectsExpression us := by
  unfold expectsExpression
  rw [List.find?_append, find?_eq_none_iff.mpr h, Option.none_or]

/-- What has been decided stays. -/
theorem expectsExpression_append_left (h : seen.all rules.isModifier = false) :
    rules.expectsExpression (seen ++ us) = rules.expectsExpression seen := by
  have hsome : (seen.find? fun t => !rules.isModifier t) ≠ none := by
    rw [Ne, find?_eq_none_iff, h]
    exact Bool.false_ne_true
  obtain ⟨t, ht⟩ := Option.ne_none_iff_exists'.mp hsome
  unfold expectsExpression
  rw [List.find?_append, ht, Option.some_or]

theorem expectsExpression_of_all (h : seen.all rules.isModifier = true) : rules.expectsExpression seen = false := by
  unfold expectsExpression
  rw [find?_eq_none_iff.mpr h, Option.any_none]

theorem all_of_expectsExpression (h : rules.expectsExpression seen = true) : seen.all rules.isModifier = false := by
  by_contra hall
  rw [expectsExpression_of_all (by simpa using hall)] at h
  cases h

theorem expectsExpression_append_of (h : rules.expectsExpression seen = true) :
    rules.expectsExpression (seen ++ us) = true := by
  rw [expectsExpression_append_left (all_of_expectsExpression h), h]

theorem expectsExpression_cons (h : rules.isModifier t = false) :
    rules.expectsExpression (t :: us) = rules.opensExpression t := by
  unfold expectsExpression
  rw [List.find?_cons_of_pos (by rw [h]; rfl), Option.any_some]

end LexRules

namespace Lexer

variable {lx lx' : Lexer} {line : LogicalLine} {t : Token} {ts us seen : List Token} {rules : LexRules}

/-! ## Taking tokens -/

/-- Behind the tokens of a line, unless the limit was in the way, the lexer finds none. -/
theorem exists_takes_of_drain {limit : Nat} (h : drain limit lx = (.ok ts, lx')) :
    ∃ lx'', Takes lx ts lx'' ∧ (ts.length < limit → lx''.next = (.ok none, lx')) := by
  induction limit generalizing lx ts with
  | zero =>
    cases h
    exact ⟨_, .nil _, fun hlt => absurd hlt (Nat.not_lt_zero _)⟩
  | succ limit ih =>
    unfold drain at h
    split at h
    · cases h
    · rename_i hnext
      cases h
      exact ⟨_, .nil _, fun _ => hnext⟩
    · rename_i t lx₁ hnext
      obtain ⟨us, hus, rfl⟩ := map_eq_ok (Prod.mk.inj h).1
      obtain ⟨lx₂, htakes, hend⟩ := ih (Prod.ext hus (Prod.mk.inj h).2)
      exact ⟨lx₂, .cons hnext htakes, fun hlt => hend (Nat.lt_of_succ_lt_succ hlt)⟩

theorem exists_takes_of_tokenize (h : lx.tokenize line = (.ok ts, lx')) :
    ∃ lx'', Takes (lx.reset line) ts lx'' ∧ lx''.next = (.ok none, lx') := by
  obtain ⟨lx'', htakes, hend⟩ := exists_takes_of_drain h
  have hlength : ts.length ≤ line.text.length - (lx.reset line).index := htakes.length_le rfl rfl
  exact ⟨lx'', htakes, hend (by omega)⟩

theorem Takes.split (h : Takes lx (ts ++ us) lx') : ∃ lx'', Takes lx ts lx'' ∧ Takes lx'' us lx' := by
  induction ts generalizing lx with
  | nil => exact ⟨lx, .nil lx, h⟩
  | cons t ts ih =>
    cases h with
    | cons hnext hrest =>
      obtain ⟨lx'', hts, hus⟩ := ih hrest
      exact ⟨lx'', .cons hnext hts, hus⟩

/-! ## What a token changes -/

theorem readToken_eq_note {c : CodePoint} {rest : Text} (h : lx.readToken line c rest = .ok (t, lx'))
    (hmode : lx.inExpression = true → lx.inHead = false) : lx' = lx.note t := by
  cases cuts_of_readToken h with
  | parenthesis hin =>
    rw [note_argument (hmode hin)]
    rfl
  | quoted => rfl
  | word => rfl

/-- A lexer whose mode is that of the tokens behind it, and that has looked at no other token. -/
structure Behind (lx : Lexer) (rules : LexRules) (line : LogicalLine) (seen : List Token) : Prop where
  rules_eq : lx.rules = rules
  line_eq : lx.line = some line
  inHead_eq : lx.inHead = seen.all rules.isModifier
  inExpression_eq : lx.inExpression = rules.expectsExpression seen
  peeked_eq : lx.peeked = none
  comment_eq : lx.comment = none

theorem behind_reset (lx : Lexer) (line : LogicalLine) : (lx.reset line).Behind lx.rules line [] :=
  ⟨rfl, rfl, rfl, rfl, rfl, rfl⟩

theorem Behind.next_eq_read (h : lx.Behind rules line seen) : lx.next = lx.read := Lexer.next_eq_read h.peeked_eq

/-- An expression has an opcode before it. -/
theorem Behind.inHead_eq_false (h : lx.Behind rules line seen) (hin : lx.inExpression = true) : lx.inHead = false := by
  rw [h.inHead_eq]
  rw [h.inExpression_eq] at hin
  exact LexRules.all_of_expectsExpression hin

theorem Behind.skip (h : lx.Behind rules line seen) (n : Nat) : (lx.skip n).Behind rules line seen :=
  ⟨h.rules_eq, h.line_eq, h.inHead_eq, h.inExpression_eq, h.peeked_eq, h.comment_eq⟩

theorem Behind.note (h : lx.Behind rules line seen) (t : Token) : (lx.note t).Behind rules line (seen ++ [t]) := by
  obtain ⟨hline, hpeeked, hcomment⟩ := note_frame lx t
  suffices hmode : (lx.note t).inHead = (seen ++ [t]).all rules.isModifier ∧
      (lx.note t).inExpression = rules.expectsExpression (seen ++ [t]) from
    ⟨(rules_note lx t).trans h.rules_eq, hline.trans h.line_eq, hmode.1, hmode.2, hpeeked.trans h.peeked_eq,
      hcomment.trans h.comment_eq⟩
  have hone : [t].all rules.isModifier = rules.isModifier t := by rw [List.all_cons, List.all_nil, Bool.and_true]
  rw [List.all_append, hone]
  cases hseen : seen.all rules.isModifier with
  | false =>
    rw [note_argument (h.inHead_eq.trans hseen), LexRules.expectsExpression_append_left hseen]
    exact ⟨h.inHead_eq.trans hseen, h.inExpression_eq⟩
  | true =>
    have hhead := h.inHead_eq.trans hseen
    rw [LexRules.expectsExpression_append hseen]
    cases hmodifier : rules.isModifier t with
    | true =>
      obtain ⟨hkind, hname⟩ := LexRules.isModifier_iff.mp hmodifier
      rw [note_modifier hhead hkind (by rw [h.rules_eq]; exact hname),
        LexRules.expectsExpression_of_all (hone.trans hmodifier)]
      exact ⟨hhead, h.inExpression_eq.trans (LexRules.expectsExpression_of_all hseen)⟩
    | false =>
      have hname : t.kind = .word → t.text.lower ∉ lx.rules.modifiers := by
        intro hkind hmem
        rw [h.rules_eq] at hmem
        rw [LexRules.isModifier_iff.mpr ⟨hkind, hmem⟩] at hmodifier
        cases hmodifier
      rw [note_opcode hhead hname, LexRules.expectsExpression_cons hmodifier, h.rules_eq]
      refine ⟨rfl, ?_⟩
      unfold LexRules.opensExpression
      rw [Bool.decide_and]

/-- A token that is taken is noted, wherever it was found. -/
theorem Behind.next (h : lx.Behind rules line seen) (hnext : lx.next = (.ok (some t), lx')) :
    lx'.Behind rules line (seen ++ [t]) := by
  rw [h.next_eq_read] at hnext
  obtain ⟨blanks, c, rest, -, -, -, -, hread⟩ := readToken_of_read h.line_eq hnext
  rw [readToken_eq_note hread (h.skip _).inHead_eq_false]
  exact (h.skip _).note t

theorem Behind.takes (h : lx.Behind rules line seen) (htakes : Takes lx ts lx') :
    lx'.Behind rules line (seen ++ ts) := by
  induction htakes generalizing seen with
  | nil =>
    rw [List.append_nil]
    exact h
  | @cons lx lx₁ lx₂ t ts hnext _ ih =>
    rw [List.append_cons]
    exact ih (h.next hnext)

end Lexer
end BrailleTable
