/-
What the tokens of a line cover.

Between the tokens of a line, before the first and behind the last of them there is nothing but white space and, at the end,
the comment.  Two tokens that touch are possible in an expression only, where one of them is a parenthesis: an unquoted
token ends at white space, a quoted one is followed by white space or a comment, and only a parenthesis is cut out
wherever it stands.
-/
import BrailleTable.Proofs.Token.Taking

namespace BrailleTable

namespace Token

/-- A parenthesis that is a token by itself. -/
def IsParenthesis (t : Token) : Prop := t.kind = .punctuation ∧ (t.text = "(" ∨ t.text = ")")

end Token

namespace LogicalLine

variable {line : LogicalLine} {i : Nat}

/-- A stretch of a line with nothing but white space. -/
def IsGap (line : LogicalLine) (i j : Nat) : Prop :=
  ∀ k c, i ≤ k → k < j → line.text[k]? = some c → c.isBlank = true

theorem isGap_of_drop_eq {blanks rest : Text} (hdrop : line.text.drop i = blanks ++ rest)
    (h : ∀ b ∈ blanks, b.isBlank = true) : line.IsGap i (i + blanks.length) := by
  intro k c hik hk hc
  have hget : line.text[k]? = (blanks ++ rest)[k - i]? := by
    rw [← hdrop, List.getElem?_drop, Nat.add_sub_cancel' hik]
  rw [hget, List.getElem?_append_left (by omega)] at hc
  exact h c (List.mem_of_getElem? hc)

/-- How tokens and a comment make up a line.  The tokens lie before `stop`, where the comment starts or the line ends. -/
structure Covered (rules : LexRules) (line : LogicalLine) (ts : List Token) (comment : Option Text) (stop : Nat) :
    Prop where
  stretch : ∀ t ∈ ts, t.start < t.stop ∧ t.stop ≤ stop ∧ t.text = line.text.slice t.start t.stop
  pairwise : ts.Pairwise Token.Precedes
  gaps : ∀ i c, i < stop → line.text[i]? = some c → (∃ t ∈ ts, t.start ≤ i ∧ i < t.stop) ∨ c.isBlank = true
  ending : match comment with
    | none => stop = line.text.length
    | some text => ∃ c rest, line.text.drop stop = c :: rest ∧ c.isBlank = false ∧ [c] = rules.commentMark ∧
        text = Text.strip rest
  unquoted : ∀ t ∈ ts, t.kind ≠ .quoted → ∀ c ∈ t.text, c.isBlank = false
  apart : ∀ us t u vs, ts = us ++ t :: u :: vs → (t.stop < u.start ∧ line.IsGap t.stop u.start) ∨
    (t.IsParenthesis ∧ rules.expectsExpression us = true) ∨
    (u.IsParenthesis ∧ rules.expectsExpression (us ++ [t]) = true)

end LogicalLine

namespace Lexer

open LogicalLine (IsGap Covered)

variable {lx lx' lx₁ lx₂ : Lexer} {line : LogicalLine} {t u : Token} {ts seen : List Token} {rules : LexRules}
  {c : CodePoint} {rest : Text}

/-! ## What lies around a token -/

/-- Before a token there is white space. -/
theorem isGap_of_read (hline : lx.line = some line) (h : lx.read = (.ok (some t), lx')) :
    line.IsGap lx.index t.start := by
  obtain ⟨blanks, c, rest, hdrop, hblanks, -, -, hread⟩ := readToken_of_read hline h
  rw [(index_readToken hread).1]
  exact LogicalLine.isGap_of_drop_eq hdrop hblanks

/-- What an unquoted token ends at, unless it is a parenthesis, and what may follow a quoted one. -/
def Stops (lx : Lexer) (rest : Text) : Prop :=
  ∀ c, rest.head? = some c →
    c.isBlank = true ∨ [c] = lx.rules.commentMark ∨ (lx.inExpression = true ∧ isParenthesis c = true)

theorem isParenthesis_plain (hdrop : line.text.drop lx.index = c :: rest) (hc : isParenthesis c = true) :
    (Token.plain line .punctuation lx.index (lx.index + 1)).IsParenthesis := by
  have htext : line.text.slice lx.index (lx.index + 1) = [c] := Text.slice_of_drop_eq (u := [c]) hdrop
  refine ⟨rfl, (isParenthesis_iff.mp hc).imp (fun heq => ?_) fun heq => ?_⟩ <;> exact htext.trans (by rw [heq]; rfl)

theorem isParenthesis_of_readToken (hdrop : line.text.drop lx.index = c :: rest) (hin : lx.inExpression = true)
    (hc : isParenthesis c = true) (h : lx.readToken line c rest = .ok (t, lx')) : t.IsParenthesis := by
  cases cuts_of_readToken h with
  | parenthesis _ hparen => exact isParenthesis_plain hdrop hparen
  | quoted hquote =>
    rw [hquote] at hc
    exact absurd hc (by decide)
  | word _ hword =>
    rw [hin, hc] at hword
    cases hword

/-- A token other than a parenthesis of an expression goes as far as it can. -/
theorem stops_of_readToken (hdrop : line.text.drop lx.index = c :: rest)
    (h : lx.readToken line c rest = .ok (t, lx')) :
    (lx.inExpression = true ∧ t.IsParenthesis) ∨ lx.Stops (line.text.drop t.stop) := by
  cases cuts_of_readToken h with
  | parenthesis hin hparen => exact .inl ⟨hin, isParenthesis_plain hdrop hparen⟩
  | quoted _ _ hfollow =>
    refine .inr fun d hd => ?_
    have hfollow := hfollow d hd
    unfold mayFollowQuote at hfollow
    rw [Bool.or_eq_true, Bool.or_eq_true, Bool.and_eq_true, decide_eq_true_iff, decide_eq_true_iff] at hfollow
    rcases hfollow with (hblank | hmark) | ⟨hin, rfl⟩
    · exact .inl hblank
    · exact .inr (.inl hmark)
    · exact .inr (.inr ⟨hin, rfl⟩)
  | @word w v _ _ hrest _ hstop =>
    have hword : line.text.drop lx.index = (c :: w) ++ v := by
      rw [hdrop, hrest, List.cons_append]
    refine .inr ?_
    show lx.Stops (line.text.drop (lx.index + (c :: w).length))
    rw [Text.drop_of_drop_eq hword]
    intro d hd
    rcases hstop d hd with hblank | hparen
    · exact .inl hblank
    · exact .inr (.inr (Bool.and_eq_true_iff.mp hparen))

/-- Two tokens in a row touch only if one of them is a parenthesis of an expression. -/
theorem Behind.apart (h : lx.Behind rules line seen) (ht : lx.next = (.ok (some t), lx₁))
    (hu : lx₁.next = (.ok (some u), lx₂)) :
    (t.stop < u.start ∧ line.IsGap t.stop u.start) ∨ (t.IsParenthesis ∧ rules.expectsExpression seen = true) ∨
      (u.IsParenthesis ∧ rules.expectsExpression (seen ++ [t]) = true) := by
  have h₁ := h.next ht
  rw [h.next_eq_read] at ht
  rw [h₁.next_eq_read] at hu
  have hgap := isGap_of_read h₁.line_eq hu
  obtain ⟨blanks, c, rest, hdrop, -, -, -, hread⟩ := readToken_of_read h.line_eq ht
  obtain ⟨gap, d, after, hdrop₁, -, hd, hmark, hread₁⟩ := readToken_of_read h₁.line_eq hu
  obtain ⟨-, hstop⟩ := index_readToken hread
  obtain ⟨hstart, -⟩ := index_readToken hread₁
  cases gap with
  | cons b gap =>
    rw [hstop] at hgap
    refine .inl ⟨?_, hgap⟩
    rw [hstart, ← hstop]
    show lx₁.index < lx₁.index + (gap.length + 1)
    omega
  | nil =>
    right
    rcases stops_of_readToken (Text.drop_of_drop_eq hdrop) hread with ⟨hin, hparen⟩ | hstops
    · exact .inl ⟨hparen, h.inExpression_eq.symm.trans hin⟩
    · rw [← hstop, hdrop₁] at hstops
      rcases hstops d rfl with hblank | hcomment | ⟨hin, hparen⟩
      · rw [hd] at hblank
        cases hblank
      · rw [h₁.rules_eq, ← h.rules_eq] at hmark
        exact absurd hcomment hmark
      · -- What has been decided before the first token still holds at the second.
        have hseen : rules.expectsExpression seen = true := h.inExpression_eq.symm.trans hin
        have hexpects : rules.expectsExpression (seen ++ [t]) = true := LexRules.expectsExpression_append_of hseen
        exact .inr ⟨isParenthesis_of_readToken hdrop₁ (h₁.inExpression_eq.trans hexpects) hparen hread₁, hexpects⟩

/-! ## What lies between the tokens -/

/-- What a run along the line passes is white space or belongs to a token. -/
theorem Takes.gaps (h : Takes lx ts lx') (hline : lx.line = some line) (hpeeked : lx.peeked = none)
    (hindex : lx.index ≤ line.text.length) :
    lx.index ≤ lx'.index ∧ lx'.index ≤ line.text.length ∧ (∀ t ∈ ts, t.stop ≤ lx'.index) ∧
      ∀ i c, lx.index ≤ i → i < lx'.index → line.text[i]? = some c →
        (∃ t ∈ ts, t.start ≤ i ∧ i < t.stop) ∨ c.isBlank = true := by
  induction h with
  | nil => exact ⟨Nat.le_refl _, hindex, fun t ht => absurd ht List.not_mem_nil, fun i c hle hlt => by omega⟩
  | @cons lx lx₁ lx₂ t ts hnext _ ih =>
    rw [next_eq_read hpeeked] at hnext
    obtain ⟨hcut, hline₁, hpeeked₁, -⟩ := read_eq_ok_some hline hnext
    obtain ⟨hstart, hstop⟩ := index_read hline hnext
    have hlt := hcut.start_lt
    have hle := hcut.stop_le
    obtain ⟨hle₁, hle₂, hstops, hgaps⟩ := ih hline₁ (hpeeked₁.trans hpeeked) (by omega)
    refine ⟨by omega, hle₂, List.forall_mem_cons.mpr ⟨by omega, hstops⟩, fun i c hi hilt hc => ?_⟩
    by_cases hbefore : i < t.start
    · exact .inr (isGap_of_read hline hnext i c hi hbefore hc)
    · by_cases hin : i < t.stop
      · exact .inl ⟨t, List.mem_cons_self, by omega, hin⟩
      · refine (hgaps i c (by omega) hilt hc).imp_left fun ⟨u, hu, hrange⟩ => ?_
        exact ⟨u, List.mem_cons_of_mem t hu, hrange⟩

/-- Where no token is left there is white space, and then the end of the line or a comment. -/
theorem ending_of_read (hline : lx.line = some line) (h : lx.read = (.ok none, lx')) :
    ∃ blanks rest : Text, line.text.drop lx.index = blanks ++ rest ∧ (∀ b ∈ blanks, b.isBlank = true) ∧
      (rest = [] ∧ lx'.comment = lx.comment ∨ ∃ c after, rest = c :: after ∧ c.isBlank = false ∧
        [c] = lx.rules.commentMark ∧ lx'.comment = some (Text.strip after)) := by
  refine ⟨_, _, List.takeWhile_append_dropWhile.symm, fun b hb => List.mem_takeWhile_imp hb, ?_⟩
  unfold read at h
  rw [hline] at h
  dsimp only at h
  split at h
  · rename_i hnil
    cases h
    exact .inl ⟨hnil, rfl⟩
  · rename_i c after hafter
    split at h
    · rename_i hmark
      cases h
      exact .inr ⟨c, after, hafter, Text.isBlank_of_dropWhile hafter, hmark, rfl⟩
    · split at h <;> cases h

/-- The tokens of a line and its comment are all that there is on the line, but for white space. -/
theorem exists_covered_of_tokenize (h : lx.tokenize line = (.ok ts, lx')) :
    ∃ stop, Covered lx.rules line ts lx'.comment stop := by
  obtain ⟨hcut, -⟩ := tokenize_eq_ok h
  obtain ⟨lx'', htakes, hend⟩ := exists_takes_of_tokenize h
  have hstart := behind_reset lx line
  have hbehind := hstart.takes htakes
  rw [hbehind.next_eq_read] at hend
  obtain ⟨-, hindex, hstops, hgaps⟩ := htakes.gaps hstart.line_eq hstart.peeked_eq (Nat.zero_le _)
  obtain ⟨blanks, rest, hdrop, hblanks, hrest⟩ := ending_of_read hbehind.line_eq hend
  have hlength : line.text.length - lx''.index = blanks.length + rest.length := by
    rw [← List.length_drop, hdrop, List.length_append]
  refine ⟨lx''.index + blanks.length, ?_, pairwise_tokenize h, ?_, ?_, ?_, ?_⟩
  · intro t ht
    have hstop := hstops t ht
    exact ⟨(hcut t ht).start_lt, by omega, (hcut t ht).text_eq⟩
  · intro i c hi hc
    by_cases hlt : i < lx''.index
    · exact hgaps i c (Nat.zero_le i) hlt hc
    · exact .inr (LogicalLine.isGap_of_drop_eq hdrop hblanks i c (by omega) hi hc)
  · rcases hrest with ⟨rfl, hcomment⟩ | ⟨c, after, rfl, hc, hmark, hcomment⟩
    · rw [hcomment, hbehind.comment_eq]
      show lx''.index + blanks.length = line.text.length
      rw [List.length_nil] at hlength
      omega
    · rw [hcomment]
      rw [hbehind.rules_eq] at hmark
      exact ⟨c, after, Text.drop_of_drop_eq hdrop, hc, hmark, rfl⟩
  · exact fun t ht hkind => ((hcut t ht).plain hkind).2.2
  · rintro us t u vs rfl
    obtain ⟨lx₀, hus, hvs⟩ := htakes.split
    cases hvs with
    | cons ht hvs =>
      cases hvs with
      | cons hu _ => exact (hstart.takes hus).apart ht hu

end Lexer

/-- A modifier, an opcode with an expression whose tokens touch, and a comment right behind a quoted string. -/
def touchingLine : LogicalLine := .single "noback test (not \"a b\")\"c\"# done " ⟨1, 1, 0⟩

theorem exists_covered_touchingLine :
    ∃ ts lx', (Lexer.ofRules (.ofNames "#" ["test"] ["noback"])).tokenize touchingLine = (.ok ts, lx') ∧
      ts.map Token.start = [0, 7, 12, 13, 17, 22, 23] ∧ lx'.comment = some "done" ∧
      ∃ stop, LogicalLine.Covered (.ofNames "#" ["test"] ["noback"]) touchingLine ts lx'.comment stop := by
  have hread : ((Lexer.ofRules (.ofNames "#" ["test"] ["noback"])).tokenize touchingLine).1.toOption.map
      (fun ts => ts.map Token.start) = some [0, 7, 12, 13, 17, 22, 23] := by
    decide +kernel
  have hcomment : ((Lexer.ofRules (.ofNames "#" ["test"] ["noback"])).tokenize touchingLine).2.comment =
      some "done" := by
    decide +kernel
  obtain ⟨ts, hts, hstarts⟩ := Option.map_eq_some_iff.mp hread
  refine ⟨ts, _, Prod.ext (toOption_eq_some hts) rfl, hstarts, hcomment, ?_⟩
  exact Lexer.exists_covered_of_tokenize (Prod.ext (toOption_eq_some hts) rfl)

end BrailleTable
