/-
Quoted strings are a codec.

To quote a text is to put a backslash before each of its quotes and backslashes, and quotes around it all.  The lexer undoes
this: it takes the quoted text for one token, in whatever mode it is, and the token stands for the text.  And it takes
nothing else for a quoted string, since a backslash that stands before anything but a quote or a backslash is refused: the
spelling of a quoted token is its value, quoted.
-/
import BrailleTable.Proofs.Token.Session
import BrailleTable.Proofs.Token.Spelling

namespace BrailleTable

namespace Text

/-- Puts a text in the place of each occurrence of a code point. -/
def replace (c : CodePoint) (new : Text) (t : Text) : Text := t.flatMap fun d => if d = c then new else [d]

/-- Quoting replaces the backslashes first, so that it doubles none of the backslashes that it puts before quotes. -/
theorem quote_eq_replace (v : Text) :
    v.quote = "\"" ++ replace '"' "\\\"" (replace '\\' "\\\\" v) ++ "\"" := by
  have hone : ∀ c : CodePoint, replace '"' "\\\"" (if c = '\\' then "\\\\" else [c]) = quoteOne c := by
    intro c
    by_cases hslash : c = '\\'
    · subst hslash
      decide
    · by_cases hquote : c = '"'
      · subst hquote
        decide
      · simp [replace, quoteOne, hslash, hquote]
  have hall : replace '"' "\\\"" (replace '\\' "\\\\" v) = v.flatMap quoteOne := by
    simp only [replace, List.flatMap_assoc]
    exact congrArg (fun f => v.flatMap f) (funext hone)
  rw [quote_eq, hall]
  rfl

end Text

namespace Lexer

variable {lx lx' : Lexer} {line : LogicalLine} {t : Token} {c : CodePoint} {rest : Text}

/-! ## Reading what was quoted -/

/-- Where the lexer stands before a quoted text, and the line ends behind it, it takes one token more. -/
theorem At.drain_quote {rules : LexRules} {inHead inExpression : Bool} {v : Text}
    (h : lx.At rules line inHead inExpression v.quote) (hmark : rules.commentMark = "#") {limit : Nat} (hlimit : 2 ≤ limit) :
    ∃ t : Token, (drain limit lx).1 = .ok [t] ∧ t.IsQuoted v := by
  have hne : [('"' : CodePoint)] ≠ rules.commentMark := by
    rw [hmark]
    decide
  have hends : Ends inExpression [] := fun c hc => by cases hc
  have hat : lx.At rules line inHead inExpression (v.quote ++ []) := by
    rw [List.append_nil]
    exact h
  obtain ⟨t, hnext, hquoted, hdrop⟩ := hat.next_quoted hne hends
  obtain ⟨hline, hpeeked, hcomment⟩ := note_frame lx t
  have hat' : (lx.note t).At rules line (lx.note t).inHead (lx.note t).inExpression [] :=
    ⟨(rules_note lx t).trans h.rules_eq, hline.trans h.line_eq, rfl, rfl, hpeeked.trans h.peeked_eq,
      hcomment.trans h.comment_eq, by rw [index_note]; exact hdrop⟩
  obtain ⟨lx', hend, -⟩ := hat'.next_nil
  have hdrain := drain_of_takes (.cons hnext (.nil _)) hend (show [t].length < limit from hlimit)
  exact ⟨t, congrArg Prod.fst hdrain, hquoted⟩

/-! ## Quoting what was read -/

/-- What is read as a quoted string was quoted. -/
theorem exists_of_readQuoted {start i stop : Nat} {s v : Text} (h : readQuoted line start i s = .ok (v, stop)) :
    ∃ rest, s = v.flatMap Text.quoteOne ++ ('"' : CodePoint) :: rest ∧
      stop = i + (v.flatMap Text.quoteOne).length + 1 := by
  fun_induction readQuoted line start i s generalizing v stop with
  | case1 => cases h
  | case2 i =>
    cases h
    exact ⟨[], rfl, rfl⟩
  | case3 => cases h
  | case4 i d rest =>
    cases h
    exact ⟨d :: rest, rfl, rfl⟩
  | case5 i d rest hd _ ih =>
    obtain ⟨⟨v', j⟩, hrest, heq⟩ := map_eq_ok h
    cases heq
    obtain ⟨after, rfl, rfl⟩ := ih hrest
    have hone : Text.quoteOne d = [('\\' : CodePoint), d] := if_pos hd
    refine ⟨after, ?_, ?_⟩
    · rw [List.flatMap_cons, hone]
      rfl
    · rw [List.flatMap_cons, hone, List.length_append]
      show i + 2 + _ + 1 = i + (2 + _) + 1
      omega
  | case6 => cases h
  | case7 i c d rest hquote hslash ih =>
    obtain ⟨⟨v', j⟩, hrest, heq⟩ := map_eq_ok h
    cases heq
    obtain ⟨after, hafter, rfl⟩ := ih hrest
    have hone : Text.quoteOne c = [c] := if_neg (not_or.mpr ⟨hquote, hslash⟩)
    refine ⟨after, ?_, ?_⟩
    · rw [List.flatMap_cons, hone, hafter]
      rfl
    · rw [List.flatMap_cons, hone, List.length_append]
      show i + 1 + _ + 1 = i + (1 + _) + 1
      omega

end Lexer

/-- The spelling of the token, if it is quoted, is what its value is quoted as. -/
def Token.IsQuote (t : Token) : Prop := t.kind = .quoted → t.value.quote = t.text

namespace Lexer

variable {lx lx' : Lexer} {line : LogicalLine} {t : Token} {c : CodePoint} {rest : Text}

theorem isQuote_of_readToken (hdrop : line.text.drop lx.index = c :: rest) (h : lx.readToken line c rest = .ok (t, lx')) :
    t.IsQuote := by
  cases cuts_of_readToken h with
  | parenthesis => exact fun hkind => by cases hkind
  | @quoted value stop hquote hquoted _ =>
    intro _
    subst hquote
    obtain ⟨after, rfl, rfl⟩ := exists_of_readQuoted hquoted
    have hparts : line.text.drop lx.index = value.quote ++ after := by
      rw [hdrop, Text.quote_eq, List.cons_append, List.append_assoc]
      rfl
    have hstop : lx.index + 1 + (value.flatMap Text.quoteOne).length + 1 = lx.index + value.quote.length := by
      rw [Text.quote_eq, List.length_cons, List.length_append, List.length_singleton]
      omega
    show value.quote = line.text.slice lx.index _
    rw [hstop]
    exact (Text.slice_of_drop_eq hparts).symm
  | word => exact fun hkind => absurd hkind (TokenKind.ofText_ne_quoted _)

theorem isQuote_of_read (h : lx.read = (.ok (some t), lx')) : t.IsQuote := by
  cases hline : lx.line with
  | none =>
    unfold read at h
    rw [hline] at h
    cases h
  | some line =>
    obtain ⟨blanks, c, rest, hdrop, -, -, -, hread⟩ := readToken_of_read hline h
    exact isQuote_of_readToken (Text.drop_of_drop_eq hdrop) hread

/-- The token that the lexer has looked at and not taken is spelled as its value is quoted, if it is quoted. -/
def HoldsQuote (lx : Lexer) : Prop := ∀ t, lx.peeked = some t → t.IsQuote

theorem peeked_read (lx : Lexer) : lx.read.2.peeked = lx.peeked := by
  cases hline : lx.line with
  | none =>
    unfold read
    rw [hline]
  | some line =>
    cases hread : lx.read with
    | mk answer lx' =>
      match answer with
      | .error e => exact (read_again hread fun t ht => by cases ht).2
      | .ok none => exact (read_again hread fun t ht => by cases ht).2
      | .ok (some t) => exact (read_eq_ok_some hline hread).2.2.1

theorem HoldsQuote.read (h : lx.HoldsQuote) : lx.read.2.HoldsQuote := fun t ht => h t ((peeked_read lx).symm.trans ht)

theorem HoldsQuote.next (h : lx.HoldsQuote) : (∀ t, lx.next.1 = .ok (some t) → t.IsQuote) ∧ lx.next.2.HoldsQuote := by
  unfold Lexer.next
  split
  · rename_i t hpeeked
    refine ⟨fun u hu => ?_, fun u hu => by cases hu⟩
    cases hu
    exact h t hpeeked
  · exact ⟨fun t ht => isQuote_of_read (Prod.ext ht rfl), h.read⟩

theorem HoldsQuote.peek (h : lx.HoldsQuote) : (∀ t, lx.peek.1 = .ok (some t) → t.IsQuote) ∧ lx.peek.2.HoldsQuote := by
  unfold Lexer.peek
  split
  · rename_i t hpeeked
    refine ⟨fun u hu => ?_, h⟩
    cases hu
    exact h t hpeeked
  · split
    · rename_i answer lx' hread
      have hanswer : ∀ t, answer = some t → t.IsQuote := fun t ht => isQuote_of_read (ht ▸ hread)
      exact ⟨fun t ht => hanswer t (Except.ok.inj ht), hanswer⟩
    · rename_i e lx' hread
      refine ⟨fun t ht => (by cases ht), ?_⟩
      have hread' := h.read
      rw [hread] at hread'
      exact hread'

theorem HoldsQuote.look (h : lx.HoldsQuote) (how : Look) :
    (∀ t, (lx.look how).1 = .ok (some t) → t.IsQuote) ∧ (lx.look how).2.HoldsQuote := by
  cases how with
  | peek => exact h.peek
  | next => exact h.next

theorem holdsQuote_reset (lx : Lexer) (line : LogicalLine) : (lx.reset line).HoldsQuote := fun t ht => by cases ht

theorem HoldsQuote.drain (h : lx.HoldsQuote) (limit : Nat) :
    (∀ ts, (drain limit lx).1 = .ok ts → ∀ t ∈ ts, t.IsQuote) ∧ (drain limit lx).2.HoldsQuote := by
  induction limit generalizing lx with
  | zero =>
    refine ⟨fun ts hts => ?_, h⟩
    cases hts
    exact fun t ht => absurd ht List.not_mem_nil
  | succ limit ih =>
    obtain ⟨hfirst, hstep⟩ := h.next
    unfold Lexer.drain
    split
    · rename_i e lx' hnext
      rw [hnext] at hstep
      exact ⟨fun ts hts => (by cases hts), hstep⟩
    · rename_i lx' hnext
      rw [hnext] at hstep
      refine ⟨fun ts hts => ?_, hstep⟩
      cases hts
      exact fun t ht => absurd ht List.not_mem_nil
    · rename_i t lx' hnext
      rw [hnext] at hfirst hstep
      obtain ⟨hmore, hend⟩ := ih hstep
      refine ⟨fun ts hts => ?_, hend⟩
      obtain ⟨more, hrest, rfl⟩ := map_eq_ok hts
      intro u hu
      rcases List.mem_cons.mp hu with rfl | hu
      · exact hfirst _ rfl
      · exact hmore more hrest u hu

theorem HoldsQuote.after (h : lx.HoldsQuote) (call : Call) : (lx.after call).HoldsQuote := by
  cases call with
  | reset line => exact holdsQuote_reset lx line
  | look how => exact (h.look how).2
  | tokenize line => exact ((holdsQuote_reset lx line).drain _).2

theorem HoldsQuote.run (h : lx.HoldsQuote) (calls : List Call) : (lx.run calls).HoldsQuote := by
  induction calls generalizing lx with
  | nil => exact h
  | cons call calls ih => exact ih (h.after call)

/-! ## The codec -/

/-- Quoting and reading undo each other.  A lexer with the usual comment mark takes the line that a text is quoted as for one
token, which stands for the text, whatever the modes that it starts in.  And the value of each quoted token that a lexer
gives, in whatever session and by whatever call, is quoted as the token is spelled. -/
theorem quote_codec (rules : LexRules) (history : List Call) (line : LogicalLine) :
    (rules.commentMark = "#" → ∀ v : Text, line.text = v.quote →
      (∃ t, (((ofRules rules).run history).tokenize line).1 = .ok [t] ∧ t.kind = .quoted ∧ t.value = v) ∧
      ∀ inHead inExpression : Bool, ∃ t,
        (drain (line.text.length + 1) { ((ofRules rules).run history).reset line with inHead, inExpression }).1 = .ok [t] ∧
          t.kind = .quoted ∧ t.value = v) ∧
    (∀ (how : Look) (t : Token), (((ofRules rules).run history).look how).1 = .ok (some t) →
      t.kind = .quoted → t.value.quote = t.text) ∧
    ∀ ts, (((ofRules rules).run history).tokenize line).1 = .ok ts →
      ∀ t ∈ ts, t.kind = .quoted → t.value.quote = t.text := by
  have hholds : ((ofRules rules).run history).HoldsQuote := HoldsQuote.run (fun t ht => by cases ht) history
  refine ⟨fun hmark v hline => ?_, fun how t ht => (hholds.look how).1 t ht, fun ts hts => ?_⟩
  · have hany : ∀ inHead inExpression : Bool, ∃ t,
        (drain (line.text.length + 1) { ((ofRules rules).run history).reset line with inHead, inExpression }).1 =
          .ok [t] ∧ t.kind = .quoted ∧ t.value = v := by
      intro inHead inExpression
      have hat : ({ ((ofRules rules).run history).reset line with inHead, inExpression } : Lexer).At rules line inHead
          inExpression v.quote :=
        ⟨rules_run _ history, rfl, rfl, rfl, rfl, rfl, hline⟩
      have hlimit : 2 ≤ line.text.length + 1 := by
        have hlt := Text.length_lt_quote v
        rw [hline]
        omega
      obtain ⟨t, hdrain, hkind, hvalue⟩ := hat.drain_quote hmark hlimit
      exact ⟨t, hdrain, hkind, hvalue⟩
    exact ⟨hany true false, hany⟩
  · exact ((holdsQuote_reset _ line).drain _).1 ts hts

/-- A backslash before a quote, and another one before the quote that closes the string. -/
def backslashedText : Text := "a\\\"b\\"

theorem quote_codec_backslashedText :
    ∃ t, (basic.tokenize (.single backslashedText.quote ⟨1, 1, 0⟩)).1 = .ok [t] ∧ t.kind = .quoted ∧
      t.value = backslashedText ∧ t.text = "\"a\\\\\\\"b\\\\\"" := by
  obtain ⟨htakes, -, hgives⟩ := quote_codec (.ofNames "#" [] []) [] (.single backslashedText.quote ⟨1, 1, 0⟩)
  obtain ⟨⟨t, ht, hkind, hvalue⟩, -⟩ := htakes rfl backslashedText rfl
  have htext := hgives [t] ht t List.mem_cons_self hkind
  refine ⟨t, ht, hkind, hvalue, ?_⟩
  rw [← htext, hvalue]
  decide

end Lexer
end BrailleTable
