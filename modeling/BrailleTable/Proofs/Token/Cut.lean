/-
How tokens lie in their lines.

`Token.CutFrom line t` says that a token is a stretch of its line, with the kind of its spelling.  The
lexer cuts only such tokens, and cutting them further at their operators keeps it.
-/
import BrailleTable.Proofs.LogicalLine
import BrailleTable.Proofs.Value.ErrorPlace
import BrailleTable.Token.Lexer

namespace BrailleTable

namespace Token

structure CutFrom (line : LogicalLine) (t : Token) : Prop where
  source_eq : t.source = some line
  start_lt : t.start < t.stop
  stop_le : t.stop ≤ line.text.length
  span_eq : t.span = line.span t.start t.stop
  text_eq : t.text = line.text.slice t.start t.stop
  plain : t.kind ≠ .quoted → t.kind = .ofText t.text ∧ t.value = t.text ∧ ∀ c ∈ t.text, c.isBlank = false
  quoted : t.kind = .quoted → ∀ c ∈ t.value, c ∈ line.text

theorem CutFrom.length_text {line : LogicalLine} {t : Token} (h : t.CutFrom line) :
    t.text.length = t.stop - t.start := by
  rw [h.text_eq, Text.length_slice h.stop_le]

theorem CutFrom.mem_of_mem_value {line : LogicalLine} {t : Token} (h : t.CutFrom line) :
    ∀ c ∈ t.value, c ∈ line.text := by
  by_cases hkind : t.kind = .quoted
  · exact h.quoted hkind
  · intro c hc
    rw [(h.plain hkind).2.1, h.text_eq] at hc
    exact Text.mem_of_mem_slice hc

/-- An unquoted token does not end in a space. -/
theorem CutFrom.last_ne_space {line : LogicalLine} {t : Token} (h : t.CutFrom line)
    (hkind : t.kind ≠ .quoted) : line.text[t.stop - 1]? ≠ some (' ' : CodePoint) := by
  intro hspace
  have hlt := h.start_lt
  have hmem : (' ' : CodePoint) ∈ t.text := by
    rw [h.text_eq, Text.slice_eq]
    refine List.mem_of_getElem? (i := t.stop - 1 - t.start) ?_
    rw [List.getElem?_take_of_lt (by omega), List.getElem?_drop]
    rw [show t.start + (t.stop - 1 - t.start) = t.stop - 1 by omega]
    exact hspace
  have hblank := (h.plain hkind).2.2 _ hmem
  revert hblank
  decide

/-- A range that a token encloses starts between its start and its stop. -/
theorem CutFrom.span_mem {line : LogicalLine} {t : Token} (h : t.CutFrom line) (hline : line.IsPlaced)
    {s : Span} (hs : t.Encloses s) :
    s = t.span ∨ t.span.start ≤ s.start ∧ s.start ≤ t.span.stop := by
  rcases hs with hs | ⟨i, j, hi, rfl⟩
  · exact .inl hs
  · by_cases hkind : t.kind = .quoted
    · exact .inl (subSpan_of_quoted hkind i j)
    · right
      have hlt := h.start_lt
      have hlength := h.length_text
      unfold subSpan
      simp only [h.source_eq, if_neg hkind, h.span_eq]
      exact hline.span_start_mem (by omega) (by omega) hlt (h.last_ne_space hkind) _

/-- A piece of a line without white space, with the kind of its spelling, is cut from the line. -/
theorem cutFrom_plain {line : LogicalLine} {start : Nat} {piece after : Text} {kind : TokenKind}
    (hdrop : line.text.drop start = piece ++ after) (hne : piece ≠ [])
    (hblank : ∀ c ∈ piece, c.isBlank = false) (hkind : kind = .ofText piece) :
    (plain line kind start (start + piece.length)).CutFrom line := by
  have hpos : 0 < piece.length := List.length_pos_iff.mpr hne
  have hlength : line.text.length - start = piece.length + after.length := by
    rw [← List.length_drop, hdrop, List.length_append]
  have htext : line.text.slice start (start + piece.length) = piece := by
    rw [Text.slice_eq, hdrop, Nat.add_sub_cancel_left, List.take_left]
  refine ⟨rfl, ?_, ?_, rfl, rfl, fun _ => ⟨?_, rfl, fun c hc => ?_⟩, fun hquoted => ?_⟩
  · show start < start + piece.length
    omega
  · show start + piece.length ≤ line.text.length
    omega
  · show kind = .ofText (line.text.slice start (start + piece.length))
    rw [htext, hkind]
  · have hmem : c ∈ line.text.slice start (start + piece.length) := hc
    rw [htext] at hmem
    exact hblank c hmem
  · exact absurd (hkind.symm.trans hquoted) (TokenKind.ofText_ne_quoted piece)

theorem cutFrom_ofLine_quoted {line : LogicalLine} {start stop : Nat} {value : Text}
    (hlt : start < stop) (hle : stop ≤ line.text.length) (hmem : ∀ c ∈ value, c ∈ line.text) :
    (ofLine line .quoted start stop value).CutFrom line :=
  ⟨rfl, hlt, hle, rfl, rfl, fun hkind => absurd rfl hkind, fun _ => hmem⟩

end Token

/-! ## The lexer -/

namespace Lexer

theorem drop_length_takeWhile {α : Type} (p : α → Bool) (l : List α) :
    l.drop (l.takeWhile p).length = l.dropWhile p := by
  have hsplit : l.takeWhile p ++ l.dropWhile p = l := List.takeWhile_append_dropWhile
  calc
    l.drop (l.takeWhile p).length =
        (l.takeWhile p ++ l.dropWhile p).drop (l.takeWhile p).length := by rw [hsplit]
    _ = l.dropWhile p := List.drop_left

/-- A quoted string ends in its line and stands for code points of the line. -/
theorem readQuoted_eq_ok {line : LogicalLine} {start i stop : Nat} {s value : Text}
    (h : readQuoted line start i s = .ok (value, stop)) :
    i < stop ∧ stop ≤ i + s.length ∧ ∀ c ∈ value, c ∈ s := by
  fun_induction readQuoted line start i s generalizing value stop with
  | case1 => cases h
  | case2 i =>
    cases h
    exact ⟨by omega, Nat.le_refl _, fun c hc => absurd hc List.not_mem_nil⟩
  | case3 => cases h
  | case4 i d rest =>
    cases h
    refine ⟨by omega, ?_, fun c hc => absurd hc List.not_mem_nil⟩
    rw [List.length_cons]
    omega
  | case5 i d rest hc hd ih =>
    obtain ⟨⟨v, j⟩, hrest, heq⟩ := map_eq_ok h
    cases heq
    obtain ⟨hlt, hle, hmem⟩ := ih hrest
    refine ⟨by omega, ?_, fun b hb => ?_⟩
    · simp only [List.length_cons]
      omega
    · rcases List.mem_cons.mp hb with rfl | hb
      · exact List.mem_cons_of_mem _ List.mem_cons_self
      · exact List.mem_cons_of_mem _ (List.mem_cons_of_mem _ (hmem b hb))
  | case6 => cases h
  | case7 i c d rest hc hslash ih =>
    obtain ⟨⟨v, j⟩, hrest, heq⟩ := map_eq_ok h
    cases heq
    obtain ⟨hlt, hle, hmem⟩ := ih hrest
    refine ⟨by omega, ?_, fun b hb => ?_⟩
    · simp only [List.length_cons] at hle ⊢
      omega
    · rcases List.mem_cons.mp hb with rfl | hb
      · exact List.mem_cons_self
      · exact List.mem_cons_of_mem _ (hmem b hb)

/-- Passing a token changes where the lexer stands and what it expects, and nothing else. -/
theorem exists_note_eq (lx : Lexer) (t : Token) :
    ∃ inHead inExpression, lx.note t = { lx with index := t.stop, inHead, inExpression } := by
  unfold note
  dsimp only
  split
  · exact ⟨_, _, rfl⟩
  · split
    · split <;> exact ⟨_, _, rfl⟩
    · exact ⟨_, _, rfl⟩

theorem note_frame (lx : Lexer) (t : Token) :
    (lx.note t).line = lx.line ∧ (lx.note t).peeked = lx.peeked ∧ (lx.note t).comment = lx.comment := by
  obtain ⟨_, _, hnote⟩ := exists_note_eq lx t
  rw [hnote]
  exact ⟨rfl, rfl, rfl⟩

theorem index_note (lx : Lexer) (t : Token) : (lx.note t).index = t.stop := by
  obtain ⟨_, _, hnote⟩ := exists_note_eq lx t
  rw [hnote]

theorem rules_note (lx : Lexer) (t : Token) : (lx.note t).rules = lx.rules := by
  obtain ⟨_, _, hnote⟩ := exists_note_eq lx t
  rw [hnote]

/-- The ways in which the lexer goes past a token that starts with `c`: it is a parenthesis of an expression, a quoted
string, or a word that goes as far as it can. -/
inductive Cuts (lx : Lexer) (line : LogicalLine) (c : CodePoint) (rest : Text) : Token → Lexer → Prop
  | parenthesis : lx.inExpression = true → isParenthesis c = true →
      Cuts lx line c rest (.plain line .punctuation lx.index (lx.index + 1)) { lx with index := lx.index + 1 }
  | quoted {value : Text} {stop : Nat} : c = '"' → readQuoted line lx.index (lx.index + 1) rest = .ok (value, stop) →
      (∀ d, (line.text.drop stop).head? = some d → lx.mayFollowQuote d = true) →
      Cuts lx line c rest (.ofLine line .quoted lx.index stop value) (lx.note (.ofLine line .quoted lx.index stop value))
  | word {w v : Text} : c ≠ '"' → (lx.inExpression && isParenthesis c) = false → rest = w ++ v →
      (∀ d ∈ w, d.isBlank = false ∧ (lx.inExpression && isParenthesis d) = false) →
      (∀ d, v.head? = some d → d.isBlank = true ∨ (lx.inExpression && isParenthesis d) = true) →
      Cuts lx line c rest (.plain line (.ofText (c :: w)) lx.index (lx.index + (c :: w).length))
        (lx.note (.plain line (.ofText (c :: w)) lx.index (lx.index + (c :: w).length)))

theorem cuts_of_readToken {lx lx' : Lexer} {line : LogicalLine} {c : CodePoint} {rest : Text} {t : Token}
    (h : lx.readToken line c rest = .ok (t, lx')) : Cuts lx line c rest t lx' := by
  unfold readToken at h
  dsimp only at h
  split at h
  · rename_i hparen
    rw [Bool.and_eq_true] at hparen
    cases h
    exact .parenthesis hparen.1 hparen.2
  · rename_i hparen
    split at h
    · rename_i hquote
      split at h
      · cases h
      · rename_i hquoted
        split at h
        · rename_i hafter
          split at h
          · rename_i hfollow
            cases h
            refine .quoted hquote hquoted fun d hd => ?_
            rw [hafter] at hd
            cases hd
            exact hfollow
          · cases h
        · rename_i hafter
          cases h
          refine .quoted hquote hquoted fun d hd => ?_
          rw [hafter] at hd
          cases hd
    · rename_i hquote
      cases h
      refine .word hquote (Bool.eq_false_iff.mpr hparen) List.takeWhile_append_dropWhile.symm (fun d hd => ?_) fun d hd => ?_
      · have hgoes := List.mem_takeWhile_imp hd
        rw [Bool.and_eq_true, Bool.not_eq_true', Bool.not_eq_true'] at hgoes
        exact hgoes
      · have hnot := List.head?_dropWhile_not (fun d => !d.isBlank && !(lx.inExpression && isParenthesis d)) rest
        rw [hd] at hnot
        cases hblank : d.isBlank with
        | true => exact .inl rfl
        | false => simpa [hblank] using hnot

theorem isParenthesis_iff {c : CodePoint} : isParenthesis c = true ↔ c = '(' ∨ c = ')' := by
  unfold isParenthesis
  rw [Bool.or_eq_true, decide_eq_true_iff, decide_eq_true_iff]

theorem isOperatorChar_of_isParenthesis {c : CodePoint} (h : isParenthesis c = true) : Token.isOperatorChar c = true := by
  rcases isParenthesis_iff.mp h with rfl | rfl <;> decide

theorem ofText_of_isParenthesis {c : CodePoint} (h : isParenthesis c = true) :
    TokenKind.punctuation = .ofText [c] := by
  rcases isParenthesis_iff.mp h with rfl | rfl <;> decide +kernel

theorem readToken_eq_ok {lx lx' : Lexer} {line : LogicalLine} {c : CodePoint} {rest : Text} {t : Token}
    (hdrop : line.text.drop lx.index = c :: rest) (hc : c.isBlank = false)
    (h : lx.readToken line c rest = .ok (t, lx')) :
    t.CutFrom line ∧ lx'.line = lx.line ∧ lx'.peeked = lx.peeked ∧ lx'.comment = lx.comment := by
  cases cuts_of_readToken h with
  | parenthesis hin hparen =>
    have hpiece : line.text.drop lx.index = [c] ++ rest := hdrop
    refine ⟨?_, rfl, rfl, rfl⟩
    refine Token.cutFrom_plain hpiece (List.cons_ne_nil c []) (fun b hb => ?_) (ofText_of_isParenthesis hparen)
    rw [List.mem_singleton.mp hb]
    exact hc
  | quoted _ hquoted _ =>
    obtain ⟨hlt, hle, hmem⟩ := readQuoted_eq_ok hquoted
    have hlength : line.text.length - lx.index = rest.length + 1 := by
      rw [← List.length_drop, hdrop, List.length_cons]
    refine ⟨Token.cutFrom_ofLine_quoted (by omega) (by omega) fun b hb => ?_, note_frame _ _⟩
    have hin : b ∈ line.text.drop lx.index := by
      rw [hdrop]
      exact List.mem_cons_of_mem c (hmem b hb)
    exact List.mem_of_mem_drop hin
  | @word w v _ _ hrest hw _ =>
    have hpiece : line.text.drop lx.index = (c :: w) ++ v := by
      rw [hdrop, hrest, List.cons_append]
    refine ⟨Token.cutFrom_plain hpiece (List.cons_ne_nil c w) (fun b hb => ?_) rfl, note_frame _ _⟩
    rcases List.mem_cons.mp hb with rfl | hb
    · exact hc
    · exact (hw b hb).1

/-- The lexer when it has passed `n` more code points. -/
def skip (lx : Lexer) (n : Nat) : Lexer := { lx with index := lx.index + n }

/-- A token is read behind white space, from something that is no comment mark. -/
theorem readToken_of_read {lx lx' : Lexer} {line : LogicalLine} {t : Token} (hline : lx.line = some line)
    (h : lx.read = (.ok (some t), lx')) :
    ∃ (blanks : Text) (c : CodePoint) (rest : Text), line.text.drop lx.index = blanks ++ c :: rest ∧
      (∀ b ∈ blanks, b.isBlank = true) ∧ c.isBlank = false ∧ [c] ≠ lx.rules.commentMark ∧
      (lx.skip blanks.length).readToken line c rest = .ok (t, lx') := by
  unfold read at h
  rw [hline] at h
  dsimp only at h
  split at h
  · cases h
  · rename_i c rest hrest
    split at h
    · cases h
    · rename_i hmark
      split at h
      · cases h
      · rename_i hread
        cases h
        refine ⟨(line.text.drop lx.index).takeWhile CodePoint.isBlank, c, rest, ?_, ?_,
          Text.isBlank_of_dropWhile hrest, hmark, ?_⟩
        · rw [← hrest, List.takeWhile_append_dropWhile]
        · exact fun b hb => List.mem_takeWhile_imp hb
        · rw [skip, hline]
          exact hread

theorem read_eq_ok_some {lx lx' : Lexer} {line : LogicalLine} {t : Token} (hline : lx.line = some line)
    (h : lx.read = (.ok (some t), lx')) :
    t.CutFrom line ∧ lx'.line = some line ∧ lx'.peeked = lx.peeked ∧ lx'.comment = lx.comment := by
  obtain ⟨blanks, c, rest, hdrop, -, hc, -, hread⟩ := readToken_of_read hline h
  obtain ⟨hcut, hline', hframe⟩ := readToken_eq_ok (Text.drop_of_drop_eq hdrop) hc hread
  exact ⟨hcut, hline'.trans hline, hframe⟩

/-- Whatever state the lexer is in, it reads tokens of its line only. -/
theorem exists_cutFrom_of_read {lx : Lexer} {t : Token} (h : lx.read.1 = .ok (some t)) : ∃ line, t.CutFrom line := by
  cases hline : lx.line with
  | none =>
    unfold read at h
    rw [hline] at h
    cases h
  | some line => exact ⟨line, (read_eq_ok_some hline (Prod.ext h rfl)).1⟩

/-- A comment is made of code points of its line, without white space around it. -/
def CommentIn (line : LogicalLine) (comment : Option Text) : Prop :=
  ∀ text ∈ comment, text.IsStripped ∧ ∀ c ∈ text, c ∈ line.text

theorem read_eq_ok_none {lx lx' : Lexer} {line : LogicalLine} (hline : lx.line = some line)
    (hcomment : CommentIn line lx.comment) (h : lx.read = (.ok none, lx')) :
    CommentIn line lx'.comment := by
  unfold read at h
  rw [hline] at h
  dsimp only at h
  cases hrest : (line.text.drop lx.index).dropWhile CodePoint.isBlank with
  | nil =>
    rw [hrest] at h
    cases h
    exact hcomment
  | cons c after =>
    rw [hrest] at h
    dsimp only at h
    split at h
    · cases h
      intro text htext
      cases htext
      refine ⟨Text.isStripped_strip after, fun b hb => ?_⟩
      have hafter : b ∈ (line.text.drop lx.index).dropWhile CodePoint.isBlank := by
        rw [hrest]
        exact List.mem_cons_of_mem c (Text.mem_of_mem_strip hb)
      exact List.mem_of_mem_drop ((List.dropWhile_sublist _).mem hafter)
    · split at h <;> cases h

theorem drain_eq_ok {limit : Nat} {lx lx' : Lexer} {line : LogicalLine} {ts : List Token}
    (hline : lx.line = some line) (hpeeked : lx.peeked = none) (hcomment : CommentIn line lx.comment)
    (h : drain limit lx = (.ok ts, lx')) :
    (∀ t ∈ ts, t.CutFrom line) ∧ CommentIn line lx'.comment := by
  induction limit generalizing lx lx' ts with
  | zero =>
    cases h
    exact ⟨fun t ht => absurd ht List.not_mem_nil, hcomment⟩
  | succ limit ih =>
    unfold drain next at h
    rw [hpeeked] at h
    dsimp only at h
    cases hread : lx.read with
    | mk r lx₁ =>
      rw [hread] at h
      split at h
      · cases h
      · rename_i lx₂ heq
        cases heq
        cases h
        exact ⟨fun t ht => absurd ht List.not_mem_nil, read_eq_ok_none hline hcomment hread⟩
      · rename_i t lx₂ heq
        cases heq
        obtain ⟨hcut, hline₁, hpeeked₁, hcomment₁⟩ := read_eq_ok_some hline hread
        cases hrest : drain limit lx₁ with
        | mk rest lx₃ =>
          rw [hrest] at h
          obtain ⟨hmap, rfl⟩ := Prod.mk.inj h
          obtain ⟨us, hus, rfl⟩ := map_eq_ok hmap
          have hfirst : rest = .ok us := hus
          rw [hfirst] at hrest
          obtain ⟨hcuts, hend⟩ := ih hline₁ (hpeeked₁.trans hpeeked) (hcomment₁ ▸ hcomment) hrest
          refine ⟨fun u hu => ?_, hend⟩
          rcases List.mem_cons.mp hu with heq | hu
          · exact heq ▸ hcut
          · exact hcuts u hu

/-- The lexer cuts stretches of its line, and keeps the comment at its end. -/
theorem tokenize_eq_ok {lx lx' : Lexer} {line : LogicalLine} {ts : List Token}
    (h : lx.tokenize line = (.ok ts, lx')) :
    (∀ t ∈ ts, t.CutFrom line) ∧ CommentIn line lx'.comment :=
  drain_eq_ok rfl rfl (fun text htext => by cases htext) h

end Lexer

/-! ## Operators -/

namespace Token

theorem flatten_pieces (s : Text) : (pieces s).flatten = s := by
  fun_induction pieces s with
  | case1 => rfl
  | case2 c => rfl
  | case3 c d rest h ih =>
    rw [List.flatten_cons, ih]
    rfl
  | case4 c d rest h h' ih =>
    rw [List.flatten_cons, ih]
    rfl
  | case5 c d rest h h' hnil ih =>
    rw [hnil] at ih
    cases ih
  | case6 c d rest h h' piece more hcons ih =>
    rw [hcons, List.flatten_cons] at ih
    rw [List.flatten_cons, List.cons_append, ih]

theorem ne_nil_of_mem_pieces {s piece : Text} (h : piece ∈ pieces s) : piece ≠ [] := by
  fun_induction pieces s generalizing piece with
  | case1 => cases h
  | case2 c =>
    rw [List.mem_singleton.mp h]
    exact List.cons_ne_nil _ _
  | case3 c d rest hcond ih =>
    rcases List.mem_cons.mp h with rfl | h
    · exact List.cons_ne_nil _ _
    · exact ih h
  | case4 c d rest hcond hcond' ih =>
    rcases List.mem_cons.mp h with rfl | h
    · exact List.cons_ne_nil _ _
    · exact ih h
  | case5 c d rest hcond hcond' hnil ih =>
    rw [List.mem_singleton.mp h]
    exact List.cons_ne_nil _ _
  | case6 c d rest hcond hcond' first more hcons ih =>
    rcases List.mem_cons.mp h with rfl | h
    · exact List.cons_ne_nil _ _
    · exact ih (by rw [hcons]; exact List.mem_cons_of_mem _ h)

theorem ofText_of_mem_operators : ∀ text ∈ operators, TokenKind.ofText text = .punctuation := by
  decide +kernel

theorem cutFrom_of_mem_ofPieces {line : LogicalLine} {ps : List Text} {start : Nat}
    (hne : ∀ piece ∈ ps, piece ≠ []) (hle : start + ps.flatten.length ≤ line.text.length)
    (htext : line.text.slice start (start + ps.flatten.length) = ps.flatten)
    (hblank : ∀ c ∈ ps.flatten, c.isBlank = false) : ∀ t ∈ ofPieces line start ps, t.CutFrom line := by
  induction ps generalizing start with
  | nil => exact fun t ht => absurd ht List.not_mem_nil
  | cons piece ps ih =>
    rw [List.flatten_cons, List.length_append] at hle htext
    have hpos : 0 < piece.length := List.length_pos_of_ne_nil (hne piece List.mem_cons_self)
    rw [Text.slice_eq, Nat.add_sub_cancel_left] at htext
    have hpiece : line.text.slice start (start + piece.length) = piece := by
      have htake := congrArg (List.take piece.length) htext
      rw [List.take_take, Nat.min_eq_left (by omega), List.take_left] at htake
      rw [Text.slice_eq, Nat.add_sub_cancel_left]
      exact htake
    have hrest : line.text.slice (start + piece.length) (start + piece.length + ps.flatten.length) =
        ps.flatten := by
      have hdrop := congrArg (List.drop piece.length) htext
      rw [List.drop_take, List.drop_drop, List.drop_left, Nat.add_sub_cancel_left] at hdrop
      rw [Text.slice_eq, Nat.add_sub_cancel_left]
      exact hdrop
    intro t ht
    rcases List.mem_cons.mp ht with rfl | ht
    · refine ⟨rfl, by show start < start + piece.length; omega, by show start + piece.length ≤ _; omega,
        rfl, hpiece.symm, fun _ => ⟨?_, rfl, fun c hc => ?_⟩, fun hk => ?_⟩
      · show (if piece ∈ operators then TokenKind.punctuation else .ofText piece) = .ofText piece
        by_cases hop : piece ∈ operators
        · rw [if_pos hop, ofText_of_mem_operators piece hop]
        · rw [if_neg hop]
      · exact hblank c (List.mem_append_left _ hc)
      · have hk' : (if piece ∈ operators then TokenKind.punctuation else .ofText piece) = .quoted := hk
        by_cases hop : piece ∈ operators
        · rw [if_pos hop] at hk'
          cases hk'
        · rw [if_neg hop] at hk'
          exact absurd hk' (TokenKind.ofText_ne_quoted _)
    · exact ih (fun p hp => hne p (List.mem_cons_of_mem _ hp)) (by omega) hrest
        (fun c hc => hblank c (List.mem_append_right _ hc)) t ht

theorem CutFrom.splitOperators {line : LogicalLine} {t : Token} (h : t.CutFrom line) :
    ∀ u ∈ t.splitOperators, u.CutFrom line := by
  unfold Token.splitOperators
  rw [h.source_eq]
  dsimp only
  have hself : ∀ u ∈ [t], u.CutFrom line := by
    intro u hu
    rw [List.mem_singleton.mp hu]
    exact h
  split
  · exact hself
  · rename_i hcond
    have hkind : t.kind ≠ .quoted := fun hk => hcond (.inl hk)
    have hflat := flatten_pieces t.text
    have hlength := h.length_text
    have hlt := h.start_lt
    have hstop : t.start + (pieces t.text).flatten.length = t.stop := by
      rw [hflat]
      omega
    split
    · exact hself
    · refine cutFrom_of_mem_ofPieces (fun p hp => ne_nil_of_mem_pieces hp) ?_ ?_ ?_
      · rw [hstop]
        exact h.stop_le
      · rw [hstop, hflat]
        exact h.text_eq.symm
      · rw [hflat]
        exact (h.plain hkind).2.2

end Token
end BrailleTable
