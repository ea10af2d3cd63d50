/-
Cutting at operators, before the lexer has seen the expression and after.

In an expression the lexer makes parentheses tokens of their own, and afterwards tokens are cut at all operators.  On a line
without quotes and comments the second step alone gives the same: the runs between white space, cut at their operators.
For a parenthesis is a piece by itself wherever it stands, so it does not matter whether a run is cut before or behind it
first.
-/
import BrailleTable.Proofs.Token.Covering
import BrailleTable.Proofs.Token.Session

namespace BrailleTable

namespace Token

open Lexer (isParenthesis isOperatorChar_of_isParenthesis)

/-! ## Pieces -/

theorem isOperatorChar_of_pair {c d : CodePoint} (h : ((c = '!' || c = '<' || c = '>') && d = '=') = true) :
    isParenthesis c = false ∧ isParenthesis d = false ∧ isOperatorChar d = true := by
  simp only [Bool.and_eq_true, Bool.or_eq_true, decide_eq_true_iff] at h
  obtain ⟨(rfl | rfl) | rfl, rfl⟩ := h <;> decide

/-- Where one text ends or the next one starts with a parenthesis, the two are cut apart. -/
def Seam (v w : Text) : Prop := v.getLast?.any isParenthesis = true ∨ w.head?.any isParenthesis = true

theorem pieces_append {v w : Text} (h : Seam v w) : pieces (v ++ w) = pieces v ++ pieces w := by
  fun_induction pieces v with
  | case1 => rfl
  | case2 c =>
    cases w with
    | nil => rfl
    | cons d w =>
      have hparen : isParenthesis c = true ∨ isParenthesis d = true := h
      have hnot : ¬ ((c = '!' || c = '<' || c = '>') && d = '=') = true := by
        intro hpair
        obtain ⟨hc, hd, -⟩ := isOperatorChar_of_pair hpair
        rw [hc, hd] at hparen
        exact hparen.elim Bool.false_ne_true Bool.false_ne_true
      have hoperator : (isOperatorChar c || isOperatorChar d) = true :=
        Bool.or_eq_true_iff.mpr (hparen.imp isOperatorChar_of_isParenthesis isOperatorChar_of_isParenthesis)
      show pieces (c :: d :: w) = [c] :: pieces (d :: w)
      rw [pieces, if_neg hnot, if_pos hoperator]
  | case3 c d rest hpair ih =>
    have hrest : pieces (rest ++ w) = pieces rest ++ pieces w := by
      cases rest with
      | nil => rfl
      | cons b rest => exact ih h
    show pieces (c :: d :: (rest ++ w)) = [c, d] :: (pieces rest ++ pieces w)
    rw [pieces, if_pos hpair, hrest]
  | case4 c d rest hpair hoperator ih =>
    show pieces (c :: d :: (rest ++ w)) = [c] :: (pieces (d :: rest) ++ pieces w)
    rw [pieces, if_neg hpair, if_pos hoperator, ← ih h]
    rfl
  | case5 c d rest _ _ hnil ih =>
    have hflat := flatten_pieces (d :: rest)
    rw [hnil] at hflat
    cases hflat
  | case6 c d rest hpair hoperator piece more hpieces ih =>
    have hrest : pieces (d :: (rest ++ w)) = piece :: (more ++ pieces w) := by
      rw [hpieces] at ih
      exact ih h
    show pieces (c :: d :: (rest ++ w)) = (c :: piece) :: (more ++ pieces w)
    rw [pieces, if_neg hpair, if_neg hoperator, hrest]

/-- A piece is not cut any further. -/
theorem pieces_of_mem_pieces {s piece : Text} (h : piece ∈ pieces s) : pieces piece = [piece] := by
  fun_induction pieces s generalizing piece with
  | case1 => cases h
  | case2 c =>
    rw [List.mem_singleton.mp h]
    rfl
  | case3 c d rest hpair ih =>
    rcases List.mem_cons.mp h with rfl | h
    · rw [pieces, if_pos hpair]
      rfl
    · exact ih h
  | case4 c d rest _ _ ih =>
    rcases List.mem_cons.mp h with rfl | h
    · rfl
    · exact ih h
  | case5 c d rest =>
    rw [List.mem_singleton.mp h]
    rfl
  | case6 c d rest hpair hoperator first more hpieces ih =>
    rcases List.mem_cons.mp h with rfl | h
    · -- The first piece goes on with the code points of the text, so the one before it joins it again.
      have hfirst : first ∈ first :: more := List.mem_cons_self
      have hwhole := ih (by rw [hpieces]; exact hfirst)
      have hflat := flatten_pieces (d :: rest)
      have hne := ne_nil_of_mem_pieces (by rw [hpieces]; exact hfirst)
      rw [hpieces, List.flatten_cons] at hflat
      cases first with
      | nil => exact absurd rfl hne
      | cons b first =>
        cases hflat
        rw [pieces, if_neg hpair, if_neg hoperator, hwhole]
    · exact ih (by rw [hpieces]; exact List.mem_cons_of_mem first h)

/-! ## Tokens of pieces -/

theorem ofPieces_append (line : LogicalLine) (start : Nat) (ps qs : List Text) :
    ofPieces line start (ps ++ qs) = ofPieces line start ps ++ ofPieces line (start + ps.flatten.length) qs := by
  induction ps generalizing start with
  | nil => rfl
  | cons piece ps ih =>
    rw [List.cons_append, ofPieces, ofPieces, ih, List.cons_append, List.flatten_cons, List.length_append,
      Nat.add_assoc]

theorem map_text_ofPieces (line : LogicalLine) (start : Nat) (ps : List Text) :
    (ofPieces line start ps).map Token.text = ps := by
  induction ps generalizing start with
  | nil => rfl
  | cons piece ps ih => exact congrArg (piece :: ·) (ih _)

/-- Tokens that lie end to end from index `i` up to index `j`. -/
def EndToEnd (i j : Nat) : List Token → Prop
  | [] => i = j
  | t :: ts => t.start = i ∧ EndToEnd t.stop j ts

theorem endToEnd_ofPieces (line : LogicalLine) (start : Nat) (ps : List Text) :
    EndToEnd start (start + ps.flatten.length) (ofPieces line start ps) := by
  induction ps generalizing start with
  | nil => rfl
  | cons piece ps ih =>
    rw [List.flatten_cons, List.length_append, ← Nat.add_assoc]
    exact ⟨rfl, ih _⟩

/-- A token stays whole, or it is replaced by its pieces. -/
theorem splitOperators_eq (t : Token) :
    t.splitOperators = [t] ∨ ∃ line, t.splitOperators = ofPieces line t.start (pieces t.text) := by
  unfold splitOperators
  split
  · exact .inl rfl
  · rename_i line _
    split
    · exact .inl rfl
    · split
      · exact .inl rfl
      · exact .inr ⟨line, rfl⟩

/-- What cutting leaves is not cut any further. -/
theorem splitOperators_of_mem {t u : Token} (h : u ∈ t.splitOperators) : u.splitOperators = [u] := by
  rcases splitOperators_eq t with hwhole | ⟨line, hpieces⟩
  · rw [hwhole] at h
    rw [List.mem_singleton.mp h]
    exact hwhole
  · rw [hpieces] at h
    have htext : u.text ∈ pieces t.text := by
      rw [← map_text_ofPieces line t.start (pieces t.text)]
      exact List.mem_map_of_mem h
    exact splitOperators_of_isWhole (.inr ⟨u.text, pieces_of_mem_pieces htext⟩)

theorem flatMap_splitOperators_of_forall {ts : List Token} (h : ∀ t ∈ ts, t.splitOperators = [t]) :
    ts.flatMap splitOperators = ts := by
  induction ts with
  | nil => rfl
  | cons t ts ih =>
    rw [List.flatMap_cons, h t List.mem_cons_self, ih fun u hu => h u (List.mem_cons_of_mem t hu)]
    rfl

/-- Cutting a second time changes nothing. -/
theorem flatMap_splitOperators_twice (ts : List Token) :
    (ts.flatMap splitOperators).flatMap splitOperators = ts.flatMap splitOperators := by
  refine flatMap_splitOperators_of_forall fun u hu => ?_
  obtain ⟨t, -, hmem⟩ := List.mem_flatMap.mp hu
  exact splitOperators_of_mem hmem

/-- The parts of a token spell it and lie end to end, up to the end of the token if its range is as long as its text. -/
theorem endToEnd_splitOperators (t : Token) :
    (t.splitOperators.map Token.text).flatten = t.text ∧ ∃ j, EndToEnd t.start j t.splitOperators ∧
      (t.stop = t.start + t.text.length → j = t.stop) := by
  rcases splitOperators_eq t with hwhole | ⟨line, hpieces⟩
  · rw [hwhole]
    exact ⟨List.append_nil t.text, t.stop, ⟨rfl, rfl⟩, fun _ => rfl⟩
  · have hends := endToEnd_ofPieces line t.start (pieces t.text)
    rw [flatten_pieces] at hends
    rw [hpieces, map_text_ofPieces, flatten_pieces]
    exact ⟨rfl, _, hends, Eq.symm⟩

/-- A token that the lexer has cut from a line without quotes is replaced by its pieces even if it is whole. -/
theorem CutFrom.splitOperators_eq {line : LogicalLine} {t : Token} (h : t.CutFrom line) (hkind : t.kind ≠ .quoted) :
    t.splitOperators = ofPieces line t.start (pieces t.text) := by
  obtain ⟨hplain, hvalue, -⟩ := h.plain hkind
  have hstop : t.stop = t.start + t.text.length := by
    have hlt := h.start_lt
    rw [h.length_text]
    omega
  have hself : ofPieces line t.start [t.text] = [t] := by
    have hspan := h.span_eq
    have hsource := h.source_eq
    obtain ⟨kind, text, value, span, start, stop, source⟩ := t
    dsimp only at hplain hvalue hstop hspan hsource
    subst hvalue hspan hsource hstop
    have hkind' : (if value ∈ operators then TokenKind.punctuation else .ofText value) = kind := by
      split
      · rename_i hmem
        rw [hplain, ofText_of_mem_operators _ hmem]
      · exact hplain.symm
    unfold ofPieces
    rw [hkind']
    rfl
  unfold Token.splitOperators
  rw [h.source_eq]
  dsimp only
  split
  · rename_i hone
    obtain ⟨c, hc⟩ := List.length_eq_one_iff.mp (hone.resolve_left hkind)
    rw [hc] at hself ⊢
    exact hself.symm
  · split
    · rename_i piece hpiece
      have hflat := flatten_pieces t.text
      rw [hpiece, List.flatten_cons, List.flatten_nil, List.append_nil] at hflat
      rw [hpiece, hflat]
      exact hself.symm
    · rfl

end Token

/-! ## The fragments of a line -/

namespace LogicalLine

open Token (ofPieces Seam)

/-- The runs between the white space of `s`, which stands at index `i` of a line, cut at their operators. -/
def fragments (line : LogicalLine) (i : Nat) : Text → List Token
  | [] => []
  | c :: rest =>
    if c.isBlank then fragments line (i + 1) rest
    else
      let word := c :: rest.takeWhile fun d => !d.isBlank
      ofPieces line i (Token.pieces word) ++ fragments line (i + word.length) (rest.dropWhile fun d => !d.isBlank)
termination_by s => s.length
decreasing_by
  · exact Nat.lt_succ_self _
  · exact Nat.lt_succ_of_le (List.length_dropWhile_le _ rest)

variable {line : LogicalLine} {i : Nat} {w s : Text}

theorem fragments_blanks (h : ∀ b ∈ w, b.isBlank = true) :
    line.fragments i (w ++ s) = line.fragments (i + w.length) s := by
  induction w generalizing i with
  | nil => rfl
  | cons b w ih =>
    rw [List.cons_append, fragments, if_pos (h b List.mem_cons_self), ih fun c hc => h c (List.mem_cons_of_mem b hc)]
    rw [List.length_cons, Nat.add_assoc, Nat.add_comm 1]

theorem fragments_run (hne : w ≠ []) (h : ∀ c ∈ w, c.isBlank = false)
    (hs : ∀ c, s.head? = some c → c.isBlank = true) :
    line.fragments i (w ++ s) = ofPieces line i (Token.pieces w) ++ line.fragments (i + w.length) s := by
  cases w with
  | nil => exact absurd rfl hne
  | cons c w =>
    have htake : (w ++ s).takeWhile (fun d => !d.isBlank) = w := by
      rw [List.takeWhile_append_of_pos fun d hd => by rw [h d (List.mem_cons_of_mem c hd)]; rfl]
      cases s with
      | nil => exact List.append_nil w
      | cons d s => rw [List.takeWhile_cons_of_neg (by rw [hs d rfl]; decide), List.append_nil]
    have hdrop : (w ++ s).dropWhile (fun d => !d.isBlank) = s := by
      rw [List.dropWhile_append_of_pos fun d hd => by rw [h d (List.mem_cons_of_mem c hd)]; rfl]
      cases s with
      | nil => rfl
      | cons d s => exact List.dropWhile_cons_of_neg (by rw [hs d rfl]; decide)
    rw [List.cons_append, fragments, if_neg (by rw [h c List.mem_cons_self]; decide)]
    dsimp only
    rw [htake, hdrop]

/-- A run may be cut where a parenthesis ends or starts, and what is left may go on without white space. -/
theorem fragments_append (hne : w ≠ []) (h : ∀ c ∈ w, c.isBlank = false)
    (hs : Seam w s ∨ ∀ c, s.head? = some c → c.isBlank = true) :
    line.fragments i (w ++ s) = ofPieces line i (Token.pieces w) ++ line.fragments (i + w.length) s := by
  rcases hs with hseam | hs
  · cases s with
    | nil => exact fragments_run hne h fun c hc => by cases hc
    | cons d s =>
      by_cases hd : d.isBlank = true
      · refine fragments_run hne h fun c hc => ?_
        cases hc
        exact hd
      · -- The run goes on behind the seam.
        have hd : d.isBlank = false := by simpa using hd
        obtain ⟨v, rest, hsplit, hv, hrest⟩ : ∃ v rest, s = v ++ rest ∧ (∀ c ∈ v, c.isBlank = false) ∧
            ∀ c, rest.head? = some c → c.isBlank = true := by
          refine ⟨_, _, (List.takeWhile_append_dropWhile (p := fun c => !CodePoint.isBlank c)).symm, ?_, ?_⟩
          · intro c hc
            simpa using List.mem_takeWhile_imp hc
          · intro c hc
            have hhead := List.head?_dropWhile_not (fun c => !CodePoint.isBlank c) s
            rw [hc] at hhead
            simpa using hhead
        have hrun : ∀ c ∈ d :: v, c.isBlank = false := List.forall_mem_cons.mpr ⟨hd, hv⟩
        have hboth : ∀ c ∈ w ++ d :: v, c.isBlank = false := fun c hc =>
          (List.mem_append.mp hc).elim (h c) (hrun c)
        have hseam' : Seam w (d :: v) := hseam
        subst hsplit
        rw [← List.cons_append, ← List.append_assoc,
          fragments_run (List.append_ne_nil_of_left_ne_nil hne _) hboth hrest, Token.pieces_append hseam',
          Token.ofPieces_append, Token.flatten_pieces, List.append_assoc, List.length_append, ← Nat.add_assoc,
          fragments_run (List.cons_ne_nil d v) hrun hrest]
  · exact fragments_run hne h hs

end LogicalLine

namespace Lexer

open Token (Seam)

variable {lx lx' : Lexer} {line : LogicalLine} {t : Token} {ts : List Token} {c : CodePoint} {rest : Text}

theorem quoted_of_readToken (h : lx.readToken line c rest = .ok (t, lx')) (hkind : t.kind = .quoted) : c = '"' := by
  cases cuts_of_readToken h with
  | parenthesis => cases hkind
  | quoted hquote => exact hquote
  | word => exact absurd hkind (TokenKind.ofText_ne_quoted _)

/-- Only a quote is refused. -/
theorem quoted_of_readToken_eq_error {e : ParseError} (h : lx.readToken line c rest = .error e) : c = '"' := by
  unfold readToken at h
  dsimp only at h
  split at h
  · cases h
  · split at h
    · assumption
    · cases h

theorem mem_of_read_eq_error {e : ParseError} (hline : lx.line = some line) (h : lx.read.1 = .error e) :
    ('"' : CodePoint) ∈ line.text := by
  unfold read at h
  rw [hline] at h
  dsimp only at h
  split at h
  · cases h
  · rename_i c rest hrest
    split at h
    · cases h
    · split at h
      · rename_i hread
        have hmem : c ∈ (line.text.drop lx.index).dropWhile CodePoint.isBlank := by
          rw [hrest]
          exact List.mem_cons_self
        rw [← quoted_of_readToken_eq_error hread]
        exact List.mem_of_mem_drop ((List.dropWhile_sublist _).mem hmem)
      · cases h

/-- A token of a line without quotes and comments is made of the first pieces of what is left of the line. -/
theorem fragments_of_read (hline : lx.line = some line) (hquote : ('"' : CodePoint) ∉ line.text)
    (hmark : ∀ c ∈ line.text, [c] ≠ lx.rules.commentMark) (h : lx.read = (.ok (some t), lx')) :
    line.fragments lx.index (line.text.drop lx.index) =
      t.splitOperators ++ line.fragments lx'.index (line.text.drop lx'.index) := by
  obtain ⟨hcut, -⟩ := read_eq_ok_some hline h
  obtain ⟨blanks, c, rest, hdrop, hblanks, -, -, hread⟩ := readToken_of_read hline h
  obtain ⟨hstart, hindex⟩ := index_readToken hread
  have hdrop₁ : line.text.drop t.start = c :: rest := by
    rw [hstart]
    exact Text.drop_of_drop_eq hdrop
  have hkind : t.kind ≠ .quoted := by
    intro hkind
    have hc : c ∈ line.text.drop lx.index := by
      rw [hdrop]
      exact List.mem_append_right blanks List.mem_cons_self
    rw [quoted_of_readToken hread hkind] at hc
    exact hquote (List.mem_of_mem_drop hc)
  have hstop : t.start + t.text.length = t.stop := by
    have hlt := hcut.start_lt
    rw [hcut.length_text]
    omega
  have hne : t.text ≠ [] := List.ne_nil_of_length_pos (by have hlt := hcut.start_lt; omega)
  have htext : line.text.drop t.start = t.text ++ line.text.drop t.stop := by
    rw [hcut.text_eq]
    exact (Text.slice_append_drop line.text hcut.start_lt.le).symm
  have hends : Seam t.text (line.text.drop t.stop) ∨
      ∀ d, (line.text.drop t.stop).head? = some d → d.isBlank = true := by
    rcases stops_of_readToken (Text.drop_of_drop_eq hdrop) hread with ⟨-, -, hparen⟩ | hstops
    · left
      left
      rcases hparen with hparen | hparen <;> rw [hparen] <;> rfl
    · cases hafter : line.text.drop t.stop with
      | nil => exact .inr fun d hd => by cases hd
      | cons d after =>
        rw [hafter] at hstops
        rcases hstops d rfl with hblank | hcomment | ⟨-, hparen⟩
        · refine .inr fun b hb => ?_
          cases hb
          exact hblank
        · have hmem : d ∈ line.text.drop t.stop := by
            rw [hafter]
            exact List.mem_cons_self
          exact absurd hcomment (hmark d (List.mem_of_mem_drop hmem))
        · exact .inl (.inr hparen)
  have hblank := (hcut.plain hkind).2.2
  rw [hcut.splitOperators_eq hkind, hindex, ← hstop, ← LogicalLine.fragments_append hne hblank (hstop ▸ hends), hstop,
    ← htext, hdrop₁, hstart, hdrop]
  exact LogicalLine.fragments_blanks hblanks

/-- On a line without quotes and comments no lexer fails, and its tokens are cut into the fragments of the line. -/
theorem Gives.fragments {s : TokenStream} (h : Gives lx s) (hline : lx.line = some line)
    (hquote : ('"' : CodePoint) ∉ line.text) (hmark : ∀ c ∈ line.text, [c] ≠ lx.rules.commentMark) :
    s.fault = none ∧
      s.tokens.flatMap Token.splitOperators = line.fragments lx.index (line.text.drop lx.index) := by
  induction h with
  | @token lx lx' t ts fault hpeeked hread _ ih =>
    obtain ⟨-, hline', -⟩ := read_eq_ok_some hline hread
    have hrules : lx'.rules = lx.rules := by
      have hsame := rules_read lx
      rwa [hread] at hsame
    obtain ⟨hfault, hrest⟩ := ih hline' (by rw [hrules]; exact hmark)
    refine ⟨hfault, ?_⟩
    rw [fragments_of_read hline hquote hmark hread, ← hrest]
    rfl
  | @stop lx lx' fault hpeeked hread =>
    cases fault with
    | some e => exact absurd (mem_of_read_eq_error hline (congrArg Prod.fst hread)) hquote
    | none =>
      obtain ⟨blanks, rest, hdrop, hblanks, hrest⟩ := ending_of_read hline hread
      rcases hrest with ⟨rfl, -⟩ | ⟨c, after, rfl, -, hcomment, -⟩
      · rw [hdrop, LogicalLine.fragments_blanks hblanks, LogicalLine.fragments]
        exact ⟨rfl, rfl⟩
      · have hmem : c ∈ line.text.drop lx.index := by
          rw [hdrop]
          exact List.mem_append_right blanks List.mem_cons_self
        exact absurd hcomment (hmark c (List.mem_of_mem_drop hmem))

theorem exists_tokenize_fragments (lx : Lexer) (hquote : ('"' : CodePoint) ∉ line.text)
    (hmark : ∀ c ∈ line.text, [c] ≠ lx.rules.commentMark) :
    ∃ ts, (lx.tokenize line).1 = .ok ts ∧ ts.flatMap Token.splitOperators = line.fragments 0 line.text := by
  obtain ⟨s, hs, hlength⟩ : ∃ s, Gives (lx.reset line) s ∧ s.tokens.length ≤ line.text.length - 0 :=
    exists_gives rfl rfl
  obtain ⟨hfault, htokens⟩ := hs.fragments rfl hquote hmark
  refine ⟨s.tokens, ?_, htokens⟩
  have hresult : s.result = .ok s.tokens := by
    unfold TokenStream.result
    rw [hfault]
  exact (hs.drain_eq (Nat.lt_succ_of_le hlength)).trans hresult

/-- On a line without quotes and comments it makes no difference to the parts of its tokens which opcodes and modifiers a
lexer knows.  Cutting a second time changes nothing; a quoted string stays whole; and the parts of a token spell it and lie
end to end. -/
theorem flatMap_splitOperators_tokenize {opcodes modifiers : List Text}
    (hrules : lx.rules = .ofNames "#" opcodes modifiers) (hquote : ('"' : CodePoint) ∉ line.text)
    (hmark : ('#' : CodePoint) ∉ line.text) :
    (∃ ts us, (lx.tokenize line).1 = .ok ts ∧ (basic.tokenize line).1 = .ok us ∧
      ts.flatMap Token.splitOperators = us.flatMap Token.splitOperators) ∧
    (∀ ts : List Token, (ts.flatMap Token.splitOperators).flatMap Token.splitOperators =
      ts.flatMap Token.splitOperators) ∧
    (∀ t : Token, t.kind = .quoted → t.splitOperators = [t]) ∧
    ∀ t : Token, (t.splitOperators.map Token.text).flatten = t.text ∧
      ∃ j, Token.EndToEnd t.start j t.splitOperators ∧ (t.stop = t.start + t.text.length → j = t.stop) := by
  have hnone : ∀ c ∈ line.text, [c] ≠ (LexRules.ofNames "#" opcodes modifiers).commentMark := by
    rintro c hc heq
    cases heq
    exact hmark hc
  refine ⟨?_, Token.flatMap_splitOperators_twice, fun t => Token.splitOperators_of_quoted,
    Token.endToEnd_splitOperators⟩
  obtain ⟨ts, hts, hfragments⟩ := exists_tokenize_fragments lx hquote (by rw [hrules]; exact hnone)
  obtain ⟨us, hus, hfragments'⟩ := exists_tokenize_fragments basic hquote hnone
  exact ⟨ts, us, hts, hus, hfragments.trans hfragments'.symm⟩

end Lexer

/-- A line whose expression has its parentheses and comparisons next to each other. -/
def gluedLine : LogicalLine := .single "test not(a<=(b)=!x!=))y actions go(1)" ⟨1, 1, 0⟩

theorem flatMap_splitOperators_tokenize_gluedLine :
    ('"' : CodePoint) ∉ gluedLine.text ∧ ('#' : CodePoint) ∉ gluedLine.text ∧
      ∃ ts us, ((Lexer.ofRules (.ofNames "#" ["Test"] [])).tokenize gluedLine).1 = .ok ts ∧
        (Lexer.basic.tokenize gluedLine).1 = .ok us ∧ ts.length = 16 ∧ us.length = 4 ∧
        ts.flatMap Token.splitOperators = us.flatMap Token.splitOperators := by
  have hquote : ('"' : CodePoint) ∉ gluedLine.text := by decide
  have hmark : ('#' : CodePoint) ∉ gluedLine.text := by decide
  have hrules : (Lexer.ofRules (.ofNames "#" ["Test"] [])).rules = .ofNames "#" ["Test"] [] := rfl
  obtain ⟨⟨ts, us, hts, hus, heq⟩, -⟩ := Lexer.flatMap_splitOperators_tokenize hrules hquote hmark
  have hlength : ((Lexer.ofRules (.ofNames "#" ["Test"] [])).tokenize gluedLine).1.toOption.map List.length =
      some 16 := by
    decide +kernel
  have hlength' : (Lexer.basic.tokenize gluedLine).1.toOption.map List.length = some 4 := by decide +kernel
  rw [hts] at hlength
  rw [hus] at hlength'
  exact ⟨hquote, hmark, ts, us, hts, hus, Option.some.inj hlength, Option.some.inj hlength', heq⟩

end BrailleTable
