/-
How the lexer goes along a line.

Every token starts where the lexer stands, behind white space, and leaves the lexer at its end.  So the tokens of a line
lie one after the other, and so do the parts that they are cut into at their operators.  An error of the lexer is about a
stretch of the line as well.
-/
import BrailleTable.Proofs.Token.Cut

namespace BrailleTable

/-! ## Tokens in order -/

namespace Token

/-- A token that is over where another one starts, or before. -/
def Precedes (t u : Token) : Prop := t.stop ≤ u.start

end Token

namespace Lexer

variable {lx lx' : Lexer} {line : LogicalLine} {t : Token}

theorem index_readToken {c : CodePoint} {rest : Text} (h : lx.readToken line c rest = .ok (t, lx')) :
    t.start = lx.index ∧ lx'.index = t.stop := by
  cases cuts_of_readToken h with
  | parenthesis => exact ⟨rfl, rfl⟩
  | quoted => exact ⟨rfl, index_note lx _⟩
  | word => exact ⟨rfl, index_note lx _⟩

theorem index_read (hline : lx.line = some line) (h : lx.read = (.ok (some t), lx')) :
    lx.index ≤ t.start ∧ lx'.index = t.stop := by
  obtain ⟨blanks, c, rest, -, -, -, -, hread⟩ := readToken_of_read hline h
  obtain ⟨hstart, hstop⟩ := index_readToken hread
  exact ⟨by rw [hstart]; exact Nat.le_add_right _ _, hstop⟩

theorem pairwise_drain {limit : Nat} {ts : List Token} (hline : lx.line = some line) (hpeeked : lx.peeked = none)
    (h : drain limit lx = (.ok ts, lx')) : ts.Pairwise Token.Precedes ∧ ∀ t ∈ ts, lx.index ≤ t.start := by
  induction limit generalizing lx lx' ts with
  | zero =>
    cases h
    exact ⟨.nil, fun t ht => absurd ht List.not_mem_nil⟩
  | succ limit ih =>
    unfold drain next at h
    rw [hpeeked] at h
    dsimp only at h
    cases hread : lx.read with
    | mk r lx₁ =>
      rw [hread] at h
      split at h
      · cases h
      · cases h
        exact ⟨.nil, fun t ht => absurd ht List.not_mem_nil⟩
      · rename_i t lx₂ heq
        cases heq
        obtain ⟨hcut, hline₁, hpeeked₁, -⟩ := read_eq_ok_some hline hread
        obtain ⟨hstart, hindex⟩ := index_read hline hread
        have hlt := hcut.start_lt
        obtain ⟨us, hus, rfl⟩ := map_eq_ok (Prod.mk.inj h).1
        obtain ⟨hpairwise, hfrom⟩ := ih hline₁ (hpeeked₁.trans hpeeked) (Prod.ext hus rfl)
        refine ⟨.cons (fun u hu => ?_) hpairwise, fun u hu => ?_⟩
        · have hle := hfrom u hu
          rw [Token.Precedes]
          omega
        · rcases List.mem_cons.mp hu with rfl | hu
          · exact hstart
          · have hle := hfrom u hu
            omega

/-- The tokens of a line lie one after the other. -/
theorem pairwise_tokenize {ts : List Token} (h : lx.tokenize line = (.ok ts, lx')) : ts.Pairwise Token.Precedes :=
  (pairwise_drain rfl rfl h).1

/-! ## Errors -/

/-- An error of the lexer, about a stretch of its line. -/
def IsLexical (line : LogicalLine) (e : ParseError) : Prop :=
  e.category = .lexical ∧ ∃ i j : Nat, i < j ∧ j ≤ line.text.length ∧ e.span = line.span i j

theorem isLexical_of_readQuoted {start i : Nat} {s : Text} {e : ParseError} (hstart : start < i)
    (hi : i + s.length = line.text.length) (h : readQuoted line start i s = .error e) : IsLexical line e := by
  have hunterminated : IsLexical line (readQuoted.unterminated line start) :=
    ⟨rfl, start, start + 1, by omega, by omega, rfl⟩
  fun_induction readQuoted line start i s with
  | case1 =>
    cases h
    exact hunterminated
  | case2 => cases h
  | case3 =>
    cases h
    exact hunterminated
  | case4 => cases h
  | case5 i d rest _ _ ih =>
    simp only [List.length_cons] at hi
    exact ih (by omega) (by omega) (map_eq_error h)
  | case6 i d rest =>
    cases h
    simp only [List.length_cons] at hi
    exact ⟨rfl, i, i + 2, by omega, by omega, rfl⟩
  | case7 i c d rest _ _ ih =>
    simp only [List.length_cons] at hi ih
    exact ih (by omega) (by omega) (map_eq_error h)

theorem isLexical_of_readToken {c : CodePoint} {rest : Text} {e : ParseError}
    (hdrop : line.text.drop lx.index = c :: rest) (h : lx.readToken line c rest = .error e) : IsLexical line e := by
  have hlength : line.text.length - lx.index = rest.length + 1 := by
    rw [← List.length_drop, hdrop, List.length_cons]
  unfold readToken at h
  dsimp only at h
  split at h
  · cases h
  · split at h
    · split at h
      · rename_i hquoted
        cases h
        exact isLexical_of_readQuoted (Nat.lt_succ_self _) (by omega) hquoted
      · split at h
        · split at h
          · cases h
          · rename_i value stop _ _ d after hafter _
            cases h
            have hstop : line.text.length - stop = after.length + 1 := by
              rw [← List.length_drop, hafter, List.length_cons]
            exact ⟨rfl, stop, stop + 1, by omega, by omega, rfl⟩
        · cases h
    · cases h

theorem isLexical_of_read {e : ParseError} (hline : lx.line = some line) (h : lx.read.1 = .error e) :
    IsLexical line e := by
  have hdrop : line.text.drop (lx.index + ((line.text.drop lx.index).takeWhile CodePoint.isBlank).length) =
      (line.text.drop lx.index).dropWhile CodePoint.isBlank := by
    rw [← List.drop_drop, drop_length_takeWhile]
  unfold read at h
  rw [hline] at h
  dsimp only at h
  split at h
  · cases h
  · rename_i c after hafter
    rw [hafter] at hdrop
    split at h
    · cases h
    · split at h
      · rename_i hread
        cases h
        exact isLexical_of_readToken hdrop hread
      · cases h

theorem isLexical_of_drain {limit : Nat} {e : ParseError} (hline : lx.line = some line) (hpeeked : lx.peeked = none)
    (h : (drain limit lx).1 = .error e) : IsLexical line e := by
  induction limit generalizing lx with
  | zero => cases h
  | succ limit ih =>
    unfold drain next at h
    rw [hpeeked] at h
    dsimp only at h
    cases hread : lx.read with
    | mk r lx₁ =>
      rw [hread] at h
      split at h
      · rename_i heq
        cases heq
        cases h
        exact isLexical_of_read hline (congrArg Prod.fst hread)
      · cases h
      · rename_i t lx₂ heq
        cases heq
        obtain ⟨-, hline₁, hpeeked₁, -⟩ := read_eq_ok_some hline hread
        exact ih hline₁ (hpeeked₁.trans hpeeked) (map_eq_error h)

theorem isLexical_of_tokenize {e : ParseError} (h : lx.tokenize line = (.error e, lx')) : IsLexical line e :=
  isLexical_of_drain rfl rfl (congrArg Prod.fst h)

end Lexer

/-! ## Operators -/

namespace Token

theorem pairwise_ofPieces (line : LogicalLine) (start : Nat) (ps : List Text) :
    (ofPieces line start ps).Pairwise Precedes ∧
      ∀ u ∈ ofPieces line start ps, start ≤ u.start ∧ u.stop ≤ start + ps.flatten.length := by
  induction ps generalizing start with
  | nil => exact ⟨.nil, fun u hu => absurd hu List.not_mem_nil⟩
  | cons piece ps ih =>
    obtain ⟨hpairwise, hbounds⟩ := ih (start + piece.length)
    rw [List.flatten_cons, List.length_append]
    refine ⟨.cons (fun u hu => (hbounds u hu).1) hpairwise, fun u hu => ?_⟩
    rcases List.mem_cons.mp hu with rfl | hu
    · show start ≤ start ∧ start + piece.length ≤ _
      omega
    · have hu' := hbounds u hu
      omega

/-- The parts of a token lie in it, one after the other. -/
theorem CutFrom.pairwise_splitOperators {line : LogicalLine} {t : Token} (h : t.CutFrom line) :
    t.splitOperators.Pairwise Precedes ∧ ∀ u ∈ t.splitOperators, t.start ≤ u.start ∧ u.stop ≤ t.stop := by
  have hself : [t].Pairwise Precedes ∧ ∀ u ∈ [t], t.start ≤ u.start ∧ u.stop ≤ t.stop := by
    refine ⟨List.pairwise_singleton _ _, fun u hu => ?_⟩
    rw [List.mem_singleton.mp hu]
    omega
  unfold Token.splitOperators
  rw [h.source_eq]
  dsimp only
  split
  · exact hself
  · split
    · exact hself
    · have hlength := h.length_text
      have hlt := h.start_lt
      obtain ⟨hpairwise, hbounds⟩ := pairwise_ofPieces line t.start (pieces t.text)
      rw [flatten_pieces, hlength] at hbounds
      refine ⟨hpairwise, fun u hu => ?_⟩
      have hu' := hbounds u hu
      omega

theorem pairwise_flatMap_splitOperators {line : LogicalLine} {ts : List Token} (hts : ∀ t ∈ ts, t.CutFrom line)
    (h : ts.Pairwise Precedes) : (ts.flatMap splitOperators).Pairwise Precedes := by
  refine List.pairwise_flatMap.mpr ⟨fun t ht => (hts t ht).pairwise_splitOperators.1, ?_⟩
  refine h.imp_of_mem fun {t u} ht hu htu a ha b hb => ?_
  have hat := (hts t ht).pairwise_splitOperators.2 a ha
  have hbu := (hts u hu).pairwise_splitOperators.2 b hb
  rw [Precedes] at *
  omega

end Token
end BrailleTable
