/-
The lexer on a line that stands elsewhere.

The lexer decides by the text of its line and by its own state, neither of which has places in it.
-/
import BrailleTable.Proofs.Relocation
import BrailleTable.Proofs.Token.Cut

namespace BrailleTable
namespace Lexer

variable {v : Relocation} {lx : Lexer}

def move (v : Relocation) (lx : Lexer) : Lexer :=
  { lx with line := lx.line.map fun _ => v.image, peeked := lx.peeked.map (Token.move v) }

theorem readQuoted_move (v : Relocation) (start i : Nat) (s : Text) :
    Agree (ParseError.map v.span) id (readQuoted v.line start i s) (readQuoted v.image start i s) := by
  have hunterminated : readQuoted.unterminated v.image start = (readQuoted.unterminated v.line start).map v.span := by
    unfold readQuoted.unterminated
    rw [v.span_image]
    rfl
  induction i, s using readQuoted.induct with
  | case1 i =>
    rw [readQuoted, readQuoted, hunterminated]
    exact .error _
  | case2 i => exact .ok _
  | case3 i c hc =>
    rw [readQuoted, readQuoted, if_neg hc, if_neg hc, hunterminated]
    exact .error _
  | case4 i d rest =>
    rw [readQuoted, readQuoted]
    exact .ok _
  | case5 i d rest hd hslash ih =>
    rw [readQuoted, readQuoted, if_neg hslash, if_neg hslash, if_pos rfl, if_pos rfl, if_pos hd, if_pos hd]
    exact ih.map fun _ => rfl
  | case6 i d rest hd hslash =>
    rw [readQuoted, readQuoted, if_neg hslash, if_neg hslash, if_pos rfl, if_pos rfl, if_neg hd, if_neg hd, v.span_image]
    exact .error _
  | case7 i c d rest hc hslash ih =>
    rw [readQuoted, readQuoted, if_neg hc, if_neg hc, if_neg hslash, if_neg hslash]
    exact ih.map fun _ => rfl

theorem note_move (t : Token) : (lx.move v).note (t.move v) = (lx.note t).move v := by
  obtain ⟨rules, line, index, inHead, inExpression, peeked, comment⟩ := lx
  cases inHead with
  | false => rfl
  | true =>
    show (if t.kind = .word then (if t.text.lower ∈ rules.modifiers then _ else _) else _) =
      move v (if t.kind = .word then (if t.text.lower ∈ rules.modifiers then _ else _) else _)
    split
    · split <;> rfl
    · rfl

theorem readToken_move (v : Relocation) (lx : Lexer) (c : CodePoint) (rest : Text) :
    Agree (ParseError.map v.span) (Prod.map (Token.move v) (move v)) (lx.readToken v.line c rest)
      ((lx.move v).readToken v.image c rest) := by
  have hindex : (lx.move v).index = lx.index := rfl
  have hmode : (lx.move v).inExpression = lx.inExpression := rfl
  have hfollow : ∀ d, (lx.move v).mayFollowQuote d = lx.mayFollowQuote d := fun _ => rfl
  have hnoted : ∀ t : Token, Agree (ParseError.map v.span) (Prod.map (Token.move v) (move v)) (.ok (t, lx.note t))
      (.ok (t.move v, (lx.move v).note (t.move v))) := by
    intro t
    rw [note_move]
    exact .ok _
  unfold readToken
  simp only [hindex, hmode, hfollow, v.text_eq, Token.plain_move, Token.ofLine_move, v.span_image]
  split
  · exact .ok _
  · split
    · obtain ⟨⟨value, stop⟩, hx, hy⟩ | ⟨e, hx, hy⟩ :=
        (readQuoted_move v lx.index (lx.index + 1) rest).ok_or_error
      · rw [hx, hy]
        dsimp only [id]
        split
        · exact rel_ite (fun _ => hnoted _) fun _ => .error _
        · exact hnoted _
      · rw [hx, hy]
        exact .error e
    · exact hnoted _

/-- A step of the lexer that is another one moved, with the state that follows it. -/
def AgreeStep {α : Type} (v : Relocation) (g : α → α) (x y : Except ParseError α × Lexer) : Prop :=
  Agree (ParseError.map v.span) g x.1 y.1 ∧ y.2 = x.2.move v

theorem read_move (hline : lx.line = some v.line) :
    AgreeStep v (Option.map (Token.move v)) lx.read (lx.move v).read := by
  obtain ⟨rules, line, index, inHead, inExpression, peeked, comment⟩ := lx
  obtain rfl : line = some v.line := hline
  unfold read
  dsimp only [move, Option.map_some]
  rw [v.text_eq]
  split
  · exact ⟨.ok _, rfl⟩
  · rename_i c after _
    split
    · exact ⟨.ok _, rfl⟩
    · obtain ⟨a, hx, hy⟩ | ⟨e, hx, hy⟩ := (readToken_move v
        ⟨rules, some v.line, _, inHead, inExpression, peeked, comment⟩ c after).ok_or_error
      · dsimp only [move, Option.map_some] at hy
        rw [hx, hy]
        exact ⟨.ok _, rfl⟩
      · dsimp only [move, Option.map_some] at hy
        rw [hx, hy]
        exact ⟨.error e, rfl⟩

theorem drain_move (limit : Nat) (hline : lx.line = some v.line) (hpeeked : lx.peeked = none) :
    AgreeStep v (List.map (Token.move v)) (drain limit lx) (drain limit (lx.move v)) := by
  induction limit generalizing lx with
  | zero => exact ⟨.ok _, rfl⟩
  | succ limit ih =>
    obtain ⟨hresult, hstate⟩ := read_move hline
    have hpeeked' : (lx.move v).peeked = none := congrArg (Option.map (Token.move v)) hpeeked
    unfold drain next
    rw [hpeeked, hpeeked']
    dsimp only
    cases hx : lx.read with
    | mk x lx₁ =>
      cases hy : (lx.move v).read with
      | mk y lx₂ =>
        rw [hx, hy] at hresult hstate
        obtain rfl : lx₂ = lx₁.move v := hstate
        cases hresult with
        | error e => exact ⟨.error e, rfl⟩
        | ok t =>
          cases t with
          | none => exact ⟨.ok _, rfl⟩
          | some t =>
            obtain ⟨-, hline₁, hpeeked₁, -⟩ := read_eq_ok_some hline hx
            obtain ⟨hrest, hend⟩ := ih hline₁ (hpeeked₁.trans hpeeked)
            exact ⟨hrest.map fun _ => rfl, hend⟩

/-- The tokens of a line that stands elsewhere are its tokens, moved.  The lexer may have read anything before. -/
theorem tokenize_move (v : Relocation) (lx : Lexer) :
    AgreeStep v (List.map (Token.move v)) (lx.tokenize v.line) (lx.tokenize v.image) := by
  unfold tokenize
  rw [v.text_eq]
  exact drain_move (v.line.text.length + 1) rfl rfl

end Lexer
end BrailleTable
