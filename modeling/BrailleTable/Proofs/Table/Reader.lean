/-
Tables under another reader of expressions.

What reads the expressions is a parameter of all that reads lines.  So two readers that give the same on the tokens of an
expression, unless these satisfy some condition and the first one fails, give the same tables, unless the tokens of an
expression in one of the lines satisfy it.
-/
import BrailleTable.Proofs.Directive.Head
import BrailleTable.Proofs.Table.Alone

namespace BrailleTable

variable {d : Dialect} {p : List Token → Prop} {f : Failure} {read read' : Expression.Reader}

/-- Two readers give the same on all lists of tokens, unless one satisfies `p` and the first reader fails with `f`. -/
def Expression.AgreeUnless (p : List Token → Prop) (f : Failure) (read read' : Reader) : Prop :=
  ∀ opcode ts eol, EqUnless (p ts) f (read opcode ⟨ts, 0, eol⟩) (read' opcode ⟨ts, 0, eol⟩)

open Expression (AgreeUnless)

namespace Directive

/-- The tokens of a line have an expression behind its opcode, and the tokens of that satisfy `p`. -/
def HasExpression (d : Dialect) (p : List Token → Prop) (ts : List Token) : Prop :=
  ∃ ms t arguments shape, readModifiers [] ts = .ok (ms, t :: arguments) ∧ readOpcode d.vocabulary ms t = .ok shape ∧
    shape.isMultipart = true ∧ p (arguments.flatMap Token.splitOperators)

theorem parse_eqUnless (h : AgreeUnless p f read read') (ts : List Token) (eol : Span) (comment : Option Text) :
    EqUnless (HasExpression d p ts) f (parse d ts eol comment read) (parse d ts eol comment read') := by
  refine (EqUnless.refl _).bind fun ⟨ms, rest⟩ hms => ?_
  have hmodifiers := mapError_eq_ok hms
  cases ts with
  | nil => exact .refl _
  | cons first more =>
    cases rest with
    | nil => exact .refl _
    | cons t arguments =>
      refine (EqUnless.refl _).bind fun shape hshape => ?_
      dsimp only
      split
      · rename_i hmultipart
        refine EqUnless.bind ?_ fun e _ => .refl _
        refine (h shape.name (arguments.flatMap Token.splitOperators) eol).mono fun hp => ?_
        exact ⟨ms, t, arguments, shape, hmodifiers, mapError_eq_ok hshape, hmultipart, hp⟩
      · exact .refl _

end Directive

namespace Table

/-- A line has an expression, the tokens of which satisfy `p`. -/
def HasExpression (d : Dialect) (p : List Token → Prop) (line : LogicalLine) : Prop :=
  ∃ ts, ((Lexer.ofDialect d).tokenize line).1 = .ok ts ∧ Directive.HasExpression d p ts

theorem HasExpression.imp {q : List Token → Prop} {line : LogicalLine} (h : HasExpression d p line)
    (hpq : ∀ ts, p ts → q ts) : HasExpression d q line := by
  obtain ⟨ts, htokens, ms, t, arguments, shape, hms, hshape, hmultipart, hp⟩ := h
  exact ⟨ts, htokens, ms, t, arguments, shape, hms, hshape, hmultipart, hpq _ hp⟩

/-- What is said of the expression of a line holds of some tokens. -/
theorem HasExpression.exists_tokens {line : LogicalLine} (h : HasExpression d p line) : ∃ ts, p ts := by
  obtain ⟨-, -, -, -, arguments, -, -, -, -, hp⟩ := h
  exact ⟨arguments.flatMap Token.splitOperators, hp⟩

variable {lx : Lexer}

/-- A line leaves the lexer as its tokens do, whatever reads its expression. -/
theorem snd_readLine (lx : Lexer) (line : LogicalLine) : (readLine d lx line read).2 = (lx.tokenize line).2 := by
  unfold readLine
  split <;>
    · rename_i htokens
      rw [htokens]

theorem readLine_eqUnless (h : AgreeUnless p f read read') (hlx : Serves lx d) (line : LogicalLine) :
    EqUnless (HasExpression d p line) f (readLine d lx line read).1 (readLine d lx line read').1 := by
  have htokenize : (lx.tokenize line).1 = ((Lexer.ofDialect d).tokenize line).1 :=
    congrArg Prod.fst (Lexer.tokenize_congr hlx line)
  unfold readLine
  split
  · exact .refl _
  · exact .refl _
  · rename_i ts lx' _ htokens
    rw [htokens] at htokenize
    refine ((Directive.parse_eqUnless h ts line.endSpan lx'.comment).mono fun hp => ?_).map some
    exact ⟨ts, htokenize.symm, hp⟩

theorem readLines_eqUnless (h : AgreeUnless p f read read') (hlx : Serves lx d) (lines : List LogicalLine) :
    EqUnless (∃ line ∈ lines, HasExpression d p line) f (readLines d lx lines read) (readLines d lx lines read') := by
  induction lines generalizing lx with
  | nil => exact .refl _
  | cons line rest ih =>
    have hfirst := readLine_eqUnless h hlx line
    have hlexer : (readLine d lx line read).2 = (readLine d lx line read').2 :=
      (snd_readLine lx line).trans (snd_readLine lx line).symm
    have hserves : Serves (readLine d lx line read).2 d := by
      rw [snd_readLine]
      exact (lx.rules_tokenize line).trans hlx
    have hrest : EqUnless (∃ l ∈ line :: rest, HasExpression d p l) f _ _ :=
      (ih hserves).mono fun ⟨l, hl, hp⟩ => ⟨l, List.mem_cons_of_mem line hl, hp⟩
    unfold readLines
    generalize readLine d lx line read = result at hfirst hlexer hserves hrest
    generalize readLine d lx line read' = result' at hfirst hlexer
    obtain ⟨x, lx'⟩ := result
    obtain ⟨y, lx''⟩ := result'
    obtain rfl : lx' = lx'' := hlexer
    rcases hfirst with heq | ⟨hp, heq⟩
    · obtain rfl : x = y := heq
      cases x with
      | error e => exact .refl _
      | ok r =>
        cases r with
        | none => exact hrest
        | some r => exact hrest.map _
    · obtain rfl : x = .error f := heq
      exact .inr ⟨⟨line, List.mem_cons_self, hp⟩, rfl⟩

theorem assemble_eqUnless (h : AgreeUnless p f read read') (lines : List Text) :
    EqUnless (∃ line ∈ (LogicalLine.join d.continuationMarker [d.commentChar] lines).lines, HasExpression d p line) f
      (assemble d lines read) (assemble d lines read') :=
  (readLines_eqUnless h rfl _).bind fun _ _ => .refl _

end Table
end BrailleTable
