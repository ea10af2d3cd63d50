/-
Dialects that differ in depth only.

The grammar counts parentheses by an index of its own, and the dialect's bound is consulted once, for a whole
expression.  What a dialect derives is therefore derived by every dialect with the same marks and words.
-/
import BrailleTable.Proofs.Expression.Grammar

namespace BrailleTable

/-- The dialect with another bound on the parentheses that may be open at once. -/
def Dialect.withDepth (d : Dialect) (depth : Nat) (h : 0 < depth) : Dialect :=
  { d with maxDepth := depth, maxDepth_pos := h }

namespace Expression

variable {word : Token → Prop} {d d' : Dialect} {X : Symbol} {n : Nat} {ts : List Token}
  {e : Expression Span} {es : List (Expression Span)}

theorem Operand.congr {t : Token} (h : Operand d t e) (hdots : d'.dotAlphabet = d.dotAlphabet) :
    Operand d' t e := by
  cases h with
  | classRef hkind hname => exact .classRef hkind hname
  | number hkind hread => exact .number hkind hread
  | quoted hkind => exact .quoted hkind
  | dots hnumber hquoted htext hread =>
    rw [← hdots] at hread
    exact .dots hnumber hquoted htext hread

theorem Derives.congr (h : Derives word d X n ts es) (hdots : d'.dotAlphabet = d.dotAlphabet) :
    Derives word d' X n ts es := by
  induction h with
  | operand hoperand => exact .operand (hoperand.congr hdots)
  | word hword hread => exact .word hword hread
  | comparison hl hm hop hr => exact .comparison (hl.congr hdots) hm hop (hr.congr hdots)
  | group ho _ hc ih => exact .group ho ih hc
  | plain _ ih => exact .plain ih
  | negated hnot _ ih => exact .negated hnot ih
  | single _ ih => exact .single ih
  | juxtaposed _ _ ihe ihes => exact .juxtaposed ihe ihes
  | sequence _ ih => exact .sequence ih
  | conj _ ha _ ihes ihfs => exact .conj ihes ha ihfs
  | conjunction _ ih => exact .conjunction ih
  | disj _ ha _ ihes ihfs => exact .disj ihes ha ihfs

theorem Step.congr (h : Step d ts e) (hdots : d'.dotAlphabet = d.dotAlphabet) : Step d' ts e := by
  cases h with
  | mk hname hoperands => exact .mk hname (hoperands.imp fun _ _ hoperand => hoperand.congr hdots)

end Expression
end BrailleTable
