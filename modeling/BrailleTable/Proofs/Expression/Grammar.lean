/-
The grammar of expressions, as a relation between tokens and trees.

`Derives word d X depth ts es` says that the tokens `ts` form an `X` in which parentheses are nested at most
`depth` deep, and that they contribute the trees `es` to what they stand in.  An atom and a negation
contribute one tree.  A sequence contributes its tests, and a chain its operands, so that sequences and
chains come out flat.  The parameter `word` says which words stand for themselves.
-/
import BrailleTable.Expression.Parser
import BrailleTable.Proofs.Cursor
import BrailleTable.Proofs.Value.Name
import Mathlib.Data.List.Forall2

namespace BrailleTable
namespace Expression

/-- An operand: a class reference, a number, a quoted string, or dots after an at sign. -/
inductive Operand (d : Dialect) : Token → Expression Span → Prop
  | classRef {t : Token} {name : Text} :
      t.kind = .word → Value.classNameOf t = .ok name → Operand d t (.classRef name t.span)
  | number {t : Token} {v : Value Span} :
      t.kind = .number → Value.readNumber t = .ok v → Operand d t (ofValue t.span v)
  | quoted {t : Token} :
      t.kind = .quoted → Operand d t (ofValue t.span (.string t.value t.span))
  | dots {t : Token} {rest : Text} {v : Value Span} :
      t.kind ≠ .number → t.kind ≠ .quoted → t.text = ('@' : CodePoint) :: rest →
      Value.readDots d.dotAlphabet (subtoken t 1) = .ok v → Operand d t (ofValue t.span v)

/-- A word that is none of the reserved ones. -/
def IsUnreserved (d : Dialect) (t : Token) : Prop := t.kind = .word ∧ isReserved d t.text = false

/-- A word that stands for itself.  One that starts with an underscore or an at sign is an operand or
nothing. -/
def IsBareWord (d : Dialect) (t : Token) : Prop :=
  IsUnreserved d t ∧ t.text.head? ≠ some ('_' : CodePoint) ∧ t.text.head? ≠ some ('@' : CodePoint)

/-- The parts of a test. -/
inductive Symbol where
  | atom
  | negation
  | sequence
  | conjunction
  | disjunction

inductive Derives (word : Token → Prop) (d : Dialect) :
    Symbol → Nat → List Token → List (Expression Span) → Prop
  | operand {depth : Nat} {t : Token} {e : Expression Span} :
      Operand d t e → Derives word d .atom depth [t] [e]
  | word {depth : Nat} {t : Token} {v : Value Span} :
      word t → Value.readCharacters t = .ok v → Derives word d .atom depth [t] [ofValue t.span v]
  | comparison {depth : Nat} {l m r : Token} {a b : Expression Span} {op : Comparison} :
      Operand d l a → m.kind = .punctuation → Comparison.ofText? m.text = some op → Operand d r b →
      Derives word d .atom depth [l, m, r] [.compare op a b (a.span.merge b.span)]
  | group {depth : Nat} {o c : Token} {ts : List Token} {es : List (Expression Span)} :
      o.IsMark "(" → Derives word d .disjunction depth ts es → c.IsMark ")" →
      Derives word d .atom (depth + 1) (o :: (ts ++ [c])) [ofOperands .disj es]
  | plain {depth : Nat} {ts : List Token} {e : Expression Span} :
      Derives word d .atom depth ts [e] → Derives word d .negation depth ts [e]
  | negated {depth : Nat} {n : Token} {ts : List Token} {e : Expression Span} :
      n.IsKeyword "not" → Derives word d .atom depth ts [e] →
      Derives word d .negation depth (n :: ts) [.combine .neg [e] (n.span.merge e.span)]
  | single {depth : Nat} {ts : List Token} {e : Expression Span} :
      Derives word d .negation depth ts [e] → Derives word d .sequence depth ts (sequenceItems e)
  | juxtaposed {depth : Nat} {ts us : List Token} {e : Expression Span} {es : List (Expression Span)} :
      Derives word d .negation depth ts [e] → Derives word d .sequence depth us es →
      Derives word d .sequence depth (ts ++ us) (sequenceItems e ++ es)
  | sequence {depth : Nat} {ts : List Token} {es : List (Expression Span)} :
      Derives word d .sequence depth ts es →
      Derives word d .conjunction depth ts (chainOperands .conj (ofItems es))
  | conj {depth : Nat} {a : Token} {ts us : List Token} {es fs : List (Expression Span)} :
      Derives word d .sequence depth ts es → a.IsKeyword "and" →
      Derives word d .conjunction depth us fs →
      Derives word d .conjunction depth (ts ++ a :: us) (chainOperands .conj (ofItems es) ++ fs)
  | conjunction {depth : Nat} {ts : List Token} {es : List (Expression Span)} :
      Derives word d .conjunction depth ts es →
      Derives word d .disjunction depth ts (chainOperands .disj (ofOperands .conj es))
  | disj {depth : Nat} {a : Token} {ts us : List Token} {es fs : List (Expression Span)} :
      Derives word d .conjunction depth ts es → a.IsKeyword "or" →
      Derives word d .disjunction depth us fs →
      Derives word d .disjunction depth (ts ++ a :: us)
        (chainOperands .disj (ofOperands .conj es) ++ fs)

/-- A step of the actions: its name and its operands. -/
inductive Step (d : Dialect) : List Token → Expression Span → Prop
  | mk {t : Token} {name : Text} {ts : List Token} {operands : List (Expression Span)} :
      Value.nameOf t = .ok name → List.Forall₂ (Operand d) ts operands →
      Step d (t :: ts)
        (.step name operands (t.span.merge ((operands.getLast?.map Expression.span).getD t.span)))

/-- A whole expression: a test between the two keywords, and one or more steps. -/
inductive Body (word : Token → Prop) (d : Dialect) : List Token → Expression Span → Prop
  | mk {t a : Token} {ts : List Token} {es actions : List (Expression Span)} {ws : List (List Token)} :
      t.IsKeyword d.testKeyword.lower → Derives word d .disjunction d.maxDepth ts es →
      a.IsKeyword d.actionKeyword.lower → ws ≠ [] → List.Forall₂ (Step d) ws actions →
      Body word d (t :: (ts ++ a :: ws.flatten))
        (.body (ofOperands .disj es) actions
          (t.span.merge ((actions.getLast?.getD (ofOperands .disj es)).span)))

/-! ## Operands -/

/-- A class reference starts with an underscore. -/
theorem head?_of_classNameOf {t : Token} {name : Text} (h : Value.classNameOf t = .ok name) :
    t.text.head? = some ('_' : CodePoint) := by
  obtain ⟨-, htext, -⟩ := Value.classNameOf_eq_ok_iff.mp h
  rw [htext]
  rfl

theorem readString_of_quoted {t : Token} (h : t.kind = .quoted) :
    Value.readString t = .ok (.string t.value t.span) := by
  unfold Value.readString Value.requireKind
  rw [if_pos (by rw [h]; decide)]
  rfl

/-- No dots are read from an at sign alone. -/
theorem readDots_subtoken_singleton {alphabet : Text} {t : Token} {v : Value Span}
    (h : t.text.length = 1) : Value.readDots alphabet (subtoken t 1) ≠ .ok v := by
  have hdrop : t.text.drop 1 = [] := List.drop_eq_nil_of_le (by omega)
  have htext : (subtoken t 1).text = [] := hdrop
  have hkind : (subtoken t 1).kind = .word := by
    show TokenKind.ofText (t.text.drop 1) = .word
    rw [hdrop]
    decide
  unfold Value.readDots Value.requireKind
  rw [if_pos (by rw [hkind]; decide), htext]
  intro hok
  cases hok

theorem operand_of_operandOf? {d : Dialect} {t : Token} {e : Expression Span}
    (h : operandOf? d t = some (.ok e)) : Operand d t e := by
  unfold operandOf? at h
  split at h
  · rename_i hclass
    cases hname : Value.classNameOf t with
    | error err => rw [hname] at h; cases h
    | ok name =>
      rw [hname] at h
      cases h
      exact .classRef hclass.1 hname
  · split at h
    · rename_i hnumber
      cases hread : Value.readNumber t with
      | error err => rw [hread] at h; cases h
      | ok v =>
        rw [hread] at h
        cases h
        exact .number hnumber hread
    · rename_i hnumber
      split at h
      · rename_i hquoted
        rw [readString_of_quoted hquoted] at h
        cases h
        exact .quoted hquoted
      · rename_i hquoted
        split at h
        · rename_i hat
          obtain ⟨rest, htext⟩ := List.head?_eq_some_iff.mp hat
          split at h
          · cases h
          · cases hread : Value.readDots d.dotAlphabet (subtoken t 1) with
            | error err => rw [hread] at h; cases h
            | ok v =>
              rw [hread] at h
              cases h
              exact .dots hnumber hquoted htext hread
        · cases h

theorem operandOf?_of_operand {d : Dialect} {t : Token} {e : Expression Span} (h : Operand d t e) :
    operandOf? d t = some (.ok e) := by
  unfold operandOf?
  cases h with
  | classRef hkind hname =>
    rw [if_pos ⟨hkind, head?_of_classNameOf hname⟩, hname]
    rfl
  | number hkind hread =>
    rw [if_neg (by rw [hkind]; simp), if_pos hkind, hread]
    rfl
  | quoted hkind =>
    rw [if_neg (by rw [hkind]; simp), if_neg (by rw [hkind]; simp), if_pos hkind,
      readString_of_quoted hkind]
    rfl
  | dots hnumber hquoted htext hread =>
    have hlength : t.text.length ≠ 1 := fun hone => readDots_subtoken_singleton hone hread
    have hat : t.text.head? = some ('@' : CodePoint) := by rw [htext]; rfl
    have hunder : t.text.head? ≠ some ('_' : CodePoint) := by rw [hat]; decide
    rw [if_neg (fun hc => hunder hc.2), if_neg hnumber, if_neg hquoted, if_pos hat,
      if_neg hlength, hread]
    rfl

/-- The reader of operands and the grammar agree. -/
theorem operandOf?_eq_some_ok_iff {d : Dialect} {t : Token} {e : Expression Span} :
    operandOf? d t = some (.ok e) ↔ Operand d t e :=
  ⟨operand_of_operandOf?, operandOf?_of_operand⟩

end Expression
end BrailleTable
