/-
Writing expressions so that they are read back.

Parentheses are written only where a part binds less tightly than its place asks for.  Not every tree can
be written: values stand in literals only, an operand has to be a class reference or a literal that
operands can be, a negation has to have something to negate, and the connectives are the three known
ones.
-/
import BrailleTable.Dialect
import BrailleTable.Expression
import BrailleTable.Value.Printer

namespace BrailleTable

/-! ## Showing trees

Errors about a tree show it constructor by constructor, without its annotations. -/

namespace Text

/-- Texts between parentheses.  One alone is followed by a comma. -/
def tuple : List Text → Text
  | [t] => "(" ++ t ++ ",)"
  | ts => "(" ++ join ", " ts ++ ")"

end Text

namespace Value

variable {σ : Type}

def form : Value σ → Text
  | .character _ _ => "CharacterLiteral"
  | .charClass _ _ => "CharacterClass"
  | .dots _ _ => "DotPattern"
  | .number _ _ => "Number"
  | .name _ _ => "Identifier"
  | .string _ _ => "StringLiteral"

def display : Value σ → Text
  | .character t _ => "CharacterLiteral(char=" ++ t.display ++ ")"
  | .charClass ranges _ =>
    "CharacterClass(items=" ++
      Text.tuple (ranges.map fun (lo, hi) => Text.tuple [lo.display, hi.display]) ++ ")"
  | .dots cells _ =>
    "DotPattern(cells=" ++ Text.tuple (cells.map fun cell => Text.tuple (cell.map Text.ofInt)) ++ ")"
  | .number n _ => "Number(value=" ++ Text.ofInt n ++ ")"
  | .name t _ => "Identifier(name=" ++ t.display ++ ")"
  | .string t _ => "StringLiteral(text=" ++ t.display ++ ")"

end Value

namespace Expression

variable {σ : Type}

def form : Expression σ → Text
  | .value v => v.form
  | .literal _ _ => "Literal"
  | .classRef _ _ => "ClassReference"
  | .compare _ _ _ _ => "Comparator"
  | .combine _ _ _ => "LogicalCombinator"
  | .sequence _ _ => "Sequence"
  | .step _ _ _ => "ActionStep"
  | .body _ _ _ => "TestAction"

mutual
def display : Expression σ → Text
  | .value v => v.display
  | .literal e _ => "Literal(value=" ++ display e ++ ")"
  | .classRef name _ => "ClassReference(name=" ++ name.display ++ ")"
  | .compare op left right _ =>
    "Comparator(op=" ++ op.label.display ++ ", left=" ++ display left ++ ", right=" ++ display right ++ ")"
  | .combine op operands _ =>
    "LogicalCombinator(op=" ++ op.label.display ++ ", operands=" ++ Text.tuple (displayAll operands) ++ ")"
  | .sequence items _ => "Sequence(items=" ++ Text.tuple (displayAll items) ++ ")"
  | .step name operands _ =>
    "ActionStep(name=" ++ name.display ++ ", operands=" ++ Text.tuple (displayAll operands) ++ ")"
  | .body test actions _ =>
    "TestAction(test=" ++ display test ++ ", actions=" ++ Text.tuple (displayAll actions) ++ ")"

def displayAll : List (Expression σ) → List Text
  | [] => []
  | e :: rest => display e :: displayAll rest
end

end Expression

inductive PrintFault where
  /-- A part of an expression where a value is wanted. -/
  | notValue (shown : Text)
  /-- A value where a part of an expression is wanted. -/
  | notExpression (shown : Text)
  /-- A literal that no operand is read as. -/
  | notOperand (shown : Text)
  /-- A part of an expression that holds no value where an operand is wanted. -/
  | noValue (form : Text)
  | nothingNegated
  | unknownConnective (word : Text)
deriving DecidableEq

namespace PrintFault

def message : PrintFault → Text
  | .notValue shown => "Not a table value: " ++ shown
  | .notExpression shown => "Not an expression node: " ++ shown
  | .notOperand shown => "Not an expression operand: " ++ shown
  | .noValue form => "'" ++ form ++ "' object has no attribute 'value'"
  | .nothingNegated => "tuple index out of range"
  | .unknownConnective word => word.display

end PrintFault

/-! ## Writing -/

namespace Expression

variable {σ : Type} (d : Dialect)

/-- How tightly an expression binds, from a disjunction up to what needs no parentheses. -/
def precedence : Expression σ → Nat
  | .combine .disj _ _ => 1
  | .combine .conj _ _ => 2
  | .sequence _ _ => 3
  | .combine .neg _ _ => 4
  | _ => 5

/-- The words that start differently are operands, and operators cut a word in two, so a string written
as a word has both written by number. -/
def wordCare : Escape.Care :=
  ⟨"_@" ++ Value.leadOf d.commentChar, [], "()=<>!"⟩

/-- Writes an operand.  A string is quoted, unless a line ending in it makes it a word with escapes.  Of the
parts that are no operands, only literals and bare numbers hold a value. -/
def writeOperand : Expression σ → Except PrintFault Text
  | .classRef name _ => .ok ("_" ++ name)
  | .literal (.value (.dots cells _)) _ => .ok ("@" ++ Value.writeDots cells)
  | .literal (.value (.number n _)) _ => .ok (Text.ofInt n)
  | .literal (.value (.string t _)) _ =>
    .ok (if ('\n' : CodePoint) ∈ t ∨ ('\r' : CodePoint) ∈ t then Escape.encode (wordCare d) t else t.quote)
  | .literal e s => .error (.notOperand (Expression.literal e s).display)
  | .value (.number n s) => .error (.notOperand (Value.number n s).display)
  | e => .error (.noValue e.form)

/-- Puts parentheses around the text of an expression that binds less tightly than `need`. -/
def parenthesize (need : Nat) (e : Expression σ) (text : Text) : Text :=
  if e.precedence < need then "(" ++ text ++ ")" else text

def writeOperands : List (Expression σ) → Except PrintFault (List Text)
  | [] => .ok []
  | e :: rest => do
    let text ← writeOperand d e
    return text :: (← writeOperands rest)

mutual
def write : Expression σ → Except PrintFault Text
  | .value v => .error (.notExpression v.display)
  | .literal e s => writeOperand d (.literal e s)
  | .classRef name s => writeOperand d (.classRef name s)
  | .compare op left right _ => do
    let l ← writeOperand d left
    let r ← writeOperand d right
    return l ++ " " ++ op.label ++ " " ++ r
  | .combine (.other word) _ _ => .error (.unknownConnective word)
  | .combine .neg [] _ => .error .nothingNegated
  | .combine .neg (e :: _) _ => do
    return "not " ++ parenthesize 5 e (← write e)
  | .combine .conj operands _ => do
    return Text.join " and " (← writeAll 2 operands)
  | .combine .disj operands _ => do
    return Text.join " or " (← writeAll 1 operands)
  | .sequence items _ => do
    return Text.join " " (← writeAll 3 items)
  | .step name operands _ => do
    return Text.join " " (name :: (← writeOperands d operands))
  | .body test actions _ => do
    let steps ← writeAll 0 actions
    let t ← write test
    return d.testKeyword ++ " " ++ t ++ " " ++ d.actionKeyword ++ " " ++ Text.join " " steps

/-- Writes expressions for places that ask for the precedence `need`. -/
def writeAll (need : Nat) : List (Expression σ) → Except PrintFault (List Text)
  | [] => .ok []
  | e :: rest => do
    let text ← write e
    return parenthesize need e text :: (← writeAll need rest)
end

end Expression
end BrailleTable
