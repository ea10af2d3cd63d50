/-
Writing directives so that they are read back.
-/
import BrailleTable.Directive
import BrailleTable.Expression.Printer

namespace BrailleTable
namespace Directive

variable {σ : Type}

/-- The kinds of the slots that `n` arguments fill, slot by slot as they are read. -/
def slotKinds : List Slot → Nat → List (List SlotKind)
  | [], _ => []
  | slot :: slots, n =>
    if slot.isOptional ∧ n ≤ Slot.required slots ∧ slot.fallback = none then slotKinds slots n
    else if slot.repeats then List.replicate n slot.kinds
    else slot.kinds :: slotKinds slots (n - 1)

/-- Writes arguments, each for the slot beside it; an argument without a slot is written for none. -/
def writeArgs (commentChar : CodePoint) : List (List SlotKind) → List (Value σ) → List Text
  | _, [] => []
  | [], v :: vs => v.write commentChar [] :: writeArgs commentChar [] vs
  | kinds :: more, v :: vs => v.write commentChar kinds :: writeArgs commentChar more vs

/-- What follows the opcode: the expression, or the arguments if there is none. -/
def writeOperands (d : Dialect) (r : Directive σ) : Except PrintFault (List Text) :=
  match r.expression with
  | some e => (e.write d).map ([·])
  | none =>
    let kinds := match d.vocabulary.lookup r.opcode with
      | none => []
      | some shape => slotKinds shape.slots r.args.length
    .ok (writeArgs d.commentChar kinds r.args)

/-- Writes a directive on one line, its comment included. -/
def write (d : Dialect) (r : Directive σ) : Except PrintFault Text := do
  let operands ← writeOperands d r
  let text := Text.join " " (r.modifiers.toList.map Modifier.label ++ r.opcode :: operands)
  match r.comment with
  | none | some [] => return text
  | some comment => return text ++ " " ++ [d.commentChar] ++ " " ++ comment

def writeLines (d : Dialect) : List (Directive σ) → Except PrintFault Text
  | [] => .ok []
  | r :: rest => do
    let line ← r.write d
    return line ++ "\n" ++ (← writeLines d rest)

end Directive

/-! ## Directives made by hand -/

namespace Expression

variable {σ : Type}

def toValue : Expression σ → Except PrintFault (Value σ)
  | .value v => .ok v
  | e => .error (.notValue e.display)

end Expression

namespace Directive

variable {σ : Type}

/-- The directive with trees for its arguments, which have to be values.  Arguments beside an expression
are never written, so they are not looked at. -/
def ofTrees (r : Directive σ) (args : List (Expression σ)) (expression : Option (Expression σ)) :
    Except PrintFault (Directive σ) :=
  match expression with
  | some e => .ok { r with expression := some e }
  | none => (args.mapM Expression.toValue).map fun vs => { r with args := vs }

end Directive
end BrailleTable
