/-
Tables as records for other programs.
-/
import BrailleTable.Json
import BrailleTable.Table

namespace BrailleTable

/-- A record names its type first and its position where the span stands. -/
def typed (type : Text) (members : List (Text × Json)) : Json :=
  .object (("type", .text type) :: members)

def positionMember (s : Span) : Text × Json := ("at", .text s.display)

namespace Value

def record : Value Span → Json
  | .character t s => typed "CharacterLiteral" [("char", .text t), positionMember s]
  | .charClass ranges s =>
    typed "CharacterClass"
      [("items", .list (ranges.map fun (lo, hi) => .texts [lo, hi])), positionMember s]
  | .dots cells s =>
    typed "DotPattern"
      [("cells", .list (cells.map fun cell => .list (cell.map .number))), positionMember s]
  | .number n s => typed "Number" [("value", .number n), positionMember s]
  | .name t s => typed "Identifier" [("name", .text t), positionMember s]
  | .string t s => typed "StringLiteral" [("text", .text t), positionMember s]

end Value

namespace Expression

mutual
def record : Expression Span → Json
  | .value v => v.record
  | .literal e s => typed "Literal" [("value", record e), positionMember s]
  | .classRef name s => typed "ClassReference" [("name", .text name), positionMember s]
  | .compare op left right s =>
    typed "Comparator"
      [("op", .text op.label), ("left", record left), ("right", record right), positionMember s]
  | .combine op operands s =>
    typed "LogicalCombinator"
      [("op", .text op.label), ("operands", .list (recordAll operands)), positionMember s]
  | .sequence items s => typed "Sequence" [("items", .list (recordAll items)), positionMember s]
  | .step name operands s =>
    typed "ActionStep"
      [("name", .text name), ("operands", .list (recordAll operands)), positionMember s]
  | .body test actions s =>
    typed "TestAction"
      [("test", record test), ("actions", .list (recordAll actions)), positionMember s]

def recordAll : List (Expression Span) → List Json
  | [] => []
  | e :: rest => record e :: recordAll rest
end

end Expression

namespace Directive

def record (r : Directive Span) : Json :=
  typed "Directive"
    [("opcode", .text r.opcode), ("args", .list (r.args.map Value.record)),
     ("expression", (r.expression.map Expression.record).getD .null),
     ("prefixes", .texts r.modifiers.labels), positionMember r.span, ("comment", .optional r.comment)]

end Directive

namespace Table

def record (t : Table) : Json := .object [("directives", .list (t.directives.map Directive.record))]

end Table
end BrailleTable
