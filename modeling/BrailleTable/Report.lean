/-
Reports: an error as a reader sees it, and as a record for other programs.
-/
import BrailleTable.Error
import BrailleTable.Json

namespace BrailleTable
namespace Report

/-- The line that an offset of the source lies on, without its ending, and the number of code points of
that line before the offset. -/
def lineAt (source : Text) (pos : Nat) : Text × Nat :=
  let inLine (c : CodePoint) : Bool := c ≠ '\n'
  let before := ((source.take pos).reverse.takeWhile inLine).reverse
  let line := before ++ (source.drop pos).takeWhile inLine
  (if line.getLast? = some ('\r' : CodePoint) then line.dropLast else line, before.length)

/-- The line that a span starts on, and carets under it.  A span within one line has a caret under each
of its code points, any other one caret at its start.  A start below zero picks its line by counting from
the end of the source. -/
def snippet (source : Text) (span : Span) : Text :=
  let pos := min span.start source.length
  let index := (if pos < 0 then pos + source.length else pos).toNat
  let (line, before) := lineAt source index
  let lineStart : Int := index - before
  let width : Int :=
    if span.endLine = span.line ∧ span.start < span.stop then
      min span.stop (lineStart + line.length) - pos
    else 1
  line ++ "\n" ++ List.replicate (pos - lineStart).toNat (' ' : CodePoint) ++
    List.replicate (max width 1).toNat ('^' : CodePoint)

/-- The lines of a report: position, class and message, what was expected and found, and the line itself
where the source is at hand. -/
def lines (e : ParseError) (source : Option Text) : List Text :=
  [e.span.display ++ ": " ++ e.category.label ++ ": " ++ e.message] ++
  (if e.expected = [] then [] else ["  expected: " ++ Text.join ", " e.expected]) ++
  ["  found: " ++ Reason.displayFound e.found] ++
  (match e.category with
    | .expression (some context) => ["  inside '(' opened at " ++ context.display]
    | _ => []) ++
  match source with
  | none => []
  | some source => (Text.splitAt '\n' (snippet source e.span)).map ("  " ++ ·)

def write (e : ParseError) (source : Option Text) : Text := Text.join "\n" (lines e source)

def spanRecord (s : Span) : Json :=
  .object [("start", .number s.start), ("end", .number s.stop), ("line", .number s.line),
    ("col", .number s.col), ("end_line", .number s.endLine), ("end_col", .number s.endCol)]

/-- What the record of an error says beyond what all of them do. -/
def categoryMembers : Category → List (Text × Json)
  | .unknownOpcode name => [("name", .text name)]
  | .argument opcode position expectedKind =>
    [("opcode", .text opcode), ("position", .number position), ("expected_kind", .text expectedKind)]
  | .expression (some context) => [("context", spanRecord context)]
  | _ => []

def record (e : ParseError) : Json :=
  .object ([(("kind" : Text), .text e.category.label), ("message", .text e.message),
    ("span", spanRecord e.span), ("expected", .texts e.expected), ("found", .optional e.found)] ++
    categoryMembers e.category)

end Report
end BrailleTable
