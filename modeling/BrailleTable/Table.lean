/-
Tables: the directives of a whole source, in its order.

Expressions are read as the dialect has it, unless another reader for them is given.  The limit of the
runtime on nested calls is left out with the first, as it is in `Expression.parse`.
-/
import BrailleTable.Directive.Parser
import BrailleTable.Directive.Printer
import BrailleTable.Token.Lexer

namespace BrailleTable

/-- The directives of a table.  Their order counts, since a later one may hide an earlier one. -/
structure Table where
  directives : List (Directive Span)

namespace Lexer

def ofDialect (d : Dialect) : Lexer :=
  ofRules (.ofNames [d.commentChar] d.multipartOpcodes (Modifier.all.map Modifier.label))

end Lexer

namespace Table

/-- Reads a logical line, where `read` reads expressions.  A line without tokens holds no directive. -/
def readLine (d : Dialect) (lx : Lexer) (line : LogicalLine)
    (read : Expression.Reader := Expression.parse d) : Except Failure (Option (Directive Span)) × Lexer :=
  match lx.tokenize line with
  | (.error e, lx') => (.error (.parse e), lx')
  | (.ok [], lx') => (.ok none, lx')
  | (.ok tokens, lx') => ((Directive.parse d tokens line.endSpan lx'.comment read).map some, lx')

/-- Reads logical lines with one lexer and stops at the first failure. -/
def readLines (d : Dialect) (lx : Lexer) (lines : List LogicalLine)
    (read : Expression.Reader := Expression.parse d) : Except Failure (List (Directive Span)) :=
  match lines with
  | [] => .ok []
  | line :: rest =>
    match readLine d lx line read with
    | (.error f, _) => .error f
    | (.ok none, lx') => readLines d lx' rest read
    | (.ok (some r), lx') => (readLines d lx' rest read).map (r :: ·)

/-- Reads a table from its physical lines.  A marker left over at the end is an error, after all errors
of the lines before it. -/
def assemble (d : Dialect) (lines : List Text) (read : Expression.Reader := Expression.parse d) :
    Except Failure Table := do
  let joined := LogicalLine.join d.continuationMarker [d.commentChar] lines
  let directives ← readLines d (.ofDialect d) joined.lines read
  match joined.dangling with
  | none => return ⟨directives⟩
  | some e => .error (.parse e)

def parse (d : Dialect) (text : Text) (read : Expression.Reader := Expression.parse d) :
    Except Failure Table :=
  assemble d (physicalLines text) read

/-- Reads one physical line, whose number errors are to name.  A continuation marker at its end is not
looked for. -/
def parseLine (d : Dialect) (text : Text) (lineNumber : Int)
    (read : Expression.Reader := Expression.parse d) : Except Failure (Option (Directive Span)) :=
  let body := if text.getLast? = some ('\n' : CodePoint) then text.dropLast else text
  if ('\n' : CodePoint) ∈ body then .error .manyLines
  else
    (readLine d (.ofDialect d)
      (.single (Text.trimEnd (fun c => c = '\r') body) ⟨lineNumber, 1, 0⟩) read).1

/-- Reads logical lines with one lexer and gathers the errors of all of them.  Other failures end the
reading. -/
def gatherErrors (d : Dialect) (lx : Lexer) (lines : List LogicalLine)
    (read : Expression.Reader := Expression.parse d) : Except Failure (List ParseError) :=
  match lines with
  | [] => .ok []
  | line :: rest =>
    match readLine d lx line read with
    | (.error (.parse e), lx') => (gatherErrors d lx' rest read).map (e :: ·)
    | (.error f, _) => .error f
    | (.ok _, lx') => gatherErrors d lx' rest read

/-- The errors of all lines of a table, in the order of the source. -/
def errors (d : Dialect) (text : Text) (read : Expression.Reader := Expression.parse d) :
    Except Failure (List ParseError) :=
  let joined := LogicalLine.join d.continuationMarker [d.commentChar] (physicalLines text)
  (gatherErrors d (.ofDialect d) joined.lines read).map (· ++ joined.dangling.toList)

def write (d : Dialect) (t : Table) : Except PrintFault Text := Directive.writeLines d t.directives

/-- Whether two tables are equal but for annotations and comments. -/
def same (t u : Table) : Bool :=
  t.directives.length = u.directives.length &&
    (t.directives.zip u.directives).all fun (a, b) => a.same b

/-- The directives of one opcode, whose name is put in lower case. -/
def byOpcode (t : Table) (name : Text) : List (Directive Span) :=
  t.directives.filter (·.opcode = name.lower)

/-- A directive by its index; an index below zero counts from the end. -/
def get? (t : Table) (index : Int) : Option (Directive Span) :=
  let i := if index < 0 then index + t.directives.length else index
  if i < 0 then none else t.directives[i.toNat]?

end Table
end BrailleTable
