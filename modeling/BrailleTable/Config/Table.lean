/-
Reading tables by a configuration.

Where the marker and the keywords are texts, a table is read as the dialect of the configuration has it.
A keyword that is a number is met where an expression is to be read, before any of it; a marker that is a
number, at the first physical line that is no comment.
-/
import BrailleTable.Config
import BrailleTable.Table

namespace BrailleTable
namespace Config

/-- Reads expressions with `read`, if the keywords are texts. -/
def readerWith (c : Config) (read : Expression.Reader) : Expression.Reader := fun opcode cur =>
  if c.testKeyword.isText ∧ c.actionKeyword.isText then read opcode cur else .error .numericKeyword

def reader (c : Config) : Expression.Reader := c.readerWith (Expression.parse c.dialect)

/-- Reads expressions with room for the calls of `room` parentheses. -/
def readerWithin (c : Config) (room : Nat) : Expression.Reader :=
  c.readerWith fun opcode => Expression.parseWithin c.dialect opcode room

/-- Whether a line is looked at for a marker that is a number.  The number zero is no marker at all, and
comments are not looked at.  Lines before it hold nothing, since they are comments. -/
def seeksNumber (c : Config) (lines : List Text) : Bool :=
  match c.continuationMarker with
  | .text _ => false
  | .number n => n ≠ 0 && lines.any fun raw => !LogicalLine.isComment [c.commentChar] (LogicalLine.body raw)

/-- Reads a table from its physical lines, where `read` reads expressions. -/
def assemble (c : Config) (lines : List Text) (read : Expression.Reader := c.reader) :
    Except Failure Table :=
  if c.seeksNumber lines then .error .numericMarker else Table.assemble c.dialect lines read

def parse (c : Config) (text : Text) (read : Expression.Reader := c.reader) : Except Failure Table :=
  c.assemble (physicalLines text) read

/-- Reads a table with room for the calls of `room` parentheses one inside the other. -/
def parseWithin (c : Config) (room : Nat) (text : Text) : Except Failure Table :=
  c.parse text (c.readerWithin room)

/-- Reads one physical line, in which no marker is looked for. -/
def parseLine (c : Config) (text : Text) (lineNumber : Int) : Except Failure (Option (Directive Span)) :=
  Table.parseLine c.dialect text lineNumber c.reader

/-- The errors of all lines of a table, in the order of the source. -/
def errors (c : Config) (text : Text) : Except Failure (List ParseError) :=
  if c.seeksNumber (physicalLines text) then .error .numericMarker
  else Table.errors c.dialect text c.reader

end Config
end BrailleTable
