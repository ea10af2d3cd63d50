/-
Positions in a source text.
-/
import BrailleTable.Text

namespace BrailleTable

/-- A point of the source: line and column from one, and the number of code points before it. -/
structure Place where
  line : Int
  col : Int
  offset : Int
deriving DecidableEq

namespace Place

/-- The place `n` columns further along the same line. -/
def advance (p : Place) (n : Int) : Place := { p with col := p.col + n, offset := p.offset + n }

end Place

/-- A range of the source.  Offsets run from `start` up to, not including, `stop`; the line and column
of both ends are kept beside them. -/
structure Span where
  start : Int
  stop : Int
  line : Int
  col : Int
  endLine : Int
  endCol : Int
deriving DecidableEq

namespace Span

def point (p : Place) : Span := ⟨p.offset, p.offset, p.line, p.col, p.line, p.col⟩

/-- The range from one place to just before another. -/
def between (p q : Place) : Span := ⟨p.offset, q.offset, p.line, p.col, q.line, q.col⟩

/-- The least range that covers both. -/
def merge (a b : Span) : Span :=
  let first := if a.start ≤ b.start then a else b
  let last := if b.stop ≤ a.stop then a else b
  ⟨first.start, last.stop, first.line, first.col, last.endLine, last.endCol⟩

/-- Line and column of the start, as messages name a position. -/
def display (s : Span) : Text := Text.ofInt s.line ++ ":" ++ Text.ofInt s.col

end Span
end BrailleTable
