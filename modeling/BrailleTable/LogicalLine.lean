/-
Physical lines, and the logical lines that continuation markers join them into.

A logical line keeps, for every stretch that came from one physical line, the place where the stretch
begins.  Each index of a logical line therefore stands for one place of the source (`LogicalLine.place`),
however many physical lines were joined.
-/
import BrailleTable.Error
import BrailleTable.Text.Blank

namespace BrailleTable

/-- The lines of a text, each with its line feed.  Only a line feed ends a line. -/
def physicalLines : Text → List Text
  | [] => []
  | c :: rest =>
    if c = '\n' then [c] :: physicalLines rest
    else match physicalLines rest with
      | [] => [[c]]
      | line :: more => (c :: line) :: more

/-- A stretch of a logical line: the index it begins at and the place that index stands for. -/
structure Piece where
  index : Nat
  place : Place
deriving DecidableEq

/-- A line as the lexer sees it.  It has at least one piece. -/
structure LogicalLine where
  text : Text
  first : Piece
  more : List Piece
deriving DecidableEq

namespace LogicalLine

/-- The line that begins at a place and has one piece. -/
def single (text : Text) (place : Place) : LogicalLine := ⟨text, ⟨0, place⟩, []⟩

def pieces (l : LogicalLine) : List Piece := l.first :: l.more

def lineNumber (l : LogicalLine) : Int := l.first.place.line

/-- The last of the pieces that begin at or before `index`; the first piece if none does. -/
def owner (index : Int) : Piece → List Piece → Piece
  | p, [] => p
  | p, q :: rest => if (q.index : Int) ≤ index then owner index q rest else p

/-- The place an index stands for.  An index outside the line is counted on from the nearest piece. -/
def place (l : LogicalLine) (index : Int) : Place :=
  let p := owner index l.first l.more
  p.place.advance (index - p.index)

/-- The range of the source that the indices from `i` up to `j` stand for. -/
def span (l : LogicalLine) (i j : Int) : Span :=
  if j ≤ i then .point (l.place i) else .between (l.place i) ((l.place (j - 1)).advance 1)

/-- The empty range just after the line's last code point. -/
def endSpan (l : LogicalLine) : Span := l.span l.text.length l.text.length

end LogicalLine

/-! ## Joining -/

namespace LogicalLine

/-- A physical line without its line ending. -/
def body (raw : Text) : Text :=
  if raw.getLast? = some ('\n' : CodePoint) then Text.trimEnd (fun c => c = '\r' || c = '\n') raw
  else Text.trimEnd (fun c => c = '\r') raw

/-- The code points a physical line takes up.  One that lacks its line feed is counted as if it had
one. -/
def width (raw : Text) : Nat :=
  if raw.getLast? = some ('\n' : CodePoint) then raw.length else raw.length + 1

/-- Whether a line, stripped on the right, ends in a continuation marker.  Two backslashes are an
escaped backslash, so the backslash marks a continuation only where the run of them is odd. -/
def continues (marker stripped : Text) : Bool :=
  marker ≠ [] && marker.isSuffixOf stripped &&
    (marker ≠ "\\" ||
      (stripped.length - (Text.trimEnd (fun c => c = '\\') stripped).length) % 2 = 1)

/-- Whether a physical line holds nothing but a comment. -/
def isComment (commentMark line : Text) : Bool :=
  commentMark ≠ [] && commentMark.isPrefixOf (Text.stripLeft line)

/-- A logical line whose last piece ended in a continuation marker. -/
structure Pending where
  line : LogicalLine
  /-- Where the marker stands. -/
  marker : Place

/-- Adds the piece of one more physical line to a pending line, if there is one. -/
def extend (pending : Option Pending) (start : Place) (text : Text) : LogicalLine :=
  match pending with
  | none => single text start
  | some p =>
    { p.line with text := p.line.text ++ text, more := p.line.more ++ [⟨p.line.text.length, start⟩] }

/-- The error of a continuation marker that no line follows. -/
def dangling (marker : Text) (p : Place) : ParseError :=
  .of .continuation (.danglingMarker marker) (.between p (p.advance marker.length)) ["line"] none

/-- The logical lines of a table, and the error of a marker left over at its end. -/
structure Joined where
  lines : List LogicalLine
  dangling : Option ParseError

/-- Joins the physical lines that follow `offset` code points and `count` lines of the source.  A marker
becomes one space at its own place, and a line that is a comment is never continued. -/
def joinFrom (marker commentMark : Text) (count offset : Nat) (pending : Option Pending) :
    List Text → Joined
  | [] => ⟨[], pending.map fun p => dangling marker p.marker⟩
  | raw :: rest =>
    let line := body raw
    let stripped := Text.stripRight line
    let start : Place := ⟨count + 1, 1, offset⟩
    if !isComment commentMark line && continues marker stripped then
      let cut := stripped.length - marker.length
      let extended := extend pending start (line.take cut ++ " ")
      joinFrom marker commentMark (count + 1) (offset + width raw)
        (some ⟨extended, start.advance cut⟩) rest
    else
      let joined := joinFrom marker commentMark (count + 1) (offset + width raw) none rest
      { joined with lines := extend pending start line :: joined.lines }

/-- Joins the physical lines of a table. -/
def join (marker commentMark : Text) (lines : List Text) : Joined :=
  joinFrom marker commentMark 0 0 none lines

end LogicalLine
end BrailleTable
