/-
Moving a source behind another text.

`Shift` says by how many lines and code points everything moves.  Columns do not change, because the text in front ends
with a line.
-/
import BrailleTable.Proofs.LogicalLine.Motion
import BrailleTable.Proofs.Relocation.Directive

namespace BrailleTable

/-- How far the places of a source move. -/
structure Shift where
  lines : Int
  offset : Int

/-! ## Places and ranges -/

namespace Place

def shift (v : Shift) (p : Place) : Place := { p with line := p.line + v.lines, offset := p.offset + v.offset }

theorem advance_shift (v : Shift) (p : Place) (n : Int) : (p.shift v).advance n = (p.advance n).shift v := by
  unfold advance shift
  dsimp only
  rw [Int.add_right_comm]

end Place

def Span.shift (v : Shift) (s : Span) : Span :=
  ⟨s.start + v.offset, s.stop + v.offset, s.line + v.lines, s.col, s.endLine + v.lines, s.endCol⟩

namespace Shift

def motion (v : Shift) : Motion where
  place := Place.shift v
  span := Span.shift v
  advance_place := Place.advance_shift v
  between_place := fun _ _ => rfl

/-- A line further down the source. -/
def relocation (v : Shift) (l : LogicalLine) : Relocation where
  line := l
  image := l.move v.motion
  offset := (· + v.offset)
  row := (· + v.lines)
  text_eq := rfl
  span_eq := l.span_move v.motion
  offset_le := fun _ _ => Int.add_le_add_iff_right v.offset

end Shift

/-! ## What is read -/

abbrev Value.shift (v : Shift) : Value Span → Value Span := map (Span.shift v)

abbrev Expression.shift (v : Shift) : Expression Span → Expression Span := map (Span.shift v)

/-- A directive keeps everything but the places of its parts. -/
def Directive.shift (v : Shift) (r : Directive Span) : Directive Span :=
  { r with args := r.args.map (Value.shift v), expression := r.expression.map (Expression.shift v),
           span := r.span.shift v }

abbrev ParseError.shift (v : Shift) : ParseError → ParseError := map (Span.shift v)

abbrev Failure.shift (v : Shift) : Failure → Failure := map (Span.shift v)

theorem Category.label_shift (v : Shift) (c : Category) : (c.map (Span.shift v)).label = c.label := c.label_map _

namespace Table

/-- A line that has been moved is read as it was, with the directive or the failure moved. -/
theorem readAlone_shift (v : Shift) (d : Dialect) (line : LogicalLine) :
    Agree (Failure.shift v) (Option.map (Directive.shift v)) (readAlone d line) (readAlone d (line.move v.motion)) :=
  readAlone_move (v.relocation line) d

end Table
end BrailleTable
