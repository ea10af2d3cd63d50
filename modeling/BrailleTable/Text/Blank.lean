/-
White space: what separates tokens and slots, and what is stripped from comments.
-/
import BrailleTable.Text.RangeTable

namespace BrailleTable
namespace CodePoint

/-- The ranges of white space, in ascending order. -/
def blanks : RangeTable :=
  [(0x9, 0xd), (0x1c, 0x20), (0x85, 0x85), (0xa0, 0xa0), (0x1680, 0x1680), (0x2000, 0x200a),
   (0x2028, 0x2029), (0x202f, 0x202f), (0x205f, 0x205f), (0x3000, 0x3000)]

/-- Whether a code point is white space.  The four information separators U+001C to U+001F count. -/
def isBlank (c : CodePoint) : Bool := blanks.contains c.val

end CodePoint

namespace Text

def stripLeft (t : Text) : Text := t.dropWhile CodePoint.isBlank

def stripRight (t : Text) : Text := trimEnd CodePoint.isBlank t

def strip (t : Text) : Text := stripRight (stripLeft t)

/-- The maximal runs of a text that hold no white space. -/
def words : Text → List Text
  | [] => []
  | c :: rest =>
    if c.isBlank then words rest
    else match rest, words rest with
      | d :: _, word :: more => if d.isBlank then [c] :: word :: more else (c :: word) :: more
      | _, more => [c] :: more

end Text
end BrailleTable
