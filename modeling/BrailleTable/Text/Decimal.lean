/-
Reading an integer from its decimal numeral.
-/
import BrailleTable.Text.Blank

namespace BrailleTable
namespace CodePoint

/-- The zeros of the decimal digit runs of edition 14 of the Unicode character database.  Each script's ten
digits stand in order after its zero. -/
def decimalZeros : List Nat :=
  [0x30, 0x660, 0x6f0, 0x7c0, 0x966, 0x9e6, 0xa66, 0xae6, 0xb66, 0xbe6, 0xc66, 0xce6, 0xd66,
   0xde6, 0xe50, 0xed0, 0xf20, 0x1040, 0x1090, 0x17e0, 0x1810, 0x1946, 0x19d0, 0x1a80, 0x1a90,
   0x1b50, 0x1bb0, 0x1c40, 0x1c50, 0xa620, 0xa8d0, 0xa900, 0xa9d0, 0xa9f0, 0xaa50, 0xabf0,
   0xff10, 0x104a0, 0x10d30, 0x11066, 0x110f0, 0x11136, 0x111d0, 0x112f0, 0x11450, 0x114d0,
   0x11650, 0x116c0, 0x11730, 0x118e0, 0x11950, 0x11c50, 0x11d50, 0x11da0, 0x16a60, 0x16ac0,
   0x16b50, 0x1d7ce, 0x1d7d8, 0x1d7e2, 0x1d7ec, 0x1d7f6, 0x1e140, 0x1e2f0, 0x1e950, 0x1fbf0]

/-- The value of a decimal digit of any script. -/
def decimalValue? (c : CodePoint) : Option Nat :=
  (decimalZeros.find? fun z => z ≤ c.val ∧ c.val < z + 10).map (c.val - ·)

end CodePoint

inductive IntegerFault where
  /-- A run of more digits than may be converted. -/
  | oversized (digits : Nat)
  | malformed
deriving DecidableEq

namespace Text

/-- The most digits a numeral may have. -/
def digitLimit : Nat := 4300

/-- The white space allowed around a numeral: every blank but the information separators. -/
def isNumeralBlank (c : CodePoint) : Bool := c.isBlank && !(0x1c ≤ c.val && c.val ≤ 0x1f)

/-- Splits a leading sign off; the flag says whether it is a minus. -/
def splitSign : Text → Bool × Text
  | [] => (false, [])
  | c :: rest => if c = '-' then (true, rest) else if c = '+' then (false, rest) else (false, c :: rest)

def isNumeralPart (c : CodePoint) : Bool := c = '_' || c.decimalValue?.isSome

/-- Whether every underscore of a run of digits and underscores stands between two digits. -/
def wellSpaced : Text → Bool
  | [] => false
  | [c] => c ≠ '_'
  | c :: d :: rest => c ≠ '_' && (if d = '_' then wellSpaced rest else wellSpaced (d :: rest))

def digitsValue (digits : List Nat) : Nat := digits.foldl (fun n d => 10 * n + d) 0

/-- Reads an integer: white space may surround it, a sign may precede it, digits of any script count
and single underscores may stand between digits.  The number of digits is checked before what follows
them. -/
def readInteger (t : Text) : Except IntegerFault Int :=
  let (negative, body) := splitSign (t.dropWhile isNumeralBlank)
  let run := body.takeWhile isNumeralPart
  let digits := run.filterMap CodePoint.decimalValue?
  if !wellSpaced run then .error .malformed
  else if digitLimit < digits.length then .error (.oversized digits.length)
  else if (body.dropWhile isNumeralPart).all isNumeralBlank then
    .ok (if negative then -(digitsValue digits : Int) else digitsValue digits)
  else .error .malformed

end Text
end BrailleTable
