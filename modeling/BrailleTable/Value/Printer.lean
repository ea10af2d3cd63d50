/-
Writing values so that they are read back.
-/
import BrailleTable.Text.Printable
import BrailleTable.Value
import BrailleTable.Value.Escape

namespace BrailleTable
namespace Escape

/-- The code points that a written text gives a special form. -/
structure Care where
  /-- Written by number where they come first. -/
  lead : Text
  /-- Written after a backslash. -/
  escaped : Text
  /-- Written by number wherever they stand. -/
  numbered : Text

/-- A code point of a written text.  What has an escape of its own takes it; what is white space or
cannot be shown is written by number. -/
def encodeOne (care : Care) (isFirst : Bool) (c : CodePoint) : Text :=
  match codeOf? c with
  | some code => ['\\', code]
  | none =>
    if c ∈ care.escaped then ['\\', c]
    else if (isFirst && c ∈ care.lead) || c ∈ care.numbered || c.isBlank || !c.isPrintable then byNumber c
    else [c]

/-- Writes a text as one unquoted token. -/
def encode (care : Care) : Text → Text
  | [] => []
  | c :: rest => encodeOne care true c ++ rest.flatMap (encodeOne care false)

end Escape

namespace Text

/-- A code point of a quoted string: a backslash stands before every quote and backslash. -/
def quoteOne (c : CodePoint) : Text := if c = '"' ∨ c = '\\' then ['\\', c] else [c]

def quote (t : Text) : Text := "\"" ++ t.flatMap quoteOne ++ "\""

end Text

namespace Value

variable {σ : Type}

/-- What has to be written by number at the start of an argument: the comment character, a quote and an
opening bracket would be taken for something else. -/
def leadOf (commentChar : CodePoint) : Text := [commentChar, '"', '[']

def writeString (commentChar : CodePoint) (t : Text) : Text :=
  Escape.encode ⟨leadOf commentChar, [], []⟩ t

/-- Writes a file name as it stands, between quotes where it would not be one token. -/
def writeFilename (commentChar : CodePoint) (t : Text) : Text :=
  if t.any CodePoint.isBlank ∨ t.head? = some ('"' : CodePoint) ∨ t.head? = some commentChar then t.quote
  else t

def writeClass (ranges : List (Text × Text)) : Text :=
  let bound (t : Text) : Text := Escape.encode ⟨[], "]-[", []⟩ t
  "[" ++ ranges.flatMap (fun (lo, hi) => if hi = lo then bound lo else bound lo ++ "-" ++ bound hi) ++ "]"

/-- Writes an argument for a slot of the given kinds.  A file name has no escapes, so a slot for file
names that takes no characters is written differently. -/
def write (commentChar : CodePoint) (kinds : List SlotKind) : Value σ → Text
  | .character t _ => writeString commentChar t
  | .string t _ =>
    if .filename ∈ kinds ∧ .characters ∉ kinds then writeFilename commentChar t
    else writeString commentChar t
  | .charClass ranges _ => writeClass ranges
  | .dots cells _ => writeDots cells
  | .number n _ => Text.ofInt n
  | .name t _ => t

end Value
end BrailleTable
