/-
Texts as messages show them: between quotes, with what cannot be shown written as an escape.
-/
import BrailleTable.Text.Printable

namespace BrailleTable
namespace Text

/-- The quote around a displayed text: single, unless the text has a single quote and no double one. -/
def quoteFor (t : Text) : CodePoint :=
  if ('\'' : CodePoint) ∈ t ∧ ('"' : CodePoint) ∉ t then '"' else '\''

/-- A code point inside a displayed text.  The escape of one that cannot be shown has as many digits as
its size asks for. -/
def displayOne (quote c : CodePoint) : Text :=
  if c = '\\' ∨ c = quote then ['\\', c]
  else if c = '\n' then "\\n"
  else if c = '\r' then "\\r"
  else if c = '\t' then "\\t"
  else if c.isPrintable then [c]
  else if c.val < 0x100 then "\\x" ++ hex 2 c.val
  else if c.val < 0x10000 then "\\u" ++ hex 4 c.val
  else "\\U" ++ hex 8 c.val

/-- The text between quotes, as messages show it. -/
def display (t : Text) : Text :=
  let quote := quoteFor t
  [quote] ++ t.flatMap (displayOne quote) ++ [quote]

end Text
end BrailleTable
