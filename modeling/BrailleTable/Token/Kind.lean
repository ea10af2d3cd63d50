/-
The kinds of tokens.
-/
import BrailleTable.Text.Punctuation
import BrailleTable.Text.Symbol

namespace BrailleTable

/-- The kinds a token is sorted into by its spelling alone.  The sorting is advisory: each argument
slot decides which kinds it takes. -/
inductive TokenKind where
  | word
  | quoted
  | dots
  | number
  | punctuation
deriving DecidableEq

namespace TokenKind

def label : TokenKind → Text
  | .word => "word"
  | .quoted => "quoted-string"
  | .dots => "dot-pattern"
  | .number => "number"
  | .punctuation => "punctuation"

def all : List TokenKind := [.word, .quoted, .dots, .number, .punctuation]

def ofLabel? (t : Text) : Option TokenKind := all.find? (·.label = t)

/-- A digit of a braille cell: a hexadecimal digit in lower case. -/
def isDotDigit (c : CodePoint) : Bool := c.isDigit || (97 ≤ c.val && c.val ≤ 102)

/-- Whether a text has the spelling of a dot pattern: cells of dot digits between single dashes, of
which there are at least two unless the text starts with a decimal digit. -/
def looksLikeDots (t : Text) : Bool :=
  let cells := Text.splitAt '-' t
  cells.all (fun cell => cell ≠ [] && cell.all isDotDigit) &&
    (2 ≤ cells.length || t.head?.any CodePoint.isDigit)

/-- The kind of an unquoted token, by its spelling. -/
def ofText (t : Text) : TokenKind :=
  if t ≠ [] ∧ t.all CodePoint.isDigit then .number
  else if looksLikeDots t then .dots
  else if t ≠ [] ∧ t.all (fun c => c.isPunctuation || c.isSymbol) then .punctuation
  else .word

end TokenKind
end BrailleTable
