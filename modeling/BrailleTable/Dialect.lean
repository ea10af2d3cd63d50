/-
Dialects: the vocabulary of a table and the marks and words it is written with.
-/
import BrailleTable.Error
import BrailleTable.Vocabulary

namespace BrailleTable

/-- What the reader and the printer of a table consult.  The conditions on the depth and on the dot
alphabet hold for every dialect that can be built. -/
structure Dialect where
  vocabulary : Vocabulary
  /-- What joins a line to the next one. -/
  continuationMarker : Text
  commentChar : CodePoint
  /-- The digits that name dots. -/
  dotAlphabet : Text
  /-- The most parentheses that may be open at once in an expression. -/
  maxDepth : Nat
  testKeyword : Text
  actionKeyword : Text
  maxDepth_pos : 0 < maxDepth
  dotAlphabet_digits : ∀ c ∈ dotAlphabet, TokenKind.isDotDigit c = true

namespace Dialect

def standard : Dialect where
  vocabulary := .standard
  continuationMarker := "\\"
  commentChar := '#'
  dotAlphabet := "0123456789abcdef"
  maxDepth := 32
  testKeyword := "test"
  actionKeyword := "actions"
  maxDepth_pos := by decide
  dotAlphabet_digits := by decide

/-- The names of the opcodes whose arguments are an expression, in ascending order. -/
def multipartOpcodes (d : Dialect) : List Text :=
  Text.sortedSet ((d.vocabulary.filter Shape.isMultipart).map Shape.name)

/-- Whether two dialects read every table alike. -/
def same (d e : Dialect) : Bool :=
  d.vocabulary.same e.vocabulary && d.continuationMarker = e.continuationMarker &&
    d.commentChar = e.commentChar && d.dotAlphabet = e.dotAlphabet && d.maxDepth = e.maxDepth &&
    d.testKeyword = e.testKeyword && d.actionKeyword = e.actionKeyword

def withShapes (d : Dialect) (shapes : List Shape) : Dialect :=
  { d with vocabulary := d.vocabulary.putAll shapes }

/-- The dialect with opcodes added to its vocabulary, given by name and written shape. -/
def withOpcodes (d : Dialect) (entries : List (Text × Text)) : Except Shape.Fault Dialect :=
  (Vocabulary.readEntries entries).map d.withShapes

end Dialect
end BrailleTable
