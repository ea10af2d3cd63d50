/-
Cursors over the tokens of a line, and the furthest place that a reader could not go past.
-/
import BrailleTable.Text.Lowercase
import BrailleTable.Token

namespace BrailleTable

/-- A position among the tokens of a line. -/
structure Cursor where
  tokens : List Token
  pos : Nat
  /-- The end of the line, where errors point once the tokens are used up. -/
  eol : Span
deriving DecidableEq

namespace Cursor

def peek? (c : Cursor) : Option Token := c.tokens[c.pos]?

/-- Moves by `n` tokens, and never past the last one. -/
def move (c : Cursor) (n : Int) : Cursor :=
  { c with pos := (min (c.pos + n) (c.tokens.length : Int)).toNat }

def next (c : Cursor) : Cursor := { c with pos := min (c.pos + 1) c.tokens.length }

def atEnd (c : Cursor) : Bool := c.tokens.length ≤ c.pos

def rest (c : Cursor) : List Token := c.tokens.drop c.pos

/-- The number of tokens left, which is negative for a cursor set beyond the end. -/
def remaining (c : Cursor) : Int := (c.tokens.length : Int) - c.pos

def span (c : Cursor) : Span :=
  match c.peek? with
  | none => c.eol
  | some t => t.span

/-- The spelling of the token at the cursor; none at the end of the line. -/
def found (c : Cursor) : Option Text := c.peek?.map Token.text

/-- What stands at the cursor, as messages call it. -/
def describe (c : Cursor) : Text := Reason.displayFound c.found

/-- Whether a word with this spelling, in lower case, stands at the cursor. -/
def isWord (c : Cursor) (word : Text) : Bool :=
  c.peek?.any fun t => t.kind = .word && t.text.lower = word

/-- Whether a punctuation token with this spelling stands at the cursor. -/
def isPunctuation (c : Cursor) (text : Text) : Bool :=
  c.peek?.any fun t => t.kind = .punctuation && t.text = text

end Cursor

/-- A place that an attempt could not go past, and what the attempt wanted there. -/
structure Miss where
  cursor : Cursor
  expected : List Text
  /-- The innermost parenthesis open at the time. -/
  context : Option Span
deriving DecidableEq

/-- The furthest of the places that attempts could not go past. -/
structure Furthest where
  cursor : Option Cursor
  /-- What the attempts wanted there, in ascending order and each once. -/
  expected : List Text
  context : Option Span
deriving DecidableEq

namespace Furthest

def none : Furthest := ⟨.none, [], .none⟩

/-- The index of the furthest token, or minus one before any miss. -/
def pos (f : Furthest) : Int :=
  match f.cursor with
  | .none => -1
  | some c => c.pos

/-- Takes account of one more miss.  A further one replaces what was known, and an equally far one adds
what it wanted, and its context where there was none. -/
def add (f : Furthest) (m : Miss) : Furthest :=
  if f.pos < m.cursor.pos then ⟨some m.cursor, Text.sortedSet m.expected, m.context⟩
  else if (m.cursor.pos : Int) = f.pos then
    { f with expected := Text.sortedSet (f.expected ++ m.expected), context := f.context.or m.context }
  else f

/-- The furthest of some misses, taken in order. -/
def ofMisses (misses : List Miss) : Furthest := misses.foldl add none

end Furthest
end BrailleTable
