/-
Tokens: the pieces a logical line is cut into.
-/
import BrailleTable.LogicalLine
import BrailleTable.Token.Kind

namespace BrailleTable

structure Token where
  kind : TokenKind
  /-- The spelling, quotes included. -/
  text : Text
  /-- The spelling, or what a quoted string stands for. -/
  value : Text
  span : Span
  /-- The indices of the logical line from `start` up to `stop` hold the token. -/
  start : Nat
  stop : Nat
  /-- The line the token was cut from; a token made by hand has none. -/
  source : Option LogicalLine
deriving DecidableEq

namespace Token

/-- The range of the part of a token from its index `i` up to `j`.  A quoted string is pointed at as a
whole, because its value and its spelling do not correspond index by index. -/
def subSpan (t : Token) (i j : Nat) : Span :=
  match t.source with
  | none => t.span
  | some line => if t.kind = .quoted then t.span else line.span (t.start + i : Nat) (t.start + j : Nat)

/-- The token that a stretch of a line is, given what it stands for. -/
def ofLine (line : LogicalLine) (kind : TokenKind) (start stop : Nat) (value : Text) : Token :=
  { kind, text := line.text.slice start stop, value, span := line.span start stop, start, stop,
    source := some line }

/-- The token that an unquoted stretch of a line is.  It stands for its spelling. -/
def plain (line : LogicalLine) (kind : TokenKind) (start stop : Nat) : Token :=
  ofLine line kind start stop (line.text.slice start stop)

end Token

/-! ## Operators

An expression may be written without blanks around its parentheses and comparisons, so its tokens are
cut further before it is parsed. -/

namespace Token

/-- The code points that comparisons and parentheses are written with. -/
def isOperatorChar (c : CodePoint) : Bool := c ∈ Text.ofString "()=<>!"

/-- The parentheses and comparisons. -/
def operators : List Text := ["(", ")", "=", "!=", "<", "<=", ">", ">="]

/-- Cuts a text into operators and the runs between them.  Of two operators that fit, the longer is
taken. -/
def pieces : Text → List Text
  | [] => []
  | [c] => [[c]]
  | c :: d :: rest =>
    if (c = '!' || c = '<' || c = '>') && d = '=' then [c, d] :: pieces rest
    else if isOperatorChar c || isOperatorChar d then [c] :: pieces (d :: rest)
    else match pieces (d :: rest) with
      | [] => [[c]]
      | piece :: more => (c :: piece) :: more

/-- The tokens of consecutive pieces of a line, the first of which begins at `start`. -/
def ofPieces (line : LogicalLine) (start : Nat) : List Text → List Token
  | [] => []
  | piece :: rest =>
    let kind := if piece ∈ operators then .punctuation else TokenKind.ofText piece
    let stop := start + piece.length
    { kind, text := piece, value := piece, span := line.span start stop, start, stop,
      source := some line } :: ofPieces line stop rest

/-- Cuts the operators of one token apart.  Quoted strings and tokens made by hand stay whole. -/
def splitOperators (t : Token) : List Token :=
  match t.source with
  | none => [t]
  | some line =>
    if t.kind = .quoted ∨ t.text.length = 1 then [t]
    else match pieces t.text with
      | [_] => [t]
      | ps => ofPieces line t.start ps

end Token
end BrailleTable
