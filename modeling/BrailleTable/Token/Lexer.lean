/-
The lexer: a value that reads a logical line token by token.

White space separates tokens, and an unquoted comment mark at the start of a token ends the line.  After
an opcode whose arguments are an expression, parentheses are tokens of their own wherever they stand.
A lexer keeps nothing from one line to the next, and a failed step changes nothing but the white space
already skipped, so that repeating it fails in the same way.
-/
import BrailleTable.Text.Lowercase
import BrailleTable.Token

namespace BrailleTable

/-- What a lexer knows of the tables it reads. -/
structure LexRules where
  /-- The comment mark; one that is not a single code point never matches. -/
  commentMark : Text
  /-- The opcodes, in lower case, whose arguments are an expression. -/
  expressionOpcodes : List Text
  /-- The modifiers, in lower case, that may stand before an opcode. -/
  modifiers : List Text

namespace LexRules

def ofNames (commentMark : Text) (expressionOpcodes modifiers : List Text) : LexRules :=
  ⟨commentMark, expressionOpcodes.map Text.lower, modifiers.map Text.lower⟩

end LexRules

/-- A lexer in the middle of a line, or one that has not been given a line yet. -/
structure Lexer where
  rules : LexRules
  line : Option LogicalLine
  index : Nat
  /-- Whether only modifiers have been read so far. -/
  inHead : Bool
  /-- Whether an opcode with an expression has been read. -/
  inExpression : Bool
  /-- The token that was looked at and not yet taken. -/
  peeked : Option Token
  /-- The comment at the end of the line, once it has been reached. -/
  comment : Option Text

namespace Lexer

def ofRules (rules : LexRules) : Lexer :=
  { rules, line := none, index := 0, inHead := true, inExpression := false, peeked := none,
    comment := none }

/-- Turns to the start of a line. -/
def reset (lx : Lexer) (line : LogicalLine) : Lexer := { ofRules lx.rules with line := some line }

/-- Reads the rest of a quoted string from index `i` of the line, where `start` is the index of its
opening quote.  The answer is what the string stands for and the index after its closing quote. -/
def readQuoted (line : LogicalLine) (start : Nat) : Nat → Text → Except ParseError (Text × Nat)
  | _, [] => .error unterminated
  | i, [c] => if c = '"' then .ok ([], i + 1) else .error unterminated
  | i, c :: d :: rest =>
    if c = '"' then .ok ([], i + 1)
    else if c = '\\' then
      if d = '"' ∨ d = '\\' then (readQuoted line start (i + 2) rest).map fun (v, j) => (d :: v, j)
      else .error (.of .lexical (.unknownEscape d) (line.span i (i + 2 : Nat)) ["\\\"", "\\\\"]
        (some [c, d]))
    else (readQuoted line start (i + 1) (d :: rest)).map fun (v, j) => (c :: v, j)
where
  unterminated : ParseError :=
    .of .lexical .unterminatedQuote (line.span start (start + 1 : Nat)) ["\""] none

def isParenthesis (c : CodePoint) : Bool := c = '(' || c = ')'

/-- Whether a code point may stand right after a closing quote. -/
def mayFollowQuote (lx : Lexer) (c : CodePoint) : Bool :=
  c.isBlank || [c] = lx.rules.commentMark || (lx.inExpression && c = ')')

/-- Takes note of a token: the first one that is no modifier decides whether an expression follows. -/
def note (lx : Lexer) (t : Token) : Lexer :=
  let lx := { lx with index := t.stop }
  if !lx.inHead then lx
  else if t.kind = .word then
    let name := t.text.lower
    if name ∈ lx.rules.modifiers then lx
    else { lx with inHead := false, inExpression := name ∈ lx.rules.expressionOpcodes }
  else { lx with inHead := false, inExpression := false }

/-- Reads the token that starts with `c` at the lexer's index, where `rest` is what follows. -/
def readToken (lx : Lexer) (line : LogicalLine) (c : CodePoint) (rest : Text) :
    Except ParseError (Token × Lexer) :=
  let start := lx.index
  if lx.inExpression && isParenthesis c then
    .ok (.plain line .punctuation start (start + 1), { lx with index := start + 1 })
  else if c = '"' then
    match readQuoted line start (start + 1) rest with
    | .error e => .error e
    | .ok (value, stop) =>
      match line.text.drop stop with
      | d :: _ =>
        if lx.mayFollowQuote d then
          let t := Token.ofLine line .quoted start stop value
          .ok (t, lx.note t)
        else .error (.of .lexical .textAfterQuote (line.span stop (stop + 1 : Nat)) ["whitespace"] (some [d]))
      | [] =>
        let t := Token.ofLine line .quoted start stop value
        .ok (t, lx.note t)
  else
    let word := c :: rest.takeWhile fun d => !d.isBlank && !(lx.inExpression && isParenthesis d)
    let t := Token.plain line (TokenKind.ofText word) start (start + word.length)
    .ok (t, lx.note t)

/-- Reads past white space and then one token, if there is one before the end or a comment. -/
def read (lx : Lexer) : Except ParseError (Option Token) × Lexer :=
  match lx.line with
  | none => (.ok none, lx)
  | some line =>
    let rest := line.text.drop lx.index
    let lx := { lx with index := lx.index + (rest.takeWhile CodePoint.isBlank).length }
    match rest.dropWhile CodePoint.isBlank with
    | [] => (.ok none, lx)
    | c :: after =>
      if [c] = lx.rules.commentMark then
        (.ok none, { lx with comment := some (Text.strip after), index := line.text.length })
      else match lx.readToken line c after with
        | .error e => (.error e, lx)
        | .ok (t, lx') => (.ok (some t), lx')

def peek (lx : Lexer) : Except ParseError (Option Token) × Lexer :=
  match lx.peeked with
  | some t => (.ok (some t), lx)
  | none =>
    match lx.read with
    | (.ok t, lx') => (.ok t, { lx' with peeked := t })
    | (.error e, lx') => (.error e, lx')

def next (lx : Lexer) : Except ParseError (Option Token) × Lexer :=
  match lx.peeked with
  | some t => (.ok (some t), { lx with peeked := none })
  | none => lx.read

/-- Takes tokens up to the end of the line, `limit` at most. -/
def drain : Nat → Lexer → Except ParseError (List Token) × Lexer
  | 0, lx => (.ok [], lx)
  | limit + 1, lx =>
    match lx.next with
    | (.error e, lx') => (.error e, lx')
    | (.ok none, lx') => (.ok [], lx')
    | (.ok (some t), lx') =>
      let (rest, lx'') := drain limit lx'
      (rest.map (t :: ·), lx'')

/-- All tokens of a line.  Each takes at least one code point, so the line's length bounds their
number. -/
def tokenize (lx : Lexer) (line : LogicalLine) : Except ParseError (List Token) × Lexer :=
  drain (line.text.length + 1) (lx.reset line)

/-- The lexer that knows no opcodes and takes `#` for the comment mark. -/
def basic : Lexer := ofRules (.ofNames "#" [] [])

end Lexer
end BrailleTable
