/-
Reading expressions.

  body        := TEST disjunction ACTIONS step+
  disjunction := conjunction ("or" conjunction)*
  conjunction := sequence ("and" sequence)*
  sequence    := negation+
  negation    := "not"? atom
  atom        := comparison / class reference / literal / "(" disjunction ")"
  comparison  := operand OP operand
  operand     := "_"name / number / quoted string / "@"dots
  literal     := operand / word
  step        := name operand*

Alternatives are tried in order.  After a token that only one production accepts a failure is final, and
the error names the furthest token that no production could go past.  Chains of one connective and
sequences are flat in the result, and parentheses leave no trace in it but the shape of the tree.

The productions call one another, eight calls deep for each parenthesis inside another, and a runtime that
nests calls only so deep may give up before the bound of the dialect is reached.  `parse` leaves that
limit out, and so does what is said of it for every bound; `parseWithin` reads with room for the calls of
so many parentheses.
-/
import BrailleTable.Dialect
import BrailleTable.Expression
import BrailleTable.Expression.Outcome
import BrailleTable.Value.Reader

namespace BrailleTable
namespace Expression

/-- What a production finds: a part of an expression and the cursor after it. -/
abbrev Parsed := Expression Span × Cursor

variable (d : Dialect) (opcode : Text)

/-- How errors name the operands. -/
def operandLabels : List Text :=
  ["class reference", TokenKind.number.label, TokenKind.quoted.label, "'@'dots"]

/-- The words that are no literals: the two keywords and the connectives. -/
def isReserved (t : Text) : Bool :=
  t.lower ∈ d.testKeyword.lower :: d.actionKeyword.lower :: Connective.all.map Connective.label

def valueFailure (context : Option Span) : Failure → Failure
  | .parse e =>
    .parse (.of (.expression context) (.badOperand opcode e.reason) e.span e.expected e.found)
  | f => f

/-- The part of a token from its index `i` on, as a token of its own. -/
def subtoken (t : Token) (i : Nat) : Token :=
  let text := t.text.drop i
  { t with kind := .ofText text, text, value := text, span := t.subSpan i t.text.length,
           start := t.start + i }

/-- Reads the operand that a token is, if the way it starts makes it one. -/
def operandOf? (t : Token) : Option (Except Failure (Expression Span)) :=
  if t.kind = .word ∧ t.text.head? = some ('_' : CodePoint) then
    some (((Value.classNameOf t).map (.classRef · t.span)).mapError .parse)
  else if t.kind = .number then some ((Value.readNumber t).map (ofValue t.span))
  else if t.kind = .quoted then some (((Value.readString t).map (ofValue t.span)).mapError .parse)
  else if t.text.head? = some ('@' : CodePoint) then
    if t.text.length = 1 then
      some (.error (.parse (.of .value .dotsAfterAt (t.subSpan 1 1) [TokenKind.dots.label] (some t.text))))
    else some (((Value.readDots d.dotAlphabet (subtoken t 1)).map (ofValue t.span)).mapError .parse)
  else none

/-- Goes past one token that was read as a part of the expression. -/
def taken (context : Option Span) (cur : Cursor) (e : Except Failure (Expression Span)) :
    Outcome Parsed :=
  match e with
  | .ok e => .found (e, cur.next) []
  | .error f => .refused (valueFailure opcode context f)

def operand (context : Option Span) (cur : Cursor) : Outcome Parsed :=
  match cur.peek?.bind (operandOf? d) with
  | some e => taken opcode context cur e
  | none => .missed [⟨cur, operandLabels, context⟩]

def bareWord (context : Option Span) (cur : Cursor) : Outcome Parsed :=
  match cur.peek? with
  | none => .missed [⟨cur, [TokenKind.word.label], context⟩]
  | some t =>
    if t.kind ≠ .word ∨ isReserved d t.text then .missed [⟨cur, [TokenKind.word.label], context⟩]
    else taken opcode context cur (((Value.readCharacters t).map (ofValue t.span)).mapError .parse)

def literalAt (context : Option Span) (cur : Cursor) : Outcome Parsed :=
  (operand d opcode context cur).orElse fun _ => bareWord d opcode context cur

/-! ## The test -/

def comparisonAt? (cur : Cursor) : Option Comparison :=
  cur.peek?.bind fun t => if t.kind = .punctuation then Comparison.ofText? t.text else none

def comparison (context : Option Span) (cur : Cursor) : Outcome Parsed :=
  (operand d opcode context cur).bind fun (left, middle) =>
    match comparisonAt? middle with
    | none => .missed [⟨middle, ["comparison operator"], context⟩]
    | some op =>
      (operand d opcode context middle.next).commit.map fun (right, rest) =>
        (.compare op left right (left.span.merge right.span), rest)

/-- An atom, where `group` reads what starts with a parenthesis. -/
def atom (group : Cursor → Outcome Parsed) (context : Option Span) (cur : Cursor) : Outcome Parsed :=
  if cur.isPunctuation "(" then group cur
  else
    (comparison d opcode context cur).orElse fun _ =>
      if cur.peek?.any fun t => t.kind = .word && t.text.head? = some ('_' : CodePoint) then
        operand d opcode context cur
      else (literalAt d opcode context cur).orMiss ⟨cur, ["'('"], context⟩

def negation (group : Cursor → Outcome Parsed) (context : Option Span) (cur : Cursor) : Outcome Parsed :=
  if cur.isWord Connective.neg.label then
    (atom d opcode group context cur.next).commit.map fun (e, rest) =>
      (.combine .neg [e] (cur.span.merge e.span), rest)
  else (atom d opcode group context cur).orMiss ⟨cur, ["'not'"], context⟩

/-- The tests that a test contributes to a sequence it stands in. -/
def sequenceItems : Expression Span → List (Expression Span)
  | .sequence items _ => items
  | e => [e]

/-- The tests that a test contributes to a chain of one connective. -/
def chainOperands (op : Connective) : Expression Span → List (Expression Span)
  | .combine op' operands s => if op' = op then operands else [.combine op' operands s]
  | e => [e]

/-- The range from the first of some expressions to the last. -/
def cover (first : Expression Span) (rest : List (Expression Span)) : Span :=
  first.span.merge ((rest.getLast?.getD first).span)

/-- A sequence of tests; one test alone stands for itself. -/
def ofItems (items : List (Expression Span)) : Expression Span :=
  match items with
  | [e] => e
  | e :: rest => .sequence items (cover e rest)
  | [] => .sequence [] (.point ⟨0, 0, 0⟩)

/-- A chain of tests; one test alone stands for itself. -/
def ofOperands (op : Connective) (operands : List (Expression Span)) : Expression Span :=
  match operands with
  | [e] => e
  | e :: rest => .combine op operands (cover e rest)
  | [] => .combine op [] (.point ⟨0, 0, 0⟩)

/-- Repeats `item` until it no longer applies or the line ends, `limit` times at most. -/
def many (item : Cursor → Outcome Parsed) :
    Nat → Cursor → Outcome (List (Expression Span) × Cursor)
  | 0, cur => .found ([], cur) []
  | limit + 1, cur =>
    if cur.atEnd then .found ([], cur) []
    else
      ((item cur).bind fun (e, rest) =>
        (many item limit rest).map fun (es, rest') => (e :: es, rest')).orElse fun _ =>
          .found ([], cur) []

def sequenceAt (group : Cursor → Outcome Parsed) (context : Option Span) (cur : Cursor) :
    Outcome Parsed :=
  (negation d opcode group context cur).bind fun (first, rest) =>
    (many (negation d opcode group context) rest.rest.length rest).map fun (more, rest') =>
      (ofItems ((first :: more).flatMap sequenceItems), rest')

/-- Reads the rest of a chain: a connective and one more link, `limit` times at most. -/
def links (op : Connective) (context : Option Span) (link : Cursor → Outcome Parsed) :
    Nat → Cursor → Outcome (List (Expression Span) × Cursor)
  | 0, cur => .found ([], cur) [⟨cur, ["'" ++ op.label ++ "'"], context⟩]
  | limit + 1, cur =>
    if cur.isWord op.label then
      (link cur.next).commit.bind fun (e, rest) =>
        (links op context link limit rest).map fun (es, rest') => (e :: es, rest')
    else .found ([], cur) [⟨cur, ["'" ++ op.label ++ "'"], context⟩]

/-- Links joined by one connective. -/
def chain (op : Connective) (context : Option Span) (link : Cursor → Outcome Parsed) (cur : Cursor) :
    Outcome Parsed :=
  (link cur).bind fun (first, rest) =>
    (links op context link rest.rest.length rest).map fun (more, rest') =>
      (ofOperands op ((first :: more).flatMap (chainOperands op)), rest')

/-- A disjunction of conjunctions of sequences. -/
def disjunction (group : Cursor → Outcome Parsed) (context : Option Span) (cur : Cursor) :
    Outcome Parsed :=
  chain .disj context (chain .conj context (sequenceAt d opcode group context)) cur

/-- A test in parentheses, where `inner` reads the test given the range of the parenthesis. -/
def group (inner : Option Span → Cursor → Outcome Parsed) (cur : Cursor) : Outcome Parsed :=
  let opened := some cur.span
  (inner opened cur.next).commit.bind fun (e, rest) =>
    if rest.isPunctuation ")" then .found (e, rest.next) []
    else .stuck [⟨rest, ["')'", "'and'", "'or'"], opened⟩]

/-- Refuses a parenthesis because too many are open. -/
def refuseGroup (context : Option Span) (cur : Cursor) : Outcome Parsed :=
  .refused (.parse (.of (.expression context) (.tooDeep opcode d.maxDepth) cur.span
    (operandLabels ++ [TokenKind.word.label]) cur.found))

/-- Reads a test in which `depth` more parentheses may be opened one inside the other, where `last` is
what becomes of one too many. -/
def testWith (last : Option Span → Cursor → Outcome Parsed) : Nat → Option Span → Cursor → Outcome Parsed
  | 0, context, cur => disjunction d opcode (last context) context cur
  | depth + 1, context, cur => disjunction d opcode (group (testWith last depth)) context cur

/-- Reads a test, where one parenthesis too many is refused. -/
def test : Nat → Option Span → Cursor → Outcome Parsed := testWith d opcode (refuseGroup d opcode)

/-! ## The actions -/

def stepAt (context : Option Span) (cur : Cursor) : Outcome Parsed :=
  match cur.peek? with
  | none => .missed [⟨cur, ["action name"], context⟩]
  | some t =>
    if t.kind ≠ .word ∨ t.text.head? = some ('_' : CodePoint) then
      .missed [⟨cur, ["action name"], context⟩]
    else match Value.nameOf t with
      | .error e => .refused (valueFailure opcode context (.parse e))
      | .ok name =>
        (many (operand d opcode context) cur.next.rest.length cur.next).map fun (operands, rest) =>
          (.step name operands (t.span.merge ((operands.getLast?.map Expression.span).getD t.span)), rest)

/-! ## The whole -/

/-- Reads a keyword; nothing else may stand in its place. -/
def keyword (context : Option Span) (word : Text) (cur : Cursor) : Outcome Cursor :=
  if cur.isWord word then .found cur.next [] else .stuck [⟨cur, ["'" ++ word ++ "'"], context⟩]

/-- Reads the steps up to the end of the line. -/
def steps (context : Option Span) (cur : Cursor) : Outcome (List (Expression Span)) :=
  (stepAt d opcode context cur).commit.bind fun (first, rest) =>
    (many (stepAt d opcode context) rest.rest.length rest).bind fun (more, rest') =>
      if rest'.atEnd then .found (first :: more) []
      else .stuck [⟨rest', "action name" :: operandLabels, context⟩]

/-- Reads a whole expression up to the end of the line, where `readTest` reads its test. -/
def bodyWith (readTest : Cursor → Outcome Parsed) (context : Option Span) (cur : Cursor) :
    Outcome (Expression Span) :=
  (keyword context d.testKeyword.lower cur).bind fun afterTest =>
    (readTest afterTest).commit.bind fun (e, rest) =>
      (keyword context d.actionKeyword.lower rest).bind fun afterActions =>
        (steps d opcode context afterActions).map fun actions =>
          .body e actions (cur.span.merge ((actions.getLast?.getD e).span))

/-- Reads a whole expression with no parenthesis open. -/
def bodyAt (cur : Cursor) : Outcome (Expression Span) :=
  bodyWith d opcode (test d opcode d.maxDepth none) none cur

/-- The error of an expression that was not read to its end. -/
def unexpected (cur : Cursor) (misses : List Miss) : ParseError :=
  let furthest := Furthest.ofMisses misses
  let stop := furthest.cursor.getD cur
  .of (.expression furthest.context)
    (.unexpected opcode furthest.expected stop.found furthest.context) stop.span furthest.expected
    stop.found

/-- What the outcome of a whole expression says. -/
def conclude (cur : Cursor) : Outcome (Expression Span) → Except Failure (Expression Span)
  | .found e _ => .ok e
  | .missed misses | .stuck misses => .error (.parse (unexpected opcode cur misses))
  | .refused f => .error f

/-- Reads the expression from the cursor to the end of the line. -/
def parse (cur : Cursor) : Except Failure (Expression Span) := conclude opcode cur (bodyAt d opcode cur)

/-- A way to read the expression of an opcode, from a cursor to the end of the line. -/
abbrev Reader := Text → Cursor → Except Failure (Expression Span)

/-! ## Room for calls -/

/-- Gives up at a parenthesis, since there is no room for the calls that would read the test in it. -/
def exhaustGroup (_ : Option Span) (_ : Cursor) : Outcome Parsed := .refused .callsExhausted

/-- Reads a test where there is room for the calls of `room` parentheses one inside the other. -/
def testWithin (room : Nat) : Option Span → Cursor → Outcome Parsed :=
  if d.maxDepth ≤ room then test d opcode d.maxDepth else testWith d opcode exhaustGroup room

/-- Reads a whole expression where there is room for the calls of `room` parentheses. -/
def bodyWithin (room : Nat) (cur : Cursor) : Outcome (Expression Span) :=
  bodyWith d opcode (testWithin d opcode room none) none cur

/-- Reads the expression from the cursor to the end of the line, with room for the calls of `room`
parentheses. -/
def parseWithin (room : Nat) (cur : Cursor) : Except Failure (Expression Span) :=
  conclude opcode cur (bodyWithin d opcode room cur)

end Expression
end BrailleTable
