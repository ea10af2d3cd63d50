/-
Reading a value from a token.

Each kind of slot reads one token on its own.  An error points at the furthest code point that was
understood, and `SlotKind.choose` keeps, of several kinds, the one that came furthest.
-/
import BrailleTable.Text.Decimal
import BrailleTable.Text.Letter
import BrailleTable.Text.Numeral
import BrailleTable.Value
import BrailleTable.Value.Escape

namespace BrailleTable
namespace Value

open Escape (Decoded refuse)

def labels (kinds : List TokenKind) : List Text := kinds.map TokenKind.label

/-- Refuses a token whose kind is not among `kinds`; the error names the kinds of `report`. -/
def requireKind (t : Token) (kinds report : List TokenKind) (what : Text) : Except ParseError Unit :=
  if t.kind ∈ kinds then .ok ()
  else .error (.of .value (.wrongToken what t.kind t.text) t.span (labels report) (some t.text))

/-! ## Dots -/

def dotLabels : List Text := labels [.dots, .number]

/-- Reads cells from the part `s` of a token that starts at index `i`, where the current cell started
at `cellStart` and has the dots of `cell` so far. -/
def readCells (alphabet : Text) (t : Token) (i cellStart : Nat) (cell : List Int) :
    Text → Except ParseError (List (List Int))
  | [] =>
    if cell = [] then .error (refuse t t.text.length t.text.length "dot number" dotLabels)
    else .ok [cell]
  | c :: rest =>
    if c = '-' then
      if cell = [] then .error (refuse t i (i + 1) "dot number" dotLabels)
      else (readCells alphabet t (i + 1) (i + 1) [] rest).map (cell :: ·)
    else if c ∉ alphabet then .error (refuse t i (i + 1) "dot number" dotLabels)
    else
      let dot : Int := c.hexValue?.getD 0
      if dot ∈ cell then
        .error (.of .value (.repeatedDot c (t.text.slice cellStart (i + 1))) (t.subSpan i (i + 1))
          (labels [.dots]) (some t.text))
      else readCells alphabet t (i + 1) cellStart (cell ++ [dot]) rest

/-- Reads braille cells whose dots are digits of `alphabet`, none of them twice in one cell. -/
def readDots (alphabet : Text) (t : Token) : Except ParseError (Value Span) := do
  requireKind t [.dots, .number, .word] [.dots, .number] "dots"
  return .dots (← readCells alphabet t 0 0 [] t.text) t.span

/-! ## Characters -/

def readCharacters (t : Token) : Except ParseError (Value Span) := do
  match ← Escape.decode t [] with
  | [] => .error (refuse t 0 0 "at least one character" (labels TokenKind.all))
  | cs => return .string (cs.map Decoded.char) t.span

def readCharacter (t : Token) : Except ParseError (Value Span) := do
  match ← Escape.decode t [] with
  | [] => .error (refuse t 0 0 "a single character" (labels TokenKind.all))
  | [c] => return .character [c.char] t.span
  | _ :: d :: _ =>
    .error (.of .value (.wanted "a single character" t.text) (t.subSpan d.start t.text.length)
      ["character"] (some t.text))

/-! ## Character classes -/

def classLabels : List Text := labels [.word, .punctuation]

/-- Reads the items of a class from its decoded body.  A dash that is not escaped makes a range when it
stands between two elements, and a bracket has to be escaped where an item starts. -/
def readItems (whole body : Token) :
    List Decoded → Except ParseError (List (Text × Text))
  | [] => .ok []
  | [a] => do guardBracket a; return [([a.char], [a.char])]
  | [a, b] => do
    guardBracket a
    return ([a.char], [a.char]) :: (← readItems whole body [b])
  | a :: dash :: b :: rest => do
    guardBracket a
    if raw dash = "-" then
      if b.char < a.char then
        .error (.of .value (.descendingRange a.char b.char) (body.subSpan a.start b.stop)
          ["character class"] (some whole.text))
      else return ([a.char], [b.char]) :: (← readItems whole body rest)
    else return ([a.char], [a.char]) :: (← readItems whole body (dash :: b :: rest))
where
  /-- How an element of the body is written. -/
  raw (d : Decoded) : Text := body.text.slice d.start d.stop
  guardBracket (d : Decoded) : Except ParseError Unit :=
    if raw d = "]" ∨ raw d = "[" then
      .error (refuse body d.start d.stop ("escaped " ++ (raw d).display ++ " inside class") classLabels)
    else .ok ()

def readClass (t : Token) : Except ParseError (Value Span) := do
  requireKind t [.word, .punctuation] [.word, .punctuation] "character class"
  match t.text with
  | [] => .error (refuse t 0 1 "'['" classLabels)
  | c :: inner =>
    if c ≠ '[' then .error (refuse t 0 1 "'['" classLabels)
    else
      let body : Token := { t with text := inner, value := inner, start := t.start + 1 }
      let elements ← Escape.decode body "]-["
      match elements.getLast? with
      | none => .error (refuse t t.text.length t.text.length "']'" classLabels)
      | some last =>
        if body.text.slice last.start last.stop ≠ "]" then
          .error (refuse t t.text.length t.text.length "']'" classLabels)
        else match elements.dropLast with
          | [] => .error (refuse t 1 2 "at least one class item" classLabels)
          | items => return .charClass (← readItems t body items) t.span

/-! ## Numbers and names -/

def readNumber (t : Token) : Except Failure (Value Span) :=
  match requireKind t [.number] [.number] "number" with
  | .error e => .error (.parse e)
  | .ok () =>
    match Text.readInteger t.text with
    | .ok n => .ok (.number n t.span)
    | .error (.oversized digits) => .error (.oversizedNumber digits)
    | .error .malformed => .error (.badInteger t.text)

/-- Whether a code point may stand in a name after its first letter. -/
def isNameChar (c : CodePoint) : Bool := c.isLetter || c.isNumeral || c = '_'

/-- Checks that the part of a token from index `i` on is a name: a letter, then letters, numerals and
underscores. -/
def checkName (t : Token) (i : Nat) (name nameChar : Text) : Except ParseError Unit :=
  match t.text.drop i with
  | [] => .error (refuse t i (i + 1) name (labels [.word]))
  | c :: rest =>
    if !c.isLetter then .error (refuse t i (i + 1) name (labels [.word]))
    else
      let stop := i + 1 + (rest.takeWhile isNameChar).length
      if stop = t.text.length then .ok ()
      else .error (refuse t stop (stop + 1) nameChar (labels [.word]))

def nameOf (t : Token) : Except ParseError Text := do
  requireKind t [.word] [.word] "name"
  checkName t 0 "name" "name character"
  return t.text

def readName (t : Token) : Except ParseError (Value Span) := (nameOf t).map (.name · t.span)

/-- The name of the class of characters that a token refers to: an underscore stands before it. -/
def classNameOf (t : Token) : Except ParseError Text := do
  requireKind t [.word] [.word] "class reference"
  if t.text.head? ≠ some ('_' : CodePoint) then
    .error (refuse t 0 1 "'_' before class name" (labels [.word]))
  else
    checkName t 1 "class name" "class name character"
    return t.text.drop 1

/-- Reads a reference to a class of characters as the name of the class. -/
def readClassReference (t : Token) : Except ParseError (Value Span) :=
  (classNameOf t).map (.name · t.span)

/-- Reads a file name, which is taken as it stands. -/
def readFilename (t : Token) : Except ParseError (Value Span) := do
  requireKind t TokenKind.all TokenKind.all "filename"
  return .string t.value t.span

/-- Reads a quoted string, which may be empty. -/
def readString (t : Token) : Except ParseError (Value Span) := do
  requireKind t [.quoted] [.quoted] "quoted string"
  return .string t.value t.span

end Value

namespace SlotKind

/-- Reads the value that a slot of this kind takes from a token. -/
def read (alphabet : Text) (kind : SlotKind) (t : Token) : Except Failure (Value Span) :=
  match kind with
  | .dots => (Value.readDots alphabet t).mapError .parse
  | .character => (Value.readCharacter t).mapError .parse
  | .characters => (Value.readCharacters t).mapError .parse
  | .charClass => (Value.readClass t).mapError .parse
  | .number => Value.readNumber t
  | .name => (Value.readName t).mapError .parse
  | .filename => (Value.readFilename t).mapError .parse
  | .string => (Value.readString t).mapError .parse

/-- Of two refusals the one that came further.  Two that came equally far expect what either does. -/
def further (best : Option ParseError) (e : ParseError) : ParseError :=
  match best with
  | none => e
  | some b =>
    if b.span.start < e.span.start then e
    else if e.span.start = b.span.start then
      { b with expected := Text.sortedSet (b.expected ++ e.expected) }
    else b

/-- Tries the kinds in turn, where `best` is the furthest refusal so far. -/
def chooseAfter (alphabet : Text) (t : Token) (best : Option ParseError) :
    List SlotKind → Except Failure (Value Span)
  | [] =>
    match best with
    | none => .error .noAlternative
    | some e => .error (.parse e)
  | kind :: rest =>
    match kind.read alphabet t with
    | .ok v => .ok v
    | .error (.parse e) => chooseAfter alphabet t (some (further best e)) rest
    | .error f => .error f

/-- Reads a token as the first of the kinds that takes it. -/
def choose (alphabet : Text) (kinds : List SlotKind) (t : Token) : Except Failure (Value Span) :=
  chooseAfter alphabet t none kinds

end SlotKind
end BrailleTable
