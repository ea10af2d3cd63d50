/-
What can go wrong while a table is read.

An error keeps its cause as data.  `Reason.message` holds all the wording, so that two errors of one
cause read alike, and a report (`BrailleTable.Report`) adds the position and the expected set.
-/
import BrailleTable.Span
import BrailleTable.Text.Quoted
import BrailleTable.Token.Kind

namespace BrailleTable

/-- How messages call the place after the last token of a line. -/
def endOfLine : Text := "end of line"

inductive Reason where
  /-- A message given as it stands. -/
  | stated (message : Text)
  /-- A backslash in a quoted string before anything but a quote or a backslash. -/
  | unknownEscape (c : CodePoint)
  | textAfterQuote
  | unterminatedQuote
  /-- A part of a token that is not what is wanted there. -/
  | wanted (what found : Text)
  /-- A token whose kind is not one of those wanted. -/
  | wrongToken (what : Text) (kind : TokenKind) (text : Text)
  | repeatedDot (dot : CodePoint) (cell : Text)
  | descendingRange (lo hi : CodePoint)
  | dotsAfterAt
  | danglingMarker (marker : Text)
  | unknownOpcode (name : Text)
  | repeatedModifier (text : Text)
  | clashingModifiers
  | missingOpcode
  | modifierRefused (opcode modifier : Text)
  | missingArgument (opcode : Text) (position : Nat) (label : Text)
  /-- An argument refused by its slot for a reason of its own. -/
  | wrongArgument (opcode : Text) (position : Nat) (label : Text) (cause : Reason)
  | outOfRange (opcode : Text) (position : Nat) (lower upper : Option Nat) (value : Int)
  | extraArgument (opcode text : Text)
  /-- The furthest token that an expression could not go past. -/
  | unexpected (opcode : Text) (expected : List Text) (found : Option Text) (context : Option Span)
  /-- An operand of an expression refused for a reason of its own. -/
  | badOperand (opcode : Text) (cause : Reason)
  | tooDeep (opcode : Text) (limit : Nat)
deriving DecidableEq

namespace Reason

/-- How a message shows what was found, if anything. -/
def displayFound : Option Text → Text
  | none => endOfLine
  | some t => t.display

def displayBound : Option Nat → Text
  | none => []
  | some n => Text.ofNat n

def message : Reason → Text
  | .stated m => m
  | .unknownEscape c => "Unknown escape '\\" ++ [c] ++ "' in quoted string"
  | .textAfterQuote => "Expected whitespace after closing quote"
  | .unterminatedQuote => "Unterminated quoted string"
  | .wanted what found => "Expected " ++ what ++ ", found " ++ found.display
  | .wrongToken what kind text =>
    "Expected " ++ what ++ ", found " ++ kind.label ++ " " ++ text.display
  | .repeatedDot dot cell =>
    "Duplicate dot " ++ Text.display [dot] ++ " in cell " ++ cell.display
  | .descendingRange lo hi =>
    "Descending range " ++ Text.display [lo] ++ "-" ++ Text.display [hi] ++ " in character class"
  | .dotsAfterAt => "Expected dots after '@'"
  | .danglingMarker marker =>
    "Dangling continuation marker " ++ marker.display ++ " at end of input"
  | .unknownOpcode name => "Unknown opcode " ++ name.display
  | .repeatedModifier text => "Duplicate prefix " ++ text.display
  | .clashingModifiers => "Prefixes 'noback' and 'nofor' cannot be combined"
  | .missingOpcode => "Expected opcode, found " ++ endOfLine
  | .modifierRefused opcode modifier =>
    "Opcode " ++ opcode.display ++ " does not accept prefix " ++ modifier.display
  | .missingArgument opcode position label =>
    opcode ++ ": missing argument " ++ Text.ofNat position ++ " (" ++ label ++ "), found " ++ endOfLine
  | .wrongArgument opcode position label cause =>
    opcode ++ ": argument " ++ Text.ofNat position ++ " must be " ++ label ++ ": " ++ cause.message
  | .outOfRange opcode position lower upper value =>
    opcode ++ ": argument " ++ Text.ofNat position ++ " out of range " ++ displayBound lower ++ ".." ++
      displayBound upper ++ ", found " ++ Text.ofInt value
  | .extraArgument opcode text => opcode ++ ": unexpected extra argument " ++ text.display
  | .unexpected opcode expected found context =>
    opcode ++ ": expected " ++ Text.join " or " expected ++ ", found " ++ displayFound found ++
      match context with
      | none => []
      | some span => " (inside '(' opened at " ++ span.display ++ ")"
  | .badOperand opcode cause => opcode ++ ": " ++ cause.message
  | .tooDeep opcode limit => opcode ++ ": parentheses nested deeper than " ++ Text.ofNat limit

end Reason

/-- The class of an error, with what that class alone records. -/
inductive Category where
  | general
  | lexical
  /-- One value could not be read from its token. -/
  | value
  | unknownOpcode (name : Text)
  /-- Position zero stands for the opcode and its modifiers. -/
  | argument (opcode : Text) (position : Int) (expectedKind : Text)
  /-- The context is the innermost parenthesis still open. -/
  | expression (context : Option Span)
  | continuation
deriving DecidableEq

namespace Category

def label : Category → Text
  | .general => "ParseError"
  | .lexical => "LexError"
  | .value => "ValueError"
  | .unknownOpcode _ => "UnknownOpcodeError"
  | .argument _ _ _ => "ArgumentError"
  | .expression _ => "SyntaxError"
  | .continuation => "ContinuationError"

end Category

structure ParseError where
  category : Category
  reason : Reason
  /-- The furthest place that was reached. -/
  span : Span
  /-- What could have stood there, in ascending order and each once. -/
  expected : List Text
  /-- What stood there; nothing at the end of a line. -/
  found : Option Text
deriving DecidableEq

namespace ParseError

/-- An error with the labels of `expected` put in order. -/
def of (category : Category) (reason : Reason) (span : Span) (expected : List Text)
    (found : Option Text) : ParseError :=
  { category, reason, span, expected := Text.sortedSet expected, found }

def message (e : ParseError) : Text := e.reason.message

def display (e : ParseError) : Text := e.message ++ " at " ++ e.span.display

def unknownOpcode (name : Text) (span : Span) (expected : List Text) : ParseError :=
  .of (.unknownOpcode name) (.unknownOpcode name) span expected (some name)

end ParseError

/-- Everything that ends the reading of a table.  Besides errors in the table, a number may be too long to
convert, and a default value or a token made by hand may not be a number at all.  A configuration may
give a number where a text is wanted, and the calls of the productions may be nested too deep. -/
inductive Failure where
  | parse (error : ParseError)
  | oversizedNumber (digits : Nat)
  | badInteger (text : Text)
  /-- A choice between no alternatives. -/
  | noAlternative
  /-- More than one line where one is wanted. -/
  | manyLines
  /-- A continuation marker that is a number. -/
  | numericMarker
  /-- A keyword that is a number. -/
  | numericKeyword
  /-- No room for the calls of another parenthesis. -/
  | callsExhausted
deriving DecidableEq

namespace Failure

/-- The class of a failure. -/
def label : Failure → Text
  | .parse e => e.category.label
  | .oversizedNumber _ | .badInteger _ | .manyLines => "ValueError"
  | .noAlternative | .numericMarker => "TypeError"
  | .numericKeyword => "AttributeError"
  | .callsExhausted => "RecursionError"

/-- Whether the failure is one of a value, as those of a file are that cannot be decoded. -/
def isValueError : Failure → Bool
  | .oversizedNumber _ | .badInteger _ | .manyLines => true
  | _ => false

/-- The message about a numeral with more digits than may be converted. -/
def oversizedMessage (digits : Nat) : Text :=
  "Exceeds the limit (" ++ Text.ofNat 4300 ++ " digits) for integer string conversion: value has " ++
    Text.ofNat digits ++ " digits; use sys.set_int_max_str_digits() to increase the limit"

/-- The message of a failure.  A text that is no integer is shown up to 200 code points. -/
def message : Failure → Text
  | .parse e => e.display
  | .oversizedNumber digits => oversizedMessage digits
  | .badInteger text =>
    "invalid literal for int() with base 10: " ++ text.display.take 200
  | .noAlternative => "exceptions must derive from BaseException"
  | .manyLines => "parse_line expects a single line; use parse_table for more"
  | .numericMarker => "endswith first arg must be str or a tuple of str, not int"
  | .numericKeyword => "'int' object has no attribute 'lower'"
  | .callsExhausted => "maximum recursion depth exceeded"

end Failure
end BrailleTable
