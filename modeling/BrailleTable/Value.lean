/-
Values: the arguments of rules and the literals of expressions.
-/
import BrailleTable.Span
import BrailleTable.Token.Kind

namespace BrailleTable

/-- A value with its annotation, which is the range of the source it was read from, or nothing at all
where only the value counts (`Value.bare`). -/
inductive Value (σ : Type) where
  /-- A character.  A default may be any text, so this is not always one code point. -/
  | character (text : Text) (span : σ)
  /-- A set of characters, by closed ranges.  The ends that are read are single code points. -/
  | charClass (ranges : List (Text × Text)) (span : σ)
  /-- Braille cells, each the list of its dots in the order they were written.  The dots that are read
  are digits; a pattern made by hand may have any integers. -/
  | dots (cells : List (List Int)) (span : σ)
  | number (value : Int) (span : σ)
  | name (text : Text) (span : σ)
  | string (text : Text) (span : σ)
deriving DecidableEq

namespace Value

variable {σ τ : Type}

def span : Value σ → σ
  | .character _ s | .charClass _ s | .dots _ s | .number _ s | .name _ s | .string _ s => s

def map (f : σ → τ) : Value σ → Value τ
  | .character t s => .character t (f s)
  | .charClass rs s => .charClass rs (f s)
  | .dots cells s => .dots cells (f s)
  | .number n s => .number n (f s)
  | .name t s => .name t (f s)
  | .string t s => .string t (f s)

/-- The value without its annotation.  Two values are equal when their bare values are. -/
def bare (v : Value σ) : Value Unit := v.map fun _ => ()

/-- Whether a text lies in one of the ranges of a class.  Texts are compared code point by code point,
so a longer text lies in a range when it does so at its first difference. -/
def classContains (ranges : List (Text × Text)) (t : Text) : Bool :=
  ranges.any fun (lo, hi) => lo ≤ t && t ≤ hi

/-- The bit pattern of a cell: bit `n - 1` for dot `n`, and no bit for dot zero.  A cell with a dot below
zero has none. -/
def cellMask? (cell : List Int) : Option Nat :=
  if cell.any (· < 0) then none
  else some ((cell.map Int.toNat).foldl
    (fun mask dot => if dot = 0 then mask else mask ||| 1 <<< (dot - 1)) 0)

/-- A dot pattern as it is written: one hexadecimal digit for each dot and a dash between cells. -/
def writeDots (cells : List (List Int)) : Text :=
  Text.join "-" (cells.map (·.flatMap Text.hexInteger))

end Value

/-- The kinds of value that an argument slot can ask for. -/
inductive SlotKind where
  | dots
  | character
  | characters
  | charClass
  | number
  | name
  | filename
  | string
deriving DecidableEq

namespace SlotKind

def label : SlotKind → Text
  | .dots => "dots"
  | .character => "character"
  | .characters => "characters"
  | .charClass => "class"
  | .number => "number"
  | .name => "name"
  | .filename => "filename"
  | .string => "string"

def all : List SlotKind :=
  [.dots, .character, .characters, .charClass, .number, .name, .filename, .string]

def ofLabel? (t : Text) : Option SlotKind := all.find? (·.label = t)

/-- The kinds of token that errors name where a slot of this kind is unfilled. -/
def accepts : SlotKind → List TokenKind
  | .dots => [.dots, .number]
  | .character | .characters | .filename => TokenKind.all
  | .charClass => [.word, .punctuation]
  | .number => [.number]
  | .name => [.word]
  | .string => [.quoted]

/-- The kinds of token that a choice of slot kinds accepts, in order of first mention. -/
def acceptedTokens (kinds : List SlotKind) : List TokenKind :=
  (kinds.flatMap accepts).foldl (fun seen k => if k ∈ seen then seen else seen ++ [k]) []

end SlotKind
end BrailleTable
