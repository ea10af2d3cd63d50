/-
Code points and the texts made of them.

A table can name any code point by its number, lone surrogates included, so a text is a list of code
points.  The operations below are the ones every later module counts, cuts and orders texts with.
-/

namespace BrailleTable

/-- A Unicode code point.  Surrogates count, because an escape in a table may name one. -/
structure CodePoint where
  val : Nat
  isLt : val < 0x110000
deriving DecidableEq

namespace CodePoint

theorem toNat_lt (c : Char) : c.toNat < 0x110000 := by
  have h : c.toNat.isValidChar := c.valid
  unfold Nat.isValidChar at h
  omega

def ofChar (c : Char) : CodePoint := ⟨c.toNat, toNat_lt c⟩

instance : Coe Char CodePoint := ⟨ofChar⟩

def ofNat? (n : Nat) : Option CodePoint :=
  if h : n < 0x110000 then some ⟨n, h⟩ else none

/-- Code points are ordered by their numbers. -/
instance : LT CodePoint := ⟨fun a b => a.val < b.val⟩

instance : LE CodePoint := ⟨fun a b => a.val ≤ b.val⟩

instance : DecidableLT CodePoint := fun a b => inferInstanceAs (Decidable (a.val < b.val))

instance : DecidableLE CodePoint := fun a b => inferInstanceAs (Decidable (a.val ≤ b.val))

@[simp] theorem lt_def {a b : CodePoint} : a < b ↔ a.val < b.val := Iff.rfl

@[simp] theorem le_def {a b : CodePoint} : a ≤ b ↔ a.val ≤ b.val := Iff.rfl

theorem ext_val {a b : CodePoint} (h : a.val = b.val) : a = b := by
  cases a; cases b; simp_all

def isSurrogate (c : CodePoint) : Bool := 0xd800 ≤ c.val && c.val < 0xe000

/-- The character of a code point; a surrogate has none. -/
def toChar? (c : CodePoint) : Option Char :=
  if c.isSurrogate then none else some (Char.ofNat c.val)

def isDigit (c : CodePoint) : Bool := 48 ≤ c.val && c.val ≤ 57

/-- The value of a hexadecimal digit of either case. -/
def hexValue? (c : CodePoint) : Option Nat :=
  if 48 ≤ c.val ∧ c.val ≤ 57 then some (c.val - 48)
  else if 97 ≤ c.val ∧ c.val ≤ 102 then some (c.val - 87)
  else if 65 ≤ c.val ∧ c.val ≤ 70 then some (c.val - 55)
  else none

/-- The hexadecimal digit, in lower case, of the last four bits of a number. -/
def hexDigit (n : Nat) : CodePoint :=
  if n % 16 < 10 then ⟨48 + n % 16, by omega⟩ else ⟨87 + n % 16, by omega⟩

end CodePoint

/-- A text is ordered by its first differing code point, so core's order on lists applies. -/
abbrev Text := List CodePoint

namespace Text

instance : LawfulBEq Text := inferInstance

def ofString (s : String) : Text := s.toList.map CodePoint.ofChar

instance : Coe String Text := ⟨ofString⟩

/-- The part of a text from index `i` up to index `j`. -/
def slice (t : Text) (i j : Nat) : Text := (t.take j).drop i

/-- Puts `separator` between consecutive texts. -/
def join (separator : Text) : List Text → Text
  | [] => []
  | [t] => t
  | t :: rest => t ++ separator ++ join separator rest

/-- Cuts a text at every occurrence of `mark`.  There is always one part more than there are marks. -/
def splitAt (mark : CodePoint) : Text → List Text
  | [] => [[]]
  | c :: rest =>
    if c = mark then [] :: splitAt mark rest
    else match splitAt mark rest with
      | [] => [[c]]
      | part :: parts => (c :: part) :: parts

/-- Drops the longest run of code points satisfying `drop` from the end. -/
def trimEnd (drop : CodePoint → Bool) : Text → Text
  | [] => []
  | c :: rest =>
    match trimEnd drop rest with
    | [] => if drop c then [] else [c]
    | kept => c :: kept

/-- Adds a text to an ascending list unless it is there already. -/
def insertSorted (t : Text) : List Text → List Text
  | [] => [t]
  | u :: rest =>
    if t = u then u :: rest
    else if t < u then t :: u :: rest
    else u :: insertSorted t rest

/-- The ascending list of the different texts of a list. -/
def sortedSet (ts : List Text) : List Text := ts.foldr insertSorted []

/-- The text padded with spaces on the right to at least `width` code points. -/
def padRight (width : Nat) (t : Text) : Text := t ++ List.replicate (width - t.length) (' ' : CodePoint)

/-- The last `width` hexadecimal digits of a number, zeros included. -/
def hex : Nat → Nat → Text
  | 0, _ => []
  | width + 1, n => hex width (n / 16) ++ [CodePoint.hexDigit n]

def ofNat (n : Nat) : Text :=
  if n < 10 then [CodePoint.hexDigit n] else ofNat (n / 10) ++ [CodePoint.hexDigit (n % 10)]

/-- The decimal numeral of an integer, with a minus sign below zero. -/
def ofInt : Int → Text
  | .ofNat n => ofNat n
  | .negSucc n => ('-' : CodePoint) :: ofNat (n + 1)

/-- The hexadecimal numeral of a natural number, without leading zeros. -/
def hexNumeral (n : Nat) : Text :=
  if n < 16 then [CodePoint.hexDigit n] else hexNumeral (n / 16) ++ [CodePoint.hexDigit n]

/-- The hexadecimal numeral of an integer, with a minus sign below zero. -/
def hexInteger : Int → Text
  | .ofNat n => hexNumeral n
  | .negSucc n => ('-' : CodePoint) :: hexNumeral (n + 1)

end Text
end BrailleTable
