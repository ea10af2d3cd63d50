/-
The escapes with which unquoted arguments name code points.
-/
import BrailleTable.Token

namespace BrailleTable
namespace Escape

/-- The letters that stand, after a backslash, for one code point each. -/
def simple : List (CodePoint × CodePoint) :=
  [('\\', '\\'), ('s', ' '), ('t', '\t'), ('n', '\n'), ('r', '\r'), ('f', '\x0c'), ('v', '\x0b'),
   ('e', '\x1b')]

/-- The code point that a letter stands for after a backslash. -/
def ofCode? (code : CodePoint) : Option CodePoint := (simple.find? (·.1 = code)).map (·.2)

/-- The letter that stands for a code point after a backslash. -/
def codeOf? (c : CodePoint) : Option CodePoint := (simple.find? (·.2 = c)).map (·.1)

/-- The number of hexadecimal digits that follow a letter after a backslash. -/
def hexWidth? (code : CodePoint) : Option Nat :=
  if code = 'x' then some 4 else if code = 'y' then some 5 else if code = 'z' then some 8 else none

/-- The number written by exactly `width` hexadecimal digits of either case. -/
def hexNumber? (width : Nat) (digits : Text) : Option Nat :=
  if digits.length = width ∧ digits.all (·.hexValue?.isSome) then
    some ((digits.filterMap CodePoint.hexValue?).foldl (fun n d => 16 * n + d) 0)
  else none

/-- The shortest escape that names a code point by number. -/
def byNumber (c : CodePoint) : Text :=
  if c.val ≤ 0xffff then "\\x" ++ Text.hex 4 c.val
  else if c.val ≤ 0xfffff then "\\y" ++ Text.hex 5 c.val
  else "\\z" ++ Text.hex 8 c.val

/-- A code point of an argument and the indices of the token it was written at. -/
structure Decoded where
  char : CodePoint
  start : Nat
  stop : Nat
deriving DecidableEq

/-- The error of a token whose part from index `i` up to `j` is not what is wanted there.  The labels
default to what is wanted. -/
def refuse (t : Token) (i j : Nat) (what : Text) (labels : List Text) : ParseError :=
  .of .value (.wanted what (if i < j then t.text.slice i j else t.text))
    (if t.text = [] then t.span else t.subSpan i j) (if labels = [] then [what] else labels) (some t.text)

/-- Decodes the part `s` of a token that starts at its index `i`.  A backslash may also escape the code
points of `extra`, which then stand for themselves. -/
def decodeFrom (t : Token) (extra : Text) (i : Nat) (s : Text) : Except ParseError (List Decoded) :=
  match s with
  | [] => .ok []
  | [c] =>
    if c = '\\' then .error (refuse t i (i + 1) "escape sequence" []) else .ok [⟨c, i, i + 1⟩]
  | c :: code :: rest =>
    if c ≠ '\\' then (decodeFrom t extra (i + 1) (code :: rest)).map (⟨c, i, i + 1⟩ :: ·)
    else match ofCode? code with
      | some d => (decodeFrom t extra (i + 2) rest).map (⟨d, i, i + 2⟩ :: ·)
      | none =>
        if code ∈ extra then (decodeFrom t extra (i + 2) rest).map (⟨code, i, i + 2⟩ :: ·)
        else match hexWidth? code with
          | none => .error (refuse t i (i + 2) "escape sequence" [])
          | some width =>
            match hexNumber? width (rest.take width) with
            | none =>
              .error (refuse t i (i + 2 + width)
                (Text.ofNat width ++ " hex digits after '\\" ++ [code] ++ "'") [])
            | some n =>
              match CodePoint.ofNat? n with
              | none => .error (refuse t i (i + 2 + width) "code point up to 10FFFF" [])
              | some d =>
                (decodeFrom t extra (i + 2 + width) (rest.drop width)).map (⟨d, i, i + 2 + width⟩ :: ·)
termination_by s.length
decreasing_by all_goals simp only [List.length_cons, List.length_drop]; omega

/-- The code points a token stands for.  A quoted string was decoded by the lexer, and each of its code
points is placed at the whole token. -/
def decode (t : Token) (extra : Text) : Except ParseError (List Decoded) :=
  if t.kind = .quoted then .ok (t.value.map fun c => ⟨c, 0, t.text.length⟩)
  else decodeFrom t extra 0 t.text

end Escape
end BrailleTable
