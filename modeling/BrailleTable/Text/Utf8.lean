/-
Decoding UTF-8.
-/
import BrailleTable.Text

namespace BrailleTable
namespace Utf8

inductive Problem where
  | startByte
  | continuationByte
  | truncated
deriving DecidableEq

/-- Why bytes are no text: the bytes from `start` up to `stop` begin no code point. -/
structure Fault where
  start : Nat
  stop : Nat
  first : UInt8
  problem : Problem
deriving DecidableEq

namespace Problem

def message : Problem → Text
  | .startByte => "invalid start byte"
  | .continuationByte => "invalid continuation byte"
  | .truncated => "unexpected end of data"

end Problem

namespace Fault

def message (f : Fault) : Text :=
  "'utf-8' codec can't decode " ++
    (if f.stop = f.start + 1 then
      "byte 0x" ++ Text.hex 2 f.first.toNat ++ " in position " ++ Text.ofNat f.start
    else
      "bytes in position " ++ Text.ofNat f.start ++ "-" ++ Text.ofNat (f.stop - 1)) ++
    ": " ++ f.problem.message

end Fault

/-- The bits that a first byte contributes, and the number of bytes that have to follow it. -/
def lead? (b : Nat) : Option (Nat × Nat) :=
  if b < 0x80 then some (b, 0)
  else if 0xc2 ≤ b ∧ b < 0xe0 then some (b - 0xc0, 1)
  else if 0xe0 ≤ b ∧ b < 0xf0 then some (b - 0xe0, 2)
  else if 0xf0 ≤ b ∧ b < 0xf5 then some (b - 0xf0, 3)
  else none

/-- The range of the second byte after a first byte.  It leaves out spellings that are too long,
surrogates and what lies beyond the last code point. -/
def secondRange (b : Nat) : Nat × Nat :=
  if b = 0xe0 then (0xa0, 0xbf)
  else if b = 0xed then (0x80, 0x9f)
  else if b = 0xf0 then (0x90, 0xbf)
  else if b = 0xf4 then (0x80, 0x8f)
  else (0x80, 0xbf)

/-- Reads `count` following bytes, the first of which has to lie in `range`.  The answer is the value
with their bits added, or how many of them were right and what is wrong with the next. -/
def follow (range : Nat × Nat) (value : Nat) : Nat → List UInt8 → Except (Nat × Problem) Nat
  | 0, _ => .ok value
  | _ + 1, [] => .error (0, .truncated)
  | count + 1, b :: rest =>
    if range.1 ≤ b.toNat ∧ b.toNat ≤ range.2 then
      (follow (0x80, 0xbf) (value * 64 + (b.toNat - 0x80)) count rest).mapError fun (n, p) => (n + 1, p)
    else .error (0, .continuationByte)

/-- Decodes bytes that follow `pos` others. -/
def decodeFrom (pos : Nat) (bytes : List UInt8) : Except Fault Text :=
  match bytes with
  | [] => .ok []
  | b :: rest =>
    match lead? b.toNat with
    | none => .error ⟨pos, pos + 1, b, .startByte⟩
    | some (value, count) =>
      match follow (secondRange b.toNat) value count rest with
      | .error (right, problem) => .error ⟨pos, pos + 1 + right, b, problem⟩
      | .ok n =>
        match CodePoint.ofNat? n with
        | none => .error ⟨pos, pos + 1, b, .startByte⟩
        | some c => (decodeFrom (pos + 1 + count) (rest.drop count)).map (c :: ·)
termination_by bytes.length
decreasing_by simp only [List.length_drop, List.length_cons]; omega

/-- Decodes bytes.  The first sequence that begins no code point is the fault. -/
def decode (bytes : List UInt8) : Except Fault Text := decodeFrom 0 bytes

end Utf8

namespace Text

/-- The text with every line ending written as a line feed. -/
def normalizeNewlines : Text → Text
  | [] => []
  | [c] => if c = '\r' then ['\n'] else [c]
  | c :: d :: rest =>
    if c ≠ '\r' then c :: normalizeNewlines (d :: rest)
    else if d = '\n' then ('\n' : CodePoint) :: normalizeNewlines rest
    else ('\n' : CodePoint) :: normalizeNewlines (d :: rest)

end Text
end BrailleTable
