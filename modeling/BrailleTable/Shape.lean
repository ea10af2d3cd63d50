/-
Shapes: what arguments an opcode takes.

A shape is written as slots between blanks.  A slot is one or more kinds between bars, the first that
fits being taken; a question mark after the kinds makes it optional, a plus sign lets it repeat, and a
range in brackets bounds its numbers.  The word `multipart` alone stands for a test/actions expression.
-/
import BrailleTable.Text.Decimal
import BrailleTable.Text.Lowercase
import BrailleTable.Text.Quoted
import BrailleTable.Value

namespace BrailleTable

structure Slot where
  /-- The kinds of value the slot takes, tried in this order. -/
  kinds : List SlotKind
  isOptional : Bool
  repeats : Bool
  /-- What an optional slot stands for where it is left out. -/
  fallback : Option Text
  /-- The bounds of a number, both included. -/
  lower : Option Nat
  upper : Option Nat
deriving DecidableEq

namespace Slot

def label (s : Slot) : Text := Text.join "|" (s.kinds.map SlotKind.label)

/-- The number of slots that have to be filled. -/
def required (slots : List Slot) : Nat := slots.countP (!·.isOptional)

end Slot

structure Shape where
  name : Text
  slots : List Slot
  /-- Whether the arguments are a test/actions expression. -/
  isMultipart : Bool
  /-- Whether modifiers may stand before the opcode. -/
  takesModifiers : Bool
deriving DecidableEq

namespace Shape

def required (s : Shape) : Nat := Slot.required s.slots

inductive Fault where
  | badSlot (opcode slot : Text)
  | unknownKind (opcode kind : Text)
  | repeatNotLast (opcode : Text)
  | oversizedBound (digits : Nat)

structure SlotText where
  kinds : List Text
  modifier : Option CodePoint
  bounds : Option (Text × Text)

/-- Takes the bounds of a slot apart: digits, two dots and digits, between brackets. -/
def splitBounds (t : Text) : Option (Text × Text) :=
  match t with
  | c :: rest =>
    let lower := rest.takeWhile CodePoint.isDigit
    match rest.dropWhile CodePoint.isDigit with
    | d :: e :: rest' =>
      let upper := rest'.takeWhile CodePoint.isDigit
      if c = '[' ∧ d = '.' ∧ e = '.' ∧ rest'.dropWhile CodePoint.isDigit = Text.ofString "]" ∧
          lower ≠ [] ∧ upper ≠ [] then
        some (lower, upper)
      else none
    | _ => none
  | [] => none

def isKindChar (c : CodePoint) : Bool := (97 ≤ c.val && c.val ≤ 122) || c = '|'

def splitSlot (t : Text) : Option SlotText :=
  let kinds := Text.splitAt '|' (t.takeWhile isKindChar)
  let rest := t.dropWhile isKindChar
  let (modifier, rest) :=
    match rest with
    | c :: rest' => if c = '?' ∨ c = '+' then (some c, rest') else (none, rest)
    | [] => (none, rest)
  if kinds.any (· = []) then none
  else if rest = [] then some ⟨kinds, modifier, none⟩
  else (splitBounds rest).map fun bounds => ⟨kinds, modifier, some bounds⟩

/-- Reads the kinds of a slot; the first one that is not known is the fault. -/
def readKinds (opcode : Text) : List Text → Except Fault (List SlotKind)
  | [] => .ok []
  | k :: rest =>
    match SlotKind.ofLabel? k with
    | none => .error (.unknownKind opcode k)
    | some kind => (readKinds opcode rest).map (kind :: ·)

def readBound (digits : Text) : Except Fault Nat :=
  if Text.digitLimit < digits.length then .error (.oversizedBound digits.length)
  else .ok (Text.digitsValue (digits.map fun c => c.val - 48))

/-- Reads one slot, given whether it is the last and what it stands for where it is left out. -/
def readSlot (opcode : Text) (isLast : Bool) (fallback : Option Text) (t : Text) : Except Fault Slot :=
  match splitSlot t with
  | none => .error (.badSlot opcode t)
  | some parts => do
    let kinds ← readKinds opcode parts.kinds
    let repeats := parts.modifier = some ('+' : CodePoint)
    if repeats && !isLast then .error (.repeatNotLast opcode)
    else
      let slot : Slot :=
        { kinds, isOptional := parts.modifier = some ('?' : CodePoint), repeats, fallback,
          lower := none, upper := none }
      match parts.bounds with
      | none => return slot
      | some (lower, upper) =>
        return { slot with lower := some (← readBound lower), upper := some (← readBound upper) }

/-- Reads the slots of a shape from the one numbered `index` on. -/
def readSlots (opcode : Text) (fallbacks : List (Nat × Text)) (index : Nat) :
    List Text → Except Fault (List Slot)
  | [] => .ok []
  | t :: rest => do
    let slot ← readSlot opcode rest.isEmpty (fallbacks.lookup index) t
    return slot :: (← readSlots opcode fallbacks (index + 1) rest)

/-- Reads a shape.  `fallbacks` gives, by slot number from zero, what an optional slot stands for. -/
def read (name shape : Text) (takesModifiers : Bool) (fallbacks : List (Nat × Text)) :
    Except Fault Shape :=
  if shape.strip = "multipart" then .ok ⟨name, [], true, takesModifiers⟩
  else (readSlots name fallbacks 0 shape.words).map fun slots => ⟨name, slots, false, takesModifiers⟩

/-- The word that marks, before the slots of a shape, an opcode that takes modifiers. -/
def modifierMark : Text := "prefixable "

/-- Reads an entry of a vocabulary: the name is put in lower case, and the shape may be marked. -/
def readEntry (name shape : Text) : Except Fault Shape :=
  if modifierMark.isPrefixOf shape then read name.lower (shape.drop modifierMark.length) true []
  else read name.lower shape false []

end Shape
end BrailleTable
