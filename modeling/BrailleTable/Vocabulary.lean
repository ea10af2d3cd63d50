/-
Vocabularies: the opcodes a table may use, each with its shape.
-/
import BrailleTable.Shape

namespace BrailleTable

/-- The shapes of the opcodes, one for each name. -/
abbrev Vocabulary := List Shape

namespace Vocabulary

def lookup (v : Vocabulary) (name : Text) : Option Shape := v.find? (·.name = name)

/-- Adds a shape, in the place of the one with its name if there is one. -/
def put (v : Vocabulary) (s : Shape) : Vocabulary :=
  match v with
  | [] => [s]
  | t :: rest => if t.name = s.name then s :: rest else t :: put rest s

/-- Adds shapes one after the other, so that of two with one name the later stays. -/
def putAll (v : Vocabulary) (shapes : List Shape) : Vocabulary := shapes.foldl put v

/-- Reads entries given as names and written shapes; the first fault ends the reading. -/
def readEntries : List (Text × Text) → Except Shape.Fault (List Shape)
  | [] => .ok []
  | (name, shape) :: rest => do
    let s ← Shape.readEntry name shape
    return s :: (← readEntries rest)

def sorted (v : Vocabulary) : List Shape :=
  (Text.sortedSet (v.map Shape.name)).filterMap (lookup v)

/-- Whether two vocabularies have the same shapes, in whatever order. -/
def same (v w : Vocabulary) : Bool := v.sorted = w.sorted

/-- The shapes that another vocabulary lacks or has differently, in ascending order of their names. -/
def changedFrom (v base : Vocabulary) : List Shape :=
  v.sorted.filter fun s => base.lookup s.name ≠ some s

/-! ## The standard vocabulary -/

namespace Standard

def slot (kinds : List SlotKind) : Slot :=
  { kinds, isOptional := false, repeats := false, fallback := none, lower := none, upper := none }

def plain (slots : List Slot) (name : Text) : Shape := ⟨name, slots, false, false⟩

def modifiable (slots : List Slot) (name : Text) : Shape := ⟨name, slots, false, true⟩

/-- Opcodes that give a character its dots. -/
def definitions : List Text :=
  ["punctuation", "digit", "letter", "lowercase", "uppercase", "litdigit", "sign", "math", "hyphen"]

/-- Opcodes that give a sign its dots. -/
def indicators : List Text :=
  ["undefined", "numsign", "capsletter", "begcapsword", "endcapsword", "letsign"]

/-- Opcodes that give a string its dots. -/
def replacements : List Text :=
  ["display", "always", "word", "begword", "midword", "endword", "partword", "joinword", "lowword",
   "largesign", "syllable", "repeated", "begnum", "midnum", "endnum"]

def strings : List Text := ["contraction", "nocont", "compbrl", "literal"]

/-- Opcodes whose arguments are an expression. -/
def passes : List Text := ["context", "correct", "pass2", "pass3", "pass4"]

end Standard

open Standard in
/-- The vocabulary of a table that declares no opcodes of its own. -/
def standard : Vocabulary :=
  [plain [{ slot [.character] with isOptional := true, fallback := some " " }, slot [.dots]] "space"] ++
  definitions.map (plain [slot [.character], slot [.dots]]) ++
  indicators.map (plain [slot [.dots]]) ++
  replacements.map (modifiable [slot [.characters], slot [.dots]]) ++
  strings.map (modifiable [slot [.characters]]) ++
  [plain [slot [.filename]] "include",
   plain [slot [.characters]] "noletsign",
   modifiable [slot [.characters], { slot [.characters] with isOptional := true }] "replace",
   plain [slot [.name], slot [.charClass, .characters]] "class",
   plain [slot [.name], slot [.charClass, .characters]] "attribute",
   modifiable [slot [.dots], { slot [.name] with repeats := true }] "multind",
   plain [slot [.name]] "emphclass",
   plain [slot [.name], slot [.dots]] "begemph",
   plain [slot [.name], slot [.dots]] "endemph",
   plain [slot [.name], { slot [.number] with lower := some 1, upper := some 255 }] "lenemphphrase"] ++
  passes.map fun name => ⟨name, [], true, true⟩

end Vocabulary
end BrailleTable
