/-
Directives: the rules of a table.
-/
import BrailleTable.Expression
import BrailleTable.Text.Lowercase

namespace BrailleTable

/-- The words that may stand before an opcode. -/
inductive Modifier where
  | noback
  | nofor
  | nocross
deriving DecidableEq

namespace Modifier

def label : Modifier → Text
  | .noback => "noback"
  | .nofor => "nofor"
  | .nocross => "nocross"

/-- The modifiers in the order they are written. -/
def all : List Modifier := [.noback, .nofor, .nocross]

def ofText? (t : Text) : Option Modifier := all.find? (·.label = t)

end Modifier

structure Modifiers where
  noback : Bool
  nofor : Bool
  nocross : Bool
deriving DecidableEq

namespace Modifiers

def none : Modifiers := ⟨false, false, false⟩

def contains (ms : Modifiers) : Modifier → Bool
  | .noback => ms.noback
  | .nofor => ms.nofor
  | .nocross => ms.nocross

def insert (ms : Modifiers) : Modifier → Modifiers
  | .noback => { ms with noback := true }
  | .nofor => { ms with nofor := true }
  | .nocross => { ms with nocross := true }

def ofList (ms : List Modifier) : Modifiers := ms.foldl insert none

/-- The members of the set, in the order they are written. -/
def toList (ms : Modifiers) : List Modifier := Modifier.all.filter ms.contains

def ofLabels (words : List Text) : Modifiers := ofList (words.filterMap Modifier.ofText?)

/-- The names of the members, in ascending order. -/
def labels (ms : Modifiers) : List Text := Text.sortedSet (ms.toList.map Modifier.label)

end Modifiers

/-- A rule of a table, with its annotations (see `Value`). -/
structure Directive (σ : Type) where
  /-- The name of the opcode, as the vocabulary has it. -/
  opcode : Text
  args : List (Value σ)
  /-- The test and actions of a multipart opcode. -/
  expression : Option (Expression σ)
  modifiers : Modifiers
  span : σ
  comment : Option Text

namespace Directive

variable {σ τ : Type}

/-- The directive without annotations and comment.  Two directives are equal when their bare directives
are. -/
def bare (d : Directive σ) : Directive Unit :=
  { opcode := d.opcode, args := d.args.map Value.bare, expression := d.expression.map Expression.bare,
    modifiers := d.modifiers, span := (), comment := none }

/-- Whether two directives are equal but for annotations and comments. -/
def same (a : Directive σ) (b : Directive τ) : Bool :=
  a.opcode = b.opcode && a.args.map Value.bare = b.args.map Value.bare &&
    (match a.expression, b.expression with
      | none, none => true
      | some e, some f => e.same f
      | _, _ => false) &&
    a.modifiers = b.modifiers

end Directive
end BrailleTable
