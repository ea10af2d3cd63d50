/-
Outcomes of attempts to read a part of an expression.

An attempt that does not apply leaves the reader free to try another; one that has committed itself, by
a token that only it accepts, ends the reading.  Either way the places that could not be passed are kept,
in the order they were met, so that the furthest of them can be reported.  An attempt depends on nothing
but its cursor: the misses of earlier attempts are put before its own (`Outcome.after`).
-/
import BrailleTable.Cursor

namespace BrailleTable

inductive Outcome (α : Type) where
  | found (value : α) (misses : List Miss)
  | missed (misses : List Miss)
  /-- The attempt had committed itself; the furthest miss is the error. -/
  | stuck (misses : List Miss)
  /-- The attempt met an error of its own. -/
  | refused (failure : Failure)

namespace Outcome

variable {α β : Type}

/-- The outcome with earlier misses put before its own. -/
def after (earlier : List Miss) : Outcome α → Outcome α
  | .found a ms => .found a (earlier ++ ms)
  | .missed ms => .missed (earlier ++ ms)
  | .stuck ms => .stuck (earlier ++ ms)
  | .refused f => .refused f

def bind (o : Outcome α) (f : α → Outcome β) : Outcome β :=
  match o with
  | .found a ms => (f a).after ms
  | .missed ms => .missed ms
  | .stuck ms => .stuck ms
  | .refused e => .refused e

def map (f : α → β) (o : Outcome α) : Outcome β := o.bind fun a => .found (f a) []

/-- Tries another attempt where the first does not apply. -/
def orElse (o : Outcome α) (other : Unit → Outcome α) : Outcome α :=
  match o with
  | .missed ms => (other ()).after ms
  | o => o

def orMiss (o : Outcome α) (m : Miss) : Outcome α := o.orElse fun _ => .missed [m]

/-- An attempt that has to apply, because what precedes it is accepted by nothing else. -/
def commit (o : Outcome α) : Outcome α :=
  match o with
  | .missed ms => .stuck ms
  | o => o

end Outcome
end BrailleTable
