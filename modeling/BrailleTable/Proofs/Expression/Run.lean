/-
The productions as programs.

The productions of an expression are given what is open and how often they may repeat something.  A program has to see to
both itself: it pushes a parenthesis on a stack and pops it again in whatever way it ends, it goes on with a loop until
something stops it, and its productions call each other without a bound.  Here the productions are such programs.  A clock
stops what takes too long, so that they are functions, and `Run.Settles` says of a program that nothing but the clock can
keep it from an outcome, and that its parentheses are balanced.
-/
import BrailleTable.Expression.Parser

namespace BrailleTable
namespace Expression

/-- A program on the stack of the parentheses that are open, with the innermost on top.  In the end there is an outcome,
whether it is a result or an error, and the stack at that time; there is nothing if the clock has stopped the program. -/
def Run (α : Type) : Type := List Span → Option (Outcome α × List Span)

namespace Run

variable {α β : Type}

/-- Ends at once, with an outcome that may tell of the innermost parenthesis. -/
def done (f : Option Span → Outcome α) : Run α := fun stack => some (f stack.head?, stack)

/-- What the clock makes of a program for which no time is left. -/
def stopped : Run α := fun _ => none

def bind (r : Run α) (f : α → Run β) : Run β := fun stack =>
  match r stack with
  | none => none
  | some (.found a ms, stack') => (f a stack').map fun end' => (end'.1.after ms, end'.2)
  | some (.missed ms, stack') => some (.missed ms, stack')
  | some (.stuck ms, stack') => some (.stuck ms, stack')
  | some (.refused e, stack') => some (.refused e, stack')

/-- Goes on with another program where the first does not apply. -/
def orElse (r other : Run α) : Run α := fun stack =>
  match r stack with
  | some (.missed ms, stack') => (other stack').map fun end' => (end'.1.after ms, end'.2)
  | end' => end'

def onOutcome (f : Outcome α → Outcome β) (r : Run α) : Run β := fun stack =>
  (r stack).map fun end' => (f end'.1, end'.2)

def map (f : α → β) (r : Run α) : Run β := r.onOutcome (Outcome.map f)

def commit (r : Run α) : Run α := r.onOutcome Outcome.commit

/-- Pushes a parenthesis first and pops one last, whatever the outcome. -/
def within (s : Span) (r : Run α) : Run α := fun stack =>
  (r (s :: stack)).map fun end' => (end'.1, end'.2.tail)

/-- Goes on only if fewer parentheses than `limit` are open. -/
def unlessFull (limit : Nat) (full : Option Span → Outcome α) (r : Run α) : Run α := fun stack =>
  if limit ≤ stack.length then done full stack else r stack

/-! ## Loops -/

/-- Repeats `item` until it no longer applies or the line ends. -/
def many (item : Cursor → Run Parsed) : Nat → Cursor → Run (List (Expression Span) × Cursor)
  | 0, _ => stopped
  | clock + 1, cur =>
    if cur.atEnd then done fun _ => .found ([], cur) []
    else
      ((item cur).bind fun x => (many item clock x.2).map fun y => (x.1 :: y.1, y.2)).orElse
        (done fun _ => .found ([], cur) [])

/-- Reads one more link after each connective until there is none. -/
def links (op : Connective) (link : Cursor → Run Parsed) : Nat → Cursor → Run (List (Expression Span) × Cursor)
  | 0, _ => stopped
  | clock + 1, cur =>
    if cur.isWord op.label then
      (link cur.next).commit.bind fun x => (links op link clock x.2).map fun y => (x.1 :: y.1, y.2)
    else done fun context => .found ([], cur) [⟨cur, ["'" ++ op.label ++ "'"], context⟩]

/-- Links joined by one connective. -/
def chain (op : Connective) (link : Cursor → Run Parsed) (clock : Nat) (cur : Cursor) : Run Parsed :=
  (link cur).bind fun x =>
    (links op link clock x.2).map fun y => (ofOperands op ((x.1 :: y.1).flatMap (chainOperands op)), y.2)

end Run

/-! ## Productions -/

/-- What reads a part of an expression. -/
inductive Production where
  | operand
  | literal
  | comparison
  | group
  | atom
  | negation
  | sequence
  | conjunction
  | disjunction
  | step
deriving DecidableEq

namespace Production

variable (d : Dialect) (opcode : Text)

/-- What a production does, where `call` calls another one. -/
def act (call : Production → Cursor → Run Parsed) (clock : Nat) (cur : Cursor) : Production → Run Parsed
  | operand => .done fun context => Expression.operand d opcode context cur
  | literal => (call operand cur).orElse (.done fun context => bareWord d opcode context cur)
  | comparison =>
    (call operand cur).bind fun left =>
      match comparisonAt? left.2 with
      | none => .done fun context => .missed [⟨left.2, ["comparison operator"], context⟩]
      | some op =>
        (call operand left.2.next).commit.map fun right =>
          (.compare op left.1 right.1 (left.1.span.merge right.1.span), right.2)
  | group =>
    .unlessFull d.maxDepth (fun context => refuseGroup d opcode context cur)
      (.within cur.span ((call disjunction cur.next).commit.bind fun inner =>
        if inner.2.isPunctuation ")" then .done fun _ => .found (inner.1, inner.2.next) []
        else .done fun context => .stuck [⟨inner.2, ["')'", "'and'", "'or'"], context⟩]))
  | atom =>
    if cur.isPunctuation "(" then call group cur
    else
      (call comparison cur).orElse
        (if cur.peek?.any fun t => t.kind = .word && t.text.head? = some ('_' : CodePoint) then call operand cur
        else (call literal cur).orElse (.done fun context => .missed [⟨cur, ["'('"], context⟩]))
  | negation =>
    if cur.isWord Connective.neg.label then
      (call atom cur.next).commit.map fun x => (.combine .neg [x.1] (cur.span.merge x.1.span), x.2)
    else (call atom cur).orElse (.done fun context => .missed [⟨cur, ["'not'"], context⟩])
  | sequence =>
    (call negation cur).bind fun x =>
      (Run.many (call negation) clock x.2).map fun y => (ofItems ((x.1 :: y.1).flatMap sequenceItems), y.2)
  | conjunction => Run.chain .conj (call sequence) clock cur
  | disjunction => Run.chain .disj (call conjunction) clock cur
  | step =>
    match cur.peek? with
    | none => .done fun context => .missed [⟨cur, ["action name"], context⟩]
    | some t =>
      if t.kind ≠ .word ∨ t.text.head? = some ('_' : CodePoint) then
        .done fun context => .missed [⟨cur, ["action name"], context⟩]
      else match Value.nameOf t with
        | .error e => .done fun context => .refused (valueFailure opcode context (.parse e))
        | .ok name =>
          (Run.many (call operand) clock cur.next).map fun y =>
            (.step name y.1 (t.span.merge ((y.1.getLast?.map Expression.span).getD t.span)), y.2)

/-- The program of a production.  Each call and each round of a loop takes one tick of the clock. -/
def run : Nat → Production → Cursor → Run Parsed
  | 0, _, _ => .stopped
  | clock + 1, p, cur => p.act d opcode (run clock) clock cur

end Production

/-! ## The whole -/

variable (d : Dialect) (opcode : Text)

/-- Reads a keyword; nothing else may stand in its place. -/
def runKeyword (word : Text) (cur : Cursor) : Run Cursor :=
  if cur.isWord word then .done fun _ => .found cur.next []
  else .done fun context => .stuck [⟨cur, ["'" ++ word ++ "'"], context⟩]

/-- Reads the steps up to the end of the line. -/
def runSteps (clock : Nat) (cur : Cursor) : Run (List (Expression Span)) :=
  (Production.step.run d opcode clock cur).commit.bind fun first =>
    (Run.many (Production.step.run d opcode clock) clock first.2).bind fun more =>
      if more.2.atEnd then .done fun _ => .found (first.1 :: more.1) []
      else .done fun context => .stuck [⟨more.2, "action name" :: operandLabels, context⟩]

/-- Reads a whole expression up to the end of the line. -/
def runBody (clock : Nat) (cur : Cursor) : Run (Expression Span) :=
  (runKeyword d.testKeyword.lower cur).bind fun afterTest =>
    (Production.disjunction.run d opcode clock afterTest).commit.bind fun test =>
      (runKeyword d.actionKeyword.lower test.2).bind fun afterActions =>
        (runSteps d opcode clock afterActions).map fun actions =>
          .body test.1 actions (cur.span.merge ((actions.getLast?.getD test.1).span))

/-! ## What programs come to -/

namespace Run

variable {α β : Type} {enough enough' : Prop} {stack : List Span} {r : Run α} {o : Outcome α}

/-- The program comes to this outcome, with the same parentheses open as before, unless the clock stops it.  If there is
enough time, the clock does not stop it. -/
def Settles (r : Run α) (enough : Prop) (stack : List Span) (o : Outcome α) : Prop :=
  r stack = some (o, stack) ∨ r stack = none ∧ ¬ enough

namespace Settles

theorem isSome (h : r.Settles enough stack o) (henough : enough) : (r stack).isSome := by
  rcases h with h | ⟨-, hshort⟩
  · rw [h]
    rfl
  · exact absurd henough hshort

theorem eq_of_eq_some (h : r.Settles enough stack o) {o' : Outcome α} {stack' : List Span}
    (hrun : r stack = some (o', stack')) : stack' = stack ∧ o' = o := by
  rcases h with h | ⟨h, -⟩
  · rw [h] at hrun
    cases hrun
    exact ⟨rfl, rfl⟩
  · rw [h] at hrun
    cases hrun

theorem mono (h : r.Settles enough' stack o) (henough : enough → enough') : r.Settles enough stack o :=
  h.imp_right fun hnone => ⟨hnone.1, fun hyes => hnone.2 (henough hyes)⟩

theorem ite {c : Prop} [Decidable c] {r' : Run α} {o' : Outcome α} (h : c → r.Settles enough stack o)
    (h' : ¬ c → r'.Settles enough stack o') : (if c then r else r').Settles enough stack (if c then o else o') := by
  by_cases hc : c
  · rw [if_pos hc, if_pos hc]
    exact h hc
  · rw [if_neg hc, if_neg hc]
    exact h' hc

theorem done (f : Option Span → Outcome α) : (Run.done f).Settles enough stack (f stack.head?) := .inl rfl

theorem stopped (h : ¬ enough) : Run.stopped.Settles enough stack o := .inr ⟨rfl, h⟩

theorem bind (h : r.Settles enough stack o) {f : α → Run β} {g : α → Outcome β}
    (hf : ∀ a ms, o = .found a ms → (f a).Settles enough stack (g a)) : (r.bind f).Settles enough stack (o.bind g) := by
  rcases h with h | ⟨h, hshort⟩
  · cases o with
    | found a ms =>
      rcases hf a ms rfl with hfound | ⟨hnone, hshort⟩
      · left
        simp only [Run.bind, h, hfound, Option.map_some, Outcome.bind]
      · right
        refine ⟨?_, hshort⟩
        simp only [Run.bind, h, hnone, Option.map_none]
    | missed ms => exact .inl (by simp only [Run.bind, h, Outcome.bind])
    | stuck ms => exact .inl (by simp only [Run.bind, h, Outcome.bind])
    | refused e => exact .inl (by simp only [Run.bind, h, Outcome.bind])
  · exact .inr ⟨by simp only [Run.bind, h], hshort⟩

theorem orElse (h : r.Settles enough stack o) {other : Run α} {o' : Outcome α} (hother : other.Settles enough stack o') :
    (r.orElse other).Settles enough stack (o.orElse fun _ => o') := by
  rcases h with h | ⟨h, hshort⟩
  · cases o with
    | missed ms =>
      rcases hother with hother | ⟨hnone, hshort⟩
      · left
        simp only [Run.orElse, h, hother, Option.map_some, Outcome.orElse]
      · right
        refine ⟨?_, hshort⟩
        simp only [Run.orElse, h, hnone, Option.map_none]
    | found a ms => exact .inl (by simp only [Run.orElse, h, Outcome.orElse])
    | stuck ms => exact .inl (by simp only [Run.orElse, h, Outcome.orElse])
    | refused e => exact .inl (by simp only [Run.orElse, h, Outcome.orElse])
  · exact .inr ⟨by simp only [Run.orElse, h], hshort⟩

theorem onOutcome (h : r.Settles enough stack o) (f : Outcome α → Outcome β) :
    (r.onOutcome f).Settles enough stack (f o) := by
  rcases h with h | ⟨h, hshort⟩
  · exact .inl (by simp only [Run.onOutcome, h, Option.map_some])
  · exact .inr ⟨by simp only [Run.onOutcome, h, Option.map_none], hshort⟩

theorem map (h : r.Settles enough stack o) (f : α → β) : (r.map f).Settles enough stack (o.map f) := h.onOutcome _

theorem commit (h : r.Settles enough stack o) : r.commit.Settles enough stack o.commit := h.onOutcome _

/-- What is pushed is popped again. -/
theorem within {s : Span} (h : r.Settles enough (s :: stack) o) : (r.within s).Settles enough stack o := by
  rcases h with h | ⟨h, hshort⟩
  · exact .inl (by simp only [Run.within, h, Option.map_some, List.tail_cons])
  · exact .inr ⟨by simp only [Run.within, h, Option.map_none], hshort⟩

theorem unlessFull {limit : Nat} {full : Option Span → Outcome α}
    (h : ¬ limit ≤ stack.length → r.Settles enough stack o) :
    (r.unlessFull limit full).Settles enough stack (if limit ≤ stack.length then full stack.head? else o) := by
  by_cases hfull : limit ≤ stack.length
  · rw [if_pos hfull]
    exact .inl (if_pos hfull)
  · rw [if_neg hfull]
    have hrun : r.unlessFull limit full stack = r stack := if_neg hfull
    exact (h hfull).imp hrun.trans (And.imp_left hrun.trans)

end Settles
end Run
end Expression
end BrailleTable
