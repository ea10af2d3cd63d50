/-
Expressions: what the multipart opcodes test for, and the actions they take.
-/
import BrailleTable.Value

namespace BrailleTable

inductive Comparison where
  | eq
  | ne
  | lt
  | le
  | gt
  | ge
  /-- A sign that no table has.  A tree made by hand may. -/
  | other (sign : Text)
deriving DecidableEq

namespace Comparison

def label : Comparison → Text
  | .eq => "="
  | .ne => "!="
  | .lt => "<"
  | .le => "<="
  | .gt => ">"
  | .ge => ">="
  | .other sign => sign

/-- The comparisons that a table may have. -/
def all : List Comparison := [.eq, .ne, .lt, .le, .gt, .ge]

def ofText? (t : Text) : Option Comparison := all.find? (·.label = t)

/-- The comparison with a sign, whatever the sign. -/
def ofText (t : Text) : Comparison := (ofText? t).getD (.other t)

end Comparison

/-- The words that combine tests. -/
inductive Connective where
  | conj
  | disj
  | neg
  /-- A word that no table has.  A tree made by hand may. -/
  | other (word : Text)
deriving DecidableEq

namespace Connective

def label : Connective → Text
  | .conj => "and"
  | .disj => "or"
  | .neg => "not"
  | .other word => word

/-- The connectives that a table may have. -/
def all : List Connective := [.conj, .disj, .neg]

def ofText? (t : Text) : Option Connective := all.find? (·.label = t)

/-- The connective with a word, whatever the word. -/
def ofText (t : Text) : Connective := (ofText? t).getD (.other t)

end Connective

/-- An expression, or a part of one, with its annotation (see `Value`).  Any part may stand in any place:
the grammar decides which trees a table can have, and writing refuses what no table could hold. -/
inductive Expression (σ : Type) where
  /-- A value by itself, which a table has inside literals only. -/
  | value (v : Value σ)
  | literal (content : Expression σ) (span : σ)
  /-- A class of characters, by name. -/
  | classRef (name : Text) (span : σ)
  | compare (op : Comparison) (left right : Expression σ) (span : σ)
  | combine (op : Connective) (operands : List (Expression σ)) (span : σ)
  /-- Tests that have to match one after another. -/
  | sequence (items : List (Expression σ)) (span : σ)
  | step (name : Text) (operands : List (Expression σ)) (span : σ)
  /-- A whole expression: a test and the steps of its action. -/
  | body (test : Expression σ) (actions : List (Expression σ)) (span : σ)

namespace Expression

variable {σ τ : Type}

def ofValue (span : σ) (v : Value σ) : Expression σ := .literal (.value v) span

def span : Expression σ → σ
  | .value v => v.span
  | .literal _ s | .classRef _ s | .compare _ _ _ s | .combine _ _ s | .sequence _ s | .step _ _ s
  | .body _ _ s => s

/-- The parts directly below an expression, in the order of the source.  What a literal holds is no part
of its own. -/
def children : Expression σ → List (Expression σ)
  | .value _ | .literal _ _ | .classRef _ _ => []
  | .compare _ left right _ => [left, right]
  | .combine _ operands _ => operands
  | .sequence items _ => items
  | .step _ operands _ => operands
  | .body test actions _ => test :: actions

mutual
def map (f : σ → τ) : Expression σ → Expression τ
  | .value v => .value (v.map f)
  | .literal e s => .literal (map f e) (f s)
  | .classRef name s => .classRef name (f s)
  | .compare op left right s => .compare op (map f left) (map f right) (f s)
  | .combine op operands s => .combine op (mapAll f operands) (f s)
  | .sequence items s => .sequence (mapAll f items) (f s)
  | .step name operands s => .step name (mapAll f operands) (f s)
  | .body test actions s => .body (map f test) (mapAll f actions) (f s)

def mapAll (f : σ → τ) : List (Expression σ) → List (Expression τ)
  | [] => []
  | e :: rest => map f e :: mapAll f rest
end

/-- The expression without its annotations.  Two expressions are equal when their bare expressions
are. -/
def bare (e : Expression σ) : Expression Unit := e.map fun _ => ()

mutual
/-- Whether two expressions are equal but for their annotations. -/
def same : Expression σ → Expression τ → Bool
  | .value v, .value w => v.bare = w.bare
  | .literal e _, .literal f _ => same e f
  | .classRef n _, .classRef m _ => n = m
  | .compare op l r _, .compare op' l' r' _ => op = op' && same l l' && same r r'
  | .combine op xs _, .combine op' ys _ => op = op' && sameAll xs ys
  | .sequence xs _, .sequence ys _ => sameAll xs ys
  | .step n xs _, .step m ys _ => n = m && sameAll xs ys
  | .body t xs _, .body u ys _ => same t u && sameAll xs ys
  | _, _ => false

def sameAll : List (Expression σ) → List (Expression τ) → Bool
  | [], [] => true
  | e :: es, f :: fs => same e f && sameAll es fs
  | _, _ => false
end

/-! ## Walking

The walk keeps the parts still to be visited on a stack, so that a deep expression needs no deep
recursion. -/

mutual
/-- The number of parts of an expression, itself included. -/
def size : Expression σ → Nat
  | .value _ | .literal _ _ | .classRef _ _ => 1
  | .compare _ left right _ => size left + size right + 1
  | .combine _ operands _ => sizeAll operands + 1
  | .sequence items _ => sizeAll items + 1
  | .step _ operands _ => sizeAll operands + 1
  | .body test actions _ => size test + sizeAll actions + 1

def sizeAll : List (Expression σ) → Nat
  | [] => 0
  | e :: rest => size e + sizeAll rest
end

theorem sizeAll_append (a b : List (Expression σ)) : sizeAll (a ++ b) = sizeAll a + sizeAll b := by
  induction a with
  | nil => simp [sizeAll]
  | cons e rest ih => simp only [List.cons_append, sizeAll, ih, Nat.add_assoc]

/-- An expression is one part more than the parts below it. -/
theorem sizeAll_children (e : Expression σ) : sizeAll e.children + 1 = e.size := by
  cases e <;> simp [children, size, sizeAll]

/-- Visits the expressions of a stack, and the parts of each before those after it. -/
def walkStack (stack : List (Expression σ)) : List (Expression σ) :=
  match stack with
  | [] => []
  | e :: rest => e :: walkStack (e.children ++ rest)
termination_by sizeAll stack
decreasing_by
  have h := sizeAll_children e
  simp only [sizeAll_append, sizeAll]
  omega

/-- An expression and all its parts, each before the parts below it. -/
def walk (e : Expression σ) : List (Expression σ) := walkStack [e]

end Expression
end BrailleTable
