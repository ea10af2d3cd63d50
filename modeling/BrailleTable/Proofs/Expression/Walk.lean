/-
The walk over an expression.

The walk visits the parts from a stack, on which the parts beside those being visited wait for their turn.  Stacks are
visited one expression after the other, so the walk is the recursive one: an expression comes first, then the walks of the
parts directly below it.  What holds of all parts that are visited thus holds of the expression and of all parts of the
expressions below it.

Two parts may be equal, so a list of parts alone does not say which of them were visited.  A path does, which leads down from
an expression to one of its parts (`HasPart`).  `visits` keeps the path beside each part: the walk comes to the end of each
path once, in the order of the paths.
-/
import BrailleTable.Expression

namespace BrailleTable
namespace Expression

variable {σ : Type} {P : Expression σ → Prop} {e n : Expression σ} {path : List Nat} {i : Nat}

theorem walkStack_append (a b : List (Expression σ)) : walkStack (a ++ b) = walkStack a ++ walkStack b := by
  fun_induction walkStack a with
  | case1 => rfl
  | case2 e rest ih => rw [List.cons_append, walkStack, ← List.append_assoc, ih, List.cons_append]

/-- However high the stack, what is on top of it is walked before the next is looked at. -/
theorem walkStack_eq_flatMap (stack : List (Expression σ)) : walkStack stack = stack.flatMap walk := by
  induction stack with
  | nil => rw [walkStack, List.flatMap_nil]
  | cons e rest ih => rw [List.flatMap_cons, ← ih, walk, ← walkStack_append, List.singleton_append]

/-- The walk without its stack. -/
theorem walk_eq_cons (e : Expression σ) : e.walk = e :: e.children.flatMap walk := by
  rw [walk, walkStack, List.append_nil, walkStack_eq_flatMap]

/-- What holds of all parts of an expression, by what is below it. -/
theorem forall_mem_walk : (∀ n ∈ e.walk, P n) ↔ P e ∧ ∀ c ∈ e.children, ∀ n ∈ c.walk, P n := by
  rw [walk_eq_cons, List.forall_mem_cons, List.forall_mem_flatMap]

theorem self_mem_walk (e : Expression σ) : e ∈ e.walk := (forall_mem_walk.mp fun _ hn => hn).1

/-! ## Paths -/

/-- The path leads from an expression down to a part of it.  Each number says which part to go on to, of those directly
below.  What a literal holds is no part of its own, so no path leads on from there. -/
inductive HasPart : Expression σ → List Nat → Expression σ → Prop
  | self {e : Expression σ} : HasPart e [] e
  | left {op : Comparison} {left right n : Expression σ} {s : σ} {path : List Nat} :
      HasPart left path n → HasPart (.compare op left right s) (0 :: path) n
  | right {op : Comparison} {left right n : Expression σ} {s : σ} {path : List Nat} :
      HasPart right path n → HasPart (.compare op left right s) (1 :: path) n
  | combined {op : Connective} {operands : List (Expression σ)} {c n : Expression σ} {s : σ} {i : Nat} {path : List Nat} :
      operands[i]? = some c → HasPart c path n → HasPart (.combine op operands s) (i :: path) n
  | item {items : List (Expression σ)} {c n : Expression σ} {s : σ} {i : Nat} {path : List Nat} :
      items[i]? = some c → HasPart c path n → HasPart (.sequence items s) (i :: path) n
  | operand {name : Text} {operands : List (Expression σ)} {c n : Expression σ} {s : σ} {i : Nat} {path : List Nat} :
      operands[i]? = some c → HasPart c path n → HasPart (.step name operands s) (i :: path) n
  | test {test n : Expression σ} {actions : List (Expression σ)} {s : σ} {path : List Nat} :
      HasPart test path n → HasPart (.body test actions s) (0 :: path) n
  | action {test c n : Expression σ} {actions : List (Expression σ)} {s : σ} {i : Nat} {path : List Nat} :
      actions[i]? = some c → HasPart c path n → HasPart (.body test actions s) ((i + 1) :: path) n

theorem hasPart_nil_iff : e.HasPart [] n ↔ n = e := by
  constructor
  · intro h
    cases h with
    | self => rfl
  · rintro rfl
    exact .self

/-- A path goes on to a part directly below, and from there as a path of that part. -/
theorem hasPart_cons_iff : e.HasPart (i :: path) n ↔ ∃ c, e.children[i]? = some c ∧ c.HasPart path n := by
  constructor
  · intro h
    cases h with
    | left h | right h | test h => exact ⟨_, rfl, h⟩
    | combined hc h | item hc h | operand hc h | action hc h => exact ⟨_, hc, h⟩
  · rintro ⟨c, hc, h⟩
    cases e with
    | value | literal | classRef => cases hc
    | compare op left right s =>
      match i, hc with
      | 0, rfl => exact .left h
      | 1, rfl => exact .right h
    | combine op operands s => exact .combined hc h
    | sequence items s => exact .item hc h
    | step name operands s => exact .operand hc h
    | body test actions s =>
      match i, hc with
      | 0, rfl => exact .test h
      | i + 1, hc => exact .action hc h

/-! ## Visits -/

theorem size_le_sizeAll {es : List (Expression σ)} (h : e ∈ es) : e.size ≤ sizeAll es := by
  induction h with
  | head rest => exact Nat.le_add_right _ _
  | tail c _ ih => exact Nat.le_trans ih (Nat.le_add_left _ _)

theorem size_lt_of_mem_children {c : Expression σ} (h : c ∈ e.children) : c.size < e.size := by
  rw [← sizeAll_children e]
  exact Nat.lt_succ_of_le (size_le_sizeAll h)

/-- The parts of an expression with the paths to them, by recursion on the expression. -/
def visits (e : Expression σ) : List (List Nat × Expression σ) :=
  ([], e) :: e.children.zipIdx.attach.flatMap fun ⟨(c, i), _⟩ => c.visits.map (Prod.map (i :: ·) id)
termination_by e.size
decreasing_by exact size_lt_of_mem_children (List.fst_mem_of_mem_zipIdx ‹_›)

theorem visits_eq_cons (e : Expression σ) :
    e.visits = ([], e) :: e.children.zipIdx.flatMap fun c => c.1.visits.map (Prod.map (c.2 :: ·) id) := by
  rw [visits, List.flatMap_subtype fun _ _ => rfl, List.unattach_attach]

theorem map_snd_visits (e : Expression σ) : e.visits.map Prod.snd = e.walk := by
  induction e using visits.induct with
  | case1 e ih =>
    have hbelow : ∀ c ∈ e.children.zipIdx, (c.1.visits.map (Prod.map (c.2 :: ·) id)).map Prod.snd = c.1.walk := by
      intro c hc
      rw [List.map_map, ← ih c.1 c.2 hc]
      rfl
    calc e.visits.map Prod.snd
        = e :: (e.children.zipIdx.flatMap fun c => (c.1.visits.map (Prod.map (c.2 :: ·) id)).map Prod.snd) := by
          rw [visits_eq_cons, List.map_cons, List.map_flatMap]
      _ = e :: (e.children.zipIdx.flatMap fun c => c.1.walk) := by
          rw [List.flatMap_def, List.map_congr_left hbelow, List.flatMap_def]
      _ = e :: ((e.children.zipIdx.map Prod.fst).flatMap walk) := by rw [List.flatMap_map]
      _ = e.walk := by rw [List.zipIdx_map_fst, walk_eq_cons]

/-- Of two parts directly below an expression, what the first one has comes before what the second one has. -/
theorem pairwise_visits (e : Expression σ) : e.visits.Pairwise fun v w => List.Lex (· < ·) v.1 w.1 := by
  induction e using visits.induct with
  | case1 e ih =>
    have hnumbers : e.children.zipIdx.Pairwise fun c d => c.2 < d.2 := by
      rw [← List.pairwise_map, List.zipIdx_map_snd]
      exact List.pairwise_lt_range'
    rw [visits_eq_cons, List.pairwise_cons, List.pairwise_flatMap]
    refine ⟨fun v hv => ?_, fun c hc => ?_, hnumbers.imp fun hlt v hv w hw => ?_⟩
    · obtain ⟨c, -, hv⟩ := List.mem_flatMap.mp hv
      obtain ⟨u, -, rfl⟩ := List.mem_map.mp hv
      exact .nil
    · rw [List.pairwise_map]
      exact (ih c.1 c.2 hc).imp .cons
    · obtain ⟨u, -, rfl⟩ := List.mem_map.mp hv
      obtain ⟨u', -, rfl⟩ := List.mem_map.mp hw
      exact .rel hlt

theorem mem_visits_iff : (path, n) ∈ e.visits ↔ e.HasPart path n := by
  induction e using visits.induct generalizing path with
  | case1 e ih =>
    rw [visits_eq_cons, List.mem_cons, List.mem_flatMap]
    cases path with
    | nil => simp [hasPart_nil_iff]
    | cons i path =>
      rw [hasPart_cons_iff]
      constructor
      · rintro (h | ⟨⟨c, j⟩, hc, hmem⟩)
        · cases h
        · obtain ⟨⟨path', n'⟩, hv, heq⟩ := List.mem_map.mp hmem
          cases heq
          exact ⟨c, List.mem_zipIdx_iff_getElem?.mp hc, (ih c j hc).mp hv⟩
      · rintro ⟨c, hchild, hpart⟩
        have hc : (c, i) ∈ e.children.zipIdx := List.mem_zipIdx_iff_getElem?.mpr hchild
        exact .inr ⟨(c, i), hc, List.mem_map.mpr ⟨(path, n), (ih c i hc).mpr hpart, rfl⟩⟩

/-- The walk is the recursive one: an expression comes first, then the walks of the parts directly below it, in their
order.  Each part is visited once for every path that leads to it, in the order of the paths, and nothing else is. -/
theorem walk_preorder (e : Expression σ) :
    e.walk = e :: e.children.flatMap walk ∧
    ∃ visits : List (List Nat × Expression σ), e.walk = visits.map Prod.snd ∧
      (visits.Pairwise fun v w => List.Lex (· < ·) v.1 w.1) ∧ ∀ path n, (path, n) ∈ visits ↔ e.HasPart path n := by
  have hvisits : ∀ path n, (path, n) ∈ e.visits ↔ e.HasPart path n := fun _ _ => mem_visits_iff
  exact ⟨walk_eq_cons e, e.visits, (map_snd_visits e).symm, pairwise_visits e, hvisits⟩

/-- Here the annotations number the parts as they are visited. -/
example : (combine .disj [.sequence [.classRef "a" 2, .classRef "a" 3] 1, .classRef "a" 4] 0).walk.map span =
    [0, 1, 2, 3, 4] := by cbv

end Expression
end BrailleTable
