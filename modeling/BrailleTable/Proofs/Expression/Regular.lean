/-
The form of the trees that are read.

Whatever the dialect, chains and sequences come out flat and with at least two members, comparisons are between operands,
and literals hold what a token can stand for.  Such a tree can always be written, and the parentheses that writing puts
around its parts are nested no deeper than those that it was read from.
-/
import BrailleTable.Proofs.Expression.Canonical
import BrailleTable.Proofs.Expression.Soundness
import BrailleTable.Proofs.Expression.Walk

namespace BrailleTable

/-- The values that a literal of an expression may hold. -/
def Value.IsLiteral {σ : Type} : Value σ → Prop
  | .string _ _ | .number _ _ | .dots _ _ => True
  | .character _ _ | .charClass _ _ | .name _ _ => False

namespace Expression

section

variable {σ : Type}

/-- An operand of a comparison or a step: a class reference, or a literal. -/
inductive IsTerm : Expression σ → Prop
  | classRef {name : Text} {s : σ} : IsTerm (.classRef name s)
  | literal {v : Value σ} {s : σ} : v.IsLiteral → IsTerm (.literal (.value v) s)

/-- What each part of a tree that is read looks like. -/
def IsRegular : Expression σ → Prop
  | .value _ => False
  | .literal content s => IsTerm (.literal content s)
  | .classRef _ _ => True
  | .compare op left right _ => op ∈ Comparison.all ∧ left.IsTerm ∧ right.IsTerm
  | .combine op operands _ =>
    (op = .conj ∨ op = .disj) ∧ 2 ≤ operands.length ∧ (∀ fs s, .combine op fs s ∉ operands) ∨
      op = .neg ∧ operands.length = 1
  | .sequence items _ => 2 ≤ items.length ∧ ∀ fs s, .sequence fs s ∉ items
  | .step _ operands _ => ∀ e ∈ operands, e.IsTerm
  | .body _ actions _ => actions ≠ []

/-! ## The parentheses of a written tree -/

mutual
/-- Writes an expression as `write` does, and counts how deep the parentheses are nested that it takes. -/
def writeNested (d : Dialect) : Expression σ → Except PrintFault (Text × Nat)
  | .combine .neg (e :: _) _ => do
    let (text, n) ← writeNested d e
    return ("not " ++ parenthesize 5 e text, n + parentheses 5 e)
  | .combine .conj operands _ => do
    let (texts, n) ← writeAllNested d 2 operands
    return (Text.join " and " texts, n)
  | .combine .disj operands _ => do
    let (texts, n) ← writeAllNested d 1 operands
    return (Text.join " or " texts, n)
  | .sequence items _ => do
    let (texts, n) ← writeAllNested d 3 items
    return (Text.join " " texts, n)
  | .body test actions _ => do
    let (steps, n) ← writeAllNested d 0 actions
    let (text, m) ← writeNested d test
    return (d.testKeyword ++ " " ++ text ++ " " ++ d.actionKeyword ++ " " ++ Text.join " " steps, max n m)
  | e => (write d e).map (·, 0)

def writeAllNested (d : Dialect) (need : Nat) : List (Expression σ) → Except PrintFault (List Text × Nat)
  | [] => .ok ([], 0)
  | e :: rest => do
    let (text, n) ← writeNested d e
    let (texts, m) ← writeAllNested d need rest
    return (parenthesize need e text :: texts, max (n + parentheses need e) m)
end

theorem map_fst_unnested (x : Except PrintFault Text) : (x.map fun text => (text, 0)).map Prod.fst = x := by
  cases x <;> rfl

mutual
/-- Counting parentheses changes nothing in what is written. -/
theorem map_fst_writeNested (d : Dialect) : (e : Expression σ) → (writeNested d e).map Prod.fst = write d e
  | .combine .neg (e :: _) _ => by
    rw [writeNested, write, ← map_fst_writeNested d e]
    cases writeNested d e <;> rfl
  | .combine .conj operands _ => by
    rw [writeNested, write, ← map_fst_writeAllNested d 2 operands]
    cases writeAllNested d 2 operands <;> rfl
  | .combine .disj operands _ => by
    rw [writeNested, write, ← map_fst_writeAllNested d 1 operands]
    cases writeAllNested d 1 operands <;> rfl
  | .sequence items _ => by
    rw [writeNested, write, ← map_fst_writeAllNested d 3 items]
    cases writeAllNested d 3 items <;> rfl
  | .body test actions _ => by
    rw [writeNested, write, ← map_fst_writeAllNested d 0 actions, ← map_fst_writeNested d test]
    cases writeAllNested d 0 actions <;> cases writeNested d test <;> rfl
  | .combine .neg [] _ => rfl
  | .combine (.other _) _ _ => rfl
  | .value _ => rfl
  | .literal e s => map_fst_unnested (write d (.literal e s))
  | .classRef _ _ => rfl
  | .compare op left right s => map_fst_unnested (write d (.compare op left right s))
  | .step name operands s => map_fst_unnested (write d (.step name operands s))

theorem map_fst_writeAllNested (d : Dialect) (need : Nat) :
    (es : List (Expression σ)) → (writeAllNested d need es).map Prod.fst = writeAll d need es
  | [] => rfl
  | e :: rest => by
    rw [writeAllNested, writeAll, ← map_fst_writeNested d e, ← map_fst_writeAllNested d need rest]
    cases writeNested d e <;> cases writeAllNested d need rest <;> rfl
end

theorem exists_writeAllNested {d : Dialect} {need n : Nat} {es : List (Expression σ)}
    (h : ∀ e ∈ es, ∃ text m, writeNested d e = .ok (text, m) ∧ m + parentheses need e ≤ n) :
    ∃ texts m, writeAllNested d need es = .ok (texts, m) ∧ m ≤ n := by
  induction es with
  | nil => exact ⟨[], 0, rfl, Nat.zero_le n⟩
  | cons e es ih =>
    obtain ⟨text, m, hwrite, hm⟩ := h e List.mem_cons_self
    obtain ⟨texts, k, hrest, hk⟩ := ih fun a ha => h a (List.mem_cons_of_mem e ha)
    refine ⟨parenthesize need e text :: texts, max (m + parentheses need e) k, ?_, Nat.max_le.mpr ⟨hm, hk⟩⟩
    rw [writeAllNested, hwrite, hrest]
    rfl

/-- A chain or a sequence is written without parentheses of its own where its members ask for more than its place does. -/
theorem exists_writeNested_of_members {d : Dialect} {e : Expression σ} {need place n : Nat} {es : List (Expression σ)}
    {separator : Text} (hplace : place ≤ e.precedence)
    (he : writeNested d e = writeAllNested d need es >>= fun x => pure (Text.join separator x.1, x.2))
    (hes : ∀ a ∈ es, ∃ text m, writeNested d a = .ok (text, m) ∧ m + parentheses need a ≤ n) :
    ∃ text m, writeNested d e = .ok (text, m) ∧ m + parentheses place e ≤ n := by
  obtain ⟨texts, m, hwrite, hm⟩ := exists_writeAllNested hes
  have hplain : parentheses place e = 0 := if_neg (Nat.not_lt.mpr hplace)
  refine ⟨Text.join separator texts, m, ?_, by omega⟩
  rw [he, hwrite]
  rfl

namespace IsTerm

variable {e : Expression σ}

theorem exists_writeOperand (h : IsTerm e) (d : Dialect) : ∃ text, writeOperand d e = .ok text := by
  cases h with
  | classRef => exact ⟨_, rfl⟩
  | @literal v s hv =>
    cases v with
    | string | number | dots => exact ⟨_, rfl⟩
    | character | charClass | name => exact absurd hv id

theorem exists_writeNested (h : IsTerm e) (d : Dialect) : ∃ text, writeNested d e = .ok (text, 0) := by
  obtain ⟨text, hwrite⟩ := h.exists_writeOperand d
  refine ⟨text, ?_⟩
  cases h <;> exact congrArg (Except.map fun text => (text, 0)) hwrite

theorem isRegular (h : IsTerm e) : ∀ m ∈ e.walk, m.IsRegular := by
  rw [forall_mem_walk]
  cases h with
  | classRef => exact ⟨trivial, fun c hc => absurd hc List.not_mem_nil⟩
  | literal hv => exact ⟨.literal hv, fun c hc => absurd hc List.not_mem_nil⟩

end IsTerm
end

/-! ## Trees that are read -/

variable {d : Dialect} {X : Symbol} {n : Nat} {ts : List Token} {e : Expression Span} {es : List (Expression Span)}

theorem Operand.isTerm {t : Token} (h : Operand d t e) : e.IsTerm := by
  cases h with
  | classRef => exact .classRef
  | number _ hread =>
    refine .literal ?_
    unfold Value.readNumber at hread
    split at hread
    · cases hread
    · split at hread <;> cases hread
      trivial
  | quoted => exact .literal trivial
  | dots _ _ _ hread =>
    refine .literal ?_
    obtain ⟨_, -, hread⟩ := bind_eq_ok hread
    obtain ⟨cells, -, hread⟩ := bind_eq_ok hread
    cases hread
    trivial

/-- In a tree that can be written, chains and sequences are flat. -/
theorem Writable.isRegular (h : Writable IsTerm X n e) : ∀ m ∈ e.walk, m.IsRegular := by
  induction h with
  | operand ha _ => exact ha.isRegular
  | word => exact IsTerm.isRegular (.literal trivial)
  | @compare X n op a b s hop ha hb =>
    refine forall_mem_walk.mpr ⟨⟨hop, ha, hb⟩, fun c hc => ?_⟩
    rcases List.mem_pair.mp hc with rfl | rfl
    · exact ha.isRegular
    · exact hb.isRegular
  | group _ _ ih => exact ih
  | neg _ _ ih =>
    refine forall_mem_walk.mpr ⟨.inr ⟨rfl, rfl⟩, fun c hc => ?_⟩
    rw [List.mem_singleton.mp hc]
    exact ih
  | sequence _ hlength hes ih =>
    refine forall_mem_walk.mpr ⟨⟨hlength, fun fs s hmem => ?_⟩, ih⟩
    exact (hes _ hmem).precedence_ne (by decide) rfl
  | conj _ hlength hes ih =>
    refine forall_mem_walk.mpr ⟨.inl ⟨.inl rfl, hlength, fun fs s hmem => ?_⟩, ih⟩
    exact (hes _ hmem).precedence_ne (by decide) rfl
  | disj _ hlength hes ih =>
    refine forall_mem_walk.mpr ⟨.inl ⟨.inr rfl, hlength, fun fs s hmem => ?_⟩, ih⟩
    exact (hes _ hmem).precedence_ne (by decide) rfl

/-- A tree that can be written where an `X` stands is written with no more parentheses than are granted there, its own
included. -/
theorem Writable.exists_writeNested (h : Writable IsTerm X n e) (d : Dialect) :
    ∃ text m, writeNested d e = .ok (text, m) ∧ m + parentheses X.rank e ≤ n := by
  have hplain : ∀ {X : Symbol} {e : Expression Span}, X.rank ≤ e.precedence → parentheses X.rank e = 0 := fun hle =>
    if_neg (Nat.not_lt.mpr hle)
  have hrank : ∀ X : Symbol, X.rank ≤ 5 := by
    intro X
    cases X <;> decide
  induction h with
  | @operand X n e ha hprec =>
    obtain ⟨text, hwrite⟩ := ha.exists_writeNested d
    refine ⟨text, 0, hwrite, ?_⟩
    rw [hplain (hprec ▸ hrank X)]
    exact Nat.zero_le n
  | @word X n v s s' =>
    have hterm : IsTerm (.literal (.value (.string v s)) s') := .literal trivial
    obtain ⟨text, hwrite⟩ := hterm.exists_writeNested d
    refine ⟨text, 0, hwrite, ?_⟩
    rw [hplain (hrank X)]
    exact Nat.zero_le n
  | @compare X n op a b s hop ha hb =>
    obtain ⟨left, hleft⟩ := ha.exists_writeOperand d
    obtain ⟨right, hright⟩ := hb.exists_writeOperand d
    have hwrite : write d (.compare op a b s) = .ok (left ++ " " ++ op.label ++ " " ++ right) := by
      rw [write, hleft, hright]
      rfl
    refine ⟨_, 0, congrArg (Except.map fun text => (text, 0)) hwrite, ?_⟩
    rw [hplain (hrank X)]
    exact Nat.zero_le n
  | @group X n e hlt _ ih =>
    obtain ⟨text, m, hwrite, hm⟩ := ih
    refine ⟨text, m, hwrite, ?_⟩
    have hone : parentheses X.rank e = 1 := if_pos hlt
    omega
  | @neg X n e s hlt _ ih =>
    obtain ⟨text, m, hwrite, hm⟩ := ih
    refine ⟨"not " ++ parenthesize 5 e text, m + parentheses 5 e, ?_, ?_⟩
    · rw [writeNested, hwrite]
      rfl
    · rw [hplain (Nat.le_of_lt hlt)]
      exact hm
  | sequence hlt _ _ ih => exact exists_writeNested_of_members (Nat.le_of_lt hlt) rfl ih
  | conj hlt _ _ ih => exact exists_writeNested_of_members (Nat.le_of_lt hlt) rfl ih
  | disj hlt _ _ ih => exact exists_writeNested_of_members (Nat.le_of_lt hlt) rfl ih

theorem Step.exists_operands (h : Step d ts e) :
    ∃ name operands s, e = .step name operands s ∧ ∀ a ∈ operands, a.IsTerm := by
  cases h with
  | @mk t name us operands _ hoperands =>
    refine ⟨name, operands, _, rfl, fun a ha => ?_⟩
    obtain ⟨u, -, hu⟩ := Lexer.exists_of_forall₂ hoperands.flip a ha
    exact hu.isTerm

theorem Step.isRegular (h : Step d ts e) : ∀ m ∈ e.walk, m.IsRegular := by
  obtain ⟨name, operands, s, rfl, hterms⟩ := h.exists_operands
  exact forall_mem_walk.mpr ⟨hterms, fun c hc => (hterms c hc).isRegular⟩

theorem exists_writeOperands_of_isTerm (d : Dialect) (h : ∀ a ∈ es, a.IsTerm) :
    ∃ texts, writeOperands d es = .ok texts := by
  obtain ⟨texts, htexts, -⟩ := exists_mapM_eq_ok (f := writeOperand d) (R := fun _ _ => True) fun a ha => by
    obtain ⟨text, htext⟩ := (h a ha).exists_writeOperand d
    exact ⟨text, htext, trivial⟩
  exact ⟨texts, (writeOperands_eq_mapM d es).trans htexts⟩

theorem Step.exists_writeNested (h : Step d ts e) (d' : Dialect) :
    ∃ text m, writeNested d' e = .ok (text, m) ∧ m + parentheses 0 e ≤ 0 := by
  obtain ⟨name, operands, s, rfl, hterms⟩ := h.exists_operands
  obtain ⟨texts, htexts⟩ := exists_writeOperands_of_isTerm d' hterms
  have hwrite : write d' (.step name operands s) = .ok (Text.join " " (name :: texts)) := by
    rw [write, htexts]
    rfl
  refine ⟨_, 0, congrArg (Except.map fun text => (text, 0)) hwrite, ?_⟩
  have hplain : parentheses 0 (.step name operands s) = 0 := if_neg (Nat.not_lt_zero _)
  omega

/-- What a whole expression was put together from. -/
theorem Body.exists_parts {word : Token → Prop} (h : Body word d ts e) :
    ∃ test actions s, e = .body test actions s ∧ Writable IsTerm .disjunction d.maxDepth test ∧ actions ≠ [] ∧
      ∀ a ∈ actions, ∃ us, Step d us a := by
  cases h with
  | @mk t a us es actions ws _ htest _ hne hsteps =>
    have hes : Contributes IsTerm .disjunction d.maxDepth es := htest.contributes fun _ _ _ hu => hu.isTerm
    refine ⟨ofOperands .disj es, actions, _, rfl, AllWritable.ofOperands hes, fun hnil => ?_, fun b hb => ?_⟩
    · rw [hnil] at hsteps
      cases hsteps
      exact hne rfl
    · obtain ⟨w, -, hw⟩ := Lexer.exists_of_forall₂ hsteps.flip b hb
      exact ⟨w, hw⟩

/-- The form of the trees that are read.  Whatever the dialect and the tokens, an expression that is read is a test with
one or more steps, all its parts are regular, and it can be written, with parentheses nested no deeper than the dialect
allows. -/
theorem isRegular_of_parse {opcode : Text} {c : Cursor} (h : parse d opcode c = .ok e) :
    (∃ test actions s, e = .body test actions s) ∧ (∀ m ∈ e.walk, m.IsRegular) ∧
      ∀ d' : Dialect, ∃ text depth,
        write d' e = .ok text ∧ writeNested d' e = .ok (text, depth) ∧ depth ≤ d.maxDepth := by
  obtain ⟨test, actions, s, rfl, htest, hne, hsteps⟩ := (body_of_parse h).exists_parts
  refine ⟨⟨test, actions, s, rfl⟩, forall_mem_walk.mpr ⟨hne, fun m hm => ?_⟩, fun d' => ?_⟩
  · rcases List.mem_cons.mp hm with rfl | hm
    · exact htest.isRegular
    · obtain ⟨us, hus⟩ := hsteps m hm
      exact hus.isRegular
  · obtain ⟨text, n, hwrite, hn⟩ := htest.exists_writeNested d'
    obtain ⟨texts, m, hactions, hm⟩ : ∃ texts m, writeAllNested d' 0 actions = .ok (texts, m) ∧ m ≤ 0 :=
      exists_writeAllNested fun a ha => by
        obtain ⟨us, hus⟩ := hsteps a ha
        exact hus.exists_writeNested d'
    have hwhole : writeNested d' (.body test actions s) = .ok
        (d'.testKeyword ++ " " ++ text ++ " " ++ d'.actionKeyword ++ " " ++ Text.join " " texts, max m n) := by
      rw [writeNested, hactions, hwrite]
      rfl
    refine ⟨_, max m n, ?_, hwhole, by omega⟩
    rw [← map_fst_writeNested, hwhole]
    rfl

/-- A test with parentheses that it does not need, and some that it does. -/
def nestedLine : LogicalLine := .single "test ((a and b) and not (c or (d e))) actions go _x \"y\"" ⟨1, 1, 0⟩

def nestedTokens : List Token := ((Lexer.basic.tokenize nestedLine).1.toOption.getD []).flatMap Token.splitOperators

/-- Three levels of parentheses are read, in a dialect that allows no more. -/
theorem isRegular_nestedLine :
    ∃ e, parse (Dialect.standard.withDepth 3 (by decide)) "context" ⟨nestedTokens, 0, nestedLine.endSpan⟩ = .ok e ∧
      (∀ m ∈ e.walk, m.IsRegular) ∧ ∃ text depth, writeNested .standard e = .ok (text, depth) ∧ depth ≤ 3 := by
  have hok : (parse (Dialect.standard.withDepth 3 (by decide)) "context"
      ⟨nestedTokens, 0, nestedLine.endSpan⟩).isOk = true := by
    decide +kernel
  obtain ⟨e, he⟩ := exists_of_isOk hok
  obtain ⟨-, hregular, hwritten⟩ := isRegular_of_parse he
  obtain ⟨text, depth, -, hnested, hdepth⟩ := hwritten .standard
  exact ⟨e, he, hregular, text, depth, hnested, hdepth⟩

end Expression
end BrailleTable
