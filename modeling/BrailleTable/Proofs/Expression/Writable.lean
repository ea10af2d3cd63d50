/-
Trees that can be written.

`Writable P X depth e` says that a tree can be written where an `X` stands, with parentheses nested at most `depth`
deep, if operands that satisfy `P` can be written.  Parentheses are written where a tree binds less tightly than `X`, and
only there, so a tree that stands in parentheses or without them in its line needs no more of them when it is written.
-/
import BrailleTable.Proofs.Expression.Operands

namespace BrailleTable
namespace Expression

/-- How tightly the trees bind that stand for a symbol without parentheses.  Trees that bind exactly this tightly are
never written there, because sequences and chains are flat. -/
def Symbol.rank : Symbol → Nat
  | .atom => 5
  | .negation => 3
  | .sequence => 2
  | .conjunction => 1
  | .disjunction => 0

inductive Writable (P : Expression Span → Prop) : Symbol → Nat → Expression Span → Prop
  | operand {X : Symbol} {n : Nat} {e : Expression Span} : P e → e.precedence = 5 → Writable P X n e
  | word {X : Symbol} {n : Nat} {v : Text} {s s' : Span} :
      Writable P X n (.literal (.value (.string v s)) s')
  | compare {X : Symbol} {n : Nat} {op : Comparison} {a b : Expression Span} {s : Span} :
      op ∈ Comparison.all → P a → P b → Writable P X n (.compare op a b s)
  | group {X : Symbol} {n : Nat} {e : Expression Span} :
      e.precedence < X.rank → Writable P .disjunction n e → Writable P X (n + 1) e
  | neg {X : Symbol} {n : Nat} {e : Expression Span} {s : Span} :
      X.rank < 4 → Writable P .atom n e → Writable P X n (.combine .neg [e] s)
  | sequence {X : Symbol} {n : Nat} {es : List (Expression Span)} {s : Span} :
      X.rank < 3 → 2 ≤ es.length → (∀ e ∈ es, Writable P .negation n e) →
      Writable P X n (.sequence es s)
  | conj {X : Symbol} {n : Nat} {es : List (Expression Span)} {s : Span} :
      X.rank < 2 → 2 ≤ es.length → (∀ e ∈ es, Writable P .sequence n e) →
      Writable P X n (.combine .conj es s)
  | disj {X : Symbol} {n : Nat} {es : List (Expression Span)} {s : Span} :
      X.rank < 1 → 2 ≤ es.length → (∀ e ∈ es, Writable P .conjunction n e) →
      Writable P X n (.combine .disj es s)

variable {line : Text} {P : Expression Span → Prop} {X Y : Symbol} {n m : Nat} {e : Expression Span}
  {es : List (Expression Span)}

theorem IsOperand.precedence_eq (h : IsOperand line e) : e.precedence = 5 := by
  cases h <;> rfl

theorem Operand.precedence_eq {d : Dialect} {t : Token} (h : Operand d t e) : e.precedence = 5 := by
  cases h <;> rfl

namespace Writable

theorem mono (h : Writable P X n e) (hle : n ≤ m) : Writable P X m e := by
  induction h generalizing m with
  | operand ha hprec => exact .operand ha hprec
  | word => exact .word
  | compare hop ha hb => exact .compare hop ha hb
  | group hlt _ ih =>
    obtain ⟨k, rfl⟩ : ∃ k, m = k + 1 := ⟨m - 1, by omega⟩
    exact .group hlt (ih (by omega))
  | neg hrank _ ih => exact .neg hrank (ih hle)
  | sequence hrank hlength _ ih => exact .sequence hrank hlength fun e he => ih e he hle
  | conj hrank hlength _ ih => exact .conj hrank hlength fun e he => ih e he hle
  | disj hrank hlength _ ih => exact .disj hrank hlength fun e he => ih e he hle

/-- A tree that binds tightly enough is written without parentheses. -/
theorem of_disjunction (h : Writable P .disjunction n e)
    (hrank : X.rank < e.precedence ∨ e.precedence = 5) : Writable P X n e := by
  cases h with
  | operand ha hprec => exact .operand ha hprec
  | word => exact .word
  | compare hop ha hb => exact .compare hop ha hb
  | group hlt _ => exact absurd hlt (Nat.not_lt_zero _)
  | neg _ he =>
    have hprec : X.rank < 4 ∨ 4 = 5 := hrank
    exact .neg (by omega) he
  | sequence _ hlength hes =>
    have hprec : X.rank < 3 ∨ 3 = 5 := hrank
    exact .sequence (by omega) hlength hes
  | conj _ hlength hes =>
    have hprec : X.rank < 2 ∨ 2 = 5 := hrank
    exact .conj (by omega) hlength hes
  | disj _ hlength hes =>
    have hprec : X.rank < 1 ∨ 1 = 5 := hrank
    exact .disj (by omega) hlength hes

/-- Where less is asked for, a tree can be written as well. -/
theorem weaken (h : Writable P X n e) (hle : Y.rank ≤ X.rank) (hne : e.precedence ≠ Y.rank) :
    Writable P Y n e := by
  cases h with
  | operand ha hprec => exact .operand ha hprec
  | word => exact .word
  | compare hop ha hb => exact .compare hop ha hb
  | @group _ k _ hlt he =>
    by_cases hprec : e.precedence < Y.rank
    · exact .group hprec he
    · exact (he.of_disjunction (.inl (by omega))).mono (Nat.le_succ k)
  | neg hrank he => exact .neg (by omega) he
  | sequence hrank hlength hes => exact .sequence (by omega) hlength hes
  | conj hrank hlength hes => exact .conj (by omega) hlength hes
  | disj hrank hlength hes => exact .disj (by omega) hlength hes

theorem toDisjunction (h : Writable P X n e) : Writable P .disjunction n e := by
  refine h.weaken (Nat.zero_le _) ?_
  have hpos : 0 < e.precedence := by
    unfold precedence
    split <;> decide
  exact Nat.ne_of_gt hpos

theorem toAtom (h : Writable P .disjunction n e) : Writable P .atom (n + 1) e := by
  by_cases hlt : e.precedence < 5
  · exact .group hlt h
  · have hle : e.precedence ≤ 5 := by
      unfold precedence
      split <;> decide
    exact (h.of_disjunction (.inr (by omega))).mono (Nat.le_succ n)

/-- Nothing that binds exactly as tightly as an `X` is written where an `X` stands. -/
theorem precedence_ne (h : Writable P X n e) (hrank : X.rank ≤ 3) : e.precedence ≠ X.rank := by
  cases h with
  | operand _ hprec => omega
  | word => exact Nat.ne_of_gt (Nat.lt_of_le_of_lt hrank (show 3 < 5 by decide))
  | compare _ _ _ => exact Nat.ne_of_gt (Nat.lt_of_le_of_lt hrank (show 3 < 5 by decide))
  | group hlt _ => exact Nat.ne_of_lt hlt
  | neg hlt _ => exact Nat.ne_of_gt hlt
  | sequence hlt _ _ => exact Nat.ne_of_gt hlt
  | conj hlt _ _ => exact Nat.ne_of_gt hlt
  | disj hlt _ _ => exact Nat.ne_of_gt hlt

theorem items {s : Span} (h : Writable P X n (.sequence es s)) :
    2 ≤ es.length ∧ ∀ e ∈ es, Writable P .negation n e := by
  cases h.toDisjunction with
  | operand _ hprec => cases hprec
  | group hlt _ => exact absurd hlt (Nat.not_lt_zero _)
  | sequence _ hlength hes => exact ⟨hlength, hes⟩

theorem conjuncts {s : Span} (h : Writable P X n (.combine .conj es s)) :
    2 ≤ es.length ∧ ∀ e ∈ es, Writable P .sequence n e := by
  cases h.toDisjunction with
  | operand _ hprec => cases hprec
  | group hlt _ => exact absurd hlt (Nat.not_lt_zero _)
  | conj _ hlength hes => exact ⟨hlength, hes⟩

theorem disjuncts {s : Span} (h : Writable P X n (.combine .disj es s)) :
    2 ≤ es.length ∧ ∀ e ∈ es, Writable P .conjunction n e := by
  cases h.toDisjunction with
  | operand _ hprec => cases hprec
  | group hlt _ => exact absurd hlt (Nat.not_lt_zero _)
  | disj _ hlength hes => exact ⟨hlength, hes⟩

end Writable

/-! ## What is read -/

/-- Trees that can all be written where an `X` stands, at least one of them. -/
structure AllWritable (P : Expression Span → Prop) (X : Symbol) (n : Nat) (es : List (Expression Span)) : Prop where
  ne_nil : es ≠ []
  writable : ∀ e ∈ es, Writable P X n e

theorem AllWritable.of_two_le (h : 2 ≤ es.length ∧ ∀ e ∈ es, Writable P X n e) :
    AllWritable P X n es :=
  ⟨List.ne_nil_of_length_pos (by omega), h.2⟩

theorem AllWritable.singleton (h : Writable P X n e) : AllWritable P X n [e] :=
  ⟨List.cons_ne_nil _ _, fun _ ha => List.mem_singleton.mp ha ▸ h⟩

theorem AllWritable.append {fs : List (Expression Span)} (h : AllWritable P X n es)
    (h' : AllWritable P X n fs) : AllWritable P X n (es ++ fs) := by
  refine ⟨List.append_ne_nil_of_left_ne_nil h.ne_nil fs, fun e he => ?_⟩
  rcases List.mem_append.mp he with he | he
  · exact h.writable e he
  · exact h'.writable e he

theorem AllWritable.singleton_or_two_le (h : AllWritable P X n es) :
    (∃ e, es = [e] ∧ Writable P X n e) ∨ 2 ≤ es.length := by
  obtain ⟨hne, hes⟩ := h
  match es with
  | [] => exact absurd rfl hne
  | [e] => exact .inl ⟨e, rfl, hes e (List.mem_singleton_self e)⟩
  | a :: b :: rest => exact .inr (Nat.le_add_left 2 rest.length)

theorem exists_ofItems_eq (h : 2 ≤ es.length) : ∃ s, ofItems es = .sequence es s := by
  match es with
  | [] => exact absurd h (Nat.not_succ_le_zero 1)
  | [a] => exact absurd h (Nat.not_succ_le_self 1)
  | a :: b :: rest => exact ⟨_, rfl⟩

theorem exists_ofOperands_eq (op : Connective) (h : 2 ≤ es.length) : ∃ s, ofOperands op es = .combine op es s := by
  match es with
  | [] => exact absurd h (Nat.not_succ_le_zero 1)
  | [a] => exact absurd h (Nat.not_succ_le_self 1)
  | a :: b :: rest => exact ⟨_, rfl⟩

theorem sequenceItems_eq_singleton (h : e.precedence ≠ 3) : sequenceItems e = [e] := by
  cases e with
  | sequence items s => exact absurd rfl h
  | _ => rfl

theorem chainOperands_conj_eq_singleton (h : e.precedence ≠ 2) : chainOperands .conj e = [e] := by
  cases e with
  | combine op operands s =>
    cases op with
    | conj => exact absurd rfl h
    | _ => rfl
  | _ => rfl

theorem chainOperands_disj_eq_singleton (h : e.precedence ≠ 1) : chainOperands .disj e = [e] := by
  cases e with
  | combine op operands s =>
    cases op with
    | disj => exact absurd rfl h
    | _ => rfl
  | _ => rfl

/-- What an atom contributes to a sequence. -/
theorem Writable.sequenceItems (h : Writable P X n e) (hrank : 3 ≤ X.rank) :
    AllWritable P .negation n (sequenceItems e) := by
  by_cases hprec : e.precedence = 3
  · cases e with
    | sequence items s => exact .of_two_le h.items
    | combine op operands s => cases op <;> cases hprec
    | _ => cases hprec
  · rw [sequenceItems_eq_singleton hprec]
    exact .singleton (h.weaken hrank hprec)

theorem Writable.chainOperands_conj (h : Writable P X n e) (hrank : 2 ≤ X.rank) :
    AllWritable P .sequence n (chainOperands .conj e) := by
  by_cases hprec : e.precedence = 2
  · cases e with
    | combine op operands s =>
      cases op with
      | conj => exact .of_two_le h.conjuncts
      | _ => cases hprec
    | _ => cases hprec
  · rw [chainOperands_conj_eq_singleton hprec]
    exact .singleton (h.weaken hrank hprec)

theorem Writable.chainOperands_disj (h : Writable P X n e) (hrank : 1 ≤ X.rank) :
    AllWritable P .conjunction n (chainOperands .disj e) := by
  by_cases hprec : e.precedence = 1
  · cases e with
    | combine op operands s =>
      cases op with
      | disj => exact .of_two_le h.disjuncts
      | _ => cases hprec
    | _ => cases hprec
  · rw [chainOperands_disj_eq_singleton hprec]
    exact .singleton (h.weaken hrank hprec)

/-- What a sequence contributes to a conjunction. -/
theorem AllWritable.chainOperands_ofItems (h : AllWritable P .negation n es) :
    AllWritable P .sequence n (chainOperands .conj (ofItems es)) := by
  rcases h.singleton_or_two_le with ⟨e, rfl, he⟩ | hlength
  · exact he.chainOperands_conj (by decide)
  · obtain ⟨s, heq⟩ := exists_ofItems_eq hlength
    rw [heq]
    exact .singleton (.sequence (by decide) hlength h.writable)

/-- What a conjunction contributes to a disjunction. -/
theorem AllWritable.chainOperands_ofOperands (h : AllWritable P .sequence n es) :
    AllWritable P .conjunction n (chainOperands .disj (ofOperands .conj es)) := by
  rcases h.singleton_or_two_le with ⟨e, rfl, he⟩ | hlength
  · exact he.chainOperands_disj (by decide)
  · obtain ⟨s, heq⟩ := exists_ofOperands_eq .conj hlength
    rw [heq]
    exact .singleton (.conj (by decide) hlength h.writable)

theorem AllWritable.ofOperands (h : AllWritable P .conjunction n es) :
    Writable P .disjunction n (ofOperands .disj es) := by
  rcases h.singleton_or_two_le with ⟨e, rfl, he⟩ | hlength
  · exact he.toDisjunction
  · obtain ⟨s, heq⟩ := exists_ofOperands_eq .disj hlength
    rw [heq]
    exact .disj (by decide) hlength h.writable

/-- What the trees satisfy that a symbol contributes to what it stands in. -/
def Contributes (P : Expression Span → Prop) : Symbol → Nat → List (Expression Span) → Prop
  | .atom, n, es => ∀ e ∈ es, Writable P .atom n e
  | .negation, n, es => ∀ e ∈ es, AllWritable P .negation n (sequenceItems e)
  | .sequence, n, es => AllWritable P .negation n es
  | .conjunction, n, es => AllWritable P .sequence n es
  | .disjunction, n, es => AllWritable P .conjunction n es

theorem mem_all_of_ofText? {text : Text} {op : Comparison} (h : Comparison.ofText? text = some op) :
    op ∈ Comparison.all :=
  List.mem_of_find?_eq_some h

/-- Trees that were read can be written, with no more parentheses than were there. -/
theorem Derives.contributes {word : Token → Prop} {d : Dialect} {ts : List Token} (h : Derives word d X n ts es)
    (hts : ∀ t ∈ ts, ∀ a, Operand d t a → P a) : Contributes P X n es := by
  induction h with
  | @operand depth t e hoperand =>
    intro a ha
    rw [List.mem_singleton.mp ha]
    exact .operand (hts t List.mem_cons_self e hoperand) hoperand.precedence_eq
  | @word depth t v _ hread =>
    obtain ⟨w, rfl, -⟩ := Value.exists_of_readCharacters hread
    intro a ha
    rw [List.mem_singleton.mp ha]
    exact .word
  | @comparison depth l m r a b op hl _ hop hr =>
    intro c hc
    rw [List.mem_singleton.mp hc]
    exact .compare (mem_all_of_ofText? hop) (hts l (by simp) a hl) (hts r (by simp) b hr)
  | group _ _ _ ih =>
    have hes := ih fun t ht => hts t (by simp [ht])
    intro a ha
    rw [List.mem_singleton.mp ha]
    exact (AllWritable.ofOperands hes).toAtom
  | plain _ ih =>
    intro a ha
    exact (ih hts a ha).sequenceItems (by decide)
  | @negated depth k ts e _ _ ih =>
    have he := ih (fun t ht => hts t (List.mem_cons_of_mem k ht)) e (List.mem_singleton_self e)
    intro a ha
    rw [List.mem_singleton.mp ha]
    exact .singleton (.neg (by decide) he)
  | @single depth ts e _ ih => exact ih hts e (List.mem_singleton_self e)
  | @juxtaposed depth ts us e es _ _ ihe ihes =>
    have he := ihe (fun t ht => hts t (List.mem_append_left us ht)) e (List.mem_singleton_self e)
    exact AllWritable.append he (ihes fun t ht => hts t (List.mem_append_right ts ht))
  | sequence _ ih => exact AllWritable.chainOperands_ofItems (ih hts)
  | @conj depth a ts us es fs _ _ _ ihes ihfs =>
    have hes := ihes fun t ht => hts t (List.mem_append_left _ ht)
    have hfs := ihfs fun t ht => hts t (List.mem_append_right ts (List.mem_cons_of_mem a ht))
    exact (AllWritable.chainOperands_ofItems hes).append hfs
  | conjunction _ ih => exact AllWritable.chainOperands_ofOperands (ih hts)
  | @disj depth a ts us es fs _ _ _ ihes ihfs =>
    have hes := ihes fun t ht => hts t (List.mem_append_left _ ht)
    have hfs := ihfs fun t ht => hts t (List.mem_append_right ts (List.mem_cons_of_mem a ht))
    exact (AllWritable.chainOperands_ofOperands hes).append hfs

/-! ## Whole expressions -/

/-- A step that can be written. -/
inductive WritableStep (line : Text) : Expression Span → Prop
  | mk {name : Text} {operands : List (Expression Span)} {s : Span} :
      Value.IsName name → TokenKind.ofText name = .word → (∀ c ∈ name, c.isBlank = false) →
      (∀ e ∈ operands, IsOperand line e) → WritableStep line (.step name operands s)

/-- A whole expression that can be written. -/
inductive WritableBody (line : Text) : Expression Span → Prop
  | mk {test : Expression Span} {actions : List (Expression Span)} {s : Span} :
      Writable (IsOperand line) .disjunction Dialect.standard.maxDepth test → actions ≠ [] →
      (∀ e ∈ actions, WritableStep line e) → WritableBody line (.body test actions s)

theorem Step.writableStep {line : LogicalLine} {ts : List Token} (h : Step .standard ts e)
    (hts : ∀ t ∈ ts, t.CutFrom line) : WritableStep line.text e := by
  cases h with
  | @mk t name us operands hname hoperands =>
    obtain ⟨hkind, rfl, hname⟩ := Value.nameOf_eq_ok_iff.mp hname
    obtain ⟨hof, -, hblank⟩ := (hts t List.mem_cons_self).plain (by rw [hkind]; decide)
    refine .mk hname (hof.symm.trans hkind) hblank ?_
    have hus : ∀ u ∈ us, u.CutFrom line := fun u hu => hts u (List.mem_cons_of_mem t hu)
    clear hts
    induction hoperands with
    | nil => exact fun e he => absurd he List.not_mem_nil
    | @cons u e us operands hu _ ih =>
      intro a ha
      rcases List.mem_cons.mp ha with rfl | ha
      · exact hu.isOperand (hus u List.mem_cons_self)
      · exact ih (fun v hv => hus v (List.mem_cons_of_mem u hv)) a ha

theorem Body.writableBody {word : Token → Prop} {line : LogicalLine} {ts : List Token}
    (h : Body word .standard ts e) (hts : ∀ t ∈ ts, t.CutFrom line) : WritableBody line.text e := by
  cases h with
  | @mk t a us es actions ws _ htest _ hne hsteps =>
    have hus : ∀ u ∈ us, u.CutFrom line := fun u hu => hts u (by simp [hu])
    have hws : ∀ w ∈ ws, ∀ u ∈ w, u.CutFrom line := fun w hw u hu =>
      hts u (List.mem_cons_of_mem t (List.mem_append_right us
        (List.mem_cons_of_mem a (List.mem_flatten_of_mem hw hu))))
    have htest' : Contributes (IsOperand line.text) .disjunction _ es :=
      htest.contributes fun u hu a ha => ha.isOperand (hus u hu)
    refine .mk (AllWritable.ofOperands htest') ?_ ?_
    · intro hnil
      rw [hnil] at hsteps
      cases hsteps
      exact hne rfl
    · clear hne hts
      induction hsteps with
      | nil => exact fun e he => absurd he List.not_mem_nil
      | @cons w e ws actions hw _ ih =>
        intro b hb
        rcases List.mem_cons.mp hb with rfl | hb
        · exact hw.writableStep (hws w List.mem_cons_self)
        · exact ih (fun v hv => hws v (List.mem_cons_of_mem w hv)) b hb

end Expression
end BrailleTable
