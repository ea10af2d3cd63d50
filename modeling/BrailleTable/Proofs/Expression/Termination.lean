/-
Productions come to an end.

A production that finds something has moved on, so what a loop or another production starts from has fewer tokens left.
Some calls are made where the caller stands, but only of productions of a lower rank: an atom may try a comparison and then
the operand again, and only behind a parenthesis it gets back to the productions that it is a part of.  `Production.cost`
puts the tokens that are left before the rank.  That much of the clock is enough, and with it the programs of
`BrailleTable.Proofs.Expression.Run` come to the outcomes of the productions, with the parentheses open that were open
before.
-/
import BrailleTable.Proofs.Expression.Completeness
import BrailleTable.Proofs.Expression.Run

namespace BrailleTable

namespace Cursor

variable {c c' : Cursor}

/-- A later cursor of the same line, not behind the end of the line. -/
structure Advances (c c' : Cursor) : Prop where
  tokens_eq : c'.tokens = c.tokens
  pos_lt : c.pos < c'.pos
  pos_le : c'.pos ≤ c.tokens.length

theorem Passes.advances {w : List Token} (h : Passes c w c') (hne : w ≠ []) : Advances c c' := by
  have hlength := h.length_rest
  have hpos := h.pos_eq
  have hw : 0 < w.length := List.length_pos_of_ne_nil hne
  rw [rest, List.length_drop] at hlength
  exact ⟨h.tokens_eq, by omega, by omega⟩

theorem Advances.length_rest_lt (h : Advances c c') : c'.rest.length < c.rest.length := by
  have hlt := h.pos_lt
  have hle := h.pos_le
  rw [rest, rest, List.length_drop, List.length_drop, h.tokens_eq]
  omega

theorem length_rest_next (c : Cursor) : c.next.rest.length = c.rest.length - 1 := by
  show (c.tokens.drop (min (c.pos + 1) c.tokens.length)).length = (c.tokens.drop c.pos).length - 1
  rw [List.length_drop, List.length_drop]
  omega

theorem length_rest_pos {t : Token} (h : c.peek? = some t) : 0 < c.rest.length := by
  rw [(Passes.next h).rest_eq]
  exact Nat.succ_pos _

end Cursor

namespace Outcome

variable {α : Type}

def isFound : Outcome α → Bool
  | .found _ _ => true
  | _ => false

theorem exists_of_isFound {o : Outcome α} (h : o.isFound = true) : ∃ a ms, o = .found a ms := by
  cases o with
  | found a ms => exact ⟨a, ms, rfl⟩
  | missed | stuck | refused => cases h

end Outcome

namespace Expression

variable {d : Dialect} {opcode : Text} {stack : List Span} {context : Option Span}

/-! ## Outcomes -/

section

variable (d : Dialect) (opcode : Text)

/-- What a production comes to where `depth` more parentheses may be opened. -/
def Production.outcome (depth : Nat) (context : Option Span) : Production → Cursor → Outcome Parsed
  | .operand => Expression.operand d opcode context
  | .literal => literalAt d opcode context
  | .comparison => Expression.comparison d opcode context
  | .group => groupAt d opcode depth context
  | .atom => Expression.atom d opcode (groupAt d opcode depth context) context
  | .negation => Expression.negation d opcode (groupAt d opcode depth context) context
  | .sequence => sequenceAt d opcode (groupAt d opcode depth context) context
  | .conjunction => chain .conj context (sequenceAt d opcode (groupAt d opcode depth context) context)
  | .disjunction => test d opcode depth context
  | .step => stepAt d opcode context

theorem groupAt_eq (stack : List Span) (context : Option Span) (cur : Cursor) :
    groupAt d opcode (d.maxDepth - stack.length) context cur =
      if d.maxDepth ≤ stack.length then refuseGroup d opcode context cur
      else group (test d opcode (d.maxDepth - (stack.length + 1))) cur := by
  by_cases hfull : d.maxDepth ≤ stack.length
  · rw [if_pos hfull, Nat.sub_eq_zero_of_le hfull]
    rfl
  · rw [if_neg hfull, show d.maxDepth - stack.length = d.maxDepth - (stack.length + 1) + 1 by omega]
    rfl

end

/-! ## Progress -/

theorem Derives.tokens_ne_nil {word : Token → Prop} {X : Symbol} {depth : Nat} {w : List Token}
    {es : List (Expression Span)} (h : Derives word d X depth w es) : w ≠ [] := by
  induction h with
  | operand | word | comparison | group | negated => exact List.cons_ne_nil _ _
  | plain _ ih => exact ih
  | single _ ih => exact ih
  | sequence _ ih => exact ih
  | conjunction _ ih => exact ih
  | juxtaposed _ _ ih => exact List.append_ne_nil_of_left_ne_nil ih _
  | conj _ _ _ ih => exact List.append_ne_nil_of_left_ne_nil ih _
  | disj _ _ _ ih => exact List.append_ne_nil_of_left_ne_nil ih _

/-- Whatever the production finds, it has moved on. -/
def Progresses (production : Cursor → Outcome Parsed) : Prop :=
  ∀ ⦃c : Cursor⦄ ⦃e : Expression Span⦄ ⦃c' : Cursor⦄ ⦃ms : List Miss⦄,
    production c = .found (e, c') ms → c.Advances c'

theorem Finds.progresses {P : List Token → Expression Span → Prop} {production : Cursor → Outcome Parsed}
    (h : Finds P production) (hne : ∀ w e, P w e → w ≠ []) : Progresses production := by
  intro c e c' ms hfound
  obtain ⟨w, hw, hP⟩ := h hfound
  exact hw.advances (hne w e hP)

theorem groupAt_finds (depth : Nat) (context : Option Span) :
    Finds (fun w e => Derives (IsBareWord d) d .atom depth w [e])
      (fun c => if c.isPunctuation "(" then groupAt d opcode depth context c else .missed []) := by
  cases depth with
  | zero =>
    intro c e c' ms h
    beta_reduce at h
    split at h <;> cases h
  | succ depth => exact group_finds fun context => test_finds depth context

theorem groupAt_progresses (depth : Nat) (context : Option Span) : Progresses (groupAt d opcode depth context) := by
  cases depth with
  | zero =>
    intro c e c' ms h
    cases h
  | succ depth =>
    intro c e c' ms h
    obtain ⟨⟨f, rest⟩, ms₁, ms₂, hf, h, -⟩ := Outcome.bind_eq_found.mp h
    dsimp only at h
    split at h
    · rename_i hclose
      cases h
      obtain ⟨k, hk, -⟩ := Cursor.isPunctuation_iff.mp hclose
      obtain ⟨w, hw, es, hes, -⟩ := test_finds depth _ (Outcome.commit_eq_found.mp hf)
      -- Something was read behind the place of the parenthesis, so there is a token in that place.
      have hlt := (hw.advances hes.tokens_ne_nil).length_rest_lt
      rw [Cursor.length_rest_next] at hlt
      cases ht : c.peek? with
      | none =>
        rw [Cursor.peek?_eq_head?, List.head?_eq_none_iff] at ht
        rw [ht] at hlt
        exact absurd hlt (Nat.not_lt_zero _)
      | some t => exact (((Cursor.Passes.next ht).trans hw).trans (.next hk)).advances (List.cons_ne_nil _ _)
    · cases h

theorem stepAt_progresses (context : Option Span) : Progresses (stepAt d opcode context) := by
  intro c e c' ms h
  unfold stepAt at h
  split at h
  · cases h
  · rename_i t ht
    split at h
    · cases h
    · split at h
      · cases h
      · obtain ⟨⟨operands, rest⟩, hoperands, hx⟩ := Outcome.map_eq_found.mp h
        cases hx
        obtain ⟨ws, -, hpass⟩ := many_eq_found (operand_finds context 0) hoperands
        exact ((Cursor.Passes.next ht).trans hpass).advances (List.cons_ne_nil _ _)

theorem Production.progresses (d : Dialect) (opcode : Text) (p : Production) (depth : Nat) (context : Option Span) :
    Progresses (p.outcome d opcode depth context) := by
  have hatom : Finds _ (Expression.atom d opcode (groupAt d opcode depth context) context) :=
    atom_finds context (groupAt_finds depth context)
  have hsequence : Finds _ (sequenceAt d opcode (groupAt d opcode depth context) context) :=
    sequenceAt_finds (negation_finds hatom)
  cases p with
  | operand => exact (operand_finds context 0).progresses fun _ _ h => h.tokens_ne_nil
  | literal => exact (literalAt_finds context 0).progresses fun _ _ h => h.tokens_ne_nil
  | comparison => exact (comparison_finds context 0).progresses fun _ _ h => h.tokens_ne_nil
  | group => exact groupAt_progresses depth context
  | atom => exact hatom.progresses fun _ _ h => h.tokens_ne_nil
  | negation => exact (negation_finds hatom).progresses fun _ _ h => h.tokens_ne_nil
  | sequence =>
    refine hsequence.progresses ?_
    rintro w e ⟨es, hes, -⟩
    exact hes.tokens_ne_nil
  | conjunction =>
    refine (conjunction_finds hsequence).progresses ?_
    rintro w e ⟨es, hes, -⟩
    exact hes.tokens_ne_nil
  | disjunction =>
    refine (test_finds depth context).progresses ?_
    rintro w e ⟨es, hes, -⟩
    exact hes.tokens_ne_nil
  | step => exact stepAt_progresses context

theorem advances_of_keyword {word : Text} {cur c' : Cursor} {ms : List Miss}
    (h : keyword context word cur = .found c' ms) : cur.Advances c' := by
  unfold keyword at h
  split at h
  · rename_i hword
    obtain ⟨t, ht, -⟩ := Cursor.isWord_iff.mp hword
    cases h
    exact (Cursor.Passes.next ht).advances (List.cons_ne_nil _ _)
  · cases h

/-! ## Loops -/

/-- The time that a production needs with this many tokens left.  The productions that are tried where an atom stands, and
those that an atom is a part of, are ranked; a group has at once one token less to deal with. -/
def Production.cost (left : Nat) : Production → Nat
  | .operand => 7 * left
  | .literal | .comparison | .step => 7 * left + 1
  | .atom => 7 * left + 2
  | .negation => 7 * left + 3
  | .sequence => 7 * left + 4
  | .conjunction => 7 * left + 5
  | .disjunction => 7 * left + 6
  | .group => 7 * (left - 1) + 7

namespace Run

variable {clock rank : Nat}

/-- A loop whose item moves on is over when the line is. -/
theorem Settles.many {item : Cursor → Run Parsed} {f : Cursor → Outcome Parsed}
    (hitem : ∀ c, (item c).Settles (7 * c.rest.length + rank < clock) stack (f c)) (hf : Progresses f)
    {rounds limit : Nat} {cur : Cursor} (hlimit : cur.rest.length ≤ limit) :
    (Run.many item rounds cur).Settles (7 * cur.rest.length + rank < clock ∧ cur.rest.length < rounds) stack
      (Expression.many f limit cur) := by
  -- The limit covers the tokens left, so it is never the limit that ends the loop: both loops stop at the same place.
  induction rounds generalizing cur limit with
  | zero => exact .stopped fun h => Nat.not_lt_zero _ h.2
  | succ rounds ih =>
    unfold Run.many
    by_cases hend : cur.atEnd = true
    · have hover : Expression.many f limit cur = .found ([], cur) [] := by
        cases limit with
        | zero => rfl
        | succ limit => exact if_pos hend
      rw [if_pos hend, hover]
      exact .done _
    · obtain ⟨limit, rfl⟩ : ∃ more, limit = more + 1 := by
        refine Nat.exists_eq_succ_of_ne_zero fun hzero => hend (Cursor.atEnd_iff.mpr ?_)
        exact List.eq_nil_of_length_eq_zero (by omega)
      rw [if_neg hend, Expression.many, if_neg hend]
      refine .orElse (.bind ((hitem cur).mono And.left) fun x ms hx => ?_) (.done _)
      obtain ⟨e, rest⟩ := x
      have hlt := (hf hx).length_rest_lt
      exact ((ih (show rest.rest.length ≤ limit by omega)).mono fun h => ⟨by omega, by omega⟩).map _

theorem Settles.links {op : Connective} {link : Cursor → Run Parsed} {f : Cursor → Outcome Parsed}
    (hlink : ∀ c, (link c).Settles (7 * c.rest.length + rank < clock) stack (f c)) (hf : Progresses f)
    {rounds limit : Nat} {cur : Cursor} (hlimit : cur.rest.length ≤ limit) :
    (Run.links op link rounds cur).Settles (7 * cur.rest.length + rank < clock ∧ cur.rest.length < rounds) stack
      (Expression.links op stack.head? f limit cur) := by
  induction rounds generalizing cur limit with
  | zero => exact .stopped fun h => Nat.not_lt_zero _ h.2
  | succ rounds ih =>
    unfold Run.links
    -- The connective counts as well: where one stands, something is left, and the limit allows one more link.
    by_cases hword : cur.isWord op.label = true
    · obtain ⟨t, ht, -⟩ := Cursor.isWord_iff.mp hword
      have hpos := Cursor.length_rest_pos ht
      have hnext := cur.length_rest_next
      obtain ⟨limit, rfl⟩ : ∃ more, limit = more + 1 := Nat.exists_eq_succ_of_ne_zero (by omega)
      rw [if_pos hword, Expression.links, if_pos hword]
      refine .bind ((hlink cur.next).mono fun h => by omega).commit fun x ms hx => ?_
      obtain ⟨e, rest⟩ := x
      have hlt := (hf (Outcome.commit_eq_found.mp hx)).length_rest_lt
      exact ((ih (show rest.rest.length ≤ limit by omega)).mono fun h => ⟨by omega, by omega⟩).map _
    · have hover : Expression.links op stack.head? f limit cur =
          .found ([], cur) [⟨cur, ["'" ++ op.label ++ "'"], stack.head?⟩] := by
        cases limit with
        | zero => rfl
        | succ limit => exact if_neg hword
      rw [if_neg hword, hover]
      exact .done _

theorem Settles.chain {op : Connective} {link : Cursor → Run Parsed} {f : Cursor → Outcome Parsed}
    (hlink : ∀ c, (link c).Settles (7 * c.rest.length + rank < clock) stack (f c)) (hf : Progresses f) (cur : Cursor) :
    (Run.chain op link clock cur).Settles (7 * cur.rest.length + rank < clock) stack
      (Expression.chain op stack.head? f cur) := by
  refine .bind (hlink cur) fun x ms hx => ?_
  obtain ⟨e, rest⟩ := x
  have hlt := (hf hx).length_rest_lt
  have hrest (h : 7 * cur.rest.length + rank < clock) :
      7 * rest.rest.length + rank < clock ∧ rest.rest.length < clock := ⟨by omega, by omega⟩
  exact ((Settles.links hlink hf (Nat.le_refl _)).mono hrest).map _

end Run

/-! ## Productions -/

/-- Calls come to what productions come to, if the clock leaves them enough time. -/
def Timely (d : Dialect) (opcode : Text) (call : Production → Cursor → Run Parsed) (clock : Nat) : Prop :=
  ∀ (p : Production) (cur : Cursor) (stack : List Span), (call p cur).Settles (p.cost cur.rest.length < clock) stack
    (p.outcome d opcode (d.maxDepth - stack.length) stack.head? cur)

namespace Timely

variable {call : Production → Cursor → Run Parsed} {clock : Nat}

theorem comparison (h : Timely d opcode call clock) (cur : Cursor) (stack : List Span) :
    (Production.comparison.act d opcode call clock cur).Settles (7 * cur.rest.length < clock) stack
      (Expression.comparison d opcode stack.head? cur) := by
  refine .bind (h .operand cur stack) fun left ms hleft => ?_
  obtain ⟨e, middle⟩ := left
  have hlt := (Production.operand.progresses d opcode _ _ hleft).length_rest_lt
  have hnext := middle.length_rest_next
  dsimp only
  cases comparisonAt? middle with
  | none => exact .done _
  | some op =>
    have hright (hclock : 7 * cur.rest.length < clock) : 7 * middle.next.rest.length < clock := by omega
    exact ((h .operand middle.next stack).mono hright).commit.map _

theorem group (h : Timely d opcode call clock) (cur : Cursor) (stack : List Span) :
    (Production.group.act d opcode call clock cur).Settles (7 * (cur.rest.length - 1) + 6 < clock) stack
      (groupAt d opcode (d.maxDepth - stack.length) stack.head? cur) := by
  rw [groupAt_eq]
  refine .unlessFull fun _ => .within ?_
  have hnext := cur.length_rest_next
  have hinner (hclock : 7 * (cur.rest.length - 1) + 6 < clock) : 7 * cur.next.rest.length + 6 < clock := by omega
  refine .bind ((h .disjunction cur.next (cur.span :: stack)).mono hinner).commit fun x ms _ => ?_
  exact .ite (fun _ => .done _) fun _ => .done _

theorem atom (h : Timely d opcode call clock) (cur : Cursor) (stack : List Span) :
    (Production.atom.act d opcode call clock cur).Settles (7 * cur.rest.length + 1 < clock) stack
      (Expression.atom d opcode (groupAt d opcode (d.maxDepth - stack.length) stack.head?) stack.head? cur) := by
  -- A group is ranked above an atom, but it deals with one token less than an atom that starts with a parenthesis has.
  refine .ite (fun hopen => ?_) fun _ => .orElse (h .comparison cur stack) ?_
  · obtain ⟨t, ht, -⟩ := Cursor.isPunctuation_iff.mp hopen
    have hpos := Cursor.length_rest_pos ht
    have hgroup (hclock : 7 * cur.rest.length + 1 < clock) : 7 * (cur.rest.length - 1) + 7 < clock := by omega
    exact (h .group cur stack).mono hgroup
  · refine .ite (fun _ => (h .operand cur stack).mono Nat.lt_of_succ_lt) fun _ => ?_
    exact (h .literal cur stack).orElse (.done _)

theorem negation (h : Timely d opcode call clock) (cur : Cursor) (stack : List Span) :
    (Production.negation.act d opcode call clock cur).Settles (7 * cur.rest.length + 2 < clock) stack
      (Expression.negation d opcode (groupAt d opcode (d.maxDepth - stack.length) stack.head?) stack.head? cur) := by
  have hnext := cur.length_rest_next
  have hatom (hclock : 7 * cur.rest.length + 2 < clock) : 7 * cur.next.rest.length + 2 < clock := by omega
  refine .ite (fun _ => ?_) fun _ => (h .atom cur stack).orElse (.done _)
  exact ((h .atom cur.next stack).mono hatom).commit.map _

theorem sequence (h : Timely d opcode call clock) (cur : Cursor) (stack : List Span) :
    (Production.sequence.act d opcode call clock cur).Settles (7 * cur.rest.length + 3 < clock) stack
      (sequenceAt d opcode (groupAt d opcode (d.maxDepth - stack.length) stack.head?) stack.head? cur) := by
  refine .bind (h .negation cur stack) fun x ms hx => ?_
  obtain ⟨e, rest⟩ := x
  have hprogress := Production.negation.progresses d opcode (d.maxDepth - stack.length) stack.head?
  have hlt := (hprogress hx).length_rest_lt
  have hrest (hclock : 7 * cur.rest.length + 3 < clock) :
      7 * rest.rest.length + 3 < clock ∧ rest.rest.length < clock := ⟨by omega, by omega⟩
  exact ((Run.Settles.many (fun c => h .negation c stack) hprogress (Nat.le_refl _)).mono hrest).map _

theorem step (h : Timely d opcode call clock) (cur : Cursor) (stack : List Span) :
    (Production.step.act d opcode call clock cur).Settles (7 * cur.rest.length < clock) stack
      (stepAt d opcode stack.head? cur) := by
  unfold Production.act stepAt
  cases cur.peek? with
  | none => exact .done _
  | some t =>
    refine .ite (fun _ => .done _) fun _ => ?_
    cases Value.nameOf t with
    | error e => exact .done _
    | ok name =>
      have hnext := cur.length_rest_next
      have hprogress := Production.operand.progresses d opcode (d.maxDepth - stack.length) stack.head?
      have hrest (hclock : 7 * cur.rest.length < clock) :
          7 * cur.next.rest.length + 0 < clock ∧ cur.next.rest.length < clock := ⟨by omega, by omega⟩
      exact ((Run.Settles.many (fun c => h .operand c stack) hprogress (Nat.le_refl _)).mono hrest).map _

/-- One tick more is enough for what a production does besides its calls. -/
theorem act (h : Timely d opcode call clock) :
    Timely d opcode (fun p cur => p.act d opcode call clock cur) (clock + 1) := by
  intro p cur stack
  cases p with
  | operand => exact Run.Settles.done fun context => Expression.operand d opcode context cur
  | literal => exact .mono (.orElse (h .operand cur stack) (.done _)) Nat.lt_of_succ_lt_succ
  | comparison => exact (h.comparison cur stack).mono Nat.lt_of_succ_lt_succ
  | group => exact (h.group cur stack).mono Nat.lt_of_succ_lt_succ
  | atom => exact (h.atom cur stack).mono Nat.lt_of_succ_lt_succ
  | negation => exact (h.negation cur stack).mono Nat.lt_of_succ_lt_succ
  | sequence => exact (h.sequence cur stack).mono Nat.lt_of_succ_lt_succ
  | conjunction =>
    have hprogress := Production.sequence.progresses d opcode (d.maxDepth - stack.length) stack.head?
    exact (Run.Settles.chain (fun c => h .sequence c stack) hprogress cur).mono Nat.lt_of_succ_lt_succ
  | disjunction =>
    have hprogress := Production.conjunction.progresses d opcode (d.maxDepth - stack.length) stack.head?
    rw [Production.outcome, test_eq_disjunction]
    exact (Run.Settles.chain (fun c => h .conjunction c stack) hprogress cur).mono Nat.lt_of_succ_lt_succ
  | step => exact (h.step cur stack).mono Nat.lt_of_succ_lt_succ

end Timely

/-- The induction on the clock. -/
theorem timely_run (clock : Nat) : Timely d opcode (Production.run d opcode clock) clock := by
  induction clock with
  | zero => exact fun _ _ _ => .stopped (Nat.not_lt_zero _)
  | succ clock ih => exact ih.act

/-! ## The whole -/

theorem keyword_settles {enough : Prop} (word : Text) (cur : Cursor) (stack : List Span) :
    (runKeyword word cur).Settles enough stack (keyword stack.head? word cur) :=
  .ite (fun _ => .done _) fun _ => .done _

theorem steps_settles (clock : Nat) (cur : Cursor) (stack : List Span) :
    (runSteps d opcode clock cur).Settles (7 * cur.rest.length + 1 < clock) stack (Expression.steps d opcode stack.head? cur) := by
  have hstep : ∀ c : Cursor, (Production.step.run d opcode clock c).Settles (7 * c.rest.length + 1 < clock) stack
      (stepAt d opcode stack.head? c) := fun c => timely_run clock .step c stack
  refine .bind (hstep cur).commit fun first ms hfirst => ?_
  obtain ⟨e, rest⟩ := first
  have hprogress : Progresses (stepAt d opcode stack.head?) := stepAt_progresses _
  have hlt := (hprogress (Outcome.commit_eq_found.mp hfirst)).length_rest_lt
  have hrest (hclock : 7 * cur.rest.length + 1 < clock) :
      7 * rest.rest.length + 1 < clock ∧ rest.rest.length < clock := ⟨by omega, by omega⟩
  refine .bind ((Run.Settles.many hstep hprogress (Nat.le_refl _)).mono hrest) fun _ _ _ => ?_
  exact .ite (fun _ => .done _) fun _ => .done _

/-- A keyword is read before the test and another before the steps, and each leaves a token less. -/
theorem body_settles (clock : Nat) (cur : Cursor) (stack : List Span) :
    (runBody d opcode clock cur).Settles (7 * cur.rest.length < clock) stack
      (bodyWith d opcode (test d opcode (d.maxDepth - stack.length) stack.head?) stack.head? cur) := by
  refine .bind (keyword_settles _ _ _) fun afterTest ms htest => ?_
  have hafterTest := (advances_of_keyword htest).length_rest_lt
  have hdisjunction (hclock : 7 * cur.rest.length < clock) : 7 * afterTest.rest.length + 6 < clock := by omega
  refine .bind ((timely_run clock .disjunction afterTest stack).mono hdisjunction).commit fun inner ms hinner => ?_
  obtain ⟨e, rest⟩ := inner
  have hprogress := Production.disjunction.progresses d opcode (d.maxDepth - stack.length) stack.head?
  have hlt := (hprogress (Outcome.commit_eq_found.mp hinner)).length_rest_lt
  refine .bind (keyword_settles _ _ _) fun afterActions ms hactions => ?_
  have hafterActions := (advances_of_keyword hactions).length_rest_lt
  have hsteps (hclock : 7 * cur.rest.length < clock) : 7 * afterActions.rest.length + 1 < clock := by
    dsimp only at hafterActions
    omega
  exact ((steps_settles clock afterActions stack).mono hsteps).map _

/-- Productions move on: what they find ends behind the place they started from and not behind the end of the line.
Whether they find something or not, the parentheses open in the end are those open at the start.  Hence the program of a
production ends on every list of tokens, in a time that the tokens left to it bound, and so does that of a whole
expression; their outcomes are those of the productions. -/
theorem Production.run_ends (d : Dialect) (opcode : Text) (cur : Cursor) (stack : List Span) :
    (∀ p : Production,
      (∀ clock, p.cost cur.rest.length < clock → (p.run d opcode clock cur stack).isSome) ∧
      ∀ clock o stack', p.run d opcode clock cur stack = some (o, stack') →
        stack' = stack ∧ o = p.outcome d opcode (d.maxDepth - stack.length) stack.head? cur ∧
          ∀ e c' ms, o = .found (e, c') ms →
            c'.tokens = cur.tokens ∧ cur.pos < c'.pos ∧ c'.pos ≤ cur.tokens.length) ∧
    (∀ clock, 7 * cur.rest.length < clock → (runBody d opcode clock cur stack).isSome) ∧
    ∀ clock o stack', runBody d opcode clock cur stack = some (o, stack') →
      stack' = stack ∧ (stack = [] → o = bodyAt d opcode cur) := by
  refine ⟨fun p => ⟨fun clock hclock => ?_, fun clock o stack' hrun => ?_⟩, fun clock hclock => ?_,
    fun clock o stack' hrun => ?_⟩
  · exact (timely_run clock p cur stack).isSome hclock
  · obtain ⟨rfl, rfl⟩ := (timely_run clock p cur stack).eq_of_eq_some hrun
    refine ⟨rfl, rfl, fun e c' ms hfound => ?_⟩
    obtain ⟨htokens, hlt, hle⟩ := p.progresses d opcode _ _ hfound
    exact ⟨htokens, hlt, hle⟩
  · exact (body_settles clock cur stack).isSome hclock
  · obtain ⟨rfl, rfl⟩ := (body_settles clock cur stack).eq_of_eq_some hrun
    refine ⟨rfl, ?_⟩
    rintro rfl
    rfl

/-- Where a parenthesis is opened in the sample. -/
def sampleParen : Cursor := ⟨sampleTokens, 2, sampleLine.endSpan⟩

/-- A parenthesis in a parenthesis, and the sample as a whole. -/
theorem Production.run_ends_sampleParen :
    (∃ e c' ms, Production.group.run .standard "multipart" 100 sampleParen [sampleLine.span 0 4] =
        some (.found (e, c') ms, [sampleLine.span 0 4]) ∧
      c'.tokens = sampleTokens ∧ 2 < c'.pos ∧ c'.pos ≤ sampleTokens.length) ∧
    runBody .standard "multipart" 120 ⟨sampleTokens, 0, sampleLine.endSpan⟩ [] =
      some (bodyAt .standard "multipart" ⟨sampleTokens, 0, sampleLine.endSpan⟩, []) := by
  constructor
  · obtain ⟨hgroup, -⟩ := Production.run_ends .standard "multipart" sampleParen [sampleLine.span 0 4]
    obtain ⟨hends, hspec⟩ := hgroup .group
    obtain ⟨⟨o, stack'⟩, hrun⟩ := Option.isSome_iff_exists.mp (hends 100 (by decide +kernel))
    obtain ⟨rfl, ho, hmoves⟩ := hspec _ _ _ hrun
    have hread : o.isFound = true := by
      rw [ho]
      decide +kernel
    obtain ⟨⟨e, c'⟩, ms, rfl⟩ := Outcome.exists_of_isFound hread
    exact ⟨e, c', ms, hrun, hmoves e c' ms rfl⟩
  · obtain ⟨-, hends, hspec⟩ := Production.run_ends .standard "multipart" ⟨sampleTokens, 0, sampleLine.endSpan⟩ []
    obtain ⟨⟨o, stack'⟩, hrun⟩ := Option.isSome_iff_exists.mp (hends 120 (by decide +kernel))
    obtain ⟨rfl, ho⟩ := hspec _ _ _ hrun
    rw [hrun, ho rfl]

end Expression
end BrailleTable
