/-
What the productions find, the grammar derives.

`Finds P production` says that whatever the production finds was read from tokens of `P`.  Each production
has one lemma, and `parse_sound` puts them together.
-/
import BrailleTable.Proofs.Expression.Grammar
import BrailleTable.Proofs.Expression.Outcome

namespace BrailleTable
namespace Expression

/-- Whatever a production finds, the tokens it passed and the tree it made are related by `P`. -/
def Finds (P : List Token → Expression Span → Prop) (production : Cursor → Outcome Parsed) : Prop :=
  ∀ ⦃c : Cursor⦄ ⦃e : Expression Span⦄ ⦃c' : Cursor⦄ ⦃ms : List Miss⦄,
    production c = .found (e, c') ms → ∃ w, c.Passes w c' ∧ P w e

variable {d : Dialect} {opcode : Text}

/-! ## Operands and words -/

theorem taken_eq_found {context : Option Span} {c : Cursor} {r : Except Failure (Expression Span)}
    {x : Parsed} {ms : List Miss} :
    taken opcode context c r = .found x ms ↔ ∃ e, r = .ok e ∧ x = (e, c.next) ∧ ms = [] := by
  cases r with
  | ok e =>
    simp only [taken, Outcome.found.injEq]
    constructor
    · rintro ⟨rfl, rfl⟩
      exact ⟨e, rfl, rfl, rfl⟩
    · rintro ⟨e', he, rfl, rfl⟩
      cases he
      exact ⟨rfl, rfl⟩
  | error f => simp [taken]

/-- The operand at a cursor is its token. -/
theorem operand_eq_found {context : Option Span} {c : Cursor} {x : Parsed} {ms : List Miss}
    (h : operand d opcode context c = .found x ms) :
    ∃ t e, c.peek? = some t ∧ Operand d t e ∧ x = (e, c.next) := by
  unfold operand at h
  split at h
  · rename_i r hr
    obtain ⟨e, rfl, rfl, -⟩ := taken_eq_found.mp h
    obtain ⟨t, ht, hread⟩ := Option.bind_eq_some_iff.mp hr
    exact ⟨t, e, ht, operandOf?_eq_some_ok_iff.mp hread, rfl⟩
  · cases h

theorem bareWord_eq_found {context : Option Span} {c : Cursor} {x : Parsed} {ms : List Miss}
    (h : bareWord d opcode context c = .found x ms) :
    ∃ t v, c.peek? = some t ∧ IsUnreserved d t ∧ Value.readCharacters t = .ok v ∧
      x = (ofValue t.span v, c.next) := by
  unfold bareWord at h
  split at h
  · cases h
  · rename_i t ht
    split at h
    · cases h
    · rename_i hword
      obtain ⟨e, hread, rfl, -⟩ := taken_eq_found.mp h
      cases hv : Value.readCharacters t with
      | error err => rw [hv] at hread; cases hread
      | ok v =>
        rw [hv] at hread
        cases hread
        refine ⟨t, v, ht, ⟨?_, ?_⟩, hv, rfl⟩
        · by_contra hk
          exact hword (.inl hk)
        · cases hr : isReserved d t.text with
          | false => rfl
          | true => exact absurd (.inr hr) hword

/-- A token at which no operand starts has neither of the signs that operands start with. -/
theorem head?_of_operand_missed {context : Option Span} {c : Cursor} {t : Token} {ms : List Miss}
    (ht : c.peek? = some t) (hword : t.kind = .word)
    (h : operand d opcode context c = .missed ms) :
    t.text.head? ≠ some ('_' : CodePoint) ∧ t.text.head? ≠ some ('@' : CodePoint) := by
  have hnone : operandOf? d t = none := by
    unfold operand at h
    rw [ht] at h
    cases hr : operandOf? d t with
    | none => rfl
    | some r =>
      rw [Option.bind_some, hr] at h
      cases r <;> simp [taken] at h
  unfold operandOf? at hnone
  constructor
  · intro hunder
    rw [if_pos ⟨hword, hunder⟩] at hnone
    cases hnone
  · intro hat
    have hunder : t.text.head? ≠ some ('_' : CodePoint) := by rw [hat]; decide
    rw [if_neg (fun hc => hunder hc.2), if_neg (by rw [hword]; decide),
      if_neg (by rw [hword]; decide), if_pos hat] at hnone
    split at hnone <;> cases hnone

/-! ## Atoms -/

theorem comparisonAt?_eq_some {c : Cursor} {op : Comparison} (h : comparisonAt? c = some op) :
    ∃ m, c.peek? = some m ∧ m.kind = .punctuation ∧ Comparison.ofText? m.text = some op := by
  obtain ⟨m, hm, hop⟩ := Option.bind_eq_some_iff.mp h
  by_cases hk : m.kind = .punctuation
  · rw [if_pos hk] at hop
    exact ⟨m, hm, hk, hop⟩
  · rw [if_neg hk] at hop
    cases hop

theorem comparison_finds (context : Option Span) (depth : Nat) :
    Finds (fun w e => Derives (IsBareWord d) d .atom depth w [e]) (comparison d opcode context) := by
  intro c e c' ms h
  obtain ⟨⟨left, middle⟩, ms₁, ms₂, hleft, h, -⟩ := Outcome.bind_eq_found.mp h
  obtain ⟨t, a, ht, ha, hx⟩ := operand_eq_found hleft
  cases hx
  cases hop : comparisonAt? c.next with
  | none =>
    simp only [hop] at h
    cases h
  | some op =>
    simp only [hop] at h
    obtain ⟨⟨right, rest⟩, hright, hx⟩ := Outcome.map_eq_found.mp h
    obtain ⟨r, b, hr, hb, hx'⟩ := operand_eq_found (Outcome.commit_eq_found.mp hright)
    cases hx
    cases hx'
    obtain ⟨m, hm, hkind, htext⟩ := comparisonAt?_eq_some hop
    exact ⟨[t, m, r], ((Cursor.Passes.next ht).trans (.next hm)).trans (.next hr),
      .comparison ha hkind htext hb⟩

theorem operand_finds (context : Option Span) (depth : Nat) :
    Finds (fun w e => Derives (IsBareWord d) d .atom depth w [e]) (operand d opcode context) := by
  intro c e c' ms h
  obtain ⟨t, a, ht, ha, hx⟩ := operand_eq_found h
  cases hx
  exact ⟨[t], .next ht, .operand ha⟩

theorem literalAt_finds (context : Option Span) (depth : Nat) :
    Finds (fun w e => Derives (IsBareWord d) d .atom depth w [e]) (literalAt d opcode context) := by
  intro c e c' ms h
  rcases Outcome.orElse_eq_found.mp h with h | ⟨ms₁, ms₂, hmiss, h, -⟩
  · exact operand_finds context depth h
  · obtain ⟨t, v, ht, hword, hv, hx⟩ := bareWord_eq_found h
    cases hx
    exact ⟨[t], .next ht, .word ⟨hword, head?_of_operand_missed ht hword.1 hmiss⟩ hv⟩

theorem atom_finds {groupAt : Cursor → Outcome Parsed} (context : Option Span) {depth : Nat}
    (hgroup : Finds (fun w e => Derives (IsBareWord d) d .atom depth w [e])
      (fun c => if c.isPunctuation "(" then groupAt c else .missed [])) :
    Finds (fun w e => Derives (IsBareWord d) d .atom depth w [e])
      (atom d opcode groupAt context) := by
  intro c e c' ms h
  unfold atom at h
  by_cases hopen : c.isPunctuation "(" = true
  · rw [if_pos hopen] at h
    have h' : (if c.isPunctuation "(" then groupAt c else .missed []) = .found (e, c') ms := by
      rw [if_pos hopen]
      exact h
    exact hgroup h'
  · rw [if_neg hopen] at h
    rcases Outcome.orElse_eq_found.mp h with h | ⟨ms₁, ms₂, -, h, -⟩
    · exact comparison_finds context depth h
    · split at h
      · exact operand_finds context depth h
      · exact literalAt_finds context depth (Outcome.orMiss_eq_found.mp h)

theorem negation_finds {groupAt : Cursor → Outcome Parsed} {context : Option Span} {depth : Nat}
    (hatom : Finds (fun w e => Derives (IsBareWord d) d .atom depth w [e])
      (atom d opcode groupAt context)) :
    Finds (fun w e => Derives (IsBareWord d) d .negation depth w [e])
      (negation d opcode groupAt context) := by
  intro c e c' ms h
  unfold negation at h
  by_cases hnot : c.isWord Connective.neg.label = true
  · rw [if_pos hnot] at h
    obtain ⟨⟨f, rest⟩, hf, hx⟩ := Outcome.map_eq_found.mp h
    cases hx
    obtain ⟨n, hn, hkey⟩ := Cursor.isWord_iff.mp hnot
    obtain ⟨w, hw, hderives⟩ := hatom (Outcome.commit_eq_found.mp hf)
    have hspan : c.span = n.span := by
      unfold Cursor.span
      rw [hn]
    rw [hspan]
    exact ⟨n :: w, (Cursor.Passes.next hn).trans hw, .negated hkey hderives⟩
  · rw [if_neg hnot] at h
    obtain ⟨w, hw, hderives⟩ := hatom (Outcome.orMiss_eq_found.mp h)
    exact ⟨w, hw, .plain hderives⟩

/-! ## Repetitions -/

/-- What is found again and again stands one after the other. -/
theorem many_eq_found {P : List Token → Expression Span → Prop} {item : Cursor → Outcome Parsed}
    (hitem : Finds P item) {limit : Nat} {c c' : Cursor} {es : List (Expression Span)}
    {ms : List Miss} (h : many item limit c = .found (es, c') ms) :
    ∃ ws, List.Forall₂ P ws es ∧ c.Passes ws.flatten c' := by
  induction limit generalizing c es ms with
  | zero =>
    cases h
    exact ⟨[], .nil, .refl _⟩
  | succ limit ih =>
    unfold many at h
    split at h
    · cases h
      exact ⟨[], .nil, .refl _⟩
    · rcases Outcome.orElse_eq_found.mp h with h | ⟨ms₁, ms₂, -, h, -⟩
      · obtain ⟨⟨e, rest⟩, ms₁, ms₂, he, hmore, -⟩ := Outcome.bind_eq_found.mp h
        obtain ⟨⟨fs, rest'⟩, hfs, hx⟩ := Outcome.map_eq_found.mp hmore
        cases hx
        obtain ⟨w, hw, hP⟩ := hitem he
        obtain ⟨ws, hws, hpass⟩ := ih hfs
        exact ⟨w :: ws, .cons hP hws, by
          rw [List.flatten_cons]
          exact hw.trans hpass⟩
      · cases h
        exact ⟨[], .nil, .refl _⟩

theorem derives_sequence {depth : Nat} {w : List Token} {e : Expression Span}
    {ws : List (List Token)} {es : List (Expression Span)}
    (hw : Derives (IsBareWord d) d .negation depth w [e])
    (hws : List.Forall₂ (fun w e => Derives (IsBareWord d) d .negation depth w [e]) ws es) :
    Derives (IsBareWord d) d .sequence depth (w ++ ws.flatten)
      ((e :: es).flatMap sequenceItems) := by
  induction hws generalizing w e with
  | nil =>
    rw [List.flatten_nil, List.append_nil, List.flatMap_cons, List.flatMap_nil, List.append_nil]
    exact .single hw
  | cons hv _ ih =>
    rw [List.flatMap_cons, List.flatten_cons]
    exact .juxtaposed hw (ih hv)

theorem sequenceAt_finds {groupAt : Cursor → Outcome Parsed} {context : Option Span} {depth : Nat}
    (hnegation : Finds (fun w e => Derives (IsBareWord d) d .negation depth w [e])
      (negation d opcode groupAt context)) :
    Finds (fun w e => ∃ es, Derives (IsBareWord d) d .sequence depth w es ∧ e = ofItems es)
      (sequenceAt d opcode groupAt context) := by
  intro c e c' ms h
  obtain ⟨⟨first, rest⟩, ms₁, ms₂, hfirst, h, -⟩ := Outcome.bind_eq_found.mp h
  obtain ⟨⟨more, rest'⟩, hmore, hx⟩ := Outcome.map_eq_found.mp h
  cases hx
  obtain ⟨w, hw, hderives⟩ := hnegation hfirst
  obtain ⟨ws, hws, hpass⟩ := many_eq_found hnegation hmore
  exact ⟨w ++ ws.flatten, hw.trans hpass, _, derives_sequence hderives hws, rfl⟩

/-- The rest of a chain.  `Q` relates the tokens of a chain to its operands, and is closed under the two
ways in which chains are built. -/
theorem links_eq_found {P : List Token → Expression Span → Prop}
    {Q : List Token → List (Expression Span) → Prop} {op : Connective} {context : Option Span}
    {link : Cursor → Outcome Parsed} (hlink : Finds P link)
    (hone : ∀ w e, P w e → Q w (chainOperands op e))
    (hcons : ∀ w e a v fs, P w e → a.IsKeyword op.label → Q v fs →
      Q (w ++ a :: v) (chainOperands op e ++ fs))
    {limit : Nat} {c c' : Cursor} {es : List (Expression Span)} {ms : List Miss}
    (h : links op context link limit c = .found (es, c') ms)
    {w : List Token} {e : Expression Span} (hw : P w e) :
    ∃ v, c.Passes v c' ∧ Q (w ++ v) ((e :: es).flatMap (chainOperands op)) := by
  induction limit generalizing c es ms w e with
  | zero =>
    cases h
    refine ⟨[], .refl _, ?_⟩
    rw [List.append_nil, List.flatMap_cons, List.flatMap_nil, List.append_nil]
    exact hone w e hw
  | succ limit ih =>
    unfold links at h
    split at h
    · rename_i hword
      obtain ⟨⟨f, rest⟩, ms₁, ms₂, hf, hmore, -⟩ := Outcome.bind_eq_found.mp h
      obtain ⟨⟨fs, rest'⟩, hfs, hx⟩ := Outcome.map_eq_found.mp hmore
      cases hx
      obtain ⟨a, ha, hkey⟩ := Cursor.isWord_iff.mp hword
      obtain ⟨u, hu, hP⟩ := hlink (Outcome.commit_eq_found.mp hf)
      obtain ⟨v, hv, hQ⟩ := ih hfs hP
      refine ⟨a :: (u ++ v), (Cursor.Passes.next ha).trans (hu.trans hv), ?_⟩
      rw [List.flatMap_cons]
      exact hcons w e a (u ++ v) _ hw hkey hQ
    · cases h
      refine ⟨[], .refl _, ?_⟩
      rw [List.append_nil, List.flatMap_cons, List.flatMap_nil, List.append_nil]
      exact hone w e hw

theorem chain_finds {P : List Token → Expression Span → Prop}
    {Q : List Token → List (Expression Span) → Prop} {op : Connective} {context : Option Span}
    {link : Cursor → Outcome Parsed} (hlink : Finds P link)
    (hone : ∀ w e, P w e → Q w (chainOperands op e))
    (hcons : ∀ w e a v fs, P w e → a.IsKeyword op.label → Q v fs →
      Q (w ++ a :: v) (chainOperands op e ++ fs)) :
    Finds (fun w e => ∃ es, Q w es ∧ e = ofOperands op es) (chain op context link) := by
  intro c e c' ms h
  obtain ⟨⟨first, rest⟩, ms₁, ms₂, hfirst, h, -⟩ := Outcome.bind_eq_found.mp h
  obtain ⟨⟨more, rest'⟩, hmore, hx⟩ := Outcome.map_eq_found.mp h
  cases hx
  obtain ⟨w, hw, hP⟩ := hlink hfirst
  obtain ⟨v, hv, hQ⟩ := links_eq_found hlink hone hcons hmore hP
  exact ⟨w ++ v, hw.trans hv, _, hQ, rfl⟩

theorem conjunction_finds {groupAt : Cursor → Outcome Parsed} {context : Option Span} {depth : Nat}
    (hsequence : Finds (fun w e => ∃ es, Derives (IsBareWord d) d .sequence depth w es ∧ e = ofItems es)
      (sequenceAt d opcode groupAt context)) :
    Finds (fun w e => ∃ es, Derives (IsBareWord d) d .conjunction depth w es ∧ e = ofOperands .conj es)
      (chain .conj context (sequenceAt d opcode groupAt context)) := by
  refine chain_finds hsequence ?_ ?_
  · rintro w e ⟨es, hes, rfl⟩
    exact .sequence hes
  · rintro w e a v fs ⟨es, hes, rfl⟩ ha hfs
    exact .conj hes ha hfs

theorem disjunction_finds {groupAt : Cursor → Outcome Parsed} {context : Option Span} {depth : Nat}
    (hsequence : Finds (fun w e => ∃ es, Derives (IsBareWord d) d .sequence depth w es ∧ e = ofItems es)
      (sequenceAt d opcode groupAt context)) :
    Finds (fun w e => ∃ es, Derives (IsBareWord d) d .disjunction depth w es ∧
        e = ofOperands .disj es)
      (disjunction d opcode groupAt context) := by
  refine chain_finds (conjunction_finds hsequence) ?_ ?_
  · rintro w e ⟨es, hes, rfl⟩
    exact .conjunction hes
  · rintro w e a v fs ⟨es, hes, rfl⟩ ha hfs
    exact .disj hes ha hfs

/-! ## Tests -/

theorem group_finds {inner : Option Span → Cursor → Outcome Parsed} {depth : Nat}
    (hinner : ∀ context, Finds (fun w e => ∃ es, Derives (IsBareWord d) d .disjunction depth w es ∧
      e = ofOperands .disj es) (inner context)) :
    Finds (fun w e => Derives (IsBareWord d) d .atom (depth + 1) w [e])
      (fun c => if c.isPunctuation "(" then group inner c else .missed []) := by
  intro c e c' ms h
  beta_reduce at h
  split at h
  · rename_i hopen
    obtain ⟨⟨f, rest⟩, ms₁, ms₂, hf, h, -⟩ := Outcome.bind_eq_found.mp h
    dsimp only at h
    split at h
    · rename_i hclose
      cases h
      obtain ⟨o, ho, hmark⟩ := Cursor.isPunctuation_iff.mp hopen
      obtain ⟨k, hk, hmark'⟩ := Cursor.isPunctuation_iff.mp hclose
      obtain ⟨w, hw, es, hes, rfl⟩ := hinner _ (Outcome.commit_eq_found.mp hf)
      exact ⟨o :: (w ++ [k]), (Cursor.Passes.next ho).trans (hw.trans (.next hk)),
        .group hmark hes hmark'⟩
    · cases h
  · cases h

theorem test_finds (depth : Nat) (context : Option Span) :
    Finds (fun w e => ∃ es, Derives (IsBareWord d) d .disjunction depth w es ∧
      e = ofOperands .disj es) (test d opcode depth context) := by
  induction depth generalizing context with
  | zero =>
    refine disjunction_finds (sequenceAt_finds (negation_finds (atom_finds context ?_)))
    intro c e c' ms h
    beta_reduce at h
    split at h <;> cases h
  | succ depth ih =>
    exact disjunction_finds (sequenceAt_finds (negation_finds (atom_finds context
      (group_finds fun _ => ih _))))

/-! ## Actions and the whole -/

theorem stepAt_finds : Finds (Step d) (stepAt d opcode none) := by
  intro c e c' ms h
  unfold stepAt at h
  split at h
  · cases h
  · rename_i t ht
    split at h
    · cases h
    · split at h
      · cases h
      · rename_i name hname
        obtain ⟨⟨operands, rest⟩, hoperands, hx⟩ := Outcome.map_eq_found.mp h
        cases hx
        have hfinds : Finds (fun w e => ∃ t, w = [t] ∧ Operand d t e) (operand d opcode none) := by
          intro c e c' ms h
          obtain ⟨t, a, ht, ha, hx⟩ := operand_eq_found h
          cases hx
          exact ⟨[t], .next ht, t, rfl, ha⟩
        obtain ⟨ws, hws, hpass⟩ := many_eq_found hfinds hoperands
        have hflat : List.Forall₂ (Operand d) ws.flatten operands := by
          clear h hoperands hpass
          induction hws with
          | nil => exact .nil
          | cons hw _ ih =>
            obtain ⟨t, rfl, ht⟩ := hw
            exact .cons ht ih
        exact ⟨t :: ws.flatten, (Cursor.Passes.next ht).trans hpass, .mk hname hflat⟩

theorem steps_eq_found {c : Cursor} {es : List (Expression Span)} {ms : List Miss}
    (h : steps d opcode none c = .found es ms) :
    ∃ ws, ws ≠ [] ∧ List.Forall₂ (Step d) ws es ∧ c.rest = ws.flatten := by
  obtain ⟨⟨first, rest⟩, ms₁, ms₂, hfirst, h, -⟩ := Outcome.bind_eq_found.mp h
  obtain ⟨⟨more, rest'⟩, ms₃, ms₄, hmore, h, -⟩ := Outcome.bind_eq_found.mp h
  dsimp only at h
  split at h
  · rename_i hend
    cases h
    obtain ⟨w, hw, hstep⟩ := stepAt_finds (Outcome.commit_eq_found.mp hfirst)
    obtain ⟨ws, hws, hpass⟩ := many_eq_found stepAt_finds hmore
    refine ⟨w :: ws, List.cons_ne_nil w ws, .cons hstep hws, ?_⟩
    rw [(hw.trans hpass).rest_eq, Cursor.atEnd_iff.mp hend, List.append_nil, List.flatten_cons]
  · cases h

theorem keyword_eq_found {word : Text} {c c' : Cursor} {ms : List Miss}
    (h : keyword none word c = .found c' ms) :
    ∃ t, c.peek? = some t ∧ t.IsKeyword word ∧ c' = c.next := by
  unfold keyword at h
  split at h
  · rename_i hword
    obtain ⟨t, ht, hkey⟩ := Cursor.isWord_iff.mp hword
    cases h
    exact ⟨t, ht, hkey, rfl⟩
  · cases h

/-- An expression that is read to the end of the line is an expression of the grammar. -/
theorem body_of_parse {c : Cursor} {e : Expression Span} (h : parse d opcode c = .ok e) :
    Body (IsBareWord d) d c.rest e := by
  unfold parse conclude at h
  cases hb : bodyAt d opcode c with
  | missed ms => rw [hb] at h; cases h
  | stuck ms => rw [hb] at h; cases h
  | refused f => rw [hb] at h; cases h
  | found e' ms =>
    rw [hb] at h
    cases h
    obtain ⟨afterTest, ms₁, ms₂, htest, hb, -⟩ := Outcome.bind_eq_found.mp hb
    obtain ⟨⟨f, rest⟩, ms₃, ms₄, hf, hb, -⟩ := Outcome.bind_eq_found.mp hb
    obtain ⟨afterActions, ms₅, ms₆, hactions, hb, -⟩ := Outcome.bind_eq_found.mp hb
    obtain ⟨actions, hsteps, rfl⟩ := Outcome.map_eq_found.mp hb
    obtain ⟨t, ht, hkey, rfl⟩ := keyword_eq_found htest
    obtain ⟨a, ha, hkey', rfl⟩ := keyword_eq_found hactions
    obtain ⟨w, hw, es, hes, rfl⟩ := test_finds _ _ (Outcome.commit_eq_found.mp hf)
    obtain ⟨ws, hne, hws, hrest⟩ := steps_eq_found hsteps
    have hspan : c.span = t.span := by
      unfold Cursor.span
      rw [ht]
    have hpass := ((Cursor.Passes.next ht).trans hw).trans (.next ha)
    rw [hpass.rest_eq, hrest, hspan]
    simp only [List.append_assoc, List.singleton_append]
    exact .mk hkey hes hkey' hne hws

end Expression
end BrailleTable
