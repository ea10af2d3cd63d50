/-
What the grammar derives, the productions find.

A production stops where the grammar does only if nothing follows that it could go on with, so each lemma
here says which tokens may follow.  After a test these are the closing parenthesis, the connectives and the
keyword of the actions (`Closes`), at none of which another test starts.  Together with soundness this
makes the reader of expressions and the grammar one (`parse_eq_ok_iff`).
-/
import BrailleTable.Proofs.Expression.Soundness
import BrailleTable.Proofs.Result
import BrailleTable.Proofs.Text.Lowercase
import BrailleTable.Token.Lexer

namespace BrailleTable

namespace Dialect

/-- The dialects whose keywords are the standard ones. -/
structure HasStandardKeywords (d : Dialect) : Prop where
  testKeyword : d.testKeyword = Text.ofString "test"
  actionKeyword : d.actionKeyword = Text.ofString "actions"

theorem standard_hasStandardKeywords : Dialect.standard.HasStandardKeywords := ⟨rfl, rfl⟩

theorem HasStandardKeywords.lower_testKeyword {d : Dialect} (h : d.HasStandardKeywords) :
    d.testKeyword.lower = Text.ofString "test" := by
  rw [h.testKeyword]
  exact Text.lower_eq_self (by decide)

theorem HasStandardKeywords.lower_actionKeyword {d : Dialect} (h : d.HasStandardKeywords) :
    d.actionKeyword.lower = Text.ofString "actions" := by
  rw [h.actionKeyword]
  exact Text.lower_eq_self (by decide)

end Dialect

namespace Token

/-- A keyword starts as its lower case does, where lower case changes nothing. -/
theorem IsKeyword.head?_ne {t : Token} {word : Text} {c : CodePoint} (h : t.IsKeyword word)
    (hc : c.isUncased = true) (hword : word.head? ≠ some c) : t.text.head? ≠ some c := by
  intro hhead
  cases htext : t.text with
  | nil => rw [htext] at hhead; cases hhead
  | cons b rest =>
    rw [htext] at hhead
    cases Option.some.inj hhead
    obtain ⟨more, hmore⟩ := Text.lower_cons_of_isUncased rest hc
    apply hword
    rw [← h.2, htext, hmore]
    rfl

end Token

namespace Expression

variable {d : Dialect} {opcode : Text}

/-! ## Tokens that are no operands -/

/-- A token is no operand when it has neither the kind nor the start of one. -/
theorem operandOf?_eq_none_iff {t : Token} :
    operandOf? d t = none ↔
      ¬ (t.kind = .word ∧ t.text.head? = some ('_' : CodePoint)) ∧ t.kind ≠ .number ∧
        t.kind ≠ .quoted ∧ t.text.head? ≠ some ('@' : CodePoint) := by
  unfold operandOf?
  constructor
  · intro h
    split at h
    · cases h
    · rename_i hclass
      split at h
      · cases h
      · rename_i hnumber
        split at h
        · cases h
        · rename_i hquoted
          split at h
          · split at h <;> cases h
          · rename_i hat
            exact ⟨hclass, hnumber, hquoted, hat⟩
  · rintro ⟨hclass, hnumber, hquoted, hat⟩
    rw [if_neg hclass, if_neg hnumber, if_neg hquoted, if_neg hat]

theorem operandOf?_eq_none_of_isMark {t : Token} {text : Text} (h : t.IsMark text)
    (hat : text.head? ≠ some ('@' : CodePoint)) : operandOf? d t = none := by
  rw [operandOf?_eq_none_iff, h.1, h.2]
  exact ⟨by simp, by decide, by decide, hat⟩

theorem operandOf?_eq_none_of_isKeyword {t : Token} {word : Text} (h : t.IsKeyword word)
    (hunder : word.head? ≠ some ('_' : CodePoint)) (hat : word.head? ≠ some ('@' : CodePoint)) :
    operandOf? d t = none := by
  rw [operandOf?_eq_none_iff]
  refine ⟨fun hclass => h.head?_ne (by decide) hunder hclass.2, ?_, ?_, h.head?_ne (by decide) hat⟩
  · rw [h.1]
    decide
  · rw [h.1]
    decide

/-- An operand is none of the words that mean something in a test. -/
theorem Operand.not_isKeyword {t : Token} {e : Expression Span} {word : Text} (h : Operand d t e)
    (hunder : word.head? ≠ some ('_' : CodePoint)) (hat : word.head? ≠ some ('@' : CodePoint)) :
    ¬ t.IsKeyword word := by
  intro hkey
  have hnone := operandOf?_eq_none_of_isKeyword (d := d) hkey hunder hat
  rw [operandOf?_eq_some_ok_iff.mpr h] at hnone
  cases hnone

theorem Operand.not_isMark {t : Token} {e : Expression Span} {text : Text} (h : Operand d t e)
    (hat : text.head? ≠ some ('@' : CodePoint)) : ¬ t.IsMark text := by
  intro hmark
  have hnone := operandOf?_eq_none_of_isMark (d := d) hmark hat
  rw [operandOf?_eq_some_ok_iff.mpr h] at hnone
  cases hnone

/-! ## Attempts at a known token -/

theorem operand_of_some {context : Option Span} {c : Cursor} {t : Token} {e : Expression Span}
    (ht : c.peek? = some t) (h : Operand d t e) :
    operand d opcode context c = .found (e, c.next) [] := by
  unfold operand
  rw [ht, Option.bind_some, operandOf?_eq_some_ok_iff.mpr h]
  rfl

theorem operand_of_none {context : Option Span} {c : Cursor}
    (h : ∀ t, c.peek? = some t → operandOf? d t = none) :
    operand d opcode context c = .missed [⟨c, operandLabels, context⟩] := by
  unfold operand
  cases ht : c.peek? with
  | none => rfl
  | some t => rw [Option.bind_some, h t ht]

theorem bareWord_of_isUnreserved {context : Option Span} {c : Cursor} {t : Token} {v : Value Span}
    (ht : c.peek? = some t) (hword : IsUnreserved d t) (hv : Value.readCharacters t = .ok v) :
    bareWord d opcode context c = .found (ofValue t.span v, c.next) [] := by
  unfold bareWord
  rw [ht]
  have hcond : ¬ (t.kind ≠ .word ∨ isReserved d t.text = true) := by
    rw [hword.1, hword.2]
    simp
  simp only [if_neg hcond, hv]
  rfl

theorem bareWord_of_not_isUnreserved {context : Option Span} {c : Cursor}
    (h : ∀ t, c.peek? = some t → ¬ IsUnreserved d t) :
    bareWord d opcode context c = .missed [⟨c, [TokenKind.word.label], context⟩] := by
  unfold bareWord
  cases ht : c.peek? with
  | none => rfl
  | some t =>
    have hcond : t.kind ≠ .word ∨ isReserved d t.text = true := by
      by_cases hk : t.kind = .word
      · right
        cases hr : isReserved d t.text with
        | true => rfl
        | false => exact absurd ⟨hk, hr⟩ (h t ht)
      · exact .inl hk
    simp only [if_pos hcond]

/-! ## What may follow a test -/

/-- The tokens that may follow a sequence of tests. -/
def Closes (t : Token) : Prop :=
  t.IsMark ")" ∨ t.IsKeyword "and" ∨ t.IsKeyword "or" ∨ t.IsKeyword "actions"

theorem Closes.operandOf?_eq_none {t : Token} (h : Closes t) : operandOf? d t = none := by
  rcases h with h | h | h | h
  · exact operandOf?_eq_none_of_isMark h (by decide)
  · exact operandOf?_eq_none_of_isKeyword h (by decide) (by decide)
  · exact operandOf?_eq_none_of_isKeyword h (by decide) (by decide)
  · exact operandOf?_eq_none_of_isKeyword h (by decide) (by decide)

theorem isReserved_iff (hd : d.HasStandardKeywords) {t : Text} :
    isReserved d t = true ↔
      t.lower = Text.ofString "test" ∨ t.lower = Text.ofString "actions" ∨
        t.lower = Text.ofString "and" ∨ t.lower = Text.ofString "or" ∨
        t.lower = Text.ofString "not" := by
  unfold isReserved
  rw [hd.lower_testKeyword, hd.lower_actionKeyword, decide_eq_true_iff]
  simp only [Connective.all, Connective.label, List.map_cons, List.map_nil, List.mem_cons,
    List.not_mem_nil, or_false]

theorem Closes.not_isUnreserved (hd : d.HasStandardKeywords) {t : Token} (h : Closes t) :
    ¬ IsUnreserved d t := by
  rintro ⟨hkind, hreserved⟩
  have hres : isReserved d t.text = true := by
    rw [isReserved_iff hd]
    rcases h with h | h | h | h
    · rw [h.1] at hkind; cases hkind
    · exact .inr (.inr (.inl h.2))
    · exact .inr (.inr (.inr (.inl h.2)))
    · exact .inr (.inl h.2)
  rw [hres] at hreserved
  cases hreserved

theorem Closes.not_isMark {t : Token} (h : Closes t) : ¬ t.IsMark "(" := by
  intro hmark
  rcases h with h | h | h | h
  · exact absurd (h.2.symm.trans hmark.2) (by decide)
  · exact hmark.not_isKeyword h
  · exact hmark.not_isKeyword h
  · exact hmark.not_isKeyword h

theorem Closes.not_isNot {t : Token} (h : Closes t) : ¬ t.IsKeyword "not" := by
  intro hkey
  rcases h with h | h | h | h
  · exact h.not_isKeyword hkey
  · exact absurd (h.2.symm.trans hkey.2) (by decide)
  · exact absurd (h.2.symm.trans hkey.2) (by decide)
  · exact absurd (h.2.symm.trans hkey.2) (by decide)

/-- The cursor stands at the end of the line or at a token that may follow a sequence. -/
def Stops (c : Cursor) : Prop := ∀ t, c.peek? = some t → Closes t

theorem comparisonAt?_eq_none_of_forall {c : Cursor}
    (h : ∀ t, c.peek? = some t → t.kind = .punctuation → Comparison.ofText? t.text = none) :
    comparisonAt? c = none := by
  unfold comparisonAt?
  cases ht : c.peek? with
  | none => rfl
  | some t =>
    rw [Option.bind_some]
    by_cases hk : t.kind = .punctuation
    · rw [if_pos hk]
      exact h t ht hk
    · rw [if_neg hk]

theorem Stops.comparisonAt?_eq_none {c : Cursor} (h : Stops c) : comparisonAt? c = none := by
  refine comparisonAt?_eq_none_of_forall fun t ht hk => ?_
  rcases h t ht with h | h | h | h
  · rw [h.2]; decide
  · rw [h.1] at hk; cases hk
  · rw [h.1] at hk; cases hk
  · rw [h.1] at hk; cases hk

/-- No test starts where a sequence ends. -/
theorem negation_of_stops (hd : d.HasStandardKeywords) {groupAt : Cursor → Outcome Parsed}
    {context : Option Span} {c : Cursor} (h : Stops c) :
    ∃ ms, negation d opcode groupAt context c = .missed ms := by
  have hnot : c.isWord Connective.neg.label = false := by
    rw [Bool.eq_false_iff]
    intro hword
    obtain ⟨t, ht, hkey⟩ := Cursor.isWord_iff.mp hword
    exact (h t ht).not_isNot hkey
  have hopen : c.isPunctuation "(" = false := by
    rw [Bool.eq_false_iff]
    intro hmark
    obtain ⟨t, ht, hmark⟩ := Cursor.isPunctuation_iff.mp hmark
    exact (h t ht).not_isMark hmark
  have hclass : (c.peek?.any fun t => t.kind = .word && t.text.head? = some ('_' : CodePoint))
      = false := by
    cases ht : c.peek? with
    | none => rfl
    | some t =>
      have hnone := operandOf?_eq_none_iff.mp ((h t ht).operandOf?_eq_none (d := d))
      simpa using hnone.1
  have hoperand : operand d opcode context c = .missed [⟨c, operandLabels, context⟩] :=
    operand_of_none fun t ht => (h t ht).operandOf?_eq_none
  have hword : bareWord d opcode context c = .missed [⟨c, [TokenKind.word.label], context⟩] :=
    bareWord_of_not_isUnreserved fun t ht => (h t ht).not_isUnreserved hd
  have hcomparison : comparison d opcode context c = .missed [⟨c, operandLabels, context⟩] := by
    unfold comparison
    rw [hoperand]
    rfl
  have hatom : ∃ ms, atom d opcode groupAt context c = .missed ms := by
    unfold atom
    rw [hopen, hcomparison, hclass]
    simp only [Bool.false_eq_true, if_false, Outcome.orElse, literalAt, hoperand, hword,
      Outcome.orMiss, Outcome.after]
    exact ⟨_, rfl⟩
  obtain ⟨ms, hms⟩ := hatom
  unfold negation
  rw [hnot, hms]
  simp only [Bool.false_eq_true, if_false, Outcome.orMiss, Outcome.orElse, Outcome.after]
  exact ⟨_, rfl⟩

/-! ## Repetitions -/

section

variable {P : List Token → Expression Span → Prop} {ws : List (List Token)} {es : List (Expression Span)} {c c' : Cursor}

/-- As many items as that fit into what is left to read. -/
theorem length_le_of_forall₂ (hne : ∀ w e, P w e → w ≠ []) (h : List.Forall₂ P ws es) (hpass : c.Passes ws.flatten c') :
    ws.length ≤ c.rest.length := by
  have hflat : ws.length ≤ ws.flatten.length := by
    clear hpass
    induction h with
    | nil => exact Nat.le_refl 0
    | @cons w e ws es hw _ ih =>
      have hpos : 0 < w.length := List.length_pos_of_ne_nil (hne w e hw)
      rw [List.flatten_cons, List.length_append, List.length_cons]
      omega
  have hrest := hpass.length_rest
  omega

/-- What holds where an item starts, and where a repetition ends, holds where the repetition starts. -/
theorem next_of_forall₂ {Next : Cursor → Prop} (hnext : ∀ w e c m, P w e → Cursor.Passes c w m → Next c)
    (h : List.Forall₂ P ws es) (hpass : c.Passes ws.flatten c') (hstop : Next c') : Next c := by
  cases h with
  | nil =>
    cases hpass.eq_of_nil
    exact hstop
  | cons hw _ =>
    rw [List.flatten_cons] at hpass
    obtain ⟨m, hcm, -⟩ := hpass.split
    exact hnext _ _ _ _ hw hcm

end

/-- A repetition finds what stands one after the other.  `Next` holds of the cursors at which an item may
end: those where another item starts, and the one where the repetition ends. -/
theorem many_of_forall₂ {P : List Token → Expression Span → Prop} (Next : Cursor → Prop)
    {item : Cursor → Outcome Parsed} (hne : ∀ w e, P w e → w ≠ [])
    (hnext : ∀ w e c m, P w e → Cursor.Passes c w m → Next c)
    (hitem : ∀ w e c m, P w e → Cursor.Passes c w m → Next m → ∃ ms, item c = .found (e, m) ms)
    {ws : List (List Token)} {es : List (Expression Span)} (h : List.Forall₂ P ws es)
    {c c' : Cursor} (hpass : c.Passes ws.flatten c') (hstop : Next c')
    (hend : c'.atEnd = true ∨ ∃ ms, item c' = .missed ms) {limit : Nat} (hlimit : ws.length ≤ limit) :
    ∃ ms, many item limit c = .found (es, c') ms := by
  induction h generalizing c limit with
  | nil =>
    cases hpass.eq_of_nil
    cases limit with
    | zero => exact ⟨[], rfl⟩
    | succ limit =>
      unfold many
      rcases hend with hend | ⟨ms, hms⟩
      · rw [if_pos hend]
        exact ⟨[], rfl⟩
      · split
        · exact ⟨[], rfl⟩
        · rw [hms]
          exact ⟨_, rfl⟩
  | @cons w e ws es hw hws ih =>
    cases limit with
    | zero => simp at hlimit
    | succ limit =>
      rw [List.flatten_cons] at hpass
      obtain ⟨m, hcm, hmc⟩ := hpass.split
      -- this item ends where the next one starts, or where the whole repetition does
      have hm : Next m := next_of_forall₂ hnext hws hmc hstop
      have hnotEnd : c.atEnd = false := by
        rw [Bool.eq_false_iff]
        intro hat
        have hrest := hcm.rest_eq
        rw [Cursor.atEnd_iff.mp hat] at hrest
        exact hne w e hw (List.append_eq_nil_iff.mp hrest.symm).1
      obtain ⟨ms₁, hfirst⟩ := hitem w e c m hw hcm hm
      obtain ⟨ms₂, hmore⟩ := ih hmc (Nat.le_of_succ_le_succ hlimit)
      unfold many
      rw [hnotEnd, hfirst]
      simp only [Bool.false_eq_true, if_false, Outcome.bind, hmore, Outcome.map, Outcome.after,
        Outcome.orElse]
      exact ⟨_, rfl⟩

/-- The rest of a chain: links, each after the connective. -/
inductive Linked (P : List Token → Expression Span → Prop) (op : Connective) :
    List Token → List (Expression Span) → Prop
  | nil : Linked P op [] []
  | cons {a : Token} {w v : List Token} {e : Expression Span} {es : List (Expression Span)} :
      a.IsKeyword op.label → P w e → Linked P op v es → Linked P op (a :: (w ++ v)) (e :: es)

theorem Linked.length_le {P : List Token → Expression Span → Prop} {op : Connective}
    {w : List Token} {es : List (Expression Span)} (h : Linked P op w es) :
    es.length ≤ w.length := by
  induction h with
  | nil => exact Nat.le_refl 0
  | cons _ _ _ ih =>
    simp only [List.length_cons, List.length_append]
    omega

theorem links_of_linked {P : List Token → Expression Span → Prop} (Next : Cursor → Prop)
    {op : Connective} (context : Option Span) {link : Cursor → Outcome Parsed}
    (hkey : ∀ c, Cursor.isWord c op.label = true → Next c)
    (hlink : ∀ w e c m, P w e → Cursor.Passes c w m → Next m → ∃ ms, link c = .found (e, m) ms)
    {v : List Token} {es : List (Expression Span)} (h : Linked P op v es) {c c' : Cursor}
    (hpass : c.Passes v c') (hstop : Next c') (hend : c'.isWord op.label = false) {limit : Nat}
    (hlimit : es.length ≤ limit) :
    Next c ∧ ∃ ms, links op context link limit c = .found (es, c') ms := by
  induction h generalizing c limit with
  | nil =>
    cases hpass.eq_of_nil
    refine ⟨hstop, ?_⟩
    cases limit with
    | zero => exact ⟨_, rfl⟩
    | succ limit =>
      unfold links
      rw [hend]
      exact ⟨_, rfl⟩
  | @cons a w v e es ha hw _ ih =>
    have hword : c.isWord op.label = true := Cursor.isWord_iff.mpr ⟨a, hpass.peek, ha⟩
    refine ⟨hkey c hword, ?_⟩
    cases limit with
    | zero => simp at hlimit
    | succ limit =>
      obtain ⟨m, hcm, hmc⟩ := hpass.tail.split
      obtain ⟨hm, ms₂, hmore⟩ := ih hmc (Nat.le_of_succ_le_succ hlimit)
      obtain ⟨ms₁, hfirst⟩ := hlink w e c.next m hw hcm hm
      unfold links
      rw [if_pos hword, hfirst]
      simp only [Outcome.commit, Outcome.bind, hmore, Outcome.map, Outcome.after]
      exact ⟨_, rfl⟩

theorem chain_of_linked {P : List Token → Expression Span → Prop} (Next : Cursor → Prop)
    {op : Connective} {context : Option Span} {link : Cursor → Outcome Parsed}
    (hkey : ∀ c, Cursor.isWord c op.label = true → Next c)
    (hlink : ∀ w e c m, P w e → Cursor.Passes c w m → Next m → ∃ ms, link c = .found (e, m) ms)
    {w v : List Token} {e : Expression Span} {es : List (Expression Span)} (hw : P w e)
    (h : Linked P op v es) {c c' : Cursor} (hpass : c.Passes (w ++ v) c') (hstop : Next c')
    (hend : c'.isWord op.label = false) :
    ∃ ms, chain op context link c =
      .found (ofOperands op ((e :: es).flatMap (chainOperands op)), c') ms := by
  obtain ⟨m, hcm, hmc⟩ := hpass.split
  have hlimit : es.length ≤ m.rest.length := by
    have hrest := hmc.length_rest
    have hlinks := h.length_le
    omega
  obtain ⟨hm, ms₂, hmore⟩ := links_of_linked Next context hkey hlink h hmc hstop hend hlimit
  obtain ⟨ms₁, hfirst⟩ := hlink w e c m hw hcm hm
  unfold chain
  rw [hfirst]
  simp only [Outcome.bind, hmore, Outcome.map, Outcome.after]
  exact ⟨_, rfl⟩

/-! ## Tests -/

/-- The reader of what starts with a parenthesis, where `depth` more may be opened. -/
def groupAt (d : Dialect) (opcode : Text) : Nat → Option Span → Cursor → Outcome Parsed
  | 0, context => refuseGroup d opcode context
  | depth + 1, _ => group (test d opcode depth)

theorem test_eq_disjunction (depth : Nat) (context : Option Span) (c : Cursor) :
    test d opcode depth context c = disjunction d opcode (groupAt d opcode depth context) context c := by
  cases depth <;> rfl

/-- A token that is no comparison, so that an operand before it stands alone. -/
def IsNoComparison (t : Token) : Prop := t.kind = .punctuation → Comparison.ofText? t.text = none

theorem comparisonAt?_eq_none_of_passes {c m : Cursor} {t : Token} {w : List Token}
    (ht : IsNoComparison t) (h : c.Passes (t :: w) m) : comparisonAt? c = none := by
  refine comparisonAt?_eq_none_of_forall fun t' ht' hk => ?_
  rw [h.peek] at ht'
  cases ht'
  exact ht hk

theorem Operand.isNoComparison {t : Token} {e : Expression Span} (h : Operand d t e) :
    IsNoComparison t := by
  intro hk
  cases hop : Comparison.ofText? t.text with
  | none => rfl
  | some op =>
    have hlabel : op.label = t.text := by
      have hfind := List.find?_some hop
      exact of_decide_eq_true hfind
    have hmem : op ∈ Comparison.all := List.mem_of_find?_eq_some hop
    have hat : ∀ op ∈ Comparison.all, op.label.head? ≠ some ('@' : CodePoint) := by decide
    exact absurd ⟨hk, hlabel.symm⟩ (h.not_isMark (hat op hmem))

variable (d opcode) in
/-- The tokens `w` are read as the atom `e`. -/
structure ReadsAtom (depth : Nat) (w : List Token) (e : Expression Span) : Prop where
  head : ∃ t v, w = t :: v ∧ IsNoComparison t ∧ ¬ t.IsKeyword "not"
  found : ∀ context c c', Cursor.Passes c w c' → comparisonAt? c' = none →
    ∃ ms, atom d opcode (groupAt d opcode depth context) context c = .found (e, c') ms

variable (d opcode) in
/-- The tokens `w` are read as the negation `e`. -/
structure ReadsNegation (depth : Nat) (w : List Token) (e : Expression Span) : Prop where
  head : ∃ t v, w = t :: v ∧ IsNoComparison t
  found : ∀ context c c', Cursor.Passes c w c' → comparisonAt? c' = none →
    ∃ ms, negation d opcode (groupAt d opcode depth context) context c = .found (e, c') ms

variable (d opcode) in
/-- The tokens `w` are read as the sequence `e`. -/
def ReadsSequence (depth : Nat) (w : List Token) (e : Expression Span) : Prop :=
  ∀ context c c', Cursor.Passes c w c' → Stops c' →
    ∃ ms, sequenceAt d opcode (groupAt d opcode depth context) context c = .found (e, c') ms

variable (d opcode) in
/-- The tokens `w` are read as the conjunction `e`. -/
def ReadsConjunction (depth : Nat) (w : List Token) (e : Expression Span) : Prop :=
  ∀ context c c', Cursor.Passes c w c' → Stops c' → c'.isWord Connective.conj.label = false →
    ∃ ms, chain .conj context (sequenceAt d opcode (groupAt d opcode depth context) context) c =
      .found (e, c') ms

theorem isPunctuation_eq_false {c c' : Cursor} {t : Token} {w : List Token} {text : Text}
    (hpass : c.Passes (t :: w) c') (ht : ¬ t.IsMark text) : c.isPunctuation text = false := by
  rw [Bool.eq_false_iff]
  intro hmark
  obtain ⟨t', ht', hmark⟩ := Cursor.isPunctuation_iff.mp hmark
  rw [hpass.peek] at ht'
  cases ht'
  exact ht hmark

theorem isWord_eq_false {c c' : Cursor} {t : Token} {w : List Token} {word : Text}
    (hpass : c.Passes (t :: w) c') (ht : ¬ t.IsKeyword word) : c.isWord word = false := by
  rw [Bool.eq_false_iff]
  intro hword
  obtain ⟨t', ht', hkey⟩ := Cursor.isWord_iff.mp hword
  rw [hpass.peek] at ht'
  cases ht'
  exact ht hkey

theorem readsAtom_operand {depth : Nat} {t : Token} {e : Expression Span} (h : Operand d t e) :
    ReadsAtom d opcode depth [t] e where
  head := ⟨t, [], rfl, h.isNoComparison, h.not_isKeyword (by decide) (by decide)⟩
  found := by
    intro context c c' hpass hnone
    cases hpass.tail.eq_of_nil
    have hoperand : operand d opcode context c = .found (e, c.next) [] := operand_of_some hpass.peek h
    have hcomparison : comparison d opcode context c =
        .missed [⟨c.next, ["comparison operator"], context⟩] := by
      unfold comparison
      rw [hoperand]
      simp only [Outcome.bind, hnone, Outcome.after, List.nil_append]
    unfold atom
    rw [isPunctuation_eq_false hpass (h.not_isMark (by decide)), hcomparison]
    simp only [Bool.false_eq_true, if_false, Outcome.orElse]
    by_cases hclass :
        (c.peek?.any fun t => t.kind = .word && t.text.head? = some ('_' : CodePoint)) = true
    · rw [if_pos hclass, hoperand]
      exact ⟨_, rfl⟩
    · rw [if_neg hclass]
      unfold literalAt
      rw [hoperand]
      exact ⟨_, rfl⟩

theorem readsAtom_word (hd : d.HasStandardKeywords) {depth : Nat} {t : Token} {v : Value Span}
    (hword : IsBareWord d t) (hv : Value.readCharacters t = .ok v) :
    ReadsAtom d opcode depth [t] (ofValue t.span v) where
  head := by
    refine ⟨t, [], rfl, fun hk => ?_, fun hnot => ?_⟩
    · rw [hword.1.1] at hk
      cases hk
    · have hreserved : isReserved d t.text = true :=
        (isReserved_iff hd).mpr (.inr (.inr (.inr (.inr hnot.2))))
      rw [hword.1.2] at hreserved
      cases hreserved
  found := by
    intro context c c' hpass _
    cases hpass.tail.eq_of_nil
    have hkind : t.kind = .word := hword.1.1
    have hmark : ¬ t.IsMark "(" := by
      rintro ⟨hk, -⟩
      rw [hkind] at hk
      cases hk
    have hnone : operandOf? d t = none := by
      rw [operandOf?_eq_none_iff, hkind]
      exact ⟨fun hc => hword.2.1 hc.2, by decide, by decide, hword.2.2⟩
    have hoperand : operand d opcode context c = .missed [⟨c, operandLabels, context⟩] := by
      refine operand_of_none fun t' ht' => ?_
      rw [hpass.peek] at ht'
      cases ht'
      exact hnone
    have hclass : (c.peek?.any fun t => t.kind = .word && t.text.head? = some ('_' : CodePoint))
        = false := by
      rw [hpass.peek]
      simpa using fun _ => hword.2.1
    unfold atom
    rw [isPunctuation_eq_false hpass hmark, hclass]
    simp only [Bool.false_eq_true, if_false, comparison, hoperand, Outcome.bind, Outcome.orElse,
      literalAt, bareWord_of_isUnreserved hpass.peek hword.1 hv, Outcome.after, Outcome.orMiss]
    exact ⟨_, rfl⟩

theorem readsAtom_comparison {depth : Nat} {l m r : Token} {a b : Expression Span}
    {op : Comparison} (ha : Operand d l a) (hkind : m.kind = .punctuation)
    (hop : Comparison.ofText? m.text = some op) (hb : Operand d r b) :
    ReadsAtom d opcode depth [l, m, r] (.compare op a b (a.span.merge b.span)) where
  head := ⟨l, [m, r], rfl, ha.isNoComparison, ha.not_isKeyword (by decide) (by decide)⟩
  found := by
    intro context c c' hpass _
    cases hpass.tail.tail.tail.eq_of_nil
    have hleft : operand d opcode context c = .found (a, c.next) [] := operand_of_some hpass.peek ha
    have hright : operand d opcode context c.next.next = .found (b, c.next.next.next) [] :=
      operand_of_some hpass.tail.tail.peek hb
    have hsign : comparisonAt? c.next = some op := by
      unfold comparisonAt?
      rw [hpass.tail.peek, Option.bind_some, if_pos hkind, hop]
    unfold atom
    rw [isPunctuation_eq_false hpass (ha.not_isMark (by decide))]
    simp only [Bool.false_eq_true, if_false, comparison, hleft, Outcome.bind, hsign, hright,
      Outcome.commit, Outcome.map, Outcome.after, Outcome.orElse]
    exact ⟨_, rfl⟩

theorem readsNegation_of_readsAtom {depth : Nat} {w : List Token} {e : Expression Span}
    (h : ReadsAtom d opcode depth w e) : ReadsNegation d opcode depth w e where
  head := by
    obtain ⟨t, v, hw, ht, -⟩ := h.head
    exact ⟨t, v, hw, ht⟩
  found := by
    intro context c c' hpass hnone
    obtain ⟨t, v, rfl, -, hnot⟩ := h.head
    obtain ⟨ms, hms⟩ := h.found context c c' hpass hnone
    have hword : c.isWord Connective.neg.label = false := isWord_eq_false hpass hnot
    unfold negation
    rw [hword, hms]
    exact ⟨_, rfl⟩

theorem readsNegation_negated {depth : Nat} {n : Token} {w : List Token} {e : Expression Span}
    (hn : n.IsKeyword "not") (h : ReadsAtom d opcode depth w e) :
    ReadsNegation d opcode depth (n :: w) (.combine .neg [e] (n.span.merge e.span)) where
  head := by
    refine ⟨n, w, rfl, fun hk => ?_⟩
    rw [hn.1] at hk
    cases hk
  found := by
    intro context c c' hpass hnone
    obtain ⟨ms, hms⟩ := h.found context c.next c' hpass.tail hnone
    have hspan : c.span = n.span := by
      unfold Cursor.span
      rw [hpass.peek]
    have hword : c.isWord Connective.neg.label = true := Cursor.isWord_iff.mpr ⟨n, hpass.peek, hn⟩
    unfold negation
    rw [if_pos hword, hms, hspan]
    exact ⟨_, rfl⟩

theorem readsSequence_of_forall₂ (hd : d.HasStandardKeywords) {depth : Nat} {w : List Token}
    {e : Expression Span} {ws : List (List Token)} {es : List (Expression Span)}
    (hw : ReadsNegation d opcode depth w e)
    (h : List.Forall₂ (ReadsNegation d opcode depth) ws es) :
    ReadsSequence d opcode depth (w ++ ws.flatten) (ofItems ((e :: es).flatMap sequenceItems)) := by
  intro context c c' hpass hstop
  obtain ⟨m, hcm, hmc⟩ := hpass.split
  have hne : ∀ w e, ReadsNegation d opcode depth w e → w ≠ [] := by
    intro w e hw
    obtain ⟨t, v, rfl, -⟩ := hw.head
    exact List.cons_ne_nil t v
  have hnext : ∀ w e c m, ReadsNegation d opcode depth w e → Cursor.Passes c w m →
      comparisonAt? c = none := by
    intro w e c m hw hcm
    obtain ⟨t, v, rfl, ht⟩ := hw.head
    exact comparisonAt?_eq_none_of_passes ht hcm
  have hm : comparisonAt? m = none := next_of_forall₂ hnext h hmc hstop.comparisonAt?_eq_none
  obtain ⟨ms₁, hfirst⟩ := hw.found context c m hcm hm
  obtain ⟨ms₂, hmore⟩ := many_of_forall₂ (fun c => comparisonAt? c = none) hne hnext
    (fun w e c m hw => hw.found context c m) h hmc hstop.comparisonAt?_eq_none
    (.inr (negation_of_stops hd hstop)) (length_le_of_forall₂ hne h hmc)
  unfold sequenceAt
  rw [hfirst]
  simp only [Outcome.bind, hmore, Outcome.map, Outcome.after]
  exact ⟨_, rfl⟩

variable (d opcode) in
/-- What the induction over a derivation carries: the tokens are read part by part. -/
def IsRead : Symbol → Nat → List Token → List (Expression Span) → Prop
  | .atom, depth, w, es => ∃ e, es = [e] ∧ ReadsAtom d opcode depth w e
  | .negation, depth, w, es => ∃ e, es = [e] ∧ ReadsNegation d opcode depth w e
  | .sequence, depth, w, es =>
    ∃ w₀ e ws fs, w = w₀ ++ List.flatten ws ∧ es = (e :: fs).flatMap sequenceItems ∧
      ReadsNegation d opcode depth w₀ e ∧ List.Forall₂ (ReadsNegation d opcode depth) ws fs
  | .conjunction, depth, w, es =>
    ∃ w₀ e v fs, w = w₀ ++ v ∧ es = (e :: fs).flatMap (chainOperands .conj) ∧
      ReadsSequence d opcode depth w₀ e ∧ Linked (ReadsSequence d opcode depth) .conj v fs
  | .disjunction, depth, w, es =>
    ∃ w₀ e v fs, w = w₀ ++ v ∧ es = (e :: fs).flatMap (chainOperands .disj) ∧
      ReadsConjunction d opcode depth w₀ e ∧ Linked (ReadsConjunction d opcode depth) .disj v fs

theorem readsSequence_of_isRead (hd : d.HasStandardKeywords) {depth : Nat} {w : List Token}
    {es : List (Expression Span)} (h : IsRead d opcode .sequence depth w es) :
    ReadsSequence d opcode depth w (ofItems es) := by
  obtain ⟨w₀, e, ws, fs, rfl, rfl, hw, hws⟩ := h
  exact readsSequence_of_forall₂ hd hw hws

theorem stops_of_isWord {c : Cursor} {word : Text} (hword : c.isWord word = true)
    (h : ∀ t : Token, t.IsKeyword word → Closes t) : Stops c := by
  intro t ht
  obtain ⟨t', ht', hkey⟩ := Cursor.isWord_iff.mp hword
  rw [ht] at ht'
  cases ht'
  exact h t hkey

theorem readsConjunction_of_isRead {depth : Nat} {w : List Token} {es : List (Expression Span)}
    (h : IsRead d opcode .conjunction depth w es) :
    ReadsConjunction d opcode depth w (ofOperands .conj es) := by
  obtain ⟨w₀, e, v, fs, rfl, rfl, hw, hv⟩ := h
  intro context c c' hpass hstop hend
  have hkey : ∀ c, Cursor.isWord c Connective.conj.label = true → Stops c :=
    fun c hc => stops_of_isWord hc fun t ht => .inr (.inl ht)
  exact chain_of_linked Stops hkey
    (fun w e c m hw hcm hm => hw context c m hcm hm) hw hv hpass hstop hend

theorem test_of_isRead {depth : Nat} {w : List Token} {es : List (Expression Span)}
    (h : IsRead d opcode .disjunction depth w es) (context : Option Span) {c c' : Cursor}
    (hpass : c.Passes w c') (hstop : Stops c') (hand : c'.isWord Connective.conj.label = false)
    (hor : c'.isWord Connective.disj.label = false) :
    ∃ ms, test d opcode depth context c = .found (ofOperands .disj es, c') ms := by
  obtain ⟨w₀, e, v, fs, rfl, rfl, hw, hv⟩ := h
  rw [test_eq_disjunction]
  refine chain_of_linked (fun c => Stops c ∧ c.isWord Connective.conj.label = false)
    ?_ (fun w e c m hw hcm hm => hw context c m hcm hm.1 hm.2) hw hv hpass ⟨hstop, hand⟩ hor
  intro c hc
  refine ⟨stops_of_isWord hc fun t ht => .inr (.inr (.inl ht)), ?_⟩
  rw [Bool.eq_false_iff]
  intro hand'
  obtain ⟨t, ht, hkey⟩ := Cursor.isWord_iff.mp hc
  obtain ⟨t', ht', hkey'⟩ := Cursor.isWord_iff.mp hand'
  rw [ht] at ht'
  cases ht'
  exact absurd (hkey.2.symm.trans hkey'.2) (by decide)

theorem readsAtom_group {depth : Nat} {o k : Token} {w : List Token} {es : List (Expression Span)}
    (ho : o.IsMark "(") (h : IsRead d opcode .disjunction depth w es) (hk : k.IsMark ")") :
    ReadsAtom d opcode (depth + 1) (o :: (w ++ [k])) (ofOperands .disj es) where
  head := by
    refine ⟨o, w ++ [k], rfl, fun _ => ?_, ho.not_isKeyword⟩
    rw [ho.2]
    decide
  found := by
    intro context c c' hpass _
    obtain ⟨m, hcm, hmc⟩ := hpass.tail.split
    cases hmc.tail.eq_of_nil
    have hstop : Stops m := by
      intro t ht
      rw [hmc.peek] at ht
      cases ht
      exact .inl hk
    obtain ⟨ms, hms⟩ := test_of_isRead h (some c.span) hcm hstop
      (isWord_eq_false hmc hk.not_isKeyword) (isWord_eq_false hmc hk.not_isKeyword)
    have hopen : c.isPunctuation "(" = true := Cursor.isPunctuation_iff.mpr ⟨o, hpass.peek, ho⟩
    have hclose : m.isPunctuation ")" = true := Cursor.isPunctuation_iff.mpr ⟨k, hmc.peek, hk⟩
    unfold atom
    rw [if_pos hopen]
    show ∃ ms, group (test d opcode depth) c = _
    unfold group
    simp only [hms, Outcome.commit, Outcome.bind, hclose, if_true, Outcome.after]
    exact ⟨_, rfl⟩

theorem Derives.isRead (hd : d.HasStandardKeywords) {X : Symbol} {depth : Nat} {w : List Token}
    {es : List (Expression Span)} (h : Derives (IsBareWord d) d X depth w es) :
    IsRead d opcode X depth w es := by
  induction h with
  | operand he => exact ⟨_, rfl, readsAtom_operand he⟩
  | word hword hv => exact ⟨_, rfl, readsAtom_word hd hword hv⟩
  | comparison ha hk hop hb => exact ⟨_, rfl, readsAtom_comparison ha hk hop hb⟩
  | group ho _ hc ih => exact ⟨_, rfl, readsAtom_group ho ih hc⟩
  | plain _ ih =>
    obtain ⟨e, he, hread⟩ := ih
    cases he
    exact ⟨_, rfl, readsNegation_of_readsAtom hread⟩
  | negated hn _ ih =>
    obtain ⟨e, he, hread⟩ := ih
    cases he
    exact ⟨_, rfl, readsNegation_negated hn hread⟩
  | single _ ih =>
    obtain ⟨e, he, hread⟩ := ih
    cases he
    exact ⟨_, _, [], [], by simp, by simp, hread, .nil⟩
  | juxtaposed _ _ ih ih' =>
    obtain ⟨e, he, hread⟩ := ih
    obtain ⟨w₀, f, ws, fs, rfl, rfl, hw, hws⟩ := ih'
    cases he
    exact ⟨_, _, w₀ :: ws, f :: fs, by simp, by simp, hread, .cons hw hws⟩
  | sequence _ ih =>
    exact ⟨_, _, [], [], by simp, by simp, readsSequence_of_isRead hd ih, .nil⟩
  | @conj _ a _ us _ _ _ ha _ ih ih' =>
    obtain ⟨w₀, f, v, fs, rfl, rfl, hw, hv⟩ := ih'
    exact ⟨_, _, a :: (w₀ ++ v), f :: fs, rfl, by simp, readsSequence_of_isRead hd ih,
      .cons ha hw hv⟩
  | conjunction _ ih =>
    exact ⟨_, _, [], [], by simp, by simp, readsConjunction_of_isRead ih, .nil⟩
  | @disj _ a _ us _ _ _ ha _ ih ih' =>
    obtain ⟨w₀, f, v, fs, rfl, rfl, hw, hv⟩ := ih'
    exact ⟨_, _, a :: (w₀ ++ v), f :: fs, rfl, by simp, readsConjunction_of_isRead ih,
      .cons ha hw hv⟩

/-! ## Actions -/

/-- A name is a word that starts with a letter. -/
theorem head_of_nameOf {t : Token} {name : Text} (h : Value.nameOf t = .ok name) :
    t.kind = .word ∧ ∃ c rest, t.text = c :: rest ∧ c.isLetter = true := by
  obtain ⟨hkind, htext, c, rest, hname, hc, -⟩ := Value.nameOf_eq_ok_iff.mp h
  exact ⟨hkind, c, rest, htext.trans hname, hc⟩

theorem operandOf?_eq_none_of_nameOf {t : Token} {name : Text} (h : Value.nameOf t = .ok name) :
    operandOf? d t = none := by
  obtain ⟨hkind, c, rest, htext, hc⟩ := head_of_nameOf h
  have hunder : c ≠ ('_' : CodePoint) := by
    rintro rfl
    revert hc
    decide
  have hat : c ≠ ('@' : CodePoint) := by
    rintro rfl
    revert hc
    decide
  rw [operandOf?_eq_none_iff, hkind, htext]
  refine ⟨fun hc => hunder (Option.some.inj hc.2), by decide, by decide, fun hc => ?_⟩
  exact hat (Option.some.inj hc)

/-- No operand stands at the cursor. -/
def AtNoOperand (d : Dialect) (c : Cursor) : Prop := ∀ t, c.peek? = some t → operandOf? d t = none

theorem stepAt_of_step {w : List Token} {e : Expression Span} (h : Step d w e) {c c' : Cursor}
    (hpass : c.Passes w c') (hnext : AtNoOperand d c') :
    ∃ ms, stepAt d opcode none c = .found (e, c') ms := by
  cases h with
  | @mk t name ts operands hname hoperands =>
    obtain ⟨hkind, b, rest, htext, hb⟩ := head_of_nameOf hname
    have hcond : ¬ (t.kind ≠ .word ∨ t.text.head? = some ('_' : CodePoint)) := by
      rintro (hk | hhead)
      · exact hk hkind
      · have hnone := operandOf?_eq_none_iff.mp (operandOf?_eq_none_of_nameOf (d := d) hname)
        exact hnone.1 ⟨hkind, hhead⟩
    have hsingle : ∀ {ts : List Token} {es : List (Expression Span)},
        List.Forall₂ (Operand d) ts es →
        List.Forall₂ (fun w e => ∃ t, w = [t] ∧ Operand d t e) (ts.map ([·])) es := by
      intro ts es h
      induction h with
      | nil => exact .nil
      | cons ht _ ih => exact .cons ⟨_, rfl, ht⟩ ih
    have hflat : (ts.map ([·])).flatten = ts := by
      rw [← List.flatMap_def, List.flatMap_singleton']
    have hlimit : (ts.map ([·])).length ≤ c.next.rest.length := by
      have hrest := hpass.tail.length_rest
      rw [List.length_map]
      omega
    have hpass' : c.next.Passes (ts.map ([·])).flatten c' := by rw [hflat]; exact hpass.tail
    obtain ⟨ms, hms⟩ : ∃ ms, many (operand d opcode none) c.next.rest.length c.next =
        .found (operands, c') ms := by
      refine many_of_forall₂ (fun _ => True) ?_ (fun _ _ _ _ _ _ => trivial) ?_ (hsingle hoperands)
        hpass' trivial (.inr ⟨_, operand_of_none hnext⟩) hlimit
      · rintro w e ⟨t, rfl, -⟩
        exact List.cons_ne_nil t []
      · rintro w e c m ⟨t, rfl, ht⟩ hcm -
        cases hcm.tail.eq_of_nil
        exact ⟨[], operand_of_some hcm.peek ht⟩
    unfold stepAt
    simp only [hpass.peek, if_neg hcond, hname, hms, Outcome.map, Outcome.bind, Outcome.after]
    exact ⟨_, rfl⟩

theorem Step.atNoOperand {w : List Token} {e : Expression Span} (h : Step d w e) {c c' : Cursor}
    (hpass : c.Passes w c') : AtNoOperand d c := by
  cases h with
  | mk hname _ =>
    intro t ht
    rw [hpass.peek] at ht
    cases ht
    exact operandOf?_eq_none_of_nameOf hname

theorem steps_of_forall₂ {ws : List (List Token)} {es : List (Expression Span)} (hne : ws ≠ [])
    (h : List.Forall₂ (Step d) ws es) {c stop : Cursor} (hpass : c.Passes ws.flatten stop) (hstop : stop.rest = []) :
    ∃ ms, steps d opcode none c = .found es ms := by
  cases h with
  | nil => exact absurd rfl hne
  | @cons w e ws es hw hws =>
    have hempty : ∀ w e, Step d w e → w ≠ [] := by
      rintro w e ⟨-, -⟩
      exact List.cons_ne_nil _ _
    have hnext : ∀ w e c m, Step d w e → Cursor.Passes c w m → AtNoOperand d c := fun w e c m hw hcm =>
      hw.atNoOperand hcm
    have hend : AtNoOperand d stop := by
      intro t ht
      rw [Cursor.peek?_eq_head?, hstop] at ht
      cases ht
    have hatEnd : stop.atEnd = true := Cursor.atEnd_iff.mpr hstop
    rw [List.flatten_cons] at hpass
    obtain ⟨m, hcm, hmc⟩ := hpass.split
    obtain ⟨ms₁, hfirst⟩ : ∃ ms, stepAt d opcode none c = .found (e, m) ms :=
      stepAt_of_step hw hcm (next_of_forall₂ hnext hws hmc hend)
    obtain ⟨ms₂, hmore⟩ : ∃ ms, many (stepAt d opcode none) m.rest.length m = .found (es, stop) ms :=
      many_of_forall₂ (AtNoOperand d) hempty hnext (fun w e c m hw hcm hm => stepAt_of_step hw hcm hm) hws hmc hend
        (.inl hatEnd) (length_le_of_forall₂ hempty hws hmc)
    unfold steps
    rw [hfirst]
    simp only [Outcome.commit, Outcome.bind, hmore, hatEnd, if_true, Outcome.after]
    exact ⟨_, rfl⟩

/-! ## Whole expressions -/

theorem keyword_of_isKeyword {word : Text} {c : Cursor} {t : Token} (ht : c.peek? = some t)
    (hkey : t.IsKeyword word) : keyword none word c = .found c.next [] := by
  have hword : c.isWord word = true := Cursor.isWord_iff.mpr ⟨t, ht, hkey⟩
  unfold keyword
  rw [if_pos hword]

/-- An expression of the grammar is read, and its tree is the one the grammar gives it. -/
theorem parse_of_body (hd : d.HasStandardKeywords) {c : Cursor} {ts : List Token}
    {e : Expression Span} (h : Body (IsBareWord d) d ts e) (hrest : c.rest = ts) :
    parse d opcode c = .ok e := by
  cases h with
  | @mk t a w es actions ws ht hw ha hne hws =>
    have hactions := hd.lower_actionKeyword
    obtain ⟨stop, hpass, hstop⟩ := Cursor.Passes.exists_of_rest_eq (hrest.trans (List.append_nil _).symm)
    have hspan : c.span = t.span := by
      unfold Cursor.span
      rw [hpass.peek]
    -- `m` stands between the test and the keyword of the actions
    obtain ⟨m, hcm, hmc⟩ := hpass.tail.split
    have hstops : Stops m := by
      intro t' ht'
      rw [hmc.peek] at ht'
      cases ht'
      rw [hactions] at ha
      exact .inr (.inr (.inr ha))
    have hnot : ∀ word : Text, word ≠ d.actionKeyword.lower → m.isWord word = false := by
      intro word hword
      refine isWord_eq_false hmc fun hkey => hword ?_
      rw [← hkey.2, ha.2]
    obtain ⟨ms₁, htest⟩ : ∃ ms, test d opcode d.maxDepth none c.next =
        .found (ofOperands .disj es, m) ms :=
      test_of_isRead (hw.isRead hd) none hcm hstops (hnot _ (by rw [hactions]; decide))
        (hnot _ (by rw [hactions]; decide))
    obtain ⟨ms₂, hsteps⟩ : ∃ ms, steps d opcode none m.next = .found actions ms :=
      steps_of_forall₂ hne hws hmc.tail hstop
    have hbody : ∃ ms, bodyAt d opcode c = .found
        (.body (ofOperands .disj es) actions
          (t.span.merge ((actions.getLast?.getD (ofOperands .disj es)).span))) ms := by
      unfold bodyAt bodyWith
      rw [keyword_of_isKeyword hpass.peek ht, hspan]
      simp only [Outcome.bind, Outcome.after, htest, Outcome.commit,
        keyword_of_isKeyword hmc.peek ha, hsteps, Outcome.map]
      exact ⟨_, rfl⟩
    obtain ⟨ms, hms⟩ := hbody
    unfold parse conclude
    rw [hms]

/-- The reader of expressions reads exactly the grammar, trees included. -/
theorem parse_eq_ok_iff (hd : d.HasStandardKeywords) {c : Cursor} {e : Expression Span} :
    parse d opcode c = .ok e ↔ Body (IsBareWord d) d c.rest e :=
  ⟨body_of_parse, fun h => parse_of_body hd h rfl⟩

/-- A list of tokens is accepted exactly if the grammar derives it, with parentheses nested no deeper than
the dialect allows. -/
theorem exists_parse_iff_derivable {d : Dialect} (hd : d.HasStandardKeywords) (opcode : Text)
    (ts : List Token) (eol : Span) :
    (∃ e, parse d opcode ⟨ts, 0, eol⟩ = .ok e) ↔ ∃ e, Body (IsBareWord d) d ts e := by
  have hrest : (⟨ts, 0, eol⟩ : Cursor).rest = ts := List.drop_zero
  constructor
  · intro ⟨e, he⟩
    exact ⟨e, hrest ▸ body_of_parse he⟩
  · intro ⟨e, he⟩
    exact ⟨e, parse_of_body hd he hrest⟩

/-- The tokens of an expression: those of its line, cut at the operators. -/
def tokensOf (lx : Lexer) (line : LogicalLine) : Except ParseError (List Token) :=
  (lx.tokenize line).1.map fun ts => ts.flatMap Token.splitOperators

def sampleLine : LogicalLine :=
  .single "test not(_c1=3 or \"x\" @12)and b\\x0041 actions go 5 _k" ⟨1, 1, 0⟩

def sampleTokens : List Token := (tokensOf .basic sampleLine).toOption.getD []

theorem sample_derivable : Dialect.standard.HasStandardKeywords ∧
    ∃ e, Body (IsBareWord .standard) .standard sampleTokens e := by
  have hok : (parse .standard "multipart" ⟨sampleTokens, 0, sampleLine.endSpan⟩).isOk = true := by
    decide +kernel
  refine ⟨⟨rfl, rfl⟩, ?_⟩
  exact (exists_parse_iff_derivable ⟨rfl, rfl⟩ "multipart" sampleTokens sampleLine.endSpan).mp
    (exists_of_isOk hok)

/-- A line whose test is a word that starts as a class reference does. -/
def underscoreLine : LogicalLine := .single "test _1 actions go" ⟨1, 1, 0⟩

def underscoreTokens : List Token :=
  [.plain underscoreLine .word 0 4, .plain underscoreLine .word 5 7, .plain underscoreLine .word 8 15,
   .plain underscoreLine .word 16 18]

/-- If every unreserved word stood for itself, the grammar would derive more than is accepted.  An
underscore at the start of a word has already decided that a class reference stands there. -/
theorem underscore_derivable_not_accepted :
    tokensOf .basic underscoreLine = .ok underscoreTokens ∧
      (∃ e, Body (IsUnreserved .standard) .standard underscoreTokens e) ∧
      ¬ ∃ e, parse .standard "multipart" ⟨underscoreTokens, 0, underscoreLine.endSpan⟩ = .ok e := by
  refine ⟨by decide +kernel, ?_, ?_⟩
  · have hword : IsUnreserved .standard (.plain underscoreLine .word 5 7) := ⟨rfl, by decide +kernel⟩
    have hv : Value.readCharacters (.plain underscoreLine .word 5 7) =
        .ok (.string "_1" (underscoreLine.span 5 7)) := by decide +kernel
    have hname : Value.nameOf (.plain underscoreLine .word 16 18) = .ok "go" := by decide +kernel
    have hsteps : List.Forall₂ (Step .standard) [[.plain underscoreLine .word 16 18]] _ :=
      .cons (.mk hname .nil) .nil
    exact ⟨_, .mk ⟨rfl, by decide +kernel⟩
      (.conjunction (.sequence (.single (.plain (.word hword hv))))) ⟨rfl, by decide +kernel⟩
      (List.cons_ne_nil _ _) hsteps⟩
  · intro ⟨e, he⟩
    have hfail : (parse .standard "multipart"
        ⟨underscoreTokens, 0, underscoreLine.endSpan⟩).isOk = false := by decide +kernel
    rw [he] at hfail
    cases hfail

end Expression
end BrailleTable
