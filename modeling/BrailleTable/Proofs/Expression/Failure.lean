/-
The failures of expressions.

An attempt depends on nothing but the tokens of its line.  It fails on its own account only where a token cannot be read as
what the way it starts makes it, or where too many parentheses are open; and an attempt that finds nothing can name a
place that it could not go past.  What the productions keep on their way is an `Invariant`: it is told of the parentheses that
are open, and says what is true of a cursor, of a miss and of a failure.  So what holds of the errors at the cursors of the
line, and of those of its tokens, holds of every failure.
-/
import BrailleTable.Proofs.Expression.Completeness

namespace BrailleTable

namespace Furthest

variable {M : Cursor → Prop}

/-- The furthest of some misses is one of them. -/
theorem exists_cursor_ofMisses {ms : List Miss} (hne : ms ≠ []) (hms : ∀ m ∈ ms, M m.cursor) :
    ∃ c, (ofMisses ms).cursor = some c ∧ M c := by
  obtain ⟨m, hm, hcursor⟩ := (sums_ofMisses ms).exists_cursor_eq hne
  exact ⟨m.cursor, hcursor, hms m hm⟩

end Furthest

namespace Outcome

variable {α β : Type} {M : Miss → Prop} {Q : α → Prop} {R : β → Prop} {P : Failure → Prop} {o : Outcome α}

/-- What is found satisfies `Q`, an error of the attempt's own satisfies `P`, and all misses satisfy `M`.  An attempt
that finds nothing has a miss to show for it. -/
def Meets (M : Miss → Prop) (Q : α → Prop) (P : Failure → Prop) : Outcome α → Prop
  | .found a ms => Q a ∧ ∀ m ∈ ms, M m
  | .missed ms | .stuck ms => ms ≠ [] ∧ ∀ m ∈ ms, M m
  | .refused f => P f

theorem misses_singleton {m : Miss} (h : M m) : [m] ≠ [] ∧ ∀ m' ∈ [m], M m' :=
  ⟨List.cons_ne_nil m [], fun _ hm' => List.mem_singleton.mp hm' ▸ h⟩

namespace Meets

theorem found {a : α} (h : Q a) : (Outcome.found a []).Meets M Q P := ⟨h, fun _ hm => absurd hm List.not_mem_nil⟩

theorem after (h : o.Meets M Q P) {ms : List Miss} (hms : ∀ m ∈ ms, M m) : (o.after ms).Meets M Q P := by
  have hall : ∀ {ns : List Miss}, (∀ m ∈ ns, M m) → ∀ m ∈ ms ++ ns, M m := fun hns m hm =>
    (List.mem_append.mp hm).elim (hms m) (hns m)
  cases o with
  | found a ns => exact ⟨h.1, hall h.2⟩
  | missed ns => exact ⟨List.append_ne_nil_of_right_ne_nil _ h.1, hall h.2⟩
  | stuck ns => exact ⟨List.append_ne_nil_of_right_ne_nil _ h.1, hall h.2⟩
  | refused e => exact h

theorem bind (h : o.Meets M Q P) {f : α → Outcome β} (hf : ∀ a, Q a → (f a).Meets M R P) :
    (o.bind f).Meets M R P := by
  cases o with
  | found a ms => exact (hf a h.1).after h.2
  | missed ms => exact h
  | stuck ms => exact h
  | refused e => exact h

theorem map (h : o.Meets M Q P) {f : α → β} (hf : ∀ a, Q a → R (f a)) : (o.map f).Meets M R P :=
  h.bind fun a ha => found (hf a ha)

theorem orElse (h : o.Meets M Q P) {other : Unit → Outcome α} (hother : (other ()).Meets M Q P) :
    (o.orElse other).Meets M Q P := by
  cases o with
  | found a ms => exact h
  | missed ms => exact hother.after h.2
  | stuck ms => exact h
  | refused e => exact h

theorem orMiss (h : o.Meets M Q P) {m : Miss} (hm : M m) : (o.orMiss m).Meets M Q P :=
  h.orElse (misses_singleton hm)

theorem commit (h : o.Meets M Q P) : o.commit.Meets M Q P := by
  cases o <;> exact h

end Meets
end Outcome

/-! ## Parentheses -/

namespace Token

variable {t : Token} {stack : List Span}

instance (t : Token) (text : Text) : Decidable (t.IsMark text) := inferInstanceAs (Decidable (_ ∧ _))

/-- The parentheses that are open after a token, innermost first, given those that are open before it. -/
def nest (t : Token) (stack : List Span) : List Span :=
  if t.IsMark "(" then t.span :: stack
  else if t.IsMark ")" then stack.tail
  else stack

def IsParen (t : Token) : Prop := t.IsMark "(" ∨ t.IsMark ")"

theorem nest_of_opening (h : t.IsMark "(") : t.nest stack = t.span :: stack := if_pos h

theorem nest_of_closing (h : t.IsMark ")") : t.nest stack = stack.tail := by
  have hopening : ¬ t.IsMark "(" := by
    intro h'
    have htext := h'.2.symm.trans h.2
    exact absurd htext (by decide)
  unfold nest
  rw [if_neg hopening, if_pos h]

theorem nest_of_not_isParen (h : ¬ t.IsParen) : t.nest stack = stack := by
  unfold nest
  rw [if_neg fun hopening => h (.inl hopening), if_neg fun hclosing => h (.inr hclosing)]

theorem not_isParen_of_word (h : t.kind = .word) : ¬ t.IsParen := by
  rintro (hmark | hmark)
  · cases h.symm.trans hmark.1
  · cases h.symm.trans hmark.1

theorem not_isParen_of_operandOf? {d : Dialect} {x : Except Failure (Expression Span)}
    (h : Expression.operandOf? d t = some x) : ¬ t.IsParen := by
  have hmark : ∀ {text : Text}, t.IsMark text → text.head? = some ('@' : CodePoint) := by
    intro text hmark
    by_contra hat
    rw [Expression.operandOf?_eq_none_of_isMark hmark hat] at h
    cases h
  rintro (hopening | hclosing)
  · exact absurd (hmark hopening) (by decide)
  · exact absurd (hmark hclosing) (by decide)

theorem not_isParen_of_comparison {op : Comparison} (h : Comparison.ofText? t.text = some op) : ¬ t.IsParen := by
  intro hparen
  have hnone : Comparison.ofText? t.text = none := by
    rcases hparen with hmark | hmark
    · rw [hmark.2]
      decide
    · rw [hmark.2]
      decide
  rw [hnone] at h
  cases h

end Token

namespace Expression

variable {d : Dialect} {opcode : Text} {I : List Span → Cursor → Prop} {M : Miss → Prop} {P : Failure → Prop}

/-- What is wrong with a token that the expression cannot do without. -/
inductive Spoils (d : Dialect) (t : Token) : Failure → Prop
  | operand {f : Failure} : operandOf? d t = some (.error f) → Spoils d t f
  | word {e : ParseError} : Value.readCharacters t = .error e → Spoils d t (.parse e)
  | name {e : ParseError} : Value.nameOf t = .error e → Spoils d t (.parse e)

/-- What is kept while an expression is read: `I stack` holds of the cursors at which the parentheses of `stack` are open,
the innermost first; what is missed there satisfies `M`, and what fails there satisfies `P`. -/
structure Invariant (d : Dialect) (opcode : Text) (I : List Span → Cursor → Prop) (M : Miss → Prop)
    (P : Failure → Prop) : Prop where
  next : ∀ {stack c t}, I stack c → c.peek? = some t → I (t.nest stack) c.next
  miss : ∀ {stack c}, I stack c → ∀ expected, M ⟨c, expected, stack.head?⟩
  token : ∀ {stack c t f}, I stack c → c.peek? = some t → Spoils d t f → P (valueFailure opcode stack.head? f)
  tooDeep : ∀ {stack c}, I stack c → c.isPunctuation "(" = true → stack.length = d.maxDepth → ∀ expected,
    P (.parse (.of (.expression stack.head?) (.tooDeep opcode d.maxDepth) c.span expected c.found))

/-- A production that keeps `Q` of its cursor. -/
def Reads {α : Type} (Q : Cursor → Prop) (M : Miss → Prop) (P : Failure → Prop)
    (production : Cursor → Outcome (α × Cursor)) : Prop :=
  ∀ c : Cursor, Q c → (production c).Meets M (fun x => Q x.2) P

namespace Invariant

variable {stack : List Span} {groupAt : Cursor → Outcome Parsed}

theorem pass (h : Invariant d opcode I M P) {c : Cursor} {t : Token} (hc : I stack c) (ht : c.peek? = some t)
    (hparen : ¬ t.IsParen) : I stack c.next := by
  have hnext := h.next hc ht
  rw [Token.nest_of_not_isParen hparen] at hnext
  exact hnext

theorem pass_word (h : Invariant d opcode I M P) {c : Cursor} {word : Text} (hc : I stack c)
    (hword : c.isWord word = true) : I stack c.next := by
  obtain ⟨t, ht, hkey⟩ := Cursor.isWord_iff.mp hword
  exact h.pass hc ht (Token.not_isParen_of_word hkey.1)

theorem operand_reads (h : Invariant d opcode I M P) (stack : List Span) :
    Reads (I stack) M P (operand d opcode stack.head?) := by
  intro c hc
  unfold operand
  cases hread : c.peek?.bind (operandOf? d) with
  | none => exact Outcome.misses_singleton (h.miss hc _)
  | some x =>
    obtain ⟨t, ht, hop⟩ := Option.bind_eq_some_iff.mp hread
    cases x with
    | ok e => exact .found (h.pass hc ht (Token.not_isParen_of_operandOf? hop))
    | error f => exact h.token hc ht (.operand hop)

theorem bareWord_reads (h : Invariant d opcode I M P) (stack : List Span) :
    Reads (I stack) M P (bareWord d opcode stack.head?) := by
  intro c hc
  unfold bareWord
  split
  · exact Outcome.misses_singleton (h.miss hc _)
  · rename_i t ht
    split
    · exact Outcome.misses_singleton (h.miss hc _)
    · rename_i hword
      cases hread : Value.readCharacters t with
      | ok v =>
        have hkind : t.kind = .word := Decidable.of_not_not (not_or.mp hword).1
        exact .found (h.pass hc ht (Token.not_isParen_of_word hkind))
      | error e => exact h.token hc ht (.word hread)

theorem literalAt_reads (h : Invariant d opcode I M P) (stack : List Span) :
    Reads (I stack) M P (literalAt d opcode stack.head?) := fun c hc =>
  (h.operand_reads stack c hc).orElse (h.bareWord_reads stack c hc)

theorem comparison_reads (h : Invariant d opcode I M P) (stack : List Span) :
    Reads (I stack) M P (comparison d opcode stack.head?) := by
  intro c hc
  refine (h.operand_reads stack c hc).bind fun x hx => ?_
  dsimp only
  split
  · exact Outcome.misses_singleton (h.miss hx _)
  · rename_i op hop
    obtain ⟨t, ht, -, htext⟩ := comparisonAt?_eq_some hop
    have hnext := h.pass hx ht (Token.not_isParen_of_comparison htext)
    exact ((h.operand_reads stack x.2.next hnext).commit).map fun _ hy => hy

/-- What is asked of the production for what starts with a parenthesis. -/
def ReadsGroup (Q : Cursor → Prop) (M : Miss → Prop) (P : Failure → Prop) (groupAt : Cursor → Outcome Parsed) : Prop :=
  ∀ c : Cursor, Q c → c.isPunctuation "(" = true → (groupAt c).Meets M (fun x => Q x.2) P

theorem atom_reads (h : Invariant d opcode I M P) (hgroup : ReadsGroup (I stack) M P groupAt) :
    Reads (I stack) M P (atom d opcode groupAt stack.head?) := by
  intro c hc
  unfold atom
  split
  · rename_i hopening
    exact hgroup c hc hopening
  · refine (h.comparison_reads stack c hc).orElse ?_
    split
    · exact h.operand_reads stack c hc
    · exact (h.literalAt_reads stack c hc).orMiss (h.miss hc _)

theorem negation_reads (h : Invariant d opcode I M P) (hgroup : ReadsGroup (I stack) M P groupAt) :
    Reads (I stack) M P (negation d opcode groupAt stack.head?) := by
  intro c hc
  unfold negation
  split
  · rename_i hnot
    exact (h.atom_reads hgroup c.next (h.pass_word hc hnot)).commit.map fun _ hx => hx
  · exact (h.atom_reads hgroup c hc).orMiss (h.miss hc _)

theorem many_reads {Q : Cursor → Prop} {item : Cursor → Outcome Parsed} (hitem : Reads Q M P item) (limit : Nat) :
    Reads Q M P (many item limit) := by
  induction limit with
  | zero => exact fun c hc => .found hc
  | succ limit ih =>
    intro c hc
    unfold many
    split
    · exact .found hc
    · refine .orElse (.bind (hitem c hc) fun x hx => ?_) (.found hc)
      exact (ih x.2 hx).map fun _ hy => hy

theorem sequenceAt_reads (h : Invariant d opcode I M P) (hgroup : ReadsGroup (I stack) M P groupAt) :
    Reads (I stack) M P (sequenceAt d opcode groupAt stack.head?) := fun c hc =>
  (h.negation_reads hgroup c hc).bind fun x hx =>
    (many_reads (h.negation_reads hgroup) _ x.2 hx).map fun _ hy => hy

theorem links_reads (h : Invariant d opcode I M P) {link : Cursor → Outcome Parsed} (hlink : Reads (I stack) M P link)
    (op : Connective) (limit : Nat) : Reads (I stack) M P (links op stack.head? link limit) := by
  have hend : ∀ {c : Cursor}, I stack c → (Outcome.found (([] : List (Expression Span)), c)
      [⟨c, ["'" ++ op.label ++ "'"], stack.head?⟩]).Meets M (fun x => I stack x.2) P := fun hc =>
    ⟨hc, (Outcome.misses_singleton (h.miss hc _)).2⟩
  induction limit with
  | zero => exact fun c hc => hend hc
  | succ limit ih =>
    intro c hc
    unfold links
    split
    · rename_i hword
      exact (hlink c.next (h.pass_word hc hword)).commit.bind fun x hx => (ih x.2 hx).map fun _ hy => hy
    · exact hend hc

theorem chain_reads (h : Invariant d opcode I M P) {link : Cursor → Outcome Parsed} (hlink : Reads (I stack) M P link)
    (op : Connective) : Reads (I stack) M P (chain op stack.head? link) := fun c hc =>
  (hlink c hc).bind fun x hx => (h.links_reads hlink op _ x.2 hx).map fun _ hy => hy

theorem disjunction_reads (h : Invariant d opcode I M P) (hgroup : ReadsGroup (I stack) M P groupAt) :
    Reads (I stack) M P (disjunction d opcode groupAt stack.head?) :=
  h.chain_reads (h.chain_reads (h.sequenceAt_reads hgroup) .conj) .disj

/-- Inside a group its parenthesis is the innermost one, and after it those that were open before are open again. -/
theorem group_reads (h : Invariant d opcode I M P) {inner : Option Span → Cursor → Outcome Parsed}
    (hinner : ∀ s, Reads (I (s :: stack)) M P (inner (some s))) : ReadsGroup (I stack) M P (group inner) := by
  intro c hc hopening
  obtain ⟨t, ht, hmark⟩ := Cursor.isPunctuation_iff.mp hopening
  have hinside : I (c.span :: stack) c.next := by
    have hspan : c.span = t.span := by
      unfold Cursor.span
      rw [ht]
    rw [hspan, ← Token.nest_of_opening hmark]
    exact h.next hc ht
  refine (hinner _ c.next hinside).commit.bind fun x hx => ?_
  dsimp only
  split
  · rename_i hclosing
    obtain ⟨t', ht', hmark'⟩ := Cursor.isPunctuation_iff.mp hclosing
    have houtside := h.next hx ht'
    rw [Token.nest_of_closing hmark'] at houtside
    exact .found houtside
  · exact Outcome.misses_singleton (h.miss hx _)

/-- A test in which parentheses may be opened until as many are open as the limit allows.  One more is what `last` is
asked for. -/
theorem testWith_reads (h : Invariant d opcode I M P) {last : Option Span → Cursor → Outcome Parsed} {limit : Nat}
    (hlast : ∀ {stack : List Span}, stack.length = limit → ReadsGroup (I stack) M P (last stack.head?)) (depth : Nat)
    {stack : List Span} (hdepth : stack.length + depth = limit) :
    Reads (I stack) M P (testWith d opcode last depth stack.head?) := by
  induction depth generalizing stack with
  | zero => exact h.disjunction_reads (hlast hdepth)
  | succ depth ih =>
    refine h.disjunction_reads (h.group_reads fun s => ih ?_)
    rw [List.length_cons]
    omega

theorem test_reads (h : Invariant d opcode I M P) (depth : Nat) {stack : List Span}
    (hdepth : stack.length + depth = d.maxDepth) : Reads (I stack) M P (test d opcode depth stack.head?) := by
  have hrefuse : ∀ {stack : List Span}, stack.length = d.maxDepth →
      ReadsGroup (I stack) M P (refuseGroup d opcode stack.head?) :=
    fun hfull _ hc hopening => h.tooDeep hc hopening hfull _
  exact h.testWith_reads hrefuse depth hdepth

theorem stepAt_reads (h : Invariant d opcode I M P) : Reads (I []) M P (stepAt d opcode none) := by
  intro c hc
  unfold stepAt
  split
  · exact Outcome.misses_singleton (h.miss hc _)
  · rename_i t ht
    split
    · exact Outcome.misses_singleton (h.miss hc _)
    · rename_i hword
      split
      · rename_i e hname
        exact h.token hc ht (.name hname)
      · have hkind : t.kind = .word := Decidable.of_not_not (not_or.mp hword).1
        have hnext := h.pass hc ht (Token.not_isParen_of_word hkind)
        exact (many_reads (h.operand_reads []) _ c.next hnext).map fun _ hx => hx

theorem steps_meets (h : Invariant d opcode I M P) {c : Cursor} (hc : I [] c) :
    (steps d opcode none c).Meets M (fun _ => True) P := by
  refine (h.stepAt_reads c hc).commit.bind fun x hx => ?_
  refine (many_reads h.stepAt_reads _ x.2 hx).bind fun y hy => ?_
  dsimp only
  split
  · exact .found trivial
  · exact Outcome.misses_singleton (h.miss hy _)

theorem keyword_meets (h : Invariant d opcode I M P) (word : Text) {c : Cursor} (hc : I [] c) :
    (keyword none word c).Meets M (I []) P := by
  unfold keyword
  split
  · rename_i hword
    exact .found (h.pass_word hc hword)
  · exact Outcome.misses_singleton (h.miss hc _)

theorem bodyWith_meets (h : Invariant d opcode I M P) {readTest : Cursor → Outcome Parsed}
    (htest : Reads (I []) M P readTest) {c : Cursor} (hc : I [] c) :
    (bodyWith d opcode readTest none c).Meets M (fun _ => True) P := by
  refine (h.keyword_meets _ hc).bind fun c₁ hc₁ => ?_
  refine (htest c₁ hc₁).commit.bind fun x hx => ?_
  refine (h.keyword_meets _ hx).bind fun c₂ hc₂ => ?_
  exact (h.steps_meets hc₂).map fun _ _ => trivial

theorem bodyAt_meets (h : Invariant d opcode I M P) {c : Cursor} (hc : I [] c) :
    (bodyAt d opcode c).Meets M (fun _ => True) P :=
  h.bodyWith_meets (h.test_reads d.maxDepth (Nat.zero_add _)) hc

/-- What the invariant says of the misses is all that an expression that was not read to its end has to go by. -/
theorem of_parse_eq_error (h : Invariant d opcode I M P) {c : Cursor} (hc : I [] c)
    (hstop : ∀ ms : List Miss, ms ≠ [] → (∀ m ∈ ms, M m) → P (.parse (unexpected opcode c ms))) {f : Failure}
    (hf : parse d opcode c = .error f) : P f := by
  have hmeets := h.bodyAt_meets hc
  unfold parse conclude at hf
  cases hbody : bodyAt d opcode c with
  | found e ms =>
    rw [hbody] at hf
    cases hf
  | missed ms =>
    rw [hbody] at hf hmeets
    cases hf
    exact hstop ms hmeets.1 hmeets.2
  | stuck ms =>
    rw [hbody] at hf hmeets
    cases hf
    exact hstop ms hmeets.1 hmeets.2
  | refused f' =>
    rw [hbody] at hf hmeets
    cases hf
    exact hmeets

end Invariant
end Expression

/-! ## Failures at the cursors and tokens of a line -/

/-- A cursor of the line that has these tokens and this end. -/
def Cursor.IsOn (ts : List Token) (eol : Span) (c : Cursor) : Prop := c.tokens = ts ∧ c.eol = eol

namespace Cursor

variable {ts : List Token} {eol : Span} {c : Cursor}

theorem IsOn.next (h : c.IsOn ts eol) : c.next.IsOn ts eol := h

theorem IsOn.mem_of_peek? (h : c.IsOn ts eol) {t : Token} (ht : c.peek? = some t) : t ∈ ts := by
  rw [← h.1]
  exact List.mem_of_getElem? ht

/-- The range at a cursor is that of one of the tokens, or the end of the line. -/
theorem IsOn.span_cases (h : c.IsOn ts eol) : (∃ t ∈ ts, c.span = t.span) ∨ c.span = eol := by
  unfold span
  cases ht : c.peek? with
  | none => exact .inr h.2
  | some t => exact .inl ⟨t, h.mem_of_peek? ht, rfl⟩

end Cursor

namespace Expression

variable {d : Dialect} {opcode : Text} {ts : List Token} {eol : Span} {P : Failure → Prop}

/-- Errors at the cursors of the line satisfy `P`, and so does what is wrong with its tokens. -/
structure Admits (d : Dialect) (opcode : Text) (ts : List Token) (eol : Span) (P : Failure → Prop) : Prop where
  stop : ∀ c : Cursor, c.IsOn ts eol → ∀ context reason expected,
    P (.parse (.of (.expression context) reason c.span expected c.found))
  token : ∀ t ∈ ts, ∀ f, Spoils d t f → ∀ context, P (valueFailure opcode context f)

/-- The cursors stay on the line, whatever parentheses are open. -/
theorem Admits.invariant (h : Admits d opcode ts eol P) :
    Invariant d opcode (fun _ c => c.IsOn ts eol) (fun m => m.cursor.IsOn ts eol) P where
  next hc _ := hc.next
  miss hc _ := hc
  token hc ht hf := h.token _ (hc.mem_of_peek? ht) _ hf _
  tooDeep hc _ _ expected := h.stop _ hc _ _ expected

theorem unexpected_eq {c c' : Cursor} {ms : List Miss} (h : (Furthest.ofMisses ms).cursor = some c') :
    unexpected opcode c ms = .of (.expression (Furthest.ofMisses ms).context)
      (.unexpected opcode (Furthest.ofMisses ms).expected c'.found (Furthest.ofMisses ms).context) c'.span
      (Furthest.ofMisses ms).expected c'.found := by
  simp only [unexpected, h, Option.getD_some]

/-- Whatever stops an expression is an error at a cursor of the line, or what is wrong with one of its tokens. -/
theorem Admits.of_parse_eq_error {c : Cursor} (h : Admits d opcode c.tokens c.eol P) {f : Failure}
    (hf : parse d opcode c = .error f) : P f := by
  refine h.invariant.of_parse_eq_error ⟨rfl, rfl⟩ (fun ms hne hms => ?_) hf
  obtain ⟨c', hcursor, hc'⟩ := Furthest.exists_cursor_ofMisses hne hms
  rw [unexpected_eq hcursor]
  exact h.stop c' hc' _ _ _

end Expression
end BrailleTable
