/-
Dialects that let more parentheses be open at once.

The bound shows in one place only, where a parenthesis is refused.  So what two dialects make of the same tokens, where
they differ in the bound, is the same up to the first parenthesis that the lower bound refuses: all the productions ask is
that what reads a group agrees, and the groups agree by induction on the parentheses that may still be opened.
-/
import BrailleTable.Proofs.Expression.Context
import BrailleTable.Proofs.Expression.Depth

namespace BrailleTable

namespace Outcome

variable {α β : Type} {P : Failure → Prop} {o o' : Outcome α}

/-- The outcomes are the same, unless the first one is a failure that satisfies `P`. -/
def AgreesUnless (P : Failure → Prop) (o o' : Outcome α) : Prop := o = o' ∨ ∃ f, o = .refused f ∧ P f

namespace AgreesUnless

theorem refl (o : Outcome α) : o.AgreesUnless P o := .inl rfl

theorem refused {f : Failure} (h : P f) : (Outcome.refused f).AgreesUnless P o' := .inr ⟨f, rfl, h⟩

theorem after (h : o.AgreesUnless P o') (ms : List Miss) : (o.after ms).AgreesUnless P (o'.after ms) := by
  rcases h with rfl | ⟨f, rfl, hf⟩
  · exact refl _
  · exact refused hf

theorem bind (h : o.AgreesUnless P o') {f f' : α → Outcome β} (hf : ∀ a, (f a).AgreesUnless P (f' a)) :
    (o.bind f).AgreesUnless P (o'.bind f') := by
  rcases h with rfl | ⟨e, rfl, he⟩
  · cases o with
    | found a ms => exact (hf a).after ms
    | missed ms => exact refl _
    | stuck ms => exact refl _
    | refused e => exact refl _
  · exact refused he

theorem map (h : o.AgreesUnless P o') (f : α → β) : (o.map f).AgreesUnless P (o'.map f) :=
  h.bind fun _ => refl _

theorem orElse (h : o.AgreesUnless P o') {other other' : Unit → Outcome α}
    (hother : (other ()).AgreesUnless P (other' ())) : (o.orElse other).AgreesUnless P (o'.orElse other') := by
  rcases h with rfl | ⟨f, rfl, hf⟩
  · cases o with
    | found a ms => exact refl _
    | missed ms => exact hother.after ms
    | stuck ms => exact refl _
    | refused f => exact refl _
  · exact refused hf

theorem orMiss (h : o.AgreesUnless P o') (m : Miss) : (o.orMiss m).AgreesUnless P (o'.orMiss m) :=
  h.orElse (refl _)

theorem commit (h : o.AgreesUnless P o') : o.commit.AgreesUnless P o'.commit := by
  rcases h with rfl | ⟨f, rfl, hf⟩
  · exact refl _
  · exact refused hf

end AgreesUnless
end Outcome

/-- The failure is that a parenthesis was opened inside too many others. -/
def Failure.IsTooDeep (f : Failure) : Prop := ∃ e opcode limit, f = .parse e ∧ e.reason = .tooDeep opcode limit

namespace Expression

variable {d : Dialect} {opcode : Text} {ts : List Token} {eol : Span} {context : Option Span}

/-! ## One bound beside another -/

/-- Two productions that are in step, unless the first one fails in a way that satisfies `P`. -/
def InStep {α : Type} (P : Failure → Prop) (production production' : Cursor → Outcome α) : Prop :=
  ∀ c, (production c).AgreesUnless P (production' c)

variable {P : Failure → Prop} {groupAt groupAt' : Cursor → Outcome Parsed} {link link' : Cursor → Outcome Parsed}

theorem atom_inStep (h : InStep P groupAt groupAt') (context : Option Span) :
    InStep P (atom d opcode groupAt context) (atom d opcode groupAt' context) := by
  intro c
  unfold atom
  split
  · exact h c
  · exact .refl _

theorem negation_inStep (h : InStep P groupAt groupAt') (context : Option Span) :
    InStep P (negation d opcode groupAt context) (negation d opcode groupAt' context) := by
  intro c
  unfold negation
  split
  · exact (atom_inStep h context c.next).commit.map _
  · exact (atom_inStep h context c).orMiss _

theorem many_inStep (h : InStep P link link') (limit : Nat) : InStep P (many link limit) (many link' limit) := by
  induction limit with
  | zero => exact fun c => .refl _
  | succ limit ih =>
    intro c
    unfold many
    split
    · exact .refl _
    · exact ((h c).bind fun x => (ih x.2).map _).orElse (.refl _)

theorem sequenceAt_inStep (h : InStep P groupAt groupAt') (context : Option Span) :
    InStep P (sequenceAt d opcode groupAt context) (sequenceAt d opcode groupAt' context) := fun c =>
  (negation_inStep h context c).bind fun x => (many_inStep (negation_inStep h context) _ x.2).map _

theorem links_inStep (h : InStep P link link') (op : Connective) (context : Option Span) (limit : Nat) :
    InStep P (links op context link limit) (links op context link' limit) := by
  induction limit with
  | zero => exact fun c => .refl _
  | succ limit ih =>
    intro c
    unfold links
    split
    · exact (h c.next).commit.bind fun x => (ih x.2).map _
    · exact .refl _

theorem chain_inStep (h : InStep P link link') (op : Connective) (context : Option Span) :
    InStep P (chain op context link) (chain op context link') := fun c =>
  (h c).bind fun x => (links_inStep h op context _ x.2).map _

theorem disjunction_inStep (h : InStep P groupAt groupAt') (context : Option Span) :
    InStep P (disjunction d opcode groupAt context) (disjunction d opcode groupAt' context) :=
  chain_inStep (chain_inStep (sequenceAt_inStep h context) .conj context) .disj context

theorem group_inStep {inner inner' : Option Span → Cursor → Outcome Parsed}
    (h : ∀ s, InStep P (inner (some s)) (inner' (some s))) : InStep P (group inner) (group inner') := fun c =>
  (h c.span c.next).commit.bind fun _ => .refl _

/-- Tests in which fewer and more parentheses may be opened, where one too many fails in the first in a way that satisfies
`P`.  The dialects read the same words, and their productions are the same but for the groups. -/
theorem testWith_inStep (d d' : Dialect) (hsame : ∀ groupAt context, disjunction d' opcode groupAt context =
      disjunction d opcode groupAt context) {last last' : Option Span → Cursor → Outcome Parsed}
    (hlast : ∀ context c, ∃ f, last context c = .refused f ∧ P f) {depth depth' : Nat} (hle : depth ≤ depth') :
    InStep P (testWith d opcode last depth context) (testWith d' opcode last' depth' context) := by
  have hopened : ∀ {context : Option Span} {groupAt groupAt' : Cursor → Outcome Parsed}, InStep P groupAt groupAt' →
      InStep P (disjunction d opcode groupAt context) (disjunction d' opcode groupAt' context) := by
    intro context groupAt groupAt' h
    rw [hsame]
    exact disjunction_inStep h context
  induction depth generalizing depth' context with
  | zero =>
    cases depth' with
    | zero => exact hopened fun c => .inr (hlast context c)
    | succ depth' => exact hopened fun c => .inr (hlast context c)
  | succ depth ih =>
    cases depth' with
    | zero => omega
    | succ depth' => exact hopened (group_inStep fun _ => ih (by omega))

theorem bodyWith_inStep {readTest readTest' : Cursor → Outcome Parsed} (h : InStep P readTest readTest') (opcode : Text) :
    InStep P (bodyWith d opcode readTest context) (bodyWith d opcode readTest' context) := fun _ =>
  (Outcome.AgreesUnless.refl _).bind fun afterTest => (h afterTest).commit.bind fun _ => .refl _

theorem bodyAt_inStep {limit : Nat} (hlimit : 0 < limit) (hle : d.maxDepth ≤ limit) (opcode : Text) :
    InStep Failure.IsTooDeep (bodyAt d opcode) (bodyAt (d.withDepth limit hlimit) opcode) := by
  have hrefuse : ∀ context c, ∃ f, refuseGroup d opcode context c = .refused f ∧ f.IsTooDeep := fun _ _ =>
    ⟨_, rfl, _, opcode, d.maxDepth, rfl, rfl⟩
  have htest : InStep Failure.IsTooDeep (test d opcode d.maxDepth none) (test (d.withDepth limit hlimit) opcode limit none) :=
    testWith_inStep d (d.withDepth limit hlimit) (fun _ _ => rfl) hrefuse hle
  exact bodyWith_inStep htest opcode

/-- Under a higher bound an expression is read as under a lower one, unless the lower one refuses a parenthesis. -/
theorem parse_withDepth_eq {limit : Nat} (hlimit : 0 < limit) (hle : d.maxDepth ≤ limit) (opcode : Text) (c : Cursor) :
    parse (d.withDepth limit hlimit) opcode c = parse d opcode c ∨
      ∃ f, parse d opcode c = .error f ∧ f.IsTooDeep := by
  rcases bodyAt_inStep hlimit hle opcode c with heq | ⟨f, hrefused, hdeep⟩
  · left
    unfold parse conclude
    rw [heq]
  · right
    refine ⟨f, ?_, hdeep⟩
    unfold parse conclude
    rw [hrefused]

/-! ## Where a parenthesis is refused -/

/-- A parenthesis inside as many open ones as the dialect allows is what the failure is about. -/
def RefusesParen (d : Dialect) (opcode : Text) (ts : List Token) (f : Failure) : Prop :=
  ∃ p t e, ts[p]? = some t ∧ t.IsMark "(" ∧ (openParens (ts.take p)).length = d.maxDepth ∧
    f = .parse e ∧ e.reason = .tooDeep opcode d.maxDepth ∧ e.span = t.span ∧ e.found = some t.text

/-- A value that cannot be read is no parenthesis that is open too deep. -/
theorem not_isTooDeep_valueFailure (context : Option Span) (f : Failure) :
    ¬ (valueFailure opcode context f).IsTooDeep := by
  rintro ⟨e, _, _, hf, hreason⟩
  cases f with
  | parse cause =>
    cases hf
    cases hreason
  | _ => cases hf

/-- The parentheses of the stack are those that are open in the line, so a group is refused where their number is that of
the bound. -/
theorem tooDeep_invariant (d : Dialect) (opcode : Text) (ts : List Token) (eol : Span) :
    Invariant d opcode (OpensAt ts eol) (fun _ => True) fun f => f.IsTooDeep → RefusesParen d opcode ts f where
  next hc ht := hc.next ht
  miss _ _ := trivial
  token _ _ _ := fun hdeep => absurd hdeep (not_isTooDeep_valueFailure _ _)
  tooDeep := by
    intro stack c hc hopening hdepth expected _
    obtain ⟨t, ht, hmark⟩ := Cursor.isPunctuation_iff.mp hopening
    refine ⟨c.pos, t, _, hc.getElem? ht, hmark, by rw [hc.openParens_eq, hdepth], rfl, rfl, ?_, ?_⟩
    · show c.span = t.span
      unfold Cursor.span
      rw [ht]
    · show c.found = some t.text
      unfold Cursor.found
      rw [ht]
      rfl

theorem refusesParen_of_parse_eq_error {f : Failure} (h : parse d opcode ⟨ts, 0, eol⟩ = .error f) (hdeep : f.IsTooDeep) :
    RefusesParen d opcode ts f := by
  refine (tooDeep_invariant d opcode ts eol).of_parse_eq_error (.start ts eol) (fun ms _ _ hms => ?_) h hdeep
  obtain ⟨e, _, _, he, hreason⟩ := hms
  cases he
  cases hreason

/-- A higher bound on the open parentheses only adds expressions.  What is read under the lower bound is read under the
higher one as the same tree, and what is refused for any other reason is refused with the same failure; and the bound is
the reason only at a parenthesis before which as many are open as it allows. -/
theorem parse_withDepth {limit : Nat} (hlimit : 0 < limit) (hle : d.maxDepth ≤ limit) (opcode : Text) (ts : List Token)
    (eol : Span) :
    (∀ e, parse d opcode ⟨ts, 0, eol⟩ = .ok e → parse (d.withDepth limit hlimit) opcode ⟨ts, 0, eol⟩ = .ok e) ∧
    (∀ f, parse d opcode ⟨ts, 0, eol⟩ = .error f → ¬ f.IsTooDeep →
      parse (d.withDepth limit hlimit) opcode ⟨ts, 0, eol⟩ = .error f) ∧
    (∀ f, parse d opcode ⟨ts, 0, eol⟩ = .error f → f.IsTooDeep → RefusesParen d opcode ts f) := by
  refine ⟨fun e he => ?_, fun f hf hdeep => ?_, fun f hf hdeep => refusesParen_of_parse_eq_error hf hdeep⟩
  · rcases parse_withDepth_eq hlimit hle opcode ⟨ts, 0, eol⟩ with heq | ⟨f, hf, -⟩
    · rw [heq, he]
    · rw [he] at hf
      cases hf
  · rcases parse_withDepth_eq hlimit hle opcode ⟨ts, 0, eol⟩ with heq | ⟨f', hf', hdeep'⟩
    · rw [heq, hf]
    · rw [hf] at hf'
      cases hf'
      exact absurd hdeep' hdeep

/-- The standard dialect where no parenthesis may be opened inside another. -/
def shallowDialect : Dialect := Dialect.standard.withDepth 1 Nat.one_pos

/-- An expression whose parentheses stand side by side, one that has no actions, and one whose parentheses stand inside
one another. -/
def adjacentGroupsLine : LogicalLine := .single "test (a) (b) actions go" ⟨1, 1, 0⟩

def unfinishedLine : LogicalLine := .single "test (a) b" ⟨1, 1, 0⟩

def innerGroupLine : LogicalLine := .single "test (a (b)) actions go" ⟨1, 1, 0⟩

def tokensIn (line : LogicalLine) : List Token := (tokensOf .basic line).toOption.getD []

/-- Where an expression of a line starts. -/
def startOf (line : LogicalLine) : Cursor := ⟨tokensIn line, 0, line.endSpan⟩

theorem parse_withDepth_shallowDialect :
    (∃ e, parse shallowDialect "context" (startOf adjacentGroupsLine) = .ok e ∧
      parse (shallowDialect.withDepth 2 Nat.two_pos) "context" (startOf adjacentGroupsLine) = .ok e) ∧
    (∃ f, parse shallowDialect "context" (startOf unfinishedLine) = .error f ∧ ¬ f.IsTooDeep ∧
      parse (shallowDialect.withDepth 2 Nat.two_pos) "context" (startOf unfinishedLine) = .error f) ∧
    (∃ f, parse shallowDialect "context" (startOf innerGroupLine) = .error f ∧ f.IsTooDeep ∧
      RefusesParen shallowDialect "context" (tokensIn innerGroupLine) f) := by
  have hle : shallowDialect.maxDepth ≤ 2 := by decide
  refine ⟨?_, ?_, ?_⟩
  · have hread : (parse shallowDialect "context" (startOf adjacentGroupsLine)).toOption.isSome = true := by decide +kernel
    obtain ⟨e, he⟩ := Option.isSome_iff_exists.mp hread
    have hok := toOption_eq_some he
    exact ⟨e, hok, (parse_withDepth Nat.two_pos hle _ _ _).1 e hok⟩
  · have hrefused : (errorOf? (parse shallowDialect "context" (startOf unfinishedLine))).map
        ParseError.reason = some (.unexpected "context" ["'actions'", "'and'", "'or'"] none none) := by decide +kernel
    obtain ⟨e, he, hreason⟩ := Option.map_eq_some_iff.mp hrefused
    have herror := eq_of_errorOf?_eq_some he
    have hdeep : ¬ (Failure.parse e).IsTooDeep := by
      rintro ⟨_, _, _, ⟨⟩, hdeep⟩
      rw [hreason] at hdeep
      cases hdeep
    exact ⟨.parse e, herror, hdeep, (parse_withDepth Nat.two_pos hle _ _ _).2.1 _ herror hdeep⟩
  · have hrefused : (errorOf? (parse shallowDialect "context" (startOf innerGroupLine))).map
        ParseError.reason = some (.tooDeep "context" 1) := by decide +kernel
    obtain ⟨e, he, hreason⟩ := Option.map_eq_some_iff.mp hrefused
    have herror := eq_of_errorOf?_eq_some he
    have hdeep : (Failure.parse e).IsTooDeep := ⟨e, _, _, rfl, hreason⟩
    exact ⟨.parse e, herror, hdeep, (parse_withDepth Nat.two_pos hle _ _ _).2.2 _ herror hdeep⟩

end Expression
end BrailleTable
