/-
Expressions of tokens that stand elsewhere.

Every production takes the same way through tokens that have been moved, so it finds the same tree, moved, and misses the
same tokens.  A tree without parts would be placed at the start of the source wherever its tokens stand; no production
finds one (`Filled`).
-/
import BrailleTable.Expression.Parser
import BrailleTable.Proofs.Expression.Grammar
import BrailleTable.Proofs.Expression.Places
import BrailleTable.Proofs.Relocation.Value

namespace BrailleTable

variable (v : Relocation)

/-! ## Cursors and misses -/

namespace Cursor

def relocate (v : Relocation) (c : Cursor) : Cursor :=
  { tokens := c.tokens.map (Token.move v), pos := c.pos, eol := v.span c.eol }

variable (c : Cursor)

theorem peek?_relocate : (c.relocate v).peek? = c.peek?.map (Token.move v) := List.getElem?_map

theorem next_relocate : (c.relocate v).next = c.next.relocate v := by
  unfold next relocate
  rw [List.length_map]

theorem atEnd_relocate : (c.relocate v).atEnd = c.atEnd := by
  unfold atEnd relocate
  rw [List.length_map]

theorem length_rest_relocate : (c.relocate v).rest.length = c.rest.length := by
  unfold rest relocate
  rw [List.length_drop, List.length_drop, List.length_map]

theorem span_relocate : (c.relocate v).span = v.span c.span := by
  unfold span
  rw [peek?_relocate]
  cases c.peek? <;> rfl

theorem found_relocate : (c.relocate v).found = c.found := by
  unfold found
  rw [peek?_relocate]
  cases c.peek? <;> rfl

theorem isWord_relocate (word : Text) : (c.relocate v).isWord word = c.isWord word := by
  unfold isWord
  rw [peek?_relocate]
  cases c.peek? <;> rfl

theorem isPunctuation_relocate (text : Text) : (c.relocate v).isPunctuation text = c.isPunctuation text := by
  unfold isPunctuation
  rw [peek?_relocate]
  cases c.peek? <;> rfl

/-- A cursor over tokens of the line. -/
def IsHeld (v : Relocation) (c : Cursor) : Prop := ∀ t ∈ c.tokens, v.Holds t

variable {v c}

theorem IsHeld.next (h : c.IsHeld v) : c.next.IsHeld v := h

theorem IsHeld.peek? {t : Token} (h : c.IsHeld v) (ht : c.peek? = some t) : v.Holds t :=
  h t (List.mem_of_getElem? ht)

end Cursor

def Miss.move (v : Relocation) (m : Miss) : Miss :=
  { cursor := m.cursor.relocate v, expected := m.expected, context := m.context.map v.span }

namespace Furthest

def move (v : Relocation) (f : Furthest) : Furthest :=
  { cursor := f.cursor.map (Cursor.relocate v), expected := f.expected, context := f.context.map v.span }

theorem pos_move (f : Furthest) : (f.move v).pos = f.pos := by
  obtain ⟨cursor, expected, context⟩ := f
  cases cursor <;> rfl

theorem add_move (f : Furthest) (m : Miss) : (f.move v).add (m.move v) = (f.add m).move v := by
  have hcontext : (f.move v).context.or (m.move v).context = (f.context.or m.context).map v.span := by
    show (f.context.map _).or (m.context.map _) = _
    cases f.context <;> rfl
  unfold add
  rw [pos_move, hcontext]
  show (if f.pos < m.cursor.pos then _ else if (m.cursor.pos : Int) = f.pos then _ else _) =
    move v (if f.pos < m.cursor.pos then _ else if (m.cursor.pos : Int) = f.pos then _ else _)
  split
  · rfl
  · split <;> rfl

theorem ofMisses_move (ms : List Miss) : ofMisses (ms.map (Miss.move v)) = (ofMisses ms).move v := by
  have hfoldl : ∀ f : Furthest, (ms.map (Miss.move v)).foldl add (f.move v) = (ms.foldl add f).move v := by
    induction ms with
    | nil => exact fun f => rfl
    | cons m ms ih =>
      intro f
      rw [List.map_cons, List.foldl_cons, List.foldl_cons, add_move, ih]
  exact hfoldl none

end Furthest

/-! ## Outcomes -/

namespace Outcome

variable {v} {α β α' β' : Type} {R : α → α' → Prop} {S : β → β' → Prop} {o : Outcome α} {o' : Outcome α'}

/-- An outcome that is another one moved, where `R` says what becomes of the values. -/
inductive Follows (v : Relocation) (R : α → α' → Prop) : Outcome α → Outcome α' → Prop
  | found {a : α} {a' : α'} (ms : List Miss) : R a a' → Follows v R (.found a ms) (.found a' (ms.map (Miss.move v)))
  | missed (ms : List Miss) : Follows v R (.missed ms) (.missed (ms.map (Miss.move v)))
  | stuck (ms : List Miss) : Follows v R (.stuck ms) (.stuck (ms.map (Miss.move v)))
  | refused (f : Failure) : Follows v R (.refused f) (.refused (f.map v.span))

namespace Follows

theorem after (h : Follows v R o o') (ms : List Miss) : Follows v R (o.after ms) (o'.after (ms.map (Miss.move v))) := by
  cases h with
  | found ns ha =>
    simp only [Outcome.after, ← List.map_append]
    exact .found _ ha
  | missed ns =>
    simp only [Outcome.after, ← List.map_append]
    exact .missed _
  | stuck ns =>
    simp only [Outcome.after, ← List.map_append]
    exact .stuck _
  | refused f => exact .refused f

theorem bind (h : Follows v R o o') {k : α → Outcome β} {k' : α' → Outcome β'}
    (hk : ∀ a a', R a a' → Follows v S (k a) (k' a')) : Follows v S (o.bind k) (o'.bind k') := by
  cases h with
  | found ms ha => exact (hk _ _ ha).after ms
  | missed ms => exact .missed ms
  | stuck ms => exact .stuck ms
  | refused f => exact .refused f

theorem map (h : Follows v R o o') {k : α → β} {k' : α' → β'} (hk : ∀ a a', R a a' → S (k a) (k' a')) :
    Follows v S (o.map k) (o'.map k') :=
  h.bind fun a a' ha => .found [] (hk a a' ha)

theorem orElse (h : Follows v R o o') {other : Unit → Outcome α} {other' : Unit → Outcome α'}
    (hother : Follows v R (other ()) (other' ())) : Follows v R (o.orElse other) (o'.orElse other') := by
  cases h with
  | found ms ha => exact .found ms ha
  | missed ms => exact hother.after ms
  | stuck ms => exact .stuck ms
  | refused f => exact .refused f

theorem orMiss (h : Follows v R o o') (m : Miss) : Follows v R (o.orMiss m) (o'.orMiss (m.move v)) :=
  h.orElse (.missed [m])

theorem commit (h : Follows v R o o') : Follows v R o.commit o'.commit := by
  cases h with
  | found ms ha => exact .found ms ha
  | missed ms => exact .stuck ms
  | stuck ms => exact .stuck ms
  | refused f => exact .refused f

end Follows
end Outcome

namespace Expression

/-! ## Trees -/

/-- Every sequence and every chain of a test has parts. -/
inductive Filled : Expression Span → Prop
  | literal {content : Expression Span} {s : Span} : Filled (.literal content s)
  | classRef {name : Text} {s : Span} : Filled (.classRef name s)
  | compare {op : Comparison} {left right : Expression Span} {s : Span} : Filled (.compare op left right s)
  | combine {op : Connective} {operands : List (Expression Span)} {s : Span} :
      operands ≠ [] → (∀ e ∈ operands, Filled e) → Filled (.combine op operands s)
  | sequence {items : List (Expression Span)} {s : Span} :
      items ≠ [] → (∀ e ∈ items, Filled e) → Filled (.sequence items s)
  | step {name : Text} {operands : List (Expression Span)} {s : Span} : Filled (.step name operands s)

/-- Parts that something can be made of. -/
def AllFilled (es : List (Expression Span)) : Prop := es ≠ [] ∧ ∀ e ∈ es, e.Filled

theorem Filled.singleton {e : Expression Span} (h : e.Filled) : AllFilled [e] :=
  ⟨List.cons_ne_nil e [], fun _ hx => List.mem_singleton.mp hx ▸ h⟩

theorem AllFilled.of_cons {e : Expression Span} {es : List (Expression Span)} (he : e.Filled)
    (hes : ∀ x ∈ es, x.Filled) : AllFilled (e :: es) :=
  ⟨List.cons_ne_nil e es, List.forall_mem_cons.mpr ⟨he, hes⟩⟩

theorem Filled.sequenceItems {e : Expression Span} (h : e.Filled) : AllFilled (sequenceItems e) := by
  cases h with
  | sequence hne hall => exact ⟨hne, hall⟩
  | literal => exact Filled.literal.singleton
  | classRef => exact Filled.classRef.singleton
  | compare => exact Filled.compare.singleton
  | combine hne hall => exact (Filled.combine hne hall).singleton
  | step => exact Filled.step.singleton

theorem Filled.chainOperands {e : Expression Span} (h : e.Filled) (op : Connective) :
    AllFilled (chainOperands op e) := by
  cases h with
  | @combine op' operands s hne hall =>
    by_cases hop : op' = op
    · rw [Expression.chainOperands, if_pos hop]
      exact ⟨hne, hall⟩
    · rw [Expression.chainOperands, if_neg hop]
      exact (Filled.combine hne hall).singleton
  | literal => exact Filled.literal.singleton
  | classRef => exact Filled.classRef.singleton
  | compare => exact Filled.compare.singleton
  | sequence hne hall => exact (Filled.sequence hne hall).singleton
  | step => exact Filled.step.singleton

theorem AllFilled.ofItems {es : List (Expression Span)} (h : AllFilled es) : (ofItems es).Filled := by
  match es with
  | [] => exact absurd rfl h.1
  | [e] => exact h.2 e List.mem_cons_self
  | e :: e' :: es => exact .sequence h.1 h.2

theorem AllFilled.ofOperands {es : List (Expression Span)} (h : AllFilled es) (op : Connective) :
    (ofOperands op es).Filled := by
  match es with
  | [] => exact absurd rfl h.1
  | [e] => exact h.2 e List.mem_cons_self
  | e :: e' :: es => exact .combine h.1 h.2

/-- The parts of parts. -/
theorem AllFilled.flatMap {es : List (Expression Span)} (h : AllFilled es)
    {parts : Expression Span → List (Expression Span)} (hparts : ∀ e, e.Filled → AllFilled (parts e)) :
    AllFilled (es.flatMap parts) := by
  obtain ⟨hne, hall⟩ := h
  constructor
  · obtain ⟨e, he⟩ := List.exists_mem_of_ne_nil es hne
    obtain ⟨x, hx⟩ := List.exists_mem_of_ne_nil _ (hparts e (hall e he)).1
    exact List.ne_nil_of_mem (List.mem_flatMap.mpr ⟨e, he, hx⟩)
  · intro x hx
    obtain ⟨e, he, hx⟩ := List.mem_flatMap.mp hx
    exact (hparts e (hall e he)).2 x hx

/-- The range of the last of some expressions, or of another one if there is none. -/
theorem span_getLast?_getD_move (es : List (Expression Span)) (e : Expression Span) :
    ((es.map (map v.span)).getLast?.getD (e.map v.span)).span = v.span (es.getLast?.getD e).span := by
  rw [List.getLast?_map]
  cases es.getLast? with
  | none => exact span_map _ e
  | some x => exact span_map _ x

theorem cover_move (e : Expression Span) (es : List (Expression Span)) :
    cover (e.map v.span) (es.map (map v.span)) = v.span (cover e es) := by
  unfold cover
  rw [span_getLast?_getD_move, span_map, v.merge_span]

theorem ofItems_move {es : List (Expression Span)} (h : AllFilled es) :
    ofItems (es.map (map v.span)) = (ofItems es).map v.span := by
  match es with
  | [] => exact absurd rfl h.1
  | [e] => rfl
  | e :: e' :: es =>
    show Expression.sequence _ (cover (e.map v.span) ((e' :: es).map (map v.span))) =
      Expression.sequence (mapAll _ _) (v.span (cover e (e' :: es)))
    rw [cover_move, mapAll_eq_map]

theorem ofOperands_move {es : List (Expression Span)} (h : AllFilled es) (op : Connective) :
    ofOperands op (es.map (map v.span)) = (ofOperands op es).map v.span := by
  match es with
  | [] => exact absurd rfl h.1
  | [e] => rfl
  | e :: e' :: es =>
    show Expression.combine op _ (cover (e.map v.span) ((e' :: es).map (map v.span))) =
      Expression.combine op (mapAll _ _) (v.span (cover e (e' :: es)))
    rw [cover_move, mapAll_eq_map]

theorem sequenceItems_move (e : Expression Span) :
    sequenceItems (e.map v.span) = (sequenceItems e).map (map v.span) := by
  cases e with
  | sequence items s => exact mapAll_eq_map _ items
  | _ => rfl

theorem chainOperands_move (op : Connective) (e : Expression Span) :
    chainOperands op (e.map v.span) = (chainOperands op e).map (map v.span) := by
  cases e with
  | combine op' operands s =>
    show (if op' = op then mapAll _ operands else _) = List.map _ (if op' = op then operands else _)
    split
    · exact mapAll_eq_map _ operands
    · rfl
  | _ => rfl

theorem flatMap_move {parts : Expression Span → List (Expression Span)}
    (hparts : ∀ e, parts (e.map v.span) = (parts e).map (map v.span)) (es : List (Expression Span)) :
    (es.map (map v.span)).flatMap parts = (es.flatMap parts).map (map v.span) := by
  rw [List.flatMap_map, List.map_flatMap]
  exact List.flatMap_congr fun e _ => hparts e

/-! ## Operands -/

variable (d : Dialect) (opcode : Text) (context : Option Span)

theorem valueFailure_move (f : Failure) :
    valueFailure opcode (context.map v.span) (f.map v.span) = (valueFailure opcode context f).map v.span := by
  cases f <;> rfl

theorem subtoken_move {t : Token} (ht : v.Holds t) (i : Nat) : subtoken (t.move v) i = (subtoken t i).move v := by
  unfold subtoken
  rw [Token.subSpan_move ht]
  rfl

theorem ofValue_agree {x y : Except ParseError (Value Span)} (h : Agree (ParseError.map v.span) (Value.map v.span) x y)
    (s : Span) : Agree (Failure.map v.span) (map v.span) ((x.map (ofValue s)).mapError .parse)
      ((y.map (ofValue (v.span s))).mapError .parse) := by
  refine Agree.asFailure (h.map fun a => ?_)
  rfl

theorem operandOf?_move {t : Token} (ht : v.Holds t) :
    Option.Rel (Agree (Failure.map v.span) (map v.span)) (operandOf? d t) (operandOf? d (t.move v)) := by
  have hname : Agree (ParseError.map v.span) (map v.span) ((Value.classNameOf t).map (.classRef · t.span))
      ((Value.classNameOf (t.move v)).map (.classRef · (t.move v).span)) :=
    (Value.classNameOf_move ht).map fun _ => rfl
  unfold operandOf?
  refine rel_ite (fun _ => ?_) fun _ => rel_ite (fun _ => ?_) fun _ => rel_ite (fun _ => ?_) fun _ => ?_
  · exact .some (hname.asFailure)
  · exact .some ((Value.readNumber_move v t).map fun _ => rfl)
  · exact .some (ofValue_agree v (Value.readString_move v t) t.span)
  · have hsub : v.Holds (subtoken t 1) := ht
    rw [Token.subSpan_move ht, subtoken_move v ht]
    refine rel_ite (fun _ => rel_ite (fun _ => .some (.error _)) fun _ => ?_) fun _ => .none
    exact .some (ofValue_agree v (Value.readDots_move hsub d.dotAlphabet) t.span)

theorem filled_of_operandOf? {t : Token} {e : Expression Span} (h : operandOf? d t = some (.ok e)) : e.Filled := by
  cases operand_of_operandOf? h with
  | classRef => exact .classRef
  | _ => exact .literal

/-! ## The test -/

/-- What a production finds among tokens that have been moved. -/
def Moved (v : Relocation) (x y : Parsed) : Prop :=
  x.1.Filled ∧ x.2.IsHeld v ∧ y = (x.1.map v.span, x.2.relocate v)

/-- The same of a production that finds a list. -/
def MovedAll (v : Relocation) (x y : List (Expression Span) × Cursor) : Prop :=
  (∀ e ∈ x.1, e.Filled) ∧ x.2.IsHeld v ∧ y = (x.1.map (map v.span), x.2.relocate v)

/-- A production that does what another one does, on tokens that have been moved. -/
def Mimics (v : Relocation) (p q : Cursor → Outcome Parsed) : Prop :=
  ∀ c : Cursor, c.IsHeld v → (p c).Follows v (Moved v) (q (c.relocate v))

variable {v d opcode context}

theorem movedAll_nil {c : Cursor} (hc : c.IsHeld v) : MovedAll v ([], c) ([], c.relocate v) :=
  ⟨fun _ he => absurd he List.not_mem_nil, hc, rfl⟩

theorem taken_follows {c : Cursor} {x y : Except Failure (Expression Span)} (hc : c.IsHeld v)
    (h : Agree (Failure.map v.span) (map v.span) x y) (hfilled : ∀ e, x = .ok e → e.Filled) :
    (taken opcode context c x).Follows v (Moved v) (taken opcode (context.map v.span) (c.relocate v) y) := by
  cases h with
  | ok e => exact .found [] ⟨hfilled e rfl, hc.next, by rw [Cursor.next_relocate]⟩
  | error f =>
    unfold taken
    dsimp only
    rw [valueFailure_move]
    exact .refused _

theorem operand_mimics : Mimics v (operand d opcode context) (operand d opcode (context.map v.span)) := by
  intro c hc
  unfold operand
  rw [Cursor.peek?_relocate]
  cases hpeek : c.peek? with
  | none => exact .missed [_]
  | some t =>
    have hoperand := operandOf?_move v d (hc.peek? hpeek)
    have hfilled : ∀ x e, operandOf? d t = some x → x = .ok e → e.Filled := fun x e hx he =>
      filled_of_operandOf? d (he ▸ hx)
    dsimp only [Option.map_some, Option.bind_some]
    revert hoperand hfilled
    generalize operandOf? d t = x
    generalize operandOf? d (t.move v) = y
    intro hoperand hfilled
    cases hoperand with
    | none => exact .missed [_]
    | some hagree => exact taken_follows hc hagree fun e => hfilled _ e rfl

theorem bareWord_mimics : Mimics v (bareWord d opcode context) (bareWord d opcode (context.map v.span)) := by
  intro c hc
  unfold bareWord
  rw [Cursor.peek?_relocate]
  cases hpeek : c.peek? with
  | none => exact .missed [_]
  | some t =>
    refine rel_ite (fun _ => .missed [_]) fun _ => ?_
    have hvalue := ofValue_agree v (Value.readCharacters_move (hc.peek? hpeek)) t.span
    refine taken_follows hc hvalue fun e he => ?_
    obtain ⟨x, -, rfl⟩ := map_eq_ok (mapError_eq_ok he)
    exact .literal

theorem literalAt_mimics : Mimics v (literalAt d opcode context) (literalAt d opcode (context.map v.span)) :=
  fun c hc => (operand_mimics c hc).orElse (bareWord_mimics c hc)

theorem comparisonAt?_move (c : Cursor) : comparisonAt? (c.relocate v) = comparisonAt? c := by
  unfold comparisonAt?
  rw [Cursor.peek?_relocate]
  cases c.peek? <;> rfl

theorem comparison_mimics : Mimics v (comparison d opcode context) (comparison d opcode (context.map v.span)) := by
  intro c hc
  refine (operand_mimics c hc).bind ?_
  rintro ⟨left, middle⟩ _ ⟨-, hmiddle, rfl⟩
  dsimp only
  rw [comparisonAt?_move]
  cases comparisonAt? middle with
  | none => exact .missed [_]
  | some op =>
    dsimp only
    rw [Cursor.next_relocate]
    refine (operand_mimics middle.next hmiddle.next).commit.map ?_
    rintro ⟨right, rest⟩ _ ⟨-, hrest, rfl⟩
    refine ⟨.compare, hrest, ?_⟩
    rw [span_map, span_map, v.merge_span]
    rfl

variable {groupAt groupAt' : Cursor → Outcome Parsed}

theorem atom_mimics (hgroup : Mimics v groupAt groupAt') :
    Mimics v (atom d opcode groupAt context) (atom d opcode groupAt' (context.map v.span)) := by
  intro c hc
  unfold atom
  rw [Cursor.isPunctuation_relocate]
  refine rel_ite (fun _ => hgroup c hc) fun _ => (comparison_mimics c hc).orElse ?_
  rw [show ((c.relocate v).peek?.any fun t => t.kind = .word && t.text.head? = some ('_' : CodePoint)) =
      c.peek?.any fun t => t.kind = .word && t.text.head? = some ('_' : CodePoint) by
    rw [Cursor.peek?_relocate]; cases c.peek? <;> rfl]
  exact rel_ite (fun _ => operand_mimics c hc) fun _ => (literalAt_mimics c hc).orMiss _

theorem negation_mimics (hgroup : Mimics v groupAt groupAt') :
    Mimics v (negation d opcode groupAt context) (negation d opcode groupAt' (context.map v.span)) := by
  intro c hc
  unfold negation
  rw [Cursor.isWord_relocate, Cursor.next_relocate, Cursor.span_relocate]
  refine rel_ite (fun _ => (atom_mimics hgroup c.next hc.next).commit.map ?_) fun _ =>
    (atom_mimics hgroup c hc).orMiss _
  rintro ⟨e, rest⟩ _ ⟨he, hrest, rfl⟩
  refine ⟨.combine he.singleton.1 he.singleton.2, hrest, ?_⟩
  dsimp only
  rw [span_map, v.merge_span]
  rfl

theorem many_mimics {p q : Cursor → Outcome Parsed} (h : Mimics v p q) (limit : Nat) {c : Cursor}
    (hc : c.IsHeld v) : (many p limit c).Follows v (MovedAll v) (many q limit (c.relocate v)) := by
  induction limit generalizing c with
  | zero => exact .found [] (movedAll_nil hc)
  | succ limit ih =>
    rw [many, many, Cursor.atEnd_relocate]
    have hnone := movedAll_nil hc
    refine rel_ite (fun _ => .found [] hnone) fun _ => ((h c hc).bind ?_).orElse (.found [] hnone)
    rintro ⟨e, rest⟩ _ ⟨he, hrest, rfl⟩
    refine (ih hrest).map ?_
    rintro ⟨es, rest'⟩ _ ⟨hes, hrest', rfl⟩
    exact ⟨(AllFilled.of_cons he hes).2, hrest', rfl⟩

theorem sequenceAt_mimics (hgroup : Mimics v groupAt groupAt') :
    Mimics v (sequenceAt d opcode groupAt context) (sequenceAt d opcode groupAt' (context.map v.span)) := by
  intro c hc
  refine (negation_mimics hgroup c hc).bind ?_
  rintro ⟨first, rest⟩ _ ⟨hfirst, hrest, rfl⟩
  dsimp only
  rw [Cursor.length_rest_relocate]
  refine (many_mimics (negation_mimics hgroup) _ hrest).map ?_
  rintro ⟨more, rest'⟩ _ ⟨hmore, hrest', rfl⟩
  have hall : AllFilled ((first :: more).flatMap sequenceItems) :=
    (AllFilled.of_cons hfirst hmore).flatMap fun e he => he.sequenceItems
  refine ⟨hall.ofItems, hrest', ?_⟩
  dsimp only
  rw [← ofItems_move v hall, ← flatMap_move v (sequenceItems_move v)]
  rfl

theorem links_mimics {p q : Cursor → Outcome Parsed} (h : Mimics v p q) (op : Connective) (limit : Nat) {c : Cursor}
    (hc : c.IsHeld v) : (links op context p limit c).Follows v (MovedAll v)
      (links op (context.map v.span) q limit (c.relocate v)) := by
  induction limit generalizing c with
  | zero => exact .found [_] (movedAll_nil hc)
  | succ limit ih =>
    rw [links, links, Cursor.isWord_relocate, Cursor.next_relocate]
    refine rel_ite (fun _ => (h c.next hc.next).commit.bind ?_) fun _ => .found [_] (movedAll_nil hc)
    rintro ⟨e, rest⟩ _ ⟨he, hrest, rfl⟩
    refine (ih hrest).map ?_
    rintro ⟨es, rest'⟩ _ ⟨hes, hrest', rfl⟩
    exact ⟨(AllFilled.of_cons he hes).2, hrest', rfl⟩

theorem chain_mimics {p q : Cursor → Outcome Parsed} (h : Mimics v p q) (op : Connective) :
    Mimics v (chain op context p) (chain op (context.map v.span) q) := by
  intro c hc
  refine (h c hc).bind ?_
  rintro ⟨first, rest⟩ _ ⟨hfirst, hrest, rfl⟩
  dsimp only
  rw [Cursor.length_rest_relocate]
  refine (links_mimics h op _ hrest).map ?_
  rintro ⟨more, rest'⟩ _ ⟨hmore, hrest', rfl⟩
  have hall : AllFilled ((first :: more).flatMap (chainOperands op)) :=
    (AllFilled.of_cons hfirst hmore).flatMap fun e he => he.chainOperands op
  refine ⟨hall.ofOperands op, hrest', ?_⟩
  dsimp only
  rw [← ofOperands_move v hall, ← flatMap_move v (chainOperands_move v op)]
  rfl

theorem disjunction_mimics (hgroup : Mimics v groupAt groupAt') :
    Mimics v (disjunction d opcode groupAt context) (disjunction d opcode groupAt' (context.map v.span)) :=
  chain_mimics (chain_mimics (sequenceAt_mimics hgroup) .conj) .disj

theorem group_mimics {inner : Option Span → Cursor → Outcome Parsed}
    (h : ∀ context, Mimics v (inner context) (inner (context.map v.span))) :
    Mimics v (group inner) (group inner) := by
  intro c hc
  unfold group
  dsimp only
  rw [Cursor.span_relocate, Cursor.next_relocate]
  refine (h (some c.span) c.next hc.next).commit.bind ?_
  rintro ⟨e, rest⟩ _ ⟨he, hrest, rfl⟩
  dsimp only
  rw [Cursor.isPunctuation_relocate, Cursor.next_relocate]
  exact rel_ite (fun _ => .found [] ⟨he, hrest.next, rfl⟩) fun _ => .stuck [_]

theorem refuseGroup_mimics :
    Mimics v (refuseGroup d opcode context) (refuseGroup d opcode (context.map v.span)) := by
  intro c _
  unfold refuseGroup
  rw [Cursor.span_relocate, Cursor.found_relocate]
  exact .refused _

theorem test_mimics (depth : Nat) (context : Option Span) :
    Mimics v (test d opcode depth context) (test d opcode depth (context.map v.span)) := by
  induction depth generalizing context with
  | zero => exact disjunction_mimics refuseGroup_mimics
  | succ depth ih => exact disjunction_mimics (group_mimics ih)

/-! ## The actions -/

theorem stepAt_mimics : Mimics v (stepAt d opcode none) (stepAt d opcode none) := by
  intro c hc
  unfold stepAt
  rw [Cursor.peek?_relocate]
  cases hpeek : c.peek? with
  | none => exact .missed [_]
  | some t =>
    refine rel_ite (fun _ => .missed [_]) fun _ => ?_
    obtain ⟨name, hx, hy⟩ | ⟨e, hx, hy⟩ := (Value.nameOf_move (hc.peek? hpeek)).ok_or_error
    · rw [hx, hy]
      dsimp only [id]
      rw [Cursor.next_relocate, Cursor.length_rest_relocate]
      have hoperand : Mimics v (operand d opcode none) (operand d opcode none) := operand_mimics
      refine (many_mimics hoperand _ hc.next).map ?_
      rintro ⟨operands, rest⟩ _ ⟨-, hrest, rfl⟩
      have hlast : ((operands.map (map v.span)).getLast?.map Expression.span).getD (t.move v).span =
          v.span ((operands.getLast?.map Expression.span).getD t.span) := by
        rw [List.getLast?_map]
        cases operands.getLast? with
        | none => rfl
        | some e => exact span_map _ e
      refine ⟨.step, hrest, ?_⟩
      dsimp only
      rw [hlast, Token.span_move, v.merge_span, map, mapAll_eq_map]
    · rw [hx, hy]
      exact .refused _

theorem keyword_follows (word : Text) {c : Cursor} (hc : c.IsHeld v) :
    (keyword none word c).Follows v (fun x y => x.IsHeld v ∧ y = x.relocate v) (keyword none word (c.relocate v)) := by
  unfold keyword
  rw [Cursor.isWord_relocate, Cursor.next_relocate]
  exact rel_ite (fun _ => .found [] ⟨hc.next, rfl⟩) fun _ => .stuck [_]

theorem steps_follows {c : Cursor} (hc : c.IsHeld v) :
    (steps d opcode none c).Follows v (fun x y => y = x.map (map v.span)) (steps d opcode none (c.relocate v)) := by
  refine (stepAt_mimics c hc).commit.bind ?_
  rintro ⟨first, rest⟩ _ ⟨-, hrest, rfl⟩
  dsimp only
  rw [Cursor.length_rest_relocate]
  refine (many_mimics stepAt_mimics _ hrest).bind ?_
  rintro ⟨more, rest'⟩ _ ⟨-, -, rfl⟩
  dsimp only
  rw [Cursor.atEnd_relocate]
  exact rel_ite (fun _ => .found [] rfl) fun _ => .stuck [_]

/-! ## The whole -/

theorem bodyAt_follows {c : Cursor} (hc : c.IsHeld v) :
    (bodyAt d opcode c).Follows v (fun x y => y = x.map v.span) (bodyAt d opcode (c.relocate v)) := by
  refine (keyword_follows _ hc).bind ?_
  rintro c₁ _ ⟨hc₁, rfl⟩
  refine (test_mimics d.maxDepth none c₁ hc₁).commit.bind ?_
  rintro ⟨e, rest⟩ _ ⟨-, hrest, rfl⟩
  refine (keyword_follows _ hrest).bind ?_
  rintro c₂ _ ⟨hc₂, rfl⟩
  refine (steps_follows hc₂).map ?_
  rintro actions _ rfl
  rw [Cursor.span_relocate, span_getLast?_getD_move, v.merge_span, map, mapAll_eq_map]

theorem unexpected_move (c : Cursor) (ms : List Miss) :
    unexpected opcode (c.relocate v) (ms.map (Miss.move v)) = (unexpected opcode c ms).map v.span := by
  have hstop : ((Furthest.ofMisses ms).move v).cursor.getD (c.relocate v) =
      ((Furthest.ofMisses ms).cursor.getD c).relocate v := by
    show ((Furthest.ofMisses ms).cursor.map _).getD _ = _
    cases (Furthest.ofMisses ms).cursor <;> rfl
  unfold unexpected
  dsimp only
  rw [Furthest.ofMisses_move, hstop, Cursor.found_relocate, Cursor.span_relocate]
  rfl

/-- The expression of tokens that have been moved is their expression, moved. -/
theorem parse_move {c : Cursor} (hc : c.IsHeld v) :
    Agree (Failure.map v.span) (map v.span) (parse d opcode c) (parse d opcode (c.relocate v)) := by
  have hbody : (bodyAt d opcode c).Follows v (fun x y => y = x.map v.span) (bodyAt d opcode (c.relocate v)) :=
    bodyAt_follows hc
  unfold parse conclude
  revert hbody
  generalize bodyAt d opcode c = o
  generalize bodyAt d opcode (c.relocate v) = o'
  intro hbody
  cases hbody with
  | found ms h =>
    cases h
    exact .ok _
  | missed ms =>
    dsimp only
    rw [unexpected_move]
    exact .error _
  | stuck ms =>
    dsimp only
    rw [unexpected_move]
    exact .error _
  | refused f => exact .error _

end Expression
end BrailleTable
