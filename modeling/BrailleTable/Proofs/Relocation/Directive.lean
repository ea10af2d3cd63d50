/-
Directives of lines that stand elsewhere.

A value that was left out stands at the opcode, and an argument that is missing at the end of the line; both are places of
the line and move with it.
-/
import BrailleTable.Proofs.Directive.Head
import BrailleTable.Proofs.Relocation.Expression
import BrailleTable.Proofs.Relocation.Lexer
import BrailleTable.Proofs.Table.Alone

namespace BrailleTable

variable {v : Relocation} {t : Token} {ts : List Token}

namespace Directive

/-- A directive keeps everything but the annotations of its parts. -/
def map {σ τ : Type} (f : σ → τ) (r : Directive σ) : Directive τ :=
  { opcode := r.opcode, args := r.args.map (Value.map f), expression := r.expression.map (Expression.map f),
    modifiers := r.modifiers, span := f r.span, comment := r.comment }

/-! ## Modifiers and the opcode -/

/-- Modifiers with the tokens they were read from. -/
abbrev moveHead (v : Relocation) : List (Modifier × Token) → List (Modifier × Token) :=
  List.map (Prod.map id (Token.move v))

theorem readModifiers_move (v : Relocation) (seen : List Modifier) (ts : List Token) :
    Agree (ParseError.map v.span) (Prod.map (moveHead v) (List.map (Token.move v))) (readModifiers seen ts)
      (readModifiers seen (ts.map (Token.move v))) := by
  induction ts generalizing seen with
  | nil => exact .ok _
  | cons t rest ih =>
    rw [List.map_cons, readModifiers, readModifiers]
    rw [show modifierOf? (t.move v) = modifierOf? t from rfl]
    cases modifierOf? t with
    | none => exact .ok _
    | some m =>
      refine rel_ite (fun _ => .error _) fun _ => rel_ite (fun _ => .error _) fun _ => ?_
      exact (ih (m :: seen)).map fun _ => rfl

theorem readOpcode_move (v : Relocation) (vocabulary : Vocabulary) (ms : List (Modifier × Token)) (t : Token) :
    Agree (ParseError.map v.span) id (readOpcode vocabulary ms t) (readOpcode vocabulary (moveHead v ms) (t.move v)) := by
  unfold readOpcode
  rw [show (if (t.move v).kind = .quoted then none else vocabulary.lookup (t.move v).text.lower) =
    if t.kind = .quoted then none else vocabulary.lookup t.text.lower from rfl]
  cases (if t.kind = .quoted then none else vocabulary.lookup t.text.lower) with
  | none => exact .error _
  | some shape =>
    cases ms with
    | nil => exact .ok _
    | cons m ms => exact rel_ite (fun _ => .ok _) fun _ => .error _

/-! ## Arguments -/

theorem defaultValue_move (v : Relocation) (slot : Slot) (raw : Text) (span : Span) :
    Agree (Failure.map v.span) (Value.map v.span) (defaultValue slot raw span) (defaultValue slot raw (v.span span)) := by
  unfold defaultValue
  split
  · exact .ok _
  · split
    · exact .ok _
    · exact .error _
    · exact .error _
  · exact .ok _
  · exact .ok _

theorem readArgument_move (ht : v.Holds t) (alphabet opcode : Text) (slot : Slot) (position : Nat) :
    Agree (Failure.map v.span) (Value.map v.span) (readArgument alphabet opcode slot position t)
      (readArgument alphabet opcode slot position (t.move v)) := by
  unfold readArgument
  obtain ⟨a, hx, hy⟩ | ⟨f, hx, hy⟩ := (SlotKind.choose_move ht alphabet slot.kinds).ok_or_error
  · rw [hx, hy]
    cases a with
    | number n s => exact rel_ite (fun _ => .ok _) fun _ => .error _
    | _ => exact .ok _
  · rw [hx, hy]
    cases f <;> exact .error _

theorem readRepeated_move (hts : ∀ t ∈ ts, v.Holds t) (alphabet opcode : Text) (slot : Slot) (position : Nat) :
    Agree (Failure.map v.span) (List.map (Value.map v.span)) (readRepeated alphabet opcode slot position ts)
      (readRepeated alphabet opcode slot position (ts.map (Token.move v))) := by
  induction ts generalizing position with
  | nil => exact .ok _
  | cons t rest ih =>
    obtain ⟨ht, hrest⟩ := List.forall_mem_cons.mp hts
    exact (readArgument_move ht alphabet opcode slot position).bind fun _ => (ih hrest _).bind fun _ => .ok _

theorem readSlots_move (hts : ∀ t ∈ ts, v.Holds t) (alphabet opcode : Text) (name eol : Span) (position : Nat)
    (slots : List Slot) :
    Agree (Failure.map v.span) (Prod.map (List.map (Value.map v.span)) (List.map (Token.move v)))
      (readSlots alphabet opcode name eol position slots ts)
      (readSlots alphabet opcode (v.span name) (v.span eol) position slots (ts.map (Token.move v))) := by
  induction slots generalizing position ts with
  | nil => exact .ok _
  | cons slot slots ih =>
    unfold readSlots
    rw [List.length_map]
    refine rel_ite (fun _ => ?_) fun _ => ?_
    · cases slot.fallback with
      | none => exact ih hts _
      | some raw => exact (defaultValue_move v slot raw name).bind fun _ => (ih hts _).bind fun _ => .ok _
    · cases ts with
      | nil => exact .error _
      | cons t rest =>
        obtain ⟨ht, hrest⟩ := List.forall_mem_cons.mp hts
        have hnone : ∀ u ∈ ([] : List Token), v.Holds u := fun u hu => absurd hu List.not_mem_nil
        refine rel_ite (fun _ => ?_) fun _ => ?_
        · refine (readRepeated_move hts alphabet opcode slot position).bind fun vs => ?_
          refine (ih hnone _).bind fun x => ?_
          show Agree _ _ (.ok (vs ++ x.1, x.2)) (.ok (vs.map (Value.map v.span) ++ x.1.map (Value.map v.span), _))
          rw [← List.map_append]
          exact .ok _
        · exact (readArgument_move ht alphabet opcode slot position).bind fun _ => (ih hrest _).bind fun _ => .ok _

theorem readArguments_move (hts : ∀ t ∈ ts, v.Holds t) (alphabet : Text) (shape : Shape) (name eol : Span) :
    Agree (Failure.map v.span) (List.map (Value.map v.span)) (readArguments alphabet shape name eol ts)
      (readArguments alphabet shape (v.span name) (v.span eol) (ts.map (Token.move v))) := by
  refine (readSlots_move hts alphabet shape.name name eol 1 shape.slots).bind fun x => ?_
  obtain ⟨vs, left⟩ := x
  cases left with
  | nil => exact .ok _
  | cons t left =>
    dsimp only [Prod.map, List.map_cons]
    rw [List.length_map]
    exact .error _

/-! ## The whole line -/

theorem coverTokens_move (v : Relocation) (first : Token) (rest : List Token) :
    coverTokens (first.move v) (rest.map (Token.move v)) = v.span (coverTokens first rest) := by
  unfold coverTokens
  rw [List.getLast?_map, Token.span_move]
  cases rest.getLast? with
  | none => exact v.merge_span _ _
  | some t => exact v.merge_span _ _

/-- The directive of tokens that have been moved is their directive, moved. -/
theorem parse_move (hts : ∀ t ∈ ts, v.Holds t) (d : Dialect) (eol : Span) (comment : Option Text) :
    Agree (Failure.map v.span) (map v.span) (parse d ts eol comment)
      (parse d (ts.map (Token.move v)) (v.span eol) comment) := by
  refine (readModifiers_move v [] ts).asFailure.bind_of_eq fun x hx => ?_
  obtain ⟨ms, rest⟩ := x
  have hrest : ∀ u ∈ rest, v.Holds u := by
    rw [eq_append_of_readModifiers (mapError_eq_ok hx)] at hts
    exact fun u hu => hts u (List.mem_append_right _ hu)
  dsimp only [Prod.map]
  have hlast : (((moveHead v ms).getLast?.map fun m => m.1.label).getD [] : Text) =
      (ms.getLast?.map fun m => m.1.label).getD [] := by
    rw [List.getLast?_map]
    cases ms.getLast? <;> rfl
  have hmodifiers : (moveHead v ms).map (·.1) = ms.map (·.1) := by
    rw [List.map_map]
    rfl
  match ts, rest with
  | [], rest =>
    dsimp only [List.map_nil]
    rw [hlast]
    exact .error _
  | first :: more, [] =>
    dsimp only [List.map_nil, List.map_cons]
    rw [hlast]
    exact .error _
  | first :: more, t :: arguments =>
    have harguments : ∀ u ∈ arguments, v.Holds u := (List.forall_mem_cons.mp hrest).2
    rw [List.map_cons, List.map_cons, hmodifiers]
    dsimp only
    rw [coverTokens_move]
    refine (readOpcode_move v d.vocabulary ms t).asFailure.bind fun shape => ?_
    refine rel_ite (fun _ => ?_) fun _ => ?_
    · have hsplit : (arguments.map (Token.move v)).flatMap Token.splitOperators =
          (arguments.flatMap Token.splitOperators).map (Token.move v) := by
        rw [List.flatMap_map, List.map_flatMap]
        exact List.flatMap_congr fun u hu => Token.splitOperators_move (harguments u hu)
      have hheld : Cursor.IsHeld v ⟨arguments.flatMap Token.splitOperators, 0, eol⟩ := by
        intro u hu
        obtain ⟨t', ht', hu⟩ := List.mem_flatMap.mp hu
        exact Token.holds_of_mem_splitOperators (harguments t' ht') u hu
      rw [hsplit]
      exact (Expression.parse_move hheld).bind fun _ => .ok _
    · exact (readArguments_move harguments d.dotAlphabet shape t.span eol).bind fun _ => .ok _

end Directive

namespace Table

/-- A line that stands elsewhere is read as it was, with the directive or the failure moved. -/
theorem readAlone_move (v : Relocation) (d : Dialect) :
    Agree (Failure.map v.span) (Option.map (Directive.map v.span)) (readAlone d v.line) (readAlone d v.image) := by
  unfold readAlone readLine
  obtain ⟨htokens, hlexer⟩ := Lexer.tokenize_move v (.ofDialect d)
  cases hx : (Lexer.ofDialect d).tokenize v.line with
  | mk x lx =>
    cases hy : (Lexer.ofDialect d).tokenize v.image with
    | mk y lx' =>
      rw [hx, hy] at htokens hlexer
      obtain rfl : lx' = lx.move v := hlexer
      cases htokens with
      | error e => exact .error _
      | ok ts =>
        cases ts with
        | nil => exact .ok _
        | cons t ts =>
          have hts : ∀ u ∈ t :: ts, v.Holds u := fun u hu => ((Lexer.tokenize_eq_ok hx).1 u hu).source_eq
          dsimp only [List.map_cons]
          rw [v.endSpan_image]
          exact (Directive.parse_move hts d v.line.endSpan lx.comment).map fun _ => rfl

end Table
end BrailleTable
