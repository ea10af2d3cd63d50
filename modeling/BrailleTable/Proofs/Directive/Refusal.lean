/-
Arguments that no kind of their slot takes.

When a directive is refused because of an argument, one of the tokens of its line was handed to a slot whose kinds all
refuse it, and the error is the refusal of the kind that speaks for the slot.  What that refusal names and where it points
is what the error of the directive names and where it points.
-/
import BrailleTable.Proofs.Value.Choice

namespace BrailleTable

/-- The reason of an error about an argument that its slot refuses. -/
def Reason.IsWrongArgument (r : Reason) : Prop := ∃ opcode position label cause, r = .wrongArgument opcode position label cause

/-- The expressions of a dialect have reasons of their own. -/
theorem Expression.not_isWrongArgument_of_parse {d : Dialect} {opcode : Text} {c : Cursor} {e : ParseError}
    (h : parse d opcode c = .error (.parse e)) : ¬ e.reason.IsWrongArgument := by
  have hinvariant : Invariant d opcode (fun _ _ => True) (fun _ => True)
      (fun f => ∀ e, f = .parse e → ¬ e.reason.IsWrongArgument) := by
    refine ⟨fun _ _ => trivial, fun _ _ => trivial, ?_, ?_⟩
    · rintro stack c t f - - - e he ⟨_, _, _, _, hreason⟩
      cases f with
      | parse cause =>
        cases he
        cases hreason
      | _ => cases he
    · rintro stack c - - - expected e he ⟨_, _, _, _, hreason⟩
      cases he
      cases hreason
  refine hinvariant.of_parse_eq_error trivial (fun ms _ _ e he => ?_) h e rfl
  rintro ⟨_, _, _, _, hreason⟩
  cases he
  cases hreason

namespace Directive

variable {d : Dialect} {alphabet opcode : Text} {slot : Slot} {t : Token} {ts : List Token} {e : ParseError}

theorem IsHeadError.not_isWrongArgument (h : IsHeadError ts e) : ¬ e.reason.IsWrongArgument := by
  rintro ⟨_, _, _, _, hreason⟩
  cases h <;> cases hreason

/-- An argument that its slot refuses is one that no kind of the slot takes. -/
theorem choose_eq_error_of_readArgument {position : Nat} (h : readArgument alphabet opcode slot position t = .error (.parse e))
    (hreason : e.reason.IsWrongArgument) :
    ∃ e', SlotKind.choose alphabet slot.kinds t = .error (.parse e') ∧ e.span = e'.span ∧ e.found = e'.found := by
  unfold readArgument at h
  split at h
  · rename_i e' hchoose
    cases h
    exact ⟨e', hchoose, rfl, rfl⟩
  · rename_i f hne hchoose
    cases h
    exact absurd rfl (hne e)
  · split at h
    · cases h
    · cases h
      obtain ⟨_, _, _, _, hreason⟩ := hreason
      cases hreason
  · cases h

theorem exists_readArgument_of_readRepeated {position : Nat} {f : Failure}
    (h : readRepeated alphabet opcode slot position ts = .error f) :
    ∃ t ∈ ts, ∃ n, readArgument alphabet opcode slot n t = .error f := by
  induction ts generalizing position with
  | nil => cases h
  | cons t ts ih =>
    unfold readRepeated at h
    rcases bind_eq_error h with h | ⟨v, -, h⟩
    · exact ⟨t, List.mem_cons_self, position, h⟩
    · rcases bind_eq_error h with h | ⟨vs, -, h⟩
      · obtain ⟨u, hu, n, hread⟩ := ih h
        exact ⟨u, List.mem_cons_of_mem t hu, n, hread⟩
      · cases h

variable {name eol : Span}

theorem exists_readArgument_of_readSlots {position : Nat} {slots : List Slot} (hslots : ∀ slot ∈ slots, slot.IsSound)
    (h : readSlots alphabet opcode name eol position slots ts = .error (.parse e)) (hreason : e.reason.IsWrongArgument) :
    ∃ t ∈ ts, ∃ slot ∈ slots, ∃ n, readArgument alphabet opcode slot n t = .error (.parse e) := by
  induction slots generalizing position ts with
  | nil => cases h
  | cons slot slots ih =>
    rcases readSlots_cons_eq_error (hslots slot List.mem_cons_self) h with
      ⟨left, n, hleft, hmore⟩ | ⟨-, hmissing⟩ | hrepeated | ⟨t, ht, hread⟩
    · obtain ⟨t, ht, s, hs, m, hread⟩ := ih (fun s hs => hslots s (List.mem_cons_of_mem slot hs)) hmore
      exact ⟨t, hleft ht, s, List.mem_cons_of_mem slot hs, m, hread⟩
    · cases hmissing
      obtain ⟨_, _, _, _, hreason⟩ := hreason
      cases hreason
    · obtain ⟨t, ht, n, hread⟩ := exists_readArgument_of_readRepeated hrepeated
      exact ⟨t, ht, slot, List.mem_cons_self, n, hread⟩
    · exact ⟨t, ht, slot, List.mem_cons_self, position, hread⟩

theorem exists_readArgument_of_readArguments {shape : Shape} (hslots : ∀ slot ∈ shape.slots, slot.IsSound)
    (h : readArguments alphabet shape name eol ts = .error (.parse e)) (hreason : e.reason.IsWrongArgument) :
    ∃ t ∈ ts, ∃ slot ∈ shape.slots, ∃ n, readArgument alphabet shape.name slot n t = .error (.parse e) := by
  unfold readArguments at h
  rcases bind_eq_error h with h | ⟨⟨vs, left⟩, -, h⟩
  · exact exists_readArgument_of_readSlots hslots h hreason
  · cases left with
    | nil => cases h
    | cons t left =>
      cases h
      obtain ⟨_, _, _, _, hreason⟩ := hreason
      cases hreason

/-- Behind an error about a refused argument there is a token of the line that some slot refuses. -/
theorem exists_readArgument_of_parse (hd : d.vocabulary.IsSound) {comment : Option Text}
    (h : parse d ts eol comment = .error (.parse e)) (hreason : e.reason.IsWrongArgument) :
    ∃ t ∈ ts, ∃ shape ∈ d.vocabulary, ∃ slot ∈ shape.slots, ∃ n,
      readArgument d.dotAlphabet shape.name slot n t = .error (.parse e) := by
  cases isRefused_of_parse h with
  | head hrefused => exact absurd hreason hrefused.not_isWrongArgument
  | missing =>
    obtain ⟨_, _, _, _, hreason⟩ := hreason
    cases hreason
  | expression _ _ hrefused => exact absurd hreason (Expression.not_isWrongArgument_of_parse hrefused)
  | arguments hsplit hshape hrefused =>
    obtain ⟨u, hu, slot, hslot, n, hread⟩ := exists_readArgument_of_readArguments (hd _ hshape) hrefused hreason
    exact ⟨u, hsplit ▸ List.mem_append_right _ (List.mem_cons_of_mem _ hu), _, hshape, slot, hslot, n, hread⟩

end Directive

/-- What the error of a refused argument names and where it points.  It starts in the token that the slot refused, and it
ends there unless it is about an escape by number that the token is too short for.  It names the token, unless the kind
that speaks for the slot is that of classes and refuses the body of one: then it names the body. -/
theorem Directive.found_of_isWrongArgument {settings : List (Text × Dialect.Datum)} {opcodes : List (Text × Text)}
    {d : Dialect} (hd : Dialect.configure settings opcodes = .ok d) {line : LogicalLine} (hline : line.IsSource)
    {lx : Lexer} {ts : List Token} (htokens : (lx.tokenize line).1 = .ok ts) {eol : Span} {comment : Option Text}
    {e : ParseError} (h : Directive.parse d ts eol comment = .error (.parse e)) (hreason : e.reason.IsWrongArgument) :
    ∃ t ∈ ts, ∃ shape ∈ d.vocabulary, ∃ slot ∈ shape.slots, ∃ n kind e₀,
      readArgument d.dotAlphabet shape.name slot n t = .error (.parse e) ∧
      SlotKind.Decides d.dotAlphabet t slot.kinds kind e₀ ∧
      t.span.start ≤ e.span.start ∧ e.span.start ≤ t.span.stop ∧ e.span.start ≤ e.span.stop ∧
      (e.span.stop ≤ t.span.stop ↔ ¬ t.Overruns e.span) ∧
      (e.found = some t.text ↔ ¬ (kind = .charClass ∧ Value.RefusesBody t e₀)) ∧
      (kind = .charClass ∧ Value.RefusesBody t e₀ → e.found = some (t.text.drop 1)) := by
  obtain ⟨t, ht, shape, hshape, slot, hslot, n, hread⟩ :=
    exists_readArgument_of_parse (Dialect.isSound_of_configure hd) h hreason
  obtain ⟨e', hchoose, hspan, hfound⟩ := choose_eq_error_of_readArgument hread hreason
  obtain ⟨kind, e₀, hdecides, labels, rfl⟩ := SlotKind.exists_decides_of_choose hchoose
  have hcut := (Lexer.tokenize_eq_ok (Prod.ext htokens rfl)).1 t ht
  obtain ⟨hstart, hmiddle, hle, hstop⟩ :=
    hcut.points_within hline.isPlaced (hspan ▸ SlotKind.points_of_choose hchoose)
  refine ⟨t, ht, shape, hshape, slot, hslot, n, kind, e₀, hread, hdecides, hstart, hmiddle, hle, hstop, ⟨?_, ?_⟩, ?_⟩
  · rintro htext ⟨-, hbody⟩
    exact hbody.found_ne (hfound.symm.trans htext)
  · intro hbody
    exact hfound.trans ((SlotKind.found_of_read hdecides.read_eq).resolve_right hbody)
  · rintro ⟨-, hbody⟩
    exact hfound.trans hbody.found_eq

/-- A class with an escape that is none. -/
def strayEscapeLine : LogicalLine := .single "class vowels [a\\q]" ⟨1, 1, 0⟩

def strayEscapeTokens : List Token := (Lexer.basic.tokenize strayEscapeLine).1.toOption.getD []

/-- The bracket is missing from what is named. -/
theorem Directive.found_of_isWrongArgument_strayEscape : ∃ d, Dialect.configure [] [] = .ok d ∧
    (Lexer.basic.tokenize strayEscapeLine).1 = .ok strayEscapeTokens ∧ ∃ e,
      Directive.parse d strayEscapeTokens strayEscapeLine.endSpan none = .error (.parse e) ∧
      e.reason.IsWrongArgument ∧ e.found = some (Text.ofString "a\\q]") ∧
      ∃ t ∈ strayEscapeTokens, t.text = Text.ofString "[a\\q]" ∧ e.found ≠ some t.text := by
  have htokens : (Lexer.basic.tokenize strayEscapeLine).1 = .ok strayEscapeTokens := by decide +kernel
  have hrefused : ((Dialect.configure [] []).toOption.bind fun d =>
      (Expression.errorOf? (Directive.parse d strayEscapeTokens strayEscapeLine.endSpan none)).map fun e =>
        (e.found, e.reason)) = some (some (Text.ofString "a\\q]"),
          .wrongArgument "class" 2 "class|characters" (.wanted "escape sequence" "\\q")) := by
    decide +kernel
  obtain ⟨d, hd, hfound⟩ := toOption_bind_eq_some hrefused
  obtain ⟨e, he, hfound⟩ := Option.map_eq_some_iff.mp hfound
  obtain ⟨hfound, hreason⟩ := Prod.mk.inj hfound
  have herror := Expression.eq_of_errorOf?_eq_some he
  have hwrong : e.reason.IsWrongArgument := ⟨_, _, _, _, hreason⟩
  have hsource : strayEscapeLine.IsSource := .single _ _
  obtain ⟨t, ht, -, -, -, -, -, kind, e₀, -, -, -, -, -, -, hiff, hbody⟩ :=
    found_of_isWrongArgument hd hsource htokens herror hwrong
  have hnot : e.found ≠ some t.text := by
    have hall : ∀ t ∈ strayEscapeTokens, Text.ofString "a\\q]" ≠ t.text := by decide +kernel
    rw [hfound]
    exact fun heq => hall t ht (Option.some.inj heq)
  have hdrop : some (Text.ofString "a\\q]") = some (t.text.drop 1) :=
    hfound.symm.trans (hbody (Classical.not_not.mp fun hno => hnot (hiff.mpr hno)))
  have hclass : ∀ t ∈ strayEscapeTokens, Text.ofString "a\\q]" = t.text.drop 1 → t.text = Text.ofString "[a\\q]" := by
    decide +kernel
  exact ⟨d, hd, htokens, e, herror, hwrong, hfound, t, ht, hclass t ht (Option.some.inj hdrop), hnot⟩

end BrailleTable
