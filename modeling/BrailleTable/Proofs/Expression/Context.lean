/-
The context of an error: the innermost parenthesis that is open where the error points.

Which parentheses are open after some tokens is a matter of the tokens alone (`openParens`).  The productions are told
of the innermost one and hand it on to what they miss, so the context of a miss is a function of its place.  Hence misses
at one place have one context, and it makes no difference which of them the error takes it from.
-/
import BrailleTable.Proofs.Expression.ErrorPlace
import BrailleTable.Proofs.Expression.Failure

namespace BrailleTable

namespace Furthest

variable {g : Nat → Option Span}

/-- Where the context of every miss is a function of its place, that of the furthest place is that of its own. -/
theorem context_ofMisses {ms : List Miss} (hms : ∀ m ∈ ms, m.context = g m.cursor.pos) {c : Cursor}
    (hc : (ofMisses ms).cursor = some c) : (ofMisses ms).context = g c.pos := by
  obtain ⟨m, hm, hpos, hcontext⟩ := (sums_ofMisses ms).context_mem (Option.isSome_of_eq_some hc)
  rw [pos_of_cursor_eq hc] at hpos
  rw [← hcontext, hms m hm, Int.ofNat.inj hpos]

end Furthest

namespace Expression

variable {d : Dialect} {opcode : Text} {ts : List Token} {eol : Span}

/-- The parentheses that are open after some tokens, innermost first. -/
def openParens (ts : List Token) : List Span := ts.foldl (fun stack t => t.nest stack) []

/-- The innermost of the parentheses that are open after some tokens. -/
def innermostOpen (ts : List Token) : Option Span := (openParens ts).head?

theorem openParens_concat (ts : List Token) (t : Token) : openParens (ts ++ [t]) = t.nest (openParens ts) := by
  unfold openParens
  rw [List.foldl_append]
  rfl

/-- The error is at the token with index `p`, or at the end of the line if there is no such token: either nothing could go
past that place, or the token cannot be read as what the way it starts makes it. -/
inductive StopsAt (d : Dialect) (ts : List Token) (eol : Span) (p : Nat) (e : ParseError) : Prop
  | blocked : p ≤ ts.length → e.span = Cursor.span ⟨ts, p, eol⟩ → e.found = Cursor.found ⟨ts, p, eol⟩ →
      StopsAt d ts eol p e
  | spoiled {t : Token} {cause : ParseError} : ts[p]? = some t → Spoils d t (.parse cause) → e.span = cause.span →
      e.found = cause.found → StopsAt d ts eol p e

/-- The error is at some token, and its context is the innermost parenthesis open there. -/
def ShowsContext (d : Dialect) (ts : List Token) (eol : Span) (f : Failure) : Prop :=
  ∀ e, f = .parse e → ∃ p, StopsAt d ts eol p e ∧ e.category = .expression (innermostOpen (ts.take p))

/-- A cursor of the line before which the parentheses of `stack` are open. -/
structure OpensAt (ts : List Token) (eol : Span) (stack : List Span) (c : Cursor) : Prop where
  isOn : c.IsOn ts eol
  pos_le : c.pos ≤ ts.length
  openParens_eq : openParens (ts.take c.pos) = stack

namespace OpensAt

variable {stack : List Span} {c : Cursor}

theorem start (ts : List Token) (eol : Span) : OpensAt ts eol [] ⟨ts, 0, eol⟩ :=
  ⟨⟨rfl, rfl⟩, Nat.zero_le _, rfl⟩

theorem eq_mk (h : OpensAt ts eol stack c) : c = ⟨ts, c.pos, eol⟩ := by
  obtain ⟨htokens, heol⟩ := h.isOn
  rw [← htokens, ← heol]

theorem getElem? (h : OpensAt ts eol stack c) {t : Token} (ht : c.peek? = some t) : ts[c.pos]? = some t := by
  rw [← h.isOn.1]
  exact ht

theorem innermostOpen_eq (h : OpensAt ts eol stack c) : innermostOpen (ts.take c.pos) = stack.head? := by
  unfold innermostOpen
  rw [h.openParens_eq]

theorem next (h : OpensAt ts eol stack c) {t : Token} (ht : c.peek? = some t) :
    OpensAt ts eol (t.nest stack) c.next := by
  have hget := h.getElem? ht
  have hpos : c.next.pos = c.pos + 1 := (Cursor.Passes.next ht).pos_eq
  have hlt : c.pos < ts.length := (List.getElem?_eq_some_iff.mp hget).1
  refine ⟨h.isOn.next, by omega, ?_⟩
  rw [hpos, List.take_add_one, hget, Option.toList_some, openParens_concat, h.openParens_eq]

/-- An error at the cursor. -/
theorem showsContext (h : OpensAt ts eol stack c) (reason : Reason) (expected : List Text) :
    ShowsContext d ts eol (.parse (.of (.expression stack.head?) reason c.span expected c.found)) := by
  rintro e ⟨⟩
  refine ⟨c.pos, .blocked h.pos_le ?_ ?_, ?_⟩
  · rw [← h.eq_mk]
    rfl
  · rw [← h.eq_mk]
    rfl
  · rw [h.innermostOpen_eq]
    rfl

/-- What is wrong with the token at the cursor. -/
theorem showsContext_of_spoils (h : OpensAt ts eol stack c) {t : Token} (ht : c.peek? = some t) {f : Failure}
    (hf : Spoils d t f) : ShowsContext d ts eol (valueFailure opcode stack.head? f) := by
  intro e he
  cases f with
  | parse cause =>
    cases he
    refine ⟨c.pos, .spoiled (h.getElem? ht) hf rfl rfl, ?_⟩
    rw [h.innermostOpen_eq]
    rfl
  | _ => cases he

end OpensAt

/-- What is missed is missed with the innermost of the parentheses that are open there as its context. -/
theorem opensAt_invariant (d : Dialect) (opcode : Text) (ts : List Token) (eol : Span) :
    Invariant d opcode (OpensAt ts eol) (fun m => ∃ stack, OpensAt ts eol stack m.cursor ∧ m.context = stack.head?)
      (ShowsContext d ts eol) where
  next hc ht := hc.next ht
  miss hc _ := ⟨_, hc, rfl⟩
  token hc ht hf := hc.showsContext_of_spoils ht hf
  tooDeep hc _ _ expected := hc.showsContext _ expected

/-- The context of an error is the innermost of the parentheses that are open before the token it points at. -/
theorem exists_stopsAt_of_parse_eq_error {e : ParseError} (h : parse d opcode ⟨ts, 0, eol⟩ = .error (.parse e)) :
    ∃ p, StopsAt d ts eol p e ∧ e.category = .expression (innermostOpen (ts.take p)) := by
  refine (opensAt_invariant d opcode ts eol).of_parse_eq_error (.start ts eol) (fun ms hne hms => ?_) h e rfl
  have hplaces : ∀ m ∈ ms, ∃ stack, OpensAt ts eol stack m.cursor := by
    intro m hm
    obtain ⟨stack, hopens, -⟩ := hms m hm
    exact ⟨stack, hopens⟩
  have hcontexts : ∀ m ∈ ms, m.context = innermostOpen (ts.take m.cursor.pos) := by
    intro m hm
    obtain ⟨stack, hopens, hcontext⟩ := hms m hm
    rw [hcontext, hopens.innermostOpen_eq]
  obtain ⟨c, hcursor, stack, hopens⟩ :=
    Furthest.exists_cursor_ofMisses (M := fun c => ∃ stack, OpensAt ts eol stack c) hne hplaces
  have hcontext := Furthest.context_ofMisses (g := fun p => innermostOpen (ts.take p)) hcontexts hcursor
  rw [unexpected_eq hcursor, hcontext, hopens.innermostOpen_eq]
  exact hopens.showsContext _ _

/-- A line with a group that is closed and two that are not, in the inner of which a connective lacks its second link. -/
def unclosedLine : LogicalLine := .single "test (a (b) (c and ) actions go" ⟨1, 1, 0⟩

def unclosedTokens : List Token := (tokensOf .basic unclosedLine).toOption.getD []

theorem exists_stopsAt_unclosedLine : ∃ e,
    parse .standard "context" ⟨unclosedTokens, 0, unclosedLine.endSpan⟩ = .error (.parse e) ∧
    e.category = .expression (some (unclosedLine.span 12 13)) ∧
    ∃ p, StopsAt .standard unclosedTokens unclosedLine.endSpan p e ∧
      e.category = .expression (innermostOpen (unclosedTokens.take p)) := by
  have herrorOf : (errorOf? (parse .standard "context" ⟨unclosedTokens, 0, unclosedLine.endSpan⟩)).map ParseError.category =
      some (.expression (some (unclosedLine.span 12 13))) := by decide +kernel
  obtain ⟨e, he, hcategory⟩ := Option.map_eq_some_iff.mp herrorOf
  have herror := eq_of_errorOf?_eq_some he
  exact ⟨e, herror, hcategory, exists_stopsAt_of_parse_eq_error herror⟩

end Expression
end BrailleTable
