/-
Errors of expressions point at the first token that no expression could have.

The tokens before that token begin some expression, and together with it they begin none.  Both follow from
the stages: every stage leads on to the end of an expression, and a token without a step stops all of them.
-/
import BrailleTable.Proofs.Expression.Progress
import BrailleTable.Proofs.Token.Cut

namespace BrailleTable

namespace Expression

variable {d : Dialect} {opcode : Text}

/-- The index `p` is the first at which the tokens cannot be gone on with, and the range points there. -/
structure IsFirstBad (d : Dialect) (opcode : Text) (ts : List Token) (eol s : Span) (p : Nat) : Prop where
  le_length : p ≤ ts.length
  span_mem :
    match ts[p]? with
    | none => s = eol
    | some t => s = t.span ∨ t.span.start ≤ s.start ∧ s.start ≤ t.span.stop
  viable : ∃ us, us.take p = ts.take p ∧ ∃ e, parse d opcode ⟨us, 0, eol⟩ = .ok e
  dead : p < ts.length → ∀ us, us.take (p + 1) = ts.take (p + 1) →
    ¬ ∃ e, parse d opcode ⟨us, 0, eol⟩ = .ok e

/-- Tokens that lead to a stage begin some expression. -/
theorem exists_accepted_of_run (opcode : Text) (hd : d.HasStandardKeywords) {ts : List Token}
    {s : Stage} (eol : Span) (h : Stage.run d .start ts = some s) :
    ∃ us, us.take ts.length = ts ∧ ∃ e, parse d opcode ⟨us, 0, eol⟩ = .ok e := by
  obtain ⟨more, hmore⟩ := Stage.run_closing d s
  refine ⟨ts ++ more, List.take_left, (exists_parse_iff_run hd).mpr ?_⟩
  rw [Stage.run_append, h, Option.bind_some, hmore]

/-- Tokens that lead to no stage begin no expression. -/
theorem not_accepted_of_run (hd : d.HasStandardKeywords) {us : List Token} {n : Nat} (eol : Span)
    (h : Stage.run d .start (us.take n) = none) : ¬ ∃ e, parse d opcode ⟨us, 0, eol⟩ = .ok e := by
  intro hok
  have hrun := (exists_parse_iff_run hd).mp hok
  rw [← List.take_append_drop n us, Stage.run_append, h] at hrun
  cases hrun

/-- The error of an expression points at the first token that no expression could have there, and at the end
of the line if every token could. -/
theorem exists_isFirstBad_of_parse_eq_error (hd : d.HasStandardKeywords) {lx : Lexer}
    {line : LogicalLine} (hline : line.IsSource) {raw : List Token}
    (hraw : (lx.tokenize line).1 = .ok raw) (k : Nat) (eol : Span) {e : ParseError}
    (h : parse d opcode ⟨(raw.drop k).flatMap Token.splitOperators, 0, eol⟩ = .error (.parse e)) :
    ∃ p, IsFirstBad d opcode ((raw.drop k).flatMap Token.splitOperators) eol e.span p := by
  generalize hts : (raw.drop k).flatMap Token.splitOperators = ts at h ⊢
  obtain ⟨hcuts, -⟩ := Lexer.tokenize_eq_ok (Prod.ext hraw rfl)
  have hcut : ∀ t ∈ ts, t.CutFrom line := by
    intro t ht
    rw [← hts] at ht
    obtain ⟨u, hu, htu⟩ := List.mem_flatMap.mp ht
    exact (hcuts u (List.mem_of_mem_drop hu)).splitOperators t htu
  obtain ⟨c, ⟨w, hw⟩, hblocked, hspan⟩ :=
    exists_blocked_of_parse_eq_error hd (reaches_start ts eol) h
  have htokens : c.tokens = ts := hw.tokens_eq
  obtain ⟨s, hrun, hstage⟩ := hblocked.exists_stage
  have hle : c.pos ≤ ts.length := by
    obtain ⟨s', hreach, -⟩ := hblocked
    rw [← htokens]
    exact hreach.pos_le
  have hpeek : c.peek? = ts[c.pos]? := by
    unfold Cursor.peek?
    rw [htokens]
  rw [htokens] at hrun
  refine ⟨c.pos, hle, ?_, ?_, ?_⟩
  · have hplace := hspan e rfl
    rw [hpeek] at hplace
    cases ht : ts[c.pos]? with
    | none =>
      rw [ht] at hplace
      exact hplace
    | some t =>
      rw [ht] at hplace
      exact (hcut t (List.mem_of_getElem? ht)).span_mem hline.isPlaced hplace
  · obtain ⟨us, hus, haccept⟩ := exists_accepted_of_run opcode hd eol hrun
    rw [List.length_take, Nat.min_eq_left hle] at hus
    exact ⟨us, hus, haccept⟩
  · intro hlt us hus
    refine not_accepted_of_run hd eol (n := c.pos + 1) ?_
    have ht : ts[c.pos]? = some (ts.get ⟨c.pos, hlt⟩) := List.getElem?_eq_getElem hlt
    rw [hpeek, ht] at hstage
    rw [hus, List.take_add_one, ht, Stage.run_append, hrun, Option.bind_some]
    show Stage.run d s [ts.get ⟨c.pos, hlt⟩] = none
    rw [Stage.run_singleton]
    exact hstage

def brokenSource : List Text := ["context test (a \\\n", "  and ) actions go"]

/-- A line that was joined from two, in which a connective lacks its second link. -/
def brokenLine : LogicalLine :=
  (LogicalLine.join "\\" "#" brokenSource).lines.headD (.single [] ⟨1, 1, 0⟩)

def brokenTokens : List Token := (Lexer.basic.tokenize brokenLine).1.toOption.getD []

/-- The error of a failure that has one. -/
def errorOf? {α : Type} : Except Failure α → Option ParseError
  | .error (.parse e) => some e
  | _ => none

theorem eq_of_errorOf?_eq_some {α : Type} {x : Except Failure α} {e : ParseError}
    (h : errorOf? x = some e) : x = .error (.parse e) := by
  cases x with
  | ok a => cases h
  | error f =>
    cases f with
    | parse e' =>
      cases h
      rfl
    | _ => cases h

theorem exists_isFirstBad_brokenLine : ∃ e,
    parse .standard "context"
      ⟨(brokenTokens.drop 1).flatMap Token.splitOperators, 0, brokenLine.endSpan⟩ = .error (.parse e) ∧
    ∃ p, IsFirstBad .standard "context" ((brokenTokens.drop 1).flatMap Token.splitOperators)
      brokenLine.endSpan e.span p := by
  have hmem : brokenLine ∈ (LogicalLine.join "\\" "#" brokenSource).lines := by decide +kernel
  have hraw : (Lexer.basic.tokenize brokenLine).1 = .ok brokenTokens := by decide +kernel
  have hsome : (errorOf? (parse .standard "context"
      ⟨(brokenTokens.drop 1).flatMap Token.splitOperators, 0, brokenLine.endSpan⟩)).isSome = true := by
    decide +kernel
  obtain ⟨e, he⟩ := Option.isSome_iff_exists.mp hsome
  have herror := eq_of_errorOf?_eq_some he
  exact ⟨e, herror, exists_isFirstBad_of_parse_eq_error ⟨rfl, rfl⟩ (.joined hmem) hraw 1 _ herror⟩

end Expression
end BrailleTable
