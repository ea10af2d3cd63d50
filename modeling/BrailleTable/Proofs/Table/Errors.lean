/-
Reading a table and gathering its errors agree.

Reading stops at the first error, gathering goes on behind each of them.  Both come to a line with a lexer that knows
nothing of the lines before it, so both find at each line what the line gives by itself.
-/
import BrailleTable.Proofs.Directive.Failure
import BrailleTable.Proofs.LogicalLine.Digits
import BrailleTable.Proofs.Table.Alone

namespace BrailleTable
namespace Table

variable {d : Dialect} {lx : Lexer} {lines : List LogicalLine}

/-- The error of a line that is refused by itself. -/
def errorAlone? (d : Dialect) (line : LogicalLine) : Option ParseError :=
  match readAlone d line with
  | .error (.parse e) => some e
  | _ => none

/-- A line that is read or refused, by itself, and does not fail in another way. -/
def Answers (d : Dialect) (line : LogicalLine) : Prop :=
  (∃ r, readAlone d line = .ok r) ∨ ∃ e, readAlone d line = .error (.parse e)

theorem errorAlone?_of_ok {line : LogicalLine} {r : Option (Directive Span)} (h : readAlone d line = .ok r) :
    errorAlone? d line = none := by
  unfold errorAlone?
  rw [h]

theorem errorAlone?_of_error {line : LogicalLine} {e : ParseError} (h : readAlone d line = .error (.parse e)) :
    errorAlone? d line = some e := by
  unfold errorAlone?
  rw [h]

/-- Lines without long numbers are read or refused. -/
theorem answers_of_digitRunsWithin (hd : d.vocabulary.IsSound) {line : LogicalLine}
    (h : line.text.DigitRunsWithin Text.digitLimit) : Answers d line := by
  cases hread : readAlone d line with
  | ok r => exact .inl ⟨r, hread⟩
  | error f =>
    cases arises_of_readLine hd hread with
    | error _ _ => exact .inr ⟨_, hread⟩
    | oversized ht hlong =>
      obtain ⟨hkind, hlimit, -⟩ := hlong
      obtain ⟨hrun, -, hdigits⟩ := ht.exists_run_of_number hkind
      exact absurd (h _ hrun hdigits) (Nat.not_le_of_lt hlimit)

/-- Gathering finds the error of every line that is refused by itself. -/
theorem gatherErrors_eq (h : Serves lx d) (hlines : ∀ line ∈ lines, Answers d line) :
    gatherErrors d lx lines = .ok (lines.filterMap (errorAlone? d)) := by
  induction lines generalizing lx with
  | nil => rfl
  | cons line rest ih =>
    have hrest := ih (h.after line) fun l hl => hlines l (List.mem_cons_of_mem line hl)
    have halone := h.readLine line
    unfold gatherErrors
    generalize readLine d lx line = result at halone hrest
    obtain ⟨result, lx'⟩ := result
    rcases hlines line List.mem_cons_self with ⟨r, hr⟩ | ⟨e, he⟩
    · obtain rfl : result = .ok r := halone.trans hr
      rw [List.filterMap_cons_none (errorAlone?_of_ok hr)]
      exact hrest
    · obtain rfl : result = .error (.parse e) := halone.trans he
      rw [List.filterMap_cons_some (errorAlone?_of_error he)]
      show (gatherErrors d lx' rest).map _ = _
      rw [hrest]
      rfl

/-- Reading stops at the first of the errors of the lines, if there is one. -/
theorem readLines_eq_ok_or_error (h : Serves lx d) (hlines : ∀ line ∈ lines, Answers d line) :
    (∃ rs, readLines d lx lines = .ok rs ∧ lines.filterMap (errorAlone? d) = []) ∨
      ∃ e es, readLines d lx lines = .error (.parse e) ∧ lines.filterMap (errorAlone? d) = e :: es := by
  induction lines with
  | nil => exact .inl ⟨[], rfl, rfl⟩
  | cons line rest ih =>
    rw [readLines_cons h]
    rcases hlines line List.mem_cons_self with ⟨r, hr⟩ | ⟨e, he⟩
    · rw [hr, List.filterMap_cons_none (errorAlone?_of_ok hr)]
      rcases ih fun l hl => hlines l (List.mem_cons_of_mem line hl) with ⟨rs, hrs, hnone⟩ | ⟨e, es, he, hes⟩
      · refine .inl ⟨r.toList ++ rs, ?_, hnone⟩
        rw [hrs]
        rfl
      · refine .inr ⟨e, es, ?_, hes⟩
        rw [he]
        rfl
    · rw [he, List.filterMap_cons_some (errorAlone?_of_error he)]
      exact .inr ⟨e, _, rfl, rfl⟩

/-- Reading and gathering agree.  In a dialect that a configuration makes, and a text without numbers too long to convert,
the errors are those of the lines that are refused by themselves, in their order, and then that of a dangling marker.  The
table is read if there are none, and otherwise it is refused with the first of them. -/
theorem exists_errors_eq {settings : List (Text × Dialect.Datum)} {opcodes : List (Text × Text)}
    (hd : Dialect.configure settings opcodes = .ok d) {text : Text} (htext : text.DigitRunsWithin Text.digitLimit) :
    ∃ es, errors d text = .ok es ∧
      es = (joined d text).lines.filterMap (errorAlone? d) ++ (joined d text).dangling.toList ∧
      (∀ line ∈ (joined d text).lines, Answers d line) ∧
      ((∃ table, parse d text = .ok table) ↔ es = []) ∧
      ∀ f, parse d text = .error f → ∃ e, f = .parse e ∧ es.head? = some e := by
  have hanswers : ∀ line ∈ (joined d text).lines, Answers d line := fun line hline =>
    answers_of_digitRunsWithin (Dialect.isSound_of_configure hd)
      (LogicalLine.digitRunsWithin_of_mem_join htext hline)
  have hserves : Serves (.ofDialect d) d := rfl
  rw [errors_eq, parse_eq, gatherErrors_eq hserves hanswers]
  refine ⟨_, rfl, rfl, hanswers, ?_⟩
  rcases readLines_eq_ok_or_error hserves hanswers with ⟨rs, hrs, hnone⟩ | ⟨e, es, he, hes⟩
  · rw [hrs, hnone]
    cases (joined d text).dangling with
    | none => exact ⟨⟨fun _ => rfl, fun _ => ⟨⟨rs⟩, rfl⟩⟩, fun f hf => by cases hf⟩
    | some e =>
      refine ⟨⟨fun ⟨table, htable⟩ => (by cases htable), fun hnil => (by cases hnil)⟩, fun f hf => ?_⟩
      cases hf
      exact ⟨e, rfl, rfl⟩
  · rw [he, hes]
    refine ⟨⟨fun ⟨table, htable⟩ => (by cases htable), fun hnil => (by cases hnil)⟩, fun f hf => ?_⟩
    cases hf
    exact ⟨e, rfl, rfl⟩

end Table

/-- A table with an unknown opcode, a wrong argument behind a continued line, and a marker that nothing follows. -/
def brokenTable : Text := "always a 1\nbogus\nshout ~\n12\nshout ~\nx\nalways b ~"

/-- Three errors are gathered, and reading stops at the first of them. -/
theorem exists_errors_brokenTable :
    ∃ d, Dialect.configure [("continuation_marker", .text "~")] [("shout", "number")] = .ok d ∧
      ∃ es, Table.errors d brokenTable = .ok es ∧ es.length = 3 ∧
        (¬ ∃ table, Table.parse d brokenTable = .ok table) ∧
        ∀ f, Table.parse d brokenTable = .error f → ∃ e, f = .parse e ∧ es.head? = some e := by
  have hcount : ((Dialect.configure [("continuation_marker", .text "~")] [("shout", "number")]).toOption.bind fun d =>
      (Table.errors d brokenTable).toOption.map List.length) = some 3 := by
    decide +kernel
  cases hd : Dialect.configure [("continuation_marker", .text "~")] [("shout", "number")] with
  | error fault =>
    rw [hd] at hcount
    cases hcount
  | ok d =>
    have hdigits : brokenTable.DigitRunsWithin Text.digitLimit := fun run hrun _ =>
      hrun.length_le.trans (by decide)
    obtain ⟨es, hes, -, -, hiff, hfirst⟩ := Table.exists_errors_eq hd hdigits
    have hlength : es.length = 3 := by
      rw [hd] at hcount
      change (Table.errors d brokenTable).toOption.map List.length = some 3 at hcount
      rw [hes] at hcount
      exact Option.some.inj hcount
    refine ⟨d, rfl, es, hes, hlength, fun htable => ?_, hfirst⟩
    rw [hiff.mp htable] at hlength
    cases hlength

end BrailleTable
