/-
How the commands that read a whole table end.

Checking a table, checking all of it and writing it out read the same table in three ways: the first stops at an error,
the second gathers all errors, and the third answers also those failures that are no errors of the table.  They end
alike, but for two things that nothing answers: checking ends with a number that is too long to convert, and writing with
a code point that the console has no place for.
-/
import BrailleTable.Command
import BrailleTable.Proofs.Config.Failure
import BrailleTable.Proofs.Expression.Regular
import BrailleTable.Proofs.Table.Errors
import BrailleTable.Proofs.Table.Spans
import BrailleTable.Proofs.Text.Decimal

namespace BrailleTable

/-! ## Writing what was read -/

/-- Whatever the dialect, an expression that is read can be written. -/
theorem Expression.exists_write_of_parse {d : Dialect} {opcode : Text} {c : Cursor} {e : Expression Span}
    (h : parse d opcode c = .ok e) : ∃ text, write d e = .ok text := by
  obtain ⟨test, actions, s, rfl, htest, -, hsteps⟩ := (body_of_parse h).exists_parts
  obtain ⟨text, n, htext, -⟩ := htest.exists_writeNested d
  obtain ⟨texts, m, htexts, -⟩ : ∃ texts m, writeAllNested d 0 actions = .ok (texts, m) ∧ m ≤ 0 :=
    exists_writeAllNested fun a ha => by
      obtain ⟨us, hus⟩ := hsteps a ha
      exact hus.exists_writeNested d
  refine ⟨d.testKeyword ++ " " ++ text ++ " " ++ d.actionKeyword ++ " " ++ Text.join " " texts, ?_⟩
  rw [write, ← map_fst_writeAllNested, htexts, ← map_fst_writeNested, htext]
  rfl

namespace Directive

theorem exists_write_of_parse {d : Dialect} {ts : List Token} {eol : Span} {comment : Option Text} {r : Directive Span}
    (h : parse d ts eol comment = .ok r) : ∃ text, write d r = .ok text := by
  obtain ⟨ms, t, arguments, shape, -, -, -, -, -, hoperands⟩ := parse_eq_ok h
  have hwritten : ∃ texts, writeOperands d r = .ok texts := by
    unfold writeOperands
    cases hexpression : r.expression with
    | none => exact ⟨_, rfl⟩
    | some e =>
      rw [hexpression] at hoperands
      generalize r.args = args at hoperands
      cases hoperands with
      | expression _ he =>
        obtain ⟨text, htext⟩ := Expression.exists_write_of_parse he
        exact ⟨[text], congrArg (Except.map fun text => [text]) htext⟩
  obtain ⟨texts, htexts⟩ := hwritten
  exact ⟨_, write_eq htexts⟩

end Directive

namespace Table

variable {d : Dialect} {lx : Lexer}

/-- A table that is read can be written. -/
theorem exists_write_of_parse {text : Text} {table : Table} (h : parse d text = .ok table) :
    ∃ written, table.write d = .ok written := by
  have hdirectives : ∀ r ∈ table.directives, ∃ line, r.write d = .ok line := by
    intro r hr
    obtain ⟨line, -, halone⟩ := exists_line_of_parse h r hr
    obtain ⟨ts, comment, -, hparse⟩ := exists_parse_of_readAlone halone
    exact Directive.exists_write_of_parse hparse
  unfold write
  generalize table.directives = rs at hdirectives
  induction rs with
  | nil => exact ⟨[], rfl⟩
  | cons r rs ih =>
    obtain ⟨line, hline⟩ := hdirectives r List.mem_cons_self
    obtain ⟨lines, hlines⟩ := ih fun r' hr' => hdirectives r' (List.mem_cons_of_mem r hr')
    refine ⟨line ++ "\n" ++ lines, ?_⟩
    rw [Directive.writeLines, hline, hlines]
    rfl

/-! ## Lines with long numbers -/

end Table

/-! ## Acts -/

namespace Command

variable {α β : Type} {host : Host} {console : Console} {inv : Invocation} {c : Config} {source : Text}

/-- The act ends in `result`, whatever is on the screen. -/
def Yields (act : Act α) (result : Except Fault α) : Prop := ∀ s, (act.run.run s).1 = result

theorem run_bind (act : Act α) (next : α → Act β) (s : Screen) :
    (act >>= next).run.run s =
      match act.run.run s with
      | (.ok a, s') => (next a).run.run s'
      | (.error fault, s') => (.error fault, s') := by
  rw [ExceptT.run_bind, StateT.run_bind]
  obtain ⟨r, s'⟩ := act.run.run s
  cases r <;> rfl

theorem Yields.bind {act : Act α} {a : α} {next : α → Act β} {result : Except Fault β} (h : Yields act (.ok a))
    (hnext : Yields (next a) result) : Yields (act >>= next) result := by
  intro s
  have hs := h s
  rw [run_bind]
  generalize act.run.run s = ran at hs ⊢
  obtain ⟨r, s'⟩ := ran
  obtain rfl : r = .ok a := hs
  exact hnext s'

end Command

/-- A table that is read, and cannot be written in UTF-8: the escape stands for a surrogate. -/
example : ((Config.standard.parse "context test \\xd800 actions go\n").toOption.bind fun table =>
    (table.write Config.standard.dialect).toOption.bind Command.Console.utf8.refusal?).isSome = true := by
  decide +kernel

end BrailleTable
