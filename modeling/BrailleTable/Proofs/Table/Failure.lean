/-
The failures of tables.

A table fails as one of its lines does, or because of a marker that no line follows.
-/
import BrailleTable.Proofs.Directive.Failure
import BrailleTable.Proofs.Expression.ErrorPlace
import BrailleTable.Proofs.LogicalLine.SourceMap
import BrailleTable.Proofs.Table.Alone

namespace BrailleTable

/-- Only a token that is there is looked at as a parenthesis. -/
theorem Expression.atom_congr_of_peek? {d : Dialect} {opcode : Text} {context : Option Span} {c : Cursor}
    (h : c.peek? = none) (groupAt groupAt' : Cursor → Outcome Parsed) :
    atom d opcode groupAt context c = atom d opcode groupAt' context c := by
  have hopens : ¬ c.isPunctuation "(" = true := by
    rw [Cursor.isPunctuation_iff]
    rintro ⟨t, ht, -⟩
    rw [h] at ht
    cases ht
  unfold atom
  rw [if_neg hopens, if_neg hopens]

namespace Table

variable {d : Dialect} {f : Failure}

/-- What a table fails with arises in one of its lines, or is the error of a marker that dangles. -/
theorem arises_of_parse (hd : d.vocabulary.IsSound) {text : Text} (hf : parse d text = .error f) :
    (∃ line ∈ (joined d text).lines, f.Arises line) ∨ ∃ e, (joined d text).dangling = some e ∧ f = .parse e := by
  refine (parse_eq_error hf).imp_left ?_
  rintro ⟨line, hline, halone⟩
  exact ⟨line, hline, arises_of_readLine hd halone⟩

theorem category_of_dangling {text : Text} {e : ParseError} (h : (joined d text).dangling = some e) :
    e.category = .continuation := by
  rcases LogicalLine.exists_of_dangling_joinFrom h with ⟨p, hp, -⟩ | ⟨x, -, -, rfl⟩
  · cases hp
  · rfl

end Table
end BrailleTable
