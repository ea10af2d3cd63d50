/-
The ranges of the directives of a table.

The tokens of a logical line lie in it, and logical lines follow each other in the source.  So the directives of a table
follow each other, each one with all that it holds.
-/
import BrailleTable.Proofs.Dialect.Configured
import BrailleTable.Proofs.Directive.Spans
import BrailleTable.Proofs.Table.Alone

namespace BrailleTable
namespace Table

variable {d : Dialect} {lx : Lexer} {text : Text} {line line' : LogicalLine} {lines : List LogicalLine}
  {r r' : Directive Span} {rs : List (Directive Span)}

/-- The tokens that the directive of a line is parsed from lie in the line one after the other. -/
theorem exists_parse_of_readAlone (h : readAlone d line = .ok (some r)) :
    ∃ ts comment, Token.LaidOn line ts ∧ Directive.parse d ts line.endSpan comment = .ok r := by
  obtain ⟨ts, lx', htokens, hparse⟩ := exists_parse_of_readLine h
  exact ⟨ts, lx'.comment, ⟨(Lexer.tokenize_eq_ok htokens).1, Lexer.pairwise_tokenize htokens⟩, hparse⟩

/-- The directive of a line is nested, and it lies among tokens of the line. -/
theorem isNested_of_readAlone (hd : ∀ shape ∈ d.vocabulary, ∀ slot ∈ shape.slots.tail, slot.fallback = none)
    (hline : line.IsMapped text) (h : readAlone d line = .ok (some r)) :
    r.IsNested text ∧ ∃ ts, Token.LaidOn line ts ∧ r.span.Among ts := by
  obtain ⟨ts, comment, hts, hparse⟩ := exists_parse_of_readAlone h
  obtain ⟨hnested, hamong⟩ := Directive.isNested_of_parse hline hts hd hparse
  exact ⟨hnested, ts, hts, hamong⟩

/-- Directives that were read are related as their lines are. -/
theorem pairwise_of_readLines {R : LogicalLine → LogicalLine → Prop} {P : Directive Span → Directive Span → Prop}
    (hRP : ∀ {line line' r r'}, R line line' → readAlone d line = .ok (some r) → readAlone d line' = .ok (some r') →
      P r r') (h : Serves lx d) (hlines : lines.Pairwise R) (hread : readLines d lx lines = .ok rs) :
    rs.Pairwise P := by
  induction lines generalizing rs with
  | nil =>
    cases hread
    exact .nil
  | cons line lines ih =>
    obtain ⟨hline, hlines⟩ := List.pairwise_cons.mp hlines
    obtain ⟨first, rest, hfirst, hrest, rfl⟩ := readLines_cons_eq_ok h hread
    cases first with
    | none => exact ih hlines hrest
    | some r =>
      refine List.pairwise_cons.mpr ⟨fun r' hr' => ?_, ih hlines hrest⟩
      obtain ⟨line', hline', halone⟩ := exists_line_of_mem h hrest r' hr'
      exact hRP (hline line' hline') hfirst halone

/-- Tokens of a line that precedes another one lie before the tokens of that one. -/
theorem before_of_precedes {ts us : List Token} (h : line.Precedes line') (hts : Token.LaidOn line ts)
    (hus : Token.LaidOn line' us) : ∀ t ∈ ts, ∀ u ∈ us, t.span.Before u.span := by
  intro t ht u hu
  have htcut := hts.cut t ht
  have hucut := hus.cut u hu
  rw [htcut.span_eq, hucut.span_eq]
  exact h _ _ _ _ htcut.start_lt htcut.stop_le (Nat.lt_of_lt_of_le hucut.start_lt hucut.stop_le)

/-- The ranges of what a table holds: directives follow each other, and what they hold is nested in them. -/
structure IsLaidOut (text : Text) (table : Table) : Prop where
  ordered : table.directives.Pairwise fun r r' => r.span.Before r'.span
  nested : ∀ r ∈ table.directives, r.IsNested text

/-- Ranges are nested.  In a dialect that a configuration makes, the directives of a table are ranges of the source that
are not empty, one after the other and without overlap.  The arguments and the expression of a directive lie in it, and the
parts of an expression in the part above them, again one after the other.  All of these ranges have the lines and columns
of the offsets where they start and stop. -/
theorem isLaidOut_of_parse {settings : List (Text × Dialect.Datum)} {opcodes : List (Text × Text)}
    (hd : Dialect.configure settings opcodes = .ok d) {table : Table} (h : parse d text = .ok table) :
    table.IsLaidOut text := by
  have hread := (parse_eq_ok h).1
  have hdefaults := Dialect.fallback_of_configure hd
  have hlines : (joined d text).lines.Pairwise fun line line' =>
      line.Precedes line' ∧ line.IsMapped text ∧ line'.IsMapped text :=
    (LogicalLine.pairwise_join _ _ text).imp_of_mem fun hline hline' hprecedes =>
      ⟨hprecedes, LogicalLine.isMapped_of_mem_join hline, LogicalLine.isMapped_of_mem_join hline'⟩
  refine ⟨pairwise_of_readLines ?_ rfl hlines hread, fun r hr => ?_⟩
  · rintro line line' r r' ⟨hprecedes, hline, hline'⟩ halone halone'
    obtain ⟨-, ts, hts, hamong⟩ := isNested_of_readAlone hdefaults hline halone
    obtain ⟨-, us, hus, hamong'⟩ := isNested_of_readAlone hdefaults hline' halone'
    exact hamong.before hamong' (before_of_precedes hprecedes hts hus)
  · obtain ⟨line, hline, halone⟩ := exists_line_of_mem rfl hread r hr
    exact (isNested_of_readAlone hdefaults (LogicalLine.isMapped_of_mem_join hline) halone).1

end Table

/-- A test over two physical lines, with parentheses that are dropped; a directive with a default; and an opcode of the
configuration. -/
def nestedSource : Text := "context test (_digit or 5) and \\\n  not _space actions go 7\nspace 0\nshout 12 # loud\n"

theorem isLaidOut_nestedSource :
    ∃ d, Dialect.configure [("max_depth", .number 3)] [("shout", "number")] = .ok d ∧
      ∃ table, Table.parse d nestedSource = .ok table ∧ table.directives.length = 3 ∧ table.IsLaidOut nestedSource := by
  have haccepted : ((Dialect.configure [("max_depth", .number 3)] [("shout", "number")]).toOption.bind fun d =>
      (Table.parse d nestedSource).toOption.map fun table => table.directives.length) = some 3 := by
    decide +kernel
  obtain ⟨d, hd, haccepted⟩ := toOption_bind_eq_some haccepted
  obtain ⟨table, htable, hlength⟩ := Option.map_eq_some_iff.mp haccepted
  have hparse := toOption_eq_some htable
  exact ⟨d, hd, table, hparse, hlength, Table.isLaidOut_of_parse hd hparse⟩

end BrailleTable
