/-
Every line of a table is read on its own.

One lexer serves all lines of a table, but turning it to a line forgets everything except its rules, and no line changes
those, whether it is read or refused.  So a line gives the same result wherever it stands in a table: each directive of a
table is what one of its lines gives alone, and a table fails as one of its lines does alone, or because of a marker that
dangles.
-/
import BrailleTable.Proofs.Token.Cut
import BrailleTable.Table

namespace BrailleTable

namespace Lexer

theorem rules_readToken {lx lx' : Lexer} {line : LogicalLine} {c : CodePoint} {rest : Text} {t : Token}
    (h : lx.readToken line c rest = .ok (t, lx')) : lx'.rules = lx.rules := by
  cases cuts_of_readToken h with
  | parenthesis => rfl
  | quoted => exact rules_note lx _
  | word => exact rules_note lx _

theorem rules_read (lx : Lexer) : lx.read.2.rules = lx.rules := by
  unfold read
  split
  · rfl
  · dsimp only
    split
    · rfl
    · split
      · rfl
      · split
        · rfl
        · rename_i hread
          have hrules := rules_readToken hread
          exact hrules

theorem rules_next (lx : Lexer) : lx.next.2.rules = lx.rules := by
  unfold next
  split
  · rfl
  · exact rules_read lx

theorem rules_drain (limit : Nat) (lx : Lexer) : (drain limit lx).2.rules = lx.rules := by
  induction limit generalizing lx with
  | zero => rfl
  | succ limit ih =>
    have hnext := rules_next lx
    unfold drain
    split
    · rename_i hstep
      rwa [hstep] at hnext
    · rename_i hstep
      rwa [hstep] at hnext
    · rename_i hstep
      rw [hstep] at hnext
      exact (ih _).trans hnext

/-- A lexer keeps its rules through a line, also where the line is refused. -/
theorem rules_tokenize (lx : Lexer) (line : LogicalLine) : (lx.tokenize line).2.rules = lx.rules :=
  rules_drain _ (lx.reset line)

/-- The rules of a lexer are all that a line is read by. -/
theorem tokenize_congr {lx lx' : Lexer} (h : lx.rules = lx'.rules) (line : LogicalLine) :
    lx.tokenize line = lx'.tokenize line := by
  unfold tokenize reset
  rw [h]

end Lexer

namespace Table

variable {d : Dialect} {lx lx' : Lexer} {line : LogicalLine} {lines : List LogicalLine} {text : Text}
  {r : Directive Span} {rs : List (Directive Span)} {f : Failure} {table : Table}

/-- A directive is parsed from all the tokens of its line. -/
theorem exists_parse_of_readLine (h : (readLine d lx line).1 = .ok (some r)) :
    ∃ ts lx', lx.tokenize line = (.ok ts, lx') ∧ Directive.parse d ts line.endSpan lx'.comment = .ok r := by
  unfold readLine at h
  split at h
  · cases h
  · cases h
  · rename_i ts lx' _ htokens
    obtain ⟨r', hparse, heq⟩ := map_eq_ok h
    cases heq
    exact ⟨ts, lx', htokens, hparse⟩

theorem rules_readLine (d : Dialect) (lx : Lexer) (line : LogicalLine) :
    (readLine d lx line).2.rules = lx.rules := by
  have htokenize := lx.rules_tokenize line
  unfold readLine
  split <;> (rename_i hstep; rw [hstep] at htokenize; exact htokenize)

theorem readLine_congr (h : lx.rules = lx'.rules) (line : LogicalLine) : readLine d lx line = readLine d lx' line := by
  unfold readLine
  rw [Lexer.tokenize_congr h line]

/-- What a line gives that is read by itself, with a new lexer. -/
def readAlone (d : Dialect) (line : LogicalLine) : Except Failure (Option (Directive Span)) :=
  (readLine d (.ofDialect d) line).1

/-- A lexer that has been made for the dialect, however many lines it has read since. -/
def Serves (lx : Lexer) (d : Dialect) : Prop := lx.rules = (Lexer.ofDialect d).rules

theorem Serves.readLine (h : Serves lx d) (line : LogicalLine) : (readLine d lx line).1 = readAlone d line :=
  congrArg Prod.fst (readLine_congr h line)

theorem Serves.after (h : Serves lx d) (line : LogicalLine) : Serves (Table.readLine d lx line).2 d :=
  (rules_readLine d lx line).trans h

theorem readLines_congr (h : lx.rules = lx'.rules) (lines : List LogicalLine) :
    readLines d lx lines = readLines d lx' lines := by
  cases lines with
  | nil => rfl
  | cons line rest =>
    unfold readLines
    rw [readLine_congr h line]

/-- The lines of a table are read one by one, each as it is read alone. -/
theorem readLines_cons (h : Serves lx d) (line : LogicalLine) (rest : List LogicalLine) :
    readLines d lx (line :: rest) =
      readAlone d line >>= fun r => (readLines d lx rest).map (r.toList ++ ·) := by
  have hrest : readLines d (readLine d lx line).2 rest = readLines d lx rest :=
    readLines_congr (rules_readLine d lx line) rest
  rw [← h.readLine line, readLines]
  generalize readLine d lx line = result at hrest
  obtain ⟨result, lx'⟩ := result
  cases result with
  | error f => rfl
  | ok r =>
    rw [← hrest]
    cases r with
    | none =>
      show readLines d lx' rest = (readLines d lx' rest).map fun rs => rs
      cases readLines d lx' rest <;> rfl
    | some r => rfl

theorem readLines_cons_eq_ok (h : Serves lx d) (hread : readLines d lx (line :: lines) = .ok rs) :
    ∃ first rest, readAlone d line = .ok first ∧ readLines d lx lines = .ok rest ∧ rs = first.toList ++ rest := by
  rw [readLines_cons h] at hread
  obtain ⟨first, hfirst, hmore⟩ := bind_eq_ok hread
  obtain ⟨rest, hrest, heq⟩ := map_eq_ok hmore
  exact ⟨first, rest, hfirst, hrest, heq.symm⟩

/-- Directives that were read have a line each. -/
theorem exists_line_of_mem (h : Serves lx d) (hread : readLines d lx lines = .ok rs) :
    ∀ r ∈ rs, ∃ line ∈ lines, readAlone d line = .ok (some r) := by
  induction lines generalizing rs with
  | nil =>
    cases hread
    exact fun r hr => absurd hr List.not_mem_nil
  | cons line lines ih =>
    obtain ⟨first, rest, hfirst, hrest, rfl⟩ := readLines_cons_eq_ok h hread
    intro r hr
    rcases List.mem_append.mp hr with hr | hr
    · rw [Option.mem_toList.mp hr] at hfirst
      exact ⟨line, List.mem_cons_self, hfirst⟩
    · obtain ⟨line', hline', halone⟩ := ih hrest r hr
      exact ⟨line', List.mem_cons_of_mem line hline', halone⟩

/-- Lines that are not all read fail as one of them does by itself. -/
theorem exists_of_readLines_eq_error (h : Serves lx d) (hf : readLines d lx lines = .error f) :
    ∃ line ∈ lines, readAlone d line = .error f := by
  induction lines with
  | nil => cases hf
  | cons line rest ih =>
    rw [readLines_cons h] at hf
    rcases bind_eq_error hf with hline | ⟨r, -, hrest⟩
    · exact ⟨line, List.mem_cons_self, hline⟩
    · obtain ⟨line', hline', halone⟩ := ih (map_eq_error hrest)
      exact ⟨line', List.mem_cons_of_mem line hline', halone⟩

/-! ## Whole tables -/

/-- The logical lines of a table, and the error of a marker left over at its end. -/
def joined (d : Dialect) (text : Text) : LogicalLine.Joined :=
  LogicalLine.join d.continuationMarker [d.commentChar] (physicalLines text)

theorem parse_eq (d : Dialect) (text : Text) :
    parse d text = readLines d (.ofDialect d) (joined d text).lines >>= fun rs =>
      match (joined d text).dangling with
      | none => .ok ⟨rs⟩
      | some e => .error (.parse e) := rfl

theorem parse_eq_ok (h : parse d text = .ok table) :
    readLines d (.ofDialect d) (joined d text).lines = .ok table.directives ∧ (joined d text).dangling = none := by
  rw [parse_eq] at h
  obtain ⟨rs, hrs, h⟩ := bind_eq_ok h
  cases hdangling : (joined d text).dangling with
  | none =>
    rw [hdangling] at h
    cases h
    exact ⟨hrs, rfl⟩
  | some e =>
    rw [hdangling] at h
    cases h

/-- Each directive of a table is what one of its lines gives alone. -/
theorem exists_line_of_parse (h : parse d text = .ok table) :
    ∀ r ∈ table.directives, ∃ line ∈ (joined d text).lines, readAlone d line = .ok (some r) :=
  exists_line_of_mem rfl (parse_eq_ok h).1

/-- A table fails as one of its lines does alone, or because of a marker that dangles. -/
theorem parse_eq_error (h : parse d text = .error f) :
    (∃ line ∈ (joined d text).lines, readAlone d line = .error f) ∨
      ∃ e, (joined d text).dangling = some e ∧ f = .parse e := by
  rw [parse_eq] at h
  rcases bind_eq_error h with hlines | ⟨rs, -, h⟩
  · exact .inl (exists_of_readLines_eq_error rfl hlines)
  · cases hdangling : (joined d text).dangling with
    | none =>
      rw [hdangling] at h
      cases h
    | some e =>
      rw [hdangling] at h
      cases h
      exact .inr ⟨e, rfl, rfl⟩

theorem errors_eq (d : Dialect) (text : Text) :
    errors d text = (gatherErrors d (.ofDialect d) (joined d text).lines).map (· ++ (joined d text).dangling.toList) :=
  rfl

end Table
end BrailleTable
