/-
How lines end does not matter to a table.

A text with a carriage return before every line feed is joined into the same lines, and each of them is read as its
counterpart is, with offsets changed and lines and columns kept.  So the two texts give equal tables, or are refused for the
same reason at the same line and column.
-/
import BrailleTable.Proofs.LogicalLine.Digits
import BrailleTable.Proofs.LogicalLine.Returns
import BrailleTable.Proofs.Relocation.Directive
import BrailleTable.Proofs.Table.Failure

namespace BrailleTable

/-! ## What does not depend on offsets -/

/-- The line and column of both ends of a range. -/
def Span.corners (s : Span) : (Int × Int) × (Int × Int) := ((s.line, s.col), (s.endLine, s.endCol))

namespace Span

theorem line_col_of_corners {s t : Span} (h : s.corners = t.corners) : s.line = t.line ∧ s.col = t.col := by
  simp only [corners, Prod.mk.injEq] at h
  exact h.1

theorem corners_withReturns (s : Span) : s.withReturns.corners = s.corners := rfl

end Span

/-- Messages name lines and columns only. -/
theorem Reason.message_map {f : Span → Span} (hf : ∀ s, (f s).corners = s.corners) (r : Reason) :
    (r.map f).message = r.message := by
  induction r with
  | wrongArgument opcode position label cause ih => simp only [map, message, ih]
  | badOperand opcode cause ih => simp only [map, message, ih]
  | unexpected opcode expected found context =>
    cases context with
    | none => rfl
    | some s =>
      obtain ⟨hline, hcol⟩ := Span.line_col_of_corners (hf s)
      simp only [map, message, Option.map_some, Span.display, hline, hcol]
  | _ => rfl

namespace Directive

variable {σ τ υ : Type}

theorem map_map (f : σ → τ) (g : τ → υ) (r : Directive σ) : (r.map f).map g = r.map (g ∘ f) := by
  have hargs : (r.args.map (Value.map f)).map (Value.map g) = r.args.map (Value.map (g ∘ f)) := by
    rw [List.map_map]
    exact List.map_congr_left fun v _ => by cases v <;> rfl
  have hexpression : (r.expression.map (Expression.map f)).map (Expression.map g) =
      r.expression.map (Expression.map (g ∘ f)) := by
    rw [Option.map_map]
    exact congrArg (Option.map · r.expression) (funext fun e => e.map_map f g)
  simp only [map, hargs, hexpression, Function.comp]

/-- Directives that differ in their annotations only are equal. -/
theorem same_of_map_eq (f : σ → τ) {a b : Directive σ} (h : a.map f = b.map f) : a.same b = true := by
  obtain ⟨hopcode, hargs, hexpression, hmodifiers, -, -⟩ := Directive.mk.inj h
  have hbare : ∀ vs : List (Value σ), (vs.map (Value.map f)).map Value.bare = vs.map Value.bare := by
    intro vs
    rw [List.map_map]
    exact List.map_congr_left fun v _ => v.bare_map f
  have hargs' : a.args.map Value.bare = b.args.map Value.bare := by
    rw [← hbare, hargs, hbare]
  unfold same
  rw [hopcode, hargs', hmodifiers]
  cases ha : a.expression with
  | none =>
    cases hb : b.expression with
    | none => simp
    | some e => simp [ha, hb] at hexpression
  | some e =>
    cases hb : b.expression with
    | none => simp [ha, hb] at hexpression
    | some e' =>
      have heq : e.map f = e'.map f := by simpa [ha, hb] using hexpression
      simp [Expression.same_of_map_eq f e e' heq]

end Directive

namespace Table

theorem same_of_map_eq {τ : Type} (f : Span → τ) {t u : Table}
    (h : t.directives.map (Directive.map f) = u.directives.map (Directive.map f)) : t.same u = true := by
  have hmaps : List.Forall₂ Eq (t.directives.map (Directive.map f)) (u.directives.map (Directive.map f)) := by
    rw [List.forall₂_eq_eq_eq]
    exact h
  obtain ⟨hlength, hzip⟩ :=
    List.forall₂_iff_zip.mp (List.forall₂_map_right_iff.mp (List.forall₂_map_left_iff.mp hmaps))
  unfold same
  rw [Bool.and_eq_true, decide_eq_true_iff, List.all_eq_true]
  exact ⟨hlength, fun x hx => Directive.same_of_map_eq f (hzip hx)⟩

/-! ## Results up to offsets -/

variable {α β γ δ : Type} {g : α → β} {k : γ → δ} {x y : Except Failure α}

/-- Results that differ in offsets only, where `g` forgets the offsets of a value. -/
inductive Matches (g : α → β) : Except Failure α → Except Failure α → Prop
  | ok {a a' : α} : g a' = g a → Matches g (.ok a) (.ok a')
  | error {f : Span → Span} (e : Failure) : (∀ s, (f s).corners = s.corners) → Matches g (.error e) (.error (e.map f))

theorem Matches.bind (h : Matches g x y) {next next' : α → Except Failure γ}
    (hnext : ∀ a a', g a' = g a → Matches k (next a) (next' a')) : Matches k (x >>= next) (y >>= next') := by
  cases h with
  | ok ha => exact hnext _ _ ha
  | error e hf => exact .error e hf

theorem Matches.map (h : Matches g x y) {f f' : α → γ} (hf : ∀ a a', g a' = g a → k (f' a') = k (f a)) :
    Matches k (x.map f) (y.map f') := by
  cases h with
  | ok ha => exact .ok (hf _ _ ha)
  | error e hcorners => exact .error e hcorners

/-- What agrees but for a motion that keeps lines and columns. -/
theorem Matches.of_agree {f : Span → Span} {move : α → α} (h : Agree (Failure.map f) move x y)
    (hf : ∀ s, (f s).corners = s.corners) (hg : ∀ a, g (move a) = g a) : Matches g x y := by
  cases h with
  | ok a => exact .ok (hg a)
  | error e => exact .error e hf

variable {d : Dialect} {lx : Lexer}

theorem readAlone_matches (d : Dialect) {l : LogicalLine} (hplaced : l.IsPlaced) (hstepped : l.IsStepped) :
    Matches (Option.map (Directive.map Span.corners)) (readAlone d l) (readAlone d (l.move .returns)) := by
  refine .of_agree (readAlone_move (LogicalLine.returnsRelocation hplaced hstepped) d) (fun _ => rfl) fun r => ?_
  rw [Option.map_map]
  exact congrArg (Option.map · r) (funext fun r' => r'.map_map _ _)

theorem readLines_matches (h : Serves lx d) {lines : List LogicalLine}
    (hlines : ∀ l ∈ lines, l.IsPlaced ∧ l.IsStepped) :
    Matches (List.map (Directive.map Span.corners)) (readLines d lx lines)
      (readLines d lx (lines.map (LogicalLine.move .returns))) := by
  induction lines with
  | nil => exact .ok rfl
  | cons l rest ih =>
    obtain ⟨⟨hplaced, hstepped⟩, hrest⟩ := List.forall_mem_cons.mp hlines
    rw [List.map_cons, readLines_cons h, readLines_cons h]
    refine (readAlone_matches d hplaced hstepped).bind fun r r' hr => ?_
    refine (ih hrest).map fun rs rs' hrs => ?_
    rw [List.map_append, List.map_append, hrs, ← Option.toList_map, ← Option.toList_map, hr]

theorem parse_matches (d : Dialect) (text : Text) :
    Matches (fun table => table.directives.map (Directive.map Span.corners)) (parse d text)
      (parse d text.withReturns) := by
  have hlines : ∀ l ∈ (joined d text).lines, l.IsPlaced ∧ l.IsStepped := fun l hl =>
    ⟨LogicalLine.isPlaced_of_mem_join hl, LogicalLine.isStepped_of_mem_joinFrom (fun p hp => by cases hp) hl⟩
  have hjoined : joined d text.withReturns = (joined d text).move .returns := LogicalLine.join_withReturns _ _ text
  rw [parse_eq, parse_eq, hjoined]
  refine (readLines_matches rfl hlines).bind fun rs rs' hrs => ?_
  unfold LogicalLine.Joined.move
  cases (joined d text).dangling with
  | none => exact .ok hrs
  | some e => exact .error (.parse e) Span.corners_withReturns

/-- Without numbers too long to convert, a table is read or refused. -/
theorem exists_of_parse_eq_error (hd : d.vocabulary.IsSound) {text : Text}
    (htext : text.DigitRunsWithin Text.digitLimit) {failure : Failure} (h : parse d text = .error failure) :
    ∃ e, failure = .parse e := by
  rcases arises_of_parse hd h with ⟨line, hline, harises⟩ | ⟨e, -, rfl⟩
  · cases harises with
    | error _ _ => exact ⟨_, rfl⟩
    | oversized ht hlong =>
      obtain ⟨hkind, hlimit, -⟩ := hlong
      obtain ⟨hrun, -, hdigits⟩ := ht.exists_run_of_number hkind
      have hle := LogicalLine.digitRunsWithin_of_mem_join htext hline _ hrun hdigits
      exact absurd hle (Nat.not_le_of_lt hlimit)
  · exact ⟨e, rfl⟩

/-- Whether lines end in a line feed alone or in a carriage return and a line feed does not matter.  In a dialect that a
configuration makes, and a text without numbers too long to convert, either both texts are accepted and give equal tables,
with all parts at the same lines and columns and with the same comments, or both are refused with errors that differ in
offsets only. -/
theorem parse_withReturns {settings : List (Text × Dialect.Datum)} {opcodes : List (Text × Text)}
    (hd : Dialect.configure settings opcodes = .ok d) {text : Text} (htext : text.DigitRunsWithin Text.digitLimit) :
    (∃ table table', parse d text = .ok table ∧ parse d text.withReturns = .ok table' ∧ table.same table' = true ∧
      table'.directives.map (Directive.map Span.corners) = table.directives.map (Directive.map Span.corners)) ∨
    ∃ e e', parse d text = .error (.parse e) ∧ parse d text.withReturns = .error (.parse e') ∧
      e'.category.label = e.category.label ∧ e'.message = e.message ∧ e'.expected = e.expected ∧ e'.found = e.found ∧
      e'.span.line = e.span.line ∧ e'.span.col = e.span.col := by
  have hmatches := parse_matches d text
  have herror : ∀ failure, parse d text = .error failure → ∃ e, failure = .parse e := fun _ =>
    exists_of_parse_eq_error (Dialect.isSound_of_configure hd) htext
  generalize parse d text = x at hmatches herror ⊢
  generalize parse d text.withReturns = y at hmatches ⊢
  cases hmatches with
  | ok heq => exact .inl ⟨_, _, rfl, rfl, same_of_map_eq Span.corners heq.symm, heq⟩
  | error failure hf =>
    obtain ⟨e, rfl⟩ := herror failure rfl
    obtain ⟨hline, hcol⟩ := Span.line_col_of_corners (hf e.span)
    exact .inr ⟨e, e.map _, rfl, rfl, e.category.label_map _, e.reason.message_map hf, rfl, rfl, hline, hcol⟩

end Table

/-- A text with a line joined from three, comments, and a last line that lacks its line feed. -/
def mixedEndings : Text := "always a 1 # one\nnoback shout \\ \n  ab 3 \\\n12\npass2 test _digit actions go 7 # last"

/-- Its five lines give three directives, whatever they end in. -/
theorem parse_withReturns_mixedEndings :
    ∃ d, Dialect.configure [("dot_alphabet", .text "012345678")] [("shout", "prefixable characters number dots")] = .ok d ∧
      ∃ table table', Table.parse d mixedEndings = .ok table ∧ Table.parse d mixedEndings.withReturns = .ok table' ∧
        table.directives.length = 3 ∧ table.same table' = true ∧
        table'.directives.map (Directive.map Span.corners) = table.directives.map (Directive.map Span.corners) := by
  have haccepted : ((Dialect.configure [("dot_alphabet", .text "012345678")]
      [("shout", "prefixable characters number dots")]).toOption.bind fun d =>
      (Table.parse d mixedEndings).toOption.map fun table => table.directives.length) = some 3 := by
    decide +kernel
  obtain ⟨d, hd, haccepted⟩ := toOption_bind_eq_some haccepted
  obtain ⟨table, htable, hlength⟩ := Option.map_eq_some_iff.mp haccepted
  have hparse := toOption_eq_some htable
  have hdigits : mixedEndings.DigitRunsWithin Text.digitLimit := fun run hrun _ => hrun.length_le.trans (by decide)
  rcases Table.parse_withReturns hd hdigits with ⟨table₀, table', htable₀, htable', hsame, hcorners⟩ | ⟨e, -, he, -⟩
  · cases hparse.symm.trans htable₀
    exact ⟨d, hd, table, table', hparse, htable', hlength, hsame, hcorners⟩
  · cases hparse.symm.trans he

end BrailleTable
