/-
Where the errors of tables point.

An error of a line starts at a place of the source, and it is over before its physical line is, with one exception: an
escape by number that lacks digits is pointed at with all the digits it ought to have, whether the line is long enough for
them or not.
-/
import BrailleTable.Proofs.LogicalLine.Ranges
import BrailleTable.Proofs.Table.Failure

namespace BrailleTable

/-- The range starts at an offset of the text, with the line and column that the offset has. -/
def Span.StartsIn (text : Text) (s : Span) : Prop :=
  ∃ o : Nat, o ≤ text.length ∧ (⟨s.line, s.col, s.start⟩ : Place) = .ofOffset text o

theorem Span.IsRange.startsIn {text : Text} {s : Span} (h : s.IsRange text) : s.StartsIn text := by
  obtain ⟨i, j, hij, hj, rfl⟩ := h
  exact ⟨i, by omega, rfl⟩

namespace LogicalLine

variable {text : Text} {l : LogicalLine} {s : Span}

theorem place_start_span (l : LogicalLine) (i j : Nat) :
    (⟨(l.span i j).line, (l.span i j).col, (l.span i j).start⟩ : Place) = l.place i := by
  unfold span
  split <;> rfl

/-- What an error of a line is about starts in the source and does not stop before it starts. -/
theorem Locates.startsIn (hl : l.IsMapped text) (h : l.Locates s) : s.StartsIn text ∧ s.start ≤ s.stop := by
  cases h with
  | @inside i j hij hj =>
    have hrange := hl.isRange_span hij hj
    exact ⟨hrange.startsIn, hrange.start_le_stop⟩
  | @escape k width code hslash _ _ =>
    obtain ⟨hk, -⟩ := List.getElem?_eq_some_iff.mp hslash
    obtain ⟨o, ho, hplace⟩ := hl.exists_place_eq (Nat.le_of_lt hk)
    refine ⟨⟨o, ho, (l.place_start_span k _).trans hplace⟩, ?_⟩
    have hle := hl.isPlaced.offset_add_le (show k ≤ k + 2 + width - 1 by omega)
    rw [span_start, stop_span (by omega)]
    omega

/-- The error of a marker that dangles is about the marker. -/
theorem isRange_of_dangling {marker commentMark : Text} {e : ParseError}
    (h : (join marker commentMark (physicalLines text)).dangling = some e) : e.span.IsRange text := by
  rcases exists_of_dangling_joinFrom h with ⟨p, hp, -⟩ | ⟨x, hx, hcont, rfl⟩
  · cases hp
  · obtain ⟨before, blanks, hbody, hcut, -, -⟩ := exists_of_isContinued hcont
    have hle : cutAt marker x.2 + marker.length ≤ (body x.2).length := by
      rw [hbody, hcut, List.length_append, List.length_append]
      omega
    have hline := isPhysicalLine_of_mem hx
    obtain ⟨i, hi, -, hstart⟩ := hline.advance_eq_ofOffset (show cutAt marker x.2 ≤ _ by omega)
    obtain ⟨j, hj, hlast, hstop⟩ := hline.advance_eq_ofOffset hle
    refine ⟨i, j, by omega, hlast, ?_⟩
    show Span.between (x.1.advance (cutAt marker x.2)) ((x.1.advance (cutAt marker x.2)).advance marker.length) = _
    rw [← hstart, ← hstop]
    unfold Place.advance
    simp only [Int.natCast_add, Int.add_assoc]

end LogicalLine

namespace Table

variable {d : Dialect} {text : Text} {s : Span}

/-- The range of an escape by number that ends behind the physical line, because the line is over before the escape has
the digits it ought to have. -/
def Overruns (d : Dialect) (text : Text) (s : Span) : Prop :=
  ∃ l ∈ (joined d text).lines, ∃ (k width : Nat) (code : CodePoint),
    l.text[k]? = some ('\\' : CodePoint) ∧ l.text[k + 1]? = some code ∧ Escape.hexWidth? code = some width ∧
    s = l.span k (k + 2 + width : Nat) ∧
    l.text.length + (text.restOfLine l.endSpan.start.toNat).length < k + 2 + width

theorem Overruns.not_endsInLine (h : Overruns d text s) : ¬ s.EndsInLine text := by
  obtain ⟨l, hl, k, width, code, -, -, -, rfl, hlt⟩ := h
  rw [(LogicalLine.isMapped_of_mem_join hl).endsInLine_span_iff (by omega)]
  omega

theorem endsInLine_or_overruns {l : LogicalLine} (hl : l ∈ (joined d text).lines) (h : l.Locates s) :
    s.EndsInLine text ∨ Overruns d text s := by
  have hmapped := LogicalLine.isMapped_of_mem_join hl
  cases h with
  | inside hij hj => exact .inl (hmapped.isRange_span hij hj).endsInLine
  | @escape k width code hslash hcode hwidth =>
    by_cases hlt : l.text.length + (text.restOfLine l.endSpan.start.toNat).length < k + 2 + width
    · exact .inr ⟨l, hl, k, width, code, hslash, hcode, hwidth, rfl, hlt⟩
    · exact .inl ((hmapped.endsInLine_span_iff (by omega)).mpr (by omega))

/-- Where errors point.  In a dialect that a configuration makes, the error of a table starts in the source, with the line
and column of its offset, and does not stop before it starts.  It stops in the source, before its physical line does,
except where it is about an escape by number that is too close to the end of the line. -/
theorem startsIn_of_parse_eq_error {settings : List (Text × Dialect.Datum)} {opcodes : List (Text × Text)}
    (hd : Dialect.configure settings opcodes = .ok d) {e : ParseError} (h : parse d text = .error (.parse e)) :
    e.span.StartsIn text ∧ e.span.start ≤ e.span.stop ∧ (e.span.EndsInLine text ↔ ¬ Overruns d text e.span) := by
  have hends : ∀ {s : Span}, s.EndsInLine text ∨ Overruns d text s → (s.EndsInLine text ↔ ¬ Overruns d text s) :=
    fun hor => ⟨fun hin hover => hover.not_endsInLine hin, hor.resolve_right⟩
  rcases arises_of_parse (Dialect.isSound_of_configure hd) h with ⟨line, hline, harises⟩ | ⟨e', he', heq⟩
  · cases harises with
    | error _ hlocates =>
      obtain ⟨hstart, hle⟩ := hlocates.startsIn (LogicalLine.isMapped_of_mem_join hline)
      exact ⟨hstart, hle, hends (endsInLine_or_overruns hline hlocates)⟩
    | oversized _ hlong => cases hlong.2.2
  · cases heq
    have hrange := LogicalLine.isRange_of_dangling he'
    exact ⟨hrange.startsIn, hrange.start_le_stop, hends (.inl hrange.endsInLine)⟩

end Table

/-- Four digits ought to follow the `x`, but the text is over behind the first of them. -/
def shortEscape : Text := "always \\x1"

/-- The text has ten code points, and the error stops at the offset thirteen. -/
theorem overruns_shortEscape :
    ∃ d, Dialect.configure [] [] = .ok d ∧ ∃ e, Table.parse d shortEscape = .error (.parse e) ∧
      e.span.start = 7 ∧ e.span.stop = 13 ∧ shortEscape.length = 10 ∧ Table.Overruns d shortEscape e.span := by
  have hrefused : ((Dialect.configure [] []).toOption.bind fun d =>
      (Expression.errorOf? (Table.parse d shortEscape)).map fun e => (e.span.start, e.span.stop)) = some (7, 13) := by
    decide +kernel
  obtain ⟨d, hd, hspans⟩ := toOption_bind_eq_some hrefused
  obtain ⟨e, he, hspan⟩ := Option.map_eq_some_iff.mp hspans
  obtain ⟨hstart, hstop⟩ := Prod.mk.inj hspan
  have herror : Table.parse d shortEscape = .error (.parse e) := Expression.eq_of_errorOf?_eq_some he
  obtain ⟨-, -, hiff⟩ := Table.startsIn_of_parse_eq_error hd herror
  refine ⟨d, hd, e, herror, hstart, hstop, rfl, ?_⟩
  have hout : ¬ e.span.EndsInLine shortEscape := fun hin => by
    have hle := hin.1
    rw [hstop] at hle
    exact absurd hle (by decide)
  exact Classical.not_not.mp fun hnot => hout (hiff.mpr hnot)

end BrailleTable
