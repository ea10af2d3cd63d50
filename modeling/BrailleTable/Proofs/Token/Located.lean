/-
Where errors point in their line.

An error of a line is about some of its indices, or about an escape by number, which is pointed at with all the digits it
ought to have.
-/
import BrailleTable.Proofs.Token.Order

namespace BrailleTable

namespace LogicalLine

/-- What an error of a line may be about. -/
inductive Locates (l : LogicalLine) : Span → Prop
  | inside {i j : Nat} : i ≤ j → j ≤ l.text.length → Locates l (l.span i j)
  | escape {k width : Nat} {code : CodePoint} : l.text[k]? = some ('\\' : CodePoint) → l.text[k + 1]? = some code →
      Escape.hexWidth? code = some width → Locates l (l.span k (k + 2 + width : Nat))

theorem locates_endSpan (l : LogicalLine) : l.Locates l.endSpan := .inside (Nat.le_refl _) (Nat.le_refl _)

end LogicalLine

namespace Token

variable {line : LogicalLine} {t : Token} {s : Span}

namespace CutFrom

theorem locates_span (h : t.CutFrom line) : line.Locates t.span := by
  rw [h.span_eq]
  exact .inside (Nat.le_of_lt h.start_lt) h.stop_le

theorem getElem?_text (h : t.CutFrom line) {i : Nat} {c : CodePoint} (hi : t.text[i]? = some c) :
    line.text[t.start + i]? = some c := by
  obtain ⟨hlt, -⟩ := List.getElem?_eq_some_iff.mp hi
  rw [h.length_text] at hlt
  rw [h.text_eq, Text.slice_eq, List.getElem?_take_of_lt hlt, List.getElem?_drop] at hi
  exact hi

/-- What an error of a token is about lies in the line as it lies in the token. -/
theorem locates_of_points (h : t.CutFrom line) (hs : t.Points s) : line.Locates s := by
  have hlength := h.length_text
  have hlt := h.start_lt
  have hle := h.stop_le
  by_cases hkind : t.kind = .quoted
  · cases hs with
    | whole => exact h.locates_span
    | part => exact subSpan_of_quoted hkind _ _ ▸ h.locates_span
    | escape => exact subSpan_of_quoted hkind _ _ ▸ h.locates_span
  · cases hs with
    | whole => exact h.locates_span
    | @part i j hij hj =>
      rw [subSpan_of_source_eq_some h.source_eq hkind]
      exact .inside (by omega) (by omega)
    | @escape i width code hslash hcode hwidth =>
      rw [subSpan_of_source_eq_some h.source_eq hkind, show t.start + (i + 2 + width) = t.start + i + 2 + width by omega]
      exact .escape (h.getElem?_text hslash) (h.getElem?_text hcode) hwidth

/-- The second case of `ErrsAt` is one of tokens made by hand: an underscore alone is no word. -/
theorem locates_of_errsAt (h : t.CutFrom line) (hs : t.ErrsAt s) : line.Locates s := by
  rcases hs with hs | ⟨hkind, htext, -⟩
  · exact h.locates_of_points hs
  · have hplain := (h.plain (by rw [hkind]; decide)).1
    rw [hkind, htext] at hplain
    exact absurd hplain (by decide)

end CutFrom
end Token

theorem Lexer.IsLexical.locates {line : LogicalLine} {e : ParseError} (h : IsLexical line e) : line.Locates e.span := by
  obtain ⟨-, i, j, hij, hj, hspan⟩ := h
  rw [hspan]
  exact .inside (Nat.le_of_lt hij) hj

end BrailleTable
