/-
What the refusal of an argument names.

A refusal names the token as it is spelled and points into it, with two exceptions.  Where the body of a class is refused
the opening bracket is missing from what is named, because the body is read as a token of its own; and an escape that
lacks digits is pointed at with all the digits it ought to have, behind the end of the token if need be.
-/
import BrailleTable.Proofs.LogicalLine.Ranges
import BrailleTable.Proofs.Token.Cut
import BrailleTable.Proofs.Value.CharClass

namespace BrailleTable

/-! ## What is found -/

namespace Value

open Escape (Decoded decode decodeFrom refuse)

variable {t : Token} {e : ParseError}

/-- The error refuses the token for what it is, and names it as it is spelled. -/
structure IsRefusal (t : Token) (e : ParseError) : Prop where
  category_eq : e.category = .value
  found_eq : e.found = some t.text

theorem isRefusal_of_requireKind {kinds report : List TokenKind} {what : Text}
    (h : requireKind t kinds report what = .error e) : IsRefusal t e := by
  unfold requireKind at h
  split at h
  · cases h
  · cases h
    exact ⟨rfl, rfl⟩

theorem isRefusal_of_decodeFrom {extra : Text} {i : Nat} {s : Text} (h : decodeFrom t extra i s = .error e) :
    IsRefusal t e := by
  fun_induction decodeFrom t extra i s with
  | case1 => cases h
  | case2 =>
    cases h
    exact ⟨rfl, rfl⟩
  | case3 => cases h
  | case4 i c code rest _ ih => exact ih (map_eq_error h)
  | case5 i c code rest _ d _ ih => exact ih (map_eq_error h)
  | case6 i c code rest _ _ _ ih => exact ih (map_eq_error h)
  | case7 =>
    cases h
    exact ⟨rfl, rfl⟩
  | case8 =>
    cases h
    exact ⟨rfl, rfl⟩
  | case9 =>
    cases h
    exact ⟨rfl, rfl⟩
  | case10 i c code rest _ _ _ width _ n _ d _ ih => exact ih (map_eq_error h)

theorem isRefusal_of_decode {extra : Text} (h : decode t extra = .error e) : IsRefusal t e := by
  unfold Escape.decode at h
  split at h
  · cases h
  · exact isRefusal_of_decodeFrom h

theorem isRefusal_of_readCharacters (h : readCharacters t = .error e) : IsRefusal t e := by
  rcases bind_eq_error h with h | ⟨ds, -, h⟩
  · exact isRefusal_of_decode h
  · split at h <;> cases h
    exact ⟨rfl, rfl⟩

theorem isRefusal_of_readCharacter (h : readCharacter t = .error e) : IsRefusal t e := by
  rcases bind_eq_error h with h | ⟨ds, -, h⟩
  · exact isRefusal_of_decode h
  · split at h <;> cases h <;> exact ⟨rfl, rfl⟩

theorem isRefusal_of_readCells {alphabet : Text} {i cellStart : Nat} {cell : List Int} {s : Text}
    (h : readCells alphabet t i cellStart cell s = .error e) : IsRefusal t e := by
  induction s generalizing i cellStart cell with
  | nil =>
    rw [readCells] at h
    split at h <;> cases h
    exact ⟨rfl, rfl⟩
  | cons c rest ih =>
    rw [readCells] at h
    split at h
    · split at h
      · cases h
        exact ⟨rfl, rfl⟩
      · exact ih (map_eq_error h)
    · split at h
      · cases h
        exact ⟨rfl, rfl⟩
      · dsimp only at h
        split at h
        · cases h
          exact ⟨rfl, rfl⟩
        · exact ih h

theorem isRefusal_of_readDots {alphabet : Text} (h : readDots alphabet t = .error e) : IsRefusal t e := by
  rcases bind_eq_error h with h | ⟨_, -, h⟩
  · exact isRefusal_of_requireKind h
  · rcases bind_eq_error h with h | ⟨_, -, h⟩
    · exact isRefusal_of_readCells h
    · cases h

theorem isRefusal_of_readNumber (h : readNumber t = .error (.parse e)) : IsRefusal t e := by
  unfold readNumber at h
  split at h
  · rename_i hkind
    cases h
    exact isRefusal_of_requireKind hkind
  · split at h <;> cases h

theorem isRefusal_of_checkName {i : Nat} {name nameChar : Text} (h : checkName t i name nameChar = .error e) :
    IsRefusal t e := by
  unfold checkName at h
  split at h
  · cases h
    exact ⟨rfl, rfl⟩
  · split at h
    · cases h
      exact ⟨rfl, rfl⟩
    · dsimp only at h
      split at h <;> cases h
      exact ⟨rfl, rfl⟩

theorem isRefusal_of_readName (h : readName t = .error e) : IsRefusal t e := by
  rcases bind_eq_error (map_eq_error h) with h | ⟨_, -, h⟩
  · exact isRefusal_of_requireKind h
  · rcases bind_eq_error h with h | ⟨_, -, h⟩
    · exact isRefusal_of_checkName h
    · cases h

theorem isRefusal_of_readFilename (h : readFilename t = .error e) : IsRefusal t e := by
  rcases bind_eq_error h with h | ⟨_, -, h⟩
  · exact isRefusal_of_requireKind h
  · cases h

theorem isRefusal_of_readString (h : readString t = .error e) : IsRefusal t e := by
  rcases bind_eq_error h with h | ⟨_, -, h⟩
  · exact isRefusal_of_requireKind h
  · cases h

/-- The error is about the body of a class: it holds an escape that does not decode, or one of its items starts with a
bracket that is not escaped. -/
def RefusesBody (t : Token) (e : ParseError) : Prop :=
  ∃ inner, t.text = ('[' : CodePoint) :: inner ∧
    (decode (classBody t inner) "]-[" = .error e ∨ ∃ d, readItems.guardBracket (classBody t inner) d = .error e)

theorem isRefusal_of_guardBracket {body : Token} {d : Decoded} (h : readItems.guardBracket body d = .error e) :
    IsRefusal body e := by
  unfold readItems.guardBracket at h
  split at h <;> cases h
  exact ⟨rfl, rfl⟩

theorem isRefusal_of_readItems {whole body : Token} {ds : List Decoded} (h : readItems whole body ds = .error e) :
    IsRefusal whole e ∨ ∃ d, readItems.guardBracket body d = .error e := by
  have hreading := reading whole body ds
  induction hreading with
  | nil => cases h
  | single _ _ hread _ ih =>
    rw [hread] at h
    exact ih (map_eq_error h)
  | range _ _ _ hread _ ih =>
    rw [hread] at h
    exact ih (map_eq_error h)
  | bracket hbracket hread =>
    rw [hread] at h
    cases h
    exact .inr ⟨_, hbracket⟩
  | descending _ _ hread =>
    rw [hread] at h
    cases h
    exact .inl ⟨rfl, rfl⟩

theorem isRefusal_of_readClass (h : readClass t = .error e) : IsRefusal t e ∨ RefusesBody t e := by
  rcases bind_eq_error h with h | ⟨_, -, h⟩
  · exact .inl (isRefusal_of_requireKind h)
  split at h
  · cases h
    exact .inl ⟨rfl, rfl⟩
  rename_i c inner htext
  split at h
  · cases h
    exact .inl ⟨rfl, rfl⟩
  rename_i hbracket
  rw [not_not.mp hbracket] at htext
  rcases bind_eq_error h with h | ⟨elements, -, h⟩
  · exact .inr ⟨inner, htext, .inl h⟩
  split at h
  · cases h
    exact .inl ⟨rfl, rfl⟩
  split at h
  · cases h
    exact .inl ⟨rfl, rfl⟩
  split at h
  · cases h
    exact .inl ⟨rfl, rfl⟩
  · rcases bind_eq_error h with h | ⟨_, -, h⟩
    · exact (isRefusal_of_readItems h).imp_right fun hguard => ⟨inner, htext, .inr hguard⟩
    · cases h

theorem RefusesBody.isRefusal (h : RefusesBody t e) : ∃ inner, t.text = ('[' : CodePoint) :: inner ∧
    IsRefusal (classBody t inner) e := by
  obtain ⟨inner, htext, hdecode | ⟨d, hguard⟩⟩ := h
  · exact ⟨inner, htext, isRefusal_of_decode hdecode⟩
  · exact ⟨inner, htext, isRefusal_of_guardBracket hguard⟩

theorem RefusesBody.found_eq (h : RefusesBody t e) : e.found = some (t.text.drop 1) := by
  obtain ⟨inner, htext, hrefusal⟩ := h.isRefusal
  rw [htext]
  exact hrefusal.found_eq

theorem RefusesBody.found_ne (h : RefusesBody t e) : e.found ≠ some t.text := by
  rw [h.found_eq]
  obtain ⟨inner, htext, -⟩ := h
  intro heq
  have hlength := congrArg List.length (Option.some.inj heq)
  rw [htext, List.length_drop, List.length_cons] at hlength
  omega

end Value

namespace SlotKind

variable {alphabet : Text} {t : Token} {kind : SlotKind} {e : ParseError}

theorem isRefusal_of_read (h : kind.read alphabet t = .error (.parse e)) :
    Value.IsRefusal t e ∨ kind = .charClass ∧ Value.RefusesBody t e := by
  cases kind with
  | dots => exact .inl (Value.isRefusal_of_readDots (eq_error_of_mapError h))
  | character => exact .inl (Value.isRefusal_of_readCharacter (eq_error_of_mapError h))
  | characters => exact .inl (Value.isRefusal_of_readCharacters (eq_error_of_mapError h))
  | charClass => exact (Value.isRefusal_of_readClass (eq_error_of_mapError h)).imp_right fun hbody => ⟨rfl, hbody⟩
  | number => exact .inl (Value.isRefusal_of_readNumber h)
  | name => exact .inl (Value.isRefusal_of_readName (eq_error_of_mapError h))
  | filename => exact .inl (Value.isRefusal_of_readFilename (eq_error_of_mapError h))
  | string => exact .inl (Value.isRefusal_of_readString (eq_error_of_mapError h))

theorem found_of_read (h : kind.read alphabet t = .error (.parse e)) :
    e.found = some t.text ∨ kind = .charClass ∧ Value.RefusesBody t e :=
  (isRefusal_of_read h).imp_left Value.IsRefusal.found_eq

theorem category_of_read (h : kind.read alphabet t = .error (.parse e)) : e.category = .value := by
  rcases isRefusal_of_read h with hrefusal | ⟨-, hbody⟩
  · exact hrefusal.category_eq
  · obtain ⟨inner, -, hrefusal⟩ := hbody.isRefusal
    exact hrefusal.category_eq

end SlotKind

/-! ## Where the range ends -/

namespace Token

variable {line : LogicalLine} {t : Token} {s : Span}

/-- The range of an escape by number for whose digits the token is too short. -/
def Overruns (t : Token) (s : Span) : Prop :=
  t.kind ≠ .quoted ∧ ∃ (i width : Nat) (code : CodePoint), t.text[i]? = some ('\\' : CodePoint) ∧
    t.text[i + 1]? = some code ∧ Escape.hexWidth? code = some width ∧ s = t.subSpan i (i + 2 + width) ∧
    t.text.length < i + 2 + width

theorem CutFrom.lt_stop_of_overruns (h : t.CutFrom line) (hline : line.IsPlaced) (hs : t.Overruns s) :
    t.span.stop < s.stop := by
  obtain ⟨hquoted, i, width, code, -, -, -, rfl, hlt⟩ := hs
  have hlength := h.length_text
  have hstart := h.start_lt
  have hle := hline.offset_add_le (show t.stop - 1 ≤ t.start + (i + 2 + width) - 1 by omega)
  rw [subSpan_of_source_eq_some h.source_eq hquoted, h.span_eq, LogicalLine.stop_span hstart,
    LogicalLine.stop_span (by omega)]
  omega

theorem CutFrom.start_lt_stop_span (h : t.CutFrom line) (hline : line.IsPlaced) : t.span.start < t.span.stop := by
  rw [h.span_eq]
  exact hline.start_lt_stop_span h.start_lt

/-- A part of a token ends in the token. -/
theorem CutFrom.stop_subSpan_le (h : t.CutFrom line) (hline : line.IsPlaced) {i j : Nat} (hij : i ≤ j)
    (hj : t.kind = .quoted ∨ j ≤ t.text.length) :
    (t.subSpan i j).start ≤ (t.subSpan i j).stop ∧ (t.subSpan i j).stop ≤ t.span.stop := by
  by_cases hquoted : t.kind = .quoted
  · rw [subSpan_of_quoted hquoted]
    exact ⟨Int.le_of_lt (h.start_lt_stop_span hline), Int.le_refl _⟩
  · replace hj := hj.resolve_left hquoted
    have hlength := h.length_text
    have hstart := h.start_lt
    rw [subSpan_of_source_eq_some h.source_eq hquoted, h.span_eq]
    rcases Nat.lt_or_eq_of_le hij with hlt | rfl
    · have hwithin := hline.within_span (show t.start ≤ t.start + i by omega)
        (show t.start + i < t.start + j by omega) (show t.start + j ≤ t.stop by omega)
      exact ⟨Int.le_of_lt (hline.start_lt_stop_span (by omega)), hwithin.2⟩
    · have hpoint : (line.span (t.start + i : Nat) (t.start + i : Nat)).stop =
          (line.span (t.start + i : Nat) (t.start + i : Nat)).start := by
        unfold LogicalLine.span
        rw [if_pos (Int.le_refl _)]
        rfl
      rw [hpoint]
      exact ⟨Int.le_refl _, (hline.span_start_mem (by omega) (by omega) hstart (h.last_ne_space hquoted) _).2⟩

/-- What an error of a token is about starts in the token.  It ends in the token as well, unless it is an escape by number
that the token is too short for. -/
theorem CutFrom.points_within (h : t.CutFrom line) (hline : line.IsPlaced) (hs : t.Points s) :
    t.span.start ≤ s.start ∧ s.start ≤ t.span.stop ∧ s.start ≤ s.stop ∧ (s.stop ≤ t.span.stop ↔ ¬ t.Overruns s) := by
  have hwhole := Int.le_of_lt (h.start_lt_stop_span hline)
  have hbounds : t.span.start ≤ s.start ∧ s.start ≤ t.span.stop := by
    rcases h.span_mem hline hs.encloses with rfl | hmem
    · exact ⟨Int.le_refl _, hwhole⟩
    · exact hmem
  have hends : s.start ≤ s.stop ∧ s.stop ≤ t.span.stop ∨ t.Overruns s := by
    cases hs with
    | whole => exact .inl ⟨hwhole, Int.le_refl _⟩
    | part hij hj => exact .inl (h.stop_subSpan_le hline hij (.inr hj))
    | @escape i width code hslash hcode hwidth =>
      by_cases hfits : t.kind = .quoted ∨ i + 2 + width ≤ t.text.length
      · exact .inl (h.stop_subSpan_le hline (by omega) hfits)
      · obtain ⟨hquoted, hlt⟩ := not_or.mp hfits
        exact .inr ⟨hquoted, i, width, code, hslash, hcode, hwidth, rfl, Nat.not_le.mp hlt⟩
  refine ⟨hbounds.1, hbounds.2, ?_⟩
  rcases hends with ⟨hle, hstop⟩ | hover
  · exact ⟨hle, iff_of_true hstop fun hover => Int.not_lt.mpr hstop (h.lt_stop_of_overruns hline hover)⟩
  · have hlate := h.lt_stop_of_overruns hline hover
    exact ⟨by omega, iff_of_false (Int.not_le.mpr hlate) (not_not.mpr hover)⟩

end Token
end BrailleTable
