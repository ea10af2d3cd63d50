/-
Dot patterns are read back.

A pattern is a list of cells, and `IsPattern` is what every pattern that was read satisfies.  Each dot is written
as one digit, so the reader goes through a cell digit by digit and through a pattern dash by dash.
-/
import BrailleTable.Dialect
import BrailleTable.Proofs.Result
import BrailleTable.Proofs.Value.Escape
import BrailleTable.Value.Reader

namespace BrailleTable

namespace Value

/-- A cell has at least one dot, none of them twice, and its dots are hexadecimal digits. -/
structure IsCell (cell : List Int) : Prop where
  ne_nil : cell ≠ []
  nodup : cell.Nodup
  digit : ∀ dot ∈ cell, ∃ n : Nat, n < 16 ∧ dot = n

structure IsPattern (cells : List (List Int)) : Prop where
  ne_nil : cells ≠ []
  cell : ∀ cell ∈ cells, IsCell cell

/-- The digits that the standard dialect names dots with. -/
def dotDigits : Text := Dialect.standard.dotAlphabet

theorem hexInteger_of_lt {n : Nat} (h : n < 16) : Text.hexInteger n = [CodePoint.hexDigit n] := by
  show Text.hexNumeral n = _
  unfold Text.hexNumeral
  rw [if_pos h]

theorem exists_of_isDotDigit {c : CodePoint} (h : TokenKind.isDotDigit c = true) :
    ∃ n : Nat, n < 16 ∧ c.hexValue? = some n := by
  unfold TokenKind.isDotDigit CodePoint.isDigit at h
  simp only [Bool.or_eq_true, Bool.and_eq_true, decide_eq_true_iff] at h
  unfold CodePoint.hexValue?
  split
  · exact ⟨_, by omega, rfl⟩
  · rw [if_pos (by omega)]
    exact ⟨_, by omega, rfl⟩

theorem mem_dotDigits_of_isDotDigit {c : CodePoint} (h : TokenKind.isDotDigit c = true) : c ∈ dotDigits := by
  have hall : ∀ n : Fin 128, TokenKind.isDotDigit ⟨n, by omega⟩ = true → (⟨n, by omega⟩ : CodePoint) ∈ dotDigits := by
    decide +kernel
  have hlt : c.val < 128 := by
    unfold TokenKind.isDotDigit CodePoint.isDigit at h
    simp only [Bool.or_eq_true, Bool.and_eq_true, decide_eq_true_iff] at h
    omega
  exact hall ⟨c.val, hlt⟩ h

/-- A digit of a braille cell is what its value is written as. -/
theorem hexInteger_eq_of_isDotDigit {c : CodePoint} (h : TokenKind.isDotDigit c = true) {n : Nat}
    (hvalue : c.hexValue? = some n) : Text.hexInteger n = [c] := by
  have hall : ∀ c ∈ dotDigits, CodePoint.hexDigit (c.hexValue?.getD 0) = c := by decide
  have hdigit := hall c (mem_dotDigits_of_isDotDigit h)
  rw [hvalue, Option.getD_some] at hdigit
  obtain ⟨m, hm, hvalue'⟩ := exists_of_isDotDigit h
  cases hvalue.symm.trans hvalue'
  rw [hexInteger_of_lt hm, hdigit]

theorem ne_dash_of_isDotDigit {c : CodePoint} (h : TokenKind.isDotDigit c = true) : c ≠ '-' := by
  rintro rfl
  exact absurd h (by decide)

/-- A cell with dots that digits of the alphabet name. -/
structure IsCellOf (alphabet : Text) (cell : List Int) : Prop where
  ne_nil : cell ≠ []
  nodup : cell.Nodup
  digit : ∀ dot ∈ cell, ∃ c ∈ alphabet, ∃ n : Nat, c.hexValue? = some n ∧ dot = n

structure IsPatternOf (alphabet : Text) (cells : List (List Int)) : Prop where
  ne_nil : cells ≠ []
  cell : ∀ cell ∈ cells, IsCellOf alphabet cell

theorem IsPatternOf.isPattern {alphabet : Text} (halphabet : ∀ c ∈ alphabet, TokenKind.isDotDigit c = true)
    {cells : List (List Int)} (h : IsPatternOf alphabet cells) : IsPattern cells := by
  refine ⟨h.ne_nil, fun cell hcell => ⟨(h.cell cell hcell).ne_nil, (h.cell cell hcell).nodup, fun dot hdot => ?_⟩⟩
  obtain ⟨c, hc, n, hvalue, rfl⟩ := (h.cell cell hcell).digit dot hdot
  obtain ⟨m, hm, hvalue'⟩ := exists_of_isDotDigit (halphabet c hc)
  cases hvalue.symm.trans hvalue'
  exact ⟨n, hm, rfl⟩

theorem IsPattern.isPatternOf {cells : List (List Int)} (h : IsPattern cells) : IsPatternOf dotDigits cells := by
  refine ⟨h.ne_nil, fun cell hcell => ⟨(h.cell cell hcell).ne_nil, (h.cell cell hcell).nodup, fun dot hdot => ?_⟩⟩
  obtain ⟨n, hn, rfl⟩ := (h.cell cell hcell).digit dot hdot
  refine ⟨CodePoint.hexDigit n, CodePoint.hexDigit_mem n, n, ?_, rfl⟩
  rw [CodePoint.hexValue?_hexDigit, Nat.mod_eq_of_lt hn]

/-- A pattern has a dot, so some digit names it. -/
theorem IsPatternOf.alphabet_ne_nil {alphabet : Text} {cells : List (List Int)} (h : IsPatternOf alphabet cells) :
    alphabet ≠ [] := by
  obtain ⟨cell, hcell⟩ := List.exists_mem_of_ne_nil cells h.ne_nil
  obtain ⟨dot, hdot⟩ := List.exists_mem_of_ne_nil cell (h.cell cell hcell).ne_nil
  obtain ⟨c, hc, -⟩ := (h.cell cell hcell).digit dot hdot
  exact List.ne_nil_of_mem hc

/-! ## What is read -/

section

variable {alphabet : Text} (halphabet : ∀ c ∈ alphabet, TokenKind.isDotDigit c = true)

include halphabet

omit halphabet in
theorem readCells_nil_eq_ok {t : Token} {i cellStart : Nat} {cell : List Int} {cells : List (List Int)}
    (h : readCells alphabet t i cellStart cell [] = .ok cells) : cell ≠ [] ∧ cells = [cell] := by
  unfold readCells at h
  split at h
  · cases h
  · rename_i hne
    cases h
    exact ⟨hne, rfl⟩

/-- What one code point does: a dash ends the cell, and a digit names one more dot of it. -/
theorem readCells_cons_eq_ok {t : Token} {c : CodePoint} {rest : Text} {i cellStart : Nat} {cell : List Int}
    {cells : List (List Int)} (h : readCells alphabet t i cellStart cell (c :: rest) = .ok cells) :
    (c = '-' ∧ cell ≠ [] ∧ ∃ more, readCells alphabet t (i + 1) (i + 1) [] rest = .ok more ∧ cells = cell :: more) ∨
    (c ∈ alphabet ∧ ∃ n : Nat, c.hexValue? = some n ∧ (n : Int) ∉ cell ∧
      readCells alphabet t (i + 1) cellStart (cell ++ [(n : Int)]) rest = .ok cells) := by
  unfold readCells at h
  split at h
  · rename_i hdash
    split at h
    · cases h
    · rename_i hne
      obtain ⟨more, hmore, rfl⟩ := map_eq_ok h
      exact .inl ⟨hdash, hne, more, hmore, rfl⟩
  · split at h
    · cases h
    · rename_i hmem
      obtain ⟨n, -, hvalue⟩ := exists_of_isDotDigit (halphabet c (not_not.mp hmem))
      simp only [hvalue, Option.getD_some] at h
      split at h
      · cases h
      · rename_i hfresh
        exact .inr ⟨not_not.mp hmem, n, hvalue, hfresh, h⟩

theorem isPatternOf_of_readCells {t : Token} {s : Text} {i cellStart : Nat} {cell : List Int}
    {cells : List (List Int)} (hnodup : cell.Nodup)
    (hdigit : ∀ dot ∈ cell, ∃ c ∈ alphabet, ∃ n : Nat, c.hexValue? = some n ∧ dot = n)
    (h : readCells alphabet t i cellStart cell s = .ok cells) : IsPatternOf alphabet cells := by
  induction s generalizing i cellStart cell cells with
  | nil =>
    obtain ⟨hne, rfl⟩ := readCells_nil_eq_ok h
    exact ⟨List.cons_ne_nil _ _, List.forall_mem_singleton.mpr ⟨hne, hnodup, hdigit⟩⟩
  | cons c rest ih =>
    rcases readCells_cons_eq_ok halphabet h with ⟨-, hne, more, hmore, rfl⟩ | ⟨hmem, n, hvalue, hfresh, hrest⟩
    · have hpattern := ih List.nodup_nil (fun dot hdot => absurd hdot List.not_mem_nil) hmore
      exact ⟨List.cons_ne_nil _ _, List.forall_mem_cons.mpr ⟨⟨hne, hnodup, hdigit⟩, hpattern.cell⟩⟩
    · refine ih ?_ (fun dot hdot => ?_) hrest
      · rw [List.nodup_append]
        refine ⟨hnodup, by simp, fun a ha b hb => ?_⟩
        rw [List.mem_singleton.mp hb]
        rintro rfl
        exact hfresh ha
      · rcases List.mem_append.mp hdot with hdot | hdot
        · exact hdigit dot hdot
        · exact ⟨c, hmem, n, hvalue, List.mem_singleton.mp hdot⟩

theorem isPatternOf_of_readDots {t : Token} {v : Value Span} (h : readDots alphabet t = .ok v) :
    ∃ cells, v = .dots cells t.span ∧ IsPatternOf alphabet cells := by
  obtain ⟨_, -, h⟩ := bind_eq_ok h
  obtain ⟨cells, hcells, h⟩ := bind_eq_ok h
  cases h
  exact ⟨cells, rfl,
    isPatternOf_of_readCells halphabet List.nodup_nil (fun dot hdot => absurd hdot List.not_mem_nil) hcells⟩

end

theorem isPattern_of_readDots {t : Token} {v : Value Span} (h : readDots dotDigits t = .ok v) :
    ∃ cells, v = .dots cells t.span ∧ IsPattern cells := by
  obtain ⟨cells, rfl, hcells⟩ := isPatternOf_of_readDots Dialect.standard.dotAlphabet_digits h
  exact ⟨cells, rfl, hcells.isPattern Dialect.standard.dotAlphabet_digits⟩

/-! ## What is written -/

theorem mem_hexInteger {dot : Int} (hdot : ∃ n : Nat, n < 16 ∧ dot = n) {c : CodePoint}
    (hc : c ∈ Text.hexInteger dot) : c ∈ dotDigits := by
  obtain ⟨n, hn, rfl⟩ := hdot
  rw [hexInteger_of_lt hn] at hc
  rw [List.mem_singleton.mp hc]
  exact CodePoint.hexDigit_mem n

theorem writeDots_cons {cell : List Int} {cells : List (List Int)} (hne : cells ≠ []) :
    writeDots (cell :: cells) =
      cell.flatMap Text.hexInteger ++ (('-' : CodePoint) :: writeDots cells) := by
  cases cells with
  | nil => exact absurd rfl hne
  | cons next more =>
    show cell.flatMap Text.hexInteger ++ Text.ofString "-" ++ _ = _
    rw [List.append_assoc]
    rfl

section

variable {alphabet : Text} (halphabet : ∀ c ∈ alphabet, TokenKind.isDotDigit c = true)

include halphabet

/-- The digits of a cell are read one after the other. -/
theorem readCells_flatMap (t : Token) (cellStart : Nat) (rest : Text) {dots cell : List Int} {i : Nat}
    (hnodup : (cell ++ dots).Nodup)
    (hdigit : ∀ dot ∈ dots, ∃ c ∈ alphabet, ∃ n : Nat, c.hexValue? = some n ∧ dot = n) :
    readCells alphabet t i cellStart cell (dots.flatMap Text.hexInteger ++ rest) =
      readCells alphabet t (i + dots.length) cellStart (cell ++ dots) rest := by
  induction dots generalizing cell i with
  | nil => simp
  | cons dot dots ih =>
    obtain ⟨c, hmem, n, hvalue, rfl⟩ := hdigit dot List.mem_cons_self
    have hfresh : (n : Int) ∉ cell := by
      intro hcell
      rw [List.nodup_append] at hnodup
      exact hnodup.2.2 n hcell n List.mem_cons_self rfl
    rw [List.flatMap_cons, hexInteger_eq_of_isDotDigit (halphabet c hmem) hvalue]
    show readCells alphabet t i cellStart cell (c :: (dots.flatMap Text.hexInteger ++ rest)) = _
    rw [readCells, if_neg (ne_dash_of_isDotDigit (halphabet c hmem)), if_neg (fun hnot => hnot hmem)]
    simp only [hvalue, Option.getD_some]
    rw [if_neg hfresh, ih (by simpa using hnodup) fun d hd => hdigit d (List.mem_cons_of_mem _ hd)]
    simp only [List.append_assoc, List.singleton_append, List.length_cons]
    rw [Nat.add_assoc, Nat.add_comm 1]

theorem readCells_writeDots {t : Token} {cells : List (List Int)} (h : IsPatternOf alphabet cells) (i cellStart : Nat) :
    readCells alphabet t i cellStart [] (writeDots cells) = .ok cells := by
  obtain ⟨hne, hcell⟩ := h
  induction cells generalizing i cellStart with
  | nil => exact absurd rfl hne
  | cons cell cells ih =>
    have hfirst := hcell cell List.mem_cons_self
    by_cases hcells : cells = []
    · subst hcells
      have hwritten : writeDots [cell] = cell.flatMap Text.hexInteger ++ [] := (List.append_nil _).symm
      rw [hwritten, readCells_flatMap halphabet t cellStart [] (by simpa using hfirst.nodup) hfirst.digit]
      rw [List.nil_append, readCells, if_neg hfirst.ne_nil]
    · rw [writeDots_cons hcells,
        readCells_flatMap halphabet t cellStart _ (by simpa using hfirst.nodup) hfirst.digit]
      rw [List.nil_append, readCells, if_pos rfl, if_neg hfirst.ne_nil,
        ih _ _ hcells fun c hc => hcell c (List.mem_cons_of_mem _ hc)]
      rfl

/-- The cells that were read are written as what was read, where `cell` holds the dots of the first cell so far. -/
theorem writeDots_of_readCells {t : Token} {s : Text} {i cellStart : Nat} {cell : List Int} {cells : List (List Int)}
    (h : readCells alphabet t i cellStart cell s = .ok cells) :
    cell.flatMap Text.hexInteger ++ s = writeDots cells := by
  induction s generalizing i cellStart cell cells with
  | nil =>
    obtain ⟨-, rfl⟩ := readCells_nil_eq_ok h
    exact List.append_nil _
  | cons c rest ih =>
    rcases readCells_cons_eq_ok halphabet h with ⟨rfl, -, more, hmore, rfl⟩ | ⟨hmem, n, hvalue, -, hrest⟩
    · have hne : more ≠ [] :=
        (isPatternOf_of_readCells halphabet List.nodup_nil (fun dot hdot => absurd hdot List.not_mem_nil) hmore).ne_nil
      have hwritten : rest = writeDots more := ih hmore
      rw [writeDots_cons hne, hwritten]
    · rw [← ih hrest, List.flatMap_append, List.append_assoc, List.flatMap_cons,
        hexInteger_eq_of_isDotDigit (halphabet c hmem) hvalue]
      rfl

/-- A pattern is written with the digits it was read from. -/
theorem writeDots_of_readDots {t : Token} {v : Value Span} (h : readDots alphabet t = .ok v) :
    ∃ cells, v = .dots cells t.span ∧ IsPatternOf alphabet cells ∧ t.text = writeDots cells := by
  obtain ⟨cells, rfl, hpattern⟩ := isPatternOf_of_readDots halphabet h
  obtain ⟨_, -, h⟩ := bind_eq_ok h
  obtain ⟨cells', hcells, h⟩ := bind_eq_ok h
  cases h
  exact ⟨cells, rfl, hpattern, writeDots_of_readCells halphabet hcells⟩

end

theorem mem_writeDots {cells : List (List Int)} (h : ∀ cell ∈ cells, IsCell cell) {c : CodePoint}
    (hc : c ∈ writeDots cells) : c ∈ dotDigits ∨ c = '-' := by
  induction cells with
  | nil => exact absurd hc List.not_mem_nil
  | cons cell cells ih =>
    have hfirst : ∀ c ∈ cell.flatMap Text.hexInteger, c ∈ dotDigits := by
      intro b hb
      obtain ⟨dot, hdot, hb⟩ := List.mem_flatMap.mp hb
      exact mem_hexInteger ((h cell List.mem_cons_self).digit dot hdot) hb
    by_cases hcells : cells = []
    · subst hcells
      exact .inl (hfirst c hc)
    · rw [writeDots_cons hcells] at hc
      rcases List.mem_append.mp hc with hc | hc
      · exact .inl (hfirst c hc)
      · rcases List.mem_cons.mp hc with rfl | hc
        · exact .inr rfl
        · exact ih (fun c hc => h c (List.mem_cons_of_mem _ hc)) hc

/-- A written pattern starts with a digit. -/
theorem head?_writeDots {cells : List (List Int)} (h : IsPattern cells) :
    ∃ c rest, writeDots cells = c :: rest ∧ c ∈ dotDigits := by
  cases cells with
  | nil => exact absurd rfl h.ne_nil
  | cons cell cells =>
    have hcell := h.cell cell List.mem_cons_self
    cases cell with
    | nil => exact absurd rfl hcell.ne_nil
    | cons dot dots =>
      obtain ⟨n, hn, rfl⟩ := hcell.digit dot List.mem_cons_self
      have hdigit : (↑n :: dots : List Int).flatMap Text.hexInteger =
          CodePoint.hexDigit n :: dots.flatMap Text.hexInteger := by
        rw [List.flatMap_cons, hexInteger_of_lt hn]
        rfl
      by_cases hcells : cells = []
      · subst hcells
        exact ⟨_, _, hdigit, CodePoint.hexDigit_mem n⟩
      · rw [writeDots_cons hcells, hdigit]
        exact ⟨_, _, rfl, CodePoint.hexDigit_mem n⟩

end Value
end BrailleTable
