/-
Classes of code points that have nothing in common.

Two range tables are compared in one pass over both.  The tables of letters, numerals and white space are apart, and so
are letters, punctuation and symbols, which is why a name is always one word.
-/
import BrailleTable.Text.Blank
import BrailleTable.Text.Letter
import BrailleTable.Text.Numeral
import BrailleTable.Text.Punctuation
import BrailleTable.Text.Symbol
import Mathlib.Tactic.ByContra

namespace BrailleTable

namespace RangeTable

/-- Whether no range of one table meets a range of another.  The ranges of the second table that end before one of the
first begins are dropped for good, because the tables ascend. -/
def isApart : RangeTable → RangeTable → Bool
  | [], _ => true
  | (lo, hi) :: rest, other =>
    let later := other.dropWhile fun range => range.2 < lo
    (later.head?.all fun range => hi < range.1) && isApart rest later

theorem contains_dropWhile {table : RangeTable} {lo n : Nat} (hn : lo ≤ n) (h : table.contains n = true) :
    contains (table.dropWhile fun range => range.2 < lo) n = true := by
  induction table with
  | nil => cases h
  | cons range rest ih =>
    obtain ⟨lo', hi'⟩ := range
    by_cases hend : hi' < lo
    · rw [List.dropWhile_cons_of_pos (by simpa using hend)]
      refine ih ?_
      unfold contains at h
      split at h
      · cases h
      · rwa [decide_eq_false (by omega), Bool.false_or] at h
    · rw [List.dropWhile_cons_of_neg (by simpa using hend)]
      exact h

theorem contains_eq_false_of_isApart {table other : RangeTable} (h : isApart table other = true) {n : Nat}
    (hn : table.contains n = true) : other.contains n = false := by
  induction table generalizing other with
  | nil => cases hn
  | cons range rest ih =>
    obtain ⟨lo, hi⟩ := range
    unfold isApart at h
    rw [Bool.and_eq_true] at h
    obtain ⟨hhead, hrest⟩ := h
    unfold contains at hn
    split at hn
    · cases hn
    · rename_i hlo
      rw [Bool.or_eq_true, decide_eq_true_iff] at hn
      have hlater : contains (other.dropWhile fun range => range.2 < lo) n = false := by
        rcases hn with hhi | hn
        · generalize (other.dropWhile fun range => range.2 < lo) = later at hhead
          cases later with
          | nil => rfl
          | cons first more =>
            have hlt : hi < first.1 := of_decide_eq_true hhead
            unfold contains
            rw [if_pos (by omega)]
        · exact ih hrest hn
      by_contra hne
      rw [contains_dropWhile (Nat.not_lt.mp hlo) (by simpa using hne)] at hlater
      cases hlater

end RangeTable

namespace CodePoint

open RangeTable (contains_eq_false_of_isApart)

/-- What is apart from all three parts of the table of letters holds no letter. -/
theorem contains_eq_false_of_isLetter {table : RangeTable} (hlow : lettersLow.isApart table = true)
    (hmid : lettersMid.isApart table = true) (hhigh : lettersHigh.isApart table = true) {c : CodePoint}
    (h : c.isLetter = true) : table.contains c.val = false := by
  unfold isLetter at h
  split at h
  · exact contains_eq_false_of_isApart hlow h
  · split at h
    · exact contains_eq_false_of_isApart hmid h
    · exact contains_eq_false_of_isApart hhigh h

variable {c : CodePoint}

theorem isBlank_of_isLetter (h : c.isLetter = true) : c.isBlank = false :=
  contains_eq_false_of_isLetter (by decide +kernel) (by decide +kernel) (by decide +kernel) h

theorem isBlank_of_isNumeral (h : c.isNumeral = true) : c.isBlank = false := by
  have hnumeral : numerals.contains c.val = true := h
  exact contains_eq_false_of_isApart (by decide +kernel) hnumeral

theorem isPunctuation_of_isLetter (h : c.isLetter = true) : c.isPunctuation = false :=
  contains_eq_false_of_isLetter (by decide +kernel) (by decide +kernel) (by decide +kernel) h

theorem isSymbol_of_isLetter (h : c.isLetter = true) : c.isSymbol = false :=
  contains_eq_false_of_isLetter (by decide +kernel) (by decide +kernel) (by decide +kernel) h

/-- The decimal digits are numerals and no letters. -/
theorem isDigit_of_isLetter (h : c.isLetter = true) : c.isDigit = false := by
  have hdigits : RangeTable.contains [(48, 57)] c.val = false :=
    contains_eq_false_of_isLetter (by decide +kernel) (by decide +kernel) (by decide +kernel) h
  unfold RangeTable.contains RangeTable.contains at hdigits
  unfold isDigit
  by_cases hlow : c.val < 48
  · rw [decide_eq_false (by omega)]
    rfl
  · rw [if_neg hlow, Bool.or_false] at hdigits
    rw [hdigits, Bool.and_false]

end CodePoint
end BrailleTable
