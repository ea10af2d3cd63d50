/-
Decimal numerals are read back.
-/
import BrailleTable.Text.Decimal
import Mathlib.Algebra.Group.Nat.Defs
import Mathlib.Data.List.Induction
import Mathlib.Data.List.TakeWhile

namespace BrailleTable

namespace CodePoint

/-- The digit of a script that is looked for first is the ASCII one. -/
theorem decimalValue?_of_isDigit {c : CodePoint} (h : c.isDigit = true) :
    c.decimalValue? = some (c.val - 48) := by
  unfold isDigit at h
  rw [Bool.and_eq_true, decide_eq_true_iff, decide_eq_true_iff] at h
  have hfirst : decide (48 ≤ c.val ∧ c.val < 48 + 10) = true := decide_eq_true ⟨h.1, by omega⟩
  have hfind : decimalZeros.find? (fun z => z ≤ c.val ∧ c.val < z + 10) = some 48 := by
    unfold decimalZeros
    rw [List.find?_cons, hfirst]
  unfold decimalValue?
  rw [hfind]
  rfl

theorem isDigit_hexDigit {n : Nat} (h : n < 10) : (hexDigit n).isDigit = true := by
  have hall : ∀ k : Fin 10, (hexDigit k.val).isDigit = true := by decide
  exact hall ⟨n, h⟩

theorem val_hexDigit {n : Nat} (h : n < 10) : (hexDigit n).val - 48 = n := by
  have hall : ∀ k : Fin 10, (hexDigit k.val).val - 48 = k.val := by decide
  exact hall ⟨n, h⟩

end CodePoint

namespace Text

/-- The values of the digits of a numeral. -/
def digitValues (t : Text) : List Nat := t.map fun c => c.val - 48

theorem isDigit_of_mem_ofNat {n : Nat} : ∀ c ∈ ofNat n, c.isDigit = true := by
  induction n using Nat.strongRecOn with
  | ind n ih =>
    intro c hc
    unfold ofNat at hc
    by_cases hlt : n < 10
    · rw [if_pos hlt] at hc
      rw [List.mem_singleton.mp hc]
      exact CodePoint.isDigit_hexDigit hlt
    · rw [if_neg hlt] at hc
      rcases List.mem_append.mp hc with hc | hc
      · exact ih (n / 10) (by omega) c hc
      · rw [List.mem_singleton.mp hc]
        exact CodePoint.isDigit_hexDigit (Nat.mod_lt n (by decide))

theorem ofNat_ne_nil (n : Nat) : ofNat n ≠ [] := by
  unfold ofNat
  split
  · exact List.cons_ne_nil _ _
  · exact List.append_ne_nil_of_right_ne_nil _ (List.cons_ne_nil _ _)

theorem digitsValue_append (a : List Nat) (d : Nat) :
    digitsValue (a ++ [d]) = 10 * digitsValue a + d := by
  unfold digitsValue
  rw [List.foldl_append]
  rfl

theorem digitsValue_ofNat (n : Nat) : digitsValue (digitValues (ofNat n)) = n := by
  induction n using Nat.strongRecOn with
  | ind n ih =>
    unfold ofNat
    by_cases hlt : n < 10
    · rw [if_pos hlt]
      show 10 * 0 + ((CodePoint.hexDigit n).val - 48) = n
      rw [CodePoint.val_hexDigit hlt]
      omega
    · rw [if_neg hlt]
      unfold digitValues
      rw [List.map_append]
      show digitsValue (digitValues (ofNat (n / 10)) ++ [(CodePoint.hexDigit (n % 10)).val - 48]) = n
      rw [digitsValue_append, ih (n / 10) (by omega),
        CodePoint.val_hexDigit (Nat.mod_lt n (by decide))]
      omega

/-- A number has no more digits than it takes to write it. -/
theorem length_ofNat_le {n k : Nat} (hk : 0 < k) (h : n < 10 ^ k) : (ofNat n).length ≤ k := by
  induction k generalizing n with
  | zero => omega
  | succ k ih =>
    unfold ofNat
    by_cases hlt : n < 10
    · rw [if_pos hlt, List.length_singleton]
      omega
    · rw [if_neg hlt, List.length_append, List.length_singleton]
      by_cases hzero : k = 0
      · subst hzero
        omega
      · have hdiv : n / 10 < 10 ^ k := by
          rw [Nat.pow_succ] at h
          omega
        have hle := ih (by omega) hdiv
        omega

theorem digitsValue_lt {ds : List Nat} (h : ∀ d ∈ ds, d < 10) : digitsValue ds < 10 ^ ds.length := by
  induction ds using List.reverseRecOn with
  | nil => exact Nat.one_pos
  | append_singleton ds d ih =>
    have hd : d < 10 := h d (List.mem_append_right _ (List.mem_singleton_self d))
    have hds := ih fun d' hd' => h d' (List.mem_append_left _ hd')
    rw [digitsValue_append, List.length_append, List.length_singleton, Nat.pow_succ]
    omega

/-! ## Reading -/

variable {t : Text}

theorem wellSpaced_of_isDigit (hne : t ≠ []) (h : ∀ c ∈ t, c.isDigit = true) : wellSpaced t = true := by
  have hunder : ∀ c : CodePoint, c.isDigit = true → c ≠ ('_' : CodePoint) := by
    rintro c hc rfl
    revert hc
    decide
  induction t with
  | nil => exact absurd rfl hne
  | cons c rest ih =>
    have hc : c ≠ ('_' : CodePoint) := hunder c (h c List.mem_cons_self)
    cases rest with
    | nil => exact decide_eq_true hc
    | cons d rest =>
      have hd : d ≠ ('_' : CodePoint) := hunder d (h d (List.mem_cons_of_mem _ List.mem_cons_self))
      unfold wellSpaced
      rw [if_neg hd, Bool.and_eq_true]
      exact ⟨decide_eq_true hc, ih (List.cons_ne_nil _ _) fun b hb => h b (List.mem_cons_of_mem c hb)⟩

theorem filterMap_decimalValue? (h : ∀ c ∈ t, c.isDigit = true) :
    t.filterMap CodePoint.decimalValue? = digitValues t := by
  induction t with
  | nil => rfl
  | cons c rest ih =>
    rw [List.filterMap_cons, CodePoint.decimalValue?_of_isDigit (h c List.mem_cons_self),
      ih fun b hb => h b (List.mem_cons_of_mem c hb)]
    rfl

/-- What a run of ASCII digits is read as. -/
theorem readInteger_of_isDigit (hne : t ≠ []) (h : ∀ c ∈ t, c.isDigit = true) :
    readInteger t =
      if digitLimit < t.length then .error (.oversized t.length) else .ok (digitsValue (digitValues t)) := by
  have hpart : ∀ c ∈ t, isNumeralPart c = true := by
    intro c hc
    unfold isNumeralPart
    rw [CodePoint.decimalValue?_of_isDigit (h c hc)]
    exact Bool.or_true _
  have htake : t.takeWhile isNumeralPart = t := List.takeWhile_eq_self_iff.mpr hpart
  have hdrop : t.dropWhile isNumeralPart = [] := List.dropWhile_eq_nil_iff.mpr hpart
  have hsign : splitSign (t.dropWhile isNumeralBlank) = (false, t) := by
    cases t with
    | nil => exact absurd rfl hne
    | cons c rest =>
      have hc := h c List.mem_cons_self
      have hblank : isNumeralBlank c ≠ true := by
        unfold CodePoint.isDigit at hc
        rw [Bool.and_eq_true, decide_eq_true_iff, decide_eq_true_iff] at hc
        unfold isNumeralBlank CodePoint.isBlank CodePoint.blanks
        simp only [RangeTable.contains]
        intro hblank
        simp at hblank
        omega
      have hminus : c ≠ ('-' : CodePoint) := by
        rintro rfl
        revert hc
        decide
      have hplus : c ≠ ('+' : CodePoint) := by
        rintro rfl
        revert hc
        decide
      rw [List.dropWhile_cons_of_neg hblank, splitSign, if_neg hminus, if_neg hplus]
  unfold readInteger
  rw [hsign]
  simp only [htake, hdrop, wellSpaced_of_isDigit hne h, filterMap_decimalValue? h, List.all_nil]
  have hlength : (digitValues t).length = t.length := List.length_map _
  rw [hlength]
  simp

/-- A number that was read from digits is written with no more of them, and read again. -/
theorem readInteger_ofNat {n : Nat} {k : Nat} (hk : 0 < k) (hlimit : k ≤ digitLimit) (h : n < 10 ^ k) :
    readInteger (ofNat n) = .ok n := by
  have hle := length_ofNat_le hk h
  rw [readInteger_of_isDigit (ofNat_ne_nil n) isDigit_of_mem_ofNat, if_neg (by omega),
    digitsValue_ofNat]

end Text
end BrailleTable
