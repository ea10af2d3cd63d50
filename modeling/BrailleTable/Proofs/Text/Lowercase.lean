/-
Texts that lower case leaves alone.

Below the first accented capital only the letters from A to Z have a lower case of their own.  Reserved
words, modifiers and opcodes are written with other code points, so lower case keeps them as they are.
What lower case has made of a text it leaves alone as well: no run of capital letters is shifted onto a
member of another one.
-/
import BrailleTable.Text.Blank
import BrailleTable.Text.Lowercase

namespace BrailleTable

namespace CodePoint

/-- A code point below U+00C0 that is not a capital letter. -/
def isUncased (c : CodePoint) : Bool := (c.val < 0x41 || 0x5a < c.val) && c.val < 0xc0

theorem caseShifts_first : ∀ s ∈ caseShifts, (s.first = 0x41 ∧ s.last = 0x5a) ∨ 0xc0 ≤ s.first := by
  decide +kernel

theorem lowerOne_of_isUncased {c : CodePoint} (h : c.isUncased = true) : c.lowerOne = [c] := by
  simp only [isUncased, Bool.and_eq_true, Bool.or_eq_true, decide_eq_true_eq] at h
  have hnone : caseShifts.find? (·.covers c.val) = none := by
    rw [List.find?_eq_none]
    intro s hs hcovers
    simp only [CaseShift.covers, Bool.and_eq_true, decide_eq_true_eq] at hcovers
    rcases caseShifts_first s hs with ⟨hfirst, hlast⟩ | hfirst <;> omega
  have hdotted : c.val ≠ 0x130 := by omega
  unfold lowerOne
  rw [if_neg hdotted, hnone]

theorem ne_capitalSigma_of_isUncased {c : CodePoint} (h : c.isUncased = true) :
    c ≠ capitalSigma := by
  rintro rfl
  revert h
  decide

end CodePoint

namespace Text

theorem lowerAfter_cons_of_isUncased {before rest : Text} {c : CodePoint} (h : c.isUncased = true) :
    lowerAfter before (c :: rest) = c :: lowerAfter (c :: before) rest := by
  rw [lowerAfter, if_neg (CodePoint.ne_capitalSigma_of_isUncased h),
    CodePoint.lowerOne_of_isUncased h]
  rfl

theorem lower_cons_of_isUncased (rest : Text) {c : CodePoint} (h : c.isUncased = true) :
    ∃ more, lower (c :: rest) = c :: more :=
  ⟨_, lowerAfter_cons_of_isUncased h⟩

/-- Lower case keeps a text without capital letters. -/
theorem lowerAfter_eq_self {before t : Text} (h : t.all CodePoint.isUncased = true) :
    lowerAfter before t = t := by
  induction t generalizing before with
  | nil => rfl
  | cons c rest ih =>
    rw [List.all_cons, Bool.and_eq_true] at h
    rw [lowerAfter_cons_of_isUncased h.1, ih h.2]

theorem lower_eq_self {t : Text} (h : t.all CodePoint.isUncased = true) : t.lower = t :=
  lowerAfter_eq_self h

/-- A code point that lower case leaves alone is in the lower case of every text that has it. -/
theorem mem_lower {t : Text} {c : CodePoint} (hc : c.isUncased = true) (h : c ∈ t) : c ∈ t.lower := by
  have hafter : ∀ before, c ∈ lowerAfter before t := by
    induction t with
    | nil => cases h
    | cons b rest ih =>
      intro before
      unfold lowerAfter
      rw [List.mem_append]
      rcases List.mem_cons.mp h with rfl | hrest
      · left
        rw [if_neg (CodePoint.ne_capitalSigma_of_isUncased hc), CodePoint.lowerOne_of_isUncased hc]
        exact List.mem_singleton_self c
      · right
        exact ih hrest (b :: before)
  exact hafter []

end Text

/-! ## Lower case of lower case -/

theorem RangeTable.exists_of_contains {table : RangeTable} {n : Nat} (h : table.contains n = true) :
    ∃ range ∈ table, range.1 ≤ n ∧ n ≤ range.2 := by
  induction table with
  | nil => cases h
  | cons range rest ih =>
    obtain ⟨lo, hi⟩ := range
    unfold contains at h
    split at h
    · cases h
    · rename_i hlo
      rw [Bool.or_eq_true, decide_eq_true_iff] at h
      rcases h with hhi | hrest
      · exact ⟨(lo, hi), List.mem_cons_self, Nat.le_of_not_lt hlo, hhi⟩
      · obtain ⟨found, hmem, hbounds⟩ := ih hrest
        exact ⟨found, List.mem_cons_of_mem _ hmem, hbounds⟩

namespace CaseShift

/-- Where a member of a run is shifted to. -/
def target (s : CaseShift) (n : Nat) : Nat := (n + s.shift).toNat

/-- Whether a run is shifted past all members of another: their stretches are apart, or every other number of the same
stretch belongs to the one and the rest to the other. -/
def misses (s t : CaseShift) : Bool :=
  Nat.blt (s.target s.last) t.first || Nat.blt t.last (s.target s.first) ||
    ((s.stride == 2 || s.first == s.last) && t.stride == 2 && (s.target s.first + t.first) % 2 == 1)

/-- Whether a run is shifted to numbers from `a` on that are not white space. -/
def isVisible (s : CaseShift) : Bool :=
  (0x61 : Int) ≤ s.first + s.shift && CodePoint.blanks.all fun range =>
    s.target s.last < range.1 || range.2 < s.target s.first

variable {s t : CaseShift} {n : Nat}

theorem target_bounds (hpos : (0x61 : Int) ≤ s.first + s.shift) (hn : s.covers n = true) :
    s.target s.first ≤ s.target n ∧ s.target n ≤ s.target s.last ∧ 0x61 ≤ s.target n := by
  simp only [covers, Bool.and_eq_true, decide_eq_true_eq] at hn
  unfold target
  omega

theorem covers_target_of_misses (hpos : (0x61 : Int) ≤ s.first + s.shift) (h : s.misses t = true)
    (hn : s.covers n = true) : t.covers (s.target n) = false := by
  obtain ⟨hfirst, hlast, -⟩ := target_bounds hpos hn
  cases hcovers : t.covers (s.target n) with
  | false => rfl
  | true =>
    simp only [covers, Bool.and_eq_true, decide_eq_true_eq, beq_iff_eq] at hn hcovers
    simp only [misses, Bool.or_eq_true, Bool.and_eq_true, beq_iff_eq, Nat.blt_eq] at h
    rcases h with (h | h) | ⟨⟨hthin, hstride⟩, hodd⟩
    · omega
    · omega
    · -- The member and the first one are shifted to numbers of the same parity.
      rw [hstride] at hcovers
      have hsame : (n - s.first) % 2 = 0 := by
        rcases hthin with h2 | heq
        · rw [h2] at hn
          exact hn.2
        · omega
      unfold target at hodd hcovers
      omega

end CaseShift

namespace CodePoint

/-- All that is checked of where the runs are shifted to, in one pass over the table. -/
theorem caseShifts_target : ∀ s ∈ caseShifts, s.isVisible = true ∧ caseShifts.all s.misses = true ∧
    (s.target s.last < 0x130 ∨ 0x130 < s.target s.first) := by
  decide +kernel

/-- A code point that lower case leaves alone wherever it stands. -/
def IsSettled (c : CodePoint) : Prop := c.lowerOne = [c] ∧ c ≠ capitalSigma

instance (c : CodePoint) : Decidable c.IsSettled :=
  inferInstanceAs (Decidable (c.lowerOne = [c] ∧ c ≠ capitalSigma))

/-- A code point that a letter may become: neither white space nor one of the signs before `a`. -/
def IsVisible (c : CodePoint) : Prop := 0x61 ≤ c.val ∧ c.isBlank = false

instance (c : CodePoint) : Decidable c.IsVisible :=
  inferInstanceAs (Decidable (0x61 ≤ c.val ∧ c.isBlank = false))

theorem isSettled_of_covers {c : CodePoint} (hdotted : c.val ≠ 0x130)
    (h : ∀ s ∈ caseShifts, s.covers c.val = false) : c.IsSettled := by
  have hnone : caseShifts.find? (·.covers c.val) = none := by
    rw [List.find?_eq_none]
    intro s hs
    rw [h s hs]
    decide
  refine ⟨?_, ?_⟩
  · unfold lowerOne
    rw [if_neg hdotted, hnone]
  · rintro rfl
    revert hnone
    decide +kernel

/-- A letter becomes itself, or visible code points that lower case leaves alone. -/
theorem lowerOne_cases (c : CodePoint) :
    c.lowerOne = [c] ∨ ∀ d ∈ c.lowerOne, d.IsSettled ∧ d.IsVisible := by
  unfold lowerOne
  split
  · exact .inr (by decide +kernel)
  · split
    · rename_i s hfind
      split
      · rename_i d htarget
        right
        intro b hb
        rw [List.mem_singleton.mp hb]
        have hcovers : s.covers c.val = true := by simpa using List.find?_some hfind
        obtain ⟨hvisible, hmisses, hdotted⟩ := caseShifts_target s (List.mem_of_find?_eq_some hfind)
        unfold CaseShift.isVisible at hvisible
        rw [Bool.and_eq_true, decide_eq_true_iff, List.all_eq_true] at hvisible
        obtain ⟨hfirst, hlast, hlow⟩ := CaseShift.target_bounds hvisible.1 hcovers
        have hd : d.val = s.target c.val := by
          unfold ofNat? at htarget
          split at htarget
          · cases htarget
            rfl
          · cases htarget
        refine ⟨isSettled_of_covers (by omega) fun t ht => ?_, by omega, ?_⟩
        · rw [hd]
          exact CaseShift.covers_target_of_misses hvisible.1 (List.all_eq_true.mp hmisses t ht) hcovers
        · cases hblank : d.isBlank with
          | false => rfl
          | true =>
            obtain ⟨range, hrange, hbounds⟩ := RangeTable.exists_of_contains hblank
            have hapart := hvisible.2 range hrange
            rw [Bool.or_eq_true, decide_eq_true_iff, decide_eq_true_iff] at hapart
            omega
      · exact .inl rfl
    · exact .inl rfl

end CodePoint

namespace Text

open CodePoint

theorem lowerAfter_of_isSettled {before t : Text} (h : ∀ c ∈ t, c.IsSettled) : lowerAfter before t = t := by
  induction t generalizing before with
  | nil => rfl
  | cons c rest ih =>
    obtain ⟨hone, hsigma⟩ := h c List.mem_cons_self
    rw [lowerAfter, if_neg hsigma, hone, ih fun b hb => h b (List.mem_cons_of_mem c hb)]
    rfl

/-- The lower case of a text begins with what its first code point becomes: that code point itself, which lower case
then leaves alone, or visible code points. -/
theorem lowerAfter_cons (before : Text) (c : CodePoint) (rest : Text) :
    ∃ first, lowerAfter before (c :: rest) = first ++ lowerAfter (c :: before) rest ∧ first ≠ [] ∧
      ∀ d ∈ first, d.IsSettled ∧ (d = c ∨ d.IsVisible) := by
  by_cases hsigma : c = capitalSigma
  · subst hsigma
    rw [lowerAfter, if_pos rfl]
    split
    · exact ⟨[⟨0x3c2, by decide⟩], rfl, List.cons_ne_nil _ _, by decide +kernel⟩
    · exact ⟨[⟨0x3c3, by decide⟩], rfl, List.cons_ne_nil _ _, by decide +kernel⟩
  · refine ⟨c.lowerOne, by rw [lowerAfter, if_neg hsigma], ?_, ?_⟩
    · unfold lowerOne
      split
      · exact List.cons_ne_nil _ _
      · split
        · split <;> exact List.cons_ne_nil _ _
        · exact List.cons_ne_nil _ _
    · intro d hd
      rcases lowerOne_cases c with hself | hother
      · rw [hself, List.mem_singleton] at hd
        rw [hd]
        exact ⟨⟨hself, hsigma⟩, .inl rfl⟩
      · exact ⟨(hother d hd).1, .inr (hother d hd).2⟩

theorem mem_lowerAfter {before t : Text} {d : CodePoint} (h : d ∈ lowerAfter before t) :
    d.IsSettled ∧ (d ∈ t ∨ d.IsVisible) := by
  induction t generalizing before with
  | nil => cases h
  | cons c rest ih =>
    obtain ⟨first, heq, -, hfirst⟩ := lowerAfter_cons before c rest
    rw [heq, List.mem_append] at h
    rcases h with h | h
    · obtain ⟨hsettled, hd⟩ := hfirst d h
      refine ⟨hsettled, hd.imp_left fun hdc => ?_⟩
      rw [hdc]
      exact List.mem_cons_self
    · obtain ⟨hsettled, hd⟩ := ih h
      exact ⟨hsettled, hd.imp_left (List.mem_cons_of_mem c)⟩

/-- Lower case leaves alone what it has made of a text. -/
theorem lower_lower (t : Text) : t.lower.lower = t.lower :=
  lowerAfter_of_isSettled fun _ hc => (mem_lowerAfter hc).1

/-- Only `n` and its capital become an `n`. -/
theorem eq_of_head?_lower {c : CodePoint} {rest : Text} (h : (lower (c :: rest)).head? = some ('n' : CodePoint)) :
    c = 'n' ∨ c = 'N' := by
  have hshifts : ∀ s ∈ caseShifts,
      s.first = 0x41 ∧ s.shift = 32 ∨ s.target s.last < 0x6e ∨ 0x6e < s.target s.first := by
    decide +kernel
  unfold lower lowerAfter at h
  split at h
  · split at h <;> cases h
  · unfold lowerOne at h
    split at h
    · cases h
    · split at h
      · rename_i s hfind
        split at h
        · rename_i d htarget
          cases h
          have hcovers : s.covers c.val = true := by simpa using List.find?_some hfind
          have hmem := List.mem_of_find?_eq_some hfind
          have hvisible := (caseShifts_target s hmem).1
          unfold CaseShift.isVisible at hvisible
          rw [Bool.and_eq_true, decide_eq_true_iff] at hvisible
          obtain ⟨hfirst, hlast, -⟩ := CaseShift.target_bounds hvisible.1 hcovers
          have hval : s.target c.val = 0x6e := by
            unfold ofNat? at htarget
            split at htarget
            · exact congrArg CodePoint.val (Option.some.inj htarget)
            · cases htarget
          rcases hshifts s hmem with ⟨-, hshift⟩ | hlow | hhigh
          · right
            apply CodePoint.ext_val
            unfold CaseShift.target at hval
            show c.val = 0x4e
            omega
          · omega
          · omega
        · exact .inl (Option.some.inj h)
      · exact .inl (Option.some.inj h)

end Text
end BrailleTable
