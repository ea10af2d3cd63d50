/-
What one code point of a spelling says about the kind of the token.
-/
import BrailleTable.Token.Kind

namespace BrailleTable
namespace TokenKind

/-- What a token of a kind, without quotes, has for its spelling. -/
def Suits : TokenKind → Text → Prop
  | .number, w => w ≠ [] ∧ ∀ c ∈ w, c.isDigit = true
  | .dots, w => looksLikeDots w = true
  | .punctuation, w => w ≠ [] ∧ ∀ c ∈ w, (c.isPunctuation || c.isSymbol) = true
  | .word, _ => True
  | .quoted, _ => False

theorem suits_of_ofText_eq {kind : TokenKind} {w : Text} (h : ofText w = kind) : kind.Suits w := by
  subst h
  unfold ofText
  split
  · rename_i hdigits
    exact ⟨hdigits.1, List.all_eq_true.mp hdigits.2⟩
  · split
    · rename_i hdots
      exact hdots
    · split
      · rename_i hmarks
        exact ⟨hmarks.1, List.all_eq_true.mp hmarks.2⟩
      · trivial

theorem ofText_ne_quoted (w : Text) : ofText w ≠ .quoted := fun h => suits_of_ofText_eq h

theorem ofText_ne_punctuation {c : CodePoint} {w : Text} (hc : c ∈ w)
    (h : (c.isPunctuation || c.isSymbol) = false) : ofText w ≠ .punctuation := fun hkind =>
  Bool.eq_false_iff.mp h ((suits_of_ofText_eq hkind).2 c hc)

theorem ofText_ne_number {c : CodePoint} {w : Text} (hc : c ∈ w) (h : c.isDigit = false) :
    ofText w ≠ .number := fun hkind =>
  Bool.eq_false_iff.mp h ((suits_of_ofText_eq hkind).2 c hc)

/-- Only digits make a number. -/
theorem isDigit_of_ofText_eq_number {w : Text} (h : ofText w = .number) :
    w ≠ [] ∧ ∀ c ∈ w, c.isDigit = true :=
  suits_of_ofText_eq h

theorem mem_of_mem_splitAt {mark c : CodePoint} {w : Text} (hc : c ∈ w) (hne : c ≠ mark) :
    ∃ part ∈ Text.splitAt mark w, c ∈ part := by
  induction w with
  | nil => cases hc
  | cons b rest ih =>
    unfold Text.splitAt
    by_cases hb : b = mark
    · rw [if_pos hb]
      rcases List.mem_cons.mp hc with heq | hc
      · exact absurd (heq.trans hb) hne
      · obtain ⟨part, hpart, hmem⟩ := ih hc
        exact ⟨part, List.mem_cons_of_mem _ hpart, hmem⟩
    · rw [if_neg hb]
      cases hsplit : Text.splitAt mark rest with
      | nil =>
        rcases List.mem_cons.mp hc with heq | hc
        · exact ⟨[b], List.mem_singleton_self _, by rw [heq]; exact List.mem_singleton_self b⟩
        · obtain ⟨part, hpart, -⟩ := ih hc
          rw [hsplit] at hpart
          cases hpart
      | cons part parts =>
        rcases List.mem_cons.mp hc with heq | hc
        · exact ⟨b :: part, List.mem_cons_self, by rw [heq]; exact List.mem_cons_self⟩
        · obtain ⟨other, hother, hmem⟩ := ih hc
          rw [hsplit] at hother
          rcases List.mem_cons.mp hother with heq | hother
          · exact ⟨b :: part, List.mem_cons_self, List.mem_cons_of_mem b (heq ▸ hmem)⟩
          · exact ⟨other, List.mem_cons_of_mem _ hother, hmem⟩

theorem ofText_ne_dots {c : CodePoint} {w : Text} (hc : c ∈ w) (hdash : c ≠ '-')
    (h : isDotDigit c = false) : ofText w ≠ .dots := by
  intro hkind
  have hdots : looksLikeDots w = true := suits_of_ofText_eq hkind
  obtain ⟨part, hpart, hmem⟩ := mem_of_mem_splitAt hc hdash
  unfold looksLikeDots at hdots
  rw [Bool.and_eq_true, List.all_eq_true] at hdots
  have hcell := hdots.1 part hpart
  rw [Bool.and_eq_true, List.all_eq_true] at hcell
  exact Bool.eq_false_iff.mp h (hcell.2 c hmem)

theorem splitAt_eq_singleton {mark : CodePoint} {w : Text} (h : mark ∉ w) : Text.splitAt mark w = [w] := by
  induction w with
  | nil => rfl
  | cons c rest ih =>
    rw [List.mem_cons, not_or] at h
    unfold Text.splitAt
    rw [if_neg (Ne.symm h.1), ih h.2]

/-- Without a dash, only a decimal digit in front makes dots. -/
theorem ofText_ne_dots_of_head {c : CodePoint} {rest : Text} (hdash : ('-' : CodePoint) ∉ c :: rest)
    (h : c.isDigit = false) : ofText (c :: rest) ≠ .dots := by
  intro hkind
  have hdots : looksLikeDots (c :: rest) = true := suits_of_ofText_eq hkind
  unfold looksLikeDots at hdots
  rw [splitAt_eq_singleton hdash, List.head?_cons, Option.any_some, h, Bool.and_eq_true] at hdots
  exact absurd hdots.2 Bool.false_ne_true

theorem ofText_eq_word {a b : CodePoint} {w : Text} (ha : a ∈ w) (hdash : a ≠ '-')
    (hdot : isDotDigit a = false) (hb : b ∈ w) (hpunct : (b.isPunctuation || b.isSymbol) = false) :
    ofText w = .word := by
  have hdigit : a.isDigit = false := by
    unfold isDotDigit at hdot
    exact (Bool.or_eq_false_iff.mp hdot).1
  have hnumber := ofText_ne_number ha hdigit
  have hdots := ofText_ne_dots ha hdash hdot
  have hpunctuation := ofText_ne_punctuation hb hpunct
  have hquoted := ofText_ne_quoted w
  cases hkind : ofText w with
  | word => rfl
  | number => exact absurd hkind hnumber
  | dots => exact absurd hkind hdots
  | punctuation => exact absurd hkind hpunctuation
  | quoted => exact absurd hkind hquoted

end TokenKind
end BrailleTable
