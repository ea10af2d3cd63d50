/-
Names and references to classes: which tokens are read as one.
-/
import BrailleTable.Proofs.Result
import BrailleTable.Proofs.Text.Classes
import BrailleTable.Proofs.Token.Kind
import BrailleTable.Value.Reader
import Mathlib.Data.List.TakeWhile

namespace BrailleTable
namespace Value

/-- A letter, then letters, numerals and underscores. -/
def IsName (w : Text) : Prop :=
  ∃ c rest, w = c :: rest ∧ c.isLetter = true ∧ ∀ b ∈ rest, isNameChar b = true

theorem IsName.isNameChar_of_mem {w : Text} (h : IsName w) : ∀ c ∈ w, isNameChar c = true := by
  obtain ⟨c, rest, rfl, hc, hrest⟩ := h
  intro b hb
  rcases List.mem_cons.mp hb with rfl | hb
  · unfold isNameChar
    rw [hc]
    rfl
  · exact hrest b hb

theorem IsName.isBlank_of_mem {w : Text} (h : IsName w) : ∀ c ∈ w, c.isBlank = false := by
  intro c hc
  have hname := h.isNameChar_of_mem c hc
  unfold isNameChar at hname
  rw [Bool.or_eq_true, Bool.or_eq_true, decide_eq_true_iff] at hname
  rcases hname with (hletter | hnumeral) | rfl
  · exact CodePoint.isBlank_of_isLetter hletter
  · exact CodePoint.isBlank_of_isNumeral hnumeral
  · decide

/-- A name is always a word, even if all its letters are digits of dots. -/
theorem IsName.ofText_eq_word {w : Text} (h : IsName w) : TokenKind.ofText w = .word := by
  have hdash : ('-' : CodePoint) ∉ w := fun hmem => absurd (h.isNameChar_of_mem _ hmem) (by decide)
  obtain ⟨c, rest, rfl, hc, -⟩ := h
  have hdigit := CodePoint.isDigit_of_isLetter hc
  have hmark : (c.isPunctuation || c.isSymbol) = false := by
    rw [CodePoint.isPunctuation_of_isLetter hc, CodePoint.isSymbol_of_isLetter hc]
    rfl
  have hnumber := TokenKind.ofText_ne_number List.mem_cons_self hdigit (w := c :: rest)
  have hdots := TokenKind.ofText_ne_dots_of_head hdash hdigit
  have hpunctuation := TokenKind.ofText_ne_punctuation List.mem_cons_self hmark (w := c :: rest)
  have hquoted := TokenKind.ofText_ne_quoted (c :: rest)
  cases hkind : TokenKind.ofText (c :: rest) with
  | word => rfl
  | number => exact absurd hkind hnumber
  | dots => exact absurd hkind hdots
  | punctuation => exact absurd hkind hpunctuation
  | quoted => exact absurd hkind hquoted

theorem IsName.ofText_underscore_eq_word {w : Text} (h : IsName w) :
    TokenKind.ofText (('_' : CodePoint) :: w) = .word := by
  obtain ⟨c, rest, rfl, hc, -⟩ := h
  refine TokenKind.ofText_eq_word List.mem_cons_self (by decide) (by decide)
    (List.mem_cons_of_mem _ List.mem_cons_self) ?_
  rw [CodePoint.isPunctuation_of_isLetter hc, CodePoint.isSymbol_of_isLetter hc]
  rfl

theorem checkName_eq_ok_iff {t : Token} {i : Nat} {name nameChar : Text} (hi : i ≤ t.text.length) :
    checkName t i name nameChar = .ok () ↔ IsName (t.text.drop i) := by
  have hlength : (t.text.drop i).length = t.text.length - i := List.length_drop
  unfold checkName
  cases hdrop : t.text.drop i with
  | nil =>
    constructor
    · intro h
      cases h
    · rintro ⟨c, rest, hnil, -, -⟩
      cases hnil
  | cons c rest =>
    rw [hdrop, List.length_cons] at hlength
    dsimp only
    by_cases hc : c.isLetter = true
    · rw [if_neg (by rw [hc]; decide)]
      by_cases hall : ∀ b ∈ rest, isNameChar b = true
      · have htake : rest.takeWhile isNameChar = rest := List.takeWhile_eq_self_iff.mpr hall
        rw [htake, if_pos (by omega)]
        exact iff_of_true rfl ⟨c, rest, rfl, hc, hall⟩
      · have hstop : i + 1 + (rest.takeWhile isNameChar).length ≠ t.text.length := by
          intro heq
          have htake : rest.takeWhile isNameChar = rest :=
            (List.takeWhile_prefix _).eq_of_length (by omega)
          exact hall (List.takeWhile_eq_self_iff.mp htake)
        rw [if_neg hstop]
        refine iff_of_false (fun h => by cases h) ?_
        rintro ⟨b, more, heq, -, hmore⟩
        cases heq
        exact hall hmore
    · rw [if_pos (by simpa using hc)]
      refine iff_of_false (fun h => by cases h) ?_
      rintro ⟨b, more, heq, hb, -⟩
      cases heq
      exact hc hb

theorem requireKind_eq_ok_iff {t : Token} {kinds report : List TokenKind} {what : Text} :
    requireKind t kinds report what = .ok () ↔ t.kind ∈ kinds := by
  unfold requireKind
  by_cases h : t.kind ∈ kinds
  · rw [if_pos h]
    exact iff_of_true rfl h
  · rw [if_neg h]
    exact iff_of_false (fun h => by cases h) h

theorem nameOf_eq_ok_iff {t : Token} {name : Text} :
    nameOf t = .ok name ↔ t.kind = .word ∧ t.text = name ∧ IsName name := by
  unfold nameOf
  constructor
  · intro h
    obtain ⟨_, hkind, h⟩ := bind_eq_ok h
    obtain ⟨_, hname, h⟩ := bind_eq_ok h
    cases h
    exact ⟨List.mem_singleton.mp (requireKind_eq_ok_iff.mp hkind), rfl,
      (checkName_eq_ok_iff (Nat.zero_le _)).mp hname⟩
  · rintro ⟨hkind, rfl, hname⟩
    rw [requireKind_eq_ok_iff.mpr (List.mem_singleton.mpr hkind),
      (checkName_eq_ok_iff (Nat.zero_le _)).mpr hname]
    rfl

theorem classNameOf_eq_ok_iff {t : Token} {name : Text} :
    classNameOf t = .ok name ↔ t.kind = .word ∧ t.text = ('_' : CodePoint) :: name ∧ IsName name := by
  unfold classNameOf
  constructor
  · intro h
    obtain ⟨_, hkind, h⟩ := bind_eq_ok h
    refine ⟨List.mem_singleton.mp (requireKind_eq_ok_iff.mp hkind), ?_⟩
    cases htext : t.text with
    | nil =>
      rw [htext] at h
      cases h
    | cons c rest =>
      rw [htext, List.head?_cons] at h
      by_cases hc : c = '_'
      · rw [if_neg (by rw [hc]; exact fun hne => hne rfl)] at h
        obtain ⟨_, hname, h⟩ := bind_eq_ok h
        cases h
        have hdrop := (checkName_eq_ok_iff (by rw [htext]; exact Nat.le_add_left 1 _)).mp hname
        rw [htext] at hdrop
        exact ⟨by rw [hc]; rfl, hdrop⟩
      · rw [if_pos (fun heq => hc (Option.some.inj heq))] at h
        cases h
  · rintro ⟨hkind, htext, hname⟩
    have hcheck : checkName t 1 "class name" "class name character" = .ok () := by
      rw [checkName_eq_ok_iff (by rw [htext]; exact Nat.le_add_left 1 _), htext]
      exact hname
    rw [requireKind_eq_ok_iff.mpr (List.mem_singleton.mpr hkind)]
    simp only [Bind.bind, Except.bind, htext, List.head?_cons, ne_eq, not_true_eq_false, if_false,
      hcheck]
    rfl

end Value
end BrailleTable
