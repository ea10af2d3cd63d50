/-
Cutting texts at their ends.
-/
import BrailleTable.Text.Blank
import Mathlib.Data.List.DropRight

namespace BrailleTable
namespace Text

variable {p : CodePoint → Bool}

theorem trimEnd_eq_rdropWhile (t : Text) : trimEnd p t = t.rdropWhile p := by
  induction t with
  | nil => rfl
  | cons c rest ih =>
    have hsplit : (c :: rest).rdropWhile p =
        if rest.rdropWhile p = [] then (if p c then [] else [c]) else c :: rest.rdropWhile p := by
      unfold List.rdropWhile
      rw [List.reverse_cons]
      by_cases hall : rest.reverse.dropWhile p = []
      · rw [hall, if_pos List.reverse_nil, List.dropWhile_append, hall]
        by_cases hc : p c = true
        · simp [hc]
        · simp [hc]
      · rw [if_neg (fun h => hall (List.reverse_eq_nil_iff.mp h)), List.dropWhile_append]
        simp [hall]
    rw [hsplit, trimEnd, ih]
    cases rest.rdropWhile p with
    | nil => rfl
    | cons b more => rfl

theorem trimEnd_isPrefix (t : Text) : trimEnd p t <+: t := by
  rw [trimEnd_eq_rdropWhile]
  exact List.rdropWhile_prefix p t

theorem length_trimEnd_le (t : Text) : (trimEnd p t).length ≤ t.length := (trimEnd_isPrefix t).length_le

/-- What was trimmed satisfies the condition. -/
theorem exists_trimEnd_append (t : Text) : ∃ s, t = trimEnd p t ++ s ∧ ∀ c ∈ s, p c = true := by
  rw [trimEnd_eq_rdropWhile]
  refine ⟨t.rtakeWhile p, List.rdropWhile_append_rtakeWhile.symm, fun c hc => ?_⟩
  exact List.mem_rtakeWhile_imp hc

/-- What is left does not end in a code point that is trimmed. -/
theorem getLast?_trimEnd {t : Text} {c : CodePoint} (h : (trimEnd p t).getLast? = some c) :
    p c = false := by
  rw [trimEnd_eq_rdropWhile] at h
  have hne : t.rdropWhile p ≠ [] := by
    intro hnil
    rw [hnil] at h
    cases h
  have hlast := List.rdropWhile_last_not p t hne
  rw [List.getLast?_eq_some_getLast hne] at h
  rw [Option.some.inj h] at hlast
  exact Bool.eq_false_iff.mpr hlast

/-- Nothing is trimmed from a text whose last code point stays. -/
theorem trimEnd_eq_self {t : Text} (h : ∀ c, t.getLast? = some c → p c = false) :
    trimEnd p t = t := by
  rw [trimEnd_eq_rdropWhile, List.rdropWhile_eq_self_iff]
  intro hne
  rw [h _ (List.getLast?_eq_some_getLast hne)]
  exact Bool.false_ne_true

theorem trimEnd_append_of_all {t s : Text} (h : ∀ c ∈ s, p c = true) :
    trimEnd p (t ++ s) = trimEnd p t := by
  rw [trimEnd_eq_rdropWhile, trimEnd_eq_rdropWhile]
  unfold List.rdropWhile
  rw [List.reverse_append, List.dropWhile_append_of_pos]
  intro c hc
  exact h c (List.mem_reverse.mp hc)

/-! ## Slices -/

theorem slice_eq (t : Text) (i j : Nat) : t.slice i j = (t.drop i).take (j - i) := by
  unfold slice
  rw [List.drop_take]

theorem length_slice {t : Text} {i j : Nat} (hj : j ≤ t.length) : (t.slice i j).length = j - i := by
  unfold slice
  rw [List.length_drop, List.length_take]
  omega

theorem drop_of_drop_eq {t u rest : Text} {i : Nat} (h : t.drop i = u ++ rest) : t.drop (i + u.length) = rest := by
  rw [← List.drop_drop, h, List.drop_left]

theorem slice_of_drop_eq {t u rest : Text} {i : Nat} (h : t.drop i = u ++ rest) :
    t.slice i (i + u.length) = u := by
  rw [slice_eq, h, Nat.add_sub_cancel_left, List.take_left]

theorem slice_append_drop (t : Text) {i j : Nat} (h : i ≤ j) : t.slice i j ++ t.drop j = t.drop i := by
  have hdrop : t.drop j = (t.drop i).drop (j - i) := by rw [List.drop_drop, Nat.add_sub_cancel' h]
  rw [slice_eq, hdrop, List.take_append_drop]

/-- What stands behind white space is not white space. -/
theorem isBlank_of_dropWhile {t rest : Text} {c : CodePoint} (h : t.dropWhile CodePoint.isBlank = c :: rest) :
    c.isBlank = false := by
  have hhead := List.head?_dropWhile_not CodePoint.isBlank t
  rw [h] at hhead
  simpa using hhead

theorem mem_of_mem_slice {t : Text} {i j : Nat} {c : CodePoint} (h : c ∈ t.slice i j) : c ∈ t :=
  List.mem_of_mem_take (List.mem_of_mem_drop h)

/-! ## Backslashes at the end -/

/-- The number of backslashes that a text ends in. -/
def backslashes (t : Text) : Nat := t.length - (trimEnd (fun c => c = '\\') t).length

theorem backslashes_eq (t : Text) : backslashes t = (t.rtakeWhile fun c => c = ('\\' : CodePoint)).length := by
  unfold backslashes
  rw [trimEnd_eq_rdropWhile]
  have hsplit := congrArg List.length
    (List.rdropWhile_append_rtakeWhile (p := fun c : CodePoint => decide (c = '\\')) (l := t))
  rw [List.length_append] at hsplit
  omega

theorem backslashes_append_of_all {a b : Text} (h : ∀ c ∈ b, c = ('\\' : CodePoint)) :
    backslashes (a ++ b) = backslashes a + b.length := by
  have htrim : trimEnd (fun c => c = '\\') (a ++ b) = trimEnd (fun c => c = '\\') a :=
    trimEnd_append_of_all fun c hc => decide_eq_true (h c hc)
  have hle := length_trimEnd_le (p := fun c => c = '\\') a
  unfold backslashes
  rw [htrim, List.length_append]
  omega

theorem backslashes_append_of_not_all {a b : Text} {c : CodePoint} (hc : c ∈ b)
    (hne : c ≠ ('\\' : CodePoint)) : backslashes (a ++ b) = backslashes b := by
  rw [backslashes_eq, backslashes_eq]
  unfold List.rtakeWhile
  rw [List.reverse_append, List.takeWhile_append]
  have hshort : ¬ (b.reverse.takeWhile fun c => decide (c = ('\\' : CodePoint))).length =
      b.reverse.length := by
    intro hlength
    have hall : b.reverse.takeWhile (fun c => decide (c = ('\\' : CodePoint))) = b.reverse :=
      (List.takeWhile_prefix _).eq_of_length hlength
    have hmem : c ∈ b.reverse.takeWhile fun c => decide (c = ('\\' : CodePoint)) := by
      rw [hall]
      exact List.mem_reverse.mpr hc
    have hdec := List.mem_takeWhile_imp hmem
    exact hne (of_decide_eq_true hdec)
  rw [if_neg hshort]

/-- The backslashes at the end of a text make pairs. -/
def EndsEven (t : Text) : Prop := backslashes t % 2 = 0

/-- Pairs stay pairs, whether or not the second text is all backslashes. -/
theorem EndsEven.append {a b : Text} (ha : EndsEven a) (hb : EndsEven b) : EndsEven (a ++ b) := by
  unfold EndsEven at ha hb ⊢
  by_cases hall : ∀ c ∈ b, c = ('\\' : CodePoint)
  · have hself : backslashes b = b.length := by
      have hnil := backslashes_append_of_all (a := []) hall
      rw [List.nil_append] at hnil
      rw [hnil]
      exact Nat.zero_add _
    rw [backslashes_append_of_all hall]
    omega
  · rw [not_forall] at hall
    obtain ⟨c, hc⟩ := hall
    rw [Classical.not_imp] at hc
    rw [backslashes_append_of_not_all hc.1 hc.2]
    exact hb

theorem EndsEven.nil : EndsEven [] := rfl

theorem EndsEven.flatMap {α : Type} {f : α → Text} {l : List α} (h : ∀ a ∈ l, EndsEven (f a)) :
    EndsEven (l.flatMap f) := by
  induction l with
  | nil => exact .nil
  | cons a l ih =>
    rw [List.flatMap_cons]
    exact (h a List.mem_cons_self).append (ih fun b hb => h b (List.mem_cons_of_mem a hb))

/-- A text whose last code point is another one ends in no backslashes. -/
theorem EndsEven.of_getLast? {t : Text} (h : t.getLast? ≠ some ('\\' : CodePoint)) : EndsEven t := by
  unfold EndsEven backslashes
  have hself : trimEnd (fun c => c = '\\') t = t := by
    refine trimEnd_eq_self fun c hc => decide_eq_false fun heq => h ?_
    rw [hc, heq]
  rw [hself, Nat.sub_self]

/-- A blank separates the backslashes after it from those before it. -/
theorem backslashes_append_blank (a b : Text) : backslashes (a ++ " " ++ b) = backslashes b := by
  by_cases hall : ∀ c ∈ b, c = ('\\' : CodePoint)
  · have hnone : backslashes (a ++ " ") = 0 :=
      backslashes_append_of_not_all (show (' ' : CodePoint) ∈ Text.ofString " " by decide) (by decide)
    have hself : backslashes ([] ++ b) = backslashes [] + b.length := backslashes_append_of_all hall
    have hzero : backslashes [] = 0 := rfl
    rw [List.nil_append] at hself
    rw [backslashes_append_of_all hall, hself, hnone, hzero]
  · rw [not_forall] at hall
    obtain ⟨c, hc⟩ := hall
    rw [Classical.not_imp] at hc
    exact backslashes_append_of_not_all hc.1 hc.2

theorem endsEven_append_blank {a b : Text} : EndsEven (a ++ " " ++ b) ↔ EndsEven b := by
  unfold EndsEven
  rw [backslashes_append_blank]

/-! ## White space around a text -/

/-- A text without white space around it. -/
structure IsStripped (t : Text) : Prop where
  head : ∀ c, t.head? = some c → c.isBlank = false
  last : ∀ c, t.getLast? = some c → c.isBlank = false

theorem isStripped_strip (t : Text) : IsStripped (strip t) where
  head := by
    intro c hc
    obtain ⟨s, hs, -⟩ := exists_trimEnd_append (p := CodePoint.isBlank) (stripLeft t)
    have hne : trimEnd CodePoint.isBlank (stripLeft t) ≠ [] := by
      intro hnil
      have hstrip : strip t = [] := hnil
      rw [hstrip] at hc
      cases hc
    have hhead : (t.dropWhile CodePoint.isBlank).head? = some c := by
      show (stripLeft t).head? = some c
      rw [hs, List.head?_append_of_ne_nil _ hne]
      exact hc
    have hnot := List.head?_dropWhile_not CodePoint.isBlank t
    rw [hhead] at hnot
    exact hnot
  last := fun c hc => getLast?_trimEnd hc

theorem mem_of_mem_strip {t : Text} {c : CodePoint} (h : c ∈ strip t) : c ∈ t :=
  (List.dropWhile_sublist _).mem ((trimEnd_isPrefix _).sublist.mem h)

/-- A text without white space around it is what is left when a blank before it is stripped. -/
theorem IsStripped.strip_cons {t : Text} (h : IsStripped t) : strip ((' ' : CodePoint) :: t) = t := by
  have hleft : stripLeft ((' ' : CodePoint) :: t) = t := by
    unfold stripLeft
    rw [List.dropWhile_cons_of_pos (by decide)]
    cases t with
    | nil => rfl
    | cons c rest => rw [List.dropWhile_cons_of_neg (by rw [h.head c rfl]; decide)]
  unfold strip
  rw [hleft]
  exact trimEnd_eq_self h.last

/-! ## Texts that end a line -/

/-- A text that may end a line: no line feed is in it, and at its end stands neither white space nor anything
that joins the next line to it. -/
structure Sealed (t : Text) : Prop where
  no_feed : ('\n' : CodePoint) ∉ t
  last : ∃ c, t.getLast? = some c ∧ c.isBlank = false
  even : EndsEven t

theorem Sealed.of_forall {t : Text} (hne : t ≠ []) (hblank : ∀ c ∈ t, c.isBlank = false)
    (heven : EndsEven t) : Sealed t where
  no_feed := fun hfeed => absurd (hblank _ hfeed) (by decide)
  last := by
    have hlast := List.getLast?_eq_some_getLast hne
    exact ⟨_, hlast, hblank _ (List.mem_of_getLast? hlast)⟩
  even := heven

theorem Sealed.append_blank {a b : Text} (ha : ('\n' : CodePoint) ∉ a) (hb : Sealed b) :
    Sealed (a ++ " " ++ b) where
  no_feed := by
    have hblank : ('\n' : CodePoint) ∉ Text.ofString " " := by decide
    simp only [List.mem_append, not_or]
    exact ⟨⟨ha, hblank⟩, hb.no_feed⟩
  last := by
    obtain ⟨c, hc, hblank⟩ := hb.last
    refine ⟨c, ?_, hblank⟩
    have hne : b ≠ [] := by
      intro hnil
      rw [hnil] at hc
      cases hc
    rw [List.getLast?_append_of_ne_nil _ hne]
    exact hc
  even := endsEven_append_blank.mpr hb.even

theorem join_cons {separator a : Text} {texts : List Text} (hne : texts ≠ []) :
    join separator (a :: texts) = a ++ separator ++ join separator texts := by
  cases texts with
  | nil => exact absurd rfl hne
  | cons b rest => rfl

theorem join_concat {separator : Text} {words : List Text} (hne : words ≠ []) (t : Text) :
    join separator (words ++ [t]) = join separator words ++ separator ++ t := by
  induction words with
  | nil => exact absurd rfl hne
  | cons w words ih =>
    by_cases hwords : words = []
    · rw [hwords]
      rfl
    · have hmore : words ++ [t] ≠ [] := List.append_ne_nil_of_left_ne_nil hwords _
      rw [List.cons_append, join_cons hmore, join_cons hwords, ih hwords]
      simp only [List.append_assoc]

theorem Sealed.join {texts : List Text} (hne : texts ≠ []) (h : ∀ text ∈ texts, text.Sealed) :
    (Text.join " " texts).Sealed := by
  induction texts with
  | nil => exact absurd rfl hne
  | cons a texts ih =>
    have hrest : ∀ text ∈ texts, text.Sealed := fun text htext => h text (List.mem_cons_of_mem a htext)
    by_cases htexts : texts = []
    · rw [htexts]
      exact h a List.mem_cons_self
    · rw [join_cons htexts]
      exact .append_blank (h a List.mem_cons_self).no_feed (ih htexts hrest)

theorem Sealed.join_append {words texts : List Text} (hwords : ∀ w ∈ words, ('\n' : CodePoint) ∉ w)
    (hne : texts ≠ []) (h : (Text.join " " texts).Sealed) : (Text.join " " (words ++ texts)).Sealed := by
  induction words with
  | nil => exact h
  | cons w words ih =>
    have hmore : words ++ texts ≠ [] := List.append_ne_nil_of_right_ne_nil _ hne
    rw [List.cons_append, join_cons hmore]
    exact .append_blank (hwords w List.mem_cons_self) (ih fun v hv => hwords v (List.mem_cons_of_mem w hv))

end Text
end BrailleTable
