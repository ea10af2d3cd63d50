/-
Where physical lines stand in their text.

Joining counts lines and code points as it goes.  `Place.ofOffset` says what these counts are about: the line feeds before
an offset, and the code points since the last of them.  The two agree for every physical line of a text, the lines lie one
after the other, and together they make up the text.
-/
import BrailleTable.Proofs.LogicalLine
import BrailleTable.Proofs.LogicalLine.Joining

namespace BrailleTable

namespace Text

/-- The number of line feeds in a text. -/
def feeds (t : Text) : Nat := t.count ('\n' : CodePoint)

/-- What follows the last line feed of a text. -/
def lastLine (t : Text) : Text := t.rtakeWhile fun c => c ≠ '\n'

@[simp] theorem feeds_append (a b : Text) : feeds (a ++ b) = feeds a + feeds b := List.count_append

theorem feeds_eq_zero {t : Text} (h : ('\n' : CodePoint) ∉ t) : feeds t = 0 := List.count_eq_zero_of_not_mem h

/-- A text that is empty or ends in a line feed. -/
def EndsLine (t : Text) : Prop := t = [] ∨ t.getLast? = some ('\n' : CodePoint)

theorem lastLine_append {before t : Text} (hbefore : before.EndsLine) (ht : ('\n' : CodePoint) ∉ t) :
    lastLine (before ++ t) = t := by
  have hall : ∀ b ∈ t.reverse, decide (b ≠ ('\n' : CodePoint)) = true := fun b hb =>
    decide_eq_true fun heq => ht (heq ▸ List.mem_reverse.mp hb)
  unfold lastLine List.rtakeWhile
  rw [List.reverse_append, List.takeWhile_append_of_pos hall]
  rcases hbefore with rfl | hlast
  · rw [List.reverse_nil, List.takeWhile_nil, List.append_nil, List.reverse_reverse]
  · obtain ⟨init, rfl⟩ := List.getLast?_eq_some_iff.mp hlast
    rw [List.reverse_concat, List.takeWhile_cons_of_neg (by simp), List.append_nil, List.reverse_reverse]

end Text

/-- The place that has `o` code points of the text before it. -/
def Place.ofOffset (text : Text) (o : Nat) : Place where
  line := 1 + Text.feeds (text.take o)
  col := 1 + (Text.lastLine (text.take o)).length
  offset := o

theorem physicalLines_eq_nil {text : Text} (h : physicalLines text = []) : text = [] := by
  cases text with
  | nil => rfl
  | cons c rest =>
    rw [physicalLines] at h
    split at h
    · cases h
    · split at h <;> cases h

/-- The first physical line of a text, and the text after it. -/
theorem physicalLines_eq_cons {text raw : Text} {raws : List Text} (h : physicalLines text = raw :: raws) :
    ∃ rest, text = raw ++ rest ∧ physicalLines rest = raws ∧ ('\n' : CodePoint) ∉ raw.dropLast ∧
      (rest = [] ∨ raw.getLast? = some ('\n' : CodePoint)) := by
  induction text generalizing raw raws with
  | nil => cases h
  | cons c rest ih =>
    rw [physicalLines] at h
    by_cases hc : c = '\n'
    · rw [if_pos hc] at h
      obtain ⟨rfl, rfl⟩ := List.cons.inj h
      exact ⟨rest, rfl, rfl, List.not_mem_nil, .inr (congrArg some hc)⟩
    · rw [if_neg hc] at h
      cases hlines : physicalLines rest with
      | nil =>
        rw [hlines] at h
        obtain ⟨rfl, rfl⟩ := List.cons.inj h
        rw [physicalLines_eq_nil hlines]
        exact ⟨[], rfl, rfl, List.not_mem_nil, .inl rfl⟩
      | cons line more =>
        rw [hlines] at h
        obtain ⟨rfl, rfl⟩ := List.cons.inj h
        obtain ⟨rest', rfl, hrest, hfeed, hlast⟩ := ih hlines
        refine ⟨rest', rfl, hrest, ?_, ?_⟩
        · cases line with
          | nil => exact List.not_mem_nil
          | cons b line =>
            rw [List.dropLast_cons_of_ne_nil (List.cons_ne_nil b line), List.mem_cons, not_or]
            exact ⟨Ne.symm hc, hfeed⟩
        · rcases hlast with hnil | hlast
          · exact .inl hnil
          · cases line with
            | nil => cases hlast
            | cons b line => exact .inr (by rw [List.getLast?_cons_cons, hlast])

namespace LogicalLine

/-- Physical lines with the places at which joining starts them, after `count` lines and `offset` code points. -/
def placeLines (count offset : Nat) : List Text → List (Place × Text)
  | [] => []
  | raw :: rest => (⟨count + 1, 1, offset⟩, raw) :: placeLines (count + 1) (offset + width raw) rest

/-- The places number the lines. -/
theorem exists_getElem?_of_mem_placeLines {raws : List Text} {count offset : Nat} {x : Place × Text}
    (h : x ∈ placeLines count offset raws) : ∃ n : Nat, raws[n]? = some x.2 ∧ x.1.line = count + n + 1 := by
  induction raws generalizing count offset with
  | nil => cases h
  | cons raw raws ih =>
    rcases List.mem_cons.mp h with rfl | h
    · exact ⟨0, rfl, rfl⟩
    · obtain ⟨n, hn, hline⟩ := ih h
      refine ⟨n + 1, hn, ?_⟩
      rw [hline]
      omega

/-- A physical line of a text and the place where it starts. -/
inductive IsPhysicalLine (text : Text) : Place × Text → Prop
  | mk {before raw rest : Text} : text = before ++ raw ++ rest →
      before.EndsLine → ('\n' : CodePoint) ∉ raw.dropLast →
      (rest = [] ∨ raw.getLast? = some ('\n' : CodePoint)) →
      IsPhysicalLine text (⟨before.feeds + 1, 1, before.length⟩, raw)

theorem width_of_getLast? {raw : Text} (h : raw.getLast? = some ('\n' : CodePoint)) : width raw = raw.length :=
  if_pos h

theorem feeds_of_getLast? {raw : Text} (h : raw.getLast? = some ('\n' : CodePoint))
    (hfeed : ('\n' : CodePoint) ∉ raw.dropLast) : raw.feeds = 1 := by
  obtain ⟨init, rfl⟩ := List.getLast?_eq_some_iff.mp h
  rw [List.dropLast_concat] at hfeed
  rw [Text.feeds_append, Text.feeds_eq_zero hfeed]
  rfl

theorem isPhysicalLine_of_mem_placeLines {text before rest : Text} (htext : text = before ++ rest)
    (hbefore : before.EndsLine) :
    ∀ x ∈ placeLines before.feeds before.length (physicalLines rest), IsPhysicalLine text x := by
  generalize hraws : physicalLines rest = raws
  induction raws generalizing before rest with
  | nil => exact fun x hx => absurd hx List.not_mem_nil
  | cons raw raws ih =>
    obtain ⟨rest', rfl, hrest, hfeed, hlast⟩ := physicalLines_eq_cons hraws
    have hsplit : text = before ++ raw ++ rest' := by rw [htext, List.append_assoc]
    intro x hx
    rcases List.mem_cons.mp hx with rfl | hx
    · exact .mk hsplit hbefore hfeed hlast
    · rcases hlast with rfl | hlast
      · rw [← hrest] at hx
        exact absurd hx List.not_mem_nil
      · refine ih hsplit (.inr ?_) hrest x ?_
        · rw [List.getLast?_append, hlast]
          rfl
        · rwa [Text.feeds_append, feeds_of_getLast? hlast hfeed, List.length_append, ← width_of_getLast? hlast]

theorem drop_of_eq_append {text before raw rest : Text} (h : text = before ++ raw ++ rest) {i : Nat}
    (hi : i ≤ raw.length) : text.drop (before.length + i) = raw.drop i ++ rest := by
  rw [h, List.append_assoc, List.drop_length_add_append, List.drop_append_of_le_length hi]

theorem slice_of_eq_append {text before raw rest : Text} (h : text = before ++ raw ++ rest) {i j : Nat}
    (hi : i ≤ raw.length) (hj : j ≤ raw.length) :
    text.slice (before.length + i) (before.length + j) = raw.slice i j := by
  rw [Text.slice_eq, Text.slice_eq, drop_of_eq_append h hi, Nat.add_sub_add_left,
    List.take_append_of_le_length (by rw [List.length_drop]; omega)]

/-- Counting along a physical line gives the places of its code points. -/
theorem IsPhysicalLine.advance_eq {text : Text} {x : Place × Text} (h : IsPhysicalLine text x) {i : Nat}
    (hi : i < x.2.length) : ∃ o : Nat, x.1.offset + i = o ∧ o < text.length ∧
      x.1.advance i = .ofOffset text o ∧ text[o]? = x.2[i]? ∧ x.2.drop i <+: text.drop o := by
  cases h with
  | @mk before raw rest htext hbefore hfeed hlast =>
    replace hi : i < raw.length := hi
    have htake : text.take (before.length + i) = before ++ raw.take i := by
      rw [htext, List.append_assoc, List.take_length_add_append, List.take_append_of_le_length (Nat.le_of_lt hi)]
    have hfree : ('\n' : CodePoint) ∉ raw.take i := by
      refine fun hmem => hfeed ?_
      rw [List.dropLast_eq_take]
      exact (List.take_sublist_take_left (by omega)).mem hmem
    have hdrop := drop_of_eq_append htext (Nat.le_of_lt hi)
    refine ⟨before.length + i, rfl, ?_, ?_, ?_, ?_⟩
    · rw [htext, List.length_append, List.length_append]
      omega
    · unfold Place.ofOffset Place.advance
      rw [htake, Text.lastLine_append hbefore hfree, Text.feeds_append, Text.feeds_eq_zero hfree,
        List.length_take, Nat.min_eq_left (Nat.le_of_lt hi)]
      simp only [Nat.add_zero, Int.natCast_add, Place.mk.injEq, and_true]
      omega
    · rw [← List.head?_drop, ← List.head?_drop, hdrop, List.head?_append]
      rw [List.head?_drop, List.getElem?_eq_getElem hi]
      rfl
    · rw [hdrop]
      exact List.prefix_append _ _

/-- Every code point of a text stands in one of its physical lines. -/
theorem exists_mem_placeLines {rest : Text} (count offset : Nat) {o : Nat} (ho : o < rest.length) :
    ∃ x ∈ placeLines count offset (physicalLines rest), ∃ i < x.2.length, x.1.offset + i = offset + o := by
  generalize hraws : physicalLines rest = raws
  induction raws generalizing rest count offset o with
  | nil =>
    rw [physicalLines_eq_nil hraws] at ho
    exact absurd ho (Nat.not_lt_zero o)
  | cons raw raws ih =>
    obtain ⟨rest', rfl, hrest, hfeed, hlast⟩ := physicalLines_eq_cons hraws
    rw [List.length_append] at ho
    by_cases hlt : o < raw.length
    · exact ⟨_, List.mem_cons_self, o, hlt, rfl⟩
    · have hwidth : width raw = raw.length := by
        rcases hlast with rfl | hlast
        · exact absurd ho (by rw [List.length_nil]; omega)
        · exact width_of_getLast? hlast
      obtain ⟨x, hx, i, hi, heq⟩ := ih (count + 1) (offset + width raw)
        (show o - raw.length < rest'.length by omega) hrest
      exact ⟨x, List.mem_cons_of_mem _ hx, i, hi, by rw [heq, hwidth]; omega⟩

theorem le_offset_of_mem_placeLines {raws : List Text} {count offset : Nat} :
    ∀ x ∈ placeLines count offset raws, (offset : Int) ≤ x.1.offset := by
  induction raws generalizing count offset with
  | nil => exact fun x hx => absurd hx List.not_mem_nil
  | cons raw raws ih =>
    intro x hx
    rcases List.mem_cons.mp hx with rfl | hx
    · exact Int.le_refl _
    · have hle := ih x hx
      omega

/-- Physical lines lie one after the other. -/
theorem pairwise_placeLines (raws : List Text) (count offset : Nat) :
    (placeLines count offset raws).Pairwise fun x y => x.1.offset + (x.2.length : Int) ≤ y.1.offset := by
  induction raws generalizing count offset with
  | nil => exact .nil
  | cons raw raws ih =>
    refine .cons (fun y hy => ?_) (ih _ _)
    have hle := le_offset_of_mem_placeLines y hy
    have hwidth := length_le_width raw
    show (offset : Int) + raw.length ≤ y.1.offset
    omega

end LogicalLine
end BrailleTable
