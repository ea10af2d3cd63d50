/-
Runs of digits in logical lines.

Joining never makes a run of digits longer, because a continuation marker leaves a space between the two lines that it
joins.  So a bound on the runs of a source holds in every one of its logical lines.
-/
import BrailleTable.Proofs.LogicalLine.SourceMap

namespace BrailleTable

namespace Text

/-- No run of decimal digits is longer than the limit. -/
def DigitRunsWithin (limit : Nat) (t : Text) : Prop :=
  ∀ run, run <:+: t → (∀ c ∈ run, c.isDigit = true) → run.length ≤ limit

variable {limit : Nat}

theorem DigitRunsWithin.of_isInfix {a b : Text} (h : DigitRunsWithin limit b) (hab : a <:+: b) :
    DigitRunsWithin limit a := fun run hrun => h run (hrun.trans hab)

/-- A space ends a run, so the runs of two texts with a space between them are those of the two texts. -/
theorem DigitRunsWithin.append_space {a b : Text} (ha : DigitRunsWithin limit a) (hb : DigitRunsWithin limit b) :
    DigitRunsWithin limit (a ++ (' ' : CodePoint) :: b) := by
  intro run hrun hdigits
  have hspace : (' ' : CodePoint) ∉ run := fun hmem => by
    have hdigit := hdigits _ hmem
    revert hdigit
    decide
  rcases List.infix_append_iff.mp hrun with hrun | hrun | ⟨r₁, r₂, rfl, hr₁, hr₂⟩
  · exact ha run hrun hdigits
  · rcases List.infix_cons_iff.mp hrun with hrun | hrun
    · cases run with
      | nil => exact Nat.zero_le limit
      | cons c run =>
        rw [(List.cons_prefix_cons.mp hrun).1] at hspace
        exact absurd List.mem_cons_self hspace
    · exact hb run hrun hdigits
  · cases r₂ with
    | nil =>
      rw [List.append_nil] at hdigits ⊢
      exact ha r₁ hr₁.isInfix hdigits
    | cons c r₂ =>
      rw [(List.cons_prefix_cons.mp hr₂).1] at hspace
      exact absurd (List.mem_append_right r₁ List.mem_cons_self) hspace

end Text

theorem flatten_physicalLines (text : Text) : (physicalLines text).flatten = text := by
  fun_induction physicalLines text with
  | case1 => rfl
  | case2 rest ih => rw [List.flatten_cons, ih, List.singleton_append]
  | case3 c rest hfeed hnil ih =>
    rw [hnil] at ih
    rw [← ih]
    rfl
  | case4 c rest hfeed line more hcons ih =>
    rw [hcons] at ih
    rw [← ih]
    rfl

theorem isInfix_of_mem_physicalLines {text raw : Text} (h : raw ∈ physicalLines text) : raw <:+: text := by
  obtain ⟨before, after, hlines⟩ := List.append_of_mem h
  refine ⟨before.flatten, after.flatten, ?_⟩
  rw [← flatten_physicalLines text, hlines, List.flatten_append, List.flatten_cons, List.append_assoc]

namespace LogicalLine

variable {limit : Nat} {marker commentMark : Text}

theorem body_isInfix (raw : Text) : body raw <:+: raw := by
  obtain ⟨ending, hraw, -⟩ := exists_body_append raw
  exact ⟨[], ending, by rw [List.nil_append, ← hraw]⟩

/-- A pending line ends in the space of its marker, so what is added to it begins a new run. -/
theorem digitRunsWithin_of_mem_joinFrom {raws : List Text} (hraws : ∀ raw ∈ raws, Text.DigitRunsWithin limit raw)
    {count offset : Nat} {pending : Option Pending}
    (hpending : ∀ p ∈ pending, ∃ t : Text, p.line.text = t ++ [(' ' : CodePoint)] ∧ t.DigitRunsWithin limit)
    {l : LogicalLine} (h : l ∈ (joinFrom marker commentMark count offset pending raws).lines) :
    l.text.DigitRunsWithin limit := by
  induction raws generalizing count offset pending with
  | nil => cases h
  | cons raw raws ih =>
    have hbody : (body raw).DigitRunsWithin limit := (hraws raw List.mem_cons_self).of_isInfix (body_isInfix raw)
    have hrest : ∀ other ∈ raws, Text.DigitRunsWithin limit other := fun other hother =>
      hraws other (List.mem_cons_of_mem raw hother)
    have hextend : ∀ (start : Place) (t rest : Text), t.DigitRunsWithin limit →
        ∃ t' : Text, (extend pending start (t ++ rest)).text = t' ++ rest ∧ t'.DigitRunsWithin limit := by
      intro start t rest ht
      cases pending with
      | none => exact ⟨t, rfl, ht⟩
      | some p =>
        obtain ⟨before, hbefore, hruns⟩ := hpending p rfl
        refine ⟨before ++ (' ' : CodePoint) :: t, ?_, hruns.append_space ht⟩
        show p.line.text ++ (t ++ rest) = _
        rw [hbefore, List.append_assoc, List.append_assoc, List.singleton_append, List.cons_append]
    by_cases hcont : isContinued marker commentMark raw = true
    · rw [joinFrom_of_isContinued hcont] at h
      refine ih hrest (fun p hp => ?_) h
      cases hp
      rw [kept, if_pos hcont]
      exact hextend _ _ _ (hbody.of_isInfix (List.take_prefix _ _).isInfix)
    · rw [joinFrom_of_not_isContinued hcont] at h
      rcases List.mem_cons.mp h with rfl | h
      · obtain ⟨t, htext, ht⟩ := hextend ⟨count + 1, 1, offset⟩ (body raw) [] hbody
        rw [List.append_nil, List.append_nil] at htext
        rw [kept, if_neg hcont, htext]
        exact ht
      · exact ih hrest (fun p hp => by cases hp) h

theorem digitRunsWithin_of_mem_join {text : Text} (htext : text.DigitRunsWithin limit) {l : LogicalLine}
    (h : l ∈ (join marker commentMark (physicalLines text)).lines) : l.text.DigitRunsWithin limit :=
  digitRunsWithin_of_mem_joinFrom
    (fun _ hraw => htext.of_isInfix (isInfix_of_mem_physicalLines hraw)) (fun p hp => by cases hp) h

end LogicalLine
end BrailleTable
