/-
Which physical lines are joined.

A line feed stands only at the end of a physical line, so no logical line has one.  Physical lines stay apart exactly if
none of them is continued; then there are as many logical lines as physical ones, with the same texts.
-/
import BrailleTable.LogicalLine
import BrailleTable.Proofs.Text.Trim

namespace BrailleTable

/-! ## Physical lines -/

theorem physicalLines_append {line : Text} (h : ('\n' : CodePoint) ∉ line) (rest : Text) :
    physicalLines (line ++ ('\n' : CodePoint) :: rest) =
      (line ++ [('\n' : CodePoint)]) :: physicalLines rest := by
  induction line with
  | nil =>
    show physicalLines (_ :: rest) = _
    rw [physicalLines, if_pos rfl]
    rfl
  | cons c line ih =>
    rw [List.mem_cons, not_or] at h
    rw [List.cons_append, physicalLines, if_neg (Ne.symm h.1), ih h.2]
    rfl

theorem physicalLines_flatMap {lines : List Text} (h : ∀ line ∈ lines, ('\n' : CodePoint) ∉ line) :
    physicalLines (lines.flatMap (· ++ Text.ofString "\n")) = lines.map (· ++ Text.ofString "\n") := by
  induction lines with
  | nil => rfl
  | cons line lines ih =>
    rw [List.flatMap_cons, List.append_assoc, List.map_cons]
    show physicalLines (line ++ ('\n' : CodePoint) :: lines.flatMap (· ++ Text.ofString "\n")) = _
    rw [physicalLines_append (h line List.mem_cons_self),
      ih fun other hother => h other (List.mem_cons_of_mem line hother)]
    rfl

/-- A line feed stands only at the end of a physical line. -/
theorem physicalLines_spec {text raw : Text} (h : raw ∈ physicalLines text) :
    ('\n' : CodePoint) ∉ raw.dropLast ∧ ∀ c ∈ raw, c ∈ text := by
  induction text generalizing raw with
  | nil => cases h
  | cons c rest ih =>
    have hlater : raw ∈ physicalLines rest →
        ('\n' : CodePoint) ∉ raw.dropLast ∧ ∀ b ∈ raw, b ∈ c :: rest := by
      intro hraw
      obtain ⟨hfeed, hmem⟩ := ih hraw
      exact ⟨hfeed, fun b hb => List.mem_cons_of_mem c (hmem b hb)⟩
    have hone : raw = [c] → ('\n' : CodePoint) ∉ raw.dropLast ∧ ∀ b ∈ raw, b ∈ c :: rest := by
      intro heq
      rw [heq]
      exact ⟨List.not_mem_nil, fun b hb => by rw [List.mem_singleton.mp hb]; exact List.mem_cons_self⟩
    rw [physicalLines] at h
    by_cases hc : c = '\n'
    · rw [if_pos hc] at h
      rcases List.mem_cons.mp h with heq | h
      · exact hone heq
      · exact hlater h
    · rw [if_neg hc] at h
      cases hlines : physicalLines rest with
      | nil =>
        rw [hlines] at h
        exact hone (List.mem_singleton.mp h)
      | cons line more =>
        rw [hlines] at h
        rcases List.mem_cons.mp h with rfl | h
        · obtain ⟨hfeed, hmem⟩ := ih (hlines ▸ List.mem_cons_self)
          refine ⟨?_, fun b hb => ?_⟩
          · cases line with
            | nil => exact List.not_mem_nil
            | cons d line =>
              rw [List.dropLast_cons_of_ne_nil (List.cons_ne_nil d line), List.mem_cons, not_or]
              exact ⟨Ne.symm hc, hfeed⟩
          · rcases List.mem_cons.mp hb with rfl | hb
            · exact List.mem_cons_self
            · exact List.mem_cons_of_mem c (hmem b hb)
        · exact hlater (hlines ▸ List.mem_cons_of_mem line h)

namespace LogicalLine

theorem body_append_feed (line : Text) :
    body (line ++ "\n") = Text.trimEnd (fun c => c = '\r' || c = '\n') line := by
  have hlast : (line ++ Text.ofString "\n").getLast? = some ('\n' : CodePoint) :=
    List.getLast?_append_of_ne_nil _ (by decide)
  unfold body
  rw [if_pos hlast]
  exact Text.trimEnd_append_of_all (by decide)

theorem not_mem_of_getLast?_ne {raw : Text} (h : ('\n' : CodePoint) ∉ raw.dropLast)
    (hlast : raw.getLast? ≠ some ('\n' : CodePoint)) : ('\n' : CodePoint) ∉ raw := by
  intro hmem
  have hne : raw ≠ [] := List.ne_nil_of_mem hmem
  rw [← List.dropLast_append_getLast hne, List.mem_append, List.mem_singleton] at hmem
  rcases hmem with hmem | hmem
  · exact h hmem
  · exact hlast (hmem ▸ List.getLast?_eq_some_getLast hne)

/-- The body of a physical line has no line feed. -/
theorem not_mem_body {raw : Text} (h : ('\n' : CodePoint) ∉ raw.dropLast) : ('\n' : CodePoint) ∉ body raw := by
  intro hmem
  by_cases hlast : raw.getLast? = some ('\n' : CodePoint)
  · have hraw : raw = raw.dropLast ++ "\n" := (List.dropLast_append_getLast? _ hlast).symm
    rw [hraw, body_append_feed] at hmem
    exact h ((Text.trimEnd_isPrefix _).sublist.mem hmem)
  · unfold body at hmem
    rw [if_neg hlast] at hmem
    exact not_mem_of_getLast?_ne h hlast ((Text.trimEnd_isPrefix _).sublist.mem hmem)

theorem mem_of_mem_body {raw : Text} {c : CodePoint} (h : c ∈ body raw) : c ∈ raw := by
  unfold body at h
  split at h
  · exact (Text.trimEnd_isPrefix _).sublist.mem h
  · exact (Text.trimEnd_isPrefix _).sublist.mem h

theorem text_extend (pending : Option Pending) (start : Place) (text : Text) :
    (extend pending start text).text = (pending.map fun p => p.line.text).getD [] ++ text := by
  cases pending with
  | none => rfl
  | some p => rfl

/-- What holds of the code points of all bodies, and of the space that a marker becomes, holds of all logical lines. -/
theorem forall_of_mem_joinFrom {P : CodePoint → Prop} (hspace : P ' ') {marker commentMark : Text}
    {raws : List Text} (hraws : ∀ raw ∈ raws, ∀ c ∈ body raw, P c) {count offset : Nat}
    {pending : Option Pending} (hpending : ∀ p ∈ pending, ∀ c ∈ p.line.text, P c) {l : LogicalLine}
    (h : l ∈ (joinFrom marker commentMark count offset pending raws).lines) : ∀ c ∈ l.text, P c := by
  have hextend : ∀ (pending : Option Pending) (start : Place) (text : Text),
      (∀ p ∈ pending, ∀ c ∈ p.line.text, P c) → (∀ c ∈ text, P c) →
      ∀ c ∈ (extend pending start text).text, P c := by
    intro pending start text hpending htext c hc
    rw [text_extend] at hc
    rcases List.mem_append.mp hc with hc | hc
    · cases pending with
      | none => cases hc
      | some p => exact hpending p rfl c hc
    · exact htext c hc
  induction raws generalizing count offset pending with
  | nil => cases h
  | cons raw raws ih =>
    have hbody := hraws raw List.mem_cons_self
    have hrest : ∀ other ∈ raws, ∀ c ∈ body other, P c := fun other hother =>
      hraws other (List.mem_cons_of_mem raw hother)
    rw [joinFrom] at h
    dsimp only at h
    split at h
    · refine ih hrest (fun p hp => ?_) h
      cases hp
      refine hextend pending _ _ hpending fun c hc => ?_
      rcases List.mem_append.mp hc with hc | hc
      · exact hbody c (List.mem_of_mem_take hc)
      · rw [List.mem_singleton.mp hc]
        exact hspace
    · rcases List.mem_cons.mp h with rfl | h
      · exact hextend pending _ _ hpending hbody
      · exact ih hrest (fun p hp => by cases hp) h

/-- A logical line has no line feeds, and what else it has is from the source or a space. -/
theorem text_of_mem_join {marker commentMark text : Text} {l : LogicalLine}
    (h : l ∈ (join marker commentMark (physicalLines text)).lines) :
    ∀ c ∈ l.text, c ≠ '\n' ∧ (c = ' ' ∨ c ∈ text) := by
  refine forall_of_mem_joinFrom (P := fun c => c ≠ '\n' ∧ (c = ' ' ∨ c ∈ text)) ?_ ?_ ?_ h
  · exact ⟨by decide, .inl rfl⟩
  · intro raw hraw c hc
    obtain ⟨hfeed, hmem⟩ := physicalLines_spec hraw
    refine ⟨fun heq => not_mem_body hfeed (heq ▸ hc), .inr (hmem c (mem_of_mem_body hc))⟩
  · exact fun p hp => by cases hp

/-! ## Continued lines -/

/-- Whether a physical line is joined to the next one. -/
def isContinued (marker commentMark raw : Text) : Bool :=
  !isComment commentMark (body raw) && continues marker (Text.stripRight (body raw))

/-- A backslash joins lines exactly if the run that it ends is odd. -/
theorem continues_iff {stripped : Text} : continues "\\" stripped = true ↔ ¬ stripped.EndsEven := by
  have hodd : (decide ((stripped.length - (Text.trimEnd (fun c => c = '\\') stripped).length) % 2 = 1) = true) ↔
      ¬ stripped.EndsEven := by
    unfold Text.EndsEven Text.backslashes
    rw [decide_eq_true_iff]
    omega
  have hsuffix : ¬ stripped.EndsEven → (Text.ofString "\\").isSuffixOf stripped = true := by
    intro hnot
    have hlast : stripped.getLast? = some ('\\' : CodePoint) := by
      by_contra hne
      exact hnot (.of_getLast? hne)
    exact List.isSuffixOf_iff_suffix.mpr ⟨stripped.dropLast, List.dropLast_append_getLast? _ hlast⟩
  have hmarker : decide (Text.ofString "\\" ≠ []) = true := by decide
  have hself : decide (Text.ofString "\\" ≠ "\\") = false := by decide
  unfold continues
  rw [hmarker, hself, Bool.true_and, Bool.false_or, Bool.and_eq_true, hodd]
  exact ⟨fun h => h.2, fun h => ⟨hsuffix h, h⟩⟩

/-- A line that starts with a word is no comment. -/
theorem isComment_eq_false {line : Text} {c : CodePoint} (hhead : line.head? = some c)
    (hblank : c.isBlank = false) (hmark : c ≠ '#') : isComment "#" line = false := by
  obtain ⟨rest, rfl⟩ := List.head?_eq_some_iff.mp hhead
  have hstrip : Text.stripLeft (c :: rest) = c :: rest := by
    unfold Text.stripLeft
    rw [List.dropWhile_cons_of_neg (by rw [hblank]; decide)]
  have hprefix : (Text.ofString "#").isPrefixOf (c :: rest) = false := by
    show (decide (('#' : CodePoint) = c) && List.isPrefixOf [] rest) = false
    rw [decide_eq_false (Ne.symm hmark)]
    rfl
  unfold isComment
  rw [hstrip, hprefix, Bool.and_false]

theorem body_append_feed_eq {line : Text} (hreturn : line.getLast? ≠ some ('\r' : CodePoint))
    (hfeed : ('\n' : CodePoint) ∉ line) : body (line ++ "\n") = line := by
  rw [body_append_feed]
  refine Text.trimEnd_eq_self fun c hc => ?_
  rw [Bool.or_eq_false_iff, decide_eq_false_iff_not, decide_eq_false_iff_not]
  refine ⟨fun heq => hreturn (heq ▸ hc), fun heq => hfeed (heq ▸ List.mem_of_getLast? hc)⟩

variable {marker commentMark : Text} {raws : List Text}

/-- A logical line ends with each physical line that is not continued. -/
theorem length_lines_joinFrom (count offset : Nat) (pending : Option Pending) :
    (joinFrom marker commentMark count offset pending raws).lines.length =
      raws.countP fun raw => !isContinued marker commentMark raw := by
  induction raws generalizing count offset pending with
  | nil => rfl
  | cons raw raws ih =>
    by_cases h : isContinued marker commentMark raw = true
    · rw [joinFrom, List.countP_cons_of_neg (by rw [h]; decide)]
      dsimp only
      unfold isContinued at h
      rw [if_pos h, ih]
    · rw [joinFrom, List.countP_cons_of_pos (by simpa using h)]
      dsimp only
      unfold isContinued at h
      rw [if_neg h, List.length_cons, ih]

theorem joinFrom_of_forall (h : ∀ raw ∈ raws, isContinued marker commentMark raw = false)
    (count offset : Nat) :
    (joinFrom marker commentMark count offset none raws).dangling = none ∧
      (joinFrom marker commentMark count offset none raws).lines.map LogicalLine.text = raws.map body := by
  induction raws generalizing count offset with
  | nil => exact ⟨rfl, rfl⟩
  | cons raw raws ih =>
    have hraw := h raw List.mem_cons_self
    obtain ⟨hdangling, hlines⟩ := ih (fun other hother => h other (List.mem_cons_of_mem raw hother))
      (count + 1) (offset + width raw)
    unfold isContinued at hraw
    rw [joinFrom]
    dsimp only
    rw [if_neg (by rw [hraw]; decide)]
    refine ⟨hdangling, ?_⟩
    rw [List.map_cons, List.map_cons, hlines]
    rfl

/-- Lines stay apart exactly if none of them is continued. -/
theorem join_eq_iff (marker commentMark : Text) (raws : List Text) :
    ((join marker commentMark raws).dangling = none ∧
      (join marker commentMark raws).lines.map LogicalLine.text = raws.map body) ↔
    ∀ raw ∈ raws, isContinued marker commentMark raw = false := by
  constructor
  · -- a continued line leaves fewer logical lines than there are physical ones
    intro ⟨_, hlines⟩ raw hraw
    have hlength := congrArg List.length hlines
    rw [List.length_map, List.length_map] at hlength
    unfold join at hlength
    rw [length_lines_joinFrom, List.countP_eq_length] at hlength
    simpa using hlength raw hraw
  · intro h
    exact joinFrom_of_forall h 0 0

end LogicalLine
end BrailleTable
