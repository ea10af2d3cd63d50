/-
Ranges of the source.

The indices of a logical line stand inside the bodies of physical lines, and its end stands at the end of the last of
them.  Ranges between indices are therefore ranges of the source, with the line and column of the offset at either end.
Counting on behind the end of a logical line stays in the source only as far as its physical line goes on, which is where
carriage returns stand before the line feed.
-/
import BrailleTable.Proofs.LogicalLine.SourceMap

namespace BrailleTable

namespace Text

/-- What precedes the first line feed of a text. -/
def firstLine (t : Text) : Text := t.takeWhile fun c => c ≠ '\n'

/-- What is left, at an offset, of the physical line there. -/
def restOfLine (text : Text) (o : Nat) : Text := firstLine (text.drop o)

theorem firstLine_append {a b : Text} (h : ('\n' : CodePoint) ∉ a) : firstLine (a ++ b) = a ++ firstLine b :=
  List.takeWhile_append_of_pos fun _ hc => decide_eq_true fun heq => h (heq ▸ hc)

/-- The start of a text has no line feed exactly if it is over before the first one. -/
theorem feeds_take_eq_zero_iff {t : Text} {m : Nat} :
    (m ≤ t.length ∧ feeds (t.take m) = 0) ↔ m ≤ (firstLine t).length := by
  induction t generalizing m with
  | nil => simp [feeds, firstLine]
  | cons c rest ih =>
    cases m with
    | zero => simp [feeds]
    | succ m =>
      by_cases hc : c = '\n'
      · simp [feeds, firstLine, hc]
      · have hcount : feeds ((c :: rest).take (m + 1)) = feeds (rest.take m) := by
          simp [feeds, List.take_succ_cons, hc]
        have hfirst : firstLine (c :: rest) = c :: firstLine rest :=
          List.takeWhile_cons_of_pos (by simpa using hc)
        have hrest := ih (m := m)
        rw [hcount, hfirst, List.length_cons, List.length_cons]
        omega

end Text

/-! ## Ranges -/

namespace Span

/-- The range between two offsets of a text, the second of them not before the first. -/
def IsRange (text : Text) (s : Span) : Prop :=
  ∃ i j : Nat, i ≤ j ∧ j ≤ text.length ∧ s = .between (.ofOffset text i) (.ofOffset text j)

/-- A range of a text that is not empty. -/
def IsStretch (text : Text) (s : Span) : Prop := s.IsRange text ∧ s.start < s.stop

/-- A range that is over at the end of its last physical line, or before. -/
def EndsInLine (text : Text) (s : Span) : Prop :=
  s.stop ≤ text.length ∧ (Text.feeds (text.take s.stop.toNat) : Int) < s.endLine

/-- A range that is over where another one begins, or before. -/
def Before (a b : Span) : Prop := a.stop ≤ b.start

/-- A range that another one covers. -/
def Within (a b : Span) : Prop := b.start ≤ a.start ∧ a.stop ≤ b.stop

variable {text : Text} {a b : Span}

theorem start_merge (a b : Span) : (a.merge b).start = min a.start b.start := by
  by_cases h : a.start ≤ b.start
  · rw [Int.min_eq_left h]
    simp [merge, h]
  · rw [Int.min_eq_right (Int.le_of_not_le h)]
    simp [merge, h]

theorem stop_merge (a b : Span) : (a.merge b).stop = max a.stop b.stop := by
  by_cases h : b.stop ≤ a.stop
  · rw [Int.max_eq_left h]
    simp [merge, h]
  · rw [Int.max_eq_right (Int.le_of_not_le h)]
    simp [merge, h]

theorem IsRange.start_le_stop (h : a.IsRange text) : a.start ≤ a.stop := by
  obtain ⟨i, j, hij, -, rfl⟩ := h
  exact Int.ofNat_le.mpr hij

theorem IsRange.endsInLine (h : a.IsRange text) : a.EndsInLine text := by
  obtain ⟨i, j, -, hj, rfl⟩ := h
  refine ⟨Int.ofNat_le.mpr hj, ?_⟩
  show (Text.feeds (text.take ((j : Int).toNat)) : Int) < 1 + Text.feeds (text.take j)
  rw [Int.toNat_natCast]
  omega

/-- The least range that covers two ranges starts and stops where one of them does. -/
theorem IsRange.merge (ha : a.IsRange text) (hb : b.IsRange text) : (a.merge b).IsRange text := by
  obtain ⟨i, j, hij, hj, rfl⟩ := ha
  obtain ⟨k, l, hkl, hl, rfl⟩ := hb
  have hstart : ∀ p q : Nat, (Span.between (.ofOffset text p) (.ofOffset text q)).start = p := fun _ _ => rfl
  have hstop : ∀ p q : Nat, (Span.between (.ofOffset text p) (.ofOffset text q)).stop = q := fun _ _ => rfl
  refine ⟨if i ≤ k then i else k, if l ≤ j then j else l, ?_, ?_, ?_⟩
  · split <;> split <;> omega
  · split <;> omega
  · unfold Span.merge
    simp only [hstart, hstop, Int.ofNat_le]
    by_cases hik : i ≤ k <;> by_cases hlj : l ≤ j <;> simp only [hik, hlj, if_true, if_false] <;> rfl

theorem IsStretch.merge (ha : a.IsStretch text) (hb : b.IsStretch text) : (a.merge b).IsStretch text := by
  refine ⟨ha.1.merge hb.1, ?_⟩
  have hlt := ha.2
  rw [start_merge, stop_merge]
  omega

/-- Things with ranges that follow each other lie between the start of the first and the stop of the last. -/
theorem bounds_of_pairwise {α : Type} {f : α → Span} {a : α} {l : List α}
    (hlt : ∀ x ∈ a :: l, (f x).start < (f x).stop) (h : (a :: l).Pairwise fun x y => (f x).Before (f y)) :
    ∀ x ∈ a :: l, (f a).start ≤ (f x).start ∧ (f x).stop ≤ (f (l.getLast?.getD a)).stop := by
  induction l generalizing a with
  | nil =>
    intro x hx
    rw [List.mem_singleton.mp hx]
    exact ⟨Int.le_refl _, Int.le_refl _⟩
  | cons b l ih =>
    obtain ⟨ha, hrest⟩ := List.pairwise_cons.mp h
    have hbounds := ih (fun x hx => hlt x (List.mem_cons_of_mem a hx)) hrest
    have hlast : (b :: l).getLast?.getD a = l.getLast?.getD b := by
      rw [List.getLast?_cons]
      rfl
    have hpos := hlt a List.mem_cons_self
    rw [hlast]
    intro x hx
    rcases List.mem_cons.mp hx with rfl | hx
    · have hb := hbounds b List.mem_cons_self
      have hblt := hlt b (List.mem_cons_of_mem _ List.mem_cons_self)
      have hxb : (f x).stop ≤ (f b).start := ha b List.mem_cons_self
      omega
    · have hx' := hbounds x hx
      have hax : (f a).stop ≤ (f x).start := ha x hx
      omega

end Span

/-! ## Physical lines -/

namespace LogicalLine

variable {text : Text} {x : Place × Text}

/-- Counting along a physical line stays in the source up to the end of its body. -/
theorem IsPhysicalLine.advance_eq_ofOffset (h : IsPhysicalLine text x) {i : Nat} (hi : i ≤ (body x.2).length) :
    ∃ o : Nat, x.1.offset + i = o ∧ o ≤ text.length ∧ x.1.advance i = .ofOffset text o := by
  cases h with
  | @mk before raw rest htext hbefore hfeed hlast =>
    replace hi : i ≤ (body raw).length := hi
    obtain ⟨ending, hraw, -⟩ := exists_body_append raw
    have hlength : raw.length = (body raw).length + ending.length := by
      rw [← List.length_append, ← hraw]
    have htake : text.take (before.length + i) = before ++ (body raw).take i := by
      rw [htext, List.append_assoc, List.take_length_add_append]
      conv_lhs => rw [hraw]
      rw [List.append_assoc, List.take_append_of_le_length hi]
    have hfree : ('\n' : CodePoint) ∉ (body raw).take i := fun hmem =>
      not_mem_body hfeed (List.mem_of_mem_take hmem)
    refine ⟨before.length + i, rfl, ?_, ?_⟩
    · rw [htext, List.length_append, List.length_append]
      omega
    · unfold Place.ofOffset Place.advance
      rw [htake, Text.lastLine_append hbefore hfree, Text.feeds_append, Text.feeds_eq_zero hfree,
        List.length_take, Nat.min_eq_left hi]
      simp only [Nat.add_zero, Int.natCast_add, Place.mk.injEq, and_true]
      omega

/-- Counting on behind the body stays in the physical line as far as the line goes on. -/
theorem IsPhysicalLine.feeds_lt_iff (h : IsPhysicalLine text x) {m o : Nat} (ho : x.1.offset + (body x.2).length = o)
    (hm : (body x.2).length ≤ m) :
    (x.1.offset + m ≤ text.length ∧ (Text.feeds (text.take (x.1.offset + m).toNat) : Int) < x.1.line) ↔
      m ≤ (body x.2).length + (text.restOfLine o).length := by
  cases h with
  | @mk before raw rest htext hbefore hfeed hlast =>
    obtain ⟨ending, hraw, -⟩ := exists_body_append raw
    obtain rfl : before.length + (body raw).length = o := Int.ofNat_inj.mp ho
    have hafter : raw ++ rest = body raw ++ (ending ++ rest) := by
      rw [← List.append_assoc, ← hraw]
    have hdrop : text.drop (before.length + (body raw).length) = ending ++ rest := by
      rw [htext, List.append_assoc, hafter, List.drop_length_add_append, List.drop_left]
    have hwhole : (Text.firstLine (raw ++ rest)).length =
        (body raw).length + (text.restOfLine (before.length + (body raw).length)).length := by
      rw [hafter, Text.firstLine_append (not_mem_body hfeed), List.length_append, Text.restOfLine, hdrop]
    have htake : Text.feeds (text.take (before.length + m)) = before.feeds + Text.feeds ((raw ++ rest).take m) := by
      rw [htext, List.append_assoc, List.take_length_add_append, Text.feeds_append]
    have hlength : text.length = before.length + (raw ++ rest).length := by
      rw [htext, List.append_assoc, List.length_append]
    have hnat : ((before.length : Int) + m).toNat = before.length + m := by omega
    have hiff := Text.feeds_take_eq_zero_iff (t := raw ++ rest) (m := m)
    show ((before.length : Int) + m ≤ text.length ∧
      (Text.feeds (text.take ((before.length : Int) + m).toNat) : Int) < (before.feeds : Int) + 1) ↔ _
    rw [hnat, htake, ← hwhole, ← hiff, hlength]
    omega

end LogicalLine

/-! ## Logical lines -/

namespace LogicalLine

variable {marker commentMark text : Text} {l l' : LogicalLine}

/-- The last physical line of a logical line: the logical line ends in its body, and counting goes on from its start. -/
def EndsIn (l : LogicalLine) (x : Place × Text) : Prop :=
  ∃ before : Text, l.text = before ++ body x.2 ∧
    ∀ i : Nat, l.place ((before.length + i : Nat) : Int) = x.1.advance i

theorem endsIn_extend {pending : Option Pending} (h : ∀ p ∈ pending, p.line.IsBounded) (start : Place) (raw : Text) :
    (extend pending start (body raw)).EndsIn (start, raw) := by
  cases pending with
  | none => exact ⟨[], rfl, fun i => by simp [extend, place, single, owner]⟩
  | some p =>
    refine ⟨p.line.text, rfl, fun i => ?_⟩
    rw [Nat.add_comm]
    exact place_extend_add (h p rfl) i

theorem exists_endsIn_of_mem_joinFrom {raws : List Text} {count offset : Nat} {pending : Option Pending}
    (hpending : ∀ p ∈ pending, p.line.IsBounded)
    (h : l ∈ (joinFrom marker commentMark count offset pending raws).lines) :
    ∃ x ∈ placeLines count offset raws, l.EndsIn x := by
  induction raws generalizing count offset pending with
  | nil => cases h
  | cons raw raws ih =>
    by_cases hcont : isContinued marker commentMark raw = true
    · rw [joinFrom_of_isContinued hcont] at h
      obtain ⟨x, hx, hends⟩ := ih (fun p hp => by cases hp; exact isBounded_extend hpending _ _) h
      exact ⟨x, List.mem_cons_of_mem _ hx, hends⟩
    · rw [joinFrom_of_not_isContinued hcont] at h
      rcases List.mem_cons.mp h with rfl | h
      · have hkept : kept marker commentMark raw = body raw := if_neg hcont
        rw [hkept]
        exact ⟨_, List.mem_cons_self, endsIn_extend hpending _ raw⟩
      · obtain ⟨x, hx, hends⟩ := ih (fun p hp => by cases hp) h
        exact ⟨x, List.mem_cons_of_mem _ hx, hends⟩

theorem length_kept_le (marker commentMark raw : Text) : (kept marker commentMark raw).length ≤ (body raw).length := by
  by_cases hcont : isContinued marker commentMark raw = true
  · obtain ⟨before, blanks, hbody, hcut, hne, -⟩ := exists_of_isContinued hcont
    have hpos : 0 < marker.length := List.length_pos_of_ne_nil hne
    rw [kept_of_isContinued hcont (hbody.trans (List.append_assoc _ _ _)) hcut, hbody]
    simp only [List.length_append, List.length_singleton]
    omega
  · have hkept : kept marker commentMark raw = body raw := if_neg hcont
    rw [hkept]

/-- A logical line that was joined from physical lines of the text. -/
structure IsMapped (text : Text) (l : LogicalLine) : Prop where
  isPlaced : l.IsPlaced
  /-- Each index stands for a code point of the text, and that is no line feed. -/
  inside : ∀ i : Nat, i < l.text.length → ∃ o : Nat, o < text.length ∧ l.place i = .ofOffset text o ∧
    (l.place i).advance 1 = .ofOffset text (o + 1)
  ends : ∃ x, IsPhysicalLine text x ∧ l.EndsIn x

theorem isPhysicalLine_of_mem {x : Place × Text} (h : x ∈ placeLines 0 0 (physicalLines text)) : IsPhysicalLine text x :=
  isPhysicalLine_of_mem_placeLines (List.nil_append text).symm (.inl rfl) x h

/-- Each index of a logical line stands for a code point in the body of a physical line. -/
theorem exists_advance_of_mem_join (h : l ∈ (join marker commentMark (physicalLines text)).lines) {i : Nat}
    (hi : i < l.text.length) :
    ∃ x ∈ placeLines 0 0 (physicalLines text), ∃ k : Nat, k < (body x.2).length ∧ l.place i = x.1.advance k := by
  have hcell : (l.text[i], l.place i) ∈ keptCells marker commentMark (placeLines 0 0 (physicalLines text)) :=
    (cells_join_isPrefix marker commentMark _).subset
      (List.mem_flatMap.mpr ⟨l, h, mem_cells (List.getElem?_eq_getElem hi)⟩)
  obtain ⟨x, hx, hplaced⟩ := List.mem_flatMap.mp hcell
  obtain ⟨k, hget, hplace⟩ := mem_placed hplaced
  obtain ⟨hk, -⟩ := List.getElem?_eq_some_iff.mp hget
  have hle := length_kept_le marker commentMark x.2
  exact ⟨x, hx, k, by omega, hplace⟩

/-- The end of a logical line stands for the end of the body of a physical line. -/
theorem exists_advance_of_le (h : l ∈ (join marker commentMark (physicalLines text)).lines) {i : Nat}
    (hi : i ≤ l.text.length) :
    ∃ x ∈ placeLines 0 0 (physicalLines text), ∃ k : Nat, k ≤ (body x.2).length ∧ l.place i = x.1.advance k := by
  rcases Nat.lt_or_eq_of_le hi with hlt | rfl
  · obtain ⟨x, hx, k, hk, hplace⟩ := exists_advance_of_mem_join h hlt
    exact ⟨x, hx, k, Nat.le_of_lt hk, hplace⟩
  · obtain ⟨x, hx, before, hbefore, hplace⟩ := exists_endsIn_of_mem_joinFrom (fun p hp => by cases hp) h
    refine ⟨x, hx, (body x.2).length, Nat.le_refl _, ?_⟩
    rw [← hplace, hbefore, List.length_append]

theorem isMapped_of_mem_join (h : l ∈ (join marker commentMark (physicalLines text)).lines) : l.IsMapped text := by
  refine ⟨isPlaced_of_mem_join h, fun i hi => ?_, ?_⟩
  · obtain ⟨x, hx, k, hk, hplace⟩ := exists_advance_of_mem_join h hi
    obtain ⟨o, ho, -, heq⟩ := (isPhysicalLine_of_mem hx).advance_eq_ofOffset (i := k) (by omega)
    obtain ⟨o', ho', hlast, heq'⟩ := (isPhysicalLine_of_mem hx).advance_eq_ofOffset (i := k + 1) (by omega)
    obtain rfl : o' = o + 1 := by omega
    refine ⟨o, by omega, hplace.trans heq, ?_⟩
    rw [hplace, ← heq']
    unfold Place.advance
    simp only [Place.mk.injEq, true_and]
    omega
  · obtain ⟨x, hx, hends⟩ := exists_endsIn_of_mem_joinFrom (fun p hp => by cases hp) h
    exact ⟨x, isPhysicalLine_of_mem hx, hends⟩

/-! ## Ranges between indices -/

theorem IsPlaced.offset_add_le (h : l.IsPlaced) {i j : Nat} (hij : i ≤ j) :
    (l.place i).offset + ((j : Int) - i) ≤ (l.place j).offset := by
  rw [place_offset, place_offset]
  exact offsetAt_add_le h.inOrder (by rw [h.first_index]; omega) (by omega)

theorem stop_span {i j : Nat} (hij : i < j) : (l.span i j).stop = (l.place ((j - 1 : Nat) : Int)).offset + 1 := by
  have hprev : (j : Int) - 1 = ((j - 1 : Nat) : Int) := by omega
  unfold span
  rw [if_neg (by omega), hprev]
  rfl

theorem IsPlaced.start_lt_stop_span (h : l.IsPlaced) {i j : Nat} (hij : i < j) : (l.span i j).start < (l.span i j).stop := by
  have hle := h.offset_add_le (show i ≤ j - 1 by omega)
  rw [span_start, stop_span hij]
  omega

namespace IsMapped

/-- The end of a logical line is the end of the body of its last physical line. -/
theorem place_length (h : l.IsMapped text) : ∃ o : Nat, o ≤ text.length ∧ l.place l.text.length = .ofOffset text o := by
  obtain ⟨x, hx, before, hbefore, hplace⟩ := h.ends
  obtain ⟨o, -, ho, heq⟩ := hx.advance_eq_ofOffset (Nat.le_refl _)
  refine ⟨o, ho, ?_⟩
  rw [← heq, ← hplace, hbefore, List.length_append]

theorem exists_place_eq (h : l.IsMapped text) {i : Nat} (hi : i ≤ l.text.length) :
    ∃ o : Nat, o ≤ text.length ∧ l.place i = .ofOffset text o := by
  rcases Nat.lt_or_eq_of_le hi with hlt | rfl
  · obtain ⟨o, ho, heq, -⟩ := h.inside i hlt
    exact ⟨o, Nat.le_of_lt ho, heq⟩
  · exact h.place_length

theorem isRange_span (h : l.IsMapped text) {i j : Nat} (hij : i ≤ j) (hj : j ≤ l.text.length) :
    (l.span i j).IsRange text := by
  rcases Nat.lt_or_eq_of_le hij with hlt | rfl
  · obtain ⟨o, -, hstart, -⟩ := h.inside i (by omega)
    obtain ⟨o', ho', hlast, hstop⟩ := h.inside (j - 1) (by omega)
    have hle := h.isPlaced.offset_add_le (show i ≤ j - 1 by omega)
    rw [hstart, hlast] at hle
    replace hle : (o : Int) + (((j - 1 : Nat) : Int) - i) ≤ o' := hle
    have hprev : (j : Int) - 1 = ((j - 1 : Nat) : Int) := by omega
    refine ⟨o, o' + 1, by omega, by omega, ?_⟩
    unfold span
    rw [if_neg (by omega), hprev, hstart, hstop]
  · obtain ⟨o, ho, heq⟩ := h.exists_place_eq hj
    refine ⟨o, o, Nat.le_refl o, ho, ?_⟩
    unfold span
    rw [if_pos (Int.le_refl _), heq]
    rfl

theorem isStretch_span (h : l.IsMapped text) {i j : Nat} (hij : i < j) (hj : j ≤ l.text.length) :
    (l.span i j).IsStretch text :=
  ⟨h.isRange_span (Nat.le_of_lt hij) hj, h.isPlaced.start_lt_stop_span hij⟩

/-- A range that starts in a line may stop behind it, as far behind as the physical line goes on. -/
theorem endsInLine_span_iff (h : l.IsMapped text) {i j : Nat} (hij : i < j) :
    (l.span i j).EndsInLine text ↔ j ≤ l.text.length + (text.restOfLine l.endSpan.start.toNat).length := by
  by_cases hj : j ≤ l.text.length
  · have hinside := (h.isRange_span (Nat.le_of_lt hij) hj).endsInLine
    exact iff_of_true hinside (by omega)
  · obtain ⟨x, hx, before, hbefore, hplace⟩ := h.ends
    have hlength : l.text.length = before.length + (body x.2).length := by
      rw [hbefore, List.length_append]
    obtain ⟨o, ho, -, -⟩ := hx.advance_eq_ofOffset (Nat.le_refl _)
    have hend : l.endSpan.start.toNat = o := by
      have hstart : l.endSpan.start = o := by
        rw [endSpan, span_start, hlength, hplace, ← ho]
        rfl
      rw [hstart, Int.toNat_natCast]
    -- the last index counted from the start of the last physical line
    obtain ⟨m, hm⟩ : ∃ m : Nat, j = before.length + (m + 1) := ⟨j - before.length - 1, by omega⟩
    have hstop : (l.span i j).stop = x.1.offset + (m + 1 : Nat) ∧ (l.span i j).endLine = x.1.line := by
      have hprev : (j : Int) - 1 = ((before.length + m : Nat) : Int) := by omega
      unfold span
      rw [if_neg (by omega), hprev, hplace]
      refine ⟨?_, rfl⟩
      show x.1.offset + m + 1 = _
      omega
    unfold Span.EndsInLine
    rw [hstop.1, hstop.2, hend, hx.feeds_lt_iff ho (by omega)]
    omega

end IsMapped

/-- Ranges of indices that follow each other follow each other in the source. -/
theorem IsPlaced.before_span (h : l.IsPlaced) {i j k m : Nat} (hij : i < j) (hjk : j ≤ k) :
    (l.span i j).Before (l.span k m) := by
  have hle := h.offset_add_le (show j - 1 ≤ k by omega)
  rw [Span.Before, stop_span hij, span_start]
  omega

theorem IsPlaced.within_span (h : l.IsPlaced) {i j k m : Nat} (hki : k ≤ i) (hij : i < j) (hjm : j ≤ m) :
    (l.span i j).Within (l.span k m) := by
  have hstart := h.offset_add_le hki
  have hstop := h.offset_add_le (show j - 1 ≤ m - 1 by omega)
  rw [Span.Within, span_start, span_start, stop_span hij, stop_span (by omega)]
  omega

/-- What one line holds lies before what another one holds. -/
def Precedes (l l' : LogicalLine) : Prop :=
  ∀ i j k m : Nat, i < j → j ≤ l.text.length → k < l'.text.length → (l.span i j).Before (l'.span k m)

theorem pairwise_join (marker commentMark text : Text) :
    (join marker commentMark (physicalLines text)).lines.Pairwise Precedes := by
  have hkept : (List.flatMap _ _).Pairwise _ := (pairwise_keptCells (physicalLines text)).sublist
    (cells_join_isPrefix marker commentMark (physicalLines text)).sublist
  obtain ⟨-, hacross⟩ := List.pairwise_flatMap.mp hkept
  refine hacross.imp fun {l l'} hll' i j k m hij hj hk => ?_
  have hlt := hll' _ (mem_cells (List.getElem?_eq_getElem (show j - 1 < l.text.length by omega)))
    _ (mem_cells (List.getElem?_eq_getElem hk))
  replace hlt : (l.place ((j - 1 : Nat) : Int)).offset < (l'.place k).offset := hlt
  rw [Span.Before, stop_span hij, span_start]
  omega

end LogicalLine
end BrailleTable
