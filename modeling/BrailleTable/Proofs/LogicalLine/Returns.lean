/-
Carriage returns before line feeds.

Putting a carriage return before every line feed changes the endings of physical lines and nothing else of them, so the
same lines are joined.  A place moves by one code point for each line before its own.  Inside one logical line the offset
alone tells which physical line it belongs to (`lineAt`), because a gap is left between pieces where the marker and the
line ending stood; so offsets keep their order, and each line is a `Relocation` of its counterpart.
-/
import BrailleTable.Proofs.LogicalLine.Motion
import BrailleTable.Proofs.LogicalLine.Ranges

namespace BrailleTable

/-! ## Texts and physical lines -/

namespace Text

/-- The text with a carriage return before every line feed. -/
def withReturns (t : Text) : Text := t.flatMap fun c : CodePoint => if c = '\n' then [('\r' : CodePoint), c] else [c]

theorem withReturns_append (a b : Text) : (a ++ b).withReturns = a.withReturns ++ b.withReturns := by
  simp [withReturns]

theorem withReturns_cons_of_ne {c : CodePoint} (h : c ≠ '\n') (rest : Text) :
    withReturns (c :: rest) = c :: rest.withReturns := by
  simp [withReturns, h]

theorem withReturns_eq_self {t : Text} (h : ('\n' : CodePoint) ∉ t) : t.withReturns = t := by
  induction t with
  | nil => rfl
  | cons c rest ih =>
    rw [List.mem_cons, not_or] at h
    rw [withReturns_cons_of_ne (Ne.symm h.1), ih h.2]

end Text

theorem physicalLines_withReturns (t : Text) : physicalLines t.withReturns = (physicalLines t).map Text.withReturns := by
  induction t with
  | nil => rfl
  | cons c rest ih =>
    by_cases hc : c = '\n'
    · subst hc
      show physicalLines ('\r' :: '\n' :: Text.withReturns rest) = _
      simp only [physicalLines, ih]
      rfl
    · rw [Text.withReturns_cons_of_ne hc, physicalLines, physicalLines, if_neg hc, if_neg hc, ih]
      cases physicalLines rest with
      | nil => simp [Text.withReturns, hc]
      | cons line more => simp [Text.withReturns_cons_of_ne hc]

namespace LogicalLine

variable {raw : Text}

theorem withReturns_of_getLast? (hlast : raw.getLast? = some ('\n' : CodePoint))
    (hfeed : ('\n' : CodePoint) ∉ raw.dropLast) : raw.withReturns = raw.dropLast ++ "\r\n" := by
  obtain ⟨init, rfl⟩ := List.getLast?_eq_some_iff.mp hlast
  rw [List.dropLast_concat] at hfeed ⊢
  rw [Text.withReturns_append, Text.withReturns_eq_self hfeed]
  rfl

theorem body_withReturns (hfeed : ('\n' : CodePoint) ∉ raw.dropLast) : body raw.withReturns = body raw := by
  by_cases hlast : raw.getLast? = some ('\n' : CodePoint)
  · have hraw : raw = raw.dropLast ++ "\n" := (List.dropLast_append_getLast? _ hlast).symm
    have hreturn : raw.withReturns = (raw.dropLast ++ "\r") ++ "\n" := by
      rw [withReturns_of_getLast? hlast hfeed, List.append_assoc]
      rfl
    rw [hreturn, body_append_feed, Text.trimEnd_append_of_all (by decide), ← body_append_feed, ← hraw]
  · rw [Text.withReturns_eq_self (not_mem_of_getLast?_ne hfeed hlast)]

theorem width_withReturns (hlast : raw.getLast? = some ('\n' : CodePoint))
    (hfeed : ('\n' : CodePoint) ∉ raw.dropLast) : width raw.withReturns = width raw + 1 := by
  have hreturn := withReturns_of_getLast? hlast hfeed
  have hlast' : raw.withReturns.getLast? = some ('\n' : CodePoint) := by
    rw [hreturn]
    exact List.getLast?_append_of_ne_nil _ (by decide)
  have hlength : raw.dropLast.length + 1 = raw.length := by
    obtain ⟨init, rfl⟩ := List.getLast?_eq_some_iff.mp hlast
    simp
  rw [width_of_getLast? hlast, width_of_getLast? hlast', hreturn, List.length_append, ← hlength]
  rfl

end LogicalLine

/-! ## Places -/

/-- The place after the carriage returns of all lines before its own. -/
def Place.withReturns (p : Place) : Place := { p with offset := p.offset + (p.line - 1) }

def Span.withReturns (s : Span) : Span :=
  { s with start := s.start + (s.line - 1), stop := s.stop + (s.endLine - 1) }

def Motion.returns : Motion where
  place := Place.withReturns
  span := Span.withReturns
  advance_place := fun p n => by
    simp only [Place.withReturns, Place.advance, Place.mk.injEq, true_and]
    omega
  between_place := fun _ _ => rfl

namespace LogicalLine

theorem takes_physicalLines_withReturns (text : Text) (count offset : Nat) :
    List.Forall₂ Motion.returns.Takes (placeLines count offset (physicalLines text))
      (placeLines count (offset + count) (physicalLines text.withReturns)) := by
  rw [physicalLines_withReturns]
  generalize hraws : physicalLines text = raws
  induction raws generalizing text count offset with
  | nil => exact .nil
  | cons raw raws ih =>
    obtain ⟨rest, -, hrest, hfeed, hlast⟩ := physicalLines_eq_cons hraws
    have hstart : Place.mk (count + 1) 1 ((offset + count : Nat) : Int) =
        Place.withReturns ⟨count + 1, 1, offset⟩ := by
      simp only [Place.withReturns, Place.mk.injEq, true_and]
      omega
    refine .cons ⟨hstart, body_withReturns hfeed⟩ ?_
    rcases hlast with rfl | hlast
    · -- nothing follows a line that lacks its line feed, so its width does not count
      cases hrest
      exact .nil
    · have hoffset : offset + count + width raw.withReturns = offset + width raw + (count + 1) := by
        rw [width_withReturns hlast hfeed]
        omega
      show List.Forall₂ _ _ (placeLines (count + 1) (offset + count + width raw.withReturns) _)
      rw [hoffset]
      exact ih rest (count + 1) (offset + width raw) hrest

/-- With carriage returns the same lines are joined, each place after the returns before it. -/
theorem join_withReturns (marker commentMark text : Text) :
    join marker commentMark (physicalLines text.withReturns) =
      (join marker commentMark (physicalLines text)).move .returns :=
  joinFrom_move marker commentMark (takes_physicalLines_withReturns text 0 0) none

end LogicalLine

/-! ## The gaps between pieces -/

/-- A piece of a later physical line, with at least one code point of the source left out in between. -/
def Piece.Behind (p q : Piece) : Prop :=
  p.place.line ≤ q.place.line ∧ p.place.offset + (q.index - p.index) < q.place.offset

namespace LogicalLine

def IsStepped (l : LogicalLine) : Prop := l.pieces.Pairwise Piece.Behind

/-- A line that a physical line at this place may continue. -/
def Pending.PrecedesAt (p : Pending) (start : Place) : Prop :=
  (p.line.pieces ++ [Piece.mk p.line.text.length start]).Pairwise Piece.Behind

variable {marker commentMark : Text} {pending : Option Pending} {start : Place}

theorem isStepped_extend (h : ∀ p ∈ pending, p.PrecedesAt start) (text : Text) :
    (extend pending start text).IsStepped := by
  cases pending with
  | none => exact List.pairwise_singleton _ _
  | some p => exact h p rfl

theorem length_body_lt_width (raw : Text) : (body raw).length < width raw := by
  by_cases hlast : raw.getLast? = some ('\n' : CodePoint)
  · obtain ⟨init, rfl⟩ := List.getLast?_eq_some_iff.mp hlast
    have hbody : body (init ++ "\n") = Text.trimEnd _ init := body_append_feed init
    have hle : (body (init ++ "\n")).length ≤ init.length := hbody ▸ Text.length_trimEnd_le init
    rw [width_of_getLast? hlast, List.length_append]
    exact Nat.lt_succ_of_le hle
  · have hle := length_body_le raw
    unfold width
    rw [if_neg hlast]
    omega

/-- The width of a physical line is more than what is kept of it, so a gap is left behind its piece. -/
theorem precedesAt_extend {count offset : Nat} (h : ∀ p ∈ pending, p.PrecedesAt ⟨count + 1, 1, offset⟩) (raw : Text)
    (marked : Place) :
    Pending.PrecedesAt ⟨extend pending ⟨count + 1, 1, offset⟩ (kept marker commentMark raw), marked⟩
      ⟨(count + 1 : Nat) + 1, 1, (offset + width raw : Nat)⟩ := by
  have hkept := length_kept_le marker commentMark raw
  have hwidth := length_body_lt_width raw
  refine List.pairwise_append.mpr ⟨isStepped_extend h _, List.pairwise_singleton _ _, fun q hq next hnext => ?_⟩
  rw [List.mem_singleton.mp hnext]
  cases pending with
  | none =>
    obtain rfl := List.mem_singleton.mp hq
    show (count : Int) + 1 ≤ (count + 1 : Nat) + 1 ∧
      (offset : Int) + ((kept marker commentMark raw).length - (0 : Nat)) < (offset + width raw : Nat)
    omega
  | some p =>
    have hlength : (p.line.text ++ kept marker commentMark raw).length =
        p.line.text.length + (kept marker commentMark raw).length := List.length_append
    obtain ⟨-, -, hbefore⟩ := List.pairwise_append.mp (h p rfl)
    replace hq : q ∈ p.line.pieces ++ [⟨p.line.text.length, ⟨count + 1, 1, offset⟩⟩] := hq
    show q.place.line ≤ (count + 1 : Nat) + 1 ∧
      q.place.offset + ((p.line.text ++ kept marker commentMark raw).length - q.index) < (offset + width raw : Nat)
    rcases List.mem_append.mp hq with hq | hq
    · have hbehind : q.place.line ≤ count + 1 ∧ q.place.offset + (p.line.text.length - q.index) < offset :=
        hbefore q hq _ (List.mem_singleton_self _)
      omega
    · obtain rfl := List.mem_singleton.mp hq
      dsimp only
      omega

theorem isStepped_of_mem_joinFrom {raws : List Text} {count offset : Nat}
    (hpending : ∀ p ∈ pending, p.PrecedesAt ⟨count + 1, 1, offset⟩) {l : LogicalLine}
    (h : l ∈ (joinFrom marker commentMark count offset pending raws).lines) : l.IsStepped := by
  induction raws generalizing count offset pending with
  | nil => cases h
  | cons raw raws ih =>
    by_cases hcont : isContinued marker commentMark raw = true
    · rw [joinFrom_of_isContinued hcont] at h
      refine ih (fun p hp => ?_) h
      cases hp
      exact precedesAt_extend hpending raw _
    · rw [joinFrom_of_not_isContinued hcont] at h
      rcases List.mem_cons.mp h with rfl | h
      · exact isStepped_extend hpending _
      · exact ih (fun p hp => by cases hp) h

/-! ## Lines of offsets -/

/-- The line of the last of the pieces that begin at or before an offset; that of the first piece if none does. -/
def lineAt (offset : Int) : Piece → List Piece → Int
  | p, [] => p.place.line
  | p, q :: rest => if q.place.offset ≤ offset then lineAt offset q rest else p.place.line

section Stepped

variable {text : Text} {p : Piece} {rest : List Piece}

theorem le_lineAt (h : (p :: rest).Pairwise Piece.Behind) (o : Int) : p.place.line ≤ lineAt o p rest := by
  induction rest generalizing p with
  | nil => exact Int.le_refl _
  | cons q rest ih =>
    obtain ⟨hbehind, hrest⟩ := List.pairwise_cons.mp h
    unfold lineAt
    split
    · exact Int.le_trans (hbehind q List.mem_cons_self).1 (ih hrest)
    · exact Int.le_refl _

theorem lineAt_mono (h : (p :: rest).Pairwise Piece.Behind) {o o' : Int} (ho : o ≤ o') :
    lineAt o p rest ≤ lineAt o' p rest := by
  induction rest generalizing p with
  | nil => exact Int.le_refl _
  | cons q rest ih =>
    obtain ⟨hbehind, hrest⟩ := List.pairwise_cons.mp h
    have hline := (hbehind q List.mem_cons_self).1
    unfold lineAt
    by_cases hq : q.place.offset ≤ o
    · rw [if_pos hq, if_pos (Int.le_trans hq ho)]
      exact ih hrest
    · rw [if_neg hq]
      split
      · exact Int.le_trans hline (le_lineAt hrest o')
      · exact Int.le_refl _

/-- The offset of an index, and the one after it, lie in the line of its piece. -/
theorem lineAt_offsetAt (hplaced : InOrder text p rest) (hstepped : (p :: rest).Pairwise Piece.Behind) (i : Int)
    {e : Int} (he : 0 ≤ e) (he' : e ≤ 1) :
    lineAt (offsetAt i p rest + e) p rest = (owner i p rest).place.line := by
  induction rest generalizing p with
  | nil => rfl
  | cons q rest ih =>
    obtain ⟨-, -, -, hplaced'⟩ := hplaced
    obtain ⟨hbehind, hstepped'⟩ := List.pairwise_cons.mp hstepped
    have hgap := (hbehind q List.mem_cons_self).2
    by_cases hq : (q.index : Int) ≤ i
    · have howner : owner i p (q :: rest) = owner i q rest := if_pos hq
      have hoffset : offsetAt i p (q :: rest) = offsetAt i q rest := by
        unfold offsetAt
        rw [howner]
      have hle := le_offsetAt hplaced' hq
      rw [howner, hoffset, lineAt, if_pos (by omega)]
      exact ih hplaced' hstepped'
    · have howner : owner i p (q :: rest) = p := if_neg hq
      have hoffset : offsetAt i p (q :: rest) = p.place.offset + (i - p.index) := by
        unfold offsetAt
        rw [howner]
      rw [howner, hoffset, lineAt, if_neg (by omega)]

end Stepped

variable {l : LogicalLine}

theorem lineAt_place (hplaced : l.IsPlaced) (hstepped : l.IsStepped) (i : Int) {e : Int} (he : 0 ≤ e) (he' : e ≤ 1) :
    lineAt ((l.place i).offset + e) l.first l.more = (l.place i).line :=
  lineAt_offsetAt hplaced.inOrder hstepped i he he'

/-- The offset, counted with the carriage returns before the line it lies in. -/
def offsetWithReturns (l : LogicalLine) (o : Int) : Int := o + (lineAt o l.first l.more - 1)

theorem offsetWithReturns_le (h : l.IsStepped) (a b : Int) :
    l.offsetWithReturns a ≤ l.offsetWithReturns b ↔ a ≤ b := by
  unfold offsetWithReturns
  constructor
  · intro hle
    by_contra hlt
    have hline := lineAt_mono h (show b ≤ a by omega)
    omega
  · intro hle
    have hline := lineAt_mono h hle
    omega

theorem span_withReturns (hplaced : l.IsPlaced) (hstepped : l.IsStepped) (i j : Int) :
    (l.span i j).withReturns = (l.span i j).carry l.offsetWithReturns id := by
  have hstart := lineAt_place hplaced hstepped i (Int.le_refl 0) (by decide)
  have hstop := lineAt_place hplaced hstepped (j - 1) (by decide) (Int.le_refl 1)
  rw [Int.add_zero] at hstart
  unfold span
  split
  · simp [Span.point, Span.withReturns, Span.carry, offsetWithReturns, hstart]
  · simp [Span.between, Span.withReturns, Span.carry, offsetWithReturns, Place.advance, hstart, hstop]

/-- A line joined from a text stands elsewhere in the text with carriage returns. -/
def returnsRelocation (hplaced : l.IsPlaced) (hstepped : l.IsStepped) : Relocation where
  line := l
  image := l.move .returns
  offset := l.offsetWithReturns
  row := id
  text_eq := rfl
  span_eq := fun i j => (l.span_move .returns i j).trans (span_withReturns hplaced hstepped i j)
  offset_le := offsetWithReturns_le hstepped

end LogicalLine
end BrailleTable
