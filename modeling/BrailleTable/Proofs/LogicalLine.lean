/-
The places of joined lines.

The pieces of a logical line lie one after the other in the source, and each but the last ends in the space
that replaced its continuation marker.  So places grow with indices, and two neighbouring indices stand for
neighbouring places unless the first of them is a space.
-/
import BrailleTable.LogicalLine
import BrailleTable.Proofs.Text.Trim

namespace BrailleTable
namespace LogicalLine

/-- Pieces that lie one after the other, each but the last ending in a space. -/
def InOrder (text : Text) : Piece → List Piece → Prop
  | _, [] => True
  | p, q :: rest =>
    p.index < q.index ∧ text[q.index - 1]? = some (' ' : CodePoint) ∧
      p.place.offset + (q.index - p.index) ≤ q.place.offset ∧ InOrder text q rest

/-- A line whose pieces start at its first index and lie in order. -/
structure IsPlaced (l : LogicalLine) : Prop where
  first_index : l.first.index = 0
  inOrder : InOrder l.text l.first l.more

/-- The offset that an index stands for. -/
def offsetAt (index : Int) (p : Piece) (rest : List Piece) : Int :=
  (owner index p rest).place.offset + (index - (owner index p rest).index)

theorem place_offset (l : LogicalLine) (index : Int) :
    (l.place index).offset = offsetAt index l.first l.more := rfl

variable {text : Text} {p : Piece} {rest : List Piece}

/-- Offsets jump forward from piece to piece. -/
theorem le_offsetAt (h : InOrder text p rest) {i : Int} (hi : p.index ≤ i) :
    p.place.offset + (i - p.index) ≤ offsetAt i p rest := by
  induction rest generalizing p with
  | nil => exact Int.le_refl _
  | cons q rest ih =>
    obtain ⟨hpq, -, hplace, hrest⟩ := h
    unfold offsetAt owner
    by_cases hq : (q.index : Int) ≤ i
    · rw [if_pos hq]
      have hle := ih hrest hq
      unfold offsetAt at hle
      omega
    · simp only [if_neg hq, Int.le_refl]

/-- Places grow at least as fast as indices. -/
theorem offsetAt_add_le (h : InOrder text p rest) {i j : Int} (hi : p.index ≤ i) (hij : i ≤ j) :
    offsetAt i p rest + (j - i) ≤ offsetAt j p rest := by
  induction rest generalizing p with
  | nil =>
    show p.place.offset + (i - p.index) + (j - i) ≤ p.place.offset + (j - p.index)
    omega
  | cons q rest ih =>
    obtain ⟨hpq, -, hplace, hrest⟩ := h
    by_cases hq : (q.index : Int) ≤ i
    · have hle := ih hrest hq
      unfold offsetAt owner
      rw [if_pos hq, if_pos (Int.le_trans hq hij)]
      exact hle
    · by_cases hj : (q.index : Int) ≤ j
      · have hle := le_offsetAt hrest hj
        unfold offsetAt at hle
        unfold offsetAt owner
        rw [if_neg hq, if_pos hj]
        omega
      · unfold offsetAt owner
        rw [if_neg hq, if_neg hj]
        omega

/-- The index after one that is no space stands for the next place. -/
theorem offsetAt_succ (h : InOrder text p rest) {i : Nat} (hi : p.index ≤ i)
    (hspace : text[i]? ≠ some (' ' : CodePoint)) :
    offsetAt ((i + 1 : Nat) : Int) p rest = offsetAt (i : Nat) p rest + 1 := by
  induction rest generalizing p with
  | nil =>
    show p.place.offset + (((i + 1 : Nat) : Int) - p.index) = p.place.offset + ((i : Int) - p.index) + 1
    omega
  | cons q rest ih =>
    obtain ⟨hpq, hlast, hplace, hrest⟩ := h
    have hne : q.index ≠ i + 1 := by
      intro heq
      rw [heq] at hlast
      exact hspace hlast
    by_cases hq : q.index ≤ i
    · have heq := ih hrest hq
      unfold offsetAt owner
      rw [if_pos (by omega), if_pos (by omega)]
      exact heq
    · unfold offsetAt owner
      rw [if_neg (by omega), if_neg (by omega)]
      omega

/-! ## Spans -/

theorem span_start (l : LogicalLine) (i j : Int) : (l.span i j).start = (l.place i).offset := by
  unfold span
  by_cases h : j ≤ i
  · rw [if_pos h]
    rfl
  · rw [if_neg h]
    rfl

/-- A range that starts inside another one, or at its end after a code point that is no space, starts
between the places where the other starts and stops. -/
theorem IsPlaced.span_start_mem {l : LogicalLine} (h : l.IsPlaced) {i k stop : Nat} (hik : i ≤ k)
    (hk : k ≤ stop) (hlt : i < stop) (hspace : l.text[stop - 1]? ≠ some (' ' : CodePoint)) (j : Int) :
    (l.span i stop).start ≤ (l.span k j).start ∧ (l.span k j).start ≤ (l.span i stop).stop := by
  have hzero : ∀ n : Nat, (l.first.index : Int) ≤ n := by
    intro n
    rw [h.first_index]
    omega
  rw [span_start, span_start]
  have hstop : (l.span i stop).stop = (l.place ((stop : Int) - 1)).offset + 1 := by
    unfold span
    rw [if_neg (by omega)]
    rfl
  have hprev : (stop : Int) - 1 = ((stop - 1 : Nat) : Int) := by omega
  rw [hstop, hprev]
  simp only [place_offset]
  refine ⟨?_, ?_⟩
  · have hle := offsetAt_add_le h.inOrder (hzero i) (show (i : Int) ≤ k by omega)
    omega
  · by_cases hkstop : k = stop
    · have hsucc := offsetAt_succ h.inOrder (i := stop - 1) (by rw [h.first_index]; omega) hspace
      have hone : stop - 1 + 1 = stop := by omega
      rw [hone] at hsucc
      rw [hkstop]
      exact Int.le_of_eq hsucc
    · have hle := offsetAt_add_le h.inOrder (hzero k) (show (k : Int) ≤ ((stop - 1 : Nat) : Int) by omega)
      omega

/-! ## Joining -/

theorem InOrder.append_text (h : InOrder text p rest) (more : Text) :
    InOrder (text ++ more) p rest := by
  induction rest generalizing p with
  | nil => trivial
  | cons q rest ih =>
    obtain ⟨hpq, hlast, hplace, hrest⟩ := h
    obtain ⟨hlt, -⟩ := List.getElem?_eq_some_iff.mp hlast
    refine ⟨hpq, ?_, hplace, ih hrest⟩
    rw [List.getElem?_append_left hlt, hlast]

/-- The last of the pieces of a line. -/
def lastPiece : Piece → List Piece → Piece
  | p, [] => p
  | _, q :: rest => lastPiece q rest

theorem lastPiece_append_singleton (p q : Piece) (rest : List Piece) :
    lastPiece p (rest ++ [q]) = q := by
  induction rest generalizing p with
  | nil => rfl
  | cons r rest ih => exact ih r

theorem InOrder.append_piece (h : InOrder text p rest) {q : Piece}
    (hindex : (lastPiece p rest).index < q.index)
    (hlast : text[q.index - 1]? = some (' ' : CodePoint))
    (hplace : (lastPiece p rest).place.offset + (q.index - (lastPiece p rest).index) ≤ q.place.offset) :
    InOrder text p (rest ++ [q]) := by
  induction rest generalizing p with
  | nil => exact ⟨hindex, hlast, hplace, trivial⟩
  | cons r rest ih =>
    obtain ⟨hpr, hlast', hplace', hrest⟩ := h
    exact ⟨hpr, hlast', hplace', ih hrest hindex hplace⟩

/-- A pending line is in order, ends in a space, and ends before `offset`. -/
structure Pending.Fits (pending : Pending) (offset : Nat) : Prop where
  isPlaced : pending.line.IsPlaced
  last_space : pending.line.text[pending.line.text.length - 1]? = some (' ' : CodePoint)
  last_index : (lastPiece pending.line.first pending.line.more).index < pending.line.text.length
  last_offset : (lastPiece pending.line.first pending.line.more).place.offset +
    (pending.line.text.length - (lastPiece pending.line.first pending.line.more).index) ≤ offset

/-- The piece that a line is extended by becomes its last one. -/
theorem extend_spec {pending : Option Pending} {offset : Nat}
    (h : ∀ p ∈ pending, p.Fits offset) (start : Place) (hstart : start.offset = offset) (text : Text) :
    (extend pending start text).IsPlaced ∧
      ∃ before : Text, (extend pending start text).text = before ++ text ∧
        lastPiece (extend pending start text).first (extend pending start text).more =
          ⟨before.length, start⟩ := by
  cases pending with
  | none => exact ⟨⟨rfl, trivial⟩, [], rfl, rfl⟩
  | some p =>
    have hp := h p rfl
    refine ⟨⟨hp.isPlaced.first_index, ?_⟩, p.line.text, rfl, lastPiece_append_singleton _ _ _⟩
    have hindex : 0 < p.line.text.length := Nat.lt_of_le_of_lt (Nat.zero_le _) hp.last_index
    refine (hp.isPlaced.inOrder.append_text text).append_piece hp.last_index ?_ ?_
    · show (p.line.text ++ text)[p.line.text.length - 1]? = some (' ' : CodePoint)
      rw [List.getElem?_append_left (by omega), hp.last_space]
    · show _ ≤ start.offset
      rw [hstart]
      exact hp.last_offset

theorem length_body_le (raw : Text) : (body raw).length ≤ raw.length := by
  unfold body
  split
  · exact Text.length_trimEnd_le raw
  · exact Text.length_trimEnd_le raw

theorem length_le_width (raw : Text) : raw.length ≤ width raw := by
  unfold width
  split <;> omega

/-- A marker takes up at least one code point of the line it ends. -/
theorem lt_length_of_continues {marker stripped : Text} (h : continues marker stripped = true) :
    stripped.length - marker.length < stripped.length := by
  unfold continues at h
  rw [Bool.and_eq_true, Bool.and_eq_true, decide_eq_true_iff] at h
  have hpos : 0 < marker.length := List.length_pos_of_ne_nil h.1.1
  have hle : marker.length ≤ stripped.length := (List.isSuffixOf_iff_suffix.mp h.1.2).length_le
  omega

theorem isPlaced_of_mem_joinFrom {marker commentMark : Text} {raws : List Text} {count offset : Nat}
    {pending : Option Pending} (hpending : ∀ p ∈ pending, p.Fits offset) {l : LogicalLine}
    (h : l ∈ (joinFrom marker commentMark count offset pending raws).lines) : l.IsPlaced := by
  induction raws generalizing count offset pending with
  | nil => exact absurd h List.not_mem_nil
  | cons raw raws ih =>
    unfold joinFrom at h
    have hbody := length_body_le raw
    have hwidth := length_le_width raw
    have hstripped : (Text.stripRight (body raw)).length ≤ (body raw).length :=
      Text.length_trimEnd_le (body raw)
    dsimp only at h
    split at h
    · rename_i hcont
      rw [Bool.and_eq_true] at hcont
      have hcut := lt_length_of_continues hcont.2
      refine ih ?_ h
      intro p hp
      cases hp
      generalize hc : (Text.stripRight (body raw)).length - marker.length = cut at hcut ⊢
      obtain ⟨hplaced, before, htext, hlast⟩ :=
        extend_spec hpending ⟨count + 1, 1, offset⟩ rfl ((body raw).take cut ++ " ")
      have hlength : (before ++ ((body raw).take cut ++ Text.ofString " ")).length =
          before.length + cut + 1 := by
        rw [List.length_append, List.length_append, List.length_take]
        show before.length + (min cut (body raw).length + 1) = before.length + cut + 1
        omega
      -- the marker took up at least one code point, so the space put in its place stays inside the source
      refine ⟨hplaced, ?_, ?_, ?_⟩
      · show (extend pending _ _).text[(extend pending _ _).text.length - 1]? = _
        rw [htext, hlength, ← List.append_assoc, Nat.add_sub_cancel,
          List.getElem?_append_right (by rw [List.length_append, List.length_take]; omega),
          List.length_append, List.length_take, Nat.min_eq_left (by omega), Nat.sub_self]
        rfl
      · show (lastPiece _ _).index < (extend pending _ _).text.length
        rw [hlast, htext, hlength]
        show before.length < _
        omega
      · show (lastPiece _ _).place.offset + _ ≤ _
        rw [hlast, htext, hlength]
        show (offset : Int) + (((before.length + cut + 1 : Nat) : Int) - before.length) ≤
          ((offset + width raw : Nat) : Int)
        omega
    · rcases List.mem_cons.mp h with rfl | h
      · exact (extend_spec hpending ⟨count + 1, 1, offset⟩ rfl (body raw)).1
      · exact ih (fun p hp => by cases hp) h

theorem isPlaced_of_mem_join {marker commentMark : Text} {raws : List Text} {l : LogicalLine}
    (h : l ∈ (join marker commentMark raws).lines) : l.IsPlaced :=
  isPlaced_of_mem_joinFrom (fun p hp => by cases hp) h

theorem isPlaced_single (text : Text) (place : Place) : (single text place).IsPlaced := ⟨rfl, trivial⟩

/-- The lines that are cut into tokens: a text by itself, and the lines that physical lines are joined to. -/
inductive IsSource : LogicalLine → Prop
  | single (text : Text) (place : Place) : IsSource (.single text place)
  | joined {marker commentMark : Text} {raws : List Text} {l : LogicalLine} :
      l ∈ (join marker commentMark raws).lines → IsSource l

theorem IsSource.isPlaced {l : LogicalLine} (h : l.IsSource) : l.IsPlaced := by
  cases h with
  | single text place => exact isPlaced_single text place
  | joined h => exact isPlaced_of_mem_join h

end LogicalLine
end BrailleTable
