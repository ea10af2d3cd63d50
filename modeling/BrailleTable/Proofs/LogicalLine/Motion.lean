/-
Lines whose places have moved.

A `Motion` takes each place of a source to a place of another one and commutes with counting columns.  Joining looks at
the bodies of physical lines only, so physical lines with the same bodies are joined into the same logical lines, at the
places that the motion takes theirs to.
-/
import BrailleTable.Proofs.LogicalLine.SourceMap
import BrailleTable.Proofs.Relocation
import Mathlib.Data.List.Forall2

namespace BrailleTable

/-- Where the places and the ranges of a source are found in another one. -/
structure Motion where
  place : Place → Place
  span : Span → Span
  advance_place : ∀ p n, (place p).advance n = place (p.advance n)
  between_place : ∀ p q, Span.between (place p) (place q) = span (.between p q)

/-- A physical line that the motion takes another one to.  Only its ending may be another. -/
def Motion.Takes (m : Motion) (x y : Place × Text) : Prop :=
  y.1 = m.place x.1 ∧ LogicalLine.body y.2 = LogicalLine.body x.2

def Piece.move (m : Motion) (p : Piece) : Piece := { p with place := m.place p.place }

namespace LogicalLine

/-! ## Places of a line -/

variable (m : Motion)

def move (m : Motion) (l : LogicalLine) : LogicalLine :=
  { l with first := l.first.move m, more := l.more.map (Piece.move m) }

theorem owner_move (index : Int) (p : Piece) (rest : List Piece) :
    owner index (p.move m) (rest.map (Piece.move m)) = (owner index p rest).move m := by
  induction rest generalizing p with
  | nil => rfl
  | cons q rest ih =>
    rw [List.map_cons, owner, owner]
    show (if (q.index : Int) ≤ index then _ else _) = Piece.move m (if (q.index : Int) ≤ index then _ else _)
    split
    · exact ih q
    · rfl

theorem place_move (l : LogicalLine) (index : Int) : (l.move m).place index = m.place (l.place index) := by
  unfold place
  rw [← m.advance_place]
  exact congrArg (fun p : Piece => p.place.advance (index - p.index)) (owner_move m index l.first l.more)

theorem span_move (l : LogicalLine) (i j : Int) : (l.move m).span i j = m.span (l.span i j) := by
  unfold span
  rw [place_move, place_move, m.advance_place]
  split
  · exact m.between_place _ _
  · exact m.between_place _ _

/-! ## Joining -/

def Pending.move (m : Motion) (p : Pending) : Pending := ⟨p.line.move m, m.place p.marker⟩

def Joined.move (m : Motion) (j : Joined) : Joined :=
  ⟨j.lines.map (LogicalLine.move m), j.dangling.map (ParseError.map m.span)⟩

theorem extend_move (pending : Option Pending) (start : Place) (text : Text) :
    extend (pending.map (Pending.move m)) (m.place start) text = (extend pending start text).move m := by
  cases pending with
  | none => rfl
  | some p =>
    simp only [extend, Option.map_some, Pending.move, move, List.map_append]
    rfl

theorem dangling_move (marker : Text) (p : Place) : dangling marker (m.place p) = (dangling marker p).map m.span := by
  unfold dangling
  rw [m.advance_place, m.between_place]
  rfl

variable {m} (marker commentMark : Text)

theorem joinFrom_move {raws raws' : List Text} {count offset count' offset' : Nat}
    (h : List.Forall₂ m.Takes (placeLines count offset raws) (placeLines count' offset' raws'))
    (pending : Option Pending) :
    joinFrom marker commentMark count' offset' (pending.map (Pending.move m)) raws' =
      (joinFrom marker commentMark count offset pending raws).move m := by
  induction raws generalizing raws' count offset count' offset' pending with
  | nil =>
    cases raws' with
    | cons raw' raws' => cases h
    | nil =>
      cases pending with
      | none => rfl
      | some p => exact congrArg (fun e => Joined.mk [] (some e)) (dangling_move m marker p.marker)
  | cons raw raws ih =>
    cases raws' with
    | nil => cases h
    | cons raw' raws' =>
      obtain ⟨⟨hstart, hbody⟩, hrest⟩ := List.forall₂_cons.mp h
      replace hstart : Place.mk (count' + 1) 1 offset' = m.place ⟨count + 1, 1, offset⟩ := hstart
      replace hbody : body raw' = body raw := hbody
      -- all that joining asks of a physical line it asks of the body
      have hcontinued : isContinued marker commentMark raw' = isContinued marker commentMark raw := by
        unfold isContinued
        rw [hbody]
      have hcut : cutAt marker raw' = cutAt marker raw := by
        unfold cutAt
        rw [hbody]
      have hkept : kept marker commentMark raw' = kept marker commentMark raw := by
        unfold kept
        rw [hcontinued, hbody, hcut]
      by_cases hcont : isContinued marker commentMark raw = true
      · rw [joinFrom_of_isContinued hcont, joinFrom_of_isContinued (hcontinued.trans hcont), ← ih hrest, hstart, hkept,
          hcut, extend_move, m.advance_place]
        rfl
      · have hnone := ih hrest none
        rw [Option.map_none] at hnone
        rw [joinFrom_of_not_isContinued hcont, joinFrom_of_not_isContinued (hcontinued ▸ hcont), hnone, hstart, hkept,
          extend_move]
        rfl

end LogicalLine
end BrailleTable
