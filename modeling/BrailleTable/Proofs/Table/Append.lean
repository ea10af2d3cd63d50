/-
Tables compose line by line.

A text that ends with a line and leaves no marker open has no part in what follows it: joining starts afresh behind it,
except for the lines and code points it has counted, and the lexer forgets it as it forgets every line.  So a table put
behind an accepted one is read as it is read alone, with all its places moved.
-/
import BrailleTable.Proofs.LogicalLine.SourceMap
import BrailleTable.Proofs.Shift

namespace BrailleTable

/-- How far a text is moved that is put behind another one. -/
def Shift.past (t : Text) : Shift := ⟨t.feeds, t.length⟩

/-! ## Joining -/

theorem Text.EndsLine.of_append {a b : Text} (h : Text.EndsLine (a ++ b)) : b.EndsLine := by
  by_cases hb : b = []
  · exact .inl hb
  · rcases h with hnil | hlast
    · exact .inl (List.append_eq_nil_iff.mp hnil).2
    · rw [List.getLast?_append_of_ne_nil a hb] at hlast
      exact .inr hlast

/-- The physical lines of a text behind a whole line. -/
theorem physicalLines_append_of_getLast? {raw : Text} (hlast : raw.getLast? = some ('\n' : CodePoint))
    (hfeed : ('\n' : CodePoint) ∉ raw.dropLast) (rest : Text) :
    physicalLines (raw ++ rest) = raw :: physicalLines rest := by
  obtain ⟨init, rfl⟩ := List.getLast?_eq_some_iff.mp hlast
  rw [List.dropLast_concat] at hfeed
  rw [List.append_assoc, List.singleton_append, physicalLines_append hfeed]

namespace LogicalLine

variable {marker commentMark : Text}

/-- Behind lines that leave no marker open, joining goes on as if nothing were before but their number and length. -/
theorem joinFrom_append {a : Text} (ha : a.EndsLine) (b : Text) {count offset : Nat} {pending : Option Pending}
    (h : (joinFrom marker commentMark count offset pending (physicalLines a)).dangling = none) :
    joinFrom marker commentMark count offset pending (physicalLines (a ++ b)) =
      ⟨(joinFrom marker commentMark count offset pending (physicalLines a)).lines ++
          (joinFrom marker commentMark (count + a.feeds) (offset + a.length) none (physicalLines b)).lines,
        (joinFrom marker commentMark (count + a.feeds) (offset + a.length) none (physicalLines b)).dangling⟩ := by
  -- The induction is on the physical lines of `a`.  Each of them ends in a line feed, so each is a line of `a ++ b` too.
  generalize hraws : physicalLines a = raws at h
  induction raws generalizing a count offset pending with
  | nil =>
    cases pending with
    | none =>
      rw [physicalLines_eq_nil hraws]
      rfl
    | some p => cases h
  | cons raw raws ih =>
    obtain ⟨rest, rfl, hrest, hfeed, hlast⟩ := physicalLines_eq_cons hraws
    have hraw : raw.getLast? = some ('\n' : CodePoint) := by
      rcases hlast with rfl | hlast
      · rw [List.append_nil] at ha hraws
        rcases ha with rfl | ha
        · cases hraws
        · exact ha
      · exact hlast
    have hfeeds : (raw ++ rest).feeds = 1 + rest.feeds := by
      rw [Text.feeds_append, feeds_of_getLast? hraw hfeed]
    have hlength : (raw ++ rest).length = width raw + rest.length := by
      rw [List.length_append, width_of_getLast? hraw]
    rw [List.append_assoc, physicalLines_append_of_getLast? hraw hfeed, hfeeds, hlength, ← Nat.add_assoc,
      ← Nat.add_assoc]
    by_cases hcont : isContinued marker commentMark raw = true
    · rw [joinFrom_of_isContinued hcont] at h
      rw [joinFrom_of_isContinued hcont, joinFrom_of_isContinued hcont]
      exact ih ha.of_append hrest h
    · rw [joinFrom_of_not_isContinued hcont] at h
      rw [joinFrom_of_not_isContinued hcont, joinFrom_of_not_isContinued hcont, ih ha.of_append hrest h]
      rfl

theorem takes_placeLines (lines offset' count offset : Nat) (raws : List Text) :
    List.Forall₂ (Shift.motion ⟨lines, offset'⟩).Takes (placeLines count offset raws)
      (placeLines (count + lines) (offset + offset') raws) := by
  induction raws generalizing count offset with
  | nil => exact .nil
  | cons raw raws ih =>
    have hstart : Place.mk (((count + lines : Nat) : Int) + 1) 1 ((offset + offset' : Nat) : Int) =
        Place.shift ⟨lines, offset'⟩ ⟨count + 1, 1, offset⟩ := by
      simp only [Place.shift, Place.mk.injEq, true_and]
      omega
    have hrest := ih (count + 1) (offset + width raw)
    rw [Nat.add_right_comm count, Nat.add_right_comm offset] at hrest
    exact .cons ⟨hstart, rfl⟩ hrest

end LogicalLine

/-! ## Reading -/

namespace Table

variable {d : Dialect} {lx : Lexer} {t₁ : Text}

theorem joined_append (hend : t₁.EndsLine) (h : (joined d t₁).dangling = none) (t₂ : Text) :
    joined d (t₁ ++ t₂) =
      ⟨(joined d t₁).lines ++ (joined d t₂).lines.map (LogicalLine.move (Shift.past t₁).motion),
        (joined d t₂).dangling.map (ParseError.shift (.past t₁))⟩ := by
  have htakes := LogicalLine.takes_placeLines t₁.feeds t₁.length 0 0 (physicalLines t₂)
  unfold joined LogicalLine.join at h ⊢
  rw [LogicalLine.joinFrom_append hend t₂ h]
  have hmove := LogicalLine.joinFrom_move d.continuationMarker [d.commentChar] htakes none
  rw [Option.map_none] at hmove
  rw [hmove]
  rfl

theorem readLines_append (h : Serves lx d) (ls ms : List LogicalLine) :
    readLines d lx (ls ++ ms) = readLines d lx ls >>= fun rs => (readLines d lx ms).map (rs ++ ·) := by
  induction ls with
  | nil =>
    show readLines d lx ms = (readLines d lx ms).map fun rs => rs
    cases readLines d lx ms <;> rfl
  | cons l ls ih =>
    rw [List.cons_append, readLines_cons h, readLines_cons h, ih]
    cases readAlone d l with
    | error f => rfl
    | ok r =>
      cases readLines d lx ls with
      | error f => rfl
      | ok rs =>
        show ((readLines d lx ms).map _).map _ = (readLines d lx ms).map _
        cases readLines d lx ms with
        | error f => rfl
        | ok rs' => exact congrArg Except.ok (List.append_assoc _ _ _).symm

/-- Lines that have been moved are read as they were, with the directives moved. -/
theorem readLines_shift (h : Serves lx d) (v : Shift) (lines : List LogicalLine) :
    Agree (Failure.shift v) (List.map (Directive.shift v)) (readLines d lx lines)
      (readLines d lx (lines.map (LogicalLine.move v.motion))) := by
  induction lines with
  | nil => exact .ok _
  | cons line rest ih =>
    rw [List.map_cons, readLines_cons h, readLines_cons h]
    refine (readAlone_shift v d line).bind fun r => ih.map fun rs => ?_
    rw [List.map_append]
    cases r <;> rfl

/-- Behind an accepted table, another one is read as it is read alone. -/
theorem parse_append_eq {table₁ : Table} (hend : t₁.EndsLine) (h : parse d t₁ = .ok table₁) (t₂ : Text) :
    parse d (t₁ ++ t₂) =
      match parse d t₂ with
      | .ok table₂ => .ok ⟨table₁.directives ++ table₂.directives.map (Directive.shift (.past t₁))⟩
      | .error f => .error (f.shift (.past t₁)) := by
  obtain ⟨hlines, hnone⟩ := parse_eq_ok h
  have hserves : Serves (.ofDialect d) d := rfl
  rw [parse_eq d (t₁ ++ t₂), parse_eq d t₂, joined_append hend hnone, readLines_append hserves, hlines]
  obtain ⟨rs, hx, hy⟩ | ⟨f, hx, hy⟩ := (readLines_shift hserves (.past t₁) (joined d t₂).lines).ok_or_error
  · rw [hx, hy]
    cases (joined d t₂).dangling <;> rfl
  · rw [hx, hy]
    rfl

/-- Tables compose line by line.  Behind a table that is accepted and ends with a line, a text is accepted if it is
accepted alone, and gives the directives it gives alone, with all their places moved.  Otherwise its error is of the same
class and names the same, at the place moved in the same way. -/
theorem parse_append {table₁ : Table} (hend : t₁.EndsLine) (h : parse d t₁ = .ok table₁) (t₂ : Text) :
    ((∃ table, parse d (t₁ ++ t₂) = .ok table) ↔ ∃ table₂, parse d t₂ = .ok table₂) ∧
    (∀ table₂, parse d t₂ = .ok table₂ →
      parse d (t₁ ++ t₂) =
        .ok ⟨table₁.directives ++ table₂.directives.map (Directive.shift ⟨t₁.feeds, t₁.length⟩)⟩) ∧
    ∀ e, parse d t₂ = .error (.parse e) →
      ∃ e', parse d (t₁ ++ t₂) = .error (.parse e') ∧ e'.category.label = e.category.label ∧
        e'.expected = e.expected ∧ e'.found = e.found ∧ e'.span = e.span.shift ⟨t₁.feeds, t₁.length⟩ := by
  rw [parse_append_eq hend h t₂]
  cases parse d t₂ with
  | ok table₂ =>
    refine ⟨⟨fun _ => ⟨table₂, rfl⟩, fun _ => ⟨_, rfl⟩⟩, fun table htable => ?_, fun e he => (by cases he)⟩
    cases htable
    rfl
  | error f =>
    refine ⟨⟨fun ⟨table, htable⟩ => (by cases htable), fun ⟨table, htable⟩ => (by cases htable)⟩,
      fun table htable => (by cases htable), fun e he => ?_⟩
    cases he
    exact ⟨e.shift (.past t₁), rfl, Category.label_shift _ e.category, rfl, rfl, rfl⟩

end Table

/-- An accepted table of three physical lines, two of them joined. -/
def firstPart : Text := "always a 1\nalways \\\nb 12\n"

/-- A text whose second line is refused. -/
def refusedPart : Text := "always c 14\nbogus\n"

/-- The second line is refused as the fifth line of the whole. -/
theorem parse_append_refusedPart :
    ∃ table₁ e, Table.parse .standard firstPart = .ok table₁ ∧
      Table.parse .standard refusedPart =
        .error (.parse (.unknownOpcode "bogus" ⟨12, 17, 2, 1, 2, 6⟩ ["opcode"])) ∧
      Table.parse .standard (firstPart ++ refusedPart) = .error (.parse e) ∧
      e.category.label = "UnknownOpcodeError" ∧ e.expected = ["opcode"] ∧ e.found = some "bogus" ∧
      e.span = ⟨37, 42, 5, 1, 5, 6⟩ := by
  have hfirst : (Table.parse .standard firstPart).isOk = true := by decide +kernel
  have hsecond : (Table.parse .standard refusedPart).map (fun _ => ()) =
      .error (.parse (.unknownOpcode "bogus" ⟨12, 17, 2, 1, 2, 6⟩ ["opcode"])) := by
    decide +kernel
  obtain ⟨table₁, htable₁⟩ := exists_of_isOk hfirst
  have hend : firstPart.EndsLine := .inr (by decide)
  obtain ⟨e, hparse, hlabel, hexpected, hfound, hspan⟩ :=
    (Table.parse_append hend htable₁ refusedPart).2.2 _ (map_eq_error hsecond)
  exact ⟨table₁, e, htable₁, map_eq_error hsecond, hparse, hlabel, hexpected, hfound, hspan⟩

end BrailleTable
