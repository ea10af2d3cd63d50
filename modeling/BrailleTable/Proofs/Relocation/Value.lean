/-
Values of tokens that stand elsewhere.

A reader may look at every part of a token except its places, which only go into the value or the error that it gives.
Where two refusals are compared, by how far each came, moving both leaves the comparison as it was.
-/
import BrailleTable.Proofs.Relocation
import BrailleTable.Proofs.Value.EscapeGrammar
import BrailleTable.Value.Reader

namespace BrailleTable

variable {v : Relocation} {t : Token}

namespace Escape

theorem refuse_move (ht : v.Holds t) (i j : Nat) (what : Text) (labels : List Text) :
    refuse (t.move v) i j what labels = (refuse t i j what labels).map v.span := by
  unfold refuse
  rw [Token.text_move, Token.subSpan_move ht, Token.span_move, ← apply_ite v.span]
  rfl

theorem decodeFrom_move (ht : v.Holds t) (extra : Text) (i : Nat) (s : Text) :
    Agree (ParseError.map v.span) id (decodeFrom t extra i s) (decodeFrom (t.move v) extra i s) := by
  have hdecoding := decoding extra s
  induction hdecoding generalizing i with
  | nil =>
    rw [decodeFrom, decodeFrom]
    exact .ok _
  | spelling _ hdecode _ ih =>
    rw [hdecode, hdecode]
    exact (ih _).map fun _ => rfl
  | refusal _ _ hrefused =>
    rw [hrefused, hrefused, refuse_move ht]
    exact .error _

theorem decode_move (ht : v.Holds t) (extra : Text) :
    Agree (ParseError.map v.span) id (decode t extra) (decode (t.move v) extra) := by
  unfold decode
  exact rel_ite (fun _ => .ok _) fun _ => decodeFrom_move ht extra 0 t.text

end Escape

namespace Value

theorem requireKind_move (v : Relocation) (t : Token) (kinds report : List TokenKind) (what : Text) :
    Agree (ParseError.map v.span) id (requireKind t kinds report what) (requireKind (t.move v) kinds report what) := by
  unfold requireKind
  exact rel_ite (fun _ => .ok _) fun _ => .error _

theorem readCells_move (ht : v.Holds t) (alphabet : Text) (i cellStart : Nat) (cell : List Int) (s : Text) :
    Agree (ParseError.map v.span) id (readCells alphabet t i cellStart cell s)
      (readCells alphabet (t.move v) i cellStart cell s) := by
  induction s generalizing i cellStart cell with
  | nil =>
    rw [readCells, readCells, Escape.refuse_move ht]
    exact rel_ite (fun _ => .error _) fun _ => .ok _
  | cons c rest ih =>
    rw [readCells, readCells]
    simp only [Escape.refuse_move ht, Token.subSpan_move ht]
    refine rel_ite (fun _ => rel_ite (fun _ => .error _) fun _ => (ih _ _ _).map fun _ => rfl) fun _ => ?_
    exact rel_ite (fun _ => .error _) fun _ => rel_ite (fun _ => .error _) fun _ => ih _ _ _

theorem readDots_move (ht : v.Holds t) (alphabet : Text) :
    Agree (ParseError.map v.span) (map v.span) (readDots alphabet t) (readDots alphabet (t.move v)) :=
  (requireKind_move v t _ _ _).bind fun _ => (readCells_move ht alphabet 0 0 [] t.text).bind fun _ => .ok _

theorem readCharacters_move (ht : v.Holds t) :
    Agree (ParseError.map v.span) (map v.span) (readCharacters t) (readCharacters (t.move v)) := by
  refine (Escape.decode_move ht []).bind fun cs => ?_
  cases cs with
  | nil =>
    dsimp only [id]
    rw [Escape.refuse_move ht]
    exact .error _
  | cons c cs => exact .ok _

theorem readCharacter_move (ht : v.Holds t) :
    Agree (ParseError.map v.span) (map v.span) (readCharacter t) (readCharacter (t.move v)) := by
  refine (Escape.decode_move ht []).bind fun cs => ?_
  match cs with
  | [] =>
    dsimp only [id]
    rw [Escape.refuse_move ht]
    exact .error _
  | [c] => exact .ok _
  | c :: d :: rest =>
    dsimp only [id]
    rw [Token.subSpan_move ht]
    exact .error _

theorem guardBracket_move (ht : v.Holds t) (d : Escape.Decoded) :
    Agree (ParseError.map v.span) id (readItems.guardBracket t d) (readItems.guardBracket (t.move v) d) := by
  unfold readItems.guardBracket
  rw [Escape.refuse_move ht]
  exact rel_ite (fun _ => .error _) fun _ => .ok _

theorem readItems_move {body : Token} (hbody : v.Holds body) (whole : Token) (items : List Escape.Decoded) :
    Agree (ParseError.map v.span) id (readItems whole body items) (readItems (whole.move v) (body.move v) items) := by
  induction items using readItems.induct with
  | case1 => exact .ok _
  | case2 a => exact (guardBracket_move hbody a).bind fun _ => .ok _
  | case3 a b ih => exact (guardBracket_move hbody a).bind fun _ => ih.bind fun _ => .ok _
  | case4 a dash b rest ih ih' =>
    refine (guardBracket_move hbody a).bind fun _ => ?_
    rw [Token.subSpan_move hbody]
    refine rel_ite (fun _ => rel_ite (fun _ => .error _) fun _ => ih.bind fun _ => .ok _) fun _ => ?_
    exact ih'.bind fun _ => .ok _

theorem readClass_move (ht : v.Holds t) :
    Agree (ParseError.map v.span) (map v.span) (readClass t) (readClass (t.move v)) := by
  refine (requireKind_move v t _ _ _).bind fun _ => ?_
  simp only [Escape.refuse_move ht, Token.text_move]
  obtain ⟨kind, text, value, span, start, stop, source⟩ := t
  cases text with
  | nil => exact .error _
  | cons c inner =>
    refine rel_ite (fun _ => .error _) fun _ => ?_
    have hbody : v.Holds ⟨kind, inner, inner, span, start + 1, stop, source⟩ := ht
    refine (Escape.decode_move hbody _).bind fun elements => ?_
    dsimp only [id]
    cases elements.getLast? with
    | none => exact .error _
    | some last =>
      refine rel_ite (fun _ => .error _) fun _ => ?_
      cases elements.dropLast with
      | nil => exact .error _
      | cons a items => exact (readItems_move hbody _ (a :: items)).bind fun _ => .ok _

theorem readNumber_move (v : Relocation) (t : Token) :
    Agree (Failure.map v.span) (map v.span) (readNumber t) (readNumber (t.move v)) := by
  unfold readNumber
  obtain ⟨u, hx, hy⟩ | ⟨e, hx, hy⟩ := (requireKind_move v t [.number] [.number] "number").ok_or_error
  · rw [hx, hy, Token.text_move]
    cases Text.readInteger t.text with
    | ok n => exact .ok _
    | error fault => cases fault <;> exact .error _
  · rw [hx, hy]
    exact .error _

theorem checkName_move (ht : v.Holds t) (i : Nat) (name nameChar : Text) :
    Agree (ParseError.map v.span) id (checkName t i name nameChar) (checkName (t.move v) i name nameChar) := by
  unfold checkName
  simp only [Escape.refuse_move ht, Token.text_move]
  split
  · exact .error _
  · exact rel_ite (fun _ => .error _) fun _ => rel_ite (fun _ => .ok _) fun _ => .error _

theorem nameOf_move (ht : v.Holds t) :
    Agree (ParseError.map v.span) id (nameOf t) (nameOf (t.move v)) :=
  (requireKind_move v t _ _ _).bind fun _ => (checkName_move ht _ _ _).bind fun _ => .ok _

theorem readName_move (ht : v.Holds t) :
    Agree (ParseError.map v.span) (map v.span) (readName t) (readName (t.move v)) :=
  (nameOf_move ht).map fun _ => rfl

theorem classNameOf_move (ht : v.Holds t) :
    Agree (ParseError.map v.span) id (classNameOf t) (classNameOf (t.move v)) := by
  refine (requireKind_move v t _ _ _).bind fun _ => ?_
  rw [Escape.refuse_move ht]
  exact rel_ite (fun _ => .error _) fun _ => (checkName_move ht _ _ _).bind fun _ => .ok _

theorem readFilename_move (v : Relocation) (t : Token) :
    Agree (ParseError.map v.span) (map v.span) (readFilename t) (readFilename (t.move v)) :=
  (requireKind_move v t _ _ _).bind fun _ => .ok _

theorem readString_move (v : Relocation) (t : Token) :
    Agree (ParseError.map v.span) (map v.span) (readString t) (readString (t.move v)) :=
  (requireKind_move v t _ _ _).bind fun _ => .ok _

end Value

namespace SlotKind

theorem read_move (ht : v.Holds t) (alphabet : Text) (kind : SlotKind) :
    Agree (Failure.map v.span) (Value.map v.span) (kind.read alphabet t) (kind.read alphabet (t.move v)) := by
  cases kind with
  | dots => exact (Value.readDots_move ht alphabet).asFailure
  | character => exact (Value.readCharacter_move ht).asFailure
  | characters => exact (Value.readCharacters_move ht).asFailure
  | charClass => exact (Value.readClass_move ht).asFailure
  | number => exact Value.readNumber_move v t
  | name => exact (Value.readName_move ht).asFailure
  | filename => exact (Value.readFilename_move v t).asFailure
  | string => exact (Value.readString_move v t).asFailure

theorem further_move (v : Relocation) (best : Option ParseError) (e : ParseError) :
    further (best.map (ParseError.map v.span)) (e.map v.span) = (further best e).map v.span := by
  cases best with
  | none => rfl
  | some b =>
    have hlt : (b.map v.span).span.start < (e.map v.span).span.start ↔ b.span.start < e.span.start :=
      v.start_lt b.span e.span
    have heq : (e.map v.span).span.start = (b.map v.span).span.start ↔ e.span.start = b.span.start :=
      v.start_eq e.span b.span
    unfold further
    simp only [Option.map_some, hlt, heq]
    split
    · rfl
    · split <;> rfl

theorem chooseAfter_move (ht : v.Holds t) (alphabet : Text) (best : Option ParseError) (kinds : List SlotKind) :
    Agree (Failure.map v.span) (Value.map v.span) (chooseAfter alphabet t best kinds)
      (chooseAfter alphabet (t.move v) (best.map (ParseError.map v.span)) kinds) := by
  induction kinds generalizing best with
  | nil => cases best <;> exact .error _
  | cons kind rest ih =>
    rw [chooseAfter, chooseAfter]
    obtain ⟨a, hx, hy⟩ | ⟨f, hx, hy⟩ := (read_move ht alphabet kind).ok_or_error
    · rw [hx, hy]
      exact .ok a
    · rw [hx, hy]
      cases f with
      | parse e =>
        have hrest := ih (some (further best e))
        rw [Option.map_some, ← further_move] at hrest
        exact hrest
      | _ => exact .error _

theorem choose_move (ht : v.Holds t) (alphabet : Text) (kinds : List SlotKind) :
    Agree (Failure.map v.span) (Value.map v.span) (choose alphabet kinds t) (choose alphabet kinds (t.move v)) :=
  chooseAfter_move ht alphabet none kinds

end SlotKind
end BrailleTable
