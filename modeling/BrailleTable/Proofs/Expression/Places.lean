/-
Neither the text of an expression nor what it equals depends on places.
-/
import BrailleTable.Expression.Printer
import Mathlib.Logic.Basic

namespace BrailleTable

variable {σ τ : Type} (f : σ → τ)

namespace Value

theorem display_map (v : Value σ) : (v.map f).display = v.display := by
  cases v <;> rfl

theorem write_map (commentChar : CodePoint) (kinds : List SlotKind) (v : Value σ) :
    (v.map f).write commentChar kinds = v.write commentChar kinds := by
  cases v <;> rfl

theorem bare_map (v : Value σ) : (v.map f).bare = v.bare := by
  cases v <;> rfl

theorem bare_eq_of_map_eq {v w : Value σ} (h : v.map f = w.map f) : v.bare = w.bare := by
  rw [← bare_map f v, h, bare_map]

end Value

namespace Expression

theorem mapAll_eq_map (es : List (Expression σ)) : mapAll f es = es.map (map f) := by
  induction es with
  | nil => rfl
  | cons e es ih => rw [mapAll, ih, List.map_cons]

theorem span_map (e : Expression σ) : (e.map f).span = f e.span := by
  cases e with
  | value v => cases v <;> rfl
  | _ => rfl

mutual
theorem map_map {υ : Type} (g : τ → υ) : (e : Expression σ) → (e.map f).map g = e.map (g ∘ f)
  | .value v => by cases v <;> rfl
  | .literal e _ => congrArg (Expression.literal · _) (map_map g e)
  | .classRef _ _ => rfl
  | .compare op left right _ =>
    congrArg₂ (Expression.compare op · · _) (map_map g left) (map_map g right)
  | .combine op operands _ => congrArg (Expression.combine op · _) (mapAll_mapAll g operands)
  | .sequence items _ => congrArg (Expression.sequence · _) (mapAll_mapAll g items)
  | .step name operands _ => congrArg (Expression.step name · _) (mapAll_mapAll g operands)
  | .body test actions _ =>
    congrArg₂ (Expression.body · · _) (map_map g test) (mapAll_mapAll g actions)

theorem mapAll_mapAll {υ : Type} (g : τ → υ) :
    (es : List (Expression σ)) → mapAll g (mapAll f es) = mapAll (g ∘ f) es
  | [] => rfl
  | e :: rest => congrArg₂ List.cons (map_map g e) (mapAll_mapAll g rest)
end

theorem bare_map (e : Expression σ) : (e.map f).bare = e.bare := map_map f (fun _ => ()) e

theorem bare_combine (op : Connective) (es : List (Expression σ)) (s : σ) :
    (Expression.combine op es s).bare = .combine op (es.map bare) () :=
  congrArg (Expression.combine op · ()) (mapAll_eq_map _ es)

theorem bare_sequence (es : List (Expression σ)) (s : σ) :
    (Expression.sequence es s).bare = .sequence (es.map bare) () :=
  congrArg (Expression.sequence · ()) (mapAll_eq_map _ es)

theorem bare_step (name : Text) (es : List (Expression σ)) (s : σ) :
    (Expression.step name es s).bare = .step name (es.map bare) () :=
  congrArg (Expression.step name · ()) (mapAll_eq_map _ es)

theorem bare_body (test : Expression σ) (actions : List (Expression σ)) (s : σ) :
    (Expression.body test actions s).bare = .body test.bare (actions.map bare) () :=
  congrArg (Expression.body test.bare · ()) (mapAll_eq_map _ actions)

mutual
/-- Expressions that differ in their annotations only are equal. -/
theorem same_of_map_eq : (e e' : Expression σ) → e.map f = e'.map f → e.same e' = true
  | .value v, e', h => by
    cases e' with
    | value w => exact decide_eq_true (Value.bare_eq_of_map_eq f (Expression.value.inj h))
    | _ => cases h
  | .literal e _, e', h => by
    cases e' with
    | literal x _ => exact same_of_map_eq e x (Expression.literal.inj h).1
    | _ => cases h
  | .classRef name _, e', h => by
    cases e' with
    | classRef name' _ => exact decide_eq_true (Expression.classRef.inj h).1
    | _ => cases h
  | .compare op left right _, e', h => by
    cases e' with
    | compare op' left' right' _ =>
      obtain ⟨hop, hleft, hright, -⟩ := Expression.compare.inj h
      simp [same, hop, same_of_map_eq left left' hleft, same_of_map_eq right right' hright]
    | _ => cases h
  | .combine op operands _, e', h => by
    cases e' with
    | combine op' operands' _ =>
      obtain ⟨hop, hoperands, -⟩ := Expression.combine.inj h
      simp [same, hop, sameAll_of_mapAll_eq operands operands' hoperands]
    | _ => cases h
  | .sequence items _, e', h => by
    cases e' with
    | sequence items' _ => exact sameAll_of_mapAll_eq items items' (Expression.sequence.inj h).1
    | _ => cases h
  | .step name operands _, e', h => by
    cases e' with
    | step name' operands' _ =>
      obtain ⟨hname, hoperands, -⟩ := Expression.step.inj h
      simp [same, hname, sameAll_of_mapAll_eq operands operands' hoperands]
    | _ => cases h
  | .body test actions _, e', h => by
    cases e' with
    | body test' actions' _ =>
      obtain ⟨htest, hactions, -⟩ := Expression.body.inj h
      simp [same, same_of_map_eq test test' htest, sameAll_of_mapAll_eq actions actions' hactions]
    | _ => cases h

theorem sameAll_of_mapAll_eq : (es es' : List (Expression σ)) → mapAll f es = mapAll f es' → sameAll es es' = true
  | [], [], _ => rfl
  | e :: es, x :: xs, h => by
    obtain ⟨hhead, htail⟩ := List.cons.inj h
    simp [sameAll, same_of_map_eq e x hhead, sameAll_of_mapAll_eq es xs htail]
end

mutual
theorem display_map : (e : Expression σ) → (e.map f).display = e.display
  | .value v => Value.display_map f v
  | .literal e _ => by
    rw [map, display, display, display_map e]
  | .classRef _ _ => rfl
  | .compare op left right _ => by
    rw [map, display, display, display_map left, display_map right]
  | .combine op operands _ => by
    rw [map, display, display, displayAll_map operands]
  | .sequence items _ => by
    rw [map, display, display, displayAll_map items]
  | .step name operands _ => by
    rw [map, display, display, displayAll_map operands]
  | .body test actions _ => by
    rw [map, display, display, display_map test, displayAll_map actions]

theorem displayAll_map : (es : List (Expression σ)) → displayAll (mapAll f es) = displayAll es
  | [] => rfl
  | e :: rest => by
    rw [mapAll, displayAll, displayAll, display_map e, displayAll_map rest]
end

theorem precedence_map (e : Expression σ) : (e.map f).precedence = e.precedence := by
  cases e with
  | combine op operands s => cases op <;> rfl
  | _ => rfl

variable (d : Dialect)

theorem writeOperand_map (e : Expression σ) : writeOperand d (e.map f) = writeOperand d e := by
  cases e with
  | literal content s =>
    have hshown : (Expression.literal (content.map f) (f s)).display =
        (Expression.literal content s).display := display_map f (.literal content s)
    cases content with
    | value v =>
      cases v with
      | dots cells s' => rfl
      | number n s' => rfl
      | string t s' => rfl
      | _ => exact congrArg (fun shown => Except.error (PrintFault.notOperand shown)) hshown
    | _ => exact congrArg (fun shown => Except.error (PrintFault.notOperand shown)) hshown
  | value v => cases v <;> rfl
  | _ => rfl

theorem writeOperands_map (es : List (Expression σ)) : writeOperands d (mapAll f es) = writeOperands d es := by
  induction es with
  | nil => rfl
  | cons e es ih => rw [mapAll, writeOperands, writeOperands, writeOperand_map, ih]

mutual
theorem write_map : (e : Expression σ) → write d (e.map f) = write d e
  | .value v => by
    rw [map, write, write, Value.display_map]
  | .literal e s => writeOperand_map f d (.literal e s)
  | .classRef _ _ => rfl
  | .compare op left right _ => by
    rw [map, write, write, writeOperand_map, writeOperand_map]
  | .combine (.other word) _ _ => rfl
  | .combine .neg [] _ => rfl
  | .combine .neg (e :: _) _ => by
    rw [map, mapAll, write, write, write_map e]
    unfold parenthesize
    rw [precedence_map]
  | .combine .conj operands _ => by
    rw [map, write, write, writeAll_map 2 operands]
  | .combine .disj operands _ => by
    rw [map, write, write, writeAll_map 1 operands]
  | .sequence items _ => by
    rw [map, write, write, writeAll_map 3 items]
  | .step name operands _ => by
    rw [map, write, write, writeOperands_map]
  | .body test actions _ => by
    rw [map, write, write, writeAll_map 0 actions, write_map test]

theorem writeAll_map (need : Nat) : (es : List (Expression σ)) →
    writeAll d need (mapAll f es) = writeAll d need es
  | [] => rfl
  | e :: rest => by
    rw [mapAll, writeAll, writeAll, write_map e, writeAll_map need rest]
    unfold parenthesize
    rw [precedence_map]
end

theorem write_eq_of_bare_eq {e e' : Expression σ} (h : e'.bare = e.bare) : write d e' = write d e := by
  rw [← write_map (fun _ => ()) d e', ← write_map (fun _ => ()) d e]
  exact congrArg (write d) h

end Expression

end BrailleTable
