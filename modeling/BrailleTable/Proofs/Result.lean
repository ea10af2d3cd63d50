/-
What the result of a reader says about the readers it was put together from.
-/
import BrailleTable.Text
import Mathlib.Data.List.Forall2

namespace BrailleTable

variable {ε ε' α β : Type}

theorem bind_eq_ok {x : Except ε α} {f : α → Except ε β} {b : β} (h : (x >>= f) = .ok b) :
    ∃ a, x = .ok a ∧ f a = .ok b := by
  cases x with
  | ok a => exact ⟨a, rfl, h⟩
  | error e => cases h

theorem bind_eq_ok_iff {x : Except ε α} {f : α → Except ε β} {b : β} :
    (x >>= f) = .ok b ↔ ∃ a, x = .ok a ∧ f a = .ok b := by
  refine ⟨bind_eq_ok, ?_⟩
  rintro ⟨a, rfl, h⟩
  exact h

theorem bind_eq_error {x : Except ε α} {f : α → Except ε β} {e : ε} (h : (x >>= f) = .error e) :
    x = .error e ∨ ∃ a, x = .ok a ∧ f a = .error e := by
  cases x with
  | ok a => exact .inr ⟨a, rfl, h⟩
  | error e' =>
    cases h
    exact .inl rfl

theorem map_eq_ok {x : Except ε α} {f : α → β} {b : β} (h : x.map f = .ok b) :
    ∃ a, x = .ok a ∧ f a = b := by
  cases x with
  | ok a =>
    cases h
    exact ⟨a, rfl, rfl⟩
  | error e => cases h

theorem map_some_eq_ok_iff {x : Except ε α} {a : α} : x.map some = .ok (some a) ↔ x = .ok a := by
  constructor
  · intro h
    obtain ⟨b, rfl, hb⟩ := map_eq_ok h
    cases hb
    rfl
  · rintro rfl
    rfl

theorem map_eq_error {x : Except ε α} {f : α → β} {err : ε} (h : x.map f = .error err) :
    x = .error err := by
  cases x with
  | error e =>
    cases h
    rfl
  | ok a => cases h

theorem mapError_eq_ok {x : Except ε α} {f : ε → ε'} {a : α} (h : x.mapError f = .ok a) :
    x = .ok a := by
  cases x with
  | ok b =>
    cases h
    rfl
  | error e => cases h

theorem mapError_eq_error {x : Except ε α} {f : ε → ε'} {err : ε'} (h : x.mapError f = .error err) :
    ∃ e, x = .error e ∧ f e = err := by
  cases x with
  | error e =>
    cases h
    exact ⟨e, rfl, rfl⟩
  | ok a => cases h

theorem exists_mapM_eq_ok {f : α → Except ε β} {R : β → α → Prop} {as : List α}
    (h : ∀ a ∈ as, ∃ b, f a = .ok b ∧ R b a) : ∃ bs, as.mapM f = .ok bs ∧ List.Forall₂ R bs as := by
  induction as with
  | nil => exact ⟨[], rfl, .nil⟩
  | cons a as ih =>
    rw [List.forall_mem_cons] at h
    obtain ⟨⟨b, hb, hR⟩, hrest⟩ := h
    obtain ⟨bs, hbs, hRs⟩ := ih hrest
    refine ⟨b :: bs, ?_, .cons hR hRs⟩
    rw [List.mapM_cons, hb, hbs]
    rfl

/-- Two results are the same, unless the first one is the error `e` and `p` holds. -/
def EqUnless (p : Prop) (e : ε) (x y : Except ε α) : Prop := x = y ∨ p ∧ x = .error e

namespace EqUnless

variable {p q : Prop} {e : ε} {x y : Except ε α}

theorem refl (x : Except ε α) : EqUnless p e x x := .inl rfl

theorem mono (h : EqUnless p e x y) (hpq : p → q) : EqUnless q e x y := h.imp_right (And.imp_left hpq)

theorem bind (h : EqUnless p e x y) {f g : α → Except ε β} (hf : ∀ a, y = .ok a → EqUnless p e (f a) (g a)) :
    EqUnless p e (x >>= f) (y >>= g) := by
  rcases h with rfl | ⟨hp, rfl⟩
  · cases x with
    | ok a => exact hf a rfl
    | error e' => exact .inl rfl
  · exact .inr ⟨hp, rfl⟩

theorem map (h : EqUnless p e x y) (f : α → β) : EqUnless p e (x.map f) (y.map f) := by
  rcases h with rfl | ⟨hp, rfl⟩
  · exact refl _
  · exact .inr ⟨hp, rfl⟩

end EqUnless

theorem exists_of_isOk {x : Except ε α} (h : x.isOk = true) : ∃ a, x = .ok a := by
  cases x with
  | ok a => exact ⟨a, rfl⟩
  | error e => cases h

theorem toOption_eq_some {x : Except ε α} {a : α} (h : x.toOption = some a) : x = .ok a := by
  cases x with
  | ok b =>
    cases h
    rfl
  | error e => cases h

theorem toOption_bind_eq_some {x : Except ε α} {f : α → Option β} {b : β} (h : x.toOption.bind f = some b) :
    ∃ a, x = .ok a ∧ f a = some b := by
  obtain ⟨a, ha, hf⟩ := Option.bind_eq_some_iff.mp h
  exact ⟨a, toOption_eq_some ha, hf⟩

end BrailleTable
