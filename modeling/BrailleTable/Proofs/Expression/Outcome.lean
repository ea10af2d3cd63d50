/-
When attempts find something.

Each combinator of outcomes finds something in one way only, and the lemmas here say which.  They let a
proof about a production take it apart attempt by attempt.
-/
import BrailleTable.Expression.Outcome

namespace BrailleTable
namespace Outcome

variable {α β : Type}

theorem after_eq_found {ms : List Miss} {o : Outcome α} {a : α} {ns : List Miss} :
    o.after ms = .found a ns ↔ ∃ ns', o = .found a ns' ∧ ns = ms ++ ns' := by
  cases o with
  | found b bs =>
    simp only [after, found.injEq]
    constructor
    · rintro ⟨rfl, rfl⟩
      exact ⟨bs, ⟨rfl, rfl⟩, rfl⟩
    · rintro ⟨ns', ⟨rfl, rfl⟩, rfl⟩
      exact ⟨rfl, rfl⟩
  | missed bs => simp [after]
  | stuck bs => simp [after]
  | refused f => simp [after]

theorem bind_eq_found {o : Outcome α} {f : α → Outcome β} {b : β} {ns : List Miss} :
    o.bind f = .found b ns ↔
      ∃ a ms ms', o = .found a ms ∧ f a = .found b ms' ∧ ns = ms ++ ms' := by
  cases o with
  | found a ms =>
    simp only [bind, after_eq_found, found.injEq]
    constructor
    · rintro ⟨ms', hf, rfl⟩
      exact ⟨a, ms, ms', ⟨rfl, rfl⟩, hf, rfl⟩
    · rintro ⟨a', ns', ms', ⟨rfl, rfl⟩, hf, rfl⟩
      exact ⟨ms', hf, rfl⟩
  | missed ms => simp [bind]
  | stuck ms => simp [bind]
  | refused f => simp [bind]

theorem map_eq_found {o : Outcome α} {f : α → β} {b : β} {ns : List Miss} :
    o.map f = .found b ns ↔ ∃ a, o = .found a ns ∧ f a = b := by
  unfold map
  rw [bind_eq_found]
  constructor
  · rintro ⟨a, ms, ms', ho, hf, rfl⟩
    obtain ⟨rfl, rfl⟩ := found.inj hf
    exact ⟨a, by rw [ho, List.append_nil], rfl⟩
  · rintro ⟨a, ho, rfl⟩
    exact ⟨a, ns, [], ho, rfl, (List.append_nil ns).symm⟩

theorem orElse_eq_found {o : Outcome α} {other : Unit → Outcome α} {a : α} {ns : List Miss} :
    o.orElse other = .found a ns ↔
      o = .found a ns ∨ ∃ ms ms', o = .missed ms ∧ other () = .found a ms' ∧ ns = ms ++ ms' := by
  cases o with
  | found b ms => simp [orElse]
  | missed ms =>
    simp only [orElse, after_eq_found]
    constructor
    · rintro ⟨ms', h, rfl⟩
      exact .inr ⟨ms, ms', rfl, h, rfl⟩
    · rintro (h | ⟨ms', ns', h, h', rfl⟩)
      · cases h
      · cases h
        exact ⟨ns', h', rfl⟩
  | stuck ms => simp [orElse]
  | refused f => simp [orElse]

theorem orMiss_eq_found {o : Outcome α} {m : Miss} {a : α} {ns : List Miss} :
    o.orMiss m = .found a ns ↔ o = .found a ns := by
  unfold orMiss
  rw [orElse_eq_found]
  constructor
  · rintro (h | ⟨ms, ms', -, h, -⟩)
    · exact h
    · cases h
  · exact .inl

theorem commit_eq_found {o : Outcome α} {a : α} {ns : List Miss} :
    o.commit = .found a ns ↔ o = .found a ns := by
  cases o <;> simp [commit]

end Outcome
end BrailleTable
