/-
A value has the range of the token that it was read from.
-/
import BrailleTable.Proofs.Value.RoundTrip

namespace BrailleTable

variable {t : Token} {v : Value Span}

namespace Value

theorem span_of_readDots {alphabet : Text} (h : readDots alphabet t = .ok v) : v.span = t.span := by
  obtain ⟨_, -, h⟩ := bind_eq_ok h
  obtain ⟨cells, -, h⟩ := bind_eq_ok h
  cases h
  rfl

theorem span_of_readNumber (h : readNumber t = .ok v) : v.span = t.span := by
  unfold readNumber at h
  split at h
  · cases h
  · split at h <;> cases h
    rfl

theorem span_of_readCharacters (h : readCharacters t = .ok v) : v.span = t.span := by
  obtain ⟨w, rfl, -⟩ := exists_of_readCharacters h
  rfl

end Value

theorem SlotKind.span_of_read {alphabet : Text} {kind : SlotKind} (h : kind.read alphabet t = .ok v) :
    v.span = t.span := by
  cases kind with
  | dots => exact Value.span_of_readDots (mapError_eq_ok h)
  | character =>
    obtain ⟨c, rfl⟩ := Value.exists_of_readCharacter (mapError_eq_ok h)
    rfl
  | characters => exact Value.span_of_readCharacters (mapError_eq_ok h)
  | charClass =>
    obtain ⟨ranges, rfl, -⟩ := Value.isRanges_of_readClass (mapError_eq_ok h)
    rfl
  | number => exact Value.span_of_readNumber h
  | name =>
    obtain ⟨w, -, rfl⟩ := map_eq_ok (mapError_eq_ok h)
    rfl
  | filename =>
    obtain ⟨_, -, h⟩ := bind_eq_ok (mapError_eq_ok h)
    cases h
    rfl
  | string =>
    obtain ⟨_, -, h⟩ := bind_eq_ok (mapError_eq_ok h)
    cases h
    rfl

end BrailleTable
