/-
Sorting texts keeps them.
-/
import BrailleTable.Text

namespace BrailleTable
namespace Text

theorem mem_insertSorted {t u : Text} {ts : List Text} : t ∈ insertSorted u ts ↔ t = u ∨ t ∈ ts := by
  induction ts with
  | nil => exact List.mem_cons
  | cons v rest ih =>
    unfold insertSorted
    split
    · rename_i heq
      rw [heq, List.mem_cons, ← or_assoc, or_self]
    · split
      · exact List.mem_cons
      · rw [List.mem_cons, ih, List.mem_cons, or_left_comm]

theorem mem_sortedSet {t : Text} {ts : List Text} : t ∈ sortedSet ts ↔ t ∈ ts := by
  unfold sortedSet
  induction ts with
  | nil => exact Iff.rfl
  | cons u rest ih => rw [List.foldr_cons, mem_insertSorted, ih, List.mem_cons]

end Text
end BrailleTable
