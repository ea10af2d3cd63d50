/-
The opcodes of the standard dialect.

Their names are words that the lexer and the reader of directives tell from modifiers, and what their slots take can be
written and read back.
-/
import BrailleTable.Proofs.Directive.Arguments
import BrailleTable.Proofs.Directive.Head

namespace BrailleTable

namespace Vocabulary

/-- All that is checked of the opcodes, in one pass over the table. -/
theorem orderly_of_mem_standard : ∀ shape ∈ standard,
    IsHeadWord shape.name ∧ Modifier.ofText? shape.name = none ∧ standard.lookup shape.name = some shape ∧
    (shape.isMultipart = false → shape.name ≠ "include" →
      Directive.IsTidy shape.slots ∧ 0 < Slot.required shape.slots) ∧
    (shape.name = "include" → shape.isMultipart = false ∧ shape.slots = [Standard.slot [.filename]]) := by
  decide +kernel

theorem isHeadWord_name (shape : Shape) (h : shape ∈ standard) : IsHeadWord shape.name :=
  (orderly_of_mem_standard shape h).1

theorem ofText?_name (shape : Shape) (h : shape ∈ standard) : Modifier.ofText? shape.name = none :=
  (orderly_of_mem_standard shape h).2.1

theorem lookup_name (shape : Shape) (h : shape ∈ standard) : standard.lookup shape.name = some shape :=
  (orderly_of_mem_standard shape h).2.2.1

/-- The slots of an opcode that is not about a file. -/
theorem isTidy_slots (shape : Shape) (h : shape ∈ standard) : shape.isMultipart = false → shape.name ≠ "include" →
    Directive.IsTidy shape.slots ∧ 0 < Slot.required shape.slots :=
  (orderly_of_mem_standard shape h).2.2.2.1

theorem slots_include (shape : Shape) (h : shape ∈ standard) : shape.name = "include" →
    shape.isMultipart = false ∧ shape.slots = [Standard.slot [.filename]] :=
  (orderly_of_mem_standard shape h).2.2.2.2

end Vocabulary

/-- The name of an opcode is not taken for a modifier. -/
theorem Directive.modifierOf?_opcode {shape : Shape} (hshape : shape ∈ Vocabulary.standard) {t : Token}
    (ht : t.IsPlain shape.name) : modifierOf? t = none := by
  rw [modifierOf?_eq ht (Vocabulary.isHeadWord_name shape hshape)]
  exact Vocabulary.ofText?_name shape hshape

/-! ## The lexer of the standard dialect -/

namespace Lexer

def standardRules : LexRules := (ofDialect .standard).rules

theorem standardRules_commentMark : standardRules.commentMark = "#" := rfl

theorem standardRules_modifiers : standardRules.modifiers = Modifier.all.map Modifier.label := by decide +kernel

theorem standardRules_expressionOpcodes :
    standardRules.expressionOpcodes = Vocabulary.Standard.passes := by decide +kernel

theorem label_mem_modifiers (m : Modifier) : m.label ∈ standardRules.modifiers := by
  rw [standardRules_modifiers]
  cases m <;> decide

theorem name_not_mem_modifiers :
    ∀ shape ∈ Vocabulary.standard, shape.name ∉ standardRules.modifiers := by
  rw [standardRules_modifiers]
  decide +kernel

theorem name_mem_expressionOpcodes : ∀ shape ∈ Vocabulary.standard,
    decide (shape.name ∈ standardRules.expressionOpcodes) = shape.isMultipart := by
  rw [standardRules_expressionOpcodes]
  decide +kernel

end Lexer

end BrailleTable
