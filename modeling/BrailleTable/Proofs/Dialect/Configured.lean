/-
The vocabularies that configurations can make.

A configuration adds opcodes to the standard vocabulary, and a slot of an added opcode has at least one kind and no
default.  The standard vocabulary has one default, and it is no number.
-/
import BrailleTable.Config
import BrailleTable.Proofs.Result

namespace BrailleTable

/-- A slot that has a kind to read, and whose default, if any, is never refused. -/
structure Slot.IsSound (s : Slot) : Prop where
  kinds_ne_nil : s.kinds ≠ []
  fallback : s.fallback = none ∨ s.kinds.head? = some .character

def Vocabulary.IsSound (v : Vocabulary) : Prop := ∀ shape ∈ v, ∀ slot ∈ shape.slots, slot.IsSound

namespace Shape

theorem splitAt_ne_nil (mark : CodePoint) (t : Text) : Text.splitAt mark t ≠ [] := by
  cases t with
  | nil => exact List.cons_ne_nil _ _
  | cons c rest =>
    unfold Text.splitAt
    split
    · exact List.cons_ne_nil _ _
    · split <;> exact List.cons_ne_nil _ _

theorem kinds_ne_nil_of_splitSlot {t : Text} {parts : SlotText} (h : splitSlot t = some parts) :
    parts.kinds ≠ [] := by
  have hparts : ∀ (kinds : List Text) (modifier : Option CodePoint) (rest : Text),
      (if rest = [] then some (SlotText.mk kinds modifier none)
        else (splitBounds rest).map fun bounds => ⟨kinds, modifier, some bounds⟩) = some parts →
      parts.kinds = kinds := by
    intro kinds modifier rest h
    split at h
    · cases h
      rfl
    · obtain ⟨bounds, -, rfl⟩ := Option.map_eq_some_iff.mp h
      rfl
  unfold splitSlot at h
  dsimp only at h
  split at h
  · cases h
  · split at h <;>
      · rw [hparts _ _ _ h]
        exact splitAt_ne_nil _ _

theorem length_of_readKinds {opcode : Text} {labels : List Text} {kinds : List SlotKind}
    (h : readKinds opcode labels = .ok kinds) : kinds.length = labels.length := by
  induction labels generalizing kinds with
  | nil =>
    cases h
    rfl
  | cons k rest ih =>
    unfold readKinds at h
    split at h
    · cases h
    · obtain ⟨more, hmore, rfl⟩ := map_eq_ok h
      rw [List.length_cons, List.length_cons, ih hmore]

theorem isSound_of_readSlot {opcode t : Text} {isLast : Bool} {slot : Slot}
    (h : readSlot opcode isLast none t = .ok slot) : slot.IsSound ∧ slot.fallback = none := by
  unfold readSlot at h
  cases hsplit : splitSlot t with
  | none =>
    rw [hsplit] at h
    cases h
  | some parts =>
    rw [hsplit] at h
    obtain ⟨kinds, hkinds, h⟩ := bind_eq_ok h
    have hne : kinds ≠ [] := by
      intro hnil
      have hlength := length_of_readKinds hkinds
      rw [hnil] at hlength
      exact kinds_ne_nil_of_splitSlot hsplit (List.eq_nil_of_length_eq_zero hlength.symm)
    dsimp only at h
    split at h
    · cases h
    · split at h
      · cases h
        exact ⟨⟨hne, .inl rfl⟩, rfl⟩
      · obtain ⟨lower, -, h⟩ := bind_eq_ok h
        obtain ⟨upper, -, h⟩ := bind_eq_ok h
        cases h
        exact ⟨⟨hne, .inl rfl⟩, rfl⟩

theorem isSound_of_readSlots {opcode : Text} {index : Nat} {ts : List Text} {slots : List Slot}
    (h : readSlots opcode [] index ts = .ok slots) : ∀ slot ∈ slots, slot.IsSound ∧ slot.fallback = none := by
  induction ts generalizing index slots with
  | nil =>
    cases h
    exact fun slot hslot => absurd hslot List.not_mem_nil
  | cons t rest ih =>
    obtain ⟨first, hfirst, h⟩ := bind_eq_ok h
    obtain ⟨more, hmore, h⟩ := bind_eq_ok h
    cases h
    intro slot hslot
    rcases List.mem_cons.mp hslot with rfl | hslot
    · exact isSound_of_readSlot hfirst
    · exact ih hmore slot hslot

theorem isSound_of_readEntry {name written : Text} {shape : Shape} (h : readEntry name written = .ok shape) :
    ∀ slot ∈ shape.slots, slot.IsSound ∧ slot.fallback = none := by
  have hread : ∀ {written : Text} {takesModifiers : Bool}, read name.lower written takesModifiers [] = .ok shape →
      ∀ slot ∈ shape.slots, slot.IsSound ∧ slot.fallback = none := by
    intro written takesModifiers h
    unfold read at h
    split at h
    · cases h
      exact fun slot hslot => absurd hslot List.not_mem_nil
    · obtain ⟨slots, hslots, rfl⟩ := map_eq_ok h
      exact isSound_of_readSlots hslots
  unfold readEntry at h
  split at h
  · exact hread h
  · exact hread h

end Shape

namespace Vocabulary

theorem eq_or_mem_of_mem_put {v : Vocabulary} {s t : Shape} (h : t ∈ v.put s) : t = s ∨ t ∈ v := by
  induction v with
  | nil => exact .inl (List.mem_singleton.mp h)
  | cons first rest ih =>
    unfold put at h
    split at h
    · rcases List.mem_cons.mp h with heq | h
      · exact .inl heq
      · exact .inr (List.mem_cons_of_mem first h)
    · rcases List.mem_cons.mp h with heq | h
      · exact .inr (heq ▸ List.mem_cons_self)
      · exact (ih h).imp_right (List.mem_cons_of_mem first)

theorem forall_mem_putAll {P : Shape → Prop} {v : Vocabulary} (h : ∀ s ∈ v, P s) {shapes : List Shape}
    (hshapes : ∀ s ∈ shapes, P s) : ∀ s ∈ v.putAll shapes, P s := by
  induction shapes generalizing v with
  | nil => exact h
  | cons s shapes ih =>
    refine ih (v := v.put s) ?_ fun t ht => hshapes t (List.mem_cons_of_mem s ht)
    intro t ht
    rcases eq_or_mem_of_mem_put ht with rfl | ht
    · exact hshapes t List.mem_cons_self
    · exact h t ht

theorem exists_readEntry_of_mem {entries : List (Text × Text)} {shapes : List Shape}
    (h : readEntries entries = .ok shapes) :
    ∀ shape ∈ shapes, ∃ name written, Shape.readEntry name written = .ok shape := by
  induction entries generalizing shapes with
  | nil =>
    cases h
    exact fun shape hshape => absurd hshape List.not_mem_nil
  | cons entry rest ih =>
    obtain ⟨first, hfirst, h⟩ := bind_eq_ok h
    obtain ⟨more, hmore, h⟩ := bind_eq_ok h
    cases h
    intro shape hshape
    rcases List.mem_cons.mp hshape with rfl | hshape
    · exact ⟨_, _, hfirst⟩
    · exact ih hmore shape hshape

theorem isSound_standard : standard.IsSound := by
  have hall : ∀ shape ∈ standard, ∀ slot ∈ shape.slots,
      slot.kinds ≠ [] ∧ (slot.fallback = none ∨ slot.kinds.head? = some .character) := by decide
  exact fun shape hshape slot hslot => ⟨(hall shape hshape slot hslot).1, (hall shape hshape slot hslot).2⟩

theorem fallback_standard : ∀ shape ∈ standard, ∀ slot ∈ shape.slots.tail, slot.fallback = none := by decide

end Vocabulary

/-! ## Configurations -/

namespace Config

open Dialect (Datum Setting textEntry)

variable {settings opcodes : List (Text × Datum)} {c : Config}

theorem vocabulary_of_ofSettings {v : Vocabulary} {s : Settings} (h : ofSettings v s = .ok c) : c.vocabulary = v := by
  obtain ⟨depth, -, h⟩ := bind_eq_ok h
  obtain ⟨dots, -, h⟩ := bind_eq_ok h
  obtain ⟨comment, -, h⟩ := bind_eq_ok h
  cases h
  rfl

/-- Settings leave the vocabulary as it is. -/
theorem vocabulary_of_withSettings {base : Config} {entries : List (Setting × Datum)}
    (h : base.withSettings entries = .ok c) : c.vocabulary = base.vocabulary :=
  vocabulary_of_ofSettings h

/-- Shapes that are read were all given as texts. -/
theorem exists_readEntries_of_readShapes {shapes : List Shape} (h : readShapes opcodes = .ok shapes) :
    ∃ entries : List (Text × Text), opcodes = entries.map textEntry ∧ Vocabulary.readEntries entries = .ok shapes := by
  induction opcodes generalizing shapes with
  | nil =>
    cases h
    exact ⟨[], rfl, rfl⟩
  | cons first rest ih =>
    obtain ⟨name, datum⟩ := first
    cases datum with
    | number n => cases h
    | text written =>
      obtain ⟨s, hs, h⟩ := bind_eq_ok h
      obtain ⟨more, hmore, h⟩ := bind_eq_ok h
      cases h
      obtain ⟨entries, rfl, hentries⟩ := ih hmore
      refine ⟨(name, written) :: entries, rfl, ?_⟩
      rw [Vocabulary.readEntries, mapError_eq_ok hs, hentries]
      rfl

/-- A mapping adds the shapes of its opcodes to the standard vocabulary. -/
theorem vocabulary_of_ofMapping (h : ofMapping settings opcodes = .ok c) :
    ∃ entries shapes, opcodes = entries.map textEntry ∧ Vocabulary.readEntries entries = .ok shapes ∧
      c.vocabulary = Vocabulary.standard.putAll shapes := by
  obtain ⟨given, -, h⟩ := bind_eq_ok h
  obtain ⟨base, hbase, h⟩ := bind_eq_ok h
  obtain ⟨shapes, hshapes, h⟩ := bind_eq_ok h
  cases h
  obtain ⟨entries, hopcodes, hentries⟩ := exists_readEntries_of_readShapes hshapes
  refine ⟨entries, shapes, hopcodes, hentries, ?_⟩
  show base.vocabulary.putAll shapes = _
  rw [vocabulary_of_withSettings hbase]
  rfl

/-- What holds of the standard shapes, and of all that an entry can be read as, holds of the shapes of every
configuration. -/
theorem forall_mem_vocabulary {P : Shape → Prop} (h : ofMapping settings opcodes = .ok c)
    (hstandard : ∀ s ∈ Vocabulary.standard, P s) (hentry : ∀ name written s, Shape.readEntry name written = .ok s → P s) :
    ∀ s ∈ c.vocabulary, P s := by
  obtain ⟨entries, shapes, -, hshapes, hvocabulary⟩ := vocabulary_of_ofMapping h
  rw [hvocabulary]
  refine Vocabulary.forall_mem_putAll hstandard fun s hs => ?_
  obtain ⟨name, written, hread⟩ := Vocabulary.exists_readEntry_of_mem hshapes s hs
  exact hentry name written s hread

/-- Every configuration that a mapping makes has a sound vocabulary. -/
theorem isSound_of_ofMapping (h : ofMapping settings opcodes = .ok c) : c.vocabulary.IsSound :=
  forall_mem_vocabulary h Vocabulary.isSound_standard fun _ _ _ hread slot hslot =>
    (Shape.isSound_of_readEntry hread slot hslot).1

end Config

namespace Dialect

theorem withOpcodes_eq_ok {base d : Dialect} {opcodes : List (Text × Text)} (h : base.withOpcodes opcodes = .ok d) :
    ∃ shapes, Vocabulary.readEntries opcodes = .ok shapes ∧ d = base.withShapes shapes := by
  obtain ⟨shapes, hshapes, rfl⟩ := map_eq_ok h
  exact ⟨shapes, hshapes, rfl⟩

theorem textEntry_injective : Function.Injective textEntry := by
  rintro ⟨name, written⟩ ⟨name', written'⟩ h
  cases h
  rfl

variable {settings : List (Text × Datum)} {opcodes : List (Text × Text)} {d : Dialect}

/-- A dialect that is configured is that of a configuration whose settings are of their types. -/
theorem exists_config_of_configure (h : configure settings opcodes = .ok d) :
    ∃ c, Config.ofMapping settings (opcodes.map textEntry) = .ok c ∧ c.IsTyped ∧ d = c.dialect := by
  unfold configure at h
  split at h
  · cases h
  · rename_i c hc
    split at h
    · rename_i htyped
      cases h
      exact ⟨c, hc, htyped, rfl⟩
    · cases h

/-- A configuration adds the shapes of its entries to the standard vocabulary. -/
theorem vocabulary_of_configure (h : configure settings opcodes = .ok d) :
    ∃ shapes, Vocabulary.readEntries opcodes = .ok shapes ∧ d.vocabulary = Vocabulary.standard.putAll shapes := by
  obtain ⟨c, hc, -, rfl⟩ := exists_config_of_configure h
  obtain ⟨entries, shapes, hopcodes, hshapes, hvocabulary⟩ := Config.vocabulary_of_ofMapping hc
  obtain rfl := List.map_injective_iff.mpr textEntry_injective hopcodes
  exact ⟨shapes, hshapes, hvocabulary⟩

/-- What holds of the standard shapes, and of all that an entry can be read as, holds of the shapes of every dialect that
a configuration makes. -/
theorem forall_mem_vocabulary {P : Shape → Prop} (h : configure settings opcodes = .ok d)
    (hstandard : ∀ s ∈ Vocabulary.standard, P s) (hentry : ∀ name written s, Shape.readEntry name written = .ok s → P s) :
    ∀ s ∈ d.vocabulary, P s := by
  obtain ⟨c, hc, -, rfl⟩ := exists_config_of_configure h
  exact Config.forall_mem_vocabulary hc hstandard hentry

/-- Every dialect that a configuration makes has a sound vocabulary. -/
theorem isSound_of_configure (h : configure settings opcodes = .ok d) : d.vocabulary.IsSound := by
  obtain ⟨c, hc, -, rfl⟩ := exists_config_of_configure h
  exact Config.isSound_of_ofMapping hc

/-- No slot but the first of an opcode has a default. -/
theorem fallback_of_configure (h : configure settings opcodes = .ok d) :
    ∀ shape ∈ d.vocabulary, ∀ slot ∈ shape.slots.tail, slot.fallback = none :=
  forall_mem_vocabulary h Vocabulary.fallback_standard fun _ _ _ hread slot hslot =>
    (Shape.isSound_of_readEntry hread slot (List.mem_of_mem_tail hslot)).2

end Dialect
end BrailleTable
