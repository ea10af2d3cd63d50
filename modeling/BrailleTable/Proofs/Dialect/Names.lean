/-
The names of the opcodes that configurations can make.

Names are put in lower case before they are added, and an added opcode takes the place of the one with its name.  So all
names of a configured vocabulary are in lower case and different, and the lexer's list of opcodes with expressions says
the same as the shapes that names are looked up in.
-/
import BrailleTable.Proofs.Dialect.Configured
import BrailleTable.Proofs.Text.Sorted
import BrailleTable.Proofs.Vocabulary

namespace BrailleTable

namespace Vocabulary

variable {v : Vocabulary} {s : Shape}

/-- The names are in lower case and different. -/
structure IsOrderly (v : Vocabulary) : Prop where
  nodup : (v.map Shape.name).Nodup
  lower : ∀ s ∈ v, s.name.lower = s.name

theorem map_name_put (v : Vocabulary) (s : Shape) :
    (v.put s).map Shape.name =
      if s.name ∈ v.map Shape.name then v.map Shape.name else v.map Shape.name ++ [s.name] := by
  induction v with
  | nil => rfl
  | cons t rest ih =>
    unfold put
    by_cases hname : t.name = s.name
    · rw [if_pos hname, List.map_cons, List.map_cons, hname, if_pos List.mem_cons_self]
    · have hmem : s.name ∈ (t :: rest).map Shape.name ↔ s.name ∈ rest.map Shape.name := by
        rw [List.map_cons, List.mem_cons, or_iff_right (Ne.symm hname)]
      rw [if_neg hname, List.map_cons, ih]
      by_cases hrest : s.name ∈ rest.map Shape.name
      · rw [if_pos hrest, if_pos (hmem.mpr hrest), List.map_cons]
      · rw [if_neg hrest, if_neg (mt hmem.mp hrest), List.map_cons, List.cons_append]

theorem IsOrderly.put (h : v.IsOrderly) (hs : s.name.lower = s.name) : (v.put s).IsOrderly where
  nodup := by
    rw [map_name_put]
    split
    · exact h.nodup
    · rename_i hmem
      have hone : [s.name].Nodup := List.nodup_cons.mpr ⟨List.not_mem_nil, List.nodup_nil⟩
      refine List.nodup_append.mpr ⟨h.nodup, hone, fun a ha b hb heq => hmem ?_⟩
      rw [← List.mem_singleton.mp hb, ← heq]
      exact ha
  lower := by
    intro t ht
    rcases eq_or_mem_of_mem_put ht with rfl | ht
    · exact hs
    · exact h.lower t ht

theorem IsOrderly.putAll (h : v.IsOrderly) {shapes : List Shape} (hshapes : ∀ s ∈ shapes, s.name.lower = s.name) :
    (v.putAll shapes).IsOrderly := by
  induction shapes generalizing v with
  | nil => exact h
  | cons s rest ih =>
    exact ih (h.put (hshapes s List.mem_cons_self)) fun t ht => hshapes t (List.mem_cons_of_mem s ht)

theorem isOrderly_standard : standard.IsOrderly where
  nodup := by decide +kernel
  lower := fun s hs => Text.lower_eq_self (isHeadWord_name s hs).2.1

/-- A name leads to every shape that has it. -/
theorem IsOrderly.lookup_name (h : v.IsOrderly) (hs : s ∈ v) : v.lookup s.name = some s := by
  have hnodup := h.nodup
  clear h
  induction v with
  | nil => cases hs
  | cons t rest ih =>
    rw [List.map_cons, List.nodup_cons] at hnodup
    unfold lookup
    rw [List.find?_cons]
    rcases List.mem_cons.mp hs with rfl | hrest
    · rw [decide_eq_true rfl]
    · have hne : t.name ≠ s.name := fun heq => hnodup.1 (heq ▸ List.mem_map_of_mem hrest)
      rw [decide_eq_false hne]
      exact ih hrest hnodup.2

theorem lookup_put (v : Vocabulary) (s : Shape) (name : Text) :
    (v.put s).lookup name = if s.name = name then some s else v.lookup name := by
  unfold lookup
  induction v with
  | nil =>
    unfold put
    rw [List.find?_cons]
    split <;> simp_all
  | cons t rest ih =>
    unfold put
    by_cases hname : t.name = s.name
    · rw [if_pos hname, List.find?_cons, List.find?_cons, hname]
      split <;> simp_all
    · rw [if_neg hname, List.find?_cons, List.find?_cons, ih]
      by_cases ht : t.name = name
      · have hs : s.name ≠ name := fun hs => hname (ht.trans hs.symm)
        rw [decide_eq_true ht, if_neg hs, if_neg hs]
      · rw [decide_eq_false ht]

/-- An added opcode is what its name leads to, whatever the name meant before. -/
theorem mem_of_lookup_putAll {shapes : List Shape} {name : Text} (hname : name ∈ shapes.map Shape.name)
    (h : (v.putAll shapes).lookup name = some s) : s ∈ shapes := by
  have hkept : ∀ {w : Vocabulary} {more : List Shape}, name ∉ more.map Shape.name →
      (w.putAll more).lookup name = w.lookup name := by
    intro w more hnot
    induction more generalizing w with
    | nil => rfl
    | cons t rest ih =>
      rw [List.map_cons, List.mem_cons, not_or] at hnot
      show ((w.put t).putAll rest).lookup name = _
      rw [ih hnot.2, lookup_put, if_neg (Ne.symm hnot.1)]
  induction shapes generalizing v with
  | nil => cases hname
  | cons t rest ih =>
    by_cases hlater : name ∈ rest.map Shape.name
    · exact List.mem_cons_of_mem t (ih hlater h)
    · have heq : t.name = name := by
        rcases List.mem_cons.mp hname with heq | hmem
        · exact heq.symm
        · exact absurd hmem hlater
      have hfirst : ((v.put t).putAll rest).lookup name = some s := h
      rw [hkept hlater, lookup_put, if_pos heq] at hfirst
      cases hfirst
      exact List.mem_cons_self

end Vocabulary

theorem Shape.name_of_readEntry {name written : Text} {s : Shape} (h : readEntry name written = .ok s) :
    s.name = name.lower := by
  have hread : ∀ {written : Text} {takesModifiers : Bool}, read name.lower written takesModifiers [] = .ok s →
      s.name = name.lower := by
    intro written takesModifiers h
    unfold read at h
    split at h
    · cases h
      rfl
    · obtain ⟨slots, -, rfl⟩ := map_eq_ok h
      rfl
  unfold readEntry at h
  split at h
  · exact hread h
  · exact hread h

theorem Vocabulary.isOrderly_putAll_of_readEntries {entries : List (Text × Text)} {shapes : List Shape}
    (h : readEntries entries = .ok shapes) : (standard.putAll shapes).IsOrderly := by
  refine isOrderly_standard.putAll fun s hs => ?_
  obtain ⟨name, written, hread⟩ := exists_readEntry_of_mem h s hs
  rw [Shape.name_of_readEntry hread, Text.lower_lower]

theorem Vocabulary.mem_map_name_of_readEntries {entries : List (Text × Text)} {shapes : List Shape}
    (h : readEntries entries = .ok shapes) {entry : Text × Text} (hentry : entry ∈ entries) :
    entry.1.lower ∈ shapes.map Shape.name := by
  induction entries generalizing shapes with
  | nil => cases hentry
  | cons first rest ih =>
    obtain ⟨s, hs, h⟩ := bind_eq_ok h
    obtain ⟨more, hmore, h⟩ := bind_eq_ok h
    cases h
    rw [List.map_cons, List.mem_cons]
    rcases List.mem_cons.mp hentry with rfl | hentry
    · exact .inl (Shape.name_of_readEntry hs).symm
    · exact .inr (ih hmore hentry)

/-- The names of a configured dialect are in lower case and different. -/
theorem Dialect.isOrderly_of_configure {settings : List (Text × Datum)} {opcodes : List (Text × Text)} {d : Dialect}
    (h : configure settings opcodes = .ok d) : d.vocabulary.IsOrderly := by
  obtain ⟨shapes, hshapes, hvocabulary⟩ := vocabulary_of_configure h
  rw [hvocabulary]
  exact Vocabulary.isOrderly_putAll_of_readEntries hshapes

/-! ## The lexer of a dialect -/

namespace Lexer

theorem modifiers_ofDialect (d : Dialect) : (ofDialect d).rules.modifiers = Modifier.all.map Modifier.label :=
  standardRules_modifiers

/-- The lexer expects an expression after the names whose shapes say so. -/
theorem mem_expressionOpcodes_iff {d : Dialect} (h : d.vocabulary.IsOrderly) {name : Text} :
    name ∈ (ofDialect d).rules.expressionOpcodes ↔
      ∃ s, d.vocabulary.lookup name = some s ∧ s.isMultipart = true := by
  show name ∈ d.multipartOpcodes.map Text.lower ↔ _
  rw [List.mem_map]
  constructor
  · rintro ⟨w, hw, rfl⟩
    obtain ⟨s, hs, rfl⟩ := List.mem_map.mp (Text.mem_sortedSet.mp hw)
    obtain ⟨hmem, hmultipart⟩ := List.mem_filter.mp hs
    rw [h.lower s hmem]
    exact ⟨s, h.lookup_name hmem, hmultipart⟩
  · rintro ⟨s, hlookup, hmultipart⟩
    obtain ⟨hmem, rfl⟩ := Directive.lookup_eq_some hlookup
    refine ⟨s.name, Text.mem_sortedSet.mpr (List.mem_map_of_mem ?_), h.lower s hmem⟩
    exact List.mem_filter.mpr ⟨hmem, hmultipart⟩

end Lexer
end BrailleTable
