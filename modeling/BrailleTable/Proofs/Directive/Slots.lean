/-
The slots of the opcodes that configurations add.

None of them has a default, and only the last one may repeat.  So the number of tokens alone decides which slot each
token goes to, and then each slot reads its token on its own: what was read is read back exactly if every value is
legible in its slot.
-/
import BrailleTable.Proofs.Dialect.Configured
import BrailleTable.Proofs.Directive.Filling
import BrailleTable.Proofs.Value.Legible

namespace BrailleTable

open Value (dotDigits)

namespace Slot

/-- Slots without defaults, of which only the last one repeats, and that one is not optional. -/
structure ArePlain (slots : List Slot) : Prop where
  fallback : ∀ slot ∈ slots, slot.fallback = none
  repeatsLast : RepeatsLast slots

theorem assign_subset {slots assigned : List Slot} {n : Nat} (h : assign slots n = some assigned) :
    ∀ slot ∈ assigned, slot ∈ slots := by
  induction slots generalizing n assigned with
  | nil =>
    cases n with
    | zero =>
      cases h
      exact fun slot hslot => hslot
    | succ n => cases h
  | cons slot slots ih =>
    unfold assign at h
    split at h
    · exact fun other hother => List.mem_cons_of_mem slot (ih h other hother)
    · cases n with
      | zero => cases h
      | succ n =>
        dsimp only at h
        split at h
        · cases h
          intro other hother
          rw [List.eq_of_mem_replicate hother]
          exact List.mem_cons_self
        · obtain ⟨more, hmore, rfl⟩ := Option.map_eq_some_iff.mp h
          intro other hother
          rcases List.mem_cons.mp hother with rfl | hother
          · exact List.mem_cons_self
          · exact List.mem_cons_of_mem slot (ih hmore other hother)

/-- The writer finds the kinds of the slots that the tokens went to. -/
theorem slotKinds_eq {slots assigned : List Slot} {n : Nat} (hfallback : ∀ slot ∈ slots, slot.fallback = none)
    (h : assign slots n = some assigned) : Directive.slotKinds slots n = assigned.map kinds := by
  induction slots generalizing n assigned with
  | nil =>
    cases n with
    | zero =>
      cases h
      rfl
    | succ n => cases h
  | cons slot slots ih =>
    rw [List.forall_mem_cons] at hfallback
    unfold assign at h
    unfold Directive.slotKinds
    by_cases hleft : slot.isOptional = true ∧ n ≤ required slots
    · rw [if_pos hleft] at h
      rw [if_pos ⟨hleft.1, hleft.2, hfallback.1⟩, ih hfallback.2 h]
    · rw [if_neg hleft] at h
      rw [if_neg fun hboth => hleft ⟨hboth.1, hboth.2.1⟩]
      cases n with
      | zero => cases h
      | succ n =>
        dsimp only at h
        split at h
        · rename_i hrepeats
          cases h
          rw [if_pos hrepeats, List.map_replicate]
        · rename_i hrepeats
          obtain ⟨more, hmore, rfl⟩ := Option.map_eq_some_iff.mp h
          rw [if_neg hrepeats, Nat.add_sub_cancel, ih hfallback.2 hmore, List.map_cons]

end Slot

namespace Shape

theorem arePlain_of_readEntry {name written : Text} {shape : Shape} (h : readEntry name written = .ok shape) :
    Slot.ArePlain shape.slots :=
  ⟨fun slot hslot => (isSound_of_readEntry h slot hslot).2, repeatsLast_of_readEntry h⟩

end Shape

/-! ## Reading -/

namespace Directive

variable {opcode : Text} {slot : Slot} {slots assigned : List Slot} {position : Nat} {name eol : Span} {t : Token}
  {tokens : List Token} {v : Value Span} {vs : List (Value Span)}

/-- Slots without defaults leave nothing to put between the values. -/
theorem readSlots_eq_ok_iff (hplain : Slot.ArePlain slots) :
    readSlots dotDigits opcode name eol position slots tokens = .ok (vs, []) ↔
      ∃ assigned, Slot.assign slots tokens.length = some assigned ∧ AllRead dotDigits assigned tokens vs := by
  rw [readSlots_eq_ok_iff_assign hplain.repeatsLast fun slot hslot _ raw hraw => ?_]
  · simp only [Slot.arrange_of_fallback hplain.fallback]
    constructor
    · rintro ⟨assigned, us, hassign, hread, rfl⟩
      exact ⟨assigned, hassign, hread⟩
    · rintro ⟨assigned, hassign, hread⟩
      exact ⟨assigned, vs, hassign, hread, rfl⟩
  · rw [hplain.fallback slot hslot] at hraw
    cases hraw

/-! ## Reading back -/

variable {line : LogicalLine} {us : List Token}

theorem AllRead.write_ne_nil (h : AllRead dotDigits assigned tokens vs) (hcut : ∀ t ∈ tokens, t.CutFrom line)
    (hfilename : ∀ slot ∈ assigned, SlotKind.filename ∉ slot.kinds)
    (hlegible : ∀ p ∈ (assigned.map Slot.kinds).zip vs, p.2.LegibleIn p.1) : ∀ v ∈ vs, v.write '#' [] ≠ [] := by
  induction h with
  | nil => exact fun v hv => absurd hv List.not_mem_nil
  | cons hread _ ih =>
    rw [List.map_cons, List.zip_cons_cons, List.forall_mem_cons] at hlegible
    rw [List.forall_mem_cons] at hcut hfilename ⊢
    exact ⟨hlegible.1.write_ne_nil hcut.1 hfilename.1 hread.choose, ih hcut.2 hfilename.2 hlegible.2⟩

/-- Values are written as arguments, but for the empty string. -/
theorem AllRead.isArgument (h : AllRead dotDigits assigned tokens vs) (hcut : ∀ t ∈ tokens, t.CutFrom line)
    (hfilename : ∀ slot ∈ assigned, SlotKind.filename ∉ slot.kinds) :
    ∀ v ∈ vs, v.write '#' [] = [] ∨ Value.IsArgument (v.write '#' []) := by
  induction h with
  | nil => exact fun v hv => absurd hv List.not_mem_nil
  | cons hread _ ih =>
    rw [List.forall_mem_cons] at hcut hfilename ⊢
    refine ⟨Classical.or_iff_not_imp_left.mpr fun hne => ?_, ih hcut.2 hfilename.2⟩
    exact (Value.fits_home hcut.1 hfilename.1 hread.choose hne).isArgument

/-- The range of a number depends on the number alone. -/
theorem reads_of_bare_eq {v' : Value Span} (h : slot.Reads dotDigits t v) {t' : Token}
    (hchoose : SlotKind.choose dotDigits slot.kinds t' = .ok v') (hbare : v'.bare = v.bare) :
    slot.Reads dotDigits t' v' := by
  refine ⟨hchoose, fun n s heq => ?_⟩
  subst heq
  cases v with
  | number m s' =>
    have hn : n = m := by injection hbare
    rw [hn]
    exact h.inRange m s' rfl
  | _ => cases hbare

theorem exists_allRead_iff (h : AllRead dotDigits assigned tokens vs) (hcut : ∀ t ∈ tokens, t.CutFrom line)
    (hfilename : ∀ slot ∈ assigned, SlotKind.filename ∉ slot.kinds) (hne : ∀ v ∈ vs, v.write '#' [] ≠ [])
    (hus : List.Forall₂ (fun u v => Token.IsPlain (Value.write '#' [] v) u) us vs) :
    (∃ vs', AllRead dotDigits assigned us vs' ∧ vs'.map Value.bare = vs.map Value.bare) ↔
      ∀ p ∈ (assigned.map Slot.kinds).zip vs, p.2.LegibleIn p.1 := by
  induction h generalizing us with
  | nil =>
    cases hus
    exact iff_of_true ⟨[], .nil, rfl⟩ fun p hp => absurd hp List.not_mem_nil
  | @cons slot slots t ts v vs hread _ ih =>
    cases hus with
    | @cons u _ us _ hu hus =>
      rw [List.forall_mem_cons] at hcut hfilename hne
      have hfirst := Value.exists_choose_iff hcut.1 hfilename.1 hread.choose hne.1 hu
      have hrest := ih hcut.2 hfilename.2 hne.2 hus
      have hzip : ((slot :: slots).map Slot.kinds).zip (v :: vs) = (slot.kinds, v) :: (slots.map Slot.kinds).zip vs :=
        rfl
      rw [hzip, List.forall_mem_cons, ← hfirst, ← hrest]
      constructor
      · rintro ⟨vs', hall, hbare⟩
        cases hall with
        | cons hread' hall =>
          obtain ⟨hv, hvs⟩ := List.cons.inj hbare
          exact ⟨⟨_, hread'.choose, hv⟩, _, hall, hvs⟩
      · rintro ⟨⟨v', hchoose, hv⟩, vs', hall, hvs⟩
        refine ⟨v' :: vs', .cons (reads_of_bare_eq hread hchoose hv) hall, ?_⟩
        rw [List.map_cons, List.map_cons, hv, hvs]

/-- Slots read back what they read before exactly if every value is legible in its slot.  The empty string leaves no
token behind, and then there are too few. -/
theorem exists_readSlots_iff (hplain : Slot.ArePlain slots) (hfilename : ∀ slot ∈ slots, SlotKind.filename ∉ slot.kinds)
    (hcut : ∀ t ∈ tokens, t.CutFrom line)
    (h : readSlots dotDigits opcode name eol position slots tokens = .ok (vs, []))
    (hus : List.Forall₂ (fun u w => Token.IsPlain w u) us ((vs.map (Value.write '#' [])).filter (· ≠ [])))
    {name' eol' : Span} {position' : Nat} :
    (∃ vs', readSlots dotDigits opcode name' eol' position' slots us = .ok (vs', []) ∧
        vs'.map Value.bare = vs.map Value.bare) ↔
      ∀ p ∈ (slotKinds slots vs.length).zip vs, p.2.LegibleIn p.1 := by
  obtain ⟨assigned, hassign, hall⟩ := (readSlots_eq_ok_iff hplain).mp h
  have hfilename' : ∀ slot ∈ assigned, SlotKind.filename ∉ slot.kinds := fun slot hslot =>
    hfilename slot (Slot.assign_subset hassign slot hslot)
  rw [hall.length_eq, Slot.slotKinds_eq hplain.fallback hassign]
  -- As many tokens as before go to the same slots; with fewer tokens there cannot be as many values.
  by_cases hne : ∀ v ∈ vs, v.write '#' [] ≠ []
  · have hfilter : (vs.map (Value.write '#' [])).filter (· ≠ []) = vs.map (Value.write '#' []) := by
      refine List.filter_eq_self.mpr fun w hw => ?_
      obtain ⟨v, hv, rfl⟩ := List.mem_map.mp hw
      simpa using hne v hv
    rw [hfilter, List.forall₂_map_right_iff] at hus
    have hlength : us.length = tokens.length := hus.length_eq.trans hall.length_eq
    rw [← exists_allRead_iff hall hcut hfilename' hne hus]
    refine exists_congr fun vs' => and_congr_left fun _ => ?_
    rw [readSlots_eq_ok_iff hplain, hlength, hassign]
    simp
  · refine iff_of_false ?_ fun hlegible => hne (hall.write_ne_nil hcut hfilename' hlegible)
    rintro ⟨vs', hread, hbare⟩
    obtain ⟨assigned', -, hall'⟩ := (readSlots_eq_ok_iff hplain).mp hread
    have hcount : vs'.length = vs.length := by
      have hmap := congrArg List.length hbare
      rwa [List.length_map, List.length_map] at hmap
    have hfull : (vs.map (Value.write '#' [])).filter (· ≠ []) = vs.map (Value.write '#' []) := by
      refine List.Sublist.eq_of_length List.filter_sublist ?_
      rw [← hus.length_eq, ← hall'.length_eq, hcount, List.length_map]
    refine hne fun v hv => ?_
    simpa using List.filter_eq_self.mp hfull _ (List.mem_map_of_mem hv)

end Directive
end BrailleTable
