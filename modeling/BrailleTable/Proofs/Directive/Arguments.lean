/-
The arguments of a directive are read back.

`Fills slots vs` is what the slots of an opcode and the values that they took have to do with each other.  A slot that
was left out leaves no value behind unless it has a fallback, and then the fallback is written like any other value;
either way the tokens of the written values go to the slots that the values came from.
-/
import BrailleTable.Directive.Parser
import BrailleTable.Directive.Printer
import BrailleTable.Proofs.Value.RoundTrip
import Mathlib.Data.List.Forall2

namespace BrailleTable

open Value (Fits dotDigits)

namespace SlotKind

theorem exists_of_chooseAfter {alphabet : Text} {kinds : List SlotKind} {t : Token} {v : Value Span}
    {best : Option ParseError} (h : chooseAfter alphabet t best kinds = .ok v) :
    ∃ kind ∈ kinds, kind.read alphabet t = .ok v := by
  induction kinds generalizing best with
  | nil =>
    unfold chooseAfter at h
    split at h <;> cases h
  | cons kind kinds ih =>
    unfold chooseAfter at h
    cases hread : kind.read alphabet t with
    | ok w =>
      rw [hread] at h
      cases h
      exact ⟨kind, List.mem_cons_self, hread⟩
    | error f =>
      rw [hread] at h
      cases f with
      | parse e =>
        obtain ⟨other, hother, hok⟩ := ih h
        exact ⟨other, List.mem_cons_of_mem kind hother, hok⟩
      | _ => cases h

/-- A class starts with a bracket. -/
theorem head?_of_readClass {t : Token} {v : Value Span} (h : Value.readClass t = .ok v) :
    t.text.head? = some ('[' : CodePoint) := by
  obtain ⟨_, _, _, _, -, htext, -⟩ := Value.readClass_eq_ok h
  rw [htext]
  rfl

/-- A text that is not a class is written so that it is not taken for one. -/
theorem choose_class_or_characters {t : Token} {w : Text} {v : Value Span}
    (ht : t.IsPlain (Value.writeString '#' w)) (h : characters.read dotDigits t = .ok v) :
    choose dotDigits [charClass, characters] t = .ok v := by
  unfold choose chooseAfter
  have hclass : charClass.read dotDigits t = (Value.readClass t).mapError .parse := rfl
  rw [hclass]
  cases hread : Value.readClass t with
  | ok u =>
    have hhead := head?_of_readClass hread
    rw [ht.text_eq] at hhead
    have hlead : ('[' : CodePoint) ∉ Value.stringCare.lead := Escape.head?_encode hhead (by decide)
    exact absurd hlead (by decide)
  | error e =>
    show chooseAfter dotDigits t _ [characters] = _
    unfold chooseAfter
    rw [h]

end SlotKind

namespace Slot

/-- The kinds of a slot: one alone, or classes before texts. -/
def HasKnownKinds (slot : Slot) : Prop :=
  slot.kinds.length = 1 ∨ slot.kinds = [.charClass, .characters]

instance (slot : Slot) : Decidable slot.HasKnownKinds :=
  inferInstanceAs (Decidable (slot.kinds.length = 1 ∨ slot.kinds = [.charClass, .characters]))

/-- A value that a slot may hold. -/
structure Holds (slot : Slot) (v : Value Span) : Prop where
  kinds : slot.HasKnownKinds
  fits : ∃ kind ∈ slot.kinds, Fits kind v
  inRange : ∀ n s, v = .number n s → Directive.inRange slot n = true

end Slot

namespace Directive

variable {opcode : Text} {slot : Slot} {position : Nat} {t : Token} {v : Value Span}

theorem choose_of_readArgument {alphabet : Text} (h : readArgument alphabet opcode slot position t = .ok v) :
    SlotKind.choose alphabet slot.kinds t = .ok v ∧
      ∀ n s, v = .number n s → inRange slot n = true := by
  unfold readArgument at h
  cases hchoose : SlotKind.choose alphabet slot.kinds t with
  | error f =>
    rw [hchoose] at h
    cases f <;> cases h
  | ok w =>
    rw [hchoose] at h
    cases w with
    | number n s =>
      dsimp only at h
      by_cases hrange : inRange slot n = true
      · rw [if_pos hrange] at h
        cases h
        refine ⟨rfl, fun m s' heq => ?_⟩
        cases heq
        exact hrange
      · rw [if_neg hrange] at h
        cases h
    | _ =>
      cases h
      exact ⟨rfl, fun m s' heq => by cases heq⟩

theorem readArgument_of_choose {alphabet : Text} (h : SlotKind.choose alphabet slot.kinds t = .ok v)
    (hrange : ∀ n s, v = .number n s → inRange slot n = true) :
    readArgument alphabet opcode slot position t = .ok v := by
  unfold readArgument
  rw [h]
  cases v with
  | number n s =>
    dsimp only
    rw [if_pos (hrange n s rfl)]
  | _ => rfl

theorem holds_of_readArgument {line : LogicalLine} (ht : t.CutFrom line) (hkinds : slot.HasKnownKinds)
    (hfilename : SlotKind.filename ∉ slot.kinds) (hstring : SlotKind.string ∉ slot.kinds)
    (h : readArgument dotDigits opcode slot position t = .ok v) : slot.Holds v := by
  obtain ⟨hchoose, hrange⟩ := choose_of_readArgument h
  obtain ⟨kind, hmem, hread⟩ := SlotKind.exists_of_chooseAfter hchoose
  have hnotFilename : kind ≠ .filename := fun heq => hfilename (heq ▸ hmem)
  have hnotString : kind ≠ .string := fun heq => hstring (heq ▸ hmem)
  exact ⟨hkinds, ⟨kind, hmem, Value.fits_of_read ht hnotFilename hnotString hread⟩, hrange⟩

theorem readArgument_of_holds (h : slot.Holds v) (ht : t.IsPlain (v.write '#' [])) :
    ∃ v', readArgument dotDigits opcode slot position t = .ok v' ∧ v'.bare = v.bare := by
  obtain ⟨hkinds, ⟨kind, hmem, hfits⟩, hrange⟩ := h
  obtain ⟨v', hread, hbare⟩ := hfits.read ht
  refine ⟨v', readArgument_of_choose ?_ ?_, hbare⟩
  · rcases hkinds with hkinds | hkinds
    · obtain ⟨other, hkinds⟩ := List.length_eq_one_iff.mp hkinds
      rw [hkinds] at hmem ⊢
      rw [List.mem_singleton.mp hmem] at hread
      unfold SlotKind.choose SlotKind.chooseAfter
      rw [hread]
    · rw [hkinds] at hmem ⊢
      rcases List.mem_cons.mp hmem with heq | hmem
      · rw [heq] at hread
        unfold SlotKind.choose SlotKind.chooseAfter
        rw [hread]
      · rw [List.mem_singleton.mp hmem] at hfits hread
        cases hfits with
        | characters hne => exact SlotKind.choose_class_or_characters ht hread
  · intro n s heq
    rw [heq] at hbare
    cases v with
    | number m s' =>
      have hn : n = m := by injection hbare
      rw [hn]
      exact hrange m s' rfl
    | _ => cases hbare

/-! ## Filling slots -/

/-- Values that fill slots. -/
inductive Fills : List Slot → List (Value Span) → Prop
  | nil : Fills [] []
  | skip {slot : Slot} {slots : List Slot} {vs : List (Value Span)} :
      slot.isOptional = true → slot.fallback = none → vs.length ≤ Slot.required slots → Fills slots vs →
      Fills (slot :: slots) vs
  | take {slot : Slot} {slots : List Slot} {v : Value Span} {vs : List (Value Span)} :
      slot.repeats = false → slot.Holds v → Fills slots vs → Fills (slot :: slots) (v :: vs)
  | all {slot : Slot} {vs : List (Value Span)} :
      slot.repeats = true → slot.isOptional = false → vs ≠ [] → (∀ v ∈ vs, slot.Holds v) →
      Fills [slot] vs

theorem Fills.required_le {slots : List Slot} {vs : List (Value Span)} (h : Fills slots vs) :
    Slot.required slots ≤ vs.length := by
  induction h with
  | nil => exact Nat.le_refl _
  | @skip slot slots vs hoptional _ _ _ ih =>
    have hcount : Slot.required (slot :: slots) = Slot.required slots := by
      unfold Slot.required
      rw [List.countP_cons_of_neg (by rw [hoptional]; decide)]
    omega
  | @take slot slots v vs _ _ _ ih =>
    have hcount : Slot.required (slot :: slots) ≤ Slot.required slots + 1 := by
      unfold Slot.required
      rw [List.countP_cons]
      split <;> omega
    rw [List.length_cons]
    omega
  | @all slot vs _ _ hne _ =>
    have hcount : Slot.required [slot] ≤ 1 := List.countP_le_length
    have hpos := List.length_pos_of_ne_nil hne
    omega

/-- What is known of the slots of an opcode: a fallback is a single character, and a slot that is left out for good has
none with a fallback after it. -/
def IsTidy : List Slot → Prop
  | [] => True
  | slot :: slots =>
    slot.HasKnownKinds ∧ SlotKind.filename ∉ slot.kinds ∧ SlotKind.string ∉ slot.kinds ∧
      (∀ raw ∈ slot.fallback, slot.kinds = [.character] ∧ raw.length = 1) ∧
      (slot.repeats = true → slot.isOptional = false ∧ slots = []) ∧
      (slot.isOptional = true → slot.fallback = none → ∀ other ∈ slots, other.fallback = none) ∧
      IsTidy slots

instance decidableIsTidy : (slots : List Slot) → Decidable (IsTidy slots)
  | [] => .isTrue trivial
  | slot :: slots =>
    have := decidableIsTidy slots
    inferInstanceAs (Decidable (slot.HasKnownKinds ∧ SlotKind.filename ∉ slot.kinds ∧
      SlotKind.string ∉ slot.kinds ∧
      (∀ raw ∈ slot.fallback, slot.kinds = [.character] ∧ raw.length = 1) ∧
      (slot.repeats = true → slot.isOptional = false ∧ slots = []) ∧
      (slot.isOptional = true → slot.fallback = none → ∀ other ∈ slots, other.fallback = none) ∧
      IsTidy slots))

variable {name eol : Span}

/-- What the first of some slots does: it is left out, stands for its fallback, takes all tokens, or takes one. -/
theorem readSlots_cons_eq_ok {alphabet : Text} {slots : List Slot} {tokens left : List Token}
    {vs : List (Value Span)}
    (h : readSlots alphabet opcode name eol position (slot :: slots) tokens = .ok (vs, left)) :
    (slot.isOptional = true ∧ tokens.length ≤ Slot.required slots ∧ slot.fallback = none ∧
      readSlots alphabet opcode name eol (position + 1) slots tokens = .ok (vs, left)) ∨
    (∃ raw v vs', slot.isOptional = true ∧ slot.fallback = some raw ∧
      defaultValue slot raw name = .ok v ∧ vs = v :: vs' ∧
      readSlots alphabet opcode name eol (position + 1) slots tokens = .ok (vs', left)) ∨
    (∃ us vs', slot.repeats = true ∧ tokens ≠ [] ∧ vs = us ++ vs' ∧
      readRepeated alphabet opcode slot position tokens = .ok us ∧
      readSlots alphabet opcode name eol (position + 1) slots [] = .ok (vs', left)) ∨
    (∃ t rest v vs', slot.repeats = false ∧ tokens = t :: rest ∧ vs = v :: vs' ∧
      readArgument alphabet opcode slot position t = .ok v ∧
      readSlots alphabet opcode name eol (position + 1) slots rest = .ok (vs', left)) := by
  unfold readSlots at h
  by_cases hleft : slot.isOptional = true ∧ tokens.length ≤ Slot.required slots
  · rw [if_pos hleft] at h
    cases hfallback : slot.fallback with
    | none =>
      rw [hfallback] at h
      exact .inl ⟨hleft.1, hleft.2, rfl, h⟩
    | some raw =>
      rw [hfallback] at h
      obtain ⟨v, hv, h⟩ := bind_eq_ok h
      obtain ⟨⟨vs', left'⟩, hvs, h⟩ := bind_eq_ok h
      cases h
      exact .inr (.inl ⟨raw, v, vs', hleft.1, rfl, hv, rfl, hvs⟩)
  · rw [if_neg hleft] at h
    cases tokens with
    | nil => cases h
    | cons t rest =>
      dsimp only at h
      by_cases hrepeats : slot.repeats = true
      · rw [if_pos hrepeats] at h
        obtain ⟨us, hus, h⟩ := bind_eq_ok h
        obtain ⟨⟨vs', left'⟩, hvs, h⟩ := bind_eq_ok h
        cases h
        exact .inr (.inr (.inl ⟨us, vs', hrepeats, List.cons_ne_nil _ _, rfl, hus, hvs⟩))
      · rw [if_neg hrepeats] at h
        obtain ⟨v, hv, h⟩ := bind_eq_ok h
        obtain ⟨⟨vs', left'⟩, hvs, h⟩ := bind_eq_ok h
        cases h
        exact .inr (.inr (.inr ⟨t, rest, v, vs', by simpa using hrepeats, rfl, rfl, hv, hvs⟩))

theorem readRepeated_eq_ok {alphabet : Text} {tokens : List Token} {vs : List (Value Span)}
    (h : readRepeated alphabet opcode slot position tokens = .ok vs) :
    vs.length = tokens.length ∧
      ∀ v ∈ vs, ∃ t ∈ tokens, ∃ p, readArgument alphabet opcode slot p t = .ok v := by
  induction tokens generalizing position vs with
  | nil =>
    cases h
    exact ⟨rfl, fun v hv => absurd hv List.not_mem_nil⟩
  | cons t rest ih =>
    unfold readRepeated at h
    obtain ⟨v, hv, h⟩ := bind_eq_ok h
    obtain ⟨us, hus, h⟩ := bind_eq_ok h
    cases h
    obtain ⟨hlength, hmem⟩ := ih hus
    refine ⟨by rw [List.length_cons, List.length_cons, hlength], fun u hu => ?_⟩
    rcases List.mem_cons.mp hu with heq | hu
    · exact ⟨t, List.mem_cons_self, position, heq ▸ hv⟩
    · obtain ⟨t', ht', hread⟩ := hmem u hu
      exact ⟨t', List.mem_cons_of_mem t ht', hread⟩

/-- Without fallbacks there are as many values as tokens. -/
theorem length_of_readSlots {alphabet : Text} {slots : List Slot} {tokens : List Token}
    {vs : List (Value Span)} (hslots : ∀ slot ∈ slots, slot.fallback = none)
    (h : readSlots alphabet opcode name eol position slots tokens = .ok (vs, [])) :
    vs.length = tokens.length := by
  induction slots generalizing position tokens vs with
  | nil =>
    cases h
    rfl
  | cons slot slots ih =>
    have hrest : ∀ other ∈ slots, other.fallback = none := fun other hother =>
      hslots other (List.mem_cons_of_mem slot hother)
    rcases readSlots_cons_eq_ok h with ⟨-, -, -, hmore⟩ | ⟨raw, v, vs', -, hfallback, -⟩ |
      ⟨us, vs', -, -, rfl, hus, hmore⟩ | ⟨t, rest, v, vs', -, rfl, rfl, -, hmore⟩
    · exact ih hrest hmore
    · rw [hslots slot List.mem_cons_self] at hfallback
      cases hfallback
    · have hnil := ih hrest hmore
      rw [List.length_nil] at hnil
      have hlength := (readRepeated_eq_ok hus).1
      rw [List.length_append]
      omega
    · rw [List.length_cons, List.length_cons, ih hrest hmore]

/-- The values that slots took fill them. -/
theorem fills_of_readSlots {line : LogicalLine} {slots : List Slot} {tokens : List Token}
    {vs : List (Value Span)} (hslots : IsTidy slots) (htokens : ∀ t ∈ tokens, t.CutFrom line)
    (h : readSlots dotDigits opcode name eol position slots tokens = .ok (vs, [])) : Fills slots vs := by
  induction slots generalizing position tokens vs with
  | nil =>
    cases h
    exact .nil
  | cons slot slots ih =>
    obtain ⟨hkinds, hfilename, hstring, hraw, hrepeat, hskip, htidy⟩ := hslots
    have hholds : ∀ {t : Token} {v : Value Span} {p : Nat}, t ∈ tokens →
        readArgument dotDigits opcode slot p t = .ok v → slot.Holds v := fun ht hv =>
      holds_of_readArgument (htokens _ ht) hkinds hfilename hstring hv
    rcases readSlots_cons_eq_ok h with ⟨hoptional, hle, hfallback, hmore⟩ |
      ⟨raw, v, vs', hoptional, hfallback, hv, rfl, hmore⟩ | ⟨us, vs', hrepeats, hne, rfl, hus, hmore⟩ |
      ⟨t, rest, v, vs', hrepeats, rfl, rfl, hv, hmore⟩
    · have hlength := length_of_readSlots (hskip hoptional hfallback) hmore
      exact .skip hoptional hfallback (by omega) (ih htidy htokens hmore)
    · obtain ⟨hcharacter, hlength⟩ := hraw raw hfallback
      obtain ⟨c, rfl⟩ := List.length_eq_one_iff.mp hlength
      have hdefault : v = .character [c] name := by
        unfold defaultValue at hv
        rw [hcharacter] at hv
        cases hv
        rfl
      have hnotRepeats : slot.repeats = false := by
        by_contra hrepeats
        have hrequired := (hrepeat (by simpa using hrepeats)).1
        rw [hoptional] at hrequired
        cases hrequired
      refine .take hnotRepeats ⟨hkinds, ⟨.character, ?_, ?_⟩, ?_⟩ (ih htidy htokens hmore)
      · rw [hcharacter]
        exact List.mem_singleton_self _
      · rw [hdefault]
        exact .character
      · intro n s heq
        rw [hdefault] at heq
        cases heq
    · obtain ⟨hrequired, rfl⟩ := hrepeat hrepeats
      cases hmore
      obtain ⟨hlength, hmem⟩ := readRepeated_eq_ok hus
      rw [List.append_nil]
      refine .all hrepeats hrequired ?_ fun v hv => ?_
      · intro hnil
        rw [hnil, List.length_nil] at hlength
        exact hne (List.eq_nil_of_length_eq_zero hlength.symm)
      · obtain ⟨t, ht, p, hread⟩ := hmem v hv
        exact hholds ht hread
    · exact .take hrepeats (hholds List.mem_cons_self hv)
        (ih htidy (fun u hu => htokens u (List.mem_cons_of_mem t hu)) hmore)

/-! ## Reading back -/

theorem readRepeated_of_holds {tokens : List Token} {vs : List (Value Span)}
    (htokens : List.Forall₂ (fun t v => Token.IsPlain (Value.write '#' [] v) t) tokens vs)
    (h : ∀ v ∈ vs, slot.Holds v) :
    ∃ vs', readRepeated dotDigits opcode slot position tokens = .ok vs' ∧
      vs'.map Value.bare = vs.map Value.bare := by
  induction htokens generalizing position with
  | nil => exact ⟨[], rfl, rfl⟩
  | @cons t v tokens vs ht _ ih =>
    obtain ⟨v', hv', hbare⟩ := readArgument_of_holds (h v List.mem_cons_self) ht
    obtain ⟨vs', hvs', hbares⟩ := ih fun u hu => h u (List.mem_cons_of_mem v hu)
    refine ⟨v' :: vs', ?_, by rw [List.map_cons, List.map_cons, hbare, hbares]⟩
    unfold readRepeated
    rw [hv', hvs']
    rfl

/-- Slots take back the values that fill them. -/
theorem readSlots_of_fills {slots : List Slot} {tokens : List Token} {vs : List (Value Span)}
    (h : Fills slots vs)
    (htokens : List.Forall₂ (fun t v => Token.IsPlain (Value.write '#' [] v) t) tokens vs) :
    ∃ vs', readSlots dotDigits opcode name eol position slots tokens = .ok (vs', []) ∧
      vs'.map Value.bare = vs.map Value.bare := by
  induction h generalizing position tokens with
  | nil =>
    cases htokens
    exact ⟨[], rfl, rfl⟩
  | @skip slot slots vs hoptional hfallback hle _ ih =>
    obtain ⟨vs', hvs', hbare⟩ := ih htokens
    have hlength := htokens.length_eq
    refine ⟨vs', ?_, hbare⟩
    unfold readSlots
    rw [if_pos ⟨hoptional, by omega⟩, hfallback]
    exact hvs'
  | @take slot slots v vs hrepeats hholds hfills ih =>
    cases htokens with
    | @cons t _ rest _ ht hrest =>
      obtain ⟨v', hv', hbare⟩ := readArgument_of_holds hholds ht
      obtain ⟨vs', hvs', hbares⟩ := ih hrest
      have hrequired := hfills.required_le
      have hlength := hrest.length_eq
      have hleft : ¬ (slot.isOptional = true ∧ (t :: rest).length ≤ Slot.required slots) := by
        rw [List.length_cons]
        omega
      refine ⟨v' :: vs', ?_, by rw [List.map_cons, List.map_cons, hbare, hbares]⟩
      unfold readSlots
      rw [if_neg hleft]
      dsimp only
      rw [if_neg (by rw [hrepeats]; decide), hv', hvs']
      rfl
  | @all slot vs hrepeats hrequired hne hholds =>
    obtain ⟨vs', hvs', hbare⟩ := readRepeated_of_holds htokens hholds
    refine ⟨vs', ?_, hbare⟩
    cases tokens with
    | nil =>
      cases htokens
      exact absurd rfl hne
    | cons t rest =>
      unfold readSlots
      rw [if_neg (by rw [hrequired]; simp)]
      dsimp only
      rw [if_pos hrepeats, hvs']
      show Except.ok (vs' ++ [], []) = _
      rw [List.append_nil]

/-! ## Writing -/

theorem exists_of_mem_slotKinds {slots : List Slot} {n : Nat} {kinds : List SlotKind}
    (h : kinds ∈ slotKinds slots n) : ∃ slot ∈ slots, slot.kinds = kinds := by
  induction slots generalizing n with
  | nil => cases h
  | cons slot slots ih =>
    have hrest : ∀ {m}, kinds ∈ slotKinds slots m → ∃ other ∈ slot :: slots, other.kinds = kinds := by
      intro m hm
      obtain ⟨other, hother, heq⟩ := ih hm
      exact ⟨other, List.mem_cons_of_mem slot hother, heq⟩
    unfold slotKinds at h
    split at h
    · exact hrest h
    · split at h
      · exact ⟨slot, List.mem_cons_self, (List.eq_of_mem_replicate h).symm⟩
      · rcases List.mem_cons.mp h with heq | h
        · exact ⟨slot, List.mem_cons_self, heq.symm⟩
        · exact hrest h

theorem write_of_not_filename {kinds : List SlotKind} (h : SlotKind.filename ∉ kinds) (v : Value Span) :
    v.write '#' kinds = v.write '#' [] := by
  cases v with
  | string t s =>
    unfold Value.write
    dsimp only
    rw [if_neg (fun hmem => h hmem.1), if_neg (fun hmem => absurd hmem.1 List.not_mem_nil)]
  | _ => rfl

/-- Only file names are written for their slots. -/
theorem writeArgs_eq_map {kinds : List (List SlotKind)} (h : ∀ ks ∈ kinds, SlotKind.filename ∉ ks)
    (vs : List (Value Span)) : writeArgs '#' kinds vs = vs.map (Value.write '#' []) := by
  induction vs generalizing kinds with
  | nil => cases kinds <;> rfl
  | cons v vs ih =>
    cases kinds with
    | nil =>
      unfold writeArgs
      rw [ih h]
      rfl
    | cons ks kinds =>
      unfold writeArgs
      rw [ih fun ks' hks' => h ks' (List.mem_cons_of_mem ks hks'),
        write_of_not_filename (h ks List.mem_cons_self)]
      rfl

theorem not_filename_of_isTidy {slots : List Slot} (h : IsTidy slots) :
    ∀ slot ∈ slots, SlotKind.filename ∉ slot.kinds := by
  induction slots with
  | nil => exact fun slot hslot => absurd hslot List.not_mem_nil
  | cons slot slots ih =>
    obtain ⟨-, hfilename, -, -, -, -, htidy⟩ := h
    intro other hother
    rcases List.mem_cons.mp hother with heq | hother
    · exact heq ▸ hfilename
    · exact ih htidy other hother

theorem writeArgs_slotKinds {slots : List Slot} (h : IsTidy slots) (n : Nat) (vs : List (Value Span)) :
    writeArgs '#' (slotKinds slots n) vs = vs.map (Value.write '#' []) := by
  refine writeArgs_eq_map (fun ks hks => ?_) vs
  obtain ⟨slot, hslot, heq⟩ := exists_of_mem_slotKinds hks
  rw [← heq]
  exact not_filename_of_isTidy h slot hslot

theorem Fills.isArgument {slots : List Slot} {vs : List (Value Span)} (h : Fills slots vs) :
    ∀ v ∈ vs, Value.IsArgument (v.write '#' []) := by
  have hholds : ∀ {slot : Slot} {v : Value Span}, slot.Holds v → Value.IsArgument (v.write '#' []) := by
    intro slot v hv
    obtain ⟨kind, -, hfits⟩ := hv.fits
    exact hfits.isArgument
  induction h with
  | nil => exact fun v hv => absurd hv List.not_mem_nil
  | skip _ _ _ _ ih => exact ih
  | take _ hv _ ih =>
    intro u hu
    rcases List.mem_cons.mp hu with heq | hu
    · exact heq ▸ hholds hv
    · exact ih u hu
  | all _ _ _ hall => exact fun v hv => hholds (hall v hv)

end Directive
end BrailleTable
