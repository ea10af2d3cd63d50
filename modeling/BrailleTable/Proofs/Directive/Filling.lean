/-
Which slot of an opcode each argument goes to.

An optional slot is filled only while more tokens are left than the required slots after it need.  Slot by slot this
hands the tokens, in order, to the required slots and to the first optional ones, as many as there are tokens to spare,
and a last slot that repeats takes what is left over.  So the number of tokens alone decides which slots are filled;
an optional slot that is not filled stands for its default, if it has one.
-/
import BrailleTable.Proofs.Directive.Arguments

namespace BrailleTable
namespace Slot

/-! ## Slots as shapes have them -/

/-- Only the last slot repeats, and that one is not optional. -/
def RepeatsLast : List Slot → Prop
  | [] => True
  | slot :: slots => (slot.repeats = true → slot.isOptional = false ∧ slots = []) ∧ RepeatsLast slots

instance decidableRepeatsLast : (slots : List Slot) → Decidable (RepeatsLast slots)
  | [] => inferInstanceAs (Decidable True)
  | slot :: slots =>
    have := decidableRepeatsLast slots
    inferInstanceAs (Decidable ((slot.repeats = true → slot.isOptional = false ∧ slots = []) ∧ RepeatsLast slots))

/-- The default of a slot for numbers is the numeral of one. -/
def HasNumeral (slot : Slot) : Prop :=
  slot.kinds.head? = some .number → ∀ raw ∈ slot.fallback, ∃ n, raw.readInteger = .ok n

theorem hasNumeral_iff {slot : Slot} :
    slot.HasNumeral ↔
      (slot.kinds.head? = some .number → (slot.fallback.all fun raw => raw.readInteger.isOk) = true) := by
  unfold HasNumeral
  cases slot.fallback with
  | none => simp
  | some raw =>
    simp only [Option.mem_def, Option.some.injEq, forall_eq', Option.all_some]
    refine imp_congr_right fun _ => ⟨?_, exists_of_isOk⟩
    rintro ⟨n, hn⟩
    rw [hn]
    rfl

instance (slot : Slot) : Decidable slot.HasNumeral := decidable_of_iff' _ hasNumeral_iff

/-- The value that an optional slot stands for where it is left out, placed at the opcode. -/
def standIn (name : Span) (slot : Slot) : Option (Value Span) :=
  slot.fallback.bind fun raw => (Directive.defaultValue slot raw name).toOption

theorem standIn_eq_some (name : Span) {slot : Slot} (hnumeral : slot.HasNumeral) {raw : Text}
    (hraw : slot.fallback = some raw) :
    ∃ v, Directive.defaultValue slot raw name = .ok v ∧ slot.standIn name = some v := by
  have hdefault : ∃ v, Directive.defaultValue slot raw name = .ok v := by
    unfold Directive.defaultValue
    split
    · exact ⟨_, rfl⟩
    · rename_i hnumber
      obtain ⟨n, hn⟩ := hnumeral hnumber raw hraw
      rw [hn]
      exact ⟨_, rfl⟩
    · exact ⟨_, rfl⟩
    · exact ⟨_, rfl⟩
  obtain ⟨v, hv⟩ := hdefault
  refine ⟨v, hv, ?_⟩
  unfold standIn
  rw [hraw, Option.bind_some, hv]
  rfl

/-- The number of slots that may be left out. -/
def spare (slots : List Slot) : Nat := slots.countP (·.isOptional)

@[simp] theorem required_cons (slot : Slot) (slots : List Slot) :
    required (slot :: slots) = required slots + if slot.isOptional then 0 else 1 := by
  unfold required
  rw [List.countP_cons]
  cases slot.isOptional <;> rfl

@[simp] theorem spare_cons (slot : Slot) (slots : List Slot) :
    spare (slot :: slots) = spare slots + if slot.isOptional then 1 else 0 := by
  unfold spare
  rw [List.countP_cons]

/-! ## The rule for one slot after the other -/

/-- The slots that `n` tokens go to, if there are slots for them. -/
def assign : List Slot → Nat → Option (List Slot)
  | [], 0 => some []
  | [], _ + 1 => none
  | slot :: slots, n =>
    if slot.isOptional ∧ n ≤ required slots then assign slots n
    else match n with
      | 0 => none
      | m + 1 => if slot.repeats then some (List.replicate (m + 1) slot) else (assign slots m).map (slot :: ·)

section

variable {slot : Slot} {slots : List Slot} {n : Nat}

theorem assign_left (hleft : slot.isOptional = true ∧ n ≤ required slots) :
    assign (slot :: slots) n = assign slots n := by
  conv_lhs => rw [assign.eq_def]
  simp only [if_pos hleft]

theorem assign_zero (hoptional : slot.isOptional = false) : assign (slot :: slots) 0 = none := by
  simp [assign, hoptional]

theorem assign_taken (htaken : slot.isOptional = true → required slots ≤ n) (hrepeats : slot.repeats = false) :
    assign (slot :: slots) (n + 1) = (assign slots n).map (slot :: ·) := by
  have hnot : ¬ (slot.isOptional = true ∧ n + 1 ≤ required slots) := by
    rintro ⟨hoptional, hle⟩
    have := htaken hoptional
    omega
  simp only [assign, if_neg hnot, hrepeats, Bool.false_eq_true, if_false]

theorem assign_repeated (hoptional : slot.isOptional = false) (hrepeats : slot.repeats = true) :
    assign (slot :: slots) (n + 1) = some (List.replicate (n + 1) slot) := by
  simp [assign, hoptional, hrepeats]

end

/-! ## The rule for all slots at once -/

/-- The required slots and the first `k` optional ones. -/
def served : Nat → List Slot → List Slot
  | _, [] => []
  | k, slot :: slots =>
    if slot.isOptional then
      match k with
      | 0 => served 0 slots
      | k + 1 => slot :: served k slots
    else slot :: served k slots

/-- The last slot, if it repeats. -/
def repeated (slots : List Slot) : Option Slot := slots.getLast?.filter (·.repeats)

/-- How many optional slots `n` tokens can be spared for. -/
def filled (slots : List Slot) (n : Nat) : Nat := min (spare slots) (n - required slots)

/-- The slots that `n` tokens go to: the required ones, as many optional ones as tokens can be spared for, and the last
one again for each token that is left over, if it repeats. -/
def recipients (slots : List Slot) (n : Nat) : List Slot :=
  let first := served (filled slots n) slots
  first ++ (repeated slots).toList.flatMap (List.replicate (n - first.length))

/-- The values of the slots in order: `us` are those of the required slots and of the first `k` optional ones, and an
optional slot after these stands for its default.  What is left of `us` belongs to the last slot. -/
def arrange (name : Span) : Nat → List Slot → List (Value Span) → List (Value Span)
  | _, [], us => us
  | k, slot :: slots, us =>
    if slot.isOptional then
      match k with
      | 0 => (slot.standIn name).toList ++ arrange name 0 slots us
      | k + 1 => us.take 1 ++ arrange name k slots (us.drop 1)
    else us.take 1 ++ arrange name k slots (us.drop 1)

variable {slot : Slot} {slots assigned : List Slot} {n k : Nat}

theorem repeated_cons (hrepeats : slot.repeats = false) : repeated (slot :: slots) = repeated slots := by
  cases slots with
  | nil =>
    show Option.filter (·.repeats) (some slot) = none
    rw [Option.filter_some_neg]
    simpa using hrepeats
  | cons other slots =>
    unfold repeated
    rw [List.getLast?_cons_cons]

theorem filled_left (hn : n ≤ required slots) : filled slots n = 0 := by
  unfold filled
  omega

theorem filled_taken (htaken : slot.isOptional = true → required slots ≤ n) :
    filled (slot :: slots) (n + 1) = filled slots n + if slot.isOptional then 1 else 0 := by
  unfold filled
  rw [required_cons, spare_cons]
  split
  · have := htaken ‹_›
    omega
  · omega

theorem recipients_left (hleft : slot.isOptional = true ∧ n ≤ required slots) (hrepeats : slot.repeats = false) :
    recipients (slot :: slots) n = recipients slots n := by
  have hcons : n ≤ required (slot :: slots) := Nat.le_trans hleft.2 (by rw [required_cons]; omega)
  unfold recipients
  simp only [filled_left hleft.2, filled_left hcons, served, hleft.1, if_true, repeated_cons hrepeats]

theorem recipients_taken (htaken : slot.isOptional = true → required slots ≤ n) (hrepeats : slot.repeats = false) :
    recipients (slot :: slots) (n + 1) = slot :: recipients slots n := by
  have hserved : served (filled (slot :: slots) (n + 1)) (slot :: slots) = slot :: served (filled slots n) slots := by
    rw [filled_taken htaken]
    cases hoptional : slot.isOptional <;> simp [served, hoptional]
  unfold recipients
  dsimp only
  rw [hserved, repeated_cons hrepeats, List.length_cons, Nat.add_sub_add_right, List.cons_append]

/-- Slot by slot, the tokens go where all slots at once say, and there are slots for all of them unless they are too few
or too many. -/
theorem assign_eq_some_iff (hlast : RepeatsLast slots) :
    assign slots n = some assigned ↔
      required slots ≤ n ∧ (n ≤ required slots + spare slots ∨ (repeated slots).isSome) ∧
        assigned = recipients slots n := by
  induction slots generalizing n assigned with
  | nil =>
    cases n with
    | zero => simp [assign, required, spare, recipients, served, repeated, eq_comm]
    | succ n => simp [assign, required, spare, repeated]
  | cons slot slots ih =>
    obtain ⟨hrepeat, hlast⟩ := hlast
    by_cases hrepeats : slot.repeats = true
    · obtain ⟨hoptional, rfl⟩ := hrepeat hrepeats
      have hrepeated : repeated [slot] = some slot := Option.filter_some_pos hrepeats
      cases n with
      | zero => simp [assign_zero, hoptional]
      | succ n =>
        have hrecipients : recipients [slot] (n + 1) = List.replicate (n + 1) slot := by
          simp [recipients, served, hrepeated, hoptional, List.replicate_succ]
        rw [assign_repeated hoptional hrepeats, hrecipients, hrepeated]
        simp [required, hoptional, eq_comm]
    · have hrepeats : slot.repeats = false := by simpa using hrepeats
      rw [repeated_cons hrepeats, required_cons, spare_cons]
      by_cases hleft : slot.isOptional = true ∧ n ≤ required slots
      · rw [assign_left hleft, ih hlast, recipients_left hleft hrepeats, if_pos hleft.1, if_pos hleft.1]
        exact ⟨fun ⟨hle, _, heq⟩ => ⟨hle, .inl (by omega), heq⟩, fun ⟨hle, _, heq⟩ => ⟨hle, .inl (by omega), heq⟩⟩
      · have htaken : slot.isOptional = true → required slots < n := fun hoptional =>
          Nat.not_le.mp fun hle => hleft ⟨hoptional, hle⟩
        cases n with
        | zero =>
          have hoptional : slot.isOptional = false := by
            by_contra hoptional
            exact Nat.not_lt_zero _ (htaken (by simpa using hoptional))
          simp [assign_zero, hoptional]
        | succ n =>
          have htaken : slot.isOptional = true → required slots ≤ n := fun hoptional =>
            Nat.lt_succ_iff.mp (htaken hoptional)
          rw [recipients_taken htaken hrepeats, assign_taken htaken hrepeats]
          simp only [Option.map_eq_some_iff, ih hlast]
          -- one token and one slot are gone on either side
          have hle : required slots + (if slot.isOptional then 0 else 1) ≤ n + 1 ↔ required slots ≤ n := by
            split
            · exact iff_of_true (by have := htaken ‹_›; omega) (htaken ‹_›)
            · omega
          have hroom : n + 1 ≤ required slots + (if slot.isOptional then 0 else 1) +
              (spare slots + if slot.isOptional then 1 else 0) ↔ n ≤ required slots + spare slots := by
            split <;> omega
          rw [hle, hroom]
          constructor
          · rintro ⟨more, ⟨hfew, hmany, rfl⟩, rfl⟩
            exact ⟨hfew, hmany, rfl⟩
          · rintro ⟨hfew, hmany, rfl⟩
            exact ⟨_, ⟨hfew, hmany, rfl⟩, rfl⟩

theorem arrange_left {name : Span} {us : List (Value Span)} (hleft : slot.isOptional = true ∧ n ≤ required slots) :
    arrange name (filled (slot :: slots) n) (slot :: slots) us =
      (slot.standIn name).toList ++ arrange name (filled slots n) slots us := by
  have hcons : n ≤ required (slot :: slots) := Nat.le_trans hleft.2 (by rw [required_cons]; omega)
  simp only [filled_left hleft.2, filled_left hcons, arrange, hleft.1, if_true]

theorem arrange_taken {name : Span} {u : Value Span} {us : List (Value Span)}
    (htaken : slot.isOptional = true → required slots ≤ n) :
    arrange name (filled (slot :: slots) (n + 1)) (slot :: slots) (u :: us) =
      u :: arrange name (filled slots n) slots us := by
  rw [filled_taken htaken]
  cases hoptional : slot.isOptional <;> simp [arrange, hoptional]

theorem arrange_of_fallback {name : Span} {us : List (Value Span)} (hfallback : ∀ slot ∈ slots, slot.fallback = none) :
    arrange name k slots us = us := by
  induction slots generalizing k us with
  | nil => rfl
  | cons slot slots ih =>
    rw [List.forall_mem_cons] at hfallback
    have hnone : slot.standIn name = none := by
      unfold standIn
      rw [hfallback.1, Option.bind_none]
    unfold arrange
    simp only [hnone, ih hfallback.2, Option.toList_none, List.nil_append, List.take_append_drop]
    split
    · cases k <;> rfl
    · rfl

end Slot

namespace Shape

theorem readSlot_eq_ok {opcode t : Text} {isLast : Bool} {fallback : Option Text} {slot : Slot}
    (h : readSlot opcode isLast fallback t = .ok slot) :
    slot.fallback = fallback ∧ (slot.repeats = true → slot.isOptional = false ∧ isLast = true) := by
  unfold readSlot at h
  split at h
  · cases h
  · rename_i parts hsplit
    obtain ⟨kinds, -, h⟩ := bind_eq_ok h
    dsimp only at h
    split at h
    · cases h
    · rename_i hlast
      have hboth : parts.modifier = some ('+' : CodePoint) →
          ¬ parts.modifier = some ('?' : CodePoint) ∧ isLast = true := by
        intro hplus
        refine ⟨by rw [hplus]; decide, ?_⟩
        simpa [hplus] using hlast
      split at h
      · cases h
        exact ⟨rfl, by simpa using hboth⟩
      · obtain ⟨lower, -, h⟩ := bind_eq_ok h
        obtain ⟨upper, -, h⟩ := bind_eq_ok h
        cases h
        exact ⟨rfl, by simpa using hboth⟩

theorem repeatsLast_of_readSlots {opcode : Text} {fallbacks : List (Nat × Text)} {index : Nat} {ts : List Text}
    {slots : List Slot} (h : readSlots opcode fallbacks index ts = .ok slots) : Slot.RepeatsLast slots := by
  induction ts generalizing index slots with
  | nil =>
    cases h
    trivial
  | cons t rest ih =>
    obtain ⟨first, hfirst, h⟩ := bind_eq_ok h
    obtain ⟨more, hmore, h⟩ := bind_eq_ok h
    cases h
    refine ⟨fun hrepeats => ⟨((readSlot_eq_ok hfirst).2 hrepeats).1, ?_⟩, ih hmore⟩
    have hrest : rest = [] := List.isEmpty_iff.mp ((readSlot_eq_ok hfirst).2 hrepeats).2
    rw [hrest] at hmore
    cases hmore
    rfl

theorem repeatsLast_of_read {name written : Text} {takesModifiers : Bool} {fallbacks : List (Nat × Text)} {shape : Shape}
    (h : read name written takesModifiers fallbacks = .ok shape) : Slot.RepeatsLast shape.slots := by
  unfold read at h
  split at h
  · cases h
    trivial
  · obtain ⟨slots, hslots, rfl⟩ := map_eq_ok h
    exact repeatsLast_of_readSlots hslots

theorem repeatsLast_of_readEntry {name written : Text} {shape : Shape} (h : readEntry name written = .ok shape) :
    Slot.RepeatsLast shape.slots := by
  unfold readEntry at h
  split at h
  · exact repeatsLast_of_read h
  · exact repeatsLast_of_read h

end Shape

/-! ## Reading -/

/-- A slot reads a value from a token. -/
structure Slot.Reads (alphabet : Text) (slot : Slot) (t : Token) (v : Value Span) : Prop where
  choose : SlotKind.choose alphabet slot.kinds t = .ok v
  inRange : ∀ n s, v = .number n s → Directive.inRange slot n = true

namespace Directive

variable {alphabet opcode : Text} {slot : Slot} {slots : List Slot} {position : Nat} {name eol : Span} {t : Token}
  {tokens : List Token} {v : Value Span} {vs : List (Value Span)}

/-- Each slot reads its own token. -/
inductive AllRead (alphabet : Text) : List Slot → List Token → List (Value Span) → Prop
  | nil : AllRead alphabet [] [] []
  | cons {slot : Slot} {slots : List Slot} {t : Token} {ts : List Token} {v : Value Span} {vs : List (Value Span)} :
      slot.Reads alphabet t v → AllRead alphabet slots ts vs → AllRead alphabet (slot :: slots) (t :: ts) (v :: vs)

theorem AllRead.length_eq (h : AllRead alphabet slots tokens vs) : vs.length = tokens.length := by
  induction h with
  | nil => rfl
  | cons _ _ ih => rw [List.length_cons, List.length_cons, ih]

theorem readArgument_eq_ok_iff :
    readArgument alphabet opcode slot position t = .ok v ↔ slot.Reads alphabet t v :=
  ⟨fun h => ⟨(choose_of_readArgument h).1, (choose_of_readArgument h).2⟩,
    fun h => readArgument_of_choose h.choose h.inRange⟩

theorem readRepeated_eq_ok_iff :
    readRepeated alphabet opcode slot position tokens = .ok vs ↔
      AllRead alphabet (List.replicate tokens.length slot) tokens vs := by
  induction tokens generalizing position vs with
  | nil =>
    constructor
    · intro h
      cases h
      exact .nil
    · intro h
      cases h
      rfl
  | cons t rest ih =>
    rw [List.length_cons, List.replicate_succ]
    unfold readRepeated
    constructor
    · intro h
      obtain ⟨v, hv, h⟩ := bind_eq_ok h
      obtain ⟨us, hus, h⟩ := bind_eq_ok h
      cases h
      exact .cons (readArgument_eq_ok_iff.mp hv) (ih.mp hus)
    · intro h
      cases h with
      | cons hv hrest =>
        rw [readArgument_eq_ok_iff.mpr hv, ih.mpr hrest]
        rfl

/-- A slot that is left out adds its default, if it has one. -/
theorem readSlots_left (hleft : slot.isOptional = true ∧ tokens.length ≤ Slot.required slots)
    (hnumeral : slot.HasNumeral) {left : List Token} :
    readSlots alphabet opcode name eol position (slot :: slots) tokens = .ok (vs, left) ↔
      ∃ vs', readSlots alphabet opcode name eol (position + 1) slots tokens = .ok (vs', left) ∧
        vs = (slot.standIn name).toList ++ vs' := by
  conv_lhs => rw [readSlots.eq_def]
  simp only [if_pos hleft]
  cases hfallback : slot.fallback with
  | none =>
    have hstand : slot.standIn name = none := by
      unfold Slot.standIn
      rw [hfallback, Option.bind_none]
    simp [hstand]
  | some raw =>
    obtain ⟨v, hv, hstand⟩ := Slot.standIn_eq_some name hnumeral hfallback
    simp only [bind_eq_ok_iff, hv, hstand, Prod.exists]
    constructor
    · rintro ⟨_, heq, vs', left', hvs, h⟩
      cases heq
      cases h
      exact ⟨vs', hvs, rfl⟩
    · rintro ⟨vs', hvs, rfl⟩
      exact ⟨v, rfl, vs', left, hvs, rfl⟩

/-- A slot that is not left out takes one token. -/
theorem readSlots_taken (htaken : ¬ (slot.isOptional = true ∧ tokens.length ≤ Slot.required slots))
    (hrepeats : slot.repeats = false) {left : List Token} :
    readSlots alphabet opcode name eol position (slot :: slots) tokens = .ok (vs, left) ↔
      ∃ t rest v vs', tokens = t :: rest ∧ slot.Reads alphabet t v ∧
        readSlots alphabet opcode name eol (position + 1) slots rest = .ok (vs', left) ∧ vs = v :: vs' := by
  conv_lhs => rw [readSlots.eq_def]
  simp only [if_neg htaken]
  cases tokens with
  | nil => simp
  | cons t rest =>
    simp only [hrepeats, Bool.false_eq_true, if_false, bind_eq_ok_iff, readArgument_eq_ok_iff, Prod.exists]
    constructor
    · rintro ⟨v, hv, vs', left', hvs, h⟩
      cases h
      exact ⟨t, rest, v, vs', rfl, hv, hvs, rfl⟩
    · rintro ⟨_, _, v, vs', heq, hv, hvs, rfl⟩
      cases heq
      exact ⟨v, hv, vs', left, hvs, rfl⟩

/-- A slot that repeats, after which there is none, takes all tokens, and at least one. -/
theorem readSlots_repeated (hoptional : slot.isOptional = false) (hrepeats : slot.repeats = true) :
    readSlots alphabet opcode name eol position [slot] tokens = .ok (vs, []) ↔
      tokens ≠ [] ∧ AllRead alphabet (List.replicate tokens.length slot) tokens vs := by
  unfold readSlots
  cases tokens with
  | nil => simp [hoptional]
  | cons t rest =>
    simp only [hoptional, hrepeats, Bool.false_eq_true, false_and, if_false, if_true, bind_eq_ok_iff,
      readRepeated_eq_ok_iff, readSlots]
    constructor
    · rintro ⟨us, hus, _, heq, h⟩
      cases heq
      cases h
      rw [List.append_nil]
      exact ⟨List.cons_ne_nil _ _, hus⟩
    · rintro ⟨-, hvs⟩
      refine ⟨vs, hvs, _, rfl, ?_⟩
      show Except.ok (vs ++ [], []) = _
      rw [List.append_nil]

/-- The number of tokens decides where each token goes, then each slot reads on its own, and the defaults of the slots
that were left out are put between the values. -/
theorem readSlots_eq_ok_iff_assign (hlast : Slot.RepeatsLast slots) (hnumeral : ∀ slot ∈ slots, slot.HasNumeral) :
    readSlots alphabet opcode name eol position slots tokens = .ok (vs, []) ↔
      ∃ assigned us, Slot.assign slots tokens.length = some assigned ∧ AllRead alphabet assigned tokens us ∧
        vs = Slot.arrange name (Slot.filled slots tokens.length) slots us := by
  induction slots generalizing position tokens vs with
  | nil =>
    unfold readSlots
    constructor
    · intro h
      cases h
      exact ⟨[], [], rfl, .nil, rfl⟩
    · rintro ⟨assigned, us, hassign, hread, rfl⟩
      cases tokens with
      | nil =>
        cases hassign
        cases hread
        rfl
      | cons t tokens => cases hassign
  | cons slot slots ih =>
    obtain ⟨hrepeat, hlast⟩ := hlast
    obtain ⟨hfirst, hrest⟩ := List.forall_mem_cons.mp hnumeral
    by_cases hrepeats : slot.repeats = true
    · obtain ⟨hoptional, rfl⟩ := hrepeat hrepeats
      rw [readSlots_repeated hoptional hrepeats]
      cases tokens with
      | nil => simp [Slot.assign_zero, hoptional]
      | cons t rest =>
        have hall : ∀ k us, Slot.arrange name k [slot] us = us := by
          intro k us
          simp only [Slot.arrange, hoptional, Bool.false_eq_true, if_false, List.take_append_drop]
        simp [Slot.assign_repeated hoptional hrepeats, hall]
    · have hrepeats : slot.repeats = false := by simpa using hrepeats
      by_cases hleft : slot.isOptional = true ∧ tokens.length ≤ Slot.required slots
      · rw [readSlots_left hleft hfirst, Slot.assign_left hleft]
        simp only [ih hlast hrest, Slot.arrange_left hleft]
        constructor
        · rintro ⟨_, ⟨assigned, us, hassigned, hread, rfl⟩, rfl⟩
          exact ⟨assigned, us, hassigned, hread, rfl⟩
        · rintro ⟨assigned, us, hassigned, hread, rfl⟩
          exact ⟨_, ⟨assigned, us, hassigned, hread, rfl⟩, rfl⟩
      · have htaken : slot.isOptional = true → Slot.required slots < tokens.length := fun hoptional =>
          Nat.not_le.mp fun hle => hleft ⟨hoptional, hle⟩
        rw [readSlots_taken hleft hrepeats]
        simp only [ih hlast hrest]
        cases tokens with
        | nil =>
          have hoptional : slot.isOptional = false := by
            by_contra hoptional
            exact Nat.not_lt_zero _ (htaken (by simpa using hoptional))
          simp [Slot.assign_zero hoptional]
        | cons t rest =>
          have htaken : slot.isOptional = true → Slot.required slots ≤ rest.length := fun hoptional =>
            Nat.lt_succ_iff.mp (htaken hoptional)
          rw [List.length_cons, Slot.assign_taken htaken hrepeats]
          constructor
          · rintro ⟨_, _, v, _, heq, hv, ⟨assigned, us, hassigned, hread, rfl⟩, rfl⟩
            cases heq
            exact ⟨slot :: assigned, v :: us, by rw [hassigned]; rfl, .cons hv hread, (Slot.arrange_taken htaken).symm⟩
          · rintro ⟨assigned, us, hassigned, hread, rfl⟩
            obtain ⟨more, hmore, rfl⟩ := Option.map_eq_some_iff.mp hassigned
            cases hread with
            | cons hv hread =>
              exact ⟨t, rest, _, _, rfl, hv, ⟨more, _, hmore, hread, rfl⟩, Slot.arrange_taken htaken⟩

theorem readArguments_eq_ok_iff {shape : Shape} :
    readArguments alphabet shape name eol tokens = .ok vs ↔
      readSlots alphabet shape.name name eol 1 shape.slots tokens = .ok (vs, []) := by
  unfold readArguments
  constructor
  · intro h
    obtain ⟨⟨us, left⟩, hslots, h⟩ := bind_eq_ok h
    cases left with
    | nil =>
      cases h
      exact hslots
    | cons t left => cases h
  · intro h
    rw [h]
    rfl

/-- The arguments of an opcode are read exactly if the tokens are neither too few nor too many for its slots and every
slot reads the token that is handed to it.  The values then stand in the order of the slots, with the defaults of the
optional slots that were left out between them. -/
theorem readArguments_eq_ok_iff_recipients {written : Text} {takesModifiers : Bool} {fallbacks : List (Nat × Text)}
    {shape : Shape} (hshape : Shape.read opcode written takesModifiers fallbacks = .ok shape)
    (hnumeral : ∀ slot ∈ shape.slots, slot.HasNumeral) :
    readArguments alphabet shape name eol tokens = .ok vs ↔
      Slot.required shape.slots ≤ tokens.length ∧
        (tokens.length ≤ Slot.required shape.slots + Slot.spare shape.slots ∨ (Slot.repeated shape.slots).isSome) ∧
        ∃ us, AllRead alphabet (Slot.recipients shape.slots tokens.length) tokens us ∧
          vs = Slot.arrange name (Slot.filled shape.slots tokens.length) shape.slots us := by
  have hlast := Shape.repeatsLast_of_read hshape
  rw [readArguments_eq_ok_iff, readSlots_eq_ok_iff_assign hlast hnumeral]
  simp only [Slot.assign_eq_some_iff hlast]
  constructor
  · rintro ⟨_, us, ⟨hfew, hmany, rfl⟩, hread, hvs⟩
    exact ⟨hfew, hmany, us, hread, hvs⟩
  · rintro ⟨hfew, hmany, us, hread, hvs⟩
    exact ⟨_, us, ⟨hfew, hmany, rfl⟩, hread, hvs⟩

end Directive

/-- An opcode with optional slots before, between and after the required ones, two of them with defaults, and a last slot
that repeats. -/
def mixedShape : Shape :=
  ⟨"mixed",
    [⟨[.number], true, false, some "7", some 1, some 9⟩, ⟨[.characters], false, false, none, none, none⟩,
      ⟨[.dots], true, false, none, none, none⟩, ⟨[.characters], true, false, some "x", none, none⟩,
      ⟨[.dots], false, true, none, none, none⟩],
    false, false⟩

def mixedLine : LogicalLine := .single "mixed 3 ab 12 45" ⟨1, 1, 0⟩

def mixedTokens : List Token :=
  [.plain mixedLine .number 6 7, .plain mixedLine .word 8 10, .plain mixedLine .number 11 13,
    .plain mixedLine .number 14 16]

/-- Four tokens are two more than there are required slots, so that the first two optional slots are filled, and the
third stands for its default. -/
theorem readArguments_mixedTokens :
    Shape.read "mixed" "number?[1..9] characters dots? characters? dots+" false [(0, "7"), (3, "x")] = .ok mixedShape ∧
      (∀ slot ∈ mixedShape.slots, slot.HasNumeral) ∧ Slot.filled mixedShape.slots mixedTokens.length = 2 ∧
      ∃ vs us,
        Directive.readArguments Value.dotDigits mixedShape (mixedLine.span 0 5) mixedLine.endSpan mixedTokens = .ok vs ∧
        vs.map Value.bare = [.number 3 (), .string "ab" (), .dots [[1, 2]] (), .string "x" (), .dots [[4, 5]] ()] ∧
        Directive.AllRead Value.dotDigits (Slot.recipients mixedShape.slots mixedTokens.length) mixedTokens us ∧
        vs = Slot.arrange (mixedLine.span 0 5) (Slot.filled mixedShape.slots mixedTokens.length) mixedShape.slots us := by
  have hshape := toOption_eq_some (by decide +kernel :
    (Shape.read "mixed" "number?[1..9] characters dots? characters? dots+" false [(0, "7"), (3, "x")]).toOption =
      some mixedShape)
  have hnumeral : ∀ slot ∈ mixedShape.slots, slot.HasNumeral := by decide +kernel
  have hread :
      (Directive.readArguments Value.dotDigits mixedShape (mixedLine.span 0 5) mixedLine.endSpan
          mixedTokens).toOption.map (List.map Value.bare) =
        some [.number 3 (), .string "ab" (), .dots [[1, 2]] (), .string "x" (), .dots [[4, 5]] ()] := by
    decide +kernel
  obtain ⟨vs, hvs, hbare⟩ := Option.map_eq_some_iff.mp hread
  obtain ⟨-, -, us, hall, harrange⟩ :=
    (Directive.readArguments_eq_ok_iff_recipients hshape hnumeral).mp (toOption_eq_some hvs)
  exact ⟨hshape, hnumeral, by decide, vs, us, toOption_eq_some hvs, hbare, hall, harrange⟩

end BrailleTable
