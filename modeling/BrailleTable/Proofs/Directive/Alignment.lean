/-
Which slot an argument came from, and which slot the writer takes it for.

The reader goes by the number of tokens that are left, the writer by the number of arguments that are left, and a default
is an argument without a token.  The two agree exactly if, of the optional slots that were left out, those with a default
stand before those without: else the writer hands the default of a later slot to an earlier one that has none.
-/
import BrailleTable.Proofs.Directive.Filling

namespace BrailleTable
namespace Slot

/-! ## Slots by their numbers -/

/-- The slots that the arguments come from when `n` tokens are read, by their numbers, the first of which is `number`. -/
def origins (number : Nat) : List Slot → Nat → List (Nat × Slot)
  | [], _ => []
  | slot :: slots, n =>
    if slot.isOptional ∧ n ≤ required slots then
      (if slot.fallback.isSome then [(number, slot)] else []) ++ origins (number + 1) slots n
    else if slot.repeats then List.replicate n (number, slot)
    else (number, slot) :: origins (number + 1) slots (n - 1)

/-- The slots that the writer takes `n` arguments for. -/
def takers (number : Nat) : List Slot → Nat → List (Nat × Slot)
  | [], _ => []
  | slot :: slots, n =>
    if slot.isOptional ∧ n ≤ required slots ∧ slot.fallback = none then takers (number + 1) slots n
    else if slot.repeats then List.replicate n (number, slot)
    else (number, slot) :: takers (number + 1) slots (n - 1)

/-- The optional slots that `n` tokens do not suffice for. -/
def leftOut (slots : List Slot) (n : Nat) : List Slot := (slots.filter (·.isOptional)).drop (filled slots n)

/-- No slot without a default stands before one with a default. -/
def DefaultsFirst (slots : List Slot) : Prop :=
  slots.Pairwise fun a b => b.fallback.isSome = true → a.fallback.isSome = true

instance (slots : List Slot) : Decidable (DefaultsFirst slots) :=
  inferInstanceAs (Decidable (slots.Pairwise fun a b => b.fallback.isSome = true → a.fallback.isSome = true))

/-- The number of optional slots with a default. -/
def defaulted (slots : List Slot) : Nat := slots.countP fun slot => slot.isOptional && slot.fallback.isSome

variable {slot : Slot} {slots : List Slot} {number n : Nat}

theorem slotKinds_eq_takers (number : Nat) : Directive.slotKinds slots n = (takers number slots n).map (·.2.kinds) := by
  induction slots generalizing number n with
  | nil => rfl
  | cons slot slots ih =>
    unfold Directive.slotKinds takers
    split
    · exact ih (number + 1)
    · split
      · rw [List.map_replicate]
      · rw [List.map_cons, ← ih]

section Cases

theorem origins_left (hleft : slot.isOptional = true ∧ n ≤ required slots) :
    origins number (slot :: slots) n =
      (if slot.fallback.isSome then [(number, slot)] else []) ++ origins (number + 1) slots n := by
  conv_lhs => rw [origins.eq_def]
  simp only [if_pos hleft]

theorem origins_taken (hrepeats : slot.repeats = false) (hn : required slots ≤ n) :
    origins number (slot :: slots) (n + 1) = (number, slot) :: origins (number + 1) slots n := by
  have hnot : ¬ (slot.isOptional = true ∧ n + 1 ≤ required slots) := by omega
  simp only [origins, if_neg hnot, hrepeats, Bool.false_eq_true, if_false, Nat.add_sub_cancel]

theorem takers_skipped (hskip : slot.isOptional = true ∧ n ≤ required slots ∧ slot.fallback = none) :
    takers number (slot :: slots) n = takers (number + 1) slots n := by
  conv_lhs => rw [takers.eq_def]
  simp only [if_pos hskip]

theorem takers_taken (hrepeats : slot.repeats = false)
    (hskip : ¬ (slot.isOptional = true ∧ n + 1 ≤ required slots ∧ slot.fallback = none)) :
    takers number (slot :: slots) (n + 1) = (number, slot) :: takers (number + 1) slots n := by
  simp only [takers, if_neg hskip, hrepeats, Bool.false_eq_true, if_false, Nat.add_sub_cancel]

theorem leftOut_left (hleft : slot.isOptional = true ∧ n ≤ required slots) :
    leftOut (slot :: slots) n = slot :: leftOut slots n := by
  have hcons : n ≤ required (slot :: slots) := Nat.le_trans hleft.2 (by rw [required_cons]; omega)
  simp [leftOut, filled_left hleft.2, filled_left hcons, hleft.1]

theorem leftOut_taken (hn : required slots ≤ n) : leftOut (slot :: slots) (n + 1) = leftOut slots n := by
  unfold leftOut
  rw [filled_taken fun _ => hn]
  cases hoptional : slot.isOptional <;> simp [hoptional]

theorem defaulted_eq_zero_iff :
    defaulted slots = 0 ↔ ∀ other ∈ leftOut slots (required slots), other.fallback.isSome = false := by
  simp [defaulted, leftOut, filled_left]

theorem defaulted_cons :
    defaulted (slot :: slots) = defaulted slots + if slot.isOptional && slot.fallback.isSome then 1 else 0 :=
  List.countP_cons

end Cases

/-- Enough tokens are handed to slots, one slot after the other: a slot is left out when no token can be spared for it,
takes one, or is the last one and takes all. -/
inductive Suffice : List Slot → Nat → Prop
  | nil (n : Nat) : Suffice [] n
  | left {slot : Slot} {slots : List Slot} : slot.isOptional = true → slot.repeats = false →
      Suffice slots (required slots) → Suffice (slot :: slots) (required slots)
  | taken {slot : Slot} {slots : List Slot} {n : Nat} : slot.repeats = false → required slots ≤ n → Suffice slots n →
      Suffice (slot :: slots) (n + 1)
  | last {slot : Slot} (n : Nat) : slot.isOptional = false → slot.repeats = true → Suffice [slot] (n + 1)

theorem suffice_of_required_le (hlast : RepeatsLast slots) (hn : required slots ≤ n) : Suffice slots n := by
  induction slots generalizing n with
  | nil => exact .nil n
  | cons slot slots ih =>
    obtain ⟨hrepeat, hlast⟩ := hlast
    rw [required_cons] at hn
    by_cases hrepeats : slot.repeats = true
    · obtain ⟨hoptional, rfl⟩ := hrepeat hrepeats
      rw [hoptional, if_neg Bool.false_ne_true] at hn
      obtain ⟨m, rfl⟩ := Nat.exists_eq_add_of_le hn
      rw [Nat.add_comm]
      exact .last _ hoptional hrepeats
    · have hrepeats : slot.repeats = false := by simpa using hrepeats
      by_cases hleft : slot.isOptional = true ∧ n ≤ required slots
      · have hall : n = required slots := by
          rw [if_pos hleft.1] at hn
          omega
        rw [hall]
        exact .left hleft.1 hrepeats (ih hlast (Nat.le_refl _))
      · have hmore : required slots + 1 ≤ n := by
          split at hn
          · have := Nat.not_le.mp fun hle => hleft ⟨‹_›, hle⟩
            omega
          · exact hn
        obtain ⟨m, rfl⟩ := Nat.exists_eq_add_of_le hmore
        have htaken : required slots ≤ required slots + m := Nat.le_add_right _ _
        rw [Nat.add_right_comm]
        exact .taken hrepeats htaken (ih hlast htaken)

/-! ## How many there are -/

theorem le_of_mem_origins {p : Nat × Slot} (h : p ∈ origins number slots n) : number ≤ p.1 := by
  induction slots generalizing number n with
  | nil => cases h
  | cons slot slots ih =>
    unfold origins at h
    split at h
    · rcases List.mem_append.mp h with h | h
      · split at h
        · rw [List.mem_singleton.mp h]
        · cases h
      · exact Nat.le_of_succ_le (ih h)
    · split at h
      · rw [List.eq_of_mem_replicate h]
      · rcases List.mem_cons.mp h with rfl | h
        · exact Nat.le_refl _
        · exact Nat.le_of_succ_le (ih h)

theorem Suffice.required_le (h : Suffice slots n) (number : Nat) : required slots ≤ (origins number slots n).length := by
  induction h generalizing number with
  | nil n => exact Nat.zero_le _
  | left hoptional _ _ ih =>
    have := ih (number + 1)
    rw [origins_left ⟨hoptional, Nat.le_refl _⟩, List.length_append, required_cons, if_pos hoptional]
    omega
  | taken hrepeats hn _ ih =>
    have := ih (number + 1)
    rw [origins_taken hrepeats hn, List.length_cons, required_cons]
    split <;> omega
  | last n hoptional hrepeats => simp [origins, required, hoptional, hrepeats]

/-- With no token to spare, every slot that is required and every one that has a default contributes one argument. -/
theorem Suffice.length_origins (h : Suffice slots n) (hn : n = required slots) (number : Nat) :
    (origins number slots n).length = required slots + defaulted slots := by
  induction h generalizing number with
  | nil n => rfl
  | @left slot slots hoptional _ _ ih =>
    rw [origins_left ⟨hoptional, Nat.le_refl _⟩, List.length_append, ih rfl (number + 1), required_cons, defaulted_cons,
      hoptional]
    cases slot.fallback.isSome <;> simp
    omega
  | @taken slot slots n hrepeats hle _ ih =>
    rw [required_cons] at hn ⊢
    cases hoptional : slot.isOptional with
    | true =>
      rw [if_pos hoptional] at hn
      omega
    | false =>
      rw [hoptional] at hn
      rw [origins_taken hrepeats hle, List.length_cons, ih (Nat.succ.inj hn) (number + 1), defaulted_cons, hoptional]
      simp
      omega
  | last n hoptional hrepeats =>
    simp [required, hoptional] at hn
    simp [origins, required, defaulted, hoptional, hrepeats, hn]

/-- Without slots that repeat, the writer never leaves out a slot that is required or has a default. -/
theorem required_add_defaulted_le (hrepeats : ∀ slot ∈ slots, slot.repeats = false) :
    required slots + defaulted slots ≤ (takers number slots n).length := by
  induction slots generalizing number n with
  | nil => exact Nat.zero_le _
  | cons slot slots ih =>
    rw [List.forall_mem_cons] at hrepeats
    rw [required_cons, defaulted_cons]
    by_cases hskip : slot.isOptional = true ∧ n ≤ required slots ∧ slot.fallback = none
    · have := @ih (number + 1) n hrepeats.2
      rw [takers_skipped hskip]
      simpa [hskip.1, hskip.2] using this
    · have := @ih (number + 1) (n - 1) hrepeats.2
      unfold takers
      rw [if_neg hskip, hrepeats.1]
      cases slot.isOptional <;> cases slot.fallback.isSome <;> simp <;> omega

/-! ## Reader and writer -/

/-- Where defaults come first among the slots that were left out, the writer finds every slot that was read. -/
theorem Suffice.takers_eq (h : Suffice slots n) (hfirst : DefaultsFirst (leftOut slots n)) (number : Nat) :
    takers number slots (origins number slots n).length = origins number slots n := by
  induction h generalizing number with
  | nil n => rfl
  | @left slot slots hoptional hrepeats hrest ih =>
    rw [leftOut_left ⟨hoptional, Nat.le_refl _⟩] at hfirst
    obtain ⟨hbefore, hfirst⟩ := List.pairwise_cons.mp hfirst
    rw [origins_left ⟨hoptional, Nat.le_refl _⟩]
    cases hfallback : slot.fallback with
    | some raw =>
      rw [Option.isSome_some, if_pos rfl, List.singleton_append, List.length_cons,
        takers_taken hrepeats (by simp [hfallback]), ih hfirst (number + 1)]
    | none =>
      -- no slot with a default follows, so that no more arguments do than are required
      have hdefaulted : defaulted slots = 0 := by
        refine defaulted_eq_zero_iff.mpr fun other hother => ?_
        simpa [hfallback] using hbefore other hother
      have hlength := hrest.length_origins rfl (number + 1)
      rw [hdefaulted, Nat.add_zero] at hlength
      rw [Option.isSome_none, if_neg Bool.false_ne_true, List.nil_append,
        takers_skipped ⟨hoptional, Nat.le_of_eq hlength, hfallback⟩, ih hfirst (number + 1)]
  | taken hrepeats hle hrest ih =>
    rw [leftOut_taken hle] at hfirst
    have := hrest.required_le (number + 1)
    rw [origins_taken hrepeats hle, List.length_cons, takers_taken hrepeats (by omega), ih hfirst (number + 1)]
  | last n hoptional hrepeats => simp [origins, takers, hoptional, hrepeats]

/-- Otherwise the writer takes the first such default for a slot without one; and if no slot repeats, it expects more
arguments than there are. -/
theorem Suffice.takers_ne (h : Suffice slots n) (hfirst : ¬ DefaultsFirst (leftOut slots n)) (number : Nat) :
    takers number slots (origins number slots n).length ≠ origins number slots n ∧
      ((∀ slot ∈ slots, slot.repeats = false) →
        (origins number slots n).length < (takers number slots (origins number slots n).length).length) := by
  induction h generalizing number with
  | nil n => exact absurd List.Pairwise.nil hfirst
  | @left slot slots hoptional hrepeats hrest ih =>
    rw [leftOut_left ⟨hoptional, Nat.le_refl _⟩] at hfirst
    rw [origins_left ⟨hoptional, Nat.le_refl _⟩]
    cases hfallback : slot.fallback with
    | some raw =>
      have hrest : ¬ DefaultsFirst (leftOut slots (required slots)) := fun hrest =>
        hfirst (List.pairwise_cons.mpr ⟨fun _ _ _ => by rw [hfallback]; rfl, hrest⟩)
      rw [Option.isSome_some, if_pos rfl, List.singleton_append, List.length_cons,
        takers_taken hrepeats (by simp [hfallback])]
      obtain ⟨hne, hlt⟩ := ih hrest (number + 1)
      refine ⟨fun heq => hne (List.cons.inj heq).2, fun hall => ?_⟩
      have := hlt fun other hother => hall other (List.mem_cons_of_mem _ hother)
      rw [List.length_cons]
      omega
    | none =>
      rw [Option.isSome_none, if_neg Bool.false_ne_true, List.nil_append]
      have hlength := hrest.length_origins rfl (number + 1)
      have hdefaulted : defaulted slots ≠ 0 := by
        intro hzero
        have hnone := defaulted_eq_zero_iff.mp hzero
        have hrest : DefaultsFirst (leftOut slots (required slots)) :=
          List.pairwise_of_forall_mem_list fun _ _ other hother hsome => by simp [hnone other hother] at hsome
        exact hfirst (List.pairwise_cons.mpr ⟨fun other hother hsome => by simp [hnone other hother] at hsome, hrest⟩)
      obtain ⟨m, hm⟩ : ∃ m, (origins (number + 1) slots (required slots)).length = m + 1 :=
        Nat.exists_eq_succ_of_ne_zero (by omega)
      rw [hm, takers_taken hrepeats (by omega)]
      constructor
      · intro heq
        have hmem : (number, slot) ∈ origins (number + 1) slots (required slots) := by
          rw [← heq]
          exact List.mem_cons_self
        exact Nat.not_succ_le_self number (le_of_mem_origins hmem)
      · intro hall
        have := @required_add_defaulted_le slots (number + 1) m fun other hother =>
          hall other (List.mem_cons_of_mem _ hother)
        rw [List.length_cons]
        omega
  | @taken slot slots n hrepeats hle hrest ih =>
    rw [leftOut_taken hle] at hfirst
    have := hrest.required_le (number + 1)
    rw [origins_taken hrepeats hle, List.length_cons, takers_taken hrepeats (by omega)]
    obtain ⟨hne, hlt⟩ := ih hfirst (number + 1)
    refine ⟨fun heq => hne (List.cons.inj heq).2, fun hall => ?_⟩
    have := hlt fun other hother => hall other (List.mem_cons_of_mem _ hother)
    rw [List.length_cons]
    omega
  | last n hoptional hrepeats =>
    refine absurd ?_ hfirst
    simp [leftOut, hoptional, DefaultsFirst]

end Slot

namespace Directive

/-! ## Arguments with the slots that they come from -/

/-- An argument, with the slot that it was read by or is the default of, and the number of the slot. -/
structure Taken where
  number : Nat
  slot : Slot
  value : Value Span

variable {alphabet opcode : Text} {name eol : Span} {number : Nat} {slots : List Slot} {tokens left : List Token}
  {ps : List Taken}

/-- Hands the tokens of a line to slots as `readSlots` does, and keeps each slot beside its values. -/
def traceSlots (alphabet opcode : Text) (name eol : Span) (number : Nat) :
    List Slot → List Token → Except Failure (List Taken × List Token)
  | [], tokens => .ok ([], tokens)
  | slot :: slots, tokens =>
    if slot.isOptional ∧ tokens.length ≤ Slot.required slots then
      match slot.fallback with
      | none => traceSlots alphabet opcode name eol (number + 1) slots tokens
      | some raw => do
        let v ← defaultValue slot raw name
        let (ps, left) ← traceSlots alphabet opcode name eol (number + 1) slots tokens
        return (⟨number, slot, v⟩ :: ps, left)
    else match tokens with
      | [] => .error (.parse (missing opcode slot number eol))
      | t :: rest =>
        if slot.repeats then do
          let vs ← readRepeated alphabet opcode slot number (t :: rest)
          let (ps, left) ← traceSlots alphabet opcode name eol (number + 1) slots []
          return (vs.map (Taken.mk number slot) ++ ps, left)
        else do
          let v ← readArgument alphabet opcode slot number t
          let (ps, left) ← traceSlots alphabet opcode name eol (number + 1) slots rest
          return (⟨number, slot, v⟩ :: ps, left)

/-- The reader is the traced reader without the trace. -/
theorem readSlots_eq_traceSlots :
    readSlots alphabet opcode name eol number slots tokens =
      (traceSlots alphabet opcode name eol number slots tokens).map fun found => (found.1.map Taken.value, found.2) := by
  induction slots generalizing number tokens with
  | nil => rfl
  | cons slot slots ih =>
    unfold readSlots traceSlots
    split
    · cases slot.fallback with
      | none => exact ih
      | some raw =>
        dsimp only
        rw [ih]
        cases defaultValue slot raw name with
        | error f => rfl
        | ok v => cases traceSlots alphabet opcode name eol (number + 1) slots tokens <;> rfl
    · cases tokens with
      | nil => rfl
      | cons t rest =>
        dsimp only
        split
        · rw [ih]
          cases readRepeated alphabet opcode slot number (t :: rest) with
          | error f => rfl
          | ok vs =>
            cases traceSlots alphabet opcode name eol (number + 1) slots [] with
            | error f => rfl
            | ok found => simp [Except.map, bind, Except.bind, pure, Except.pure, Function.comp_def]
        · rw [ih]
          cases readArgument alphabet opcode slot number t with
          | error f => rfl
          | ok v => cases traceSlots alphabet opcode name eol (number + 1) slots rest <;> rfl

theorem required_le_of_readSlots (hlast : Slot.RepeatsLast slots) {vs : List (Value Span)}
    (h : readSlots alphabet opcode name eol number slots tokens = .ok (vs, left)) :
    Slot.required slots ≤ tokens.length := by
  induction slots generalizing number tokens vs left with
  | nil => exact Nat.zero_le _
  | cons slot slots ih =>
    obtain ⟨hrepeat, hlast⟩ := hlast
    rw [Slot.required_cons]
    rcases readSlots_cons_eq_ok h with ⟨hoptional, -, -, hmore⟩ | ⟨raw, v, vs', hoptional, -, -, -, hmore⟩ |
      ⟨us, vs', hrepeats, hne, -, -, -⟩ | ⟨t, rest, v, vs', -, rfl, -, -, hmore⟩
    · rw [if_pos hoptional]
      exact ih hlast hmore
    · rw [if_pos hoptional]
      exact ih hlast hmore
    · obtain ⟨hoptional, rfl⟩ := hrepeat hrepeats
      rw [hoptional]
      exact List.length_pos_of_ne_nil hne
    · have := ih hlast hmore
      rw [List.length_cons]
      split <;> omega

/-- The slots of the trace are those that the number of tokens says. -/
theorem map_slot_of_traceSlots (hlast : Slot.RepeatsLast slots)
    (h : traceSlots alphabet opcode name eol number slots tokens = .ok (ps, left)) :
    ps.map (fun p => (p.number, p.slot)) = Slot.origins number slots tokens.length := by
  induction slots generalizing number tokens ps left with
  | nil =>
    cases h
    rfl
  | cons slot slots ih =>
    obtain ⟨hrepeat, hlast⟩ := hlast
    unfold traceSlots at h
    unfold Slot.origins
    split at h
    · rename_i hleft
      rw [if_pos hleft]
      cases hfallback : slot.fallback with
      | none =>
        rw [hfallback] at h
        exact ih hlast h
      | some raw =>
        rw [hfallback] at h
        obtain ⟨v, -, h⟩ := bind_eq_ok h
        obtain ⟨⟨qs, left'⟩, hqs, h⟩ := bind_eq_ok h
        cases h
        rw [List.map_cons, ih hlast hqs]
        rfl
    · rename_i hleft
      rw [if_neg hleft]
      cases tokens with
      | nil => cases h
      | cons t rest =>
        dsimp only at h
        split at h
        · rename_i hrepeats
          obtain ⟨-, rfl⟩ := hrepeat hrepeats
          obtain ⟨vs, hvs, h⟩ := bind_eq_ok h
          cases h
          rw [if_pos hrepeats, ← (readRepeated_eq_ok hvs).1]
          simp [Function.comp_def]
        · rename_i hrepeats
          obtain ⟨v, -, h⟩ := bind_eq_ok h
          obtain ⟨⟨qs, left'⟩, hqs, h⟩ := bind_eq_ok h
          cases h
          rw [if_neg hrepeats, List.map_cons, ih hlast hqs]
          rfl

/-- Arguments that were read have slots that they came from. -/
theorem exists_trace_of_readArguments {shape : Shape} (hlast : Slot.RepeatsLast shape.slots) {args : List (Value Span)}
    (h : readArguments alphabet shape name eol tokens = .ok args) :
    ∃ ps, traceSlots alphabet shape.name name eol 1 shape.slots tokens = .ok (ps, []) ∧ args = ps.map Taken.value ∧
      ps.map (fun p => (p.number, p.slot)) = Slot.origins 1 shape.slots tokens.length ∧
      Slot.Suffice shape.slots tokens.length := by
  have hread := readArguments_eq_ok_iff.mp h
  have hsuffice := Slot.suffice_of_required_le hlast (required_le_of_readSlots hlast hread)
  rw [readSlots_eq_traceSlots] at hread
  obtain ⟨⟨ps, left⟩, htrace, hfound⟩ := map_eq_ok hread
  obtain ⟨hargs, hleft⟩ := Prod.mk.inj hfound
  obtain rfl : left = [] := hleft
  exact ⟨ps, htrace, hargs.symm, map_slot_of_traceSlots hlast htrace, hsuffice⟩

/-- The writer takes every argument for the slot that it came from exactly if, of the optional slots that were left out,
those with a default stand before those without; and if no slot repeats, it finds the kinds of those slots only then. -/
theorem slotKinds_eq_iff_defaultsFirst {written : Text} {takesModifiers : Bool} {fallbacks : List (Nat × Text)}
    {shape : Shape} (hshape : Shape.read opcode written takesModifiers fallbacks = .ok shape) {args : List (Value Span)}
    (h : readArguments alphabet shape name eol tokens = .ok args) :
    ∃ ps, traceSlots alphabet shape.name name eol 1 shape.slots tokens = .ok (ps, []) ∧ args = ps.map Taken.value ∧
      (Slot.takers 1 shape.slots args.length = ps.map (fun p => (p.number, p.slot)) ↔
        Slot.DefaultsFirst (Slot.leftOut shape.slots tokens.length)) ∧
      (Slot.DefaultsFirst (Slot.leftOut shape.slots tokens.length) →
        slotKinds shape.slots args.length = ps.map (·.slot.kinds)) ∧
      ((∀ slot ∈ shape.slots, slot.repeats = false) → slotKinds shape.slots args.length = ps.map (·.slot.kinds) →
        Slot.DefaultsFirst (Slot.leftOut shape.slots tokens.length)) := by
  obtain ⟨ps, htrace, rfl, horigins, hsuffice⟩ :=
    exists_trace_of_readArguments (Shape.repeatsLast_of_read hshape) h
  have hlength : (ps.map Taken.value).length = (Slot.origins 1 shape.slots tokens.length).length := by
    rw [← horigins, List.length_map, List.length_map]
  have hkinds : ps.map (·.slot.kinds) = (Slot.origins 1 shape.slots tokens.length).map (·.2.kinds) := by
    rw [← horigins, List.map_map]
    rfl
  refine ⟨ps, htrace, rfl, ?_, fun hfirst => ?_, fun hrepeats heq => ?_⟩
  · rw [horigins, hlength]
    exact ⟨fun heq => not_not.mp fun hfirst => (hsuffice.takers_ne hfirst 1).1 heq,
      fun hfirst => hsuffice.takers_eq hfirst 1⟩
  · rw [hkinds, hlength, Slot.slotKinds_eq_takers 1, hsuffice.takers_eq hfirst 1]
  · by_contra hfirst
    have hlt := (hsuffice.takers_ne hfirst 1).2 hrepeats
    rw [hkinds, hlength, Slot.slotKinds_eq_takers 1] at heq
    have hsame := congrArg List.length heq
    rw [List.length_map, List.length_map] at hsame
    exact Nat.ne_of_gt hlt hsame

end Directive

/-- An opcode whose first slot has no default, and whose second slot has one. -/
def lateDefault : Shape :=
  ⟨"foo",
    [⟨[.filename], true, false, none, none, none⟩, ⟨[.characters], true, false, some "a b", none, none⟩,
      ⟨[.dots], false, false, none, none, none⟩],
    false, false⟩

def lateLine : LogicalLine := .single "foo 12" ⟨1, 1, 0⟩

/-- The default of the second slot is taken for a file name, and the one token for the text of the second slot. -/
theorem slotKinds_lateDefault :
    Shape.read "foo" "filename? characters? dots" false [(1, "a b")] = .ok lateDefault ∧
      ∃ args ps,
        Directive.readArguments Value.dotDigits lateDefault (lateLine.span 0 3) lateLine.endSpan
          [.plain lateLine .number 4 6] = .ok args ∧
        Directive.traceSlots Value.dotDigits "foo" (lateLine.span 0 3) lateLine.endSpan 1 lateDefault.slots
          [.plain lateLine .number 4 6] = .ok (ps, []) ∧
        args = ps.map Directive.Taken.value ∧ args.map Value.bare = [.string "a b" (), .dots [[1, 2]] ()] ∧
        Directive.slotKinds lateDefault.slots args.length = [[.filename], [.characters], [.dots]] ∧
        ¬ Slot.takers 1 lateDefault.slots args.length = ps.map fun p => (p.number, p.slot) := by
  have hshape := toOption_eq_some (by decide +kernel :
    (Shape.read "foo" "filename? characters? dots" false [(1, "a b")]).toOption = some lateDefault)
  have hread :
      (Directive.readArguments Value.dotDigits lateDefault (lateLine.span 0 3) lateLine.endSpan
          [.plain lateLine .number 4 6]).toOption.map (List.map Value.bare) =
        some [.string "a b" (), .dots [[1, 2]] ()] := by
    decide +kernel
  obtain ⟨args, hargs, hbare⟩ := Option.map_eq_some_iff.mp hread
  have hlength : args.length = 2 := by
    rw [← List.length_map Value.bare, hbare]
    rfl
  obtain ⟨ps, htrace, hvalues, hiff, -⟩ :=
    Directive.slotKinds_eq_iff_defaultsFirst hshape (toOption_eq_some hargs)
  refine ⟨hshape, args, ps, toOption_eq_some hargs, htrace, hvalues, hbare, by rw [hlength]; decide, fun heq => ?_⟩
  exact absurd (hiff.mp heq) (by decide)

end BrailleTable
