/-
The directives of a table conform to the shapes of their opcodes.

A slot takes a value of one of its kinds, and each kind keeps its own rules: ranges of numbers, dots of the alphabet,
ranges of characters that do not descend.  The one default of the standard vocabulary is a character in a slot for
characters, and a configuration adds none.  So whatever opcodes it adds, every argument of a directive is one that its
slot allows, and the writer finds that slot from the number of arguments alone.
-/
import BrailleTable.Proofs.Directive.Alignment
import BrailleTable.Proofs.Directive.Mode
import BrailleTable.Proofs.Table.Spans

namespace BrailleTable

/-! ## Values in their slots -/

/-- The values of a kind, in a slot that bounds numbers and over an alphabet of dots. -/
inductive Slot.Gives (alphabet : Text) (slot : Slot) : SlotKind → Value Span → Prop
  | dots {cells : List (List Int)} {s : Span} : Value.IsPatternOf alphabet cells → Gives alphabet slot .dots (.dots cells s)
  | character {c : CodePoint} {s : Span} : Gives alphabet slot .character (.character [c] s)
  | characters {t : Text} {s : Span} : t ≠ [] → Gives alphabet slot .characters (.string t s)
  | charClass {ranges : List (Text × Text)} {s : Span} :
      Value.IsRanges ranges → Gives alphabet slot .charClass (.charClass ranges s)
  | number {n : Int} {s : Span} : (∀ lower ∈ slot.lower, (lower : Int) ≤ n) → (∀ upper ∈ slot.upper, n ≤ (upper : Int)) →
      Gives alphabet slot .number (.number n s)
  | name {t : Text} {s : Span} : Gives alphabet slot .name (.name t s)
  | filename {t : Text} {s : Span} : Gives alphabet slot .filename (.string t s)
  | string {t : Text} {s : Span} : Gives alphabet slot .string (.string t s)

/-- A value of one of the kinds of a slot. -/
def Slot.Allows (alphabet : Text) (slot : Slot) (v : Value Span) : Prop :=
  ∃ kind ∈ slot.kinds, slot.Gives alphabet kind v

/-- A slot whose default, if it has one, is a character, and which takes one. -/
def Slot.DefaultsToCharacter (slot : Slot) : Prop :=
  ∀ raw ∈ slot.fallback, slot.kinds.head? = some .character ∧ raw.length = 1

instance (slot : Slot) : Decidable slot.DefaultsToCharacter :=
  inferInstanceAs (Decidable (∀ raw ∈ slot.fallback, slot.kinds.head? = some .character ∧ raw.length = 1))

namespace Directive

variable {alphabet opcode : Text} {slot : Slot} {slots : List Slot} {number : Nat} {name eol : Span} {t : Token}
  {tokens left : List Token} {v : Value Span} {ps : List Taken}

theorem exists_number_of_readNumber (h : Value.readNumber t = .ok v) : ∃ n, v = .number n t.span := by
  unfold Value.readNumber at h
  split at h
  · cases h
  · split at h <;> cases h
    exact ⟨_, rfl⟩

theorem inRange_iff {n : Int} :
    inRange slot n = true ↔ (∀ lower ∈ slot.lower, (lower : Int) ≤ n) ∧ ∀ upper ∈ slot.upper, n ≤ (upper : Int) := by
  unfold inRange
  cases slot.lower <;> cases slot.upper <;> simp

theorem gives_of_read (halphabet : ∀ c ∈ alphabet, TokenKind.isDotDigit c = true) {kind : SlotKind}
    (h : kind.read alphabet t = .ok v) (hrange : ∀ n s, v = .number n s → inRange slot n = true) :
    slot.Gives alphabet kind v := by
  cases kind with
  | dots =>
    obtain ⟨cells, rfl, hcells⟩ := Value.isPatternOf_of_readDots halphabet (mapError_eq_ok h)
    exact .dots hcells
  | character =>
    obtain ⟨c, rfl⟩ := Value.exists_of_readCharacter (mapError_eq_ok h)
    exact .character
  | characters =>
    obtain ⟨w, rfl, hw⟩ := Value.exists_of_readCharacters (mapError_eq_ok h)
    exact .characters hw
  | charClass =>
    obtain ⟨ranges, rfl, hranges⟩ := Value.isRanges_of_readClass (mapError_eq_ok h)
    exact .charClass hranges
  | number =>
    obtain ⟨n, rfl⟩ := exists_number_of_readNumber h
    obtain ⟨hlower, hupper⟩ := inRange_iff.mp (hrange n _ rfl)
    exact .number hlower hupper
  | name =>
    obtain ⟨w, -, rfl⟩ := map_eq_ok (mapError_eq_ok h)
    exact .name
  | filename =>
    obtain ⟨_, -, h⟩ := bind_eq_ok (mapError_eq_ok h)
    cases h
    exact .filename
  | string =>
    obtain ⟨_, -, h⟩ := bind_eq_ok (mapError_eq_ok h)
    cases h
    exact .string

theorem allows_of_readArgument (halphabet : ∀ c ∈ alphabet, TokenKind.isDotDigit c = true)
    (h : readArgument alphabet opcode slot number t = .ok v) : slot.Allows alphabet v := by
  obtain ⟨hchoose, hrange⟩ := choose_of_readArgument h
  obtain ⟨kind, hmem, hread⟩ := SlotKind.exists_of_chooseAfter hchoose
  exact ⟨kind, hmem, gives_of_read halphabet hread hrange⟩

theorem allows_of_defaultValue {raw : Text} (hslot : slot.DefaultsToCharacter) (hraw : slot.fallback = some raw)
    (h : defaultValue slot raw name = .ok v) : slot.Allows alphabet v := by
  obtain ⟨hhead, hlength⟩ := hslot raw hraw
  obtain ⟨c, rfl⟩ := List.length_eq_one_iff.mp hlength
  unfold defaultValue at h
  rw [hhead] at h
  cases h
  exact ⟨.character, List.mem_of_head? hhead, .character⟩

/-- Every argument is one that the slot it came from allows. -/
theorem allows_of_traceSlots (halphabet : ∀ c ∈ alphabet, TokenKind.isDotDigit c = true)
    (hslots : ∀ slot ∈ slots, slot.DefaultsToCharacter)
    (h : traceSlots alphabet opcode name eol number slots tokens = .ok (ps, left)) :
    ∀ p ∈ ps, p.slot.Allows alphabet p.value := by
  induction slots generalizing number tokens ps left with
  | nil =>
    cases h
    exact fun p hp => absurd hp List.not_mem_nil
  | cons slot slots ih =>
    obtain ⟨hslot, hslots⟩ := List.forall_mem_cons.mp hslots
    unfold traceSlots at h
    split at h
    · split at h
      · exact ih hslots h
      · rename_i raw hraw
        obtain ⟨v, hv, h⟩ := bind_eq_ok h
        obtain ⟨⟨qs, left'⟩, hqs, h⟩ := bind_eq_ok h
        cases h
        exact List.forall_mem_cons.mpr ⟨allows_of_defaultValue hslot hraw hv, ih hslots hqs⟩
    · split at h
      · cases h
      · split at h
        · obtain ⟨vs, hvs, h⟩ := bind_eq_ok h
          obtain ⟨⟨qs, left'⟩, hqs, h⟩ := bind_eq_ok h
          cases h
          intro p hp
          rcases List.mem_append.mp hp with hp | hp
          · obtain ⟨v, hv, rfl⟩ := List.mem_map.mp hp
            obtain ⟨t, -, position, hread⟩ := (readRepeated_eq_ok hvs).2 v hv
            exact allows_of_readArgument halphabet hread
          · exact ih hslots hqs p hp
        · obtain ⟨v, hv, h⟩ := bind_eq_ok h
          obtain ⟨⟨qs, left'⟩, hqs, h⟩ := bind_eq_ok h
          cases h
          exact List.forall_mem_cons.mpr ⟨allows_of_readArgument halphabet hv, ih hslots hqs⟩

end Directive

/-! ## Shapes that a configuration makes -/

namespace Dialect

variable {settings : List (Text × Datum)} {opcodes : List (Text × Text)} {d : Dialect}

theorem repeatsLast_of_configure (h : configure settings opcodes = .ok d) :
    ∀ shape ∈ d.vocabulary, Slot.RepeatsLast shape.slots :=
  forall_mem_vocabulary h (by decide) fun _ _ _ hread => Shape.repeatsLast_of_readEntry hread

theorem defaultsToCharacter_of_configure (h : configure settings opcodes = .ok d) :
    ∀ shape ∈ d.vocabulary, ∀ slot ∈ shape.slots, slot.DefaultsToCharacter := by
  refine forall_mem_vocabulary h (by decide) fun _ _ _ hread slot hslot raw hraw => ?_
  rw [(Shape.isSound_of_readEntry hread slot hslot).2] at hraw
  cases hraw

end Dialect

/-- Where only the first slot has a default, defaults come first among the slots that are left out. -/
theorem Slot.defaultsFirst_leftOut {slots : List Slot} (h : ∀ slot ∈ slots.tail, slot.fallback = none) (n : Nat) :
    DefaultsFirst (leftOut slots n) := by
  have hall : DefaultsFirst slots := by
    cases slots with
    | nil => exact .nil
    | cons first rest =>
      refine List.pairwise_cons.mpr ⟨fun slot hslot hsome => ?_, ?_⟩
      · rw [h slot hslot] at hsome
        cases hsome
      · refine List.pairwise_of_forall_mem_list fun _ _ slot hslot hsome => ?_
        rw [h slot hslot] at hsome
        cases hsome
  exact hall.sublist ((List.drop_sublist _ _).trans List.filter_sublist)

/-! ## Directives -/

namespace Directive

/-- What the shape of an opcode says of its directives.  The arguments come from the slots that some number of tokens is
handed to, and these are the slots that the writer takes them for. -/
structure Conforms (d : Dialect) (shape : Shape) (r : Directive Span) : Prop where
  lookup : d.vocabulary.lookup r.opcode = some shape
  apart : ¬ (r.modifiers.contains .noback = true ∧ r.modifiers.contains .nofor = true)
  modifiers : shape.takesModifiers = false → r.modifiers = .none
  multipart : shape.isMultipart = true → r.args = [] ∧ r.expression.isSome = true
  plain : shape.isMultipart = false → r.expression = none ∧
    ∃ n, Slot.takers 1 shape.slots r.args.length = Slot.origins 1 shape.slots n ∧
      List.Forall₂ (fun origin v => origin.2.Allows d.dotAlphabet v) (Slot.origins 1 shape.slots n) r.args

theorem not_both_of_pairwise {ms : Modifiers} (h : ms.toList.Pairwise Apart) :
    ¬ (ms.contains .noback = true ∧ ms.contains .nofor = true) := by
  rintro ⟨hnoback, hnofor⟩
  have hmem : ∀ m : Modifier, ms.contains m = true → m ∈ ms.toList := fun m hm =>
    List.mem_filter.mpr ⟨by cases m <;> decide, hm⟩
  exact absurd (h.forall (hmem _ hnoback) (hmem _ hnofor) (by decide)) (by decide)

theorem conforms_of_readArguments {d : Dialect} {shape : Shape} {name eol : Span} {tokens : List Token}
    {args : List (Value Span)} (hlast : Slot.RepeatsLast shape.slots)
    (hslots : ∀ slot ∈ shape.slots, slot.DefaultsToCharacter) (htail : ∀ slot ∈ shape.slots.tail, slot.fallback = none)
    (h : readArguments d.dotAlphabet shape name eol tokens = .ok args) :
    Slot.takers 1 shape.slots args.length = Slot.origins 1 shape.slots tokens.length ∧
      List.Forall₂ (fun origin v => origin.2.Allows d.dotAlphabet v) (Slot.origins 1 shape.slots tokens.length) args := by
  obtain ⟨ps, htrace, rfl, horigins, hsuffice⟩ := exists_trace_of_readArguments hlast h
  have htakers := hsuffice.takers_eq (Slot.defaultsFirst_leftOut htail _) 1
  rw [← horigins] at htakers ⊢
  constructor
  · rwa [List.length_map] at htakers ⊢
  · rw [List.forall₂_map_left_iff, List.forall₂_map_right_iff, List.forall₂_same]
    exact allows_of_traceSlots d.dotAlphabet_digits hslots htrace

theorem conforms_of_parse {settings : List (Text × Dialect.Datum)} {opcodes : List (Text × Text)} {d : Dialect}
    (hd : Dialect.configure settings opcodes = .ok d) {tokens : List Token} {eol : Span} {comment : Option Text}
    {r : Directive Span} (h : parse d tokens eol comment = .ok r) : ∃ shape, r.Conforms d shape := by
  obtain ⟨ms, t, arguments, shape, hms, hopcode, hname, hmodifiers, -, hoperands⟩ := parse_eq_ok h
  have hlookup := (lookup_of_readOpcode hopcode).2
  obtain ⟨hmem, hlower⟩ := lookup_eq_some hlookup
  refine ⟨shape, by rw [hname, hlower, hlookup], ?_, fun htakes => ?_, fun hmultipart => ?_, fun hmultipart => ?_⟩
  · rw [hmodifiers]
    exact not_both_of_pairwise (pairwise_modifiers hms)
  · rw [hmodifiers]
    rcases (readOpcode_eq_ok hopcode).2 with rfl | htakes'
    · rfl
    · rw [htakes] at htakes'
      cases htakes'
  · generalize r.args = args at hoperands ⊢
    generalize r.expression = expression at hoperands ⊢
    cases hoperands with
    | expression _ _ => exact ⟨rfl, rfl⟩
    | arguments hplain _ =>
      rw [hmultipart] at hplain
      cases hplain
  · generalize r.args = args at hoperands ⊢
    generalize r.expression = expression at hoperands ⊢
    cases hoperands with
    | expression hexpression _ =>
      rw [hmultipart] at hexpression
      cases hexpression
    | arguments _ hargs =>
      exact ⟨rfl, _, conforms_of_readArguments (Dialect.repeatsLast_of_configure hd shape hmem)
        (Dialect.defaultsToCharacter_of_configure hd shape hmem) (Dialect.fallback_of_configure hd shape hmem) hargs⟩

end Directive

/-- Every directive of a table conforms to the shape of its opcode. -/
theorem Table.exists_conforms_of_parse {settings : List (Text × Dialect.Datum)} {opcodes : List (Text × Text)}
    {d : Dialect} (hd : Dialect.configure settings opcodes = .ok d) {text : Text} {table : Table}
    (h : parse d text = .ok table) : ∀ r ∈ table.directives, ∃ shape, r.Conforms d shape := by
  intro r hr
  obtain ⟨line, -, halone⟩ := exists_line_of_parse h r hr
  obtain ⟨tokens, comment, -, hparse⟩ := exists_parse_of_readAlone halone
  exact Directive.conforms_of_parse hd hparse

/-- An opcode with optional, repeated and bounded slots under a modifier, a default, and an expression. -/
def shapedSource : Text := "noback shout 3 [a-c] 12 3-4\nshout ab 5\nspace 0\nnofor pass2 test _digit actions go 7\n"

theorem exists_conforms_shapedSource :
    ∃ d, Dialect.configure [("dot_alphabet", .text "012345678")]
        [("Shout", "prefixable number?[1..9] class|characters dots+")] = .ok d ∧
      ∃ table, Table.parse d shapedSource = .ok table ∧ table.directives.length = 4 ∧
        ∀ r ∈ table.directives, ∃ shape, r.Conforms d shape := by
  have haccepted : ((Dialect.configure [("dot_alphabet", .text "012345678")]
      [("Shout", "prefixable number?[1..9] class|characters dots+")]).toOption.bind fun d =>
      (Table.parse d shapedSource).toOption.map fun table => table.directives.length) = some 4 := by
    decide +kernel
  obtain ⟨d, hd, haccepted⟩ := toOption_bind_eq_some haccepted
  obtain ⟨table, htable, hlength⟩ := Option.map_eq_some_iff.mp haccepted
  have hparse := toOption_eq_some htable
  exact ⟨d, hd, table, hparse, hlength, Table.exists_conforms_of_parse hd hparse⟩

end BrailleTable
