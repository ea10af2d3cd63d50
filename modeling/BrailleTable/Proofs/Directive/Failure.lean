/-
The failures of a line.

A line is read, or it is refused with an error about a place of the line, or it has a number with more digits than may be
converted.  With a sound vocabulary there is no fourth case: a slot always has a kind to read, and no default is refused.
-/
import BrailleTable.Proofs.Dialect.Configured
import BrailleTable.Proofs.Directive.Arguments
import BrailleTable.Proofs.Directive.Head
import BrailleTable.Proofs.Expression.Failure
import BrailleTable.Proofs.Text.Decimal
import BrailleTable.Proofs.Token.Located
import BrailleTable.Proofs.Value.Name
import BrailleTable.Table

namespace BrailleTable

/-- The categories of the errors that a table is refused with.  An error of a single value is not one of them: the argument
or the expression that the value belongs to is refused in its stead. -/
def Category.IsReported : Category → Prop
  | .lexical | .unknownOpcode _ | .argument _ _ _ | .expression _ | .continuation => True
  | .general | .value => False

/-- The failure of a number that has too many digits. -/
def Token.IsOversized (t : Token) (f : Failure) : Prop :=
  t.kind = .number ∧ Text.digitLimit < t.text.length ∧ f = .oversizedNumber t.text.length

/-- A failure that a line can end in. -/
inductive Failure.Arises (line : LogicalLine) : Failure → Prop
  | error {e : ParseError} : e.category.IsReported → line.Locates e.span → Arises line (.parse e)
  | oversized {t : Token} {f : Failure} : t.CutFrom line → t.IsOversized f → Arises line f

variable {line : LogicalLine} {t : Token} {f : Failure}

/-- The digits of a number that is too long are a run of digits of the line. -/
theorem Token.CutFrom.exists_run_of_number (ht : t.CutFrom line) (hkind : t.kind = .number) :
    t.text <:+: line.text ∧ t.text ≠ [] ∧ ∀ c ∈ t.text, c.isDigit = true := by
  obtain ⟨htext, -, -⟩ := ht.plain (by rw [hkind]; decide)
  refine ⟨?_, TokenKind.isDigit_of_ofText_eq_number (htext.symm.trans hkind)⟩
  rw [ht.text_eq]
  exact (List.drop_suffix _ _).isInfix.trans (List.take_prefix _ _).isInfix

/-! ## Values -/

theorem Value.parse_or_isOversized_of_readNumber (ht : t.CutFrom line) (h : readNumber t = .error f) :
    (∃ e, f = .parse e) ∨ t.IsOversized f := by
  unfold readNumber at h
  cases hrequire : requireKind t [.number] [.number] "number" with
  | error e =>
    rw [hrequire] at h
    cases h
    exact .inl ⟨e, rfl⟩
  | ok u =>
    rw [hrequire] at h
    have hkind : t.kind = .number := List.mem_singleton.mp (requireKind_eq_ok_iff.mp hrequire)
    obtain ⟨-, hne, hall⟩ := ht.exists_run_of_number hkind
    rw [Text.readInteger_of_isDigit hne hall] at h
    by_cases hlimit : Text.digitLimit < t.text.length
    · rw [if_pos hlimit] at h
      cases h
      exact .inr ⟨hkind, hlimit, rfl⟩
    · rw [if_neg hlimit] at h
      cases h

theorem exists_parse_of_mapError {α : Type} {x : Except ParseError α} (h : x.mapError Failure.parse = .error f) :
    ∃ e, f = .parse e := by
  obtain ⟨e, -, rfl⟩ := mapError_eq_error h
  exact ⟨e, rfl⟩

namespace SlotKind

variable {alphabet : Text}

theorem parse_or_isOversized_of_read {kind : SlotKind} (ht : t.CutFrom line) (h : kind.read alphabet t = .error f) :
    (∃ e, f = .parse e) ∨ t.IsOversized f := by
  cases kind with
  | number => exact Value.parse_or_isOversized_of_readNumber ht h
  | _ => exact .inl (exists_parse_of_mapError h)

theorem read_ne_noAlternative (kind : SlotKind) : kind.read alphabet t ≠ .error .noAlternative := by
  intro h
  cases kind with
  | number =>
    replace h : Value.readNumber t = .error .noAlternative := h
    unfold Value.readNumber at h
    split at h
    · cases h
    · split at h <;> cases h
  | _ =>
    obtain ⟨e, he⟩ := exists_parse_of_mapError h
    cases he

/-- A choice that fails has a refusal to report, or it fails as one of its kinds does. -/
theorem parse_or_exists_of_chooseAfter {kinds : List SlotKind} {best : Option ParseError}
    (hne : kinds ≠ [] ∨ best ≠ none) (h : chooseAfter alphabet t best kinds = .error f) :
    (∃ e, f = .parse e) ∨ ∃ kind ∈ kinds, kind.read alphabet t = .error f := by
  induction kinds generalizing best with
  | nil =>
    cases best with
    | none => exact absurd rfl (hne.resolve_left fun hnil => hnil rfl)
    | some e =>
      cases h
      exact .inl ⟨e, rfl⟩
  | cons kind rest ih =>
    unfold chooseAfter at h
    split at h
    · cases h
    · rcases ih (.inr (Option.some_ne_none _)) h with hparse | ⟨kind', hkind', hread⟩
      · exact .inl hparse
      · exact .inr ⟨kind', List.mem_cons_of_mem kind hkind', hread⟩
    · rename_i f' _ hread
      cases h
      exact .inr ⟨kind, List.mem_cons_self, hread⟩

theorem parse_or_isOversized_of_choose {kinds : List SlotKind} (ht : t.CutFrom line) (hne : kinds ≠ [])
    (h : choose alphabet kinds t = .error f) : (∃ e, f = .parse e) ∨ t.IsOversized f := by
  rcases parse_or_exists_of_chooseAfter (.inl hne) h with hparse | ⟨kind, -, hread⟩
  · exact .inl hparse
  · exact parse_or_isOversized_of_read ht hread

/-- Where there is a kind to read, a choice does not fail for want of one. -/
theorem choose_ne_noAlternative {kinds : List SlotKind} (hne : kinds ≠ []) :
    choose alphabet kinds t ≠ .error .noAlternative := by
  intro h
  rcases parse_or_exists_of_chooseAfter (.inl hne) h with ⟨e, he⟩ | ⟨kind, -, hread⟩
  · cases he
  · exact kind.read_ne_noAlternative hread

end SlotKind

/-! ## Slots -/

namespace Directive

variable {alphabet opcode : Text} {slot : Slot}

theorem arises_of_readArgument {position : Nat} (hslot : slot.IsSound) (ht : t.CutFrom line)
    (h : readArgument alphabet opcode slot position t = .error f) : f.Arises line := by
  unfold readArgument at h
  cases hchoose : SlotKind.choose alphabet slot.kinds t with
  | error f' =>
    rw [hchoose] at h
    rcases SlotKind.parse_or_isOversized_of_choose ht hslot.kinds_ne_nil hchoose with ⟨e, rfl⟩ | hlong
    · have hpoints := SlotKind.points_of_choose hchoose
      cases h
      exact .error trivial (ht.locates_of_points hpoints)
    · rw [hlong.2.2] at h
      cases h
      exact .oversized ht ⟨hlong.1, hlong.2.1, rfl⟩
  | ok v =>
    rw [hchoose] at h
    cases v with
    | number n s =>
      dsimp only at h
      split at h
      · cases h
      · cases h
        exact .error trivial ht.locates_span
    | _ => cases h

theorem arises_of_readRepeated {position : Nat} {ts : List Token} (hslot : slot.IsSound) (hts : ∀ t ∈ ts, t.CutFrom line)
    (h : readRepeated alphabet opcode slot position ts = .error f) : f.Arises line := by
  induction ts generalizing position with
  | nil => cases h
  | cons t ts ih =>
    unfold readRepeated at h
    rcases bind_eq_error h with h | ⟨v, -, h⟩
    · exact arises_of_readArgument hslot (hts t List.mem_cons_self) h
    · rcases bind_eq_error h with h | ⟨vs, -, h⟩
      · exact ih (fun u hu => hts u (List.mem_cons_of_mem t hu)) h
      · cases h

/-- The default of a sound slot is never refused. -/
theorem exists_defaultValue (hslot : slot.IsSound) {raw : Text} (hraw : slot.fallback = some raw) (span : Span) :
    ∃ v, defaultValue slot raw span = .ok v := by
  rcases hslot.fallback with hnone | hhead
  · rw [hnone] at hraw
    cases hraw
  · unfold defaultValue
    rw [hhead]
    exact ⟨_, rfl⟩

variable {name eol : Span}

/-- Slots fail as a later one does, because a token is missing, or as the arguments of the first one do. -/
theorem readSlots_cons_eq_error {position : Nat} {slots : List Slot} {ts : List Token} (hslot : slot.IsSound)
    (h : readSlots alphabet opcode name eol position (slot :: slots) ts = .error f) :
    (∃ left n, left ⊆ ts ∧ readSlots alphabet opcode name eol n slots left = .error f) ∨
    (ts = [] ∧ f = .parse (missing opcode slot position eol)) ∨
    readRepeated alphabet opcode slot position ts = .error f ∨
    ∃ t ∈ ts, readArgument alphabet opcode slot position t = .error f := by
  unfold readSlots at h
  split at h
  · split at h
    · exact .inl ⟨ts, _, List.Subset.refl ts, h⟩
    · rename_i raw hraw
      obtain ⟨v, hv⟩ := exists_defaultValue hslot hraw name
      rw [hv] at h
      rcases bind_eq_error h with h | ⟨x, -, h⟩
      · cases h
      · rcases bind_eq_error h with h | ⟨y, -, h⟩
        · exact .inl ⟨ts, _, List.Subset.refl ts, h⟩
        · cases h
  · cases ts with
    | nil =>
      cases h
      exact .inr (.inl ⟨rfl, rfl⟩)
    | cons t ts =>
      dsimp only at h
      split at h
      · rcases bind_eq_error h with h | ⟨vs, -, h⟩
        · exact .inr (.inr (.inl h))
        · rcases bind_eq_error h with h | ⟨x, -, h⟩
          · exact .inl ⟨[], _, List.nil_subset _, h⟩
          · cases h
      · rcases bind_eq_error h with h | ⟨v, -, h⟩
        · exact .inr (.inr (.inr ⟨t, List.mem_cons_self, h⟩))
        · rcases bind_eq_error h with h | ⟨x, -, h⟩
          · exact .inl ⟨ts, _, List.subset_cons_self t ts, h⟩
          · cases h

theorem arises_of_readSlots {position : Nat} {slots : List Slot} {ts : List Token} (heol : line.Locates eol)
    (hslots : ∀ slot ∈ slots, slot.IsSound) (hts : ∀ t ∈ ts, t.CutFrom line)
    (h : readSlots alphabet opcode name eol position slots ts = .error f) : f.Arises line := by
  induction slots generalizing position ts with
  | nil => cases h
  | cons slot slots ih =>
    have hslot := hslots slot List.mem_cons_self
    rcases readSlots_cons_eq_error hslot h with ⟨left, n, hleft, hmore⟩ | ⟨-, rfl⟩ | hrepeated | ⟨t, ht, hread⟩
    · exact ih (fun s hs => hslots s (List.mem_cons_of_mem slot hs)) (fun t ht => hts t (hleft ht)) hmore
    · exact .error trivial heol
    · exact arises_of_readRepeated hslot hts hrepeated
    · exact arises_of_readArgument hslot (hts t ht) hread

/-- Once the tokens are used up no argument is read any more: the only error left is that of a missing one. -/
theorem exists_missing_of_readSlots {position : Nat} {slots : List Slot} (hslots : ∀ slot ∈ slots, slot.IsSound)
    (h : readSlots alphabet opcode name eol position slots [] = .error f) :
    ∃ slot ∈ slots, ∃ n, f = .parse (missing opcode slot n eol) := by
  induction slots generalizing position with
  | nil => cases h
  | cons slot slots ih =>
    rcases readSlots_cons_eq_error (hslots slot List.mem_cons_self) h with
      ⟨left, n, hleft, hmore⟩ | ⟨-, rfl⟩ | hrepeated | ⟨t, ht, -⟩
    · rw [List.eq_nil_of_subset_nil hleft] at hmore
      obtain ⟨s, hs, m, hm⟩ := ih (fun s hs => hslots s (List.mem_cons_of_mem slot hs)) hmore
      exact ⟨s, List.mem_cons_of_mem slot hs, m, hm⟩
    · exact ⟨slot, List.mem_cons_self, position, rfl⟩
    · cases hrepeated
    · cases ht

/-- The tokens that slots leave over are the last ones. -/
theorem isSuffix_of_readSlots {position : Nat} {slots : List Slot} {ts left : List Token} {vs : List (Value Span)}
    (h : readSlots alphabet opcode name eol position slots ts = .ok (vs, left)) : left <:+ ts := by
  induction slots generalizing position ts vs with
  | nil =>
    cases h
    exact List.suffix_rfl
  | cons slot slots ih =>
    rcases readSlots_cons_eq_ok h with ⟨-, -, -, hmore⟩ | ⟨raw, v, vs', -, -, -, -, hmore⟩ |
      ⟨us, vs', -, -, -, -, hmore⟩ | ⟨t, rest, v, vs', -, rfl, -, -, hmore⟩
    · exact ih hmore
    · exact ih hmore
    · exact (ih hmore).trans (List.nil_suffix)
    · exact (ih hmore).trans (List.suffix_cons t rest)

theorem arises_of_readArguments {shape : Shape} {ts : List Token} (heol : line.Locates eol)
    (hslots : ∀ slot ∈ shape.slots, slot.IsSound) (hts : ∀ t ∈ ts, t.CutFrom line)
    (h : readArguments alphabet shape name eol ts = .error f) : f.Arises line := by
  unfold readArguments at h
  rcases bind_eq_error h with h | ⟨⟨vs, left⟩, hread, h⟩
  · exact arises_of_readSlots heol hslots hts h
  · cases left with
    | nil => cases h
    | cons t left =>
      cases h
      have hmem : t ∈ ts := (isSuffix_of_readSlots hread).subset List.mem_cons_self
      exact .error trivial (hts t hmem).locates_span

end Directive

/-! ## Expressions -/

namespace Expression

variable {d : Dialect} {opcode : Text} {eol : Span} {ts : List Token}

theorem parse_or_isOversized_of_operandOf? (ht : t.CutFrom line) (h : operandOf? d t = some (.error f)) :
    (∃ e, f = .parse e) ∨ t.IsOversized f := by
  unfold operandOf? at h
  split at h
  · exact .inl (exists_parse_of_mapError (Option.some.inj h))
  · split at h
    · exact Value.parse_or_isOversized_of_readNumber ht (map_eq_error (Option.some.inj h))
    · split at h
      · exact .inl (exists_parse_of_mapError (Option.some.inj h))
      · split at h
        · split at h
          · cases h
            exact .inl ⟨_, rfl⟩
          · exact .inl (exists_parse_of_mapError (Option.some.inj h))
        · cases h

theorem Spoils.arises (ht : t.CutFrom line) (h : Spoils d t f) (context : Option Span) :
    (valueFailure opcode context f).Arises line := by
  have hvalue : ∀ e : ParseError, line.Locates e.span → (valueFailure opcode context (.parse e)).Arises line :=
    fun e he => .error trivial he
  cases h with
  | operand hop =>
    rcases parse_or_isOversized_of_operandOf? ht hop with ⟨e, rfl⟩ | hlong
    · exact hvalue e (ht.locates_of_errsAt (errsAt_of_operandOf? hop rfl))
    · rw [hlong.2.2]
      exact .oversized ht ⟨hlong.1, hlong.2.1, rfl⟩
  | word hread => exact hvalue _ (ht.locates_of_points (Value.points_of_readCharacters hread))
  | name hname => exact hvalue _ (ht.locates_of_points (Value.points_of_nameOf hname))

theorem arises_of_parse (heol : line.Locates eol) (hts : ∀ t ∈ ts, t.CutFrom line)
    (h : parse d opcode ⟨ts, 0, eol⟩ = .error f) : f.Arises line := by
  refine Admits.of_parse_eq_error (P := Failure.Arises line) ⟨fun c hc context reason expected => ?_, ?_⟩ h
  · refine .error trivial ?_
    rcases hc.span_cases with ⟨t, ht, hspan⟩ | hspan
    · exact hspan ▸ (hts t ht).locates_span
    · exact hspan ▸ heol
  · exact fun t ht f hf context => hf.arises (hts t ht) context

end Expression

/-! ## The whole line -/

variable {d : Dialect} {ts : List Token} {eol : Span} {comment : Option Text}

namespace Directive

theorem IsHeadError.arises {e : ParseError} (h : IsHeadError ts e) (hts : ∀ t ∈ ts, t.CutFrom line) :
    Failure.Arises line (.parse e) := by
  cases h with
  | repeated ht => exact .error trivial (hts _ ht).locates_span
  | clashing ht => exact .error trivial (hts _ ht).locates_span
  | unknown ht => exact .error trivial (hts _ ht).locates_span
  | refused ht => exact .error trivial (hts _ ht).locates_span

theorem arises_of_parse (hd : d.vocabulary.IsSound) (heol : line.Locates eol) (hts : ∀ t ∈ ts, t.CutFrom line)
    (h : parse d ts eol comment = .error f) : f.Arises line := by
  have htail : ∀ {ms : List (Modifier × Token)} {name : Token} {rest : List Token},
      ts = ms.map Prod.snd ++ name :: rest → ∀ t ∈ rest, t.CutFrom line := fun hsplit t ht =>
    hts t (hsplit ▸ List.mem_append_right _ (List.mem_cons_of_mem _ ht))
  cases isRefused_of_parse h with
  | head hrefused => exact hrefused.arises hts
  | missing => exact .error trivial heol
  | expression hsplit _ hrefused =>
    refine Expression.arises_of_parse heol (fun u hu => ?_) hrefused
    obtain ⟨u', hu', hpieces⟩ := List.mem_flatMap.mp hu
    exact (htail hsplit u' hu').splitOperators u hpieces
  | arguments hsplit hshape hrefused => exact arises_of_readArguments heol (hd _ hshape) (htail hsplit) hrefused

end Directive

/-- A line of a dialect with a sound vocabulary is read, refused with an error about it, or has a number that is too
long. -/
theorem Table.arises_of_readLine (hd : d.vocabulary.IsSound) {lx : Lexer}
    (h : (readLine d lx line).1 = .error f) : f.Arises line := by
  unfold readLine at h
  split at h
  · rename_i e lx' htokens
    have hlexical := Lexer.isLexical_of_tokenize htokens
    cases h
    refine .error ?_ hlexical.locates
    rw [hlexical.1]
    trivial
  · cases h
  · rename_i ts lx' _ htokens
    exact Directive.arises_of_parse hd line.locates_endSpan (Lexer.tokenize_eq_ok htokens).1 (map_eq_error h)

end BrailleTable
