/-
The ranges of a directive.

A directive takes the range from its first token to its last.  An argument has the range of its token, and one that was
left out has that of the opcode, which stands before all others; so the arguments lie in the directive in the order of
the source.
-/
import BrailleTable.Proofs.Directive.Arguments
import BrailleTable.Proofs.Directive.Head
import BrailleTable.Proofs.Expression.Spans

namespace BrailleTable
namespace Directive

variable {alphabet opcode : Text} {slot : Slot} {position : Nat} {name eol : Span} {ts : List Token}

/-! ## Arguments -/

theorem span_of_readArgument {t : Token} {v : Value Span} (h : readArgument alphabet opcode slot position t = .ok v) :
    v.span = t.span := by
  obtain ⟨kind, -, hread⟩ := SlotKind.exists_of_chooseAfter (choose_of_readArgument h).1
  exact SlotKind.span_of_read hread

theorem map_span_of_readRepeated {vs : List (Value Span)} (h : readRepeated alphabet opcode slot position ts = .ok vs) :
    vs.map Value.span = ts.map Token.span := by
  induction ts generalizing position vs with
  | nil =>
    cases h
    rfl
  | cons t ts ih =>
    unfold readRepeated at h
    obtain ⟨v, hv, h⟩ := bind_eq_ok h
    obtain ⟨us, hus, h⟩ := bind_eq_ok h
    cases h
    rw [List.map_cons, List.map_cons, span_of_readArgument hv, ih hus]

/-- Without defaults, each value stands for one token. -/
theorem map_span_of_readSlots {slots : List Slot} {left : List Token} {vs : List (Value Span)}
    (hslots : ∀ slot ∈ slots, slot.fallback = none)
    (h : readSlots alphabet opcode name eol position slots ts = .ok (vs, left)) :
    ∃ us, ts = us ++ left ∧ vs.map Value.span = us.map Token.span := by
  induction slots generalizing position ts vs with
  | nil =>
    cases h
    exact ⟨[], rfl, rfl⟩
  | cons slot slots ih =>
    have hrest : ∀ other ∈ slots, other.fallback = none := fun other hother =>
      hslots other (List.mem_cons_of_mem slot hother)
    rcases readSlots_cons_eq_ok h with ⟨-, -, -, hmore⟩ | ⟨raw, v, vs', -, hfallback, -⟩ |
      ⟨us, vs', -, -, rfl, hus, hmore⟩ | ⟨t, rest, v, vs', -, rfl, rfl, hv, hmore⟩
    · exact ih hrest hmore
    · rw [hslots slot List.mem_cons_self] at hfallback
      cases hfallback
    · obtain ⟨ws, hws, hspans⟩ := ih hrest hmore
      obtain ⟨rfl, rfl⟩ := List.append_eq_nil_iff.mp hws.symm
      refine ⟨ts, (List.append_nil ts).symm, ?_⟩
      rw [List.map_append, map_span_of_readRepeated hus, hspans, List.map_nil, List.append_nil]
    · obtain ⟨ws, rfl, hspans⟩ := ih hrest hmore
      refine ⟨t :: ws, rfl, ?_⟩
      rw [List.map_cons, List.map_cons, span_of_readArgument hv, hspans]

theorem span_of_defaultValue {raw : Text} {v : Value Span} (h : defaultValue slot raw name = .ok v) : v.span = name := by
  unfold defaultValue at h
  split at h
  · cases h
    rfl
  · split at h <;> cases h
    rfl
  · cases h
    rfl
  · cases h
    rfl

/-- The arguments have the ranges of the tokens, and a default before them that of the opcode. -/
theorem map_span_of_readArguments {shape : Shape} {vs : List (Value Span)}
    (hslots : ∀ slot ∈ shape.slots.tail, slot.fallback = none) (h : readArguments alphabet shape name eol ts = .ok vs) :
    vs.map Value.span = ts.map Token.span ∨ vs.map Value.span = name :: ts.map Token.span := by
  obtain ⟨⟨us, left⟩, hread, h⟩ := bind_eq_ok h
  cases left with
  | cons t left => cases h
  | nil =>
    cases h
    cases hshape : shape.slots with
    | nil =>
      rw [hshape] at hread
      cases hread
      exact .inl rfl
    | cons slot slots =>
      rw [hshape] at hread hslots
      have hrest : ∀ {position : Nat} {ts : List Token} {ws : List (Value Span)},
          readSlots alphabet shape.name name eol position slots ts = .ok (ws, []) →
          ws.map Value.span = ts.map Token.span := by
        intro position ts ws hmore
        obtain ⟨us, rfl, hspans⟩ := map_span_of_readSlots hslots hmore
        rw [hspans, List.append_nil]
      rcases readSlots_cons_eq_ok hread with ⟨-, -, -, hmore⟩ | ⟨raw, v, vs', -, -, hv, rfl, hmore⟩ |
        ⟨us, vs', -, -, rfl, hus, hmore⟩ | ⟨t, rest, v, vs', -, rfl, rfl, hv, hmore⟩
      · exact .inl (hrest hmore)
      · refine .inr ?_
        rw [List.map_cons, span_of_defaultValue hv, hrest hmore]
      · refine .inl ?_
        rw [List.map_append, map_span_of_readRepeated hus, hrest hmore, List.map_nil, List.append_nil]
      · refine .inl ?_
        rw [List.map_cons, List.map_cons, span_of_readArgument hv, hrest hmore]

/-! ## The whole directive -/

variable {text : Text} {line : LogicalLine} {d : Dialect} {comment : Option Text} {r : Directive Span}

/-- A directive whose arguments and whose expression lie in it, in the order of the source and without overlap. -/
structure IsNested (text : Text) (r : Directive Span) : Prop where
  span : r.span.IsStretch text
  args : ∀ v ∈ r.args, v.span.IsStretch text ∧ v.span.Within r.span
  ordered : r.args.Pairwise fun v w => v.span.Before w.span
  root : ∀ e ∈ r.expression, e.span.Within r.span
  nodes : ∀ e ∈ r.expression, ∀ m ∈ e.walk, m.IsNested text

theorem span_of_parse (h : parse d ts eol comment = .ok r) :
    ∃ first more, ts = first :: more ∧ r.span = coverTokens first more := by
  unfold parse at h
  obtain ⟨⟨ms, rest⟩, -, h⟩ := bind_eq_ok h
  cases ts with
  | nil => cases h
  | cons first more =>
    refine ⟨first, more, rfl, ?_⟩
    cases rest with
    | nil => cases h
    | cons t arguments =>
      obtain ⟨shape, -, h⟩ := bind_eq_ok h
      dsimp only at h
      split at h
      · obtain ⟨e, -, h⟩ := bind_eq_ok h
        cases h
        rfl
      · obtain ⟨args, -, h⟩ := bind_eq_ok h
        cases h
        rfl

/-- The range of some tokens covers what lies among them. -/
theorem coverTokens_spec (hline : line.IsMapped text) {first : Token} {more : List Token}
    (hts : Token.LaidOn line (first :: more)) :
    (coverTokens first more).IsStretch text ∧ (coverTokens first more).Among (first :: more) ∧
      ∀ s : Span, s.Among (first :: more) → s.Within (coverTokens first more) := by
  have hlast : more.getLast?.getD first ∈ first :: more := List.getLastD_eq_getLast? ▸ List.getLastD_mem_cons
  have hstretch : ∀ t ∈ first :: more, t.span.IsStretch text := fun t ht => (hts.cut t ht).isStretch_span hline
  have hbounds : ∀ t ∈ first :: more, first.span.start ≤ t.span.start ∧
      t.span.stop ≤ (more.getLast?.getD first).span.stop :=
    Span.bounds_of_pairwise (fun t ht => (hstretch t ht).2) (hts.pairwise_before hline.isPlaced)
  refine ⟨(hstretch first List.mem_cons_self).merge (hstretch _ hlast),
    Span.Among.merge (.of_mem List.mem_cons_self) (.of_mem hlast), fun s hs => ?_⟩
  obtain ⟨⟨t, ht, hstart⟩, u, hu, hstop⟩ := hs
  have hboundt := hbounds t ht
  have hboundu := hbounds u hu
  rw [coverTokens, Span.Within, Span.start_merge, Span.stop_merge]
  omega

/-- What lies among the parts of tokens lies among the tokens. -/
theorem among_of_splitOperators (hline : line.IsPlaced) (hts : ∀ t ∈ ts, t.CutFrom line) {s : Span}
    (h : s.Among (ts.flatMap Token.splitOperators)) : s.Among ts := by
  have hpart : ∀ u ∈ ts.flatMap Token.splitOperators, ∃ t ∈ ts, u.span.Within t.span := by
    intro u hu
    obtain ⟨t, ht, hsplit⟩ := List.mem_flatMap.mp hu
    have hcut := (hts t ht).splitOperators u hsplit
    obtain ⟨hstart, hstop⟩ := (hts t ht).pairwise_splitOperators.2 u hsplit
    refine ⟨t, ht, ?_⟩
    rw [hcut.span_eq, (hts t ht).span_eq]
    exact hline.within_span hstart hcut.start_lt hstop
  obtain ⟨⟨u, hu, hstart⟩, w, hw, hstop⟩ := h
  obtain ⟨t, ht, hut⟩ := hpart u hu
  obtain ⟨t', ht', hwt⟩ := hpart w hw
  exact ⟨⟨t, ht, Int.le_trans hut.1 hstart⟩, t', ht', Int.le_trans hstop hwt.2⟩

/-- Arguments with the ranges of tokens are nested as the tokens are. -/
theorem isNested_of_arguments (hline : line.IsMapped text) (hts : Token.LaidOn line ts)
    (hstretch : r.span.IsStretch text) (hcover : ∀ s : Span, s.Among ts → s.Within r.span)
    (hspans : (r.args.map Value.span).Sublist (ts.map Token.span)) (hnone : r.expression = none) : r.IsNested text := by
  have hordered : (ts.map Token.span).Pairwise Span.Before :=
    List.pairwise_map.mpr (hts.pairwise_before hline.isPlaced)
  refine ⟨hstretch, fun v hv => ?_, List.pairwise_map.mp (hordered.sublist hspans), ?_, ?_⟩
  · obtain ⟨t, ht, hvt⟩ := List.mem_map.mp (hspans.subset (List.mem_map_of_mem (f := Value.span) hv))
    rw [← hvt]
    exact ⟨(hts.cut t ht).isStretch_span hline, hcover t.span (.of_mem ht)⟩
  all_goals
    rw [hnone]
    exact fun e he => by cases he

theorem isNested_of_expression {e : Expression Span} {us : List Token} (hstretch : r.span.IsStretch text)
    (hargs : r.args = []) (he : r.expression = some e) (hlays : Expression.Lays text us [e])
    (hwithin : e.span.Within r.span) : r.IsNested text := by
  refine ⟨hstretch, ?_, ?_, ?_, ?_⟩
  · rw [hargs]
    exact fun v hv => absurd hv List.not_mem_nil
  · rw [hargs]
    exact .nil
  · rw [he]
    rintro e' ⟨⟩
    exact hwithin
  · rw [he]
    rintro e' ⟨⟩
    exact hlays.nested e (List.mem_singleton_self e)

/-- What is parsed from the tokens of a line is nested and lies among the tokens, if at most the first slot of an opcode
has a default. -/
theorem isNested_of_parse (hline : line.IsMapped text) (hts : Token.LaidOn line ts)
    (hd : ∀ shape ∈ d.vocabulary, ∀ slot ∈ shape.slots.tail, slot.fallback = none)
    (h : parse d ts eol comment = .ok r) : r.IsNested text ∧ r.span.Among ts := by
  obtain ⟨first, more, rfl, hspan⟩ := span_of_parse h
  obtain ⟨hstretch, hamong, hcover⟩ := coverTokens_spec hline hts
  rw [← hspan] at hstretch hamong hcover
  refine ⟨?_, hamong⟩
  obtain ⟨ms, t, arguments, shape, hms, hopcode, -, -, -, hreads⟩ := parse_eq_ok h
  have hsub : (t :: arguments).Sublist (first :: more) :=
    eq_append_of_readModifiers hms ▸ List.sublist_append_right _ _
  have hrest : arguments.Sublist (first :: more) := (List.sublist_cons_self t arguments).trans hsub
  generalize hargs : r.args = args at hreads
  generalize hexpression : r.expression = expression at hreads
  cases hreads with
  | @expression e _ he =>
    have harguments := hts.sublist hrest
    have hlays : Expression.Lays text (arguments.flatMap Token.splitOperators) [e] :=
      (Expression.body_of_parse he).lays hline harguments.flatMap_splitOperators
    have hroot : e.span.Among arguments :=
      among_of_splitOperators hline.isPlaced harguments.cut (hlays.among e (List.mem_singleton_self e))
    exact isNested_of_expression hstretch hargs hexpression hlays (hcover e.span (hroot.mono hrest.subset))
  | arguments _ hread =>
    have hspans : (r.args.map Value.span).Sublist ((first :: more).map Token.span) := by
      rw [hargs]
      rcases map_span_of_readArguments (hd shape (readOpcode_eq_ok hopcode).1) hread with heq | heq
      · rw [heq]
        exact hrest.map _
      · rw [heq]
        exact hsub.map _
    exact isNested_of_arguments hline hts hstretch hcover hspans hexpression

end Directive
end BrailleTable
