/-
The ranges of the parts of an expression.

Parts are built from the tokens of a line, one after the other, and each takes the range from its first part to its last.
So the parts below a part lie in it, in the order of the source and without overlap.  That the parts of a group are taken
over by what the group stands in makes no difference, because they lie in the group.
-/
import BrailleTable.Proofs.Expression.Soundness
import BrailleTable.Proofs.Expression.Walk
import BrailleTable.Proofs.Expression.Writable
import BrailleTable.Proofs.LogicalLine.Ranges
import BrailleTable.Proofs.Token.Order
import BrailleTable.Proofs.Value.Spans

namespace BrailleTable

variable {text : Text} {line : LogicalLine} {ts us : List Token}

/-! ## Tokens of a line -/

/-- Tokens that were cut from a line, in the order of the line. -/
structure Token.LaidOn (line : LogicalLine) (ts : List Token) : Prop where
  cut : ∀ t ∈ ts, t.CutFrom line
  ordered : ts.Pairwise Token.Precedes

namespace Token

theorem CutFrom.isStretch_span {t : Token} (h : t.CutFrom line) (hline : line.IsMapped text) :
    t.span.IsStretch text := by
  rw [h.span_eq]
  exact hline.isStretch_span h.start_lt h.stop_le

theorem CutFrom.before {t u : Token} (ht : t.CutFrom line) (hu : u.CutFrom line) (hline : line.IsPlaced)
    (h : t.Precedes u) : t.span.Before u.span := by
  rw [ht.span_eq, hu.span_eq]
  exact hline.before_span ht.start_lt h

namespace LaidOn

theorem sublist (h : LaidOn line ts) (hsub : us.Sublist ts) : LaidOn line us :=
  ⟨fun t ht => h.cut t (hsub.subset ht), h.ordered.sublist hsub⟩

theorem flatMap_splitOperators (h : LaidOn line ts) : LaidOn line (ts.flatMap splitOperators) := by
  refine ⟨fun u hu => ?_, pairwise_flatMap_splitOperators h.cut h.ordered⟩
  obtain ⟨t, ht, hsplit⟩ := List.mem_flatMap.mp hu
  exact (h.cut t ht).splitOperators u hsplit

/-- The ranges of the tokens follow each other as the tokens do. -/
theorem pairwise_before (h : LaidOn line ts) (hline : line.IsPlaced) :
    ts.Pairwise fun t u => t.span.Before u.span :=
  h.ordered.imp_of_mem fun ht hu htu => (h.cut _ ht).before (h.cut _ hu) hline htu

theorem before_of_append (h : LaidOn line (ts ++ us)) (hline : line.IsPlaced) :
    ∀ t ∈ ts, ∀ u ∈ us, t.span.Before u.span :=
  (List.pairwise_append.mp (h.pairwise_before hline)).2.2

end LaidOn
end Token

namespace Span

/-- A range that starts at one of the tokens or behind it, and stops at one of them or before it. -/
def Among (ts : List Token) (s : Span) : Prop :=
  (∃ t ∈ ts, t.span.start ≤ s.start) ∧ ∃ t ∈ ts, s.stop ≤ t.span.stop

namespace Among

variable {a b : Span}

theorem of_mem {t : Token} (h : t ∈ ts) : t.span.Among ts := ⟨⟨t, h, Int.le_refl _⟩, t, h, Int.le_refl _⟩

theorem mono (h : a.Among ts) (hsub : ts ⊆ us) : a.Among us := by
  obtain ⟨⟨t, ht, hstart⟩, u, hu, hstop⟩ := h
  exact ⟨⟨t, hsub ht, hstart⟩, u, hsub hu, hstop⟩

theorem of_within (h : b.Among ts) (hab : a.Within b) : a.Among ts := by
  obtain ⟨⟨t, ht, hstart⟩, u, hu, hstop⟩ := h
  exact ⟨⟨t, ht, Int.le_trans hstart hab.1⟩, u, hu, Int.le_trans hab.2 hstop⟩

theorem merge (ha : a.Among ts) (hb : b.Among ts) : (a.merge b).Among ts := by
  unfold Among
  rw [start_merge, stop_merge]
  constructor
  · rcases Int.le_total a.start b.start with h | h
    · rw [Int.min_eq_left h]
      exact ha.1
    · rw [Int.min_eq_right h]
      exact hb.1
  · rcases Int.le_total a.stop b.stop with h | h
    · rw [Int.max_eq_right h]
      exact hb.2
    · rw [Int.max_eq_left h]
      exact ha.2

/-- Ranges of tokens that follow each other follow each other. -/
theorem before (ha : a.Among ts) (hb : b.Among us) (h : ∀ t ∈ ts, ∀ u ∈ us, t.span.Before u.span) : a.Before b := by
  obtain ⟨-, t, ht, hstop⟩ := ha
  obtain ⟨⟨u, hu, hstart⟩, -⟩ := hb
  exact Int.le_trans hstop (Int.le_trans (h t ht u hu) hstart)

end Among
end Span

namespace Expression

/-! ## Nested parts -/

/-- The ranges of what is directly below a part.  What a literal holds counts here. -/
def partSpans : Expression Span → List Span
  | .literal content _ => [content.span]
  | e => e.children.map Expression.span

/-- A part of an expression with the ranges that it and what is directly below it ought to have. -/
structure IsNested (text : Text) (e : Expression Span) : Prop where
  span : e.span.IsStretch text
  parts : ∀ s ∈ e.partSpans, s.IsStretch text ∧ s.Within e.span
  ordered : e.partSpans.Pairwise Span.Before

/-- Expressions that were built from tokens, one after the other. -/
structure Lays (text : Text) (ts : List Token) (es : List (Expression Span)) : Prop where
  nested : ∀ e ∈ es, ∀ m ∈ e.walk, m.IsNested text
  among : ∀ e ∈ es, e.span.Among ts
  ordered : es.Pairwise fun a b => a.span.Before b.span

namespace Lays

variable {e c : Expression Span} {es fs : List (Expression Span)}

theorem nil : Lays text ts [] :=
  ⟨fun _ he => absurd he List.not_mem_nil, fun _ he => absurd he List.not_mem_nil, .nil⟩

theorem singleton (hnested : ∀ m ∈ e.walk, m.IsNested text) (hamong : e.span.Among ts) : Lays text ts [e] := by
  refine ⟨fun a ha => ?_, fun a ha => ?_, List.pairwise_singleton _ _⟩
  · rw [List.mem_singleton.mp ha]
    exact hnested
  · rw [List.mem_singleton.mp ha]
    exact hamong

theorem mono (h : Lays text ts es) (hsub : ts ⊆ us) : Lays text us es :=
  ⟨h.nested, fun e he => (h.among e he).mono hsub, h.ordered⟩

theorem append (h : Lays text ts es) (h' : Lays text us fs) (hbefore : ∀ t ∈ ts, ∀ u ∈ us, t.span.Before u.span) :
    Lays text (ts ++ us) (es ++ fs) where
  nested := fun e he => (List.mem_append.mp he).elim (h.nested e) (h'.nested e)
  among := fun e he => (List.mem_append.mp he).elim
    (fun he => (h.among e he).mono (List.subset_append_left ts us))
    (fun he => (h'.among e he).mono (List.subset_append_right ts us))
  ordered := List.pairwise_append.mpr
    ⟨h.ordered, h'.ordered, fun a ha b hb => (h.among a ha).before (h'.among b hb) hbefore⟩

theorem isNested (h : Lays text ts es) (he : e ∈ es) : e.IsNested text := h.nested e he e (self_mem_walk e)

/-- What is directly below an expression can take its place. -/
theorem children (h : Lays text ts [e]) (hparts : e.partSpans = e.children.map Expression.span) :
    Lays text ts e.children := by
  have he := h.isNested (List.mem_singleton_self e)
  refine ⟨(forall_mem_walk.mp (h.nested e (List.mem_singleton_self e))).2, fun a ha => ?_, ?_⟩
  · have hmem : a.span ∈ e.partSpans := hparts ▸ List.mem_map_of_mem ha
    exact (h.among e (List.mem_singleton_self e)).of_within (he.parts a.span hmem).2
  · have hordered := he.ordered
    rw [hparts] at hordered
    exact List.pairwise_map.mp hordered

/-- An expression takes the range from its first part, or from a token before it, to its last part. -/
theorem wrap (h : Lays text ts (c :: es)) (hchildren : e.children = c :: es)
    (hparts : e.partSpans = e.children.map Expression.span) {a : Span} (ha : a.IsStretch text) (hamong : a.Among ts)
    (hstart : a.start ≤ c.span.start) (hspan : e.span = a.merge (es.getLast?.getD c).span) : Lays text ts [e] := by
  have hlast : es.getLast?.getD c ∈ c :: es := List.getLastD_eq_getLast? ▸ List.getLastD_mem_cons
  have hbounds : ∀ b ∈ c :: es, c.span.start ≤ b.span.start ∧ b.span.stop ≤ (es.getLast?.getD c).span.stop :=
    Span.bounds_of_pairwise (fun b hb => (h.isNested hb).span.2) h.ordered
  refine singleton (forall_mem_walk.mpr ⟨⟨?_, fun s hs => ?_, ?_⟩, hchildren ▸ h.nested⟩) ?_
  · rw [hspan]
    exact ha.merge (h.isNested hlast).span
  · rw [hparts, hchildren] at hs
    obtain ⟨b, hb, rfl⟩ := List.mem_map.mp hs
    refine ⟨(h.isNested hb).span, ?_⟩
    have hb' := hbounds b hb
    rw [hspan, Span.Within, Span.start_merge, Span.stop_merge]
    omega
  · rw [hparts, hchildren]
    exact List.pairwise_map.mpr h.ordered
  · rw [hspan]
    exact hamong.merge (h.among _ hlast)

/-- An expression that a token leads takes the range from there on. -/
theorem lead (hline : line.IsMapped text) {k : Token} (hts : Token.LaidOn line (k :: ts)) (h : Lays text ts (c :: es))
    (hchildren : e.children = c :: es) (hparts : e.partSpans = e.children.map Expression.span)
    (hspan : e.span = k.span.merge (es.getLast?.getD c).span) : Lays text (k :: ts) [e] := by
  have hstretch := (hts.cut k List.mem_cons_self).isStretch_span hline
  have hbefore : ∀ t ∈ [k], ∀ u ∈ ts, t.span.Before u.span := hts.before_of_append hline.isPlaced
  have hstart : k.span.Before c.span :=
    (Span.Among.of_mem (List.mem_singleton_self k)).before (h.among c List.mem_cons_self) hbefore
  refine (h.mono (List.subset_cons_self k ts)).wrap hchildren hparts hstretch (.of_mem List.mem_cons_self) ?_ hspan
  exact Int.le_trans (Int.le_of_lt hstretch.2) hstart

/-- Expressions that were read one after the other, each from its own tokens. -/
theorem flatten (hline : line.IsMapped text) {R : List Token → Expression Span → Prop}
    (hR : ∀ {w e}, R w e → Token.LaidOn line w → Lays text w [e]) {ws : List (List Token)}
    (h : List.Forall₂ R ws es) (hws : Token.LaidOn line ws.flatten) : Lays text ws.flatten es := by
  induction h with
  | nil => exact nil
  | @cons w e ws es hfirst _ ih =>
    rw [List.flatten_cons] at hws ⊢
    have he := hR hfirst (hws.sublist (List.sublist_append_left w _))
    have hes := ih (hws.sublist (List.sublist_append_right w _))
    exact he.append hes (hws.before_of_append hline.isPlaced)

theorem sequenceItems (h : Lays text ts [e]) : Lays text ts (sequenceItems e) := by
  cases e with
  | sequence items s => exact h.children rfl
  | _ => exact h

theorem chainOperands (h : Lays text ts [e]) (op : Connective) : Lays text ts (chainOperands op e) := by
  cases e with
  | combine op' operands s =>
    show Lays text ts (if op' = op then operands else [.combine op' operands s])
    by_cases hop : op' = op
    · rw [if_pos hop]
      exact h.children rfl
    · rw [if_neg hop]
      exact h
  | _ => exact h

theorem ofItems (h : Lays text ts es) (hne : es ≠ []) : Lays text ts [ofItems es] := by
  match es with
  | [] => exact absurd rfl hne
  | [e] => exact h
  | a :: b :: rest =>
    have ha : a ∈ a :: b :: rest := List.mem_cons_self
    exact h.wrap rfl rfl (h.isNested ha).span (h.among a ha) (Int.le_refl _) rfl

theorem ofOperands (h : Lays text ts es) (hne : es ≠ []) (op : Connective) : Lays text ts [ofOperands op es] := by
  match es with
  | [] => exact absurd rfl hne
  | [e] => exact h
  | a :: b :: rest =>
    have ha : a ∈ a :: b :: rest := List.mem_cons_self
    exact h.wrap rfl rfl (h.isNested ha).span (h.among a ha) (Int.le_refl _) rfl

end Lays

/-! ## What is read -/

variable {d : Dialect} {word : Token → Prop} {X : Symbol} {n : Nat} {e : Expression Span} {es : List (Expression Span)}

/-- A leaf has the range of its token, and what it holds has a range in that one. -/
theorem lays_ofValue (hline : line.IsMapped text) {t : Token} (ht : t.CutFrom line) {v : Value Span}
    (hv : v.span.IsStretch text) (hwithin : v.span.Within t.span) : Lays text [t] [ofValue t.span v] := by
  refine .singleton (forall_mem_walk.mpr ⟨⟨ht.isStretch_span hline, fun s hs => ?_, List.pairwise_singleton _ _⟩, ?_⟩)
    (.of_mem (List.mem_singleton_self t))
  · rw [List.mem_singleton.mp hs]
    exact ⟨hv, hwithin⟩
  · exact fun c hc => absurd hc List.not_mem_nil

theorem lays_ofValue_of_span_eq (hline : line.IsMapped text) {t : Token} (ht : t.CutFrom line) {v : Value Span}
    (hv : v.span = t.span) : Lays text [t] [ofValue t.span v] := by
  refine lays_ofValue hline ht ?_ ?_
  · rw [hv]
    exact ht.isStretch_span hline
  · rw [hv]
    exact ⟨Int.le_refl _, Int.le_refl _⟩

/-- The dots behind an at sign are a range of their own. -/
theorem isStretch_subtoken (hline : line.IsMapped text) {t : Token} (ht : t.CutFrom line) (hkind : t.kind ≠ .quoted)
    (hlength : 1 < t.text.length) : (subtoken t 1).span.IsStretch text ∧ (subtoken t 1).span.Within t.span := by
  have hspan : (subtoken t 1).span = line.span ((t.start + 1 : Nat) : Int) (t.start + t.text.length : Nat) :=
    Token.subSpan_of_source_eq_some ht.source_eq hkind 1 t.text.length
  have htext := ht.length_text
  have hle := ht.stop_le
  rw [hspan, ht.span_eq]
  exact ⟨hline.isStretch_span (by omega) (by omega), hline.isPlaced.within_span (by omega) (by omega) (by omega)⟩

theorem Operand.lays (hline : line.IsMapped text) {t : Token} (ht : t.CutFrom line) (h : Operand d t e) :
    Lays text [t] [e] := by
  cases h with
  | classRef =>
    refine .singleton (forall_mem_walk.mpr ⟨⟨ht.isStretch_span hline, ?_, .nil⟩, ?_⟩)
      (.of_mem (List.mem_singleton_self t))
    · exact fun s hs => absurd hs List.not_mem_nil
    · exact fun c hc => absurd hc List.not_mem_nil
  | number _ hread => exact lays_ofValue_of_span_eq hline ht (Value.span_of_readNumber hread)
  | quoted _ => exact lays_ofValue_of_span_eq hline ht rfl
  | dots _ hquoted htext hread =>
    have hlength : t.text.length ≠ 1 := fun hone => readDots_subtoken_singleton hone hread
    have hpos : 0 < t.text.length := by
      rw [htext, List.length_cons]
      omega
    obtain ⟨hstretch, hwithin⟩ := isStretch_subtoken hline ht hquoted (by omega)
    have hspan := Value.span_of_readDots hread
    exact lays_ofValue hline ht (hspan ▸ hstretch) (hspan ▸ hwithin)

theorem Derives.ne_nil (h : Derives word d X n ts es) : es ≠ [] := by
  have hes : Contributes (fun _ => True) X n es := h.contributes fun _ _ _ _ => trivial
  cases h with
  | operand | word | comparison | group | plain | negated => exact List.cons_ne_nil _ _
  | single | juxtaposed | sequence | conj | conjunction | disj => exact hes.ne_nil

/-- What is derived from the tokens of a line is laid out as they are. -/
theorem Derives.lays (hline : line.IsMapped text) (h : Derives word d X n ts es) (hts : Token.LaidOn line ts) :
    Lays text ts es := by
  induction h with
  | @operand depth t e hoperand => exact hoperand.lays hline (hts.cut t List.mem_cons_self)
  | @word depth t v _ hread =>
    exact lays_ofValue_of_span_eq hline (hts.cut t List.mem_cons_self) (Value.span_of_readCharacters hread)
  | @comparison depth l m r a b op hl _ _ hr =>
    have hleft := hl.lays hline (hts.cut l (by simp))
    have hright := hr.lays hline (hts.cut r (by simp))
    have hbefore : ∀ t ∈ [l], ∀ u ∈ [m, r], t.span.Before u.span := hts.before_of_append hline.isPlaced
    have hparts : Lays text [l, m, r] [a, b] :=
      hleft.append (hright.mono (List.subset_cons_self m [r])) hbefore
    have ha : a ∈ [a, b] := List.mem_cons_self
    exact hparts.wrap rfl rfl (hparts.isNested ha).span (hparts.among a ha) (Int.le_refl _) rfl
  | @group depth o c ts es _ hes _ ih =>
    have hsub : ts ⊆ o :: (ts ++ [c]) := fun t ht => List.mem_cons_of_mem o (List.mem_append_left [c] ht)
    exact ((ih (hts.sublist ((List.sublist_append_left ts [c]).cons o))).ofOperands hes.ne_nil .disj).mono hsub
  | plain _ ih => exact ih hts
  | @negated depth k ts e _ _ ih =>
    exact (ih (hts.sublist (List.sublist_cons_self k ts))).lead hline hts rfl rfl rfl
  | single _ ih => exact (ih hts).sequenceItems
  | @juxtaposed depth ts us e es _ _ ihe ihes =>
    have he := ihe (hts.sublist (List.sublist_append_left ts us))
    have hes := ihes (hts.sublist (List.sublist_append_right ts us))
    exact he.sequenceItems.append hes (hts.before_of_append hline.isPlaced)
  | sequence hes ih => exact ((ih hts).ofItems hes.ne_nil).chainOperands .conj
  | @conj depth a ts us es fs hes _ _ ihes ihfs =>
    have hleft := ((ihes (hts.sublist (List.sublist_append_left ts _))).ofItems hes.ne_nil).chainOperands .conj
    have hright := ihfs (hts.sublist ((List.sublist_cons_self a us).trans (List.sublist_append_right ts _)))
    exact hleft.append (hright.mono (List.subset_cons_self a us)) (hts.before_of_append hline.isPlaced)
  | conjunction hes ih => exact ((ih hts).ofOperands hes.ne_nil .conj).chainOperands .disj
  | @disj depth a ts us es fs hes _ _ ihes ihfs =>
    have hleft := ((ihes (hts.sublist (List.sublist_append_left ts _))).ofOperands hes.ne_nil .conj).chainOperands .disj
    have hright := ihfs (hts.sublist ((List.sublist_cons_self a us).trans (List.sublist_append_right ts _)))
    exact hleft.append (hright.mono (List.subset_cons_self a us)) (hts.before_of_append hline.isPlaced)

theorem lays_operands (hline : line.IsMapped text) (h : List.Forall₂ (Operand d) ts es) (hts : Token.LaidOn line ts) :
    Lays text ts es := by
  have hflat : (ts.map fun t => [t]).flatten = ts := by
    rw [← List.flatMap_def, List.flatMap_singleton']
  rw [← hflat] at hts ⊢
  refine .flatten hline (R := fun w e => ∃ t, w = [t] ∧ Operand d t e) ?_ ?_ hts
  · rintro w e ⟨t, rfl, ht⟩ hw
    exact ht.lays hline (hw.cut t (List.mem_singleton_self t))
  · exact List.forall₂_map_left_iff.mpr (h.imp fun t e ht => ⟨t, rfl, ht⟩)

theorem Step.lays (hline : line.IsMapped text) (h : Step d ts e) (hts : Token.LaidOn line ts) : Lays text ts [e] := by
  cases h with
  | @mk t name us operands _ hoperands =>
    have hops := lays_operands hline hoperands (hts.sublist (List.sublist_cons_self t us))
    cases operands with
    | nil =>
      -- a step without operands has the range of its name
      have ht := (hts.cut t List.mem_cons_self).isStretch_span hline
      have hamong : t.span.Among (t :: us) := .of_mem List.mem_cons_self
      refine .singleton (forall_mem_walk.mpr ⟨⟨ht.merge ht, ?_, .nil⟩, ?_⟩) (hamong.merge hamong)
      · exact fun s hs => absurd hs List.not_mem_nil
      · exact fun c hc => absurd hc List.not_mem_nil
    | cons c operands =>
      refine hops.lead hline hts rfl rfl ?_
      show t.span.merge (((c :: operands).getLast?.map Expression.span).getD t.span) = _
      rw [List.getLast?_cons]
      rfl

/-- The parts of a whole expression are nested, and it lies among its tokens. -/
theorem Body.lays (hline : line.IsMapped text) (h : Body word d ts e) (hts : Token.LaidOn line ts) :
    Lays text ts [e] := by
  cases h with
  | @mk t a us es actions ws _ htest _ _ hsteps =>
    have hrest : Token.LaidOn line (us ++ a :: ws.flatten) := hts.sublist (List.sublist_cons_self t _)
    have hus := hrest.sublist (List.sublist_append_left us _)
    have hws := hrest.sublist ((List.sublist_cons_self a _).trans (List.sublist_append_right us _))
    have hactions : Lays text ws.flatten actions := .flatten hline (fun hw => hw.lays hline) hsteps hws
    have htest' := (htest.lays hline hus).ofOperands htest.ne_nil .disj
    exact (htest'.append (hactions.mono (List.subset_cons_self a _)) (hrest.before_of_append hline.isPlaced)).lead hline
      hts rfl rfl rfl

end Expression
end BrailleTable
