/-
What a slot reports that takes none of its kinds.

Kinds are tried in turn.  The refusal of each is compared with the one that came furthest so far, which gives way to a
refusal that came further, and takes over what is expected by one that came equally far.  So when all kinds have refused
the token, what is left is the first of the refusals that came furthest, with what all of these expect.
-/
import BrailleTable.Proofs.Directive.Failure
import BrailleTable.Proofs.Expression.ErrorPlace
import BrailleTable.Proofs.Text.Sorted
import BrailleTable.Proofs.Value.Refusal

namespace BrailleTable
namespace SlotKind

variable {alphabet : Text} {t : Token} {kind : SlotKind} {kinds : List SlotKind} {best e : ParseError}

/-! ## Refusals -/

/-- Where it is a number that it reads, a kind can do no more than refuse a token. -/
theorem exists_parse_of_read (hnumber : t.kind = .number → ∃ n, Text.readInteger t.text = .ok n) {f : Failure}
    (h : kind.read alphabet t = .error f) : ∃ e, f = .parse e := by
  cases kind with
  | number =>
    replace h : Value.readNumber t = .error f := h
    unfold Value.readNumber at h
    cases hrequire : Value.requireKind t [.number] [.number] "number" with
    | error e =>
      rw [hrequire] at h
      cases h
      exact ⟨e, rfl⟩
    | ok u =>
      obtain ⟨n, hn⟩ := hnumber (List.mem_singleton.mp (Value.requireKind_eq_ok_iff.mp hrequire))
      rw [hrequire, hn] at h
      cases h
  | _ => exact exists_parse_of_mapError h

/-- A run of digits that is not too long is a number. -/
theorem exists_readInteger_of_isDigit {t : Text} (hne : t ≠ []) (h : ∀ c ∈ t, c.isDigit = true) (hle : t.length ≤ 4300) :
    ∃ n, Text.readInteger t = .ok n := by
  rw [Text.readInteger_of_isDigit hne h, if_neg (show ¬ Text.digitLimit < t.length from Nat.not_lt.mpr hle)]
  exact ⟨_, rfl⟩

/-! ## Which kind speaks for a slot -/

/-- The value is that of the first kind that reads the token, and all kinds before refuse it. -/
theorem chooseAfter_eq_ok_iff {best : Option ParseError} {v : Value Span} :
    chooseAfter alphabet t best kinds = .ok v ↔
      ∃ before kind after, kinds = before ++ kind :: after ∧
        (∀ k ∈ before, ∃ e, k.read alphabet t = .error (.parse e)) ∧ kind.read alphabet t = .ok v := by
  induction kinds generalizing best with
  | nil =>
    unfold chooseAfter
    refine iff_of_false (fun h => by split at h <;> cases h) ?_
    rintro ⟨before, kind, after, heq, -⟩
    exact absurd heq.symm (List.append_ne_nil_of_right_ne_nil _ (List.cons_ne_nil _ _))
  | cons first rest ih =>
    unfold chooseAfter
    constructor
    · intro h
      split at h
      · rename_i hread
        cases h
        exact ⟨[], first, rest, rfl, fun k hk => absurd hk List.not_mem_nil, hread⟩
      · rename_i e hread
        obtain ⟨before, kind, after, rfl, hbefore, hkind⟩ := ih.mp h
        exact ⟨first :: before, kind, after, rfl, List.forall_mem_cons.mpr ⟨⟨e, hread⟩, hbefore⟩, hkind⟩
      · cases h
    · rintro ⟨before, kind, after, heq, hbefore, hkind⟩
      cases before with
      | nil =>
        cases heq
        rw [hkind]
      | cons k before =>
        cases heq
        obtain ⟨⟨e, he⟩, hbefore⟩ := List.forall_mem_cons.mp hbefore
        rw [he]
        exact ih.mpr ⟨before, kind, after, rfl, hbefore, hkind⟩

/-- All of the kinds refuse the token, and the refusal `e` of `kind` starts further than those of the kinds before it and
no less far than those of the kinds behind it. -/
def Decides (alphabet : Text) (t : Token) (kinds : List SlotKind) (kind : SlotKind) (e : ParseError) : Prop :=
  ∃ before after, kinds = before ++ kind :: after ∧ kind.read alphabet t = .error (.parse e) ∧
    (∀ k ∈ before, ∃ e', k.read alphabet t = .error (.parse e') ∧ e'.span.start < e.span.start) ∧
    ∀ k ∈ after, ∃ e', k.read alphabet t = .error (.parse e') ∧ e'.span.start ≤ e.span.start

theorem Decides.mem (h : Decides alphabet t kinds kind e) : kind ∈ kinds := by
  obtain ⟨before, after, rfl, -⟩ := h
  exact List.mem_append_right _ List.mem_cons_self

theorem Decides.read_eq (h : Decides alphabet t kinds kind e) : kind.read alphabet t = .error (.parse e) := by
  obtain ⟨-, -, -, hread, -⟩ := h
  exact hread

theorem Decides.exists_le (h : Decides alphabet t kinds kind e) {k : SlotKind} (hk : k ∈ kinds) :
    ∃ e', k.read alphabet t = .error (.parse e') ∧ e'.span.start ≤ e.span.start := by
  obtain ⟨before, after, rfl, hread, hbefore, hafter⟩ := h
  rcases List.mem_append.mp hk with hk | hk
  · obtain ⟨e', hread', hlt⟩ := hbefore k hk
    exact ⟨e', hread', Int.le_of_lt hlt⟩
  · rcases List.mem_cons.mp hk with rfl | hk
    · exact ⟨e, hread, Int.le_refl _⟩
    · exact hafter k hk

theorem decides_singleton (h : kind.read alphabet t = .error (.parse e)) : Decides alphabet t [kind] kind e :=
  ⟨[], [], rfl, h, fun _ hk => absurd hk List.not_mem_nil, fun _ hk => absurd hk List.not_mem_nil⟩

/-- One more kind speaks for all if it came further, and else the one that did goes on to. -/
theorem Decides.concat (h : Decides alphabet t kinds kind e) {k : SlotKind} {e' : ParseError}
    (hk : k.read alphabet t = .error (.parse e')) :
    (e.span.start < e'.span.start → Decides alphabet t (kinds ++ [k]) k e') ∧
    (¬ e.span.start < e'.span.start → Decides alphabet t (kinds ++ [k]) kind e) := by
  constructor
  · intro hlt
    refine ⟨kinds, [], rfl, hk, fun k' hk' => ?_, fun _ hk' => absurd hk' List.not_mem_nil⟩
    obtain ⟨e'', hread, hle⟩ := h.exists_le hk'
    exact ⟨e'', hread, Int.lt_of_le_of_lt hle hlt⟩
  · intro hlt
    obtain ⟨before, after, rfl, hread, hbefore, hafter⟩ := h
    refine ⟨before, after ++ [k], by simp, hread, hbefore, fun k' hk' => ?_⟩
    rcases List.mem_append.mp hk' with hk' | hk'
    · exact hafter k' hk'
    · rw [List.mem_singleton.mp hk']
      exact ⟨e', hk, Int.not_lt.mp hlt⟩

/-- The error is another one, apart from what it says could have stood there. -/
def IsRelabelled (e e₀ : ParseError) : Prop := ∃ labels, e = { e₀ with expected := labels }

/-! ## The furthest refusal -/

/-- One of the kinds refuses the token at an offset, and what it expects there has this label. -/
def Expects (alphabet : Text) (t : Token) (kinds : List SlotKind) (start : Int) (label : Text) : Prop :=
  ∃ k ∈ kinds, ∃ e, k.read alphabet t = .error (.parse e) ∧ e.span.start = start ∧ label ∈ e.expected

/-- What is kept of the refusals of the kinds: the refusal of the first kind that came furthest, with all that is expected
there. -/
structure Leads (alphabet : Text) (t : Token) (kinds : List SlotKind) (e : ParseError) : Prop where
  decides : ∃ kind e₀, Decides alphabet t kinds kind e₀ ∧ IsRelabelled e e₀
  expected_iff : ∀ label, label ∈ e.expected ↔ Expects alphabet t kinds e.span.start label

theorem expects_append_iff {more : List SlotKind} {start : Int} {label : Text} :
    Expects alphabet t (kinds ++ more) start label ↔
      Expects alphabet t kinds start label ∨ Expects alphabet t more start label := by
  simp only [Expects, List.mem_append, or_and_right, exists_or]

theorem expects_singleton_iff (h : kind.read alphabet t = .error (.parse e)) {start : Int} {label : Text} :
    Expects alphabet t [kind] start label ↔ e.span.start = start ∧ label ∈ e.expected := by
  constructor
  · rintro ⟨k, hk, e', hread, hstart, hlabel⟩
    rw [List.mem_singleton.mp hk, h] at hread
    cases hread
    exact ⟨hstart, hlabel⟩
  · rintro ⟨hstart, hlabel⟩
    exact ⟨kind, List.mem_singleton_self kind, e, h, hstart, hlabel⟩

/-- Nothing is expected further than the kind that speaks for all came. -/
theorem Decides.not_expects (h : Decides alphabet t kinds kind e) {start : Int} (hlt : e.span.start < start)
    (label : Text) : ¬ Expects alphabet t kinds start label := by
  rintro ⟨k, hk, e', hread, hstart, -⟩
  obtain ⟨e'', hread', hle⟩ := h.exists_le hk
  rw [hread] at hread'
  cases hread'
  omega

theorem leads_singleton (h : kind.read alphabet t = .error (.parse e)) : Leads alphabet t [kind] e where
  decides := ⟨kind, e, decides_singleton h, e.expected, rfl⟩
  expected_iff label := by simp only [expects_singleton_iff h, true_and]

/-- What is kept of the refusals when one more kind has refused the token. -/
theorem Leads.further (h : Leads alphabet t kinds best) (hread : kind.read alphabet t = .error (.parse e)) :
    Leads alphabet t (kinds ++ [kind]) (SlotKind.further (some best) e) := by
  obtain ⟨⟨k, e₀, hdecides, labels, rfl⟩, hexpected⟩ := h
  obtain ⟨hfurther, hkept⟩ := hdecides.concat hread
  unfold SlotKind.further
  dsimp only at hexpected ⊢
  rcases Int.lt_trichotomy e₀.span.start e.span.start with hlt | heq | hgt
  · -- Nothing that was expected before is expected as far as this.
    rw [if_pos hlt]
    refine ⟨⟨kind, e, hfurther hlt, e.expected, rfl⟩, fun label => ?_⟩
    simp only [expects_append_iff, expects_singleton_iff hread, hdecides.not_expects hlt, false_or, true_and]
  · rw [if_neg (by omega), if_pos heq.symm]
    refine ⟨⟨k, e₀, hkept (by omega), _, rfl⟩, fun label => ?_⟩
    simp only [Text.mem_sortedSet, List.mem_append, hexpected, expects_append_iff, expects_singleton_iff hread, heq, true_and]
  · rw [if_neg (by omega), if_neg (by omega)]
    refine ⟨⟨k, e₀, hkept (by omega), labels, rfl⟩, fun label => ?_⟩
    have hne : e.span.start ≠ e₀.span.start := by omega
    simp only [hexpected, expects_append_iff, expects_singleton_iff hread, hne, false_and, or_false]

/-- What is kept when a choice has tried the kinds that are left. -/
theorem Leads.of_chooseAfter {tried : List SlotKind} (h : Leads alphabet t tried best)
    (hchoose : chooseAfter alphabet t (some best) kinds = .error (.parse e)) : Leads alphabet t (tried ++ kinds) e := by
  induction kinds generalizing tried best with
  | nil =>
    cases hchoose
    rw [List.append_nil]
    exact h
  | cons kind rest ih =>
    rw [chooseAfter] at hchoose
    split at hchoose
    · cases hchoose
    · rename_i e' hread
      rw [List.append_cons]
      exact ih (h.further hread) hchoose
    · rename_i f hne hread
      cases hchoose
      exact absurd rfl (hne e)

theorem leads_of_choose (h : choose alphabet kinds t = .error (.parse e)) : Leads alphabet t kinds e := by
  cases kinds with
  | nil => cases h
  | cons kind rest =>
    unfold choose at h
    rw [chooseAfter] at h
    split at h
    · cases h
    · rename_i e' hread
      exact (leads_singleton hread).of_chooseAfter h
    · rename_i f hne hread
      cases h
      exact absurd rfl (hne e)

/-- The refusal that a choice reports is that of the kind which speaks for all. -/
theorem exists_decides_of_choose (h : choose alphabet kinds t = .error (.parse e)) :
    ∃ kind e₀, Decides alphabet t kinds kind e₀ ∧ IsRelabelled e e₀ :=
  (leads_of_choose h).decides

/-! ## Ordered choice -/

/-- A choice takes the first kind that reads the token.  If none of them does, the refusal that it reports starts where the
furthest of theirs do, has the range, the message and the found text of the first of these, and expects what all of these
expect and nothing else. -/
theorem choose_spec (d : Dialect) (hne : kinds ≠ [])
    (hnumber : t.kind = .number → ∃ n, Text.readInteger t.text = .ok n) :
    (∀ v, choose d.dotAlphabet kinds t = .ok v ↔ ∃ before kind after, kinds = before ++ kind :: after ∧
      (∀ k ∈ before, ∀ u, k.read d.dotAlphabet t ≠ .ok u) ∧ kind.read d.dotAlphabet t = .ok v) ∧
    ((∀ k ∈ kinds, ∀ v, k.read d.dotAlphabet t ≠ .ok v) → ∃ e, choose d.dotAlphabet kinds t = .error (.parse e) ∧
      e.category = .value ∧
      (∃ kind e₀, Decides d.dotAlphabet t kinds kind e₀ ∧ e.span = e₀.span ∧ e.message = e₀.message ∧
        e.found = e₀.found) ∧
      ∀ label, label ∈ e.expected ↔ Expects d.dotAlphabet t kinds e.span.start label) := by
  have hrefuse : ∀ k : SlotKind, (∀ u, k.read d.dotAlphabet t ≠ .ok u) ↔
      ∃ e, k.read d.dotAlphabet t = .error (.parse e) := by
    intro k
    cases hread : k.read d.dotAlphabet t with
    | ok v => exact iff_of_false (fun h => h v rfl) fun ⟨e, he⟩ => by cases he
    | error f =>
      obtain ⟨e, rfl⟩ := exists_parse_of_read hnumber hread
      exact iff_of_true (fun u hu => by cases hu) ⟨e, rfl⟩
  refine ⟨fun v => ?_, fun hall => ?_⟩
  · simp only [hrefuse]
    exact chooseAfter_eq_ok_iff
  · cases hchoose : choose d.dotAlphabet kinds t with
    | ok v =>
      obtain ⟨before, kind, after, rfl, -, hread⟩ := chooseAfter_eq_ok_iff.mp hchoose
      exact absurd hread (hall kind (List.mem_append_right _ List.mem_cons_self) v)
    | error f =>
      obtain ⟨e, rfl⟩ : ∃ e, f = .parse e := by
        rcases parse_or_exists_of_chooseAfter (.inl hne) hchoose with hparse | ⟨kind, -, hread⟩
        · exact hparse
        · exact exists_parse_of_read hnumber hread
      obtain ⟨⟨kind, e₀, hdecides, labels, rfl⟩, hexpected⟩ := leads_of_choose hchoose
      have hcategory := category_of_read hdecides.read_eq
      exact ⟨_, rfl, hcategory, ⟨kind, e₀, hdecides, rfl, rfl, rfl⟩, hexpected⟩

/-- A number where no number is wanted. -/
def strayNumber : Token := .plain (.single "12" ⟨1, 1, 0⟩) .number 0 2

/-- All three kinds refuse the number as a whole, so the first of them speaks for all, and each of them has its say about
what is expected. -/
theorem choose_spec_strayNumber :
    ∃ e, choose Dialect.standard.dotAlphabet [.name, .string, .charClass] strayNumber = .error (.parse e) ∧
      e.span = strayNumber.span ∧
      ∀ label, label ∈ e.expected ↔
        Expects Dialect.standard.dotAlphabet strayNumber [.name, .string, .charClass] strayNumber.span.start label := by
  have hspans : ∀ k ∈ [SlotKind.name, .string, .charClass],
      (Expression.errorOf? (k.read Dialect.standard.dotAlphabet strayNumber)).map ParseError.span =
        some strayNumber.span := by
    decide +kernel
  have hnumber : ∃ n, Text.readInteger strayNumber.text = .ok n :=
    exists_readInteger_of_isDigit (by decide +kernel) (by decide +kernel) (by decide +kernel)
  obtain ⟨-, hspec⟩ :=
    @choose_spec strayNumber [.name, .string, .charClass] .standard (by decide) fun _ => hnumber
  obtain ⟨e, hchoose, -, ⟨kind, e₀, hdecides, hspan, -⟩, hexpected⟩ := hspec fun k hk v hv => by
    have herror := hspans k hk
    rw [hv] at herror
    cases herror
  have hwhole := hspans kind hdecides.mem
  rw [hdecides.read_eq] at hwhole
  rw [hspan, Option.some.inj hwhole] at hexpected
  exact ⟨e, hchoose, hspan.trans (Option.some.inj hwhole), hexpected⟩

end SlotKind
end BrailleTable
