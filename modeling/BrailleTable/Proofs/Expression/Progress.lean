/-
How far the productions come.

`Tracks` relates an attempt to the stages of the tokens before it.  What is found ends at a stage again; an
attempt that does not apply has missed where it began; one that is stuck has missed furthest where the
stage has no step; and an error of its own belongs to a token without a step.  Each production has one
lemma, and the lemmas on the combinators carry the places of the misses.
-/
import BrailleTable.Proofs.Expression.Stage
import BrailleTable.Proofs.Value.ErrorPlace

namespace BrailleTable

namespace Cursor

/-- A cursor of the same line, at the same place or further on. -/
def Before (c c' : Cursor) : Prop := ∃ w, c.Passes w c'

namespace Before

theorem refl (c : Cursor) : Before c c := ⟨[], .refl c⟩

theorem trans {c c' c'' : Cursor} (h : Before c c') (h' : Before c' c'') : Before c c'' := by
  obtain ⟨w, hw⟩ := h
  obtain ⟨v, hv⟩ := h'
  exact ⟨w ++ v, hw.trans hv⟩

theorem next {c : Cursor} {t : Token} (h : c.peek? = some t) : Before c c.next := ⟨[t], .next h⟩

theorem pos_le {c c' : Cursor} (h : Before c c') : c.pos ≤ c'.pos := by
  obtain ⟨w, hw⟩ := h
  rw [hw.pos_eq]
  omega

theorem eq_of_pos_le {c c' : Cursor} (h : Before c c') (hpos : c'.pos ≤ c.pos) : c' = c := by
  obtain ⟨w, hw⟩ := h
  have hlength : w = [] := by
    rw [hw.pos_eq] at hpos
    exact List.eq_nil_of_length_eq_zero (by omega)
  subst hlength
  exact hw.eq_of_nil

end Before
end Cursor

/-- All misses are at the cursor or before it. -/
def Within (c : Cursor) (ms : List Miss) : Prop := ∀ m ∈ ms, m.cursor.Before c

namespace Within

theorem nil (c : Cursor) : Within c [] := fun _ h => absurd h List.not_mem_nil

theorem singleton (m : Miss) : Within m.cursor [m] := by
  intro m' hm
  rw [List.mem_singleton.mp hm]
  exact .refl _

theorem append {c : Cursor} {ms ns : List Miss} (h : Within c ms) (h' : Within c ns) :
    Within c (ms ++ ns) := by
  intro m hm
  rcases List.mem_append.mp hm with hm | hm
  · exact h m hm
  · exact h' m hm

theorem mono {c c' : Cursor} {ms : List Miss} (h : Within c ms) (hcc : c.Before c') :
    Within c' ms := fun m hm => (h m hm).trans hcc

end Within

namespace Furthest

/-- The furthest miss is the one that no other is beyond. -/
theorem cursor_ofMisses {c : Cursor} {ms : List Miss} (hwithin : Within c ms)
    (hmem : ∃ m ∈ ms, m.cursor = c) : (ofMisses ms).cursor = some c := by
  obtain ⟨m, hm, rfl⟩ := hmem
  have hsums := sums_ofMisses ms
  obtain ⟨m', hm', hcursor⟩ := hsums.exists_cursor_eq (List.ne_nil_of_mem hm)
  have hle := hsums.le_pos m hm
  rw [pos_of_cursor_eq hcursor] at hle
  rw [hcursor, (hwithin m' hm').eq_of_pos_le (by omega)]

end Furthest

namespace Expression

variable {d : Dialect} {opcode : Text} {α β : Type}

/-- The tokens before the cursor lead to the stage. -/
def Reaches (d : Dialect) (c : Cursor) (s : Stage) : Prop :=
  ∃ ts, Cursor.Passes ⟨c.tokens, 0, c.eol⟩ ts c ∧ Stage.run d .start ts = some s

theorem Reaches.next {c : Cursor} {s s' : Stage} {t : Token} (h : Reaches d c s)
    (ht : c.peek? = some t) (hstep : s.step d t = some s') : Reaches d c.next s' := by
  obtain ⟨ts, hpass, hrun⟩ := h
  refine ⟨ts ++ [t], hpass.trans (.next ht), ?_⟩
  rw [Stage.run_append, hrun, Option.bind_some, Stage.run_singleton, hstep]

/-- No expression goes on at the cursor as the line does. -/
def Blocked (d : Dialect) (c : Cursor) : Prop :=
  ∃ s, Reaches d c s ∧
    match c.peek? with
    | none => s ≠ .steps
    | some t => s.step d t = none

/-- Before the steps no expression ends, so it is enough that no token leads on. -/
theorem Reaches.blocked {c : Cursor} {s : Stage} (h : Reaches d c s) (hs : s ≠ .steps)
    (hstep : ∀ t, c.peek? = some t → s.step d t = none) : Blocked d c := by
  refine ⟨s, h, ?_⟩
  cases ht : c.peek? with
  | none => exact hs
  | some t => exact hstep t ht

/-- The failure, if it has a place, points into the token. -/
def FailsAt (t : Token) (f : Failure) : Prop := ∀ e, f = .parse e → t.Encloses e.span

/-- What an attempt that begins at `c` tells of the stages.  `stop` is the cursor after what it finds. -/
def Tracks (d : Dialect) (stop : α → Cursor) (Ends Misses : Cursor → Prop) (c : Cursor) :
    Outcome α → Prop
  | .found a ms => c.Before (stop a) ∧ Ends (stop a) ∧ Within (stop a) ms
  | .missed ms => Misses c ∧ Within c ms ∧ ∃ m ∈ ms, m.cursor = c
  | .stuck ms => ∃ c', c.Before c' ∧ Blocked d c' ∧ Within c' ms ∧ ∃ m ∈ ms, m.cursor = c'
  | .refused f => ∃ c' t s, c.Before c' ∧ Reaches d c' s ∧ c'.peek? = some t ∧ s.step d t = none ∧
      FailsAt t f

namespace Tracks

variable {stop : α → Cursor} {Ends Ends' Misses Misses' : Cursor → Prop} {c : Cursor} {o : Outcome α}

theorem imp (h : Tracks d stop Ends Misses c o) (hends : ∀ c', c.Before c' → Ends c' → Ends' c')
    (hmisses : Misses c → Misses' c) : Tracks d stop Ends' Misses' c o := by
  cases o with
  | found a ms => exact ⟨h.1, hends _ h.1 h.2.1, h.2.2⟩
  | missed ms => exact ⟨hmisses h.1, h.2⟩
  | stuck ms => exact h
  | refused f => exact h

/-- An attempt with misses before it that are no further than its beginning. -/
theorem after_of_within {ms : List Miss} (h : Tracks d stop Ends Misses c o) (hwithin : Within c ms) :
    Tracks d stop Ends Misses c (o.after ms) := by
  cases o with
  | found a ns => exact ⟨h.1, h.2.1, (hwithin.mono h.1).append h.2.2⟩
  | missed ns =>
    obtain ⟨hmisses, hns, m, hm, hmc⟩ := h
    exact ⟨hmisses, hwithin.append hns, m, List.mem_append_right ms hm, hmc⟩
  | stuck ns =>
    obtain ⟨c', hc, hblocked, hns, m, hm, hmc⟩ := h
    exact ⟨c', hc, hblocked, (hwithin.mono hc).append hns, m, List.mem_append_right ms hm, hmc⟩
  | refused f => exact h

/-- An attempt that begins further on and cannot miss. -/
theorem of_before {c' : Cursor} (h : Tracks d stop Ends (fun _ => False) c' o)
    (hbefore : c.Before c') : Tracks d stop Ends Misses c o := by
  cases o with
  | found a ns => exact ⟨hbefore.trans h.1, h.2⟩
  | missed ns => exact h.1.elim
  | stuck ns =>
    obtain ⟨c'', hc, hrest⟩ := h
    exact ⟨c'', hbefore.trans hc, hrest⟩
  | refused f =>
    obtain ⟨c'', t, s, hc, hrest⟩ := h
    exact ⟨c'', t, s, hbefore.trans hc, hrest⟩

theorem bind {f : α → Outcome β} {stop' : β → Cursor} (h : Tracks d stop Ends Misses c o)
    (hf : ∀ a, c.Before (stop a) → Ends (stop a) →
      Tracks d stop' Ends' (fun _ => False) (stop a) (f a)) :
    Tracks d stop' Ends' Misses c (o.bind f) := by
  cases o with
  | found a ms =>
    obtain ⟨hbefore, hends, hwithin⟩ := h
    exact ((hf a hbefore hends).after_of_within hwithin).of_before hbefore
  | missed ms => exact h
  | stuck ms => exact h
  | refused e => exact h

theorem map {f : α → β} {stop' : β → Cursor} (h : Tracks d stop Ends Misses c o)
    (hf : ∀ a, stop' (f a) = stop a) : Tracks d stop' Ends Misses c (o.map f) := by
  refine h.bind fun a _ hends => ?_
  refine ⟨?_, ?_, Within.nil _⟩
  · rw [hf a]
    exact .refl _
  · rw [hf a]
    exact hends

/-- A second attempt where the first does not apply. -/
theorem orElse {other : Unit → Outcome α} (h : Tracks d stop Ends Misses c o)
    (hother : Misses c → Tracks d stop Ends Misses' c (other ())) :
    Tracks d stop Ends Misses' c (o.orElse other) := by
  cases o with
  | found a ms => exact h
  | missed ms => exact (hother h.1).after_of_within h.2.1
  | stuck ms => exact h
  | refused e => exact h

theorem commit (h : Tracks d stop Ends Misses c o) (hblocked : Misses c → Blocked d c) :
    Tracks d stop Ends (fun _ => False) c o.commit := by
  cases o with
  | found a ms => exact h
  | missed ms => exact ⟨c, .refl c, hblocked h.1, h.2⟩
  | stuck ms => exact h
  | refused e => exact h

/-- One more thing that was wanted where an attempt missed. -/
theorem orMiss {expected : List Text} {context : Option Span} (h : Tracks d stop Ends Misses c o) :
    Tracks d stop Ends Misses c (o.orMiss ⟨c, expected, context⟩) := by
  cases o with
  | found a ms => exact h
  | missed ms =>
    obtain ⟨hmisses, hwithin, m, hm, hmc⟩ := h
    exact ⟨hmisses, hwithin.append (Within.singleton _), m, List.mem_append_left _ hm, hmc⟩
  | stuck ms => exact h
  | refused e => exact h

end Tracks

/-! ## Tokens -/

/-- The token at the cursor, if there is one, has none of the roles. -/
def Avoids (d : Dialect) (roles : List Role) (c : Cursor) : Prop :=
  ∀ t, c.peek? = some t → roleOf d t ∉ roles

theorem failsAt_valueFailure {t : Token} {f : Failure} (context : Option Span) (h : FailsAt t f) :
    FailsAt t (valueFailure opcode context f) := by
  intro e he
  cases f with
  | parse err =>
    cases he
    exact h err rfl
  | _ => cases he

theorem isStepName_eq_false {t : Token} {x : Except Failure (Expression Span)}
    (h : operandOf? d t = some x) : isStepName t = false := by
  unfold isStepName
  cases hname : Value.nameOf t with
  | error e => rfl
  | ok name =>
    rw [operandOf?_eq_none_of_nameOf hname] at h
    cases h

/-- What an attempt at an operand comes to. -/
theorem operand_cases (opcode : Text) (context : Option Span) (c : Cursor) :
    (∃ t e, c.peek? = some t ∧ roleOf d t = .operand ∧
      operand d opcode context c = .found (e, c.next) []) ∨
    (∃ t f, c.peek? = some t ∧ roleOf d t = .broken ∧ isStepName t = false ∧ FailsAt t f ∧
      operand d opcode context c = .refused f) ∨
    (AtNoOperand d c ∧ operand d opcode context c = .missed [⟨c, operandLabels, context⟩]) := by
  cases ht : c.peek? with
  | none =>
    have hnone : AtNoOperand d c := by
      intro t ht'
      rw [ht] at ht'
      cases ht'
    exact .inr (.inr ⟨hnone, operand_of_none hnone⟩)
  | some t =>
    cases hop : operandOf? d t with
    | none =>
      have hnone : AtNoOperand d c := by
        intro t' ht'
        rw [ht] at ht'
        cases ht'
        exact hop
      exact .inr (.inr ⟨hnone, operand_of_none hnone⟩)
    | some x =>
      have hx : operand d opcode context c = taken opcode context c x := by
        unfold operand
        rw [ht, Option.bind_some, hop]
      cases x with
      | ok e => exact .inl ⟨t, e, rfl, roleOf_of_ok hop, hx⟩
      | error f =>
        refine .inr (.inl ⟨t, valueFailure opcode context f, rfl, roleOf_of_error hop,
          isStepName_eq_false hop, failsAt_valueFailure context fun e he => ?_, hx⟩)
        exact (errsAt_of_operandOf? hop he).encloses

theorem isReserved_iff_exists (hd : d.HasStandardKeywords) {text : Text} :
    isReserved d text = true ↔ ∃ entry ∈ keywords, entry.1 = text.lower := by
  rw [isReserved_iff hd]
  simp only [keywords, List.mem_cons, List.not_mem_nil, or_false, exists_eq_or_imp, exists_eq_left]
  constructor
  · intro h
    rcases h with h | h | h | h | h
    · exact .inr (.inr (.inr (.inl h.symm)))
    · exact .inr (.inr (.inr (.inr h.symm)))
    · exact .inr (.inl h.symm)
    · exact .inr (.inr (.inl h.symm))
    · exact .inl h.symm
  · intro h
    rcases h with h | h | h | h | h
    · exact .inr (.inr (.inr (.inr h.symm)))
    · exact .inr (.inr (.inl h.symm))
    · exact .inr (.inr (.inr (.inl h.symm)))
    · exact .inl h.symm
    · exact .inr (.inl h.symm)

/-- The role of a word that is not reserved. -/
theorem plainRole_of_isUnreserved (hd : d.HasStandardKeywords) {t : Token} (h : IsUnreserved d t) :
    plainRole t = if (Value.readCharacters t).isOk then .word else .broken := by
  have hnone : keywords.find? (·.1 = t.text.lower) = none := by
    rw [List.find?_eq_none]
    intro entry hmem hname
    have hres := (isReserved_iff_exists hd).mpr ⟨entry, hmem, of_decide_eq_true hname⟩
    rw [h.2] at hres
    cases hres
  unfold plainRole wordRole
  rw [h.1, hnone]

/-- A token that is no operand and no unreserved word is a mark, a keyword or nothing. -/
theorem plainRole_of_not_isUnreserved (hd : d.HasStandardKeywords) {t : Token}
    (h : ¬ IsUnreserved d t) : plainRole t ∉ [Role.operand, .broken, .word] := by
  unfold plainRole
  split
  · have hroles : ∀ r ∈ [Role.opening, .closing, .sign, .other], r ∉ [Role.operand, .broken, .word] := by decide
    exact hroles _ (markRole_mem t)
  · rename_i hkind
    have hreserved : isReserved d t.text = true := by
      by_contra hfalse
      exact h ⟨hkind, Bool.eq_false_iff.mpr hfalse⟩
    obtain ⟨entry, hmem, hname⟩ := (isReserved_iff_exists hd).mp hreserved
    have hroles : ∀ entry ∈ keywords, entry.2 ∉ [Role.operand, .broken, .word] := by decide
    unfold wordRole
    rw [← hname, find?_keywords hmem]
    exact hroles entry hmem
  · decide

theorem plainRole_ne_operand (t : Token) : plainRole t ≠ .operand := by
  unfold plainRole
  split
  · have hroles : ∀ r ∈ [Role.opening, .closing, .sign, .other], r ≠ .operand := by decide
    exact hroles _ (markRole_mem t)
  · have hroles : ∀ entry ∈ keywords, entry.2 ≠ .operand := by decide
    unfold wordRole
    split
    · rename_i entry hentry
      exact hroles entry (List.mem_of_find?_eq_some hentry)
    · split <;> decide
  · decide

/-- What an attempt at a word comes to where no operand stands. -/
theorem bareWord_cases (opcode : Text) (hd : d.HasStandardKeywords) (context : Option Span) {c : Cursor}
    (h : AtNoOperand d c) :
    (∃ t e, c.peek? = some t ∧ roleOf d t = .word ∧
      bareWord d opcode context c = .found (e, c.next) []) ∨
    (∃ t f, c.peek? = some t ∧ roleOf d t = .broken ∧ FailsAt t f ∧
      bareWord d opcode context c = .refused f) ∨
    (Avoids d [.operand, .broken, .word] c ∧
      bareWord d opcode context c = .missed [⟨c, [TokenKind.word.label], context⟩]) := by
  by_cases hword : ∃ t, c.peek? = some t ∧ IsUnreserved d t
  · obtain ⟨t, ht, hword⟩ := hword
    have hrole : roleOf d t = if (Value.readCharacters t).isOk then .word else .broken := by
      rw [roleOf_of_none (h t ht), plainRole_of_isUnreserved hd hword]
    cases hread : Value.readCharacters t with
    | ok v =>
      rw [hread] at hrole
      exact .inl ⟨t, _, ht, hrole, bareWord_of_isUnreserved ht hword hread⟩
    | error e =>
      rw [hread] at hrole
      refine .inr (.inl ⟨t, valueFailure opcode context (.parse e), ht, hrole, ?_, ?_⟩)
      · refine failsAt_valueFailure context fun e' he' => ?_
        cases he'
        exact (Value.points_of_readCharacters hread).encloses
      · have hcond : ¬ (t.kind ≠ .word ∨ isReserved d t.text = true) := by
          rw [hword.1, hword.2]
          simp
        unfold bareWord
        rw [ht]
        simp only [if_neg hcond, hread]
        rfl
  · have hnot : ∀ t, c.peek? = some t → ¬ IsUnreserved d t := fun t ht hu => hword ⟨t, ht, hu⟩
    refine .inr (.inr ⟨fun t ht => ?_, bareWord_of_not_isUnreserved hnot⟩)
    rw [roleOf_of_none (h t ht)]
    exact plainRole_of_not_isUnreserved hd (hnot t ht)

/-! ## Tests -/

/-- The roles of the tokens that start an atom, or would if they were not broken. -/
def atomRoles : List Role := [.operand, .broken, .word, .opening]

def testRoles : List Role := .neg :: atomRoles

/-- The cursor is in a test, at one of some spots. -/
def InTest (d : Dialect) (opened : Nat) (spots : List Spot) (c : Cursor) : Prop :=
  ∃ spot ∈ spots, Reaches d c (.test opened spot)

/-- The cursor is in a test, at one of some spots, and no comparison follows an operand. -/
def At (d : Dialect) (opened : Nat) (spots : List Spot) (c : Cursor) : Prop :=
  ∃ spot ∈ spots, Reaches d c (.test opened spot) ∧ (spot = .operand → Avoids d [.sign] c)

/-- Where no operand has just ended, there is no comparison to look for. -/
theorem Reaches.at_spot {opened : Nat} {spots : List Spot} {spot : Spot} {c : Cursor}
    (h : Reaches d c (.test opened spot)) (hmem : spot ∈ spots) (hne : spot ≠ .operand) : At d opened spots c :=
  ⟨spot, hmem, h, fun heq => absurd heq hne⟩

theorem At.inTest {opened : Nat} {spots : List Spot} {c : Cursor} (h : At d opened spots c) : InTest d opened spots c := by
  obtain ⟨spot, hmem, hreach, -⟩ := h
  exact ⟨spot, hmem, hreach⟩

/-- The cursor is further on and after an atom. -/
def EndsAtom (d : Dialect) (opened : Nat) (c c' : Cursor) : Prop :=
  c'.rest.length < c.rest.length ∧ At d opened [.operand, .atom] c'

theorem length_rest_next {c : Cursor} {t : Token} (ht : c.peek? = some t) :
    c.next.rest.length < c.rest.length := by
  have hlength := (Cursor.Passes.next ht).length_rest
  rw [List.length_singleton] at hlength
  omega

theorem length_rest_le {c c' : Cursor} (h : c.Before c') : c'.rest.length ≤ c.rest.length := by
  obtain ⟨w, hw⟩ := h
  have hlength := hw.length_rest
  omega

theorem stepTest_of_mem_atomRoles {limit opened : Nat} {r : Role} {spot : Spot}
    (hspot : spot ≠ .compared) (hr : r ∈ atomRoles) :
    Stage.stepTest limit opened r spot = Stage.beginAtom limit opened r := by
  cases spot with
  | compared => exact absurd rfl hspot
  | link => cases r <;> first | rfl | exact absurd hr (by decide)
  | negated => rfl
  | operand => cases r <;> first | rfl | exact absurd hr (by decide)
  | atom => cases r <;> first | rfl | exact absurd hr (by decide)

theorem beginAtom_eq_none {limit opened : Nat} {r : Role} (hr : r ∉ atomRoles) :
    Stage.beginAtom limit opened r = none := by
  cases r <;> first | rfl | exact absurd (by decide) hr

theorem beginTest_eq_none {limit opened : Nat} {r : Role} (hr : r ∉ testRoles) :
    Stage.beginTest limit opened r = none := by
  cases r <;> first | rfl | exact absurd (by decide) hr

/-- What a token that starts an atom does at a spot where one may start. -/
theorem InTest.exists_step {opened : Nat} {spots : List Spot} {c : Cursor} {t : Token}
    (h : InTest d opened spots c) (hspots : Spot.compared ∉ spots) (hrole : roleOf d t ∈ atomRoles) :
    ∃ s, Reaches d c s ∧ s.step d t = Stage.beginAtom d.maxDepth opened (roleOf d t) := by
  obtain ⟨spot, hmem, hreach⟩ := h
  refine ⟨.test opened spot, hreach, stepTest_of_mem_atomRoles ?_ hrole⟩
  rintro rfl
  exact hspots hmem

/-- An operand leads to the spot where a comparison may follow. -/
theorem InTest.next_operand {opened : Nat} {spots : List Spot} {c : Cursor} {t : Token} (h : InTest d opened spots c)
    (hspots : Spot.compared ∉ spots) (ht : c.peek? = some t) (hrole : roleOf d t = .operand) :
    Reaches d c.next (.test opened .operand) := by
  obtain ⟨s, hreach, hstep⟩ := h.exists_step hspots (t := t) (by rw [hrole]; decide)
  rw [hrole] at hstep
  exact hreach.next ht hstep

theorem InTest.next_word {opened : Nat} {spots : List Spot} {c : Cursor} {t : Token} (h : InTest d opened spots c)
    (hspots : Spot.compared ∉ spots) (ht : c.peek? = some t) (hrole : roleOf d t = .word) :
    Reaches d c.next (.test opened .atom) := by
  obtain ⟨s, hreach, hstep⟩ := h.exists_step hspots (t := t) (by rw [hrole]; decide)
  rw [hrole] at hstep
  exact hreach.next ht hstep

/-- An opening parenthesis leads into a group, if another one may be open. -/
theorem InTest.next_opening {opened : Nat} {spots : List Spot} {c : Cursor} {t : Token} (h : InTest d opened spots c)
    (hspots : Spot.compared ∉ spots) (ht : c.peek? = some t) (hrole : roleOf d t = .opening)
    (hopened : opened < d.maxDepth) : Reaches d c.next (.test (opened + 1) .link) := by
  obtain ⟨s, hreach, hstep⟩ := h.exists_step hspots (t := t) (by rw [hrole]; decide)
  refine hreach.next ht ?_
  rw [hstep, hrole]
  exact if_pos hopened

/-- A token of a role that leads from each of the spots to one stage. -/
theorem InTest.next {opened : Nat} {spots : List Spot} {c : Cursor} {t : Token} {r : Role} {s : Stage}
    (h : InTest d opened spots c) (ht : c.peek? = some t) (hrole : roleOf d t = r)
    (hstep : ∀ spot ∈ spots, Stage.stepTest d.maxDepth opened r spot = some s) : Reaches d c.next s := by
  obtain ⟨spot, hmem, hreach⟩ := h
  refine hreach.next ht ?_
  show Stage.stepTest d.maxDepth opened (roleOf d t) spot = some s
  rw [hrole]
  exact hstep spot hmem

theorem Reaches.inTest {opened : Nat} {spots : List Spot} {spot : Spot} {c : Cursor}
    (h : Reaches d c (.test opened spot)) (hspot : spot ∈ spots) : InTest d opened spots c :=
  ⟨spot, hspot, h⟩

/-- A negation leads to the atom that it needs. -/
theorem InTest.next_not {opened : Nat} {c : Cursor} {t : Token} (h : InTest d opened [.link, .operand, .atom] c)
    (ht : c.peek? = some t) (hrole : roleOf d t = .neg) : Reaches d c.next (.test opened .negated) := by
  refine h.next ht hrole fun spot hmem => ?_
  cases spot <;> first | rfl | exact absurd hmem (by decide)

/-- The sign of a comparison leads to the operand behind it. -/
theorem Reaches.next_sign {opened : Nat} {c : Cursor} {t : Token} (h : Reaches d c (.test opened .operand))
    (ht : c.peek? = some t) (hrole : roleOf d t = .sign) : Reaches d c.next (.test opened .compared) :=
  (h.inTest (List.mem_singleton_self _)).next ht hrole (List.forall_mem_singleton.mpr rfl)

theorem Reaches.next_compared {opened : Nat} {c : Cursor} {t : Token} (h : Reaches d c (.test opened .compared))
    (ht : c.peek? = some t) (hrole : roleOf d t = .operand) : Reaches d c.next (.test opened .atom) :=
  (h.inTest (List.mem_singleton_self _)).next ht hrole (List.forall_mem_singleton.mpr rfl)

theorem Reaches.at_link {opened : Nat} {c : Cursor} (h : Reaches d c (.test opened .link)) : At d opened [.link] c :=
  h.at_spot (List.mem_singleton_self _) (by decide)

/-- Where an operand or an atom has ended, a new test may follow as well. -/
theorem At.goOn {opened : Nat} {c : Cursor} (h : At d opened [.operand, .atom] c) :
    At d opened [.link, .operand, .atom] c := by
  obtain ⟨spot, hmem, hrest⟩ := h
  exact ⟨spot, List.mem_cons_of_mem _ hmem, hrest⟩

theorem roleOf_of_comparisonAt? {c : Cursor} {op : Comparison} (h : comparisonAt? c = some op) :
    ∃ t, c.peek? = some t ∧ roleOf d t = .sign := by
  obtain ⟨t, ht, hkind, htext⟩ := comparisonAt?_eq_some h
  exact ⟨t, ht, roleOf_eq_sign_iff.mpr ⟨hkind, by rw [htext]; rfl⟩⟩

theorem comparisonAt?_eq_none_iff {c : Cursor} : comparisonAt? c = none ↔ Avoids d [.sign] c := by
  constructor
  · intro h t ht hsign
    obtain ⟨hkind, hsome⟩ := roleOf_eq_sign_iff.mp (List.mem_singleton.mp hsign)
    unfold comparisonAt? at h
    rw [ht, Option.bind_some, if_pos hkind] at h
    rw [h] at hsome
    cases hsome
  · intro h
    refine comparisonAt?_eq_none_of_forall fun t ht hkind => ?_
    by_contra hne
    refine h t ht (List.mem_singleton.mpr (roleOf_eq_sign_iff.mpr ⟨hkind, ?_⟩))
    exact Option.isSome_iff_ne_none.mpr hne

/-- After the sign of a comparison stands an operand, or the tokens cannot go on there. -/
theorem operand_commit_tracks (opcode : Text) {opened : Nat} {c c' : Cursor} (context : Option Span)
    (h : Reaches d c' (.test opened .compared)) (hlength : c'.rest.length < c.rest.length) :
    Tracks d Prod.snd (EndsAtom d opened c) (fun _ => False) c' (operand d opcode context c').commit := by
  rcases operand_cases opcode context c' with
    ⟨t, e, ht, hrole, hop⟩ | ⟨t, f, ht, hrole, -, hf, hop⟩ | ⟨hnone, hop⟩
  · rw [hop]
    have hat : At d opened [.operand, .atom] _ := (h.next_compared ht hrole).at_spot (by decide) (by decide)
    exact ⟨.next ht, ⟨Nat.lt_trans (length_rest_next ht) hlength, hat⟩, Within.nil _⟩
  · rw [hop]
    refine ⟨c', t, _, .refl _, h, ht, ?_, hf⟩
    show Stage.stepTest d.maxDepth opened (roleOf d t) .compared = none
    rw [hrole]
    rfl
  · rw [hop]
    refine ⟨c', .refl _, h.blocked (by simp) fun t ht => ?_, Within.singleton _, _, List.mem_singleton_self _, rfl⟩
    show Stage.stepTest d.maxDepth opened (roleOf d t) .compared = none
    refine if_neg fun hrole => ?_
    rw [roleOf_of_none (hnone t ht)] at hrole
    exact plainRole_ne_operand t hrole

/-- An attempt at a comparison finds one, goes wrong inside one, or leaves a single operand or none. -/
theorem comparison_cases (opcode : Text) {opened : Nat} {spots : List Spot} {c : Cursor}
    (context : Option Span) (h : At d opened spots c) (hspots : Spot.compared ∉ spots) :
    (Tracks d Prod.snd (EndsAtom d opened c) (fun _ => False) c (comparison d opcode context c)) ∨
    (∃ t e, c.peek? = some t ∧ roleOf d t = .operand ∧ Avoids d [.sign] c.next ∧
      operand d opcode context c = .found (e, c.next) [] ∧
      ∃ m : Miss, m.cursor = c.next ∧ comparison d opcode context c = .missed [m]) ∨
    (AtNoOperand d c ∧ ∃ m : Miss, m.cursor = c ∧ comparison d opcode context c = .missed [m]) := by
  unfold comparison
  rcases operand_cases opcode context c with
    ⟨t, e, ht, hrole, hop⟩ | ⟨t, f, ht, hrole, -, hf, hop⟩ | ⟨hnone, hop⟩
  · rw [hop]
    have hnext := h.inTest.next_operand hspots ht hrole
    cases hsign : comparisonAt? c.next with
    | none =>
      refine .inr (.inl ⟨t, e, ht, hrole, comparisonAt?_eq_none_iff.mp hsign, rfl,
        ⟨c.next, ["comparison operator"], context⟩, rfl, ?_⟩)
      simp only [Outcome.bind, hsign, Outcome.after, List.nil_append]
    | some op =>
      left
      obtain ⟨m, hm, hmrole⟩ := roleOf_of_comparisonAt? (d := d) hsign
      have hcompared := hnext.next_sign hm hmrole
      have hbefore : c.Before c.next.next := (Cursor.Before.next ht).trans (.next hm)
      have hlength : c.next.next.rest.length < c.rest.length :=
        Nat.lt_trans (length_rest_next hm) (length_rest_next ht)
      have hright := operand_commit_tracks opcode context hcompared hlength
      simp only [Outcome.bind, hsign]
      refine ((hright.map ?_).after_of_within (Within.nil _)).of_before hbefore
      exact fun _ => rfl
  · left
    rw [hop]
    obtain ⟨s, hreach, hstep⟩ := h.inTest.exists_step hspots (t := t) (by rw [hrole]; decide)
    rw [hrole] at hstep
    exact ⟨c, t, s, .refl c, hreach, ht, hstep, hf⟩
  · refine .inr (.inr ⟨hnone, ⟨c, operandLabels, context⟩, rfl, ?_⟩)
    rw [hop]
    rfl

theorem any_underscore_eq_false {c : Cursor} (h : AtNoOperand d c) :
    (c.peek?.any fun t => t.kind = .word && t.text.head? = some ('_' : CodePoint)) = false := by
  cases ht : c.peek? with
  | none => rfl
  | some t =>
    have hnone := operandOf?_eq_none_iff.mp (h t ht)
    simpa using hnone.1

/-- An atom that is not in parentheses and no comparison. -/
theorem literalAt_tracks (hd : d.HasStandardKeywords) {opened : Nat} {spots : List Spot} {c : Cursor}
    (context : Option Span) (h : At d opened spots c) (hspots : Spot.compared ∉ spots)
    (hnone : AtNoOperand d c) :
    Tracks d Prod.snd (EndsAtom d opened c) (Avoids d [.operand, .broken, .word]) c
      (literalAt d opcode context c) := by
  have hop : operand d opcode context c = .missed [⟨c, operandLabels, context⟩] :=
    operand_of_none hnone
  unfold literalAt
  rw [hop]
  rcases bareWord_cases opcode hd context hnone with
    ⟨t, e, ht, hrole, hword⟩ | ⟨t, f, ht, hrole, hf, hword⟩ | ⟨havoid, hword⟩
  · simp only [Outcome.orElse, hword, Outcome.after]
    exact ⟨.next ht, ⟨length_rest_next ht, (h.inTest.next_word hspots ht hrole).at_spot (by decide) (by decide)⟩,
      (Within.singleton _).mono (.next ht)⟩
  · obtain ⟨s, hreach, hstep⟩ := h.inTest.exists_step hspots (t := t) (by rw [hrole]; decide)
    rw [hrole] at hstep
    simp only [Outcome.orElse, hword, Outcome.after]
    exact ⟨c, t, s, .refl c, hreach, ht, hstep, hf⟩
  · simp only [Outcome.orElse, hword, Outcome.after]
    exact ⟨havoid, (Within.singleton _).append (Within.singleton _), _, List.mem_cons_self, rfl⟩

theorem atom_tracks (hd : d.HasStandardKeywords) {groupAt : Cursor → Outcome Parsed} {opened : Nat}
    {spots : List Spot} {c : Cursor} (context : Option Span) (h : At d opened spots c)
    (hspots : Spot.compared ∉ spots)
    (hgroup : ∀ t, c.peek? = some t → roleOf d t = .opening →
      Tracks d Prod.snd (EndsAtom d opened c) (fun _ => False) c (groupAt c)) :
    Tracks d Prod.snd (EndsAtom d opened c) (Avoids d atomRoles) c
      (atom d opcode groupAt context c) := by
  unfold atom
  by_cases hopen : c.isPunctuation "(" = true
  · rw [if_pos hopen]
    obtain ⟨t, ht, hmark⟩ := Cursor.isPunctuation_iff.mp hopen
    exact (hgroup t ht (roleOf_eq_opening_iff.mpr hmark)).of_before (.refl c)
  · rw [if_neg hopen]
    rcases comparison_cases opcode context h hspots with
      hfound | ⟨t, e, ht, hrole, havoid, hop, m, hm, hmiss⟩ | ⟨hnone, m, hm, hmiss⟩
    · cases hcomparison : comparison d opcode context c with
      | found x ms => rw [hcomparison] at hfound; exact hfound
      | missed ms => rw [hcomparison] at hfound; exact hfound.1.elim
      | stuck ms => rw [hcomparison] at hfound; exact hfound
      | refused f => rw [hcomparison] at hfound; exact hfound
    · -- the operand stands alone, and reading it again finds the same
      have hfound : Tracks d Prod.snd (EndsAtom d opened c) (Avoids d atomRoles) c
          ((Outcome.found (e, c.next) []).after [m]) := by
        refine ⟨.next ht, ⟨length_rest_next ht, .operand, by decide, h.inTest.next_operand hspots ht hrole,
          fun _ => havoid⟩, ?_⟩
        show Within c.next [m]
        rw [← hm]
        exact Within.singleton m
      rw [hmiss]
      unfold literalAt
      simp only [Outcome.orElse, hop, Outcome.orMiss, ite_self]
      exact hfound
    · have hliteral : Tracks d Prod.snd (EndsAtom d opened c) (Avoids d atomRoles) c
          (literalAt d opcode context c) := by
        refine (literalAt_tracks hd context h hspots hnone).imp (fun _ _ h => h) fun havoid t ht => ?_
        have hnot : roleOf d t ≠ .opening := fun hrole =>
          hopen (Cursor.isPunctuation_iff.mpr ⟨t, ht, roleOf_eq_opening_iff.mp hrole⟩)
        intro hmem
        rcases List.mem_append.mp (show roleOf d t ∈ [Role.operand, .broken, .word] ++ [.opening] from
          hmem) with hmem | hmem
        · exact havoid t ht hmem
        · exact hnot (List.mem_singleton.mp hmem)
      rw [hmiss]
      simp only [Outcome.orElse, any_underscore_eq_false hnone, Bool.false_eq_true, if_false]
      refine hliteral.orMiss.after_of_within ?_
      rw [← hm]
      exact Within.singleton m

/-- What is asked of the reader of groups. -/
def GroupTracks (d : Dialect) (opened : Nat) (groupAt : Cursor → Outcome Parsed) : Prop :=
  ∀ c t, At d opened [.link, .negated, .operand, .atom] c → c.peek? = some t →
    roleOf d t = .opening → Tracks d Prod.snd (EndsAtom d opened c) (fun _ => False) c (groupAt c)

theorem negation_tracks (hd : d.HasStandardKeywords) {groupAt : Cursor → Outcome Parsed}
    {opened : Nat} {c : Cursor} (context : Option Span)
    (h : At d opened [.link, .operand, .atom] c)
    (hgroup : GroupTracks d opened groupAt) :
    Tracks d Prod.snd (EndsAtom d opened c) (Avoids d testRoles) c
      (negation d opcode groupAt context c) := by
  have hatom : At d opened [.link, .negated, .operand, .atom] c := by
    obtain ⟨spot, hmem, hrest⟩ := h
    have hall : ∀ spot ∈ [Spot.link, .operand, .atom], spot ∈ [Spot.link, .negated, .operand, .atom] := by
      decide
    exact ⟨spot, hall spot hmem, hrest⟩
  unfold negation
  by_cases hnot : c.isWord Connective.neg.label = true
  · rw [if_pos hnot]
    obtain ⟨t, ht, hkey⟩ := Cursor.isWord_iff.mp hnot
    have hnegated := h.inTest.next_not ht ((roleOf_eq_iff_isKeyword (by decide)).mpr hkey)
    have hat : At d opened [.link, .negated, .operand, .atom] c.next := hnegated.at_spot (by decide) (by decide)
    have hinner : Tracks d Prod.snd (EndsAtom d opened c) (fun _ => False) c.next
        (atom d opcode groupAt context c.next).commit := by
      refine Tracks.commit (Tracks.imp (atom_tracks hd context hat (by decide)
        fun t' ht' hopen => hgroup c.next t' hat ht' hopen) (fun c' _ hc' => ?_)
        fun havoid => havoid) fun havoid => hnegated.blocked (by simp) fun t' ht' => ?_
      · exact ⟨Nat.lt_trans hc'.1 (length_rest_next ht), hc'.2⟩
      · exact beginAtom_eq_none (havoid t' ht')
    refine (hinner.map ?_).of_before (.next ht)
    exact fun _ => rfl
  · rw [if_neg hnot]
    refine ((atom_tracks hd context hatom (by decide)
      fun t ht hopen => hgroup c t hatom ht hopen).imp (fun _ _ h => h) ?_).orMiss
    intro havoid t ht hmem
    rcases List.mem_cons.mp hmem with hrole | hmem
    · exact hnot (Cursor.isWord_iff.mpr ⟨t, ht, (roleOf_eq_iff_isKeyword (by decide)).mp hrole⟩)
    · exact havoid t ht hmem

theorem peek?_eq_none_of_length {c : Cursor} (h : c.rest.length ≤ 0) : c.peek? = none := by
  rw [Cursor.peek?_eq_head?, List.eq_nil_of_length_eq_zero (Nat.le_zero.mp h)]
  rfl

/-- A repetition goes on until its item misses or the line ends. -/
theorem many_tracks {item : Cursor → Outcome Parsed} {Inv Misses : Cursor → Prop}
    (hend : ∀ c : Cursor, c.peek? = none → Misses c)
    (hitem : ∀ c, Inv c → Tracks d Prod.snd (fun c' => c'.rest.length < c.rest.length ∧ Inv c')
      Misses c (item c))
    {limit : Nat} {c : Cursor} (hlimit : c.rest.length ≤ limit) (hc : Inv c) :
    Tracks d Prod.snd (fun c' => Inv c' ∧ Misses c') (fun _ => False) c (many item limit c) := by
  induction limit generalizing c with
  | zero => exact ⟨.refl c, ⟨hc, hend c (peek?_eq_none_of_length hlimit)⟩, Within.nil c⟩
  | succ limit ih =>
    unfold many
    by_cases hat : c.atEnd = true
    · rw [if_pos hat]
      refine ⟨.refl c, ⟨hc, hend c ?_⟩, Within.nil c⟩
      rw [Cursor.peek?_eq_head?, Cursor.atEnd_iff.mp hat]
      rfl
    · rw [if_neg hat]
      refine Tracks.orElse ((hitem c hc).bind fun x _ hx => ?_) fun hmiss =>
        ⟨.refl c, ⟨hc, hmiss⟩, Within.nil c⟩
      refine (ih (by omega) hx.2).map ?_
      exact fun _ => rfl

/-- The cursor is after an atom, and its token has none of the roles. -/
def Settled (d : Dialect) (opened : Nat) (roles : List Role) (c : Cursor) : Prop :=
  At d opened [.operand, .atom] c ∧ Avoids d roles c

theorem avoids_of_peek?_eq_none {roles : List Role} {c : Cursor} (h : c.peek? = none) :
    Avoids d roles c := by
  intro t ht
  rw [h] at ht
  cases ht

theorem sequenceAt_tracks (hd : d.HasStandardKeywords) {groupAt : Cursor → Outcome Parsed}
    {opened : Nat} (context : Option Span) (hgroup : GroupTracks d opened groupAt) {c : Cursor}
    (h : At d opened [.link] c) :
    Tracks d Prod.snd (Settled d opened testRoles) (Avoids d testRoles) c
      (sequenceAt d opcode groupAt context c) := by
  have hfirst : At d opened [.link, .operand, .atom] c := by
    obtain ⟨spot, hmem, hrest⟩ := h
    exact ⟨spot, List.mem_cons.mpr (.inl (List.mem_singleton.mp hmem)), hrest⟩
  have hmore : ∀ c, At d opened [.operand, .atom] c →
      Tracks d Prod.snd (EndsAtom d opened c) (Avoids d testRoles) c
        (negation d opcode groupAt context c) := fun c hc => negation_tracks hd context hc.goOn hgroup
  unfold sequenceAt
  refine (negation_tracks hd context hfirst hgroup).bind fun x _ hx => ?_
  refine (many_tracks (fun c hc => avoids_of_peek?_eq_none hc) hmore (Nat.le_refl _) hx.2).map ?_
  exact fun _ => rfl

/-- A connective leads from the end of an atom to a new link. -/
theorem stepTest_link {limit opened : Nat} {r : Role} {spot : Spot}
    (hr : r = .conj ∨ r = .disj) (hspot : spot ∈ [Spot.operand, .atom]) :
    Stage.stepTest limit opened r spot = some (.test opened .link) := by
  rcases hr with rfl | rfl <;> cases spot <;> first | rfl | exact absurd hspot (by decide)

theorem InTest.next_link {opened : Nat} {c : Cursor} {t : Token} (h : InTest d opened [.operand, .atom] c)
    (ht : c.peek? = some t) (hrole : roleOf d t = .conj ∨ roleOf d t = .disj) :
    Reaches d c.next (.test opened .link) :=
  h.next ht rfl fun _ hmem => stepTest_link hrole hmem

/-- Nothing goes on from a link where no test starts. -/
theorem blocked_of_link {opened : Nat} {c : Cursor} (h : Reaches d c (.test opened .link))
    (havoid : Avoids d testRoles c) : Blocked d c :=
  h.blocked (by simp) fun t ht => beginTest_eq_none (havoid t ht)

theorem links_tracks {op : Connective} {r : Role} (hop : (op.label, r) ∈ keywords)
    (hr : r = .conj ∨ r = .disj) {opened : Nat} {roles : List Role} (context : Option Span)
    {link : Cursor → Outcome Parsed}
    (hlink : ∀ c, At d opened [.link] c →
      Tracks d Prod.snd (Settled d opened roles) (Avoids d testRoles) c (link c))
    {limit : Nat} {c : Cursor} (hlimit : c.rest.length ≤ limit) (hc : Settled d opened roles c) :
    Tracks d Prod.snd (Settled d opened (r :: roles)) (fun _ => False) c
      (links op context link limit c) := by
  induction limit generalizing c with
  | zero =>
    refine ⟨.refl c, ⟨hc.1, ?_⟩, Within.singleton _⟩
    exact avoids_of_peek?_eq_none (peek?_eq_none_of_length hlimit)
  | succ limit ih =>
    unfold links
    by_cases hword : c.isWord op.label = true
    · rw [if_pos hword]
      obtain ⟨t, ht, hkey⟩ := Cursor.isWord_iff.mp hword
      have hrole : roleOf d t = r := (roleOf_eq_iff_isKeyword hop).mpr hkey
      have hreach := hc.1.inTest.next_link ht (by rw [hrole]; exact hr)
      have hlength := length_rest_next ht
      refine Tracks.of_before (Tracks.bind ((hlink c.next hreach.at_link).commit (blocked_of_link hreach))
        fun x hbefore hx => ?_) (.next ht)
      have hle := length_rest_le hbefore
      refine (ih (by omega) hx).map ?_
      exact fun _ => rfl
    · rw [if_neg hword]
      refine ⟨.refl c, ⟨hc.1, fun t ht hmem => ?_⟩, Within.singleton _⟩
      rcases List.mem_cons.mp hmem with hrole | hmem
      · exact hword (Cursor.isWord_iff.mpr ⟨t, ht, (roleOf_eq_iff_isKeyword hop).mp hrole⟩)
      · exact hc.2 t ht hmem

theorem chain_tracks {op : Connective} {r : Role} (hop : (op.label, r) ∈ keywords)
    (hr : r = .conj ∨ r = .disj) {opened : Nat} {roles : List Role} (context : Option Span)
    {link : Cursor → Outcome Parsed}
    (hlink : ∀ c, At d opened [.link] c →
      Tracks d Prod.snd (Settled d opened roles) (Avoids d testRoles) c (link c))
    {c : Cursor} (h : At d opened [.link] c) :
    Tracks d Prod.snd (Settled d opened (r :: roles)) (Avoids d testRoles) c
      (chain op context link c) := by
  unfold chain
  refine (hlink c h).bind fun x _ hx => ?_
  refine (links_tracks hop hr context hlink (Nat.le_refl _) hx).map ?_
  exact fun _ => rfl

/-- The roles of the tokens that a test goes on with. -/
def goingOn : List Role := .disj :: .conj :: testRoles

theorem disjunction_tracks (hd : d.HasStandardKeywords) {groupAt : Cursor → Outcome Parsed}
    {opened : Nat} (context : Option Span) (hgroup : GroupTracks d opened groupAt) {c : Cursor}
    (h : At d opened [.link] c) :
    Tracks d Prod.snd (Settled d opened goingOn) (Avoids d testRoles) c
      (disjunction d opcode groupAt context c) := by
  unfold disjunction
  refine chain_tracks (by decide) (.inr rfl) context (fun c hc => ?_) h
  exact chain_tracks (by decide) (.inl rfl) context
    (fun c hc => sequenceAt_tracks hd context hgroup hc) hc

/-- A test that has ended goes on only with a closing parenthesis or the actions. -/
theorem Settled.stepTest {opened : Nat} {c : Cursor} (h : Settled d opened goingOn c) :
    ∃ spot, Reaches d c (.test opened spot) ∧ ∀ t, c.peek? = some t → (Stage.test opened spot).step d t =
      if roleOf d t = .closing then (if opened = 0 then none else some (.test (opened - 1) .atom))
      else if roleOf d t = .actions then (if opened = 0 then some .actions else none)
      else none := by
  obtain ⟨⟨spot, hmem, hreach, hsign⟩, havoid⟩ := h
  refine ⟨spot, hreach, fun t ht => ?_⟩
  have hrole := havoid t ht
  show Stage.stepTest d.maxDepth opened (roleOf d t) spot = _
  cases spot with
  | operand =>
    have hnot := hsign rfl t ht
    revert hrole hnot
    cases roleOf d t <;> first
      | (intro _ _; rfl)
      | (intro hrole _; exact absurd (by decide) hrole)
      | (intro _ hnot; exact absurd (by decide) hnot)
  | atom =>
    revert hrole
    cases roleOf d t <;> first | (intro _; rfl) | (intro hrole; exact absurd (by decide) hrole)
  | link => exact absurd hmem (by decide)
  | negated => exact absurd hmem (by decide)
  | compared => exact absurd hmem (by decide)

theorem group_tracks {opened : Nat} (hopened : opened < d.maxDepth)
    {inner : Option Span → Cursor → Outcome Parsed}
    (hinner : ∀ context c, At d (opened + 1) [.link] c →
      Tracks d Prod.snd (Settled d (opened + 1) goingOn) (Avoids d testRoles) c (inner context c)) :
    GroupTracks d opened (group inner) := by
  intro c t h ht hrole
  have hreach := h.inTest.next_opening (by decide) ht hrole hopened
  unfold group
  refine Tracks.of_before (Tracks.bind ((hinner _ c.next hreach.at_link).commit (blocked_of_link hreach))
    fun x hbefore hx => ?_) (.next ht)
  have hle := length_rest_le hbefore
  have hlt := length_rest_next ht
  obtain ⟨spot, hspot, hstep⟩ := hx.stepTest
  -- the test inside took all it could, and the actions may not start while a parenthesis is open
  by_cases hclose : x.2.isPunctuation ")" = true
  · obtain ⟨k, hk, hmark⟩ := Cursor.isPunctuation_iff.mp hclose
    have hkstep := hstep k hk
    rw [if_pos (roleOf_eq_closing_iff.mpr hmark)] at hkstep
    have hklt := length_rest_next hk
    simp only [if_pos hclose]
    have hat : At d opened [.operand, .atom] _ := (hspot.next hk hkstep).at_spot (by decide) (by decide)
    exact ⟨.next hk, ⟨Nat.lt_trans hklt (by omega), hat⟩, Within.nil _⟩
  · simp only [if_neg hclose]
    refine ⟨x.2, .refl _, hspot.blocked (by simp) fun k hk => ?_, Within.singleton _, _, List.mem_singleton_self _, rfl⟩
    have hkrole : roleOf d k ≠ .closing := fun hkrole =>
      hclose (Cursor.isPunctuation_iff.mpr ⟨k, hk, roleOf_eq_closing_iff.mp hkrole⟩)
    rw [hstep k hk, if_neg hkrole]
    by_cases hactions : roleOf d k = .actions
    · rw [if_pos hactions]
      exact if_neg (Nat.succ_ne_zero opened)
    · exact if_neg hactions

/-- Where as many parentheses are open as may be, another one is refused. -/
theorem refuseGroup_tracks (context : Option Span) :
    GroupTracks d d.maxDepth (refuseGroup d opcode context) := by
  intro c t h ht hrole
  obtain ⟨s, hs, hstep⟩ := h.inTest.exists_step (by decide) (t := t) (by rw [hrole]; decide)
  refine ⟨c, t, s, .refl c, hs, ht, ?_, fun e he => ?_⟩
  · rw [hstep, hrole]
    exact if_neg (Nat.lt_irrefl _)
  · cases he
    left
    show c.span = t.span
    unfold Cursor.span
    rw [ht]

theorem test_tracks (hd : d.HasStandardKeywords) (depth : Nat) {opened : Nat}
    (hdepth : opened + depth = d.maxDepth) (context : Option Span) {c : Cursor}
    (h : At d opened [.link] c) :
    Tracks d Prod.snd (Settled d opened goingOn) (Avoids d testRoles) c
      (test d opcode depth context c) := by
  induction depth generalizing opened context c with
  | zero =>
    have hopened : opened = d.maxDepth := hdepth
    subst hopened
    exact disjunction_tracks hd context (refuseGroup_tracks context) h
  | succ depth ih =>
    refine disjunction_tracks hd context (group_tracks (by omega) fun context c hc => ?_) h
    exact ih (by omega) context hc

/-! ## Actions -/

/-- No step starts at the cursor. -/
def AtNoStep (c : Cursor) : Prop := ∀ t, c.peek? = some t → isStepName t = false

theorem operand_tracks {c : Cursor} (h : Reaches d c .steps) :
    Tracks d Prod.snd (fun c' => c'.rest.length < c.rest.length ∧ Reaches d c' .steps)
      (AtNoOperand d) c (operand d opcode none c) := by
  rcases operand_cases opcode none c with
    ⟨t, e, ht, hrole, hop⟩ | ⟨t, f, ht, hrole, hname, hf, hop⟩ | ⟨hnone, hop⟩
  · rw [hop]
    exact ⟨.next ht, ⟨length_rest_next ht, h.next ht (if_pos (.inl hrole))⟩, Within.nil _⟩
  · rw [hop]
    refine ⟨c, t, .steps, .refl c, h, ht, if_neg ?_, hf⟩
    rw [hrole, hname]
    decide
  · rw [hop]
    exact ⟨hnone, Within.singleton _, _, List.mem_singleton_self _, rfl⟩

/-- The cursor is where a step starts, if anything more does. -/
def BeforeStep (d : Dialect) (c : Cursor) : Prop :=
  Reaches d c .actions ∨ Reaches d c .steps ∧ AtNoOperand d c

theorem BeforeStep.exists_step {c : Cursor} {t : Token} (h : BeforeStep d c) (ht : c.peek? = some t) :
    ∃ s, Reaches d c s ∧ s.step d t = if isStepName t = true then some .steps else none := by
  rcases h with h | ⟨h, hnone⟩
  · exact ⟨.actions, h, rfl⟩
  · refine ⟨.steps, h, ?_⟩
    have hrole : roleOf d t ≠ .operand := by
      rw [roleOf_of_none (hnone t ht)]
      exact plainRole_ne_operand t
    by_cases hname : isStepName t = true
    · rw [if_pos hname]
      exact if_pos (.inr hname)
    · rw [if_neg hname]
      exact if_neg fun hor => hor.elim hrole hname

theorem isStepName_eq_false_of_head {t : Token}
    (h : t.kind ≠ .word ∨ t.text.head? = some ('_' : CodePoint)) : isStepName t = false := by
  unfold isStepName
  cases hname : Value.nameOf t with
  | error e => rfl
  | ok name =>
    have hkind := (head_of_nameOf hname).1
    have hnone := operandOf?_eq_none_iff.mp
      (operandOf?_eq_none_of_nameOf (d := Dialect.standard) hname)
    rcases h with h | h
    · exact absurd hkind h
    · exact absurd ⟨hkind, h⟩ hnone.1

theorem stepAt_tracks {c : Cursor} (h : BeforeStep d c) :
    Tracks d Prod.snd
      (fun c' => c'.rest.length < c.rest.length ∧ (Reaches d c' .steps ∧ AtNoOperand d c'))
      AtNoStep c (stepAt d opcode none c) := by
  unfold stepAt
  cases ht : c.peek? with
  | none =>
    refine ⟨fun t ht' => ?_, Within.singleton _, _, List.mem_singleton_self _, rfl⟩
    rw [ht] at ht'
    cases ht'
  | some t =>
    obtain ⟨s, hs, hstep⟩ := h.exists_step ht
    dsimp only
    by_cases hhead : t.kind ≠ .word ∨ t.text.head? = some ('_' : CodePoint)
    · rw [if_pos hhead]
      refine ⟨fun t' ht' => ?_, Within.singleton _, _, List.mem_singleton_self _, rfl⟩
      rw [ht] at ht'
      cases ht'
      exact isStepName_eq_false_of_head hhead
    · rw [if_neg hhead]
      cases hname : Value.nameOf t with
      | error e =>
        have hfalse : isStepName t ≠ true := by
          unfold isStepName
          rw [hname]
          exact Bool.false_ne_true
        rw [if_neg hfalse] at hstep
        refine ⟨c, t, s, .refl c, hs, ht, hstep, failsAt_valueFailure none fun e' he' => ?_⟩
        cases he'
        exact (Value.points_of_nameOf hname).encloses
      | ok name =>
        have htrue : isStepName t = true := by
          unfold isStepName
          rw [hname]
          rfl
        rw [if_pos htrue] at hstep
        have hlt := length_rest_next ht
        have hoperands : Tracks d Prod.snd (fun c' => Reaches d c' .steps ∧ AtNoOperand d c')
            (fun _ => False) c.next (many (operand d opcode none) c.next.rest.length c.next) := by
          refine many_tracks (fun c hc t ht => ?_) (fun c hc => operand_tracks hc) (Nat.le_refl _)
            (hs.next ht hstep)
          rw [hc] at ht
          cases ht
        refine Tracks.map (Tracks.of_before (hoperands.imp (fun c' hbefore hc' => ?_) fun h => h)
          (.next ht)) fun _ => rfl
        have hle := length_rest_le hbefore
        exact ⟨by omega, hc'⟩

/-! ## The whole -/

/-- The cursor after the last token of a line. -/
def lineEnd (c : Cursor) : Cursor := { c with pos := c.tokens.length }

theorem eq_lineEnd {c c' : Cursor} (h : c.Before c') (hpos : c'.pos ≤ c'.tokens.length)
    (hend : c'.atEnd = true) : c' = lineEnd c := by
  obtain ⟨w, hw⟩ := h
  have hlength : c'.tokens.length ≤ c'.pos := of_decide_eq_true hend
  have htokens := hw.tokens_eq
  have heol := hw.eol_eq
  unfold lineEnd
  cases c'
  simp_all
  omega

theorem Reaches.pos_le {c : Cursor} {s : Stage} (h : Reaches d c s) : c.pos ≤ c.tokens.length := by
  obtain ⟨ts, hpass, -⟩ := h
  have hrest : c.tokens = ts ++ c.rest := hpass.rest_eq
  have hpos : c.pos = ts.length := by rw [hpass.pos_eq, Nat.zero_add]
  rw [hrest, List.length_append, hpos]
  omega

theorem steps_tracks {c : Cursor} (h : Reaches d c .actions) :
    Tracks d (fun _ => lineEnd c) (fun c' => Reaches d c' .steps) (fun _ => False) c
      (steps d opcode none c) := by
  have hblocked : AtNoStep c → Blocked d c := fun hnone => h.blocked (by simp) fun t ht => by
    show (if isStepName t = true then some Stage.steps else none) = none
    rw [hnone t ht]
    rfl
  unfold steps
  refine Tracks.bind ((stepAt_tracks (.inl h)).commit hblocked) fun x hbefore hx => ?_
  have hmore : Tracks d Prod.snd (fun c' => (Reaches d c' .steps ∧ AtNoOperand d c') ∧ AtNoStep c')
      (fun _ => False) x.2 (many (stepAt d opcode none) x.2.rest.length x.2) := by
    refine many_tracks (fun c hc t ht => ?_) (fun c hc => stepAt_tracks (.inr hc)) (Nat.le_refl _) hx.2
    rw [hc] at ht
    cases ht
  refine hmore.bind fun y hbefore' hy => ?_
  obtain ⟨⟨hreach, hoperand⟩, hstep⟩ := hy
  by_cases hend : y.2.atEnd = true
  · have heq : y.2 = lineEnd c := eq_lineEnd (hbefore.trans hbefore') hreach.pos_le hend
    simp only [if_pos hend]
    rw [← heq]
    exact ⟨.refl _, hreach, Within.nil _⟩
  · simp only [if_neg hend]
    refine ⟨y.2, .refl _, ⟨.steps, hreach, ?_⟩, Within.singleton _, _, List.mem_singleton_self _, rfl⟩
    cases ht : y.2.peek? with
    | none =>
      have hrest : y.2.rest = [] := by
        rw [Cursor.peek?_eq_head?] at ht
        exact List.head?_eq_none_iff.mp ht
      exact absurd (Cursor.atEnd_iff.mpr hrest) hend
    | some t =>
      have hrole : roleOf d t ≠ .operand := by
        rw [roleOf_of_none (hoperand t ht)]
        exact plainRole_ne_operand t
      refine if_neg fun hor => ?_
      rw [hstep t ht] at hor
      exact hor.elim hrole Bool.false_ne_true

theorem keyword_tracks {word : Text} {r : Role} (hword : (word, r) ∈ keywords) {c : Cursor}
    {Ends : Cursor → Prop} (hfound : ∀ t, c.peek? = some t → roleOf d t = r → Ends c.next)
    (hblocked : Avoids d [r] c → Blocked d c) :
    Tracks d id Ends (fun _ => False) c (keyword none word c) := by
  unfold keyword
  by_cases hkey : c.isWord word = true
  · rw [if_pos hkey]
    obtain ⟨t, ht, hkey⟩ := Cursor.isWord_iff.mp hkey
    exact ⟨.next ht, hfound t ht ((roleOf_eq_iff_isKeyword hword).mpr hkey), Within.nil _⟩
  · rw [if_neg hkey]
    refine ⟨c, .refl c, hblocked fun t ht hmem => ?_, Within.singleton _, _,
      List.mem_singleton_self _, rfl⟩
    have hrole := List.mem_singleton.mp hmem
    exact hkey (Cursor.isWord_iff.mpr ⟨t, ht, (roleOf_eq_iff_isKeyword hword).mp hrole⟩)

theorem testKeyword_tracks {c : Cursor} (h : Reaches d c .start) :
    Tracks d id (fun c' => Reaches d c' (.test 0 .link)) (fun _ => False) c (keyword none "test" c) := by
  refine keyword_tracks (r := .test) (by decide) (fun t ht hrole => h.next ht (if_pos hrole))
    fun havoid => h.blocked (by simp) fun t ht => ?_
  exact if_neg fun hrole => havoid t ht (List.mem_singleton.mpr hrole)

theorem actionKeyword_tracks {c : Cursor} (h : Settled d 0 goingOn c) :
    Tracks d id (fun c' => Reaches d c' .actions) (fun _ => False) c (keyword none "actions" c) := by
  obtain ⟨spot, hreach, hstep⟩ := h.stepTest
  refine keyword_tracks (r := .actions) (by decide) (fun t ht hrole => hreach.next ht ?_)
    fun havoid => hreach.blocked (by simp) fun t ht => ?_
  · rw [hstep t ht, hrole]
    rfl
  · rw [hstep t ht]
    by_cases hclose : roleOf d t = .closing
    · rw [if_pos hclose]
      rfl
    · rw [if_neg hclose]
      exact if_neg fun hrole => havoid t ht (List.mem_singleton.mpr hrole)

theorem lineEnd_eq {c c' : Cursor} (h : c.Before c') : lineEnd c' = lineEnd c := by
  obtain ⟨w, hw⟩ := h
  unfold lineEnd
  rw [hw.tokens_eq, hw.eol_eq]

/-- The stages follow the reading of a whole line. -/
theorem bodyAt_tracks (opcode : Text) (hd : d.HasStandardKeywords) {c : Cursor} (h : Reaches d c .start) :
    Tracks d (fun _ => lineEnd c) (fun c' => Reaches d c' .steps) (fun _ => False) c
      (bodyAt d opcode c) := by
  unfold bodyAt bodyWith
  rw [hd.lower_testKeyword, hd.lower_actionKeyword]
  refine (testKeyword_tracks h).bind fun c₁ hbefore₁ hlink => ?_
  refine ((test_tracks hd d.maxDepth (Nat.zero_add _) none hlink.at_link).commit
    (blocked_of_link hlink)).bind fun x hbefore₂ hx => ?_
  refine (actionKeyword_tracks hx).bind fun c₂ hbefore₃ hreach => ?_
  have hend : lineEnd c₂ = lineEnd c := lineEnd_eq ((hbefore₁.trans hbefore₂).trans hbefore₃)
  refine Tracks.map (steps_tracks hreach) fun _ => ?_
  exact hend.symm

theorem reaches_start (ts : List Token) (eol : Span) : Reaches d ⟨ts, 0, eol⟩ .start :=
  ⟨[], .refl _, rfl⟩

/-- An expression that is not read stops at a cursor where nothing goes on as the line does, and its error
points there. -/
theorem exists_blocked_of_parse_eq_error (hd : d.HasStandardKeywords) {c : Cursor} {f : Failure}
    (hstart : Reaches d c .start) (h : parse d opcode c = .error f) :
    ∃ c', c.Before c' ∧ Blocked d c' ∧ ∀ e, f = .parse e →
      match c'.peek? with
      | none => e.span = c.eol
      | some t => t.Encloses e.span := by
  have htracks := bodyAt_tracks opcode hd hstart
  unfold parse conclude at h
  cases hbody : bodyAt d opcode c with
  | found e ms => rw [hbody] at h; cases h
  | missed ms =>
    rw [hbody] at htracks
    exact htracks.1.elim
  | stuck ms =>
    rw [hbody] at h htracks
    obtain ⟨c', hbefore, hblocked, hwithin, hmem⟩ := htracks
    refine ⟨c', hbefore, hblocked, fun e he => ?_⟩
    have hspan : e.span = c'.span := by
      rw [← Except.error.inj h] at he
      rw [← Failure.parse.inj he]
      show ((Furthest.ofMisses ms).cursor.getD c).span = c'.span
      rw [Furthest.cursor_ofMisses hwithin hmem]
      rfl
    rw [hspan]
    unfold Cursor.span
    cases ht : c'.peek? with
    | none =>
      obtain ⟨w, hw⟩ := hbefore
      exact hw.eol_eq
    | some t => exact .inl rfl
  | refused f' =>
    rw [hbody] at h htracks
    cases h
    obtain ⟨c', t, s, hbefore, hreach, ht, hstep, hfails⟩ := htracks
    refine ⟨c', hbefore, ⟨s, hreach, ?_⟩, fun e he => ?_⟩
    · rw [ht]
      exact hstep
    · rw [ht]
      exact hfails e he

/-- At a blocked cursor the tokens before it lead to a stage, from which the rest of the line leads to no
end of an expression. -/
theorem Blocked.exists_stage {c : Cursor} (h : Blocked d c) :
    ∃ s, Stage.run d .start (c.tokens.take c.pos) = some s ∧
      match c.peek? with
      | none => s ≠ .steps
      | some t => s.step d t = none := by
  obtain ⟨s, ⟨ts, hpass, hrun⟩, hpeek⟩ := h
  rw [hpass.eq_take] at hrun
  exact ⟨s, hrun, hpeek⟩

/-- A list of tokens is accepted exactly if it leads through the stages to the last. -/
theorem exists_parse_iff_run (hd : d.HasStandardKeywords) {ts : List Token} {eol : Span} :
    (∃ e, parse d opcode ⟨ts, 0, eol⟩ = .ok e) ↔ Stage.run d .start ts = some .steps := by
  constructor
  · intro ⟨e, he⟩
    have htracks := bodyAt_tracks opcode hd (reaches_start (d := d) ts eol)
    unfold parse conclude at he
    cases hbody : bodyAt d opcode ⟨ts, 0, eol⟩ with
    | found e' ms =>
      rw [hbody] at htracks
      obtain ⟨-, ⟨us, hpass, hrun⟩, -⟩ := htracks
      have hus : us = ts := by
        have htake := hpass.eq_take
        rw [htake]
        exact List.take_length
      rw [← hus]
      exact hrun
    | missed ms => rw [hbody] at he; cases he
    | stuck ms => rw [hbody] at he; cases he
    | refused f => rw [hbody] at he; cases he
  · intro hrun
    cases hparse : parse d opcode ⟨ts, 0, eol⟩ with
    | ok e => exact ⟨e, rfl⟩
    | error f =>
      exfalso
      obtain ⟨c', ⟨w, hw⟩, hblocked, -⟩ :=
        exists_blocked_of_parse_eq_error hd (reaches_start ts eol) hparse
      obtain ⟨s, ⟨us, hpass, hs⟩, hpeek⟩ := hblocked
      have hts : ts = us ++ c'.rest := by
        rw [← hpass.rest_eq]
        show ts = c'.tokens.drop 0
        rw [hw.tokens_eq]
        rfl
      rw [hts, Stage.run_append, hs, Option.bind_some] at hrun
      rw [Cursor.peek?_eq_head?] at hpeek
      cases hrest : c'.rest with
      | nil =>
        rw [hrest] at hrun hpeek
        exact hpeek (Option.some.inj hrun)
      | cons t more =>
        rw [hrest] at hrun hpeek
        have hnone : s.step d t = none := hpeek
        rw [Stage.run, hnone] at hrun
        cases hrun

end Expression
end BrailleTable
