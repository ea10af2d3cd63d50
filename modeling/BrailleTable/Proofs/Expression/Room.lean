/-
Reading where calls cannot be nested without end.

With room for the calls of so many parentheses an expression is read as it is without a limit, until a parenthesis is opened
inside as many others as there is room for: there the reading gives up.  Nothing else gives up, and where the bound of the
dialect is not above the room it refuses the parenthesis first.
-/
import BrailleTable.Proofs.Expression.Deepening

namespace BrailleTable
namespace Expression

variable {d : Dialect} {opcode : Text} {I : List Span → Cursor → Prop} {M : Miss → Prop} {P : Failure → Prop} {room : Nat}

/-- A parenthesis is opened inside so many others. -/
def OpensInside (room : Nat) (ts : List Token) : Prop :=
  ∃ p t, ts[p]? = some t ∧ t.IsMark "(" ∧ (openParens (ts.take p)).length = room

theorem Invariant.testWithin_reads (h : Invariant d opcode I M P)
    (hexhausted : ∀ {stack c}, I stack c → c.isPunctuation "(" = true → stack.length = room → P .callsExhausted) :
    Reads (I []) M P (testWithin d opcode room none) := by
  have hgroup : ∀ {stack : List Span}, stack.length = room → ReadsGroup (I stack) M P (exhaustGroup stack.head?) :=
    fun hfull _ hc hopening => hexhausted hc hopening hfull
  unfold testWithin
  split
  · exact h.test_reads d.maxDepth (Nat.zero_add _)
  · exact h.testWith_reads hgroup room (Nat.zero_add _)

/-- Where an expression that is not read to its end stops, whatever the room. -/
theorem exists_cursor_of_bodyWithin {c : Cursor} {ms : List Miss}
    (h : bodyWithin d opcode room c = .missed ms ∨ bodyWithin d opcode room c = .stuck ms) :
    ∃ c', (Furthest.ofMisses ms).cursor = some c' ∧ c'.IsOn c.tokens c.eol := by
  have hadmits : Admits d opcode c.tokens c.eol fun _ => True := ⟨fun _ _ _ _ _ => trivial, fun _ _ _ _ _ => trivial⟩
  have htest : Reads _ _ _ (testWithin d opcode room none) := hadmits.invariant.testWithin_reads fun _ _ _ => trivial
  have hmeets : (bodyWithin d opcode room c).Meets _ _ _ := hadmits.invariant.bodyWith_meets htest ⟨rfl, rfl⟩
  rcases h with h | h <;>
    · rw [h] at hmeets
      exact Furthest.exists_cursor_ofMisses hmeets.1 hmeets.2

/-! ## Giving up -/

theorem readNumber_ne_callsExhausted (t : Token) : Value.readNumber t ≠ .error .callsExhausted := by
  intro h
  unfold Value.readNumber at h
  split at h
  · cases h
  · split at h <;> cases h

/-- What is wrong with a token is not that there is no room. -/
theorem Spoils.ne_callsExhausted {t : Token} {f : Failure} (h : Spoils d t f) : f ≠ .callsExhausted := by
  have hparse : ∀ {α β : Type} {x : Except ParseError α} {g : α → β}, (x.map g).mapError Failure.parse = .error f →
      f ≠ .callsExhausted := by
    intro α β x g hx
    obtain ⟨e, -, rfl⟩ := mapError_eq_error hx
    exact fun heq => by cases heq
  cases h with
  | word _ => exact fun heq => by cases heq
  | name _ => exact fun heq => by cases heq
  | operand hread =>
    unfold operandOf? at hread
    split at hread
    · exact hparse (Option.some.inj hread)
    · split at hread
      · rintro rfl
        exact readNumber_ne_callsExhausted t (map_eq_error (Option.some.inj hread))
      · split at hread
        · exact hparse (Option.some.inj hread)
        · split at hread
          · split at hread
            · cases hread
              exact fun heq => by cases heq
            · exact hparse (Option.some.inj hread)
          · cases hread

theorem valueFailure_ne_callsExhausted {f : Failure} (h : f ≠ .callsExhausted) (context : Option Span) :
    valueFailure opcode context f ≠ .callsExhausted := by
  cases f with
  | parse e => exact fun heq => by cases heq
  | _ => exact h

/-- The parentheses of the stack are those that are open in the line. -/
theorem room_invariant (d : Dialect) (opcode : Text) (ts : List Token) (eol : Span) (room : Nat) :
    Invariant d opcode (OpensAt ts eol) (fun _ => True) fun f => f = .callsExhausted → OpensInside room ts where
  next hc ht := hc.next ht
  miss _ _ := trivial
  token _ _ hf := fun heq => absurd heq (valueFailure_ne_callsExhausted hf.ne_callsExhausted _)
  tooDeep _ _ _ _ := fun heq => by cases heq

theorem opensInside_of_bodyWithin {ts : List Token} {eol : Span}
    (h : bodyWithin d opcode room ⟨ts, 0, eol⟩ = .refused .callsExhausted) : OpensInside room ts := by
  have htest : Reads (OpensAt ts eol []) (fun _ => True) (fun f => f = .callsExhausted → OpensInside room ts)
      (testWithin d opcode room none) := by
    refine (room_invariant d opcode ts eol room).testWithin_reads ?_
    intro stack c hc hopening hfull _
    obtain ⟨t, ht, hmark⟩ := Cursor.isPunctuation_iff.mp hopening
    exact ⟨c.pos, t, hc.getElem? ht, hmark, by rw [hc.openParens_eq, hfull]⟩
  have hmeets : (bodyWithin d opcode room ⟨ts, 0, eol⟩).Meets _ _ _ :=
    (room_invariant d opcode ts eol room).bodyWith_meets htest (.start ts eol)
  rw [h] at hmeets
  exact hmeets rfl

/-- Where the dialect's bound is reached first, the room makes no difference. -/
theorem parseWithin_of_le (hle : d.maxDepth ≤ room) (c : Cursor) : parseWithin d opcode room c = parse d opcode c := by
  unfold parseWithin bodyWithin testWithin
  rw [if_pos hle]
  rfl

/-- An expression is read with room for so many parentheses as it is without a limit, unless one is opened inside as many
others and the dialect allows it. -/
theorem parseWithin_eqUnless (d : Dialect) (opcode : Text) (room : Nat) (ts : List Token) (eol : Span) :
    EqUnless (room < d.maxDepth ∧ OpensInside room ts) .callsExhausted (parseWithin d opcode room ⟨ts, 0, eol⟩)
      (parse d opcode ⟨ts, 0, eol⟩) := by
  by_cases hle : d.maxDepth ≤ room
  · exact .inl (parseWithin_of_le hle _)
  · have hlt : room < d.maxDepth := Nat.lt_of_not_le hle
    have hexhaust : ∀ context c, ∃ f, exhaustGroup context c = .refused f ∧ f = .callsExhausted := fun _ _ =>
      ⟨_, rfl, rfl⟩
    have htest : InStep (· = .callsExhausted) (testWithin d opcode room none) (test d opcode d.maxDepth none) := by
      unfold testWithin
      rw [if_neg hle]
      exact testWith_inStep d d (fun _ _ => rfl) hexhaust hlt.le
    rcases bodyWith_inStep htest opcode ⟨ts, 0, eol⟩ with heq | ⟨f, hrefused, rfl⟩
    · exact .inl (congrArg (conclude opcode _) heq)
    · exact .inr ⟨⟨hlt, opensInside_of_bodyWithin hrefused⟩, congrArg (conclude opcode _) hrefused⟩

end Expression
end BrailleTable
