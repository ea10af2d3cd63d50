/-
Directives of the standard dialect.

`IsRead line r` gathers what is known of a directive that was read from a line.  Whatever is written and read back later
depends on the line through this alone.
-/
import BrailleTable.Proofs.Expression.Writable
import BrailleTable.Proofs.Vocabulary

namespace BrailleTable

open Value (dotDigits)

namespace Directive

/-- What follows the opcode in a line. -/
inductive Follows (line : Text) (shape : Shape) : List (Value Span) → Option (Expression Span) → Prop
  | expression {e : Expression Span} :
      shape.isMultipart = true → Expression.WritableBody line e → Follows line shape [] (some e)
  | arguments {vs : List (Value Span)} :
      shape.isMultipart = false → shape.name ≠ "include" → Fills shape.slots vs →
      Follows line shape vs none
  | filename {v : Text} {s : Span} :
      shape.name = "include" → (∀ c ∈ v, c ∈ line) → Follows line shape [.string v s] none

theorem Follows.exists_filename {line : Text} {shape : Shape} {args : List (Value Span)}
    {expression : Option (Expression Span)} (h : Follows line shape args expression)
    (hname : shape.name = "include") (hmultipart : shape.isMultipart = false) :
    ∃ v s, args = [.string v s] ∧ expression = none ∧ ∀ c ∈ v, c ∈ line := by
  cases h with
  | expression hmultipart' =>
    rw [hmultipart] at hmultipart'
    cases hmultipart'
  | arguments _ hnot => exact absurd hname hnot
  | filename _ hmem => exact ⟨_, _, rfl, rfl, hmem⟩

/-- A directive that was read from a line. -/
structure IsRead (line : Text) (r : Directive Span) : Prop where
  follows : ∃ shape ∈ Vocabulary.standard, shape.name = r.opcode ∧
    (r.modifiers.toList = [] ∨ shape.takesModifiers = true) ∧ Follows line shape r.args r.expression
  apart : r.modifiers.toList.Pairwise Apart
  comment : ∀ text ∈ r.comment, text.IsStripped ∧ ∀ c ∈ text, c ∈ line

variable {line : LogicalLine} {tokens : List Token} {eol : Span}

/-- A file name is the value of its token. -/
theorem eq_string_of_readSlots {opcode : Text} {name : Span} {position : Nat} {vs : List (Value Span)}
    (h : readSlots dotDigits opcode name eol position [Vocabulary.Standard.slot [.filename]] tokens =
      .ok (vs, [])) : ∃ t ∈ tokens, vs = [.string t.value t.span] := by
  rcases readSlots_cons_eq_ok h with ⟨hoptional, -⟩ | ⟨raw, v, vs', hoptional, -⟩ |
    ⟨us, vs', hrepeats, -⟩ | ⟨t, rest, v, vs', -, rfl, rfl, hv, hmore⟩
  · cases hoptional
  · cases hoptional
  · cases hrepeats
  · cases hmore
    obtain ⟨hchoose, -⟩ := choose_of_readArgument hv
    obtain ⟨kind, hkind, hread⟩ := SlotKind.exists_of_chooseAfter hchoose
    rw [List.mem_singleton.mp hkind] at hread
    obtain ⟨_, -, heq⟩ := bind_eq_ok (mapError_eq_ok hread)
    cases heq
    exact ⟨t, List.mem_cons_self, rfl⟩

theorem follows_of_readArguments {shape : Shape} {name : Span} {vs : List (Value Span)}
    (hshape : shape ∈ Vocabulary.standard) (hmultipart : shape.isMultipart = false)
    (htokens : ∀ t ∈ tokens, t.CutFrom line)
    (h : readArguments dotDigits shape name eol tokens = .ok vs) : Follows line.text shape vs none := by
  unfold readArguments at h
  obtain ⟨⟨us, left⟩, hslots, h⟩ := bind_eq_ok h
  cases left with
  | cons t left => cases h
  | nil =>
    cases h
    by_cases hname : shape.name = "include"
    · rw [(Vocabulary.slots_include shape hshape hname).2] at hslots
      obtain ⟨t, ht, rfl⟩ := eq_string_of_readSlots hslots
      exact .filename hname (htokens t ht).mem_of_mem_value
    · have htidy := (Vocabulary.isTidy_slots shape hshape hmultipart hname).1
      exact .arguments hmultipart hname (fills_of_readSlots htidy htokens hslots)

theorem follows_of_readsOperands {shape : Shape} {name : Span} {args : List (Value Span)}
    {expression : Option (Expression Span)} (hshape : shape ∈ Vocabulary.standard)
    (htokens : ∀ t ∈ tokens, t.CutFrom line)
    (h : ReadsOperands .standard shape name eol tokens args expression) :
    Follows line.text shape args expression := by
  cases h with
  | expression hmultipart hparse =>
    refine .expression hmultipart ((Expression.body_of_parse hparse).writableBody ?_)
    intro u hu
    obtain ⟨v, hv, huv⟩ := List.mem_flatMap.mp (List.mem_of_mem_drop hu)
    exact (htokens v hv).splitOperators u huv
  | arguments hmultipart hargs => exact follows_of_readArguments hshape hmultipart htokens hargs

theorem isRead_of_parse {comment : Option Text} {r : Directive Span}
    (htokens : ∀ t ∈ tokens, t.CutFrom line) (hcomment : Lexer.CommentIn line comment)
    (h : parse .standard tokens eol comment = .ok r) : IsRead line.text r := by
  obtain ⟨ms, t, arguments, shape, hmodifiers, hopcode, hname, hset, rfl, hreads⟩ := parse_eq_ok h
  have hsub := (pairwise_of_readModifiers .nil hmodifiers).2
  obtain ⟨hshape, htakes⟩ := readOpcode_eq_ok hopcode
  have harguments : ∀ u ∈ arguments, u.CutFrom line := fun u hu =>
    htokens u (hsub u (List.mem_cons_of_mem t hu))
  refine ⟨⟨shape, hshape, hname.symm, ?_, ?_⟩, ?_, hcomment⟩
  · rcases htakes with rfl | htakes
    · left
      rw [hset]
      rfl
    · exact .inr htakes
  · exact follows_of_readsOperands hshape harguments hreads
  · rw [hset]
    exact pairwise_modifiers hmodifiers

end Directive
end BrailleTable
