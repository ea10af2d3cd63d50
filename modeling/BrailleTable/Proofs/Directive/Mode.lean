/-
Where the lexer expects an expression.

The lexer decides at the first token that is no modifier, by its kind and its name; the reader of directives decides
later, by the shape that the name is looked up in.  For every dialect that a configuration makes they agree, unless an
opcode with an expression is called like a number, like dots or by punctuation alone: the lexer looks at words only.
-/
import BrailleTable.Proofs.Dialect.Names
import BrailleTable.Proofs.Token.Taking

namespace BrailleTable

namespace Directive

open Lexer (Takes)

theorem modifierOf?_of_readModifiers {seen : List Modifier} {tokens rest : List Token} {ms : List (Modifier × Token)}
    (h : readModifiers seen tokens = .ok (ms, rest)) :
    (∀ t ∈ ms.map Prod.snd, ∃ m, modifierOf? t = some m) ∧ ∀ t, rest.head? = some t → modifierOf? t = none := by
  induction tokens generalizing seen ms rest with
  | nil =>
    cases h
    exact ⟨fun t ht => absurd ht List.not_mem_nil, fun t ht => by cases ht⟩
  | cons t tokens ih =>
    unfold readModifiers at h
    split at h
    · rename_i hnone
      cases h
      refine ⟨fun u hu => absurd hu List.not_mem_nil, fun u hu => ?_⟩
      cases hu
      exact hnone
    · rename_i m hsome
      split at h
      · cases h
      · split at h
        · cases h
        · obtain ⟨⟨ms', rest'⟩, hrest, heq⟩ := map_eq_ok h
          cases heq
          obtain ⟨hmodifiers, hhead⟩ := ih hrest
          refine ⟨fun u hu => ?_, hhead⟩
          rcases List.mem_cons.mp hu with rfl | hu
          · exact ⟨m, hsome⟩
          · exact hmodifiers u hu

/-- The lexer and the reader know the same modifiers. -/
theorem exists_modifierOf?_iff (d : Dialect) (t : Token) :
    (∃ m, modifierOf? t = some m) ↔ t.kind = .word ∧ t.text.lower ∈ (Lexer.ofDialect d).rules.modifiers := by
  unfold modifierOf? Modifier.ofText?
  rw [Lexer.modifiers_ofDialect]
  by_cases hkind : t.kind = .word
  · rw [if_pos hkind, ← Option.isSome_iff_exists, List.find?_isSome]
    simp [hkind, eq_comm]
  · simp [hkind]

theorem lookup_of_readOpcode {v : Vocabulary} {ms : List (Modifier × Token)} {t : Token} {shape : Shape}
    (h : readOpcode v ms t = .ok shape) : t.kind ≠ .quoted ∧ v.lookup t.text.lower = some shape := by
  unfold readOpcode at h
  split at h
  · cases h
  · rename_i shape' hlookup
    split at hlookup
    · cases hlookup
    · rename_i hkind
      refine ⟨hkind, ?_⟩
      rw [hlookup]
      split at h
      · split at h
        · cases h
          rfl
        · cases h
      · cases h
        rfl

/-- The lexer expects an expression behind the opcode of a line, and up to its end, exactly if the shape of the opcode
says so and its name is a word. -/
theorem exists_takes_opcode_iff {settings : List (Text × Dialect.Datum)} {opcodes : List (Text × Text)} {d : Dialect}
    (hconfigure : Dialect.configure settings opcodes = .ok d) {line : LogicalLine} {tokens arguments : List Token}
    {lx : Lexer} (htokenize : (Lexer.ofDialect d).tokenize line = (.ok tokens, lx)) {ms : List (Modifier × Token)}
    {t : Token} (hmodifiers : readModifiers [] tokens = .ok (ms, t :: arguments)) {shape : Shape}
    (hopcode : readOpcode d.vocabulary [] t = .ok shape) :
    ∃ lx₁ lx₂, Takes ((Lexer.ofDialect d).reset line) (ms.map Prod.snd ++ [t]) lx₁ ∧ Takes lx₁ arguments lx₂ ∧
      ∀ us lx', Takes lx₁ us lx' → (lx'.inExpression = true ↔ shape.isMultipart = true ∧ t.kind = .word) := by
  -- The first token that is no modifier is the opcode, and it sets the mode for good.
  have horderly := Dialect.isOrderly_of_configure hconfigure
  obtain ⟨hwords, hnone⟩ := modifierOf?_of_readModifiers hmodifiers
  obtain ⟨-, hlookup⟩ := lookup_of_readOpcode hopcode
  obtain ⟨lx₂, htakes, -⟩ := Lexer.exists_takes_of_tokenize htokenize
  rw [eq_append_of_readModifiers hmodifiers, List.append_cons] at htakes
  obtain ⟨lx₁, htakes₁, htakes₂⟩ := htakes.split
  have hall : (ms.map Prod.snd).all (Lexer.ofDialect d).rules.isModifier = true :=
    List.all_eq_true.mpr fun u hu => LexRules.isModifier_iff.mpr ((exists_modifierOf?_iff d u).mp (hwords u hu))
  have ht : (Lexer.ofDialect d).rules.isModifier t = false := by
    by_contra hmodifier
    obtain ⟨m, hm⟩ := (exists_modifierOf?_iff d t).mpr (LexRules.isModifier_iff.mp (by simpa using hmodifier))
    rw [hnone t rfl] at hm
    cases hm
  refine ⟨lx₁, lx₂, htakes₁, htakes₂, fun us lx' hus => ?_⟩
  have hbehind := ((Lexer.behind_reset _ line).takes htakes₁).takes hus
  have hmultipart : t.text.lower ∈ (Lexer.ofDialect d).rules.expressionOpcodes ↔ shape.isMultipart = true := by
    rw [Lexer.mem_expressionOpcodes_iff horderly, hlookup]
    simp
  rw [hbehind.inExpression_eq, List.nil_append, List.append_assoc, LexRules.expectsExpression_append hall]
  rw [List.singleton_append, LexRules.expectsExpression_cons ht, LexRules.opensExpression_iff, hmultipart, and_comm]

end Directive

/-- A line whose opcode takes an expression and is called like a number. -/
def numberedLine : LogicalLine := .single "noback 12 test (\"a\") actions go" ⟨1, 1, 0⟩

/-- The lexer does not expect the expression that the shape of such an opcode asks for. -/
theorem exists_takes_numberedLine :
    ∃ d, Dialect.configure [] [("12", "prefixable multipart")] = .ok d ∧
      ∃ (m t : Token) (shape : Shape) (lx : Lexer), d.vocabulary.lookup t.text.lower = some shape ∧
        shape.isMultipart = true ∧ t.kind = .number ∧
        Lexer.Takes ((Lexer.ofDialect d).reset numberedLine) [m, t] lx ∧ lx.inExpression = false := by
  have hread : ((Dialect.configure [] [("12", "prefixable multipart")]).toOption.bind fun d =>
      ((Lexer.ofDialect d).tokenize numberedLine).1.toOption.bind fun tokens =>
        (Directive.readModifiers [] tokens).toOption.bind fun head =>
          head.2.head?.bind fun t => (Directive.readOpcode d.vocabulary [] t).toOption.map fun shape =>
            (head.1.length, t.kind, shape.isMultipart)) = some (1, .number, true) := by
    decide +kernel
  obtain ⟨d, hd, hread⟩ := toOption_bind_eq_some hread
  obtain ⟨tokens, htokens, hread⟩ := toOption_bind_eq_some hread
  obtain ⟨⟨ms, rest⟩, hms, hread⟩ := toOption_bind_eq_some hread
  obtain ⟨t, ht, hread⟩ := Option.bind_eq_some_iff.mp hread
  obtain ⟨shape, hshape, hvalues⟩ := Option.map_eq_some_iff.mp hread
  obtain ⟨hcount, hvalues⟩ := Prod.mk.inj hvalues
  obtain ⟨hkind, hmultipart⟩ := Prod.mk.inj hvalues
  obtain ⟨m, rfl⟩ := List.length_eq_one_iff.mp hcount
  obtain ⟨arguments, rfl⟩ := List.head?_eq_some_iff.mp ht
  have hopcode := toOption_eq_some hshape
  obtain ⟨lx, -, htakes, -, hmode⟩ := Directive.exists_takes_opcode_iff hd (Prod.ext htokens rfl) hms hopcode
  refine ⟨d, hd, m.2, t, shape, lx, (Directive.lookup_of_readOpcode hopcode).2, hmultipart, hkind, htakes, ?_⟩
  have hnot : ¬ lx.inExpression = true := by
    rw [hmode [] lx (.nil lx), hkind]
    exact fun h => by cases h.2
  simpa using hnot

end BrailleTable
