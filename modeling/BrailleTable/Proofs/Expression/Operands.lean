/-
The operands and words of expressions are read back.

`IsOperand line e` is what every operand satisfies that was read from a line.  A string is the only one that depends on
the line: it is quoted, and a line ending in it would have to be written as an escape, which only words have.
-/
import BrailleTable.Expression.Printer
import BrailleTable.Proofs.Expression.Completeness
import BrailleTable.Proofs.Value.RoundTrip

namespace BrailleTable
namespace Expression

open Value (IsName IsPattern dotDigits)
open Lexer (Spells IsWord)

/-! ## What is read -/

inductive IsOperand (line : Text) : Expression Span → Prop
  | classRef {name : Text} {s : Span} :
      IsName name → TokenKind.ofText ('_' :: name) = .word → (∀ c ∈ name, c.isBlank = false) →
      IsOperand line (.classRef name s)
  | number {n : Nat} {s s' : Span} :
      n < 10 ^ Text.digitLimit → IsOperand line (.literal (.value (.number n s)) s')
  | string {v : Text} {s s' : Span} :
      (∀ c ∈ v, c ∈ line) → IsOperand line (.literal (.value (.string v s)) s')
  | dots {cells : List (List Int)} {s s' : Span} :
      IsPattern cells → IsOperand line (.literal (.value (.dots cells s)) s')

theorem Operand.isOperand {line : LogicalLine} {t : Token} {e : Expression Span}
    (h : Operand .standard t e) (ht : t.CutFrom line) : IsOperand line.text e := by
  cases h with
  | classRef hkind hname =>
    obtain ⟨-, htext, hname⟩ := Value.classNameOf_eq_ok_iff.mp hname
    obtain ⟨hof, -, hblank⟩ := ht.plain (by rw [hkind]; decide)
    rw [htext] at hof hblank
    exact .classRef hname (hof.symm.trans hkind) fun c hc => hblank c (List.mem_cons_of_mem _ hc)
  | number hkind hread =>
    obtain ⟨n, rfl, hn⟩ := Value.exists_of_readNumber ht hread
    exact .number hn
  | quoted hkind => exact .string (ht.quoted hkind)
  | dots _ _ _ hread =>
    obtain ⟨cells, rfl, hcells⟩ := Value.isPattern_of_readDots hread
    exact .dots hcells

/-! ## What is written -/

theorem isOperatorChar_of_mem_dotDigits {c : CodePoint} (h : c ∈ dotDigits ∨ c = '-') :
    Token.isOperatorChar c = false := by
  have hdigits : ∀ c ∈ dotDigits, Token.isOperatorChar c = false := by decide
  rcases h with h | rfl
  · exact hdigits c h
  · decide

theorem isOperatorChar_of_isNameChar {c : CodePoint} (h : Value.isNameChar c = true) :
    Token.isOperatorChar c = false := by
  have hoperators : ∀ c ∈ Text.ofString "()=<>!", Value.isNameChar c = false := by decide
  by_contra hne
  have hmem : c ∈ Text.ofString "()=<>!" := by
    unfold Token.isOperatorChar at hne
    simpa using hne
  rw [hoperators c hmem] at h
  cases h

/-- An unquoted token of an expression that no operator cuts. -/
theorem spells_plain {rules : LexRules} (hrules : rules.commentMark = "#") {w : Text} {c : CodePoint}
    {rest : Text} (hw : w = c :: rest) (hhead : c ≠ '"' ∧ c ≠ '#') (hblank : ∀ b ∈ w, b.isBlank = false)
    (hoperator : ∀ b ∈ w, Token.isOperatorChar b = false) :
    Spells rules true w fun ts => ∃ t, ts = [t] ∧ t.IsPlain w := by
  have hne : w ≠ [] := by
    rw [hw]
    exact List.cons_ne_nil _ _
  have hparen : ∀ b ∈ w, Lexer.isParenthesis b = false := by
    intro b hb
    refine Bool.eq_false_iff.mpr fun hparen => ?_
    have hop := Lexer.isOperatorChar_of_isParenthesis hparen
    rw [hoperator b hb] at hop
    cases hop
  have hword : IsWord rules true w := by
    refine ⟨hne, hblank, fun _ => hparen, fun b hb => ?_⟩
    rw [hw] at hb
    cases hb
    refine ⟨hhead.1, ?_⟩
    rw [hrules]
    intro heq
    exact hhead.2 (List.cons.inj heq).1
  exact Lexer.spells_word hword fun _ => Token.isWhole_of_forall hne hoperator

/-- The tokens of a text are an operand, and it is this one but for its place. -/
def SpellsOperand (rules : LexRules) (text : Text) (e : Expression Span) : Prop :=
  Spells rules true text fun ts => ∃ t e', ts = [t] ∧ Operand .standard t e' ∧ e'.bare = e.bare

variable {rules : LexRules}

theorem spells_classRef (hrules : rules.commentMark = "#") {name : Text} (s : Span) (hname : IsName name)
    (hkind : TokenKind.ofText ('_' :: name) = .word) (hblank : ∀ c ∈ name, c.isBlank = false) :
    SpellsOperand rules ("_" ++ name) (.classRef name s) := by
  have hall : ∀ b ∈ ('_' : CodePoint) :: name, b.isBlank = false ∧ Token.isOperatorChar b = false := by
    intro b hb
    rcases List.mem_cons.mp hb with rfl | hb
    · decide
    · exact ⟨hblank b hb, isOperatorChar_of_isNameChar (hname.isNameChar_of_mem b hb)⟩
  have hspells := spells_plain hrules rfl (by decide) (fun b hb => (hall b hb).1)
    fun b hb => (hall b hb).2
  refine hspells.imp fun ts hts => ?_
  obtain ⟨t, rfl, ht⟩ := hts
  have hword : t.kind = .word := ht.kind_eq.trans hkind
  exact ⟨t, .classRef name t.span, rfl,
    .classRef hword (Value.classNameOf_eq_ok_iff.mpr ⟨hword, ht.text_eq, hname⟩), rfl⟩

theorem spells_number (hrules : rules.commentMark = "#") {n : Nat} (s s' : Span)
    (hn : n < 10 ^ Text.digitLimit) :
    SpellsOperand rules (Text.ofNat n) (.literal (.value (.number n s)) s') := by
  have hargument := Value.isArgument_ofNat n
  obtain ⟨c, rest, htext⟩ := List.exists_cons_of_ne_nil (Text.ofNat_ne_nil n)
  have hhead := hargument.head c (by rw [htext]; rfl)
  have hspells := spells_plain hrules htext hhead hargument.blank fun b hb =>
    isOperatorChar_of_mem_dotDigits
      (.inl (Value.mem_dotDigits_of_isDigit (Text.isDigit_of_mem_ofNat b hb)))
  refine hspells.imp fun ts hts => ?_
  obtain ⟨t, rfl, ht⟩ := hts
  have hread := Value.readNumber_ofNat hn ht
  have hkind : t.kind = .number := by
    rw [ht.kind_eq]
    unfold TokenKind.ofText
    rw [if_pos ⟨Text.ofNat_ne_nil n, List.all_eq_true.mpr Text.isDigit_of_mem_ofNat⟩]
  exact ⟨t, _, rfl, .number hkind hread, rfl⟩

theorem spells_dots (hrules : rules.commentMark = "#") {cells : List (List Int)} (s s' : Span)
    (hcells : IsPattern cells) :
    SpellsOperand rules ("@" ++ Value.writeDots cells) (.literal (.value (.dots cells s)) s') := by
  have hargument := Value.isArgument_writeDots hcells
  have hall : ∀ b ∈ ('@' : CodePoint) :: Value.writeDots cells,
      b.isBlank = false ∧ Token.isOperatorChar b = false := by
    intro b hb
    rcases List.mem_cons.mp hb with rfl | hb
    · decide
    · exact ⟨hargument.blank b hb, isOperatorChar_of_mem_dotDigits (Value.mem_writeDots hcells.cell hb)⟩
  have hspells := spells_plain hrules rfl (by decide) (fun b hb => (hall b hb).1)
    fun b hb => (hall b hb).2
  refine hspells.imp fun ts hts => ?_
  obtain ⟨t, rfl, ht⟩ := hts
  have hnumber : t.kind ≠ .number := by
    rw [ht.kind_eq]
    exact TokenKind.ofText_ne_number List.mem_cons_self (by decide)
  have hquoted : t.kind ≠ .quoted := by
    rw [ht.kind_eq]
    exact TokenKind.ofText_ne_quoted _
  have hsub : (subtoken t 1).IsPlain (Value.writeDots cells) := by
    have hdrop : t.text.drop 1 = Value.writeDots cells := by
      rw [ht.text_eq]
      rfl
    exact ⟨congrArg TokenKind.ofText hdrop, hdrop⟩
  have hread := Value.readDots_writeDots Dialect.standard.dotAlphabet_digits hcells.isPatternOf hsub
  exact ⟨t, _, rfl, .dots hnumber hquoted ht.text_eq hread, rfl⟩

theorem spells_string (hrules : rules.commentMark = "#") (v : Text) (s s' : Span) :
    SpellsOperand rules v.quote (.literal (.value (.string v s)) s') := by
  have hmark : [('"' : CodePoint)] ≠ rules.commentMark := by
    rw [hrules]
    decide
  refine (Lexer.spells_quote hmark v).imp fun ts hts => ?_
  obtain ⟨t, rfl, ht⟩ := hts
  refine ⟨t, _, rfl, .quoted ht.kind_eq, ?_⟩
  rw [ht.value_eq]
  rfl

/-! ## Strings and words -/

theorem wordCare_fits : (wordCare .standard).Fits [] where
  escaped := by decide
  numbers := by decide

theorem head?_encode_wordCare {v : Text} {c : CodePoint}
    (h : (Escape.encode (wordCare .standard) v).head? = some c) :
    c ≠ '_' ∧ c ≠ '@' ∧ c ≠ '#' ∧ c ≠ '"' := by
  have hlead : c ∉ (wordCare .standard).lead := Escape.head?_encode h (by decide)
  have hmem : ∀ b ∈ ([('_' : CodePoint), '@', '#', '"'] : Text), b ∈ (wordCare .standard).lead := by decide
  refine ⟨?_, ?_, ?_, ?_⟩ <;>
    · intro heq
      exact hlead (hmem c (by rw [heq]; decide))

theorem isOperatorChar_of_mem_encode {v : Text} {c : CodePoint}
    (h : c ∈ Escape.encode (wordCare .standard) v) : Token.isOperatorChar c = false := by
  have hmarks : ∀ b ∈ Escape.marks, Token.isOperatorChar b = false := by decide
  rcases Escape.mem_encode h with h | h | ⟨-, h, -⟩
  · exact hmarks c h
  · exact absurd h List.not_mem_nil
  · exact decide_eq_false h

/-- A line ending in a string makes it a word, and it is one again when it is read. -/
theorem isBareWord_of_isPlain {v : Text} (hv : ('\n' : CodePoint) ∈ v ∨ ('\r' : CodePoint) ∈ v)
    {t : Token} (ht : t.IsPlain (Escape.encode (wordCare .standard) v)) :
    IsBareWord .standard t := by
  obtain ⟨code, hslash, hcode, hletter⟩ : ∃ code,
      ('\\' : CodePoint) ∈ Escape.encode (wordCare .standard) v ∧
      code ∈ Escape.encode (wordCare .standard) v ∧
      (code.isPunctuation || code.isSymbol) = false := by
    rcases hv with hv | hv
    · have hof : Escape.codeOf? '\n' = some ('n' : CodePoint) := by decide
      obtain ⟨hslash, hcode⟩ := Escape.mem_encode_of_codeOf? (wordCare .standard) hv hof
      exact ⟨'n', hslash, hcode, by decide⟩
    · have hof : Escape.codeOf? '\r' = some ('r' : CodePoint) := by decide
      obtain ⟨hslash, hcode⟩ := Escape.mem_encode_of_codeOf? (wordCare .standard) hv hof
      exact ⟨'r', hslash, hcode, by decide⟩
  have hkind : t.kind = .word := by
    rw [ht.kind_eq]
    exact TokenKind.ofText_eq_word hslash (by decide) (by decide) hcode hletter
  have hreserved : isReserved .standard t.text = false := by
    by_contra hne
    have hlower : ('\\' : CodePoint) ∈ t.text.lower := by
      rw [ht.text_eq]
      exact Text.mem_lower (by decide) hslash
    rcases (isReserved_iff ⟨rfl, rfl⟩).mp (by simpa using hne) with h | h | h | h | h <;>
      · rw [h] at hlower
        exact absurd hlower (by decide)
  refine ⟨⟨hkind, hreserved⟩, ?_, ?_⟩ <;>
    · rw [ht.text_eq]
      intro hhead
      have hfacts := head?_encode_wordCare hhead
      simp at hfacts

theorem readCharacters_of_isPlain {v : Text} (hne : v ≠ []) {t : Token}
    (ht : t.IsPlain (Escape.encode (wordCare .standard) v)) :
    Value.readCharacters t = .ok (.string v t.span) := by
  have hquoted : t.kind ≠ .quoted := by
    rw [ht.kind_eq]
    exact TokenKind.ofText_ne_quoted _
  obtain ⟨ds, hdecode, hds⟩ := Escape.decodeFrom_encode (t := t) wordCare_fits v
  unfold Value.readCharacters
  rw [Escape.decode_of_ne_quoted hquoted, ht.text_eq, hdecode]
  cases ds with
  | nil => exact absurd hds.symm hne
  | cons d ds =>
    rw [← hds]
    rfl

theorem ne_nil_of_hasEnding {v : Text} (hv : ('\n' : CodePoint) ∈ v ∨ ('\r' : CodePoint) ∈ v) : v ≠ [] := by
  intro hnil
  rw [hnil] at hv
  rcases hv with hv | hv <;> exact absurd hv List.not_mem_nil

theorem encode_wordCare_ne_nil {v : Text} (hne : v ≠ []) : Escape.encode (wordCare .standard) v ≠ [] := by
  cases v with
  | nil => exact absurd rfl hne
  | cons c rest => exact List.append_ne_nil_of_left_ne_nil (Escape.encodeOne_ne_nil _ _ _) _

/-- The tokens of a text are an atom, and it is this one but for its place. -/
def SpellsAtom (rules : LexRules) (depth : Nat) (text : Text) (e : Expression Span) : Prop :=
  Spells rules true text fun ts =>
    ∃ e', Derives (IsBareWord .standard) .standard .atom depth ts [e'] ∧ e'.bare = e.bare

theorem SpellsOperand.spellsAtom {depth : Nat} {text : Text} {e : Expression Span}
    (h : SpellsOperand rules text e) : SpellsAtom rules depth text e := by
  refine Spells.imp h fun ts hts => ?_
  obtain ⟨t, e', rfl, hoperand, hbare⟩ := hts
  exact ⟨e', .operand hoperand, hbare⟩

theorem spells_encode (hrules : rules.commentMark = "#") {v : Text} (hne : v ≠ []) :
    Spells rules true (Escape.encode (wordCare .standard) v) fun ts =>
      ∃ t, ts = [t] ∧ t.IsPlain (Escape.encode (wordCare .standard) v) := by
  obtain ⟨c, rest, htext⟩ := List.exists_cons_of_ne_nil (encode_wordCare_ne_nil hne)
  have hhead := head?_encode_wordCare (v := v) (c := c) (by rw [htext]; rfl)
  exact spells_plain hrules htext ⟨hhead.2.2.2, hhead.2.2.1⟩
    (fun b hb => Escape.isBlank_of_mem_encode wordCare_fits hb) fun b hb => isOperatorChar_of_mem_encode hb

theorem spells_encoded (hrules : rules.commentMark = "#") {v : Text} {depth : Nat} (s s' : Span)
    (hv : ('\n' : CodePoint) ∈ v ∨ ('\r' : CodePoint) ∈ v) :
    SpellsAtom rules depth (Escape.encode (wordCare .standard) v) (.literal (.value (.string v s)) s') := by
  have hne := ne_nil_of_hasEnding hv
  refine (spells_encode hrules hne).imp fun ts hts => ?_
  obtain ⟨t, rfl, ht⟩ := hts
  exact ⟨_, .word (isBareWord_of_isPlain hv ht) (readCharacters_of_isPlain hne ht), rfl⟩

/-! ## Writing -/

theorem writeOperand_string (v : Text) (s s' : Span) :
    writeOperand .standard (.literal (.value (.string v s)) s') =
      .ok (if ('\n' : CodePoint) ∈ v ∨ ('\r' : CodePoint) ∈ v then
        Escape.encode (wordCare .standard) v else v.quote) := rfl

/-- A string by itself, quoted or as a word. -/
theorem exists_write_string (hrules : rules.commentMark = "#") (v : Text) (s s' : Span) :
    ∃ text, writeOperand .standard (.literal (.value (.string v s)) s') = .ok text ∧ text.Sealed ∧
      ∀ depth, SpellsAtom rules depth text (.literal (.value (.string v s)) s') := by
  rw [writeOperand_string]
  by_cases hv : ('\n' : CodePoint) ∈ v ∨ ('\r' : CodePoint) ∈ v
  · rw [if_pos hv]
    refine ⟨_, rfl, .of_forall (encode_wordCare_ne_nil (ne_nil_of_hasEnding hv)) ?_ ?_, fun depth => ?_⟩
    · exact fun c hc => Escape.isBlank_of_mem_encode wordCare_fits hc
    · exact Escape.endsEven_encode _ v
    · exact spells_encoded hrules s s' hv
  · rw [if_neg hv]
    rw [not_or] at hv
    exact ⟨_, rfl, Text.sealed_quote hv.1, fun depth => (spells_string hrules v s s').spellsAtom⟩

/-- An operand can be written, and without line endings in the line it is an operand again. -/
theorem IsOperand.exists_write (hrules : rules.commentMark = "#") {line : Text} {e : Expression Span}
    (h : IsOperand line e) : ∃ text, writeOperand .standard e = .ok text ∧
      Lexer.Closed rules true line text fun ts =>
        ∃ t e', ts = [t] ∧ Operand .standard t e' ∧ e'.bare = e.bare := by
  cases h with
  | @classRef name s hname hkind hblank =>
    have hargument := Value.isArgument_of_isName hname hblank
    exact ⟨_, rfl, hargument.sealed_cons (by decide) (by decide), fun _ _ =>
      spells_classRef hrules s hname hkind hblank⟩
  | @number n s s' hn =>
    exact ⟨_, rfl, (Value.isArgument_ofNat n).isSealed, fun _ _ => spells_number hrules s s' hn⟩
  | @string v s s' hmem =>
    obtain ⟨text, hwrite, hsealed, -⟩ := exists_write_string hrules v s s'
    refine ⟨text, hwrite, hsealed, fun hfeed hreturn => ?_⟩
    have hv : ¬ (('\n' : CodePoint) ∈ v ∨ ('\r' : CodePoint) ∈ v) := by
      intro hv
      rcases hv with hv | hv
      · exact hfeed (hmem _ hv)
      · exact hreturn (hmem _ hv)
    rw [writeOperand_string, if_neg hv] at hwrite
    cases hwrite
    exact spells_string hrules v s s'
  | @dots cells s s' hcells =>
    have hargument := Value.isArgument_writeDots hcells
    exact ⟨_, rfl, hargument.sealed_cons (by decide) (by decide), fun _ _ =>
      spells_dots hrules s s' hcells⟩

end Expression
end BrailleTable
