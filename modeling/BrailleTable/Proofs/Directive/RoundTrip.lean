/-
Directives are read back.

What a directive is written as depends on its bare form and its comment.  A directive that was read from a single line is
written as modifiers, opcode and operands, which the lexer cuts apart again, and the reader takes them for what they
were.
-/
import BrailleTable.Proofs.Directive.Standard
import BrailleTable.Proofs.Expression.RoundTrip

namespace BrailleTable

open Value (dotDigits)
open Lexer (Takes Cutting Spells Closed Ends standardRules)

namespace Directive

/-! ## Writing -/

section

variable {σ τ : Type} (f : σ → τ)

theorem writeArgs_map (commentChar : CodePoint) (kinds : List (List SlotKind)) (vs : List (Value σ)) :
    writeArgs commentChar kinds (vs.map (Value.map f)) = writeArgs commentChar kinds vs := by
  induction vs generalizing kinds with
  | nil => cases kinds <;> rfl
  | cons v vs ih =>
    cases kinds with
    | nil => rw [List.map_cons, writeArgs, writeArgs, Value.write_map, ih]
    | cons ks kinds => rw [List.map_cons, writeArgs, writeArgs, Value.write_map, ih]

/-- Directives that are equal but for their places write their operands alike. -/
theorem writeOperands_eq_of_bare_eq (d : Dialect) {r r' : Directive σ} (h : r'.bare = r.bare) :
    writeOperands d r' = writeOperands d r := by
  have hopcode : r'.opcode = r.opcode := by
    show r'.bare.opcode = r.bare.opcode
    rw [h]
  have hargs : r'.args.map Value.bare = r.args.map Value.bare := congrArg Directive.args h
  have hexpression : r'.expression.map Expression.bare = r.expression.map Expression.bare :=
    congrArg Directive.expression h
  have hlength : r'.args.length = r.args.length := by
    have hmap := congrArg List.length hargs
    rwa [List.length_map, List.length_map] at hmap
  have hwrite : ∀ kinds, writeArgs d.commentChar kinds r'.args = writeArgs d.commentChar kinds r.args := by
    intro kinds
    rw [← writeArgs_map (fun _ => ()) d.commentChar kinds r'.args,
      ← writeArgs_map (fun _ => ()) d.commentChar kinds r.args]
    exact congrArg (writeArgs d.commentChar kinds) hargs
  unfold writeOperands
  cases he : r.expression with
  | none =>
    cases he' : r'.expression with
    | none => simp only [hopcode, hlength, hwrite]
    | some e' =>
      rw [he, he'] at hexpression
      cases hexpression
  | some e =>
    cases he' : r'.expression with
    | none =>
      rw [he, he'] at hexpression
      cases hexpression
    | some e' =>
      rw [he, he'] at hexpression
      simp only [Expression.write_eq_of_bare_eq d (Option.some.inj hexpression)]

/-- What a directive is written as depends on its bare form and its comment alone. -/
theorem write_eq_of_bare_eq (d : Dialect) {r r' : Directive σ} (h : r'.bare = r.bare)
    (hcomment : r'.comment = r.comment ∨ r'.comment = none ∧ r.comment = some []) :
    write d r' = write d r := by
  have hopcode : r'.opcode = r.opcode := by
    show r'.bare.opcode = r.bare.opcode
    rw [h]
  have hmodifiers : r'.modifiers = r.modifiers := by
    show r'.bare.modifiers = r.bare.modifiers
    rw [h]
  unfold write
  rw [writeOperands_eq_of_bare_eq d h, hopcode, hmodifiers]
  rcases hcomment with hcomment | ⟨hcomment', hcomment⟩
  · rw [hcomment]
  · rw [hcomment', hcomment]

end

/-! ## Operands -/

variable {line : Text} {r : Directive Span} {shape : Shape}

/-- The tokens of written operands are read as what was written. -/
def ReadsBack (shape : Shape) (r : Directive Span) (ts : List Token) : Prop :=
  ∀ name eol, ∃ args expression, ReadsOperands .standard shape name eol ts args expression ∧
    args.map Value.bare = r.args.map Value.bare ∧
    expression.map Expression.bare = r.expression.map Expression.bare

theorem writeOperands_of_expression {e : Expression Span} {text : Text} (h : r.expression = some e)
    (hwrite : e.write .standard = .ok text) : writeOperands .standard r = .ok [text] := by
  unfold writeOperands
  rw [h]
  show (e.write .standard).map _ = _
  rw [hwrite]
  rfl

theorem writeOperands_of_args (hshape : shape ∈ Vocabulary.standard) (hname : shape.name = r.opcode)
    (h : r.expression = none) :
    writeOperands .standard r = .ok (writeArgs '#' (slotKinds shape.slots r.args.length) r.args) := by
  have hlookup : Dialect.standard.vocabulary.lookup r.opcode = some shape := by
    rw [← hname]
    exact Vocabulary.lookup_name shape hshape
  unfold writeOperands
  rw [h]
  dsimp only
  rw [hlookup]
  rfl

theorem flatMap_splitOperators {text : Text} {ts : List Token} (h : Cutting true text ts) :
    ts.flatMap Token.splitOperators = ts := by
  have hwhole := h.whole rfl
  clear h
  induction ts with
  | nil => rfl
  | cons t ts ih =>
    rw [List.flatMap_cons, hwhole t List.mem_cons_self, ih fun u hu => hwhole u (List.mem_cons_of_mem t hu)]
    rfl

theorem exists_writeOperands_of_writableBody {e : Expression Span} (hargs : r.args = [])
    (hexpression : r.expression = some e) (hmultipart : shape.isMultipart = true)
    (h : Expression.WritableBody line e) :
    ∃ texts, writeOperands .standard r = .ok texts ∧ texts ≠ [] ∧
      Closed standardRules shape.isMultipart line (Text.join " " texts) (ReadsBack shape r) := by
  obtain ⟨text, hwrite, hclosed⟩ := h.exists_write Lexer.standardRules_commentMark
  refine ⟨[text], writeOperands_of_expression hexpression hwrite, List.cons_ne_nil _ _,
    hclosed.isSealed, fun hfeed hreturn => ?_⟩
  rw [hmultipart]
  refine (hclosed.spells hfeed hreturn).cutting.imp fun ts hts name eol => ?_
  obtain ⟨hcut, e', hbody, hbare⟩ := hts
  refine ⟨[], some e', .expression hmultipart (Expression.parse_of_body ⟨rfl, rfl⟩ hbody ?_), ?_, ?_⟩
  · rw [flatMap_splitOperators hcut]
    rfl
  · rw [hargs]
  · rw [hexpression, Option.map_some, Option.map_some, hbare]

theorem exists_writeOperands_of_fills (hshape : shape ∈ Vocabulary.standard) (hname : shape.name = r.opcode)
    (hinclude : shape.name ≠ "include") (hexpression : r.expression = none)
    (hmultipart : shape.isMultipart = false) (h : Fills shape.slots r.args) :
    ∃ texts, writeOperands .standard r = .ok texts ∧ texts ≠ [] ∧
      Closed standardRules shape.isMultipart line (Text.join " " texts) (ReadsBack shape r) := by
  obtain ⟨htidy, hrequired⟩ := Vocabulary.isTidy_slots shape hshape hmultipart hinclude
  have hne : r.args ≠ [] := by
    intro hnil
    have hle := h.required_le
    rw [hnil, List.length_nil] at hle
    omega
  have htexts : List.Forall₂ (fun text v => Closed standardRules false line text
      fun ts => ∃ t, ts = [t] ∧ Token.IsPlain (Value.write '#' [] v) t)
      (r.args.map (Value.write '#' [])) r.args := by
    rw [List.forall₂_map_left_iff]
    refine List.forall₂_same.mpr fun v hv => ?_
    have hargument := h.isArgument v hv
    exact ⟨hargument.isSealed, fun _ _ =>
      Lexer.spells_word (hargument.isWord Lexer.standardRules_commentMark) fun hin => by cases hin⟩
  have hclosed := Closed.join htexts hne
  refine ⟨r.args.map (Value.write '#' []), ?_, ?_, hclosed.isSealed, fun hfeed hreturn => ?_⟩
  · rw [writeOperands_of_args hshape hname hexpression, writeArgs_slotKinds htidy]
  · exact fun hnil => hne (List.map_eq_nil_iff.mp hnil)
  rw [hmultipart]
  refine (hclosed.spells hfeed hreturn).imp fun ts hts name eol => ?_
  obtain ⟨ws, rfl, hws⟩ := hts
  obtain ⟨vs, hvs, hbare⟩ : ∃ vs, readSlots dotDigits shape.name name eol 1 shape.slots ws.flatten =
      .ok (vs, []) ∧ vs.map Value.bare = r.args.map Value.bare :=
    readSlots_of_fills h (Lexer.forall₂_flatten hws)
  refine ⟨vs, none, .arguments hmultipart ?_, hbare, by rw [hexpression]⟩
  unfold readArguments
  show (readSlots dotDigits _ _ _ _ _ _ >>= _) = _
  rw [hvs]
  rfl

/-- What follows the opcode is written as texts that are read back. -/
theorem Follows.exists_writeOperands (h : Follows line shape r.args r.expression)
    (hshape : shape ∈ Vocabulary.standard) (hname : shape.name = r.opcode)
    (hinclude : shape.name ≠ "include") :
    ∃ texts, writeOperands .standard r = .ok texts ∧ texts ≠ [] ∧
      Closed standardRules shape.isMultipart line (Text.join " " texts) (ReadsBack shape r) := by
  generalize hargs : r.args = args at h
  generalize hexpression : r.expression = expression at h
  cases h with
  | expression hmultipart hbody =>
    exact exists_writeOperands_of_writableBody hargs hexpression hmultipart hbody
  | arguments hmultipart _ hfills =>
    exact exists_writeOperands_of_fills hshape hname hinclude hexpression hmultipart (hargs ▸ hfills)
  | filename heq => exact absurd heq hinclude

/-! ## The head of a line -/

variable {lx : Lexer} {l : LogicalLine} {rest : Text}

/-- The opcode and what follows it. -/
theorem takes_opcode {operands : Text} {P : List Token → Prop} (hshape : shape ∈ Vocabulary.standard)
    (hspells : Spells standardRules shape.isMultipart operands P)
    (hat : lx.At standardRules l true false (shape.name ++ " " ++ operands ++ rest))
    (hrest : Ends shape.isMultipart rest) :
    ∃ t us lx', Takes lx (t :: us) lx' ∧ t.IsPlain shape.name ∧ P us ∧
      lx'.At standardRules l false shape.isMultipart rest := by
  have hword := Vocabulary.isHeadWord_name shape hshape
  have hsplit : shape.name ++ " " ++ operands ++ rest =
      shape.name ++ ((' ' : CodePoint) :: (operands ++ rest)) := by
    rw [List.append_assoc, List.append_assoc]
    rfl
  rw [hsplit] at hat
  obtain ⟨t, hnext, ht, hdrop⟩ := hat.next_word (hword.isWord Lexer.standardRules_commentMark)
    (Lexer.ends_blank _)
  have hname : t.kind = .word → t.text.lower ∉ standardRules.modifiers := fun _ => by
    rw [ht.lower_eq hword]
    exact Lexer.name_not_mem_modifiers shape hshape
  have hat₁ := hat.note_opcode hname hdrop
  rw [ht.lower_eq hword, decide_eq_decide.mpr (and_iff_right (ht.isWord hword)),
    Lexer.name_mem_expressionOpcodes shape hshape] at hat₁
  obtain ⟨lx₂, hat₂, hblank⟩ := hat₁.next_blank (by decide)
  obtain ⟨us, lx₃, hus, hat₃, hcut, hP⟩ := hspells lx₂ l rest hat₂ hrest
  exact ⟨t, us, lx₃, .cons hnext (hus.of_next_eq hcut.ne_nil hblank), ht, hP, hat₃⟩

/-- Modifiers are cut off one by one. -/
theorem takes_modifiers {rules : LexRules} (hmark : rules.commentMark = "#")
    (hlabels : ∀ m : Modifier, m.label ∈ rules.modifiers) {ms : List Modifier} {tail : List Text}
    {Q : List Token → Lexer → Prop} (htail : tail ≠ [])
    (h : ∀ lx : Lexer, lx.At rules l true false (Text.join " " tail ++ rest) →
      ∃ us lx', us ≠ [] ∧ Takes lx us lx' ∧ Q us lx')
    (hat : lx.At rules l true false (Text.join " " (ms.map Modifier.label ++ tail) ++ rest)) :
    ∃ ts us lx', Takes lx (ts ++ us) lx' ∧
      List.Forall₂ (fun t m => Token.IsPlain (Modifier.label m) t) ts ms ∧ us ≠ [] ∧ Q us lx' := by
  induction ms generalizing lx with
  | nil =>
    obtain ⟨us, lx', hne, htakes, hQ⟩ := h lx hat
    exact ⟨[], us, lx', htakes, .nil, hne, hQ⟩
  | cons m ms ih =>
    have hmore : ms.map Modifier.label ++ tail ≠ [] := List.append_ne_nil_of_right_ne_nil _ htail
    rw [List.map_cons, List.cons_append, Text.join_cons hmore, List.append_assoc, List.append_assoc] at hat
    have hword := m.isHeadWord_label
    obtain ⟨t, hnext, ht, hdrop⟩ := hat.next_word (hword.isWord hmark) (Lexer.ends_blank _)
    have hname : t.text.lower ∈ rules.modifiers := by
      rw [ht.lower_eq hword]
      exact hlabels m
    obtain ⟨lx₂, hat₂, hblank⟩ := (hat.note_modifier (ht.isWord hword) hname hdrop).next_blank (by decide)
    obtain ⟨ts, us, lx', htakes, hts, hne, hQ⟩ := ih hat₂
    have hne' : ts ++ us ≠ [] := List.append_ne_nil_of_right_ne_nil _ hne
    exact ⟨t :: ts, us, lx', .cons hnext (htakes.of_next_eq hne' hblank), .cons ht hts, hne, hQ⟩

/-! ## The end of a line -/

/-- How a comment is written. -/
def trailer (d : Dialect) : Option Text → Text
  | none | some [] => []
  | some comment => " " ++ [d.commentChar] ++ " " ++ comment

/-- An empty comment is not written. -/
theorem trailer_cases (d : Dialect) (comment : Option Text) :
    trailer d comment = [] ∧ (comment = none ∨ comment = some []) ∨
      ∃ text, comment = some text ∧ text ≠ [] ∧ trailer d comment = " " ++ [d.commentChar] ++ " " ++ text := by
  cases comment with
  | none => exact .inl ⟨rfl, .inl rfl⟩
  | some text =>
    cases text with
    | nil => exact .inl ⟨rfl, .inr rfl⟩
    | cons c text => exact .inr ⟨_, rfl, List.cons_ne_nil c text, rfl⟩

theorem write_eq {σ : Type} {d : Dialect} {r : Directive σ} {texts : List Text}
    (h : writeOperands d r = .ok texts) :
    write d r = .ok (Text.join " " (r.modifiers.toList.map Modifier.label ++ r.opcode :: texts) ++
      trailer d r.comment) := by
  unfold write
  rw [h]
  rcases trailer_cases d r.comment with ⟨htrailer, hcomment | hcomment⟩ | ⟨text, hcomment, hne, htrailer⟩
  · rw [htrailer, hcomment, List.append_nil]
    rfl
  · rw [htrailer, hcomment, List.append_nil]
    rfl
  · obtain ⟨c, comment, rfl⟩ := List.exists_cons_of_ne_nil hne
    rw [htrailer, hcomment]
    show Except.ok _ = _
    simp only [List.append_assoc]

theorem ends_trailer (inExpression : Bool) (comment : Option Text) :
    Ends inExpression (trailer .standard comment) := by
  rcases trailer_cases .standard comment with ⟨htrailer, -⟩ | ⟨text, -, -, htrailer⟩
  · rw [htrailer]
    exact fun c hc => by cases hc
  · rw [htrailer]
    exact Lexer.ends_blank _

theorem not_mem_trailer {comment : Option Text} (h : ∀ text ∈ comment, ('\n' : CodePoint) ∉ text) :
    ('\n' : CodePoint) ∉ trailer .standard comment := by
  rcases trailer_cases .standard comment with ⟨htrailer, -⟩ | ⟨text, hcomment, -, htrailer⟩
  · rw [htrailer]
    exact List.not_mem_nil
  · have hmark : ('\n' : CodePoint) ∉ Text.ofString " " ++ [Dialect.standard.commentChar] ++ " " := by decide
    rw [htrailer, List.mem_append, not_or]
    exact ⟨hmark, h text hcomment⟩

/-- A written comment ends the line and is read back; an empty one was not written. -/
theorem next_trailer {rules : LexRules} (hmark : rules.commentMark = "#") {inHead inExpression : Bool}
    {comment : Option Text} (hat : lx.At rules l inHead inExpression (trailer .standard comment))
    (hcomment : ∀ text ∈ comment, text.IsStripped) :
    ∃ lx' : Lexer, lx.next = (.ok none, lx') ∧
      (lx'.comment = comment ∨ lx'.comment = none ∧ comment = some []) := by
  rcases trailer_cases .standard comment with ⟨htrailer, hnot⟩ | ⟨text, rfl, -, htrailer⟩
  · rw [htrailer] at hat
    obtain ⟨lx', hnext, hnone⟩ := hat.next_nil
    refine ⟨lx', hnext, ?_⟩
    rcases hnot with rfl | rfl
    · exact .inl hnone
    · exact .inr ⟨hnone, rfl⟩
  · rw [htrailer] at hat
    obtain ⟨lx₁, hat₁, hblank⟩ := hat.next_blank (by decide)
    obtain ⟨lx₂, hnext, hsome⟩ := hat₁.next_comment (by decide) hmark.symm
    refine ⟨lx₂, hblank.trans hnext, .inl ?_⟩
    rw [hsome]
    exact congrArg some (hcomment text rfl).strip_cons

/-! ## The whole line -/

/-- The tokens of a written line: modifiers, the opcode and its operands. -/
theorem exists_tokenize {texts : List Text} {P : List Token → Prop} (hshape : shape ∈ Vocabulary.standard)
    (hne : texts ≠ []) (hspells : Spells standardRules shape.isMultipart (Text.join " " texts) P)
    (ms : List Modifier) {comment : Option Text} (hcomment : ∀ text ∈ comment, text.IsStripped)
    (hline : l.text = Text.join " " (ms.map Modifier.label ++ shape.name :: texts) ++
      trailer .standard comment) :
    ∃ ts t us lx, (Lexer.ofDialect .standard).tokenize l = (.ok (ts ++ t :: us), lx) ∧
      List.Forall₂ (fun t m => Token.IsPlain (Modifier.label m) t) ts ms ∧ t.IsPlain shape.name ∧ P us ∧
      (lx.comment = comment ∨ lx.comment = none ∧ comment = some []) := by
  have hat : ((Lexer.ofDialect .standard).reset l).At standardRules l true false
      (Text.join " " (ms.map Modifier.label ++ shape.name :: texts) ++ trailer .standard comment) :=
    ⟨rfl, rfl, rfl, rfl, rfl, rfl, hline⟩
  obtain ⟨ts, vs, lx₁, htakes, hts, -, t, us, rfl, ht, hP, hat₁⟩ :=
    takes_modifiers Lexer.standardRules_commentMark Lexer.label_mem_modifiers
      (Q := fun vs lx' => ∃ t us, vs = t :: us ∧ t.IsPlain shape.name ∧ P us ∧
        lx'.At standardRules l false shape.isMultipart (trailer .standard comment))
      (List.cons_ne_nil _ _) (fun lx hlx => by
        rw [Text.join_cons hne] at hlx
        obtain ⟨t, us, lx', htakes, ht, hP, hat'⟩ :=
          takes_opcode hshape hspells hlx (ends_trailer _ comment)
        exact ⟨t :: us, lx', List.cons_ne_nil _ _, htakes, t, us, rfl, ht, hP, hat'⟩) hat
  obtain ⟨lx₂, hnext, hcomment'⟩ := next_trailer Lexer.standardRules_commentMark hat₁ hcomment
  exact ⟨ts, t, us, lx₂, Lexer.tokenize_of_takes htakes hnext, hts, ht, hP, hcomment'⟩

/-- Modifiers, opcode and operands are put together again. -/
theorem exists_parse_of_readsBack {ts us : List Token} {t : Token} (hshape : shape ∈ Vocabulary.standard)
    (hname : shape.name = r.opcode) (htakes : r.modifiers.toList = [] ∨ shape.takesModifiers = true)
    (hapart : r.modifiers.toList.Pairwise Apart)
    (hts : List.Forall₂ (fun t m => Token.IsPlain (Modifier.label m) t) ts r.modifiers.toList)
    (ht : t.IsPlain shape.name) (hus : ReadsBack shape r us) (eol : Span) (comment : Option Text) :
    ∃ r', parse .standard (ts ++ t :: us) eol comment = .ok r' ∧ r'.bare = r.bare ∧
      r'.comment = comment := by
  have hword := Vocabulary.isHeadWord_name shape hshape
  have hreverse : (r.modifiers.toList.reverse ++ []).Pairwise Apart := by
    rw [List.append_nil, List.pairwise_reverse]
    exact hapart.imp fun hab => Std.Symm.symm _ _ hab
  obtain ⟨read, hread, hmap⟩ := readModifiers_append us hts hreverse (modifierOf?_opcode hshape ht)
  have hopcode : readOpcode Dialect.standard.vocabulary read t = .ok shape := by
    refine readOpcode_eq ht hword (Vocabulary.lookup_name shape hshape) ?_
    rcases htakes with hnil | htakes
    · left
      rw [hnil] at hmap
      exact List.map_eq_nil_iff.mp hmap
    · exact .inr htakes
  obtain ⟨args, expression, hoperands, hargs, hexpression⟩ := hus t.span eol
  obtain ⟨span, hparse⟩ := exists_parse_eq hread hopcode hoperands
  refine ⟨_, hparse, ?_, rfl⟩
  unfold bare
  rw [hmap, Modifiers.ofList_toList, hname, hargs, hexpression]

/-- After the name of an opcode, what is read of its operands is all that is known of the directive. -/
theorem exists_parse_opcode_iff (hshape : shape ∈ Vocabulary.standard) {t : Token} (ht : t.IsPlain shape.name)
    {us : List Token} {eol : Span} {comment : Option Text}
    {P : List (Value Span) → Option (Expression Span) → Prop} :
    (∃ r, parse .standard (t :: us) eol comment = .ok r ∧ P r.args r.expression) ↔
      ∃ args expression, ReadsOperands .standard shape t.span eol us args expression ∧ P args expression := by
  have hword := Vocabulary.isHeadWord_name shape hshape
  obtain ⟨ms, hmodifiers, hnil⟩ : ∃ ms, readModifiers [] ([] ++ t :: us) = .ok (ms, t :: us) ∧ ms.map Prod.fst = [] :=
    readModifiers_append us .nil .nil (modifierOf?_opcode hshape ht)
  have hopcode : readOpcode Dialect.standard.vocabulary ms t = .ok shape :=
    readOpcode_eq ht hword (Vocabulary.lookup_name shape hshape) (.inl (List.map_eq_nil_iff.mp hnil))
  constructor
  · rintro ⟨r, hparse, hP⟩
    obtain ⟨ms', t', arguments, shape', hmodifiers', hopcode', -, -, -, hoperands⟩ := parse_eq_ok hparse
    cases hmodifiers.symm.trans hmodifiers'
    cases hopcode.symm.trans hopcode'
    exact ⟨r.args, r.expression, hoperands, hP⟩
  · rintro ⟨args, expression, hoperands, hP⟩
    obtain ⟨span, hparse⟩ := exists_parse_eq hmodifiers hopcode hoperands
    exact ⟨_, hparse, hP⟩

end Directive
end BrailleTable
