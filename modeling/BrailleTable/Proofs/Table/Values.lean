/-
Single values are read back.

A value that stands alone on a line is one token, and every kind of slot that could have read the value reads it from
that token.  File names have no escapes, so they are written on the line of a directive and read from there; the empty
one is written as nothing at all.
-/
import BrailleTable.Proofs.Table.Added
import BrailleTable.Proofs.Table.Lines

namespace BrailleTable

open Value (Fits IsCell)

/-! ## A value alone on a line -/

namespace Lexer

/-- A line that consists of one word is one token. -/
theorem tokenize_word {lx : Lexer} {line : LogicalLine} (hw : IsWord lx.rules false line.text) :
    ∃ t lx', lx.tokenize line = (.ok [t], lx') ∧ lx'.comment = none ∧ t.IsPlain line.text := by
  have hat : (lx.reset line).At lx.rules line true false (line.text ++ []) :=
    ⟨rfl, rfl, rfl, rfl, rfl, rfl, (List.append_nil _).symm⟩
  obtain ⟨t, hnext, ht, hdrop⟩ := hat.next_word hw fun c hc => by cases hc
  obtain ⟨hline, hpeeked, hcomment⟩ := note_frame (lx.reset line) t
  have hend : ((lx.reset line).note t).At ((lx.reset line).note t).rules line
      ((lx.reset line).note t).inHead ((lx.reset line).note t).inExpression [] :=
    ⟨rfl, hline, rfl, rfl, hpeeked, hcomment, by rw [index_note]; exact hdrop⟩
  obtain ⟨lx', hnone, hcomment'⟩ := hend.next_nil
  exact ⟨t, lx', tokenize_of_takes (.cons hnext (.nil _)) hnone, hcomment', ht⟩

end Lexer

namespace SlotKind

/-- Where a class or a text may stand, each is taken for what it is. -/
theorem choose_class_or_characters_of_fits {kind : SlotKind} {v : Value Span} (h : Fits kind v)
    (hkind : kind ∈ [charClass, characters]) {t : Token} (ht : t.IsPlain (v.write '#' [])) :
    ∃ v', choose Value.dotDigits [charClass, characters] t = .ok v' ∧ v'.bare = v.bare := by
  obtain ⟨v', hread, hbare⟩ := h.read ht
  refine ⟨v', ?_, hbare⟩
  cases h with
  | charClass _ =>
    unfold choose chooseAfter
    rw [hread]
  | characters _ => exact choose_class_or_characters ht hread
  | _ => exact absurd hkind (by decide)

end SlotKind

/-- A value is read from the one token that it is written as; a class and a text are so even where either may stand. -/
theorem Value.exists_tokenize_write_of_fits {kind : SlotKind} {v : Value Span} (h : Fits kind v) {lx : Lexer}
    (hmark : lx.rules.commentMark = [Dialect.standard.commentChar]) {line : LogicalLine}
    (hline : line.text = v.write Dialect.standard.commentChar []) :
    ∃ t lx', lx.tokenize line = (.ok [t], lx') ∧ lx'.comment = none ∧
      (∃ v', kind.read Dialect.standard.dotAlphabet t = .ok v' ∧ v'.bare = v.bare) ∧
      (kind ∈ [SlotKind.charClass, .characters] →
        ∃ v', SlotKind.choose Dialect.standard.dotAlphabet [.charClass, .characters] t = .ok v' ∧
          v'.bare = v.bare) := by
  have hword : Lexer.IsWord lx.rules false line.text := by
    rw [hline]
    exact h.isArgument.isWord hmark
  obtain ⟨t, lx', htokens, hcomment, ht⟩ := Lexer.tokenize_word hword
  rw [hline] at ht
  exact ⟨t, lx', htokens, hcomment, h.read ht, fun hkind =>
    SlotKind.choose_class_or_characters_of_fits h hkind ht⟩

/-- A class of a closing bracket, a lone surrogate and the range from the comment character to the dash. -/
def bracketClass : Value Span :=
  .charClass (Value.rangesOf [(']', ']'), (⟨0xd800, by decide⟩, ⟨0xd800, by decide⟩), ('#', '-')]) ⟨0, 1, 1, 1, 1, 2⟩

theorem exists_tokenize_write_bracketClass :
    bracketClass.write '#' [] = "[\\]\\xd800#-\\-]" ∧ ∃ t lx',
      Lexer.basic.tokenize (.single (bracketClass.write '#' []) ⟨1, 1, 0⟩) = (.ok [t], lx') ∧ lx'.comment = none ∧
      (∃ v', SlotKind.charClass.read Dialect.standard.dotAlphabet t = .ok v' ∧ v'.bare = bracketClass.bare) ∧
      ∃ v', SlotKind.choose Dialect.standard.dotAlphabet [.charClass, .characters] t = .ok v' ∧
        v'.bare = bracketClass.bare := by
  have hfits : Fits .charClass bracketClass := .charClass ⟨_, rfl, by decide, by decide⟩
  obtain ⟨t, lx', htokens, hcomment, hread, hchoose⟩ :=
    @Value.exists_tokenize_write_of_fits _ _ hfits .basic rfl (.single (bracketClass.write '#' []) ⟨1, 1, 0⟩) rfl
  exact ⟨by decide +kernel, t, lx', htokens, hcomment, hread, hchoose (by decide)⟩

/-- Cells alone do not make a token: a pattern without any is written as nothing. -/
theorem not_forall_tokenize_writeDots :
    ¬ ∀ cells : List (List Int), (∀ cell ∈ cells, IsCell cell) →
      ∃ t lx', Lexer.basic.tokenize (.single (Value.writeDots cells) ⟨1, 1, 0⟩) = (.ok [t], lx') := by
  intro h
  obtain ⟨t, lx', htokens⟩ := h [] fun cell hcell => absurd hcell List.not_mem_nil
  have hnone : (Lexer.basic.tokenize (.single (Value.writeDots []) ⟨1, 1, 0⟩)).1 = .ok [] := by decide +kernel
  rw [htokens] at hnone
  cases hnone

/-! ## A file name on the line of a directive -/

namespace Directive

variable {us : List Token} {eol : Span}

/-- A slot for file names takes whatever token it is given. -/
theorem readArgument_filename (alphabet opcode : Text) (position : Nat) (t : Token) :
    readArgument alphabet opcode (Vocabulary.Standard.slot [.filename]) position t = .ok (.string t.value t.span) := by
  have hkind : t.kind ∈ TokenKind.all := by cases t.kind <;> decide
  refine readArgument_of_choose ?_ fun n s heq => by cases heq
  show SlotKind.choose alphabet [.filename] t = _
  unfold SlotKind.choose SlotKind.chooseAfter SlotKind.read Value.readFilename
  rw [Value.requireKind_eq_ok_iff.mpr hkind]
  rfl

def includeShape : Shape := Vocabulary.Standard.plain [Vocabulary.Standard.slot [.filename]] "include"

theorem includeShape_mem : includeShape ∈ Vocabulary.standard := by decide +kernel

theorem readArguments_include_eq_ok_iff {alphabet : Text} {name : Span} {vs : List (Value Span)} :
    readArguments alphabet includeShape name eol us = .ok vs ↔ ∃ t, us = [t] ∧ vs = [.string t.value t.span] := by
  rw [readArguments_eq_ok_iff]
  constructor
  · intro h
    rcases readSlots_cons_eq_ok h with ⟨hoptional, -⟩ | ⟨raw, v, vs', hoptional, -⟩ |
      ⟨ts, vs', hrepeats, -⟩ | ⟨t, rest, v, vs', -, rfl, rfl, hv, hmore⟩
    · cases hoptional
    · cases hoptional
    · cases hrepeats
    · rw [readArgument_filename] at hv
      cases hv
      cases hmore
      exact ⟨t, rfl, rfl⟩
  · rintro ⟨t, rfl, rfl⟩
    show (readArgument alphabet _ _ 1 t >>= _) = _
    rw [readArgument_filename]
    rfl

/-- A file name is written as one token that stands for it, unless it is empty. -/
theorem spells_writeFilename {s : Text} (hne : s ≠ []) :
    Lexer.Spells Lexer.standardRules false (Value.writeFilename '#' s) fun ts =>
      ∃ t, ts = [t] ∧ (t.IsPlain s ∨ t.IsQuoted s) := by
  unfold Value.writeFilename
  split
  · refine (Lexer.spells_quote (by decide) s).imp fun ts hts => ?_
    obtain ⟨t, rfl, ht⟩ := hts
    exact ⟨t, rfl, .inr ht⟩
  · rename_i hraw
    rw [not_or, not_or] at hraw
    obtain ⟨hblank, hquote, hmark⟩ := hraw
    have hword : Lexer.IsWord Lexer.standardRules false s := by
      refine ⟨hne, fun c hc => ?_, (fun hin => by cases hin), fun c hc => ⟨?_, ?_⟩⟩
      · rw [← Bool.not_eq_true]
        exact fun hb => hblank (List.any_eq_true.mpr ⟨c, hc, hb⟩)
      · rintro rfl
        exact hquote hc
      · intro heq
        exact hmark (hc.trans (congrArg some (List.cons.inj heq).1))
    refine (Lexer.spells_word hword fun hin => by cases hin).imp fun ts hts => ?_
    obtain ⟨t, rfl, ht⟩ := hts
    exact ⟨t, rfl, .inl ht⟩

theorem exists_tokenize_include {s : Text} {l : LogicalLine}
    (hline : l.text = includeShape.name ++ " " ++ Value.writeFilename '#' s) :
    ∃ u us lx, (Lexer.ofDialect .standard).tokenize l = (.ok (u :: us), lx) ∧ u.IsPlain includeShape.name ∧
      ((∃ t, us = [t] ∧ t.value = s) ↔ s ≠ []) := by
  have hjoin : l.text = Text.join " " ([].map Modifier.label ++ includeShape.name :: [Value.writeFilename '#' s]) ++
      trailer .standard none := hline.trans (List.append_nil _).symm
  have hcomment : ∀ text ∈ (none : Option Text), text.IsStripped := fun text htext => by cases htext
  by_cases hnil : s = []
  · subst hnil
    have hword := (Vocabulary.isHeadWord_name _ includeShape_mem).isWord Lexer.standardRules_commentMark
    obtain ⟨ts, u, us, lx, htokens, hts, hu, hus⟩ :=
      exists_tokenize_added (d := .standard) rfl hword (fun u hu => ⟨modifierOf?_opcode includeShape_mem hu, by
        rw [hu.lower_eq (Vocabulary.isHeadWord_name _ includeShape_mem)]
        exact of_decide_eq_false (Lexer.name_mem_expressionOpcodes _ includeShape_mem)⟩)
        (fun w hw => .inl (List.mem_singleton.mp hw)) [] hcomment hjoin
    cases hts
    cases hus
    exact ⟨u, [], lx, htokens, hu, by simp⟩
  · obtain ⟨ts, u, us, lx, htokens, hts, hu, ⟨t, rfl, ht⟩, -⟩ :=
      exists_tokenize includeShape_mem (List.cons_ne_nil _ []) (spells_writeFilename hnil) [] hcomment hjoin
    cases hts
    refine ⟨u, [t], lx, htokens, hu, ⟨fun _ => hnil, fun _ => ⟨t, rfl, ?_⟩⟩⟩
    rcases ht with ht | ht
    · have hcut := (Lexer.tokenize_eq_ok htokens).1 t (List.mem_cons_of_mem u List.mem_cons_self)
      have hkind : t.kind ≠ .quoted := by
        rw [ht.kind_eq]
        exact TokenKind.ofText_ne_quoted _
      rw [(hcut.plain hkind).2.1, ht.text_eq]
    · exact ht.value_eq

end Directive

namespace Table

/-- A name with a line feed in it is put between quotes, so its line feed is inside the line. -/
theorem parseLine_include_feed {s : Text} (h : ('\n' : CodePoint) ∈ s) (n : Int) :
    parseLine .standard (Directive.includeShape.name ++ " " ++ Value.writeFilename '#' s) n = .error .manyLines := by
  have hquote : Value.writeFilename '#' s = s.quote := if_pos (.inl (List.any_eq_true.mpr ⟨_, h, by decide⟩))
  have hmem : ('\n' : CodePoint) ∈ s.quote := by
    rw [Text.quote_eq]
    refine List.mem_cons_of_mem _ (List.mem_append_left _ (List.mem_flatMap.mpr ⟨_, h, ?_⟩))
    decide
  have hlast : (Directive.includeShape.name ++ " " ++ s.quote).getLast? ≠ some ('\n' : CodePoint) := by
    rw [Text.quote_eq, ← List.cons_append, ← List.append_assoc, List.getLast?_concat]
    decide
  unfold parseLine
  rw [hquote, if_neg hlast]
  exact if_pos (List.mem_append_right _ hmem)

/-- The name that a token gives a file is read from the line of a directive that includes the file exactly if the name is
not empty and on one line. -/
theorem exists_parseLine_include_iff {t : Token} {v : Value Span} (h : Value.readFilename t = .ok v) (n : Int) :
    (∃ r, parseLine .standard ("include " ++ v.write Dialect.standard.commentChar [.filename]) n = .ok (some r) ∧
      r.args.map Value.bare = [v.bare]) ↔ t.value ≠ [] ∧ ('\n' : CodePoint) ∉ t.value := by
  obtain ⟨_, -, heq⟩ := bind_eq_ok h
  cases heq
  generalize t.value = s
  have hwrite : Value.write Dialect.standard.commentChar [.filename] (Value.string s t.span) =
      Value.writeFilename '#' s := by
    unfold Value.write
    exact if_pos (by decide)
  have hopcode : Text.ofString "include " = Directive.includeShape.name ++ " " := by decide
  have hbare : (Value.string s t.span).bare = .string s () := rfl
  rw [hwrite, hopcode, hbare]
  by_cases hfeed : ('\n' : CodePoint) ∈ s
  · rw [parseLine_include_feed hfeed]
    constructor
    · rintro ⟨r, hr, -⟩
      cases hr
    · exact fun hboth => absurd hfeed hboth.2
  · have hsealed := (Vocabulary.isHeadWord_name _ Directive.includeShape_mem).isSealed
    have hopen := Directive.endsOpen_filename hsealed
      (r := ⟨Directive.includeShape.name, [.string s t.span], none, .ofList [], t.span, none⟩) rfl rfl hfeed
    obtain ⟨u, us, lx, htokens, hu, hus⟩ := Directive.exists_tokenize_include
      (l := .single (Directive.includeShape.name ++ " " ++ Value.writeFilename '#' s) ⟨n, 1, 0⟩) rfl
    rw [parseLine_eq hopen.no_feed hopen.no_return, and_iff_left hfeed, ← hus]
    refine (exists_readLine_opcode_iff Directive.includeShape_mem htokens hu (P := fun args _ =>
      args.map Value.bare = [.string s ()])).trans ⟨?_, ?_⟩
    · rintro ⟨args, expression, hoperands, hargs⟩
      cases hoperands with
      | expression hmultipart => cases hmultipart
      | arguments _ harguments =>
        obtain ⟨t', rfl, rfl⟩ := Directive.readArguments_include_eq_ok_iff.mp harguments
        cases hargs
        exact ⟨t', rfl, rfl⟩
    · rintro ⟨t', rfl, rfl⟩
      exact ⟨_, none, .arguments rfl (Directive.readArguments_include_eq_ok_iff.mpr ⟨t', rfl, rfl⟩), rfl⟩

/-- A name between empty quotes is a name, and the directive that includes it is written without one. -/
theorem exists_parseLine_include_empty :
    ∃ t lx v, Lexer.basic.tokenize (.single "\"\"" ⟨1, 1, 0⟩) = (.ok [t], lx) ∧ Value.readFilename t = .ok v ∧
      v.bare = .string [] () ∧
      ¬ ∃ r, parseLine .standard ("include " ++ v.write Dialect.standard.commentChar [.filename]) 1 = .ok (some r) ∧
        r.args.map Value.bare = [v.bare] := by
  have htokens : (Lexer.basic.tokenize (.single "\"\"" ⟨1, 1, 0⟩)).1.toOption =
      some [Token.ofLine (.single "\"\"" ⟨1, 1, 0⟩) .quoted 0 2 []] := by decide +kernel
  have hread : Value.readFilename (Token.ofLine (.single "\"\"" ⟨1, 1, 0⟩) .quoted 0 2 []) =
      .ok (.string [] (LogicalLine.span (.single "\"\"" ⟨1, 1, 0⟩) 0 2)) := rfl
  refine ⟨_, _, _, Prod.ext (toOption_eq_some htokens) rfl, hread, rfl, ?_⟩
  rw [exists_parseLine_include_iff hread]
  exact fun hboth => hboth.1 rfl

end Table
end BrailleTable
