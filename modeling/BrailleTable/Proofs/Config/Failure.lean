/-
The failures of reading a table by a configuration.

Whatever a mapping of settings and opcodes makes, and whatever room there is for calls, reading a table ends in one of a
few ways.  Four of them have to do with the table: it is read, it is refused with an error of one of five categories, it has
a number that is too long to convert, or it nests parentheses deeper than calls can be nested.  The other two have to do with
settings that are numbers in the place of texts.
-/
import BrailleTable.Config.Table
import BrailleTable.Proofs.Expression.Room
import BrailleTable.Proofs.Table.Failure
import BrailleTable.Proofs.Table.Reader

namespace BrailleTable
namespace Config

open Expression (AgreeUnless)

variable {c : Config} {room : Nat} {text : Text} {f : Failure}

/-! ## Settings of their types -/

theorem IsTyped.reader_eq (h : c.IsTyped) : c.reader = Expression.parse c.dialect := by
  funext opcode cur
  unfold reader readerWith
  rw [if_pos h.2]

theorem seeksNumber_eq_false (h : c.continuationMarker.isText) (lines : List Text) : c.seeksNumber lines = false := by
  unfold seeksNumber
  cases hdatum : c.continuationMarker with
  | text t => rfl
  | number n =>
    rw [hdatum] at h
    cases h

/-- With a marker and keywords that are texts, tables are read as the dialect has it. -/
theorem IsTyped.parse_eq (h : c.IsTyped) (text : Text) : c.parse text = Table.parse c.dialect text := by
  unfold parse assemble
  rw [seeksNumber_eq_false h.1, h.reader_eq]
  rfl

theorem IsTyped.errors_eq (h : c.IsTyped) (text : Text) : c.errors text = Table.errors c.dialect text := by
  unfold errors
  rw [seeksNumber_eq_false h.1, h.reader_eq]
  rfl

/-! ## Room -/

/-- With room for as many parentheses as the configuration allows, nothing is given up. -/
theorem parseWithin_of_le (h : c.maxDepth ≤ room) (text : Text) : c.parseWithin room text = c.parse text := by
  have hreader : c.readerWithin room = c.reader :=
    congrArg c.readerWith (funext fun opcode => funext fun cur => Expression.parseWithin_of_le h cur)
  unfold parseWithin
  rw [hreader]

/-- Where a keyword is no text, it makes no difference what would read the expressions. -/
theorem parseWithin_of_not (h : ¬ (c.testKeyword.isText ∧ c.actionKeyword.isText)) (text : Text) :
    c.parseWithin room text = c.parse text := by
  have hreader : c.readerWithin room = c.reader := by
    funext opcode cur
    unfold readerWithin reader readerWith
    rw [if_neg h, if_neg h]
  unfold parseWithin
  rw [hreader]

theorem readerWith_agreeUnless (c : Config) (read : Expression.Reader) :
    AgreeUnless (fun _ => ¬ (c.testKeyword.isText ∧ c.actionKeyword.isText)) .numericKeyword (c.readerWith read) read := by
  intro opcode ts eol
  unfold readerWith
  split
  · exact .refl _
  · rename_i hnot
    exact .inr ⟨hnot, rfl⟩

/-! ## Failures -/

/-- The ways in which reading a table can fail. -/
inductive Fails (c : Config) (room : Nat) (text : Text) : Failure → Prop
  | refused {e : ParseError} : e.category.IsReported → Fails c room text (.parse e)
  | oversized {line : LogicalLine} {t : Token} {f : Failure} : line ∈ (Table.joined c.dialect text).lines →
      t.CutFrom line → t.IsOversized f → Fails c room text f
  | exhausted {line : LogicalLine} : line ∈ (Table.joined c.dialect text).lines → room < c.maxDepth →
      Table.HasExpression c.dialect (Expression.OpensInside room) line → Fails c room text .callsExhausted
  | keyword {line : LogicalLine} : line ∈ (Table.joined c.dialect text).lines →
      ¬ (c.testKeyword.isText ∧ c.actionKeyword.isText) → Table.HasExpression c.dialect (fun _ => True) line →
      Fails c room text .numericKeyword
  | marker : ¬ c.continuationMarker.isText → Fails c room text .numericMarker

/-- What the dialect's own reading of a table fails with. -/
theorem fails_of_parse (hc : c.vocabulary.IsSound) (h : Table.parse c.dialect text = .error f) : c.Fails room text f := by
  rcases Table.arises_of_parse (d := c.dialect) hc h with ⟨line, hline, harises⟩ | ⟨e, he, rfl⟩
  · cases harises with
    | error hreported _ => exact .refused hreported
    | oversized ht hlong => exact .oversized hline ht hlong
  · refine .refused ?_
    rw [Table.category_of_dangling he]
    trivial

/-- The reader of the configuration differs from the dialect's in a keyword that is no text, and in the room it has; so the
table fails as the dialect has it, or there is an expression where one of the two shows. -/
theorem fails_of_parseWithin (hc : c.vocabulary.IsSound) (h : c.parseWithin room text = .error f) :
    c.Fails room text f := by
  unfold parseWithin parse assemble at h
  split at h
  · rename_i hseeks
    cases h
    refine .marker fun htext => ?_
    rw [seeksNumber_eq_false htext] at hseeks
    cases hseeks
  · have hroom : AgreeUnless (fun ts => room < c.maxDepth ∧ Expression.OpensInside room ts) .callsExhausted
        (fun opcode => Expression.parseWithin c.dialect opcode room) (Expression.parse c.dialect) := fun opcode ts eol =>
      Expression.parseWithin_eqUnless c.dialect opcode room ts eol
    rcases Table.assemble_eqUnless (c.readerWith_agreeUnless _) (physicalLines text) with heq | ⟨⟨line, hline, hp⟩, heq⟩
    · rcases Table.assemble_eqUnless hroom (physicalLines text) with heq' | ⟨⟨line, hline, hp⟩, heq'⟩
      · exact fails_of_parse hc ((heq.trans heq').symm.trans h)
      · obtain rfl : Failure.callsExhausted = f := Except.error.inj ((heq.trans heq').symm.trans h)
        obtain ⟨ts, hlt, -⟩ := hp.exists_tokens
        exact .exhausted hline hlt (hp.imp fun ts => And.right)
    · obtain rfl : Failure.numericKeyword = f := Except.error.inj (heq.symm.trans h)
      obtain ⟨ts, hnot⟩ := hp.exists_tokens
      exact .keyword hline hnot (hp.imp fun ts _ => trivial)

/-- The failures of tables are closed.  By a configuration that a mapping makes, and with whatever room for calls, a table is
read, or it fails in one of the ways of `Fails`.  Nothing is looked for in vain on the way: an expression that is not read to
its end has a furthest place, a parenthesis is opened only where a token stands, a choice that fails has a refusal to report,
and slots that no token is left for are reported as missing. -/
theorem parseWithin_closed {settings opcodes : List (Text × Dialect.Datum)} (hc : ofMapping settings opcodes = .ok c)
    (room : Nat) (text : Text) :
    ((∃ table, c.parseWithin room text = .ok table) ∨ ∃ f, c.parseWithin room text = .error f ∧ c.Fails room text f) ∧
    (∀ opcode cur ms, Expression.bodyWithin c.dialect opcode room cur = .missed ms ∨
        Expression.bodyWithin c.dialect opcode room cur = .stuck ms →
      ∃ cur', (Furthest.ofMisses ms).cursor = some cur') ∧
    (∀ opcode context cur groupAt groupAt', cur.peek? = none →
      Expression.atom c.dialect opcode groupAt context cur = Expression.atom c.dialect opcode groupAt' context cur) ∧
    ∀ shape ∈ c.vocabulary,
      (∀ slot ∈ shape.slots, ∀ t, SlotKind.choose c.dotAlphabet slot.kinds t ≠ .error .noAlternative) ∧
      ∀ slots, slots <:+ shape.slots → ∀ name eol position f,
        Directive.readSlots c.dotAlphabet shape.name name eol position slots [] = .error f →
        ∃ slot ∈ slots, ∃ n, f = .parse (Directive.missing shape.name slot n eol) := by
  have hsound := isSound_of_ofMapping hc
  refine ⟨?_, ?_, ?_, fun shape hshape => ⟨fun slot hslot t => ?_, fun slots hslots name eol position f hf => ?_⟩⟩
  · cases hparse : c.parseWithin room text with
    | ok table => exact .inl ⟨table, rfl⟩
    | error f => exact .inr ⟨f, rfl, fails_of_parseWithin hsound hparse⟩
  · intro opcode cur ms hms
    obtain ⟨cur', hcur', -⟩ := Expression.exists_cursor_of_bodyWithin hms
    exact ⟨cur', hcur'⟩
  · exact fun opcode context cur groupAt groupAt' hnone => Expression.atom_congr_of_peek? hnone groupAt groupAt'
  · exact SlotKind.choose_ne_noAlternative (hsound shape hshape slot hslot).kinds_ne_nil
  · exact Directive.exists_missing_of_readSlots (fun slot hslot => hsound shape hshape slot (hslots.subset hslot)) hf

end Config

/-- A table with an operand that cannot be read, in parentheses that are never closed. -/
def spoiledSource : Text := "always a 1\ncontext test (_digit = @1x actions go"

/-- The error of the operand is reported as one of its expression. -/
theorem Config.parseWithin_closed_spoiledSource :
    ∃ c, ofMapping [("max_depth", .number 3)] [("shout", .text "number")] = .ok c ∧
      ∃ e, c.parseWithin 5 spoiledSource = .error (.parse e) ∧ e.category.IsReported := by
  have hrefused : ((ofMapping [("max_depth", .number 3)] [("shout", .text "number")]).toOption.bind fun c =>
      Expression.errorOf? (c.parseWithin 5 spoiledSource)).isSome = true := by
    decide +kernel
  obtain ⟨e, hsome⟩ := Option.isSome_iff_exists.mp hrefused
  obtain ⟨c, hc, he⟩ := toOption_bind_eq_some hsome
  have herror : c.parseWithin 5 spoiledSource = .error (.parse e) := Expression.eq_of_errorOf?_eq_some he
  refine ⟨c, hc, e, herror, ?_⟩
  obtain ⟨⟨table, htable⟩ | ⟨f, hf, hfails⟩, -⟩ := parseWithin_closed hc 5 spoiledSource
  · rw [htable] at herror
    cases herror
  · obtain rfl : Failure.parse e = f := Except.error.inj (herror.symm.trans hf)
    cases hfails with
    | refused hreported => exact hreported
    | oversized _ _ hlong => cases hlong.2.2

/-- A table with so many parentheses inside each other. -/
def deepSource (n : Nat) : Text :=
  Text.ofString "context test " ++ List.replicate n ('(' : CodePoint) ++ Text.ofString "a" ++
    List.replicate n (')' : CodePoint) ++ Text.ofString " actions go\n"

/-- There are failures besides the errors of tables and the numbers that are too long: a marker that is a number is met
at the first line, a keyword that is a number where an expression is to be read, and parentheses that the configuration
allows may be more than there is room for. -/
theorem Config.exists_parseWithin_otherwise :
    (∃ c, ofMapping [("continuation_marker", .number 3)] [] = .ok c ∧
      ∀ room, c.parseWithin room "always a 1\n" = .error .numericMarker) ∧
    (∃ c, ofMapping [("test_keyword", .number 3)] [] = .ok c ∧
      ∀ room, c.parseWithin room "context test a actions go\n" = .error .numericKeyword) ∧
    ∃ c, ofMapping [("max_depth", .number 1000)] [] = .ok c ∧ (∃ table, c.parse (deepSource 61) = .ok table) ∧
      c.parseWithin 60 (deepSource 61) = .error .callsExhausted := by
  refine ⟨?_, ?_, ?_⟩
  · have hmade : ((ofMapping [("continuation_marker", .number 3)] []).toOption.map fun c =>
        c.seeksNumber (physicalLines "always a 1\n")) = some true := by
      decide +kernel
    obtain ⟨c, hc, hseeks⟩ := Option.map_eq_some_iff.mp hmade
    refine ⟨c, toOption_eq_some hc, fun room => ?_⟩
    unfold parseWithin parse assemble
    rw [if_pos hseeks]
  · have hmade : ((ofMapping [("test_keyword", .number 3)] []).toOption.map fun c =>
        (c.testKeyword.isText, (c.parse "context test a actions go\n").map fun _ => ())) =
          some (false, .error .numericKeyword) := by
      decide +kernel
    obtain ⟨c, hc, hpair⟩ := Option.map_eq_some_iff.mp hmade
    obtain ⟨hkeyword, hparse⟩ := Prod.mk.inj hpair
    have hnot : ¬ (c.testKeyword.isText ∧ c.actionKeyword.isText) := fun h => by rw [hkeyword] at h; cases h.1
    exact ⟨c, toOption_eq_some hc, fun room => (parseWithin_of_not hnot _).trans (map_eq_error hparse)⟩
  · have hmade : ((ofMapping [("max_depth", .number 1000)] []).toOption.map fun c =>
        ((c.parse (deepSource 61)).isOk, (c.parseWithin 60 (deepSource 61)).map fun _ => ())) =
          some (true, .error .callsExhausted) := by
      decide +kernel
    obtain ⟨c, hc, hpair⟩ := Option.map_eq_some_iff.mp hmade
    obtain ⟨hok, hgiven⟩ := Prod.mk.inj hpair
    exact ⟨c, toOption_eq_some hc, exists_of_isOk hok, map_eq_error hgiven⟩

end BrailleTable
