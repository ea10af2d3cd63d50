/-
The directives of a table are read back.

Every directive of a table was read from one of its logical lines.  A source without carriage returns has none in its
logical lines either, and then each directive that names no file is written on a line that is read as that directive.
-/
import BrailleTable.Proofs.Directive.RoundTrip
import BrailleTable.Proofs.LogicalLine.Joining
import BrailleTable.Proofs.Table.Alone

namespace BrailleTable

open Directive (IsRead)

namespace Table

/-! ## Where directives come from -/

/-- Each directive of a table was read from a line without line feeds, whose code points are from the source or
spaces. -/
theorem exists_isRead_of_mem {text : Text} {table : Table} (h : parse .standard text = .ok table)
    {r : Directive Span} (hr : r ∈ table.directives) :
    ∃ line : Text, IsRead line r ∧ ∀ c ∈ line, c ≠ '\n' ∧ (c = ' ' ∨ c ∈ text) := by
  obtain ⟨l, hl, halone⟩ := exists_line_of_parse h r hr
  obtain ⟨ts, lx, htokens, hparse⟩ := exists_parse_of_readLine halone
  obtain ⟨hcut, hcomment⟩ := Lexer.tokenize_eq_ok htokens
  exact ⟨l.text, Directive.isRead_of_parse hcut hcomment hparse, LogicalLine.text_of_mem_join hl⟩

/-! ## Single lines -/

theorem parseLine_eq {d : Dialect} {text : Text} (hfeed : ('\n' : CodePoint) ∉ text)
    (hlast : text.getLast? ≠ some ('\r' : CodePoint)) (n : Int) :
    parseLine d text n = (readLine d (.ofDialect d) (.single text ⟨n, 1, 0⟩)).1 := by
  have hbody : ¬ text.getLast? = some ('\n' : CodePoint) := fun heq => hfeed (List.mem_of_getLast? heq)
  have htrim : Text.trimEnd (fun c => c = '\r') text = text := by
    refine Text.trimEnd_eq_self fun c hc => decide_eq_false fun heq => ?_
    exact hlast (heq ▸ hc)
  unfold parseLine
  rw [if_neg hbody]
  dsimp only
  rw [if_neg hfeed, htrim]

/-- A line with tokens is read as a directive. -/
theorem readLine_eq_parse {d : Dialect} {lx lx' : Lexer} {l : LogicalLine} {ts us : List Token} {t : Token}
    (h : lx.tokenize l = (.ok (ts ++ t :: us), lx')) :
    (readLine d lx l).1 = (Directive.parse d (ts ++ t :: us) l.endSpan lx'.comment).map some := by
  unfold readLine
  rw [h]
  obtain ⟨first, more, heq⟩ := List.exists_cons_of_ne_nil
    (List.append_ne_nil_of_right_ne_nil ts (List.cons_ne_nil t us))
  rw [heq]

theorem readLine_of_tokenize {d : Dialect} {lx lx' : Lexer} {l : LogicalLine} {ts us : List Token} {t : Token}
    {r : Directive Span} (htokens : lx.tokenize l = (.ok (ts ++ t :: us), lx'))
    (hparse : Directive.parse d (ts ++ t :: us) l.endSpan lx'.comment = .ok r) :
    (readLine d lx l).1 = .ok (some r) := by
  rw [readLine_eq_parse htokens, hparse]
  rfl

/-- A line that starts with the name of an opcode is read as what the operands are read as. -/
theorem exists_readLine_opcode_iff {shape : Shape} (hshape : shape ∈ Vocabulary.standard) {lx lx' : Lexer} {l : LogicalLine}
    {t : Token} {us : List Token} (htokens : lx.tokenize l = (.ok (t :: us), lx')) (ht : t.IsPlain shape.name)
    {P : List (Value Span) → Option (Expression Span) → Prop} :
    (∃ r, (readLine .standard lx l).1 = .ok (some r) ∧ P r.args r.expression) ↔
      ∃ args expression, Directive.ReadsOperands .standard shape t.span l.endSpan us args expression ∧
        P args expression := by
  rw [@readLine_eq_parse _ _ _ _ [] us t htokens]
  simp only [map_some_eq_ok_iff]
  exact Directive.exists_parse_opcode_iff hshape ht

end Table

namespace Directive

variable {line : Text} {r : Directive Span}

theorem isHeadWord_of_mem {shape : Shape} (hshape : shape ∈ Vocabulary.standard) (ms : List Modifier) :
    ∀ w ∈ ms.map Modifier.label ++ [shape.name], IsHeadWord w := by
  intro w hw
  rcases List.mem_append.mp hw with hw | hw
  · obtain ⟨m, -, rfl⟩ := List.mem_map.mp hw
    exact m.isHeadWord_label
  · rw [List.mem_singleton.mp hw]
    exact Vocabulary.isHeadWord_name shape hshape

theorem IsRead.no_feed_trailer (h : IsRead line r) (hfeed : ('\n' : CodePoint) ∉ line) :
    ('\n' : CodePoint) ∉ trailer .standard r.comment :=
  not_mem_trailer fun text htext hmem => hfeed ((h.comment text htext).2 _ hmem)

/-- A sealed text with a comment after it does not end in white space either. -/
theorem IsRead.isBlank_of_getLast? (h : IsRead line r) {text : Text} (hsealed : text.Sealed) :
    ∀ c, (text ++ trailer .standard r.comment).getLast? = some c → c.isBlank = false := by
  intro c hc
  rcases trailer_cases .standard r.comment with ⟨htrailer, -⟩ | ⟨comment, hcomment, hne, htrailer⟩
  · obtain ⟨b, hb, hblank⟩ := hsealed.last
    rw [htrailer, List.append_nil, hb] at hc
    cases hc
    exact hblank
  · rw [htrailer, ← List.append_assoc, List.getLast?_append_of_ne_nil _ hne] at hc
    exact (h.comment comment hcomment).1.last c hc

/-- A directive that names no file is written on a line that is read as that directive. -/
theorem IsRead.exists_parseLine_write (h : IsRead line r) (hfeed : ('\n' : CodePoint) ∉ line)
    (hreturn : ('\r' : CodePoint) ∉ line) (hname : r.opcode ≠ "include") :
    ∃ text, r.write .standard = .ok text ∧ ∀ n, ∃ r', Table.parseLine .standard text n = .ok (some r') ∧
      r'.bare = r.bare ∧ r'.write .standard = .ok text := by
  obtain ⟨shape, hshape, hopcode, htakes, hfollows⟩ := h.follows
  have hinclude : shape.name ≠ "include" := by
    rw [hopcode]
    exact hname
  obtain ⟨texts, hoperands, hne, hclosed⟩ := hfollows.exists_writeOperands hshape hopcode hinclude
  have hwrite := write_eq hoperands
  rw [← hopcode] at hwrite
  have hsealed : (Text.join " " (r.modifiers.toList.map Modifier.label ++ shape.name :: texts)).Sealed := by
    rw [List.append_cons]
    exact .join_append (fun w hw => (isHeadWord_of_mem hshape _ w hw).isSealed.no_feed) hne hclosed.isSealed
  have hfree := List.not_mem_append hsealed.no_feed (h.no_feed_trailer hfeed)
  have hlast := h.isBlank_of_getLast? hsealed
  refine ⟨_, hwrite, fun n => ?_⟩
  obtain ⟨ts, t, us, lx, htokens, hts, ht, hus, hcomment⟩ :=
    exists_tokenize (l := .single _ ⟨n, 1, 0⟩) hshape hne (hclosed.spells hfeed hreturn)
      r.modifiers.toList (fun text htext => (h.comment text htext).1) rfl
  obtain ⟨r', hparse, hbare, hcomment'⟩ :=
    exists_parse_of_readsBack hshape hopcode htakes h.apart hts ht hus _ lx.comment
  refine ⟨r', ?_, hbare, ?_⟩
  · rw [Table.parseLine_eq hfree fun hreturn => absurd (hlast _ hreturn) (by decide)]
    exact Table.readLine_of_tokenize htokens hparse
  · rw [write_eq_of_bare_eq .standard hbare (hcomment' ▸ hcomment), hwrite]

end Directive

/-- Every directive of a table that names no file is written on a line that is read as the same directive, which in its
turn is written on the same line. -/
theorem Table.exists_parseLine_write_of_mem {text : Text} (hreturn : ('\r' : CodePoint) ∉ text)
    {table : Table} (h : parse .standard text = .ok table) {r : Directive Span} (hr : r ∈ table.directives)
    (hname : r.opcode ≠ "include") :
    ∃ line, r.write .standard = .ok line ∧ ∀ n, ∃ r', parseLine .standard line n = .ok (some r') ∧
      r'.bare = r.bare ∧ r'.write .standard = .ok line := by
  obtain ⟨line, hread, hline⟩ := exists_isRead_of_mem h hr
  refine hread.exists_parseLine_write (fun hmem => (hline _ hmem).1 rfl) (fun hmem => ?_) hname
  rcases (hline _ hmem).2 with heq | hmem
  · exact absurd heq (by decide)
  · exact hreturn hmem

def sampleSource : Text :=
  "nofor context test (not _c or \"y z\") a\\s \\\n  and _v<=1 actions go @12 # note\nalways a\\x0020b 12-3\n"

theorem exists_parseLine_write_sampleSource : ∃ table, Table.parse .standard sampleSource = .ok table ∧
    ∃ r ∈ table.directives, r.opcode = "context" ∧
      ∃ line, r.write .standard = .ok line ∧
        ∀ n, ∃ r', Table.parseLine .standard line n = .ok (some r') ∧ r'.bare = r.bare ∧
          r'.write .standard = .ok line := by
  have hopcodes : ((Table.parse .standard sampleSource).toOption.map fun table =>
      table.directives.map Directive.opcode) = some [Text.ofString "context", "always"] := by decide +kernel
  cases hparse : Table.parse .standard sampleSource with
  | error f =>
    rw [hparse] at hopcodes
    cases hopcodes
  | ok table =>
    rw [hparse] at hopcodes
    obtain ⟨r, rs, hrs, hr, -⟩ := List.map_eq_cons_iff.mp (Option.some.inj hopcodes)
    have hmem : r ∈ table.directives := by
      rw [hrs]
      exact List.mem_cons_self
    have hname : r.opcode ≠ "include" := by
      rw [hr]
      decide
    exact ⟨table, rfl, r, hmem, hr, Table.exists_parseLine_write_of_mem (by decide) hparse hmem hname⟩

end BrailleTable
