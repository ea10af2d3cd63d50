/-
Written directives and the lines they stand on.

A written directive is one physical line, and it is one logical line as well unless it ends in an odd run of
backslashes.  Arguments and expressions never do.  Comments and file names are written as they stand, so they may, and
then the next directive is joined to the line.
-/
import BrailleTable.Proofs.Table.RoundTrip

namespace BrailleTable

open Directive (IsRead)

namespace Text

/-- A text without line endings, which joins the next line to it exactly if `p` holds. -/
structure EndsOpen (t : Text) (p : Prop) : Prop where
  no_feed : ('\n' : CodePoint) ∉ t
  no_return : t.getLast? ≠ some ('\r' : CodePoint)
  even_iff : (stripRight t).EndsEven ↔ ¬ p

theorem stripRight_eq_self {t : Text} (h : ∀ c, t.getLast? = some c → c.isBlank = false) : stripRight t = t :=
  trimEnd_eq_self h

theorem EndsOpen.of_isBlank {t : Text} {p : Prop} (hfeed : ('\n' : CodePoint) ∉ t)
    (hlast : ∀ c, t.getLast? = some c → c.isBlank = false) (h : t.EndsEven ↔ ¬ p) : EndsOpen t p where
  no_feed := hfeed
  no_return := fun hreturn => absurd (hlast _ hreturn) (by decide)
  even_iff := by
    rw [stripRight_eq_self hlast]
    exact h

theorem EndsOpen.congr {t : Text} {p q : Prop} (h : EndsOpen t p) (hpq : p ↔ q) : EndsOpen t q :=
  ⟨h.no_feed, h.no_return, h.even_iff.trans (not_congr hpq)⟩

theorem EndsOpen.of_sealed {t : Text} {p : Prop} (h : t.Sealed) (hp : ¬ p) : EndsOpen t p := by
  refine .of_isBlank h.no_feed (fun c hc => ?_) ⟨fun _ => hp, fun _ => h.even⟩
  obtain ⟨b, hb, hblank⟩ := h.last
  rw [hb] at hc
  cases hc
  exact hblank

/-- What comes after a blank decides, if it is anything at all. -/
theorem EndsOpen.append_blank {a b : Text} (ha : a.Sealed) (hfeed : ('\n' : CodePoint) ∉ b)
    (hlast : ∀ c, b.getLast? = some c → c.isBlank = false) : EndsOpen (a ++ " " ++ b) (¬ b.EndsEven) := by
  have hblank : ('\n' : CodePoint) ∉ a ++ " " := List.not_mem_append ha.no_feed (by decide)
  by_cases hb : b = []
  · rw [hb, List.append_nil]
    refine ⟨hblank, ?_, ?_⟩
    · rw [List.getLast?_append_of_ne_nil _ (by decide)]
      decide
    · have hstrip : stripRight (a ++ " ") = stripRight a := trimEnd_append_of_all (by decide)
      obtain ⟨c, hc, hnot⟩ := ha.last
      rw [hstrip, stripRight_eq_self fun d hd => by rw [hc] at hd; cases hd; exact hnot]
      exact ⟨fun _ hnot => hnot .nil, fun _ => ha.even⟩
  · refine .of_isBlank (List.not_mem_append hblank hfeed) (fun c hc => ?_) ?_
    · rw [List.getLast?_append_of_ne_nil _ hb] at hc
      exact hlast c hc
    · rw [endsEven_append_blank, not_not]

end Text

namespace LogicalLine

/-- Whether a written line is joined to the next one. -/
theorem isContinued_iff {t : Text} {p : Prop} (h : t.EndsOpen p) {c : CodePoint} (hhead : t.head? = some c)
    (hblank : c.isBlank = false) (hmark : c ≠ '#') : isContinued "\\" "#" (t ++ "\n") = true ↔ p := by
  unfold isContinued
  rw [body_append_feed_eq h.no_return h.no_feed, isComment_eq_false hhead hblank hmark, Bool.not_false,
    Bool.true_and, continues_iff, h.even_iff, not_not]

end LogicalLine

namespace Directive

variable {line : Text} {r : Directive Span}

/-- A file name that is written as it stands and ends in an odd run of backslashes. -/
def NamesOpenFile (r : Directive Span) : Prop :=
  r.opcode = "include" ∧
    ∃ name, r.args.map Value.bare = [.string name ()] ∧ Value.writeFilename '#' name = name ∧ ¬ name.EndsEven

/-- A directive whose line joins the next one to it: its comment ends in an odd run of backslashes, or it has no comment
and names such a file. -/
def LeavesOpen (r : Directive Span) : Prop :=
  match r.comment with
  | some (c :: comment) => ¬ Text.EndsEven (c :: comment)
  | _ => r.NamesOpenFile

theorem isBlank_of_writeFilename {name : Text} (h : Value.writeFilename '#' name = name) :
    ∀ c ∈ name, c.isBlank = false := by
  intro c hc
  by_contra hblank
  rw [Bool.not_eq_false] at hblank
  have hlength := Text.length_lt_quote name
  unfold Value.writeFilename at h
  rw [if_pos (.inl (List.any_eq_true.mpr ⟨c, hc, hblank⟩))] at h
  rw [h] at hlength
  exact Nat.lt_irrefl _ hlength

theorem writeFilename_eq_quote {name : Text} (h : Value.writeFilename '#' name ≠ name) :
    Value.writeFilename '#' name = name.quote := by
  unfold Value.writeFilename at h ⊢
  split
  · rfl
  · rename_i hnot
    rw [if_neg hnot] at h
    exact absurd rfl h

/-- A line starts with a word. -/
theorem head?_join {words : List Text} (hwords : ∀ w ∈ words, IsHeadWord w) (hne : words ≠ [])
    (texts : List Text) : ∃ c, (Text.join " " (words ++ texts)).head? = some c ∧ c.isBlank = false ∧ c ≠ '#' := by
  obtain ⟨w, words, rfl⟩ := List.exists_cons_of_ne_nil hne
  have hw := hwords w List.mem_cons_self
  obtain ⟨c, rest, rfl⟩ := List.exists_cons_of_ne_nil hw.1
  obtain ⟨hblank, -, hmark, -⟩ := hw.2.2.2 c List.mem_cons_self
  refine ⟨c, ?_, hblank, hmark⟩
  rw [List.cons_append]
  by_cases hmore : words ++ texts = []
  · rw [hmore]
    rfl
  · rw [Text.join_cons hmore]
    rfl

theorem writeOperands_of_filename {shape : Shape} {name : Text} {s : Span}
    (hshape : shape ∈ Vocabulary.standard) (hopcode : shape.name = r.opcode) (hinclude : shape.name = "include")
    (hargs : r.args = [.string name s]) (hexpression : r.expression = none) :
    writeOperands .standard r = .ok [Value.writeFilename '#' name] := by
  obtain ⟨-, hslots⟩ := Vocabulary.slots_include shape hshape hinclude
  rw [writeOperands_of_args hshape hopcode hexpression, hargs, hslots]
  show Except.ok [Value.write '#' [.filename] (Value.string name s)] = _
  unfold Value.write
  dsimp only
  rw [if_pos (by decide)]

/-- A file name decides how its line ends. -/
theorem endsOpen_filename {words : Text} (hwords : words.Sealed) (hopcode : r.opcode = "include") {name : Text}
    {s : Span} (hargs : r.args = [.string name s]) (hfeed : ('\n' : CodePoint) ∉ name) :
    (words ++ " " ++ Value.writeFilename '#' name).EndsOpen r.NamesOpenFile := by
  by_cases hraw : Value.writeFilename '#' name = name
  · have hblank := isBlank_of_writeFilename hraw
    rw [hraw]
    refine (Text.EndsOpen.append_blank hwords hfeed fun c hc => hblank c (List.mem_of_getLast? hc)).congr ?_
    constructor
    · intro hopen
      exact ⟨hopcode, name, by rw [hargs]; rfl, hraw, hopen⟩
    · intro ⟨_, name', hargs', _, hopen⟩
      rw [hargs] at hargs'
      cases hargs'
      exact hopen
  · rw [writeFilename_eq_quote hraw]
    refine .of_sealed (.append_blank hwords.no_feed (Text.sealed_quote hfeed)) ?_
    intro ⟨_, name', hargs', hraw', _⟩
    rw [hargs] at hargs'
    cases hargs'
    exact hraw hraw'

/-- What a directive is written as before its comment. -/
theorem IsRead.exists_write (h : IsRead line r) (hfeed : ('\n' : CodePoint) ∉ line) :
    ∃ text, r.write .standard = .ok (text ++ trailer .standard r.comment) ∧
      (∃ c, text.head? = some c ∧ c.isBlank = false ∧ c ≠ '#') ∧ text.EndsOpen r.NamesOpenFile := by
  obtain ⟨shape, hshape, hopcode, -, hfollows⟩ := h.follows
  have hwords := isHeadWord_of_mem hshape r.modifiers.toList
  have hwordsNe : r.modifiers.toList.map Modifier.label ++ [shape.name] ≠ [] :=
    List.append_ne_nil_of_right_ne_nil _ (List.cons_ne_nil _ _)
  have hsealed := Text.Sealed.join hwordsNe fun w hw => (hwords w hw).isSealed
  have hhead := head?_join hwords hwordsNe
  by_cases hinclude : shape.name = "include"
  · obtain ⟨name, s, hargs, hexpression, hname⟩ := hfollows.exists_filename hinclude
      (Vocabulary.slots_include shape hshape hinclude).1
    refine ⟨_, write_eq (writeOperands_of_filename hshape hopcode hinclude hargs hexpression), ?_, ?_⟩
    · rw [← hopcode, List.append_cons]
      exact hhead _
    · rw [← hopcode, List.append_cons, Text.join_concat hwordsNe]
      exact endsOpen_filename hsealed (hopcode ▸ hinclude) hargs fun hmem => hfeed (hname _ hmem)
  · obtain ⟨texts, hoperands, hne, hclosed⟩ := hfollows.exists_writeOperands hshape hopcode hinclude
    refine ⟨_, write_eq hoperands, ?_, .of_sealed ?_ fun hopen => ?_⟩
    · rw [← hopcode, List.append_cons]
      exact hhead texts
    · rw [← hopcode, List.append_cons]
      exact .join_append (fun w hw => (hwords w hw).isSealed.no_feed) hne hclosed.isSealed
    · rw [hopcode] at hinclude
      exact hinclude hopen.1

/-- A comment decides how its line ends. -/
theorem endsOpen_trailer (h : IsRead line r) (hfeed : ('\n' : CodePoint) ∉ line) {text : Text}
    (htext : text.EndsOpen r.NamesOpenFile) :
    (text ++ trailer .standard r.comment).EndsOpen r.LeavesOpen := by
  rcases trailer_cases .standard r.comment with ⟨htrailer, hcomment⟩ | ⟨comment, hcomment, hne, htrailer⟩
  · have hopen : r.LeavesOpen = r.NamesOpenFile := by
      unfold LeavesOpen
      rcases hcomment with hcomment | hcomment <;> rw [hcomment]
    rw [htrailer, List.append_nil, hopen]
    exact htext
  · have hopen : r.LeavesOpen = ¬ comment.EndsEven := by
      obtain ⟨c, rest, rfl⟩ := List.exists_cons_of_ne_nil hne
      unfold LeavesOpen
      rw [hcomment]
    obtain ⟨hstripped, hmem⟩ := h.comment comment hcomment
    have hfree := List.not_mem_append htext.no_feed (h.no_feed_trailer hfeed)
    rw [htrailer] at hfree ⊢
    rw [hopen]
    refine .of_isBlank hfree (fun c hc => ?_) ?_
    · rw [← List.append_assoc, List.getLast?_append_of_ne_nil _ hne] at hc
      exact hstripped.last c hc
    · rw [← List.append_assoc, ← List.append_assoc, Text.endsEven_append_blank, not_not]

/-- A directive is written as this text, which is one physical line and is joined to the next one exactly if the
directive is left open. -/
structure StandsOn (r : Directive Span) (text : Text) : Prop where
  write_eq : r.write .standard = .ok text
  no_feed : ('\n' : CodePoint) ∉ text
  body_eq : LogicalLine.body (text ++ "\n") = text
  isContinued_iff : LogicalLine.isContinued "\\" "#" (text ++ "\n") = true ↔ r.LeavesOpen

theorem IsRead.exists_standsOn (h : IsRead line r) (hfeed : ('\n' : CodePoint) ∉ line) :
    ∃ text, r.StandsOn text := by
  obtain ⟨text, hwrite, ⟨c, hhead, hblank, hmark⟩, hopen⟩ := h.exists_write hfeed
  have hends := endsOpen_trailer h hfeed hopen
  refine ⟨_, hwrite, hends.no_feed, LogicalLine.body_append_feed_eq hends.no_return hends.no_feed, ?_⟩
  refine LogicalLine.isContinued_iff hends ?_ hblank hmark
  rw [List.head?_append, hhead]
  rfl

variable {rs : List (Directive Span)} {lines : List Text}

theorem exists_forall₂_standsOn (h : ∀ r ∈ rs, ∃ text, r.StandsOn text) :
    ∃ lines, List.Forall₂ StandsOn rs lines := by
  induction rs with
  | nil => exact ⟨[], .nil⟩
  | cons r rs ih =>
    obtain ⟨text, htext⟩ := h r List.mem_cons_self
    obtain ⟨lines, hlines⟩ := ih fun r' hr' => h r' (List.mem_cons_of_mem r hr')
    exact ⟨text :: lines, .cons htext hlines⟩

theorem writeLines_of_standsOn (h : List.Forall₂ StandsOn rs lines) :
    writeLines .standard rs = .ok (lines.flatMap (· ++ Text.ofString "\n")) := by
  induction h with
  | nil => rfl
  | cons hfirst _ ih =>
    unfold writeLines
    rw [hfirst.write_eq, ih]
    rfl

theorem forall_isContinued_iff (h : List.Forall₂ StandsOn rs lines) :
    (∀ raw ∈ lines.map (· ++ Text.ofString "\n"), LogicalLine.isContinued "\\" "#" raw = false) ↔
      ∀ r ∈ rs, ¬ r.LeavesOpen := by
  induction h with
  | nil => simp
  | cons hfirst _ ih =>
    rw [List.map_cons, List.forall_mem_cons, List.forall_mem_cons, ih, ← hfirst.isContinued_iff,
      Bool.not_eq_true]

/-- Written directives keep their lines exactly if none of them is left open. -/
theorem join_lines_iff (h : List.Forall₂ StandsOn rs lines) :
    ((LogicalLine.join "\\" "#" (physicalLines (lines.flatMap (· ++ Text.ofString "\n")))).dangling = none ∧
      (LogicalLine.join "\\" "#" (physicalLines (lines.flatMap (· ++ Text.ofString "\n")))).lines.map
        LogicalLine.text = lines) ↔ ∀ r ∈ rs, ¬ r.LeavesOpen := by
  have hline : ∀ text ∈ lines, ∃ r ∈ rs, StandsOn r text := Lexer.exists_of_forall₂ h.flip
  have hfree : ∀ text ∈ lines, ('\n' : CodePoint) ∉ text := by
    intro text htext
    obtain ⟨r, -, hr⟩ := hline text htext
    exact hr.no_feed
  have hbody : (lines.map (· ++ Text.ofString "\n")).map LogicalLine.body = lines := by
    rw [List.map_map]
    refine (List.map_congr_left fun text htext => ?_).trans (List.map_id lines)
    obtain ⟨r, -, hr⟩ := hline text htext
    exact hr.body_eq
  have hjoin := LogicalLine.join_eq_iff "\\" "#" (lines.map (· ++ Text.ofString "\n"))
  rw [hbody] at hjoin
  rw [physicalLines_flatMap hfree, ← forall_isContinued_iff h]
  exact hjoin

end Directive

/-- A written table has one logical line for each directive, which is what the directive is written as, exactly if no
directive is left open. -/
theorem Table.join_write_iff {text : Text} {table : Table} (h : parse .standard text = .ok table) :
    ∃ lines written, List.Forall₂ (fun r line => Directive.write .standard r = .ok line) table.directives lines ∧
      table.write .standard = .ok written ∧
      ((LogicalLine.join "\\" "#" (physicalLines written)).dangling = none ∧
        (LogicalLine.join "\\" "#" (physicalLines written)).lines.map LogicalLine.text = lines ↔
        ∀ r ∈ table.directives, ¬ r.LeavesOpen) := by
  obtain ⟨lines, hlines⟩ := Directive.exists_forall₂_standsOn fun r hr => by
    obtain ⟨line, hread, hline⟩ := exists_isRead_of_mem h hr
    exact hread.exists_standsOn fun hfeed => (hline _ hfeed).1 rfl
  have hwrite : List.Forall₂ (fun r line => Directive.write .standard r = .ok line) table.directives lines :=
    hlines.imp fun r line hline => hline.write_eq
  exact ⟨lines, _, hwrite, Directive.writeLines_of_standsOn hlines, Directive.join_lines_iff hlines⟩

/-- A file name in quotes that is written without them. -/
def openSource : Text := "include \"foo\\\\\"\nalways b 2\n"

/-- The second directive is joined to the line of the first. -/
theorem join_write_openSource : ∃ table, Table.parse .standard openSource = .ok table ∧
    table.directives.length = 2 ∧
    ∃ lines written, List.Forall₂ (fun r line => Directive.write .standard r = .ok line) table.directives lines ∧
      table.write .standard = .ok written ∧
      ¬ ((LogicalLine.join "\\" "#" (physicalLines written)).dangling = none ∧
        (LogicalLine.join "\\" "#" (physicalLines written)).lines.map LogicalLine.text = lines) := by
  have hread : ((Table.parse .standard openSource).toOption.map fun table =>
      table.directives.map fun r => (r.opcode, r.args.map Value.bare, r.comment)) =
        some [(Text.ofString "include", [.string (Text.ofString "foo\\") ()], none),
          (Text.ofString "always", [.string (Text.ofString "b") (), .dots [[2]] ()], none)] := by
    decide +kernel
  cases hparse : Table.parse .standard openSource with
  | error f =>
    rw [hparse] at hread
    cases hread
  | ok table =>
    rw [hparse] at hread
    have hlength := congrArg List.length (Option.some.inj hread)
    rw [List.length_map] at hlength
    obtain ⟨r, rs, hrs, hr, -⟩ := List.map_eq_cons_iff.mp (Option.some.inj hread)
    obtain ⟨hopcode, hargs, hcomment⟩ : r.opcode = "include" ∧
        r.args.map Value.bare = [.string (Text.ofString "foo\\") ()] ∧ r.comment = none := by
      simpa using hr
    have hopen : r.LeavesOpen := by
      unfold Directive.LeavesOpen
      rw [hcomment]
      exact ⟨hopcode, _, hargs, by decide, by unfold Text.EndsEven; decide⟩
    have hmem : r ∈ table.directives := by
      rw [hrs]
      exact List.mem_cons_self
    obtain ⟨lines, written, hlines, hwritten, hiff⟩ := Table.join_write_iff hparse
    exact ⟨table, rfl, hlength, lines, written, hlines, hwritten, fun hjoin =>
      hiff.mp hjoin r hmem hopen⟩

end BrailleTable
