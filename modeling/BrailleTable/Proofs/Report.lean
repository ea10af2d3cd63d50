/-
Reports show the line of an error, with carets under it.

A report is made from the text and the offsets of an error: it looks for the line feeds around the start.  The line and the
column that the error carries were counted when the lines were joined, so that the two agree has to be proved.  They do
because errors start on a physical line, in its body or just behind it, however many lines were joined and whatever ends
them.
-/
import BrailleTable.Proofs.Table.ErrorPlace
import BrailleTable.Proofs.Table.SingleLine
import BrailleTable.Proofs.Token.Kind
import BrailleTable.Report

namespace BrailleTable

theorem Text.splitAt_append_cons {mark : CodePoint} {a : Text} (h : mark ∉ a) (b : Text) :
    Text.splitAt mark (a ++ mark :: b) = a :: Text.splitAt mark b := by
  induction a with
  | nil => exact if_pos rfl
  | cons c rest ih =>
    rw [List.mem_cons, not_or] at h
    rw [List.cons_append, Text.splitAt, if_neg (Ne.symm h.1), ih h.2]

/-! ## Where errors start -/

namespace LogicalLine

variable {marker commentMark text : Text}

/-- The place is on a physical line of the text, in the body of the line or at its end. -/
def Touches (text : Text) (p : Place) : Prop :=
  ∃ x ∈ placeLines 0 0 (physicalLines text), ∃ k : Nat, k ≤ (body x.2).length ∧ p = x.1.advance k

theorem touches_of_locates {l : LogicalLine} {s : Span} (hl : l ∈ (join marker commentMark (physicalLines text)).lines)
    (h : l.Locates s) : Touches text ⟨s.line, s.col, s.start⟩ := by
  cases h with
  | @inside i j hij hj =>
    rw [place_start_span]
    exact exists_advance_of_le hl (by omega)
  | @escape k width code hslash _ _ =>
    obtain ⟨hk, -⟩ := List.getElem?_eq_some_iff.mp hslash
    rw [place_start_span l k (k + 2 + width : Nat)]
    exact exists_advance_of_le hl (Nat.le_of_lt hk)

theorem touches_of_dangling {e : ParseError}
    (h : (join marker commentMark (physicalLines text)).dangling = some e) :
    Touches text ⟨e.span.line, e.span.col, e.span.start⟩ := by
  rcases exists_of_dangling_joinFrom h with ⟨p, hp, -⟩ | ⟨x, hx, hcont, rfl⟩
  · cases hp
  · obtain ⟨before, blanks, hbody, hcut, -, -⟩ := exists_of_isContinued hcont
    refine ⟨x, hx, cutAt marker x.2, ?_, rfl⟩
    rw [hbody, hcut, List.length_append, List.length_append]
    omega

end LogicalLine

/-- In a dialect that a configuration makes, the error of a table starts on a physical line, where counting code points
along the line says. -/
theorem Table.touches_of_parse {d : Dialect} {text : Text} {settings : List (Text × Dialect.Datum)}
    {opcodes : List (Text × Text)} (hd : Dialect.configure settings opcodes = .ok d) {e : ParseError}
    (h : parse d text = .error (.parse e)) : LogicalLine.Touches text ⟨e.span.line, e.span.col, e.span.start⟩ := by
  rcases arises_of_parse (Dialect.isSound_of_configure hd) h with ⟨line, hline, harises⟩ | ⟨e', he', heq⟩
  · cases harises with
    | error _ hlocates => exact LogicalLine.touches_of_locates hline hlocates
    | oversized _ hlong => cases hlong.2.2
  · cases heq
    exact LogicalLine.touches_of_dangling he'

/-! ## The line that is shown -/

namespace Report

open LogicalLine (beforeFeed)

variable {text raw : Text}

/-- A physical line as a report shows it: without its line feed, and then without the carriage return at its end. -/
def shown (raw : Text) : Text :=
  if (beforeFeed raw).getLast? = some ('\r' : CodePoint) then (beforeFeed raw).dropLast else beforeFeed raw

theorem not_mem_shown (h : ('\n' : CodePoint) ∉ raw.dropLast) : ('\n' : CodePoint) ∉ shown raw := by
  have hfeed := LogicalLine.not_mem_beforeFeed h
  unfold shown
  split
  · exact fun hmem => hfeed (List.dropLast_subset _ hmem)
  · exact hfeed

/-- Joining takes all carriage returns off the end of a line, and a report one of them. -/
theorem length_body_le_shown (h : ('\n' : CodePoint) ∉ raw.dropLast) :
    (LogicalLine.body raw).length ≤ (shown raw).length := by
  rw [LogicalLine.body_eq_trimEnd h]
  unfold shown
  by_cases hlast : (beforeFeed raw).getLast? = some ('\r' : CodePoint)
  · rw [if_pos hlast]
    conv_lhs => rw [← List.dropLast_append_getLast? _ hlast]
    rw [Text.trimEnd_append_of_all (by simp)]
    exact Text.length_trimEnd_le _
  · rw [if_neg hlast]
    exact Text.length_trimEnd_le _

theorem shown_isPrefix (raw : Text) : shown raw <+: beforeFeed raw := by
  unfold shown
  split
  · exact List.dropLast_prefix _
  · exact List.prefix_refl _

/-- Looking for the line feeds around an offset finds the physical line there. -/
theorem lineAt_eq {before rest : Text} (htext : text = before ++ raw ++ rest) (hbefore : before.EndsLine)
    (hfeed : ('\n' : CodePoint) ∉ raw.dropLast) (hlast : rest = [] ∨ raw.getLast? = some ('\n' : CodePoint)) {i : Nat}
    (hi : i ≤ (shown raw).length) : lineAt text (before.length + i) = (shown raw, i) := by
  have hfree := LogicalLine.not_mem_beforeFeed hfeed
  have hle : i ≤ (beforeFeed raw).length := hi.trans (shown_isPrefix raw).length_le
  obtain ⟨after, hafter, hstop⟩ : ∃ after, raw ++ rest = beforeFeed raw ++ after ∧ Text.firstLine after = [] := by
    by_cases hend : raw.getLast? = some ('\n' : CodePoint)
    · refine ⟨"\n" ++ rest, ?_, rfl⟩
      have hcut : beforeFeed raw = raw.dropLast := if_pos hend
      rw [hcut, ← List.append_assoc]
      exact congrArg (· ++ rest) (List.dropLast_append_getLast? _ hend).symm
    · have hcut : beforeFeed raw = raw := if_neg hend
      rw [hcut, hlast.resolve_right hend]
      exact ⟨[], rfl, rfl⟩
  have htake : text.take (before.length + i) = before ++ (beforeFeed raw).take i := by
    rw [htext, List.append_assoc, hafter, List.take_length_add_append, List.take_append_of_le_length hle]
  have hdrop : text.drop (before.length + i) = (beforeFeed raw).drop i ++ after := by
    rw [htext, List.append_assoc, hafter, List.drop_length_add_append, List.drop_append_of_le_length hle]
  have hleft : Text.lastLine (text.take (before.length + i)) = (beforeFeed raw).take i := by
    rw [htake, Text.lastLine_append hbefore fun hmem => hfree (List.mem_of_mem_take hmem)]
  have hright : Text.firstLine (text.drop (before.length + i)) = (beforeFeed raw).drop i := by
    rw [hdrop, Text.firstLine_append fun hmem => hfree (List.mem_of_mem_drop hmem), hstop, List.append_nil]
  have hlength : ((beforeFeed raw).take i).length = i := List.length_take_of_le hle
  calc
    lineAt text (before.length + i)
      = (let line := Text.lastLine (text.take (before.length + i)) ++ Text.firstLine (text.drop (before.length + i))
         (if line.getLast? = some ('\r' : CodePoint) then line.dropLast else line,
          (Text.lastLine (text.take (before.length + i))).length)) := rfl
    _ = (shown raw, i) := by
      rw [hleft, hright, List.take_append_drop, hlength]
      rfl

/-! ## The carets -/

/-- The number of carets for a range that starts behind `before` code points of a line. -/
def caretsUnder (line : Text) (before : Nat) (s : Span) : Nat :=
  if s.endLine = s.line ∧ s.start < s.stop then
    (max (min (s.stop - s.start) ((line.length : Int) - before)) 1).toNat
  else 1

theorem one_le_caretsUnder (line : Text) (before : Nat) (s : Span) : 1 ≤ caretsUnder line before s := by
  unfold caretsUnder
  split <;> omega

/-- Only a single caret can stand behind the line. -/
theorem caretsUnder_eq_one {line : Text} {before : Nat} {s : Span}
    (h : line.length < before + caretsUnder line before s) (hle : before ≤ line.length) :
    caretsUnder line before s = 1 := by
  unfold caretsUnder at h ⊢
  by_cases hwide : s.endLine = s.line ∧ s.start < s.stop
  · rw [if_pos hwide] at h ⊢
    omega
  · exact if_neg hwide

theorem snippet_eq {s : Span} {line : Text} {o before : Nat} (hstart : s.start = o) (ho : o ≤ text.length)
    (h : lineAt text o = (line, before)) :
    snippet text s = line ++ "\n" ++ List.replicate before (' ' : CodePoint) ++
      List.replicate (caretsUnder line before s) ('^' : CodePoint) := by
  have hpos : min s.start text.length = (o : Int) := by omega
  have hindex : (if (o : Int) < 0 then (o : Int) + text.length else o).toNat = o := by
    rw [if_neg (Int.not_lt.mpr (Int.natCast_nonneg o)), Int.toNat_natCast]
  have hblanks : ((o : Int) - ((o : Int) - before)).toNat = before := by omega
  have hcarets : (max (if s.endLine = s.line ∧ s.start < s.stop then
      min s.stop ((o : Int) - before + line.length) - o else 1) 1).toNat = caretsUnder line before s := by
    unfold caretsUnder
    by_cases hwide : s.endLine = s.line ∧ s.start < s.stop
    · rw [if_pos hwide, if_pos hwide]
      omega
    · rw [if_neg hwide, if_neg hwide]
      rfl
  unfold snippet
  simp only [hpos, hindex, h, hblanks, hcarets]

/-- What a report shows for a range that starts on a physical line.  Only a single caret stands behind what is shown of
the line. -/
theorem snippet_of_touches {s : Span} (h : LogicalLine.Touches text ⟨s.line, s.col, s.start⟩) :
    ∃ (n : Nat) (raw : Text) (blanks carets : Nat), (physicalLines text)[n]? = some raw ∧ s.line = n + 1 ∧
      s.col = blanks + 1 ∧ 1 ≤ carets ∧
      Text.splitAt '\n' (snippet text s) =
        [shown raw, List.replicate blanks (' ' : CodePoint) ++ List.replicate carets ('^' : CodePoint)] ∧
      ((shown raw).length < blanks + carets → carets = 1) := by
  obtain ⟨x, hx, k, hk, hplace⟩ := h
  obtain ⟨n, hn, hnumber⟩ := LogicalLine.exists_getElem?_of_mem_placeLines hx
  have hphysical := LogicalLine.isPhysicalLine_of_mem hx
  obtain ⟨o, hoffset, ho, -⟩ := hphysical.advance_eq_ofOffset hk
  obtain ⟨hline, hcol, hstart⟩ := Place.mk.inj hplace
  cases hphysical with
  | @mk before raw rest htext hbefore hfeed hlast =>
    have hin : k ≤ (shown raw).length := hk.trans (length_body_le_shown hfeed)
    obtain rfl : before.length + k = o := Int.ofNat_inj.mp hoffset
    have hsnippet := snippet_eq hstart ho (lineAt_eq htext hbefore hfeed hlast hin)
    refine ⟨n, raw, k, caretsUnder (shown raw) k s, hn, ?_, ?_, one_le_caretsUnder _ _ _, ?_, fun hlt =>
      caretsUnder_eq_one hlt hin⟩
    · rw [hline, hnumber]
      omega
    · rw [hcol]
      show (1 : Int) + k = k + 1
      omega
    · generalize caretsUnder (shown raw) k s = carets at hsnippet ⊢
      have hmarks : ('\n' : CodePoint) ∉ List.replicate k (' ' : CodePoint) ++
          List.replicate carets ('^' : CodePoint) := by
        rw [List.mem_append, List.mem_replicate, List.mem_replicate]
        rintro (⟨-, heq⟩ | ⟨-, heq⟩) <;> exact absurd heq (by decide)
      have hcons : snippet text s = shown raw ++ ('\n' : CodePoint) ::
          (List.replicate k (' ' : CodePoint) ++ List.replicate carets ('^' : CodePoint)) := by
        rw [hsnippet, List.append_assoc, List.append_assoc]
        rfl
      rw [hcons, Text.splitAt_append_cons (not_mem_shown hfeed), TokenKind.splitAt_eq_singleton hmarks]

/-- Reports point at errors.  For the error of a table, in a dialect that a configuration makes, a report shows the physical
line that the error starts on, and under it, from the column where the error starts, one caret or more. -/
theorem snippet_of_parse_eq_error {d : Dialect} {settings : List (Text × Dialect.Datum)} {opcodes : List (Text × Text)}
    (hd : Dialect.configure settings opcodes = .ok d) {e : ParseError} (h : Table.parse d text = .error (.parse e)) :
    ∃ (n : Nat) (raw : Text) (blanks carets : Nat), (physicalLines text)[n]? = some raw ∧ e.span.line = n + 1 ∧
      e.span.col = blanks + 1 ∧ 1 ≤ carets ∧
      Text.splitAt '\n' (snippet text e.span) =
        [shown raw, List.replicate blanks (' ' : CodePoint) ++ List.replicate carets ('^' : CodePoint)] ∧
      ((shown raw).length < blanks + carets → carets = 1) :=
  snippet_of_touches (Table.touches_of_parse hd h)

end Report

/-- The dots are wrong, and they stand on the second line of a directive whose lines end in carriage returns as well. -/
def wrongDotsSource : Text := "always \\x0061 \\\r\n  q\r\nspace 0\n"

theorem snippet_of_parse_wrongDotsSource :
    ∃ d, Dialect.configure [] [] = .ok d ∧ ∃ e, Table.parse d wrongDotsSource = .error (.parse e) ∧
      Text.splitAt '\n' (Report.snippet wrongDotsSource e.span) = ["  q", "  ^"] := by
  have hrefused : ((Dialect.configure [] []).toOption.bind fun d =>
      (Expression.errorOf? (Table.parse d wrongDotsSource)).map fun e => (e.span.line, e.span.col)) = some (2, 3) := by
    decide +kernel
  obtain ⟨d, hd, herror⟩ := toOption_bind_eq_some hrefused
  obtain ⟨e, he, hplace⟩ := Option.map_eq_some_iff.mp herror
  obtain ⟨hline, hcol⟩ := Prod.mk.inj hplace
  have hparse : Table.parse d wrongDotsSource = .error (.parse e) := Expression.eq_of_errorOf?_eq_some he
  obtain ⟨n, raw, blanks, carets, hraw, hn, hblanks, hone, hrows, hunder⟩ := Report.snippet_of_parse_eq_error hd hparse
  obtain rfl : n = 1 := by omega
  obtain rfl : blanks = 2 := by omega
  obtain rfl : raw = Text.ofString "  q\r\n" := (Option.some.inj hraw).symm
  have hthree : (Report.shown (Text.ofString "  q\r\n")).length = 3 := by decide
  obtain rfl : carets = 1 := by omega
  exact ⟨d, hd, e, hparse, hrows⟩

end BrailleTable
