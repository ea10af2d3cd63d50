/-
A line by itself and the table that has only this line.

The two take the ending off a physical line in their own ways, and only a table looks for a continuation marker.  Where no
marker is found they give the lexer the same line at the same place.
-/
import BrailleTable.Proofs.Table.Append

namespace BrailleTable

namespace Text

theorem trimEnd_congr {p q : CodePoint → Bool} {t : Text} (h : ∀ c ∈ t, p c = q c) : trimEnd p t = trimEnd q t := by
  induction t with
  | nil => rfl
  | cons c rest ih =>
    rw [trimEnd, trimEnd, ih fun b hb => h b (List.mem_cons_of_mem c hb), h c List.mem_cons_self]

end Text

/-- A text without a line feed before its end is a single physical line. -/
theorem physicalLines_eq_singleton {text : Text} (hne : text ≠ []) (hfeed : ('\n' : CodePoint) ∉ text.dropLast) :
    physicalLines text = [text] := by
  cases hlines : physicalLines text with
  | nil => exact absurd (physicalLines_eq_nil hlines) hne
  | cons raw raws =>
    obtain ⟨rest, rfl, hrest, -, hlast⟩ := physicalLines_eq_cons hlines
    have hnil : rest = [] := by
      by_contra hmore
      have hlast := hlast.resolve_left hmore
      rw [List.dropLast_append_of_ne_nil hmore] at hfeed
      exact hfeed (List.mem_append_left _ (List.mem_of_getLast? hlast))
    subst hnil
    rw [List.append_nil, ← hrest]
    rfl

namespace LogicalLine

variable {raw : Text}

/-- The part of a physical line that a line feed may follow. -/
def beforeFeed (raw : Text) : Text := if raw.getLast? = some ('\n' : CodePoint) then raw.dropLast else raw

theorem not_mem_beforeFeed (h : ('\n' : CodePoint) ∉ raw.dropLast) : ('\n' : CodePoint) ∉ beforeFeed raw := by
  unfold beforeFeed
  split
  · exact h
  · rename_i hlast
    exact not_mem_of_getLast?_ne h hlast

/-- Without its line feed, a physical line ends in nothing but carriage returns behind its body. -/
theorem body_eq_trimEnd (h : ('\n' : CodePoint) ∉ raw.dropLast) :
    body raw = Text.trimEnd (fun c => c = '\r') (beforeFeed raw) := by
  by_cases hlast : raw.getLast? = some ('\n' : CodePoint)
  · have hraw : raw = raw.dropLast ++ "\n" := (List.dropLast_append_getLast? _ hlast).symm
    have hcut : beforeFeed raw = raw.dropLast := if_pos hlast
    rw [hcut]
    calc
      body raw = body (raw.dropLast ++ "\n") := by rw [← hraw]
      _ = Text.trimEnd (fun c => c = '\r' || c = '\n') raw.dropLast := body_append_feed _
      _ = Text.trimEnd (fun c => c = '\r') raw.dropLast := by
        refine Text.trimEnd_congr fun c hc => ?_
        have hne : c ≠ '\n' := fun heq => h (heq ▸ hc)
        rw [decide_eq_false hne, Bool.or_false]
  · unfold body beforeFeed
    rw [if_neg hlast, if_neg hlast]

end LogicalLine

namespace Table

variable {d : Dialect} {text : Text}

theorem parseLine_eq_readAlone (h : ('\n' : CodePoint) ∉ text.dropLast) (n : Int) :
    parseLine d text n = readAlone d (.single (LogicalLine.body text) ⟨n, 1, 0⟩) := by
  have hfeed := LogicalLine.not_mem_beforeFeed h
  rw [LogicalLine.body_eq_trimEnd h]
  unfold parseLine
  exact if_neg hfeed

theorem joined_singleton (hne : text ≠ []) (hfeed : ('\n' : CodePoint) ∉ text.dropLast)
    (h : LogicalLine.isContinued d.continuationMarker [d.commentChar] text = false) :
    joined d text = ⟨[.single (LogicalLine.body text) ⟨1, 1, 0⟩], none⟩ := by
  have hcont : ¬ LogicalLine.isContinued d.continuationMarker [d.commentChar] text = true := by
    rw [h]
    exact Bool.false_ne_true
  have hkept : LogicalLine.kept d.continuationMarker [d.commentChar] text = LogicalLine.body text := if_neg hcont
  unfold joined LogicalLine.join
  rw [physicalLines_eq_singleton hne hfeed, LogicalLine.joinFrom_of_not_isContinued hcont, hkept]
  rfl

/-- A line that ends in no continuation marker, or is a comment, is read by itself as it is read as a table.  The table has
no directive if the line has none, and otherwise this one; and what is wrong with the line is wrong with the table. -/
theorem parse_eq_parseLine (hfeed : ('\n' : CodePoint) ∉ text.dropLast)
    (h : LogicalLine.isContinued d.continuationMarker [d.commentChar] text = false) :
    parse d text = (parseLine d text 1).map fun r => ⟨r.toList⟩ := by
  by_cases hne : text = []
  · subst hne
    rfl
  · have hserves : Serves (.ofDialect d) d := rfl
    rw [parseLine_eq_readAlone hfeed, parse_eq, joined_singleton hne hfeed h, readLines_cons hserves]
    cases readAlone d (.single (LogicalLine.body text) ⟨1, 1, 0⟩) with
    | error f => rfl
    | ok r => exact congrArg (fun rs => Except.ok (Table.mk rs)) (List.append_nil r.toList)

end Table

/-- A line with two carriage returns before its line feed and an escaped backslash before them. -/
def returnedLine : Text := "always \\x0061 1 # \\\\\r\r\n"

theorem parse_eq_parseLine_returnedLine :
    ('\n' : CodePoint) ∉ returnedLine.dropLast ∧ LogicalLine.isContinued "\\" "#" returnedLine = false ∧
      (Table.parseLine .standard returnedLine 1).isOk = true ∧
      Table.parse .standard returnedLine = (Table.parseLine .standard returnedLine 1).map fun r => ⟨r.toList⟩ := by
  have hfeed : ('\n' : CodePoint) ∉ returnedLine.dropLast := by decide
  have hcont : LogicalLine.isContinued "\\" "#" returnedLine = false := by decide +kernel
  exact ⟨hfeed, hcont, by decide +kernel, Table.parse_eq_parseLine hfeed hcont⟩

end BrailleTable
