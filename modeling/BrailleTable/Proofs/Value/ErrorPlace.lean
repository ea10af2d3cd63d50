/-
Where the errors of values point.

The readers of values point at their token, or at a part of it.  There are two exceptions, and both reach behind the last
index of the token: an escape that lacks digits is pointed at as if it had them all, and a lone underscore is followed by
the name that a class reference lacks.
-/
import BrailleTable.Expression.Parser
import BrailleTable.Proofs.Result
import BrailleTable.Proofs.Token.Kind
import BrailleTable.Proofs.Value.CharClass
import BrailleTable.Proofs.Value.EscapeGrammar

namespace BrailleTable

namespace Token

/-- A range that is the token's own or starts at one of its indices. -/
def Encloses (t : Token) (s : Span) : Prop :=
  s = t.span ∨ ∃ i j, i ≤ t.text.length ∧ s = t.subSpan i j

/-- What an error of a token is about. -/
inductive Points (t : Token) : Span → Prop
  | whole : Points t t.span
  | part {i j : Nat} : i ≤ j → j ≤ t.text.length → Points t (t.subSpan i j)
  /-- An escape by number, as wide as it has to be. -/
  | escape {i width : Nat} {code : CodePoint} : t.text[i]? = some ('\\' : CodePoint) → t.text[i + 1]? = some code →
      Escape.hexWidth? code = some width → Points t (t.subSpan i (i + 2 + width))

/-- What an error of an operand is about.  The name of a class is looked for behind an underscore even where nothing is
left of the token. -/
def ErrsAt (t : Token) (s : Span) : Prop :=
  t.Points s ∨ t.kind = .word ∧ t.text = "_" ∧ s = t.subSpan 1 2

variable {t u : Token} {s : Span}

theorem Points.encloses (h : t.Points s) : t.Encloses s := by
  cases h with
  | whole => exact .inl rfl
  | @part i j hij hj => exact .inr ⟨i, j, by omega, rfl⟩
  | @escape i width code hslash _ _ =>
    obtain ⟨hi, -⟩ := List.getElem?_eq_some_iff.mp hslash
    exact .inr ⟨i, _, by omega, rfl⟩

theorem ErrsAt.encloses (h : t.ErrsAt s) : t.Encloses s := by
  rcases h with h | ⟨-, htext, rfl⟩
  · exact h.encloses
  · exact .inr ⟨1, 2, by rw [htext]; decide, rfl⟩

theorem subSpan_of_quoted (h : t.kind = .quoted) (i j : Nat) : t.subSpan i j = t.span := by
  unfold subSpan
  split
  · rfl
  · rw [if_pos h]

theorem subSpan_of_source_eq_none (h : t.source = none) (i j : Nat) : t.subSpan i j = t.span := by
  simp [subSpan, h]

theorem subSpan_of_source_eq_some {line : LogicalLine} (h : t.source = some line) (hkind : t.kind ≠ .quoted) (i j : Nat) :
    t.subSpan i j = line.span (t.start + i : Nat) (t.start + j : Nat) := by
  simp [subSpan, h, hkind]

/-- What is left of a token behind its first code point, as a token of its own. -/
structure IsTail (u t : Token) : Prop where
  length_pos : 1 ≤ t.text.length
  text_eq : u.text = t.text.drop 1
  start_eq : u.start = t.start + 1
  source_eq : u.source = t.source
  kind_ne : t.kind ≠ .quoted
  tail_kind_ne : u.kind ≠ .quoted
  span : t.Points u.span

/-- An error about the rest of a token is an error about the token. -/
theorem IsTail.points (h : u.IsTail t) (hs : u.Points s) : t.Points s := by
  have hlength : u.text.length = t.text.length - 1 := by
    rw [h.text_eq, List.length_drop]
  have hget : ∀ i : Nat, u.text[i]? = t.text[i + 1]? := by
    intro i
    rw [h.text_eq, List.getElem?_drop, Nat.add_comm]
  have hspan : ∀ i j : Nat, u.subSpan i j = u.span ∨ u.subSpan i j = t.subSpan (i + 1) (j + 1) := by
    intro i j
    cases hsource : t.source with
    | none => exact .inl (subSpan_of_source_eq_none (h.source_eq.trans hsource) i j)
    | some line =>
      right
      rw [subSpan_of_source_eq_some (h.source_eq.trans hsource) h.tail_kind_ne,
        subSpan_of_source_eq_some hsource h.kind_ne, h.start_eq, Nat.add_assoc, Nat.add_assoc, Nat.add_comm 1 i,
        Nat.add_comm 1 j]
  have hpos := h.length_pos
  cases hs with
  | whole => exact h.span
  | @part i j hij hj =>
    rcases hspan i j with heq | heq
    · rw [heq]
      exact h.span
    · rw [heq]
      exact .part (by omega) (by omega)
  | @escape i width code hslash hcode hwidth =>
    rcases hspan i (i + 2 + width) with heq | heq
    · rw [heq]
      exact h.span
    · rw [heq, show i + 2 + width + 1 = i + 1 + 2 + width by omega]
      exact .escape (by rw [← hget, hslash]) (by rw [← hget, hcode]) hwidth

end Token

namespace Value

open Escape (Decoded refuse)

variable {t : Token} {e : ParseError}

theorem span_refuse {i j : Nat} {what : Text} {labels : List Text} (hne : t.text ≠ []) :
    (refuse t i j what labels).span = t.subSpan i j := if_neg hne

theorem points_refuse {i j : Nat} {what : Text} {labels : List Text}
    (h : t.text = [] ∨ i ≤ j ∧ j ≤ t.text.length) : t.Points (refuse t i j what labels).span := by
  by_cases hnil : t.text = []
  · have hspan : (refuse t i j what labels).span = t.span := if_pos hnil
    rw [hspan]
    exact .whole
  · rw [span_refuse hnil]
    obtain ⟨hij, hj⟩ := h.resolve_left hnil
    exact .part hij hj

theorem points_of_requireKind {kinds report : List TokenKind} {what : Text}
    (h : requireKind t kinds report what = .error e) : t.Points e.span := by
  unfold requireKind at h
  split at h
  · cases h
  · cases h
    exact .whole

/-! ## Names -/

theorem points_of_checkName {i : Nat} {name nameChar : Text} (hi : t.text = [] ∨ i < t.text.length)
    (h : checkName t i name nameChar = .error e) : t.Points e.span := by
  have hfirst : ∀ what labels, t.Points (refuse t i (i + 1) what labels).span := fun what labels =>
    points_refuse (hi.imp_right fun hlt => by omega)
  unfold checkName at h
  split at h
  · cases h
    exact hfirst _ _
  · rename_i c rest hdrop
    have hlength : rest.length + 1 = t.text.length - i := by
      rw [← List.length_drop, hdrop, List.length_cons]
    have htake : (rest.takeWhile isNameChar).length ≤ rest.length :=
      (List.takeWhile_prefix _).length_le
    split at h
    · cases h
      exact hfirst _ _
    · dsimp only at h
      split at h
      · cases h
      · cases h
        exact points_refuse (.inr (by omega))

theorem points_of_nameOf (h : nameOf t = .error e) : t.Points e.span := by
  rcases bind_eq_error h with h | ⟨-, -, h⟩
  · exact points_of_requireKind h
  · rcases bind_eq_error h with h | ⟨-, -, h⟩
    · refine points_of_checkName ?_ h
      cases t.text with
      | nil => exact .inl rfl
      | cons c rest => exact .inr (Nat.succ_pos _)
    · cases h

theorem points_of_readName (h : readName t = .error e) : t.Points e.span := points_of_nameOf (map_eq_error h)

theorem errsAt_of_classNameOf (h : classNameOf t = .error e) : t.ErrsAt e.span := by
  rcases bind_eq_error h with h | ⟨_, hkind, h⟩
  · exact .inl (points_of_requireKind h)
  · replace hkind : t.kind = .word := by
      unfold requireKind at hkind
      split at hkind
      · rename_i hmem
        exact List.mem_singleton.mp hmem
      · cases hkind
    split at h
    · cases h
      refine .inl (points_refuse ?_)
      cases t.text with
      | nil => exact .inl rfl
      | cons c rest => exact .inr ⟨Nat.zero_le _, Nat.succ_le_succ (Nat.zero_le _)⟩
    · rename_i hhead
      obtain ⟨rest, htext⟩ := List.head?_eq_some_iff.mp (Classical.not_not.mp hhead)
      rcases bind_eq_error h with h | ⟨-, -, h⟩
      · cases rest with
        | nil =>
          have hspan : e.span = t.subSpan 1 2 := by
            have hdrop : t.text.drop 1 = [] := by rw [htext]; rfl
            unfold checkName at h
            rw [hdrop] at h
            cases h
            exact span_refuse (by rw [htext]; exact List.cons_ne_nil _ _)
          exact .inr ⟨hkind, htext, hspan⟩
        | cons c rest =>
          refine .inl (points_of_checkName (.inr ?_) h)
          rw [htext]
          exact Nat.succ_lt_succ (Nat.succ_pos _)
      · cases h

/-! ## Numbers, strings and file names -/

theorem points_of_readNumber (h : readNumber t = .error (.parse e)) : t.Points e.span := by
  unfold readNumber at h
  split at h
  · rename_i hkind
    cases h
    exact points_of_requireKind hkind
  · split at h <;> cases h

theorem points_of_readString (h : readString t = .error e) : t.Points e.span := by
  rcases bind_eq_error h with h | ⟨-, -, h⟩
  · exact points_of_requireKind h
  · cases h

theorem points_of_readFilename (h : readFilename t = .error e) : t.Points e.span := by
  rcases bind_eq_error h with h | ⟨-, -, h⟩
  · exact points_of_requireKind h
  · cases h

/-! ## Characters -/

/-- Elements that lie in a token one after the other, from the index `i` on. -/
def InToken (t : Token) (i : Nat) : List Decoded → Prop
  | [] => True
  | d :: rest => i ≤ d.start ∧ d.start < d.stop ∧ d.stop ≤ t.text.length ∧ InToken t d.stop rest

/-- What decoding gives from the index `i` on: elements of the token, or an error about it. -/
def DecodesFrom (t : Token) (i : Nat) : Except ParseError (List Decoded) → Prop
  | .ok ds => InToken t i ds
  | .error e => t.Points e.span

theorem DecodesFrom.cons {r : Except ParseError (List Decoded)} {i j : Nat} (h : DecodesFrom t j r) (hij : i < j)
    (hj : j ≤ t.text.length) (c : CodePoint) : DecodesFrom t i (r.map (⟨c, i, j⟩ :: ·)) := by
  cases r with
  | ok ds => exact ⟨Nat.le_refl i, hij, hj, h⟩
  | error e => exact h

theorem decodesFrom_decodeFrom (extra : Text) {i : Nat} {s : Text} (hdrop : t.text.drop i = s) :
    DecodesFrom t i (Escape.decodeFrom t extra i s) := by
  have hlength : s.length = t.text.length - i := by
    rw [← hdrop, List.length_drop]
  have hdecoding := Escape.decoding extra s
  induction hdecoding generalizing i with
  | nil =>
    rw [Escape.decodeFrom]
    trivial
  | @spelling c w rest hspells hdecode _ ih =>
    have hpos := List.length_pos_of_ne_nil hspells.ne_nil
    have hrest : t.text.drop (i + w.length) = rest := by
      rw [← List.drop_drop, hdrop, List.drop_left]
    rw [List.length_append] at hlength
    rw [hdecode]
    exact (ih hrest (by omega)).cons (by omega) (by omega) c
  | @refusal s n what hn hrefused =>
    rw [hrefused]
    rcases hn with ⟨hpos, hn⟩ | ⟨code, rest, width, rfl, hwidth, rfl⟩
    · exact points_refuse (.inr ⟨Nat.le_add_right i n, by omega⟩)
    · -- the range is computed from the width, whether the digits are there or not
      have hne : t.text ≠ [] := fun hnil => by rw [hnil, List.drop_nil] at hdrop; cases hdrop
      have hget : ∀ k : Nat, t.text[i + k]? = (('\\' : CodePoint) :: code :: rest)[k]? := fun k => by
        rw [← hdrop, List.getElem?_drop]
      rw [← Nat.add_assoc]
      show t.Points (refuse t i (i + 2 + width) what []).span
      rw [span_refuse hne]
      exact .escape (hget 0) (hget 1) hwidth

theorem points_of_decode {extra : Text} (h : Escape.decode t extra = .error e) : t.Points e.span := by
  have hdecodes := decodesFrom_decodeFrom extra (List.drop_zero (l := t.text))
  unfold Escape.decode at h
  split at h
  · cases h
  · rwa [h] at hdecodes

theorem inToken_of_decode {extra : Text} {ds : List Decoded} (hkind : t.kind ≠ .quoted)
    (h : Escape.decode t extra = .ok ds) : InToken t 0 ds := by
  have hdecodes := decodesFrom_decodeFrom extra (List.drop_zero (l := t.text))
  unfold Escape.decode at h
  rw [if_neg hkind] at h
  rwa [h] at hdecodes

theorem points_of_readCharacters (h : readCharacters t = .error e) : t.Points e.span := by
  rcases bind_eq_error h with h | ⟨ds, -, h⟩
  · exact points_of_decode h
  · split at h
    · cases h
      exact points_refuse (.inr ⟨Nat.le_refl 0, Nat.zero_le _⟩)
    · cases h

theorem points_of_readCharacter (h : readCharacter t = .error e) : t.Points e.span := by
  rcases bind_eq_error h with h | ⟨ds, hds, h⟩
  · exact points_of_decode h
  · split at h
    · cases h
      exact points_refuse (.inr ⟨Nat.le_refl 0, Nat.zero_le _⟩)
    · cases h
    · rename_i c d more
      cases h
      show t.Points (t.subSpan d.start t.text.length)
      by_cases hkind : t.kind = .quoted
      · -- the elements of a quoted string are placed at the whole token
        unfold Escape.decode at hds
        rw [if_pos hkind] at hds
        have hmem : d ∈ t.value.map fun c => (⟨c, 0, t.text.length⟩ : Decoded) := by
          rw [Except.ok.inj hds]
          simp
        obtain ⟨b, -, rfl⟩ := List.mem_map.mp hmem
        exact .part (Nat.zero_le _) (Nat.le_refl _)
      · obtain ⟨-, -, -, -, hlt, hle, -⟩ := inToken_of_decode hkind hds
        exact .part (by omega) (Nat.le_refl _)

/-! ## Character classes -/

theorem points_of_guardBracket {body : Token} {d : Decoded} (hlt : d.start < d.stop) (hle : d.stop ≤ body.text.length)
    (h : readItems.guardBracket body d = .error e) : body.Points e.span := by
  unfold readItems.guardBracket at h
  split at h
  · cases h
    exact points_refuse (.inr ⟨Nat.le_of_lt hlt, hle⟩)
  · cases h

theorem points_of_readItems {whole body : Token} {i : Nat} {ds : List Decoded} (hds : InToken body i ds)
    (h : readItems whole body ds = .error e) : body.Points e.span := by
  have hreading := reading whole body ds
  induction hreading generalizing i with
  | nil => cases h
  | single _ _ hread _ ih =>
    obtain ⟨-, -, -, hrest⟩ := hds
    rw [hread] at h
    exact ih hrest (map_eq_error h)
  | range _ _ _ hread _ ih =>
    obtain ⟨-, -, -, -, -, -, -, -, -, hrest⟩ := hds
    rw [hread] at h
    exact ih hrest (map_eq_error h)
  | bracket hbracket hread =>
    obtain ⟨-, hlt, hle, -⟩ := hds
    rw [hread] at h
    cases h
    exact points_of_guardBracket hlt hle hbracket
  | descending _ _ hread =>
    obtain ⟨-, ha, -, hdash, hdash', -, hb, hb', hle, -⟩ := hds
    rw [hread] at h
    cases h
    exact .part (by omega) hle

theorem InToken.dropLast {i : Nat} {ds : List Decoded} (h : InToken t i ds) : InToken t i ds.dropLast := by
  induction ds generalizing i with
  | nil => trivial
  | cons d rest ih =>
    cases rest with
    | nil => trivial
    | cons d' rest =>
      obtain ⟨hi, hlt, hle, hrest⟩ := h
      exact ⟨hi, hlt, hle, ih hrest⟩

theorem points_of_readClass (h : readClass t = .error e) : t.Points e.span := by
  rcases bind_eq_error h with h | ⟨_, hkind, h⟩
  · exact points_of_requireKind h
  have hquoted : t.kind ≠ .quoted := by
    intro heq
    unfold requireKind at hkind
    rw [heq] at hkind
    cases hkind
  split at h
  · rename_i hnil
    cases h
    exact points_refuse (.inl hnil)
  rename_i c inner htext
  have hlength : t.text.length = inner.length + 1 := by
    rw [htext, List.length_cons]
  split at h
  · cases h
    exact points_refuse (.inr (by omega))
  have htail : ({ t with text := inner, value := inner, start := t.start + 1 } : Token).IsTail t :=
    ⟨by omega, by rw [htext]; rfl, rfl, rfl, hquoted, hquoted, .whole⟩
  rcases bind_eq_error h with h | ⟨elements, helements, h⟩
  · exact htail.points (points_of_decode h)
  have hin := inToken_of_decode htail.tail_kind_ne helements
  split at h
  · cases h
    exact points_refuse (.inr ⟨Nat.le_refl _, Nat.le_refl _⟩)
  rename_i last _
  split at h
  · cases h
    exact points_refuse (.inr ⟨Nat.le_refl _, Nat.le_refl _⟩)
  rename_i hlast
  split at h
  · cases h
    -- the closing bracket stands behind the opening one
    have hne : inner ≠ [] := by
      intro hnil
      apply hlast
      subst hnil
      simp [Text.slice, Text.ofString]
    have hpos := List.length_pos_iff.mpr hne
    exact points_refuse (.inr (by omega))
  · rcases bind_eq_error h with h | ⟨_, -, h⟩
    · exact htail.points (points_of_readItems hin.dropLast h)
    · cases h

/-! ## Dots -/

theorem points_of_readCells {alphabet : Text} {i cellStart : Nat} {cell : List Int} {s : Text}
    (hi : i + s.length = t.text.length)
    (h : readCells alphabet t i cellStart cell s = .error e) : t.Points e.span := by
  induction s generalizing i cellStart cell with
  | nil =>
    rw [readCells] at h
    split at h
    · cases h
      exact points_refuse (.inr ⟨Nat.le_refl _, Nat.le_refl _⟩)
    · cases h
  | cons c rest ih =>
    rw [List.length_cons] at hi
    rw [readCells] at h
    split at h
    · split at h
      · cases h
        exact points_refuse (.inr (by omega))
      · exact ih (by omega) (map_eq_error h)
    · split at h
      · cases h
        exact points_refuse (.inr (by omega))
      · dsimp only at h
        split at h
        · cases h
          exact .part (by omega) (by omega)
        · exact ih (by omega) h

theorem points_of_readDots {alphabet : Text} (h : readDots alphabet t = .error e) : t.Points e.span := by
  rcases bind_eq_error h with h | ⟨_, -, h⟩
  · exact points_of_requireKind h
  · rcases bind_eq_error h with h | ⟨_, -, h⟩
    · exact points_of_readCells (Nat.zero_add _) h
    · cases h

end Value

/-! ## Slots -/

theorem eq_error_of_mapError {α : Type} {x : Except ParseError α} {e : ParseError}
    (h : x.mapError Failure.parse = .error (.parse e)) : x = .error e := by
  obtain ⟨e', he', heq⟩ := mapError_eq_error h
  cases heq
  exact he'

namespace SlotKind

variable {t : Token} {alphabet : Text}

theorem points_of_read {kind : SlotKind} {e : ParseError} (h : kind.read alphabet t = .error (.parse e)) :
    t.Points e.span := by
  cases kind with
  | dots => exact Value.points_of_readDots (eq_error_of_mapError h)
  | character => exact Value.points_of_readCharacter (eq_error_of_mapError h)
  | characters => exact Value.points_of_readCharacters (eq_error_of_mapError h)
  | charClass => exact Value.points_of_readClass (eq_error_of_mapError h)
  | number => exact Value.points_of_readNumber h
  | name => exact Value.points_of_readName (eq_error_of_mapError h)
  | filename => exact Value.points_of_readFilename (eq_error_of_mapError h)
  | string => exact Value.points_of_readString (eq_error_of_mapError h)

/-- Of two refusals the further one is about what one of them is about. -/
theorem span_further (best : Option ParseError) (e : ParseError) :
    (further best e).span = e.span ∨ ∃ b ∈ best, (further best e).span = b.span := by
  cases best with
  | none => exact .inl rfl
  | some b =>
    by_cases hlt : b.span.start < e.span.start
    · left
      simp only [further, if_pos hlt]
    · right
      refine ⟨b, rfl, ?_⟩
      simp only [further, if_neg hlt]
      split <;> rfl

theorem points_of_chooseAfter {kinds : List SlotKind} {best : Option ParseError} {e : ParseError}
    (hbest : ∀ b ∈ best, t.Points b.span) (h : chooseAfter alphabet t best kinds = .error (.parse e)) :
    t.Points e.span := by
  induction kinds generalizing best with
  | nil =>
    cases best with
    | none => cases h
    | some b =>
      cases h
      exact hbest _ rfl
  | cons kind rest ih =>
    rw [chooseAfter] at h
    split at h
    · cases h
    · rename_i e' hread
      refine ih (fun b hb => ?_) h
      cases hb
      rcases span_further best e' with heq | ⟨b, hb, heq⟩
      · rw [heq]
        exact points_of_read hread
      · rw [heq]
        exact hbest b hb
    · rename_i f hne hread
      cases h
      exact points_of_read hread

theorem points_of_choose {kinds : List SlotKind} {e : ParseError}
    (h : choose alphabet kinds t = .error (.parse e)) : t.Points e.span :=
  points_of_chooseAfter (fun b hb => by cases hb) h

end SlotKind

/-! ## Operands -/

namespace Expression

variable {d : Dialect} {t : Token}

theorem isTail_subtoken (hkind : t.kind ≠ .quoted) (hlength : 1 ≤ t.text.length) : (subtoken t 1).IsTail t where
  length_pos := hlength
  text_eq := rfl
  start_eq := rfl
  source_eq := rfl
  kind_ne := hkind
  tail_kind_ne := TokenKind.ofText_ne_quoted _
  span := .part hlength (Nat.le_refl _)

/-- The error of an operand is about its token. -/
theorem errsAt_of_operandOf? {f : Failure} {e : ParseError}
    (h : operandOf? d t = some (.error f)) (hf : f = .parse e) : t.ErrsAt e.span := by
  unfold operandOf? at h
  split at h
  · obtain ⟨err, herr, rfl⟩ := mapError_eq_error (Option.some.inj h)
    cases hf
    exact Value.errsAt_of_classNameOf (map_eq_error herr)
  · left
    split at h
    · have herr := map_eq_error (Option.some.inj h)
      rw [hf] at herr
      exact Value.points_of_readNumber herr
    · split at h
      · obtain ⟨err, herr, rfl⟩ := mapError_eq_error (Option.some.inj h)
        cases hf
        exact Value.points_of_readString (map_eq_error herr)
      · rename_i hquoted
        split at h
        · rename_i hat
          obtain ⟨rest, htext⟩ := List.head?_eq_some_iff.mp hat
          have hlength : 1 ≤ t.text.length := by
            rw [htext, List.length_cons]
            omega
          split at h
          · cases h
            cases hf
            exact .part (Nat.le_refl 1) hlength
          · obtain ⟨err, herr, rfl⟩ := mapError_eq_error (Option.some.inj h)
            cases hf
            exact (isTail_subtoken hquoted hlength).points (Value.points_of_readDots (map_eq_error herr))
        · cases h

end Expression
end BrailleTable
