/-
Classes that are no texts.

A class that cannot be read as a text has an escape in it that only classes know: of a bracket or a dash.  What is
escaped so is an end of one of the ranges, and is written with the same escape again; so the class is not taken for a
text when it is read back.
-/
import BrailleTable.Proofs.Directive.Arguments
import BrailleTable.Proofs.Value.EscapeGrammar

namespace BrailleTable

namespace Token

theorem IsPlain.ne_quoted {w : Text} {t : Token} (h : t.IsPlain w) : t.kind ≠ .quoted := by
  rw [h.kind_eq]
  exact TokenKind.ofText_ne_quoted w

end Token

/-! ## Escapes of classes -/

namespace Escape

variable {t u : Token} {extra : Text}

theorem decodeFrom_ne_nil {i : Nat} {c : CodePoint} {rest : Text} {ds : List Decoded}
    (h : decodeFrom t extra i (c :: rest) = .ok ds) : ds ≠ [] := by
  obtain ⟨us, htext, rfl, -⟩ := exists_spells_of_decodeFrom h
  cases us with
  | nil => cases htext
  | cons u us => exact List.cons_ne_nil _ _

/-- A spelling needs no escapes but the usual ones, or is one of the further ones. -/
theorem Spells.usual_or_escaped {c : CodePoint} {w : Text} (h : Spells extra c w) :
    Spells [] c w ∨ c ∈ extra ∧ w = [('\\' : CodePoint), c] := by
  cases h with
  | plain hc => exact .inl (.plain hc)
  | letter hcode => exact .inl (.letter hcode)
  | escaped hc => exact .inr ⟨hc, rfl⟩
  | number hcode hnumber => exact .inl (.number hcode hnumber)

/-- Each spelling is found in the text where what it stands for was decoded. -/
theorem exists_mem_layout {i : Nat} {us : List (CodePoint × Text)} (hus : Value.LaidOut t i us) {v : CodePoint × Text}
    (hv : v ∈ us) : ∃ d ∈ layout i us, d.char = v.1 ∧ t.text.slice d.start d.stop = v.2 := by
  induction us generalizing i with
  | nil => exact absurd hv List.not_mem_nil
  | cons u us ih =>
    rcases List.mem_cons.mp hv with rfl | hv
    · exact ⟨_, List.mem_cons_self, rfl, hus.raw⟩
    · obtain ⟨d, hd, hfound⟩ := ih hus.tail hv
      exact ⟨d, List.mem_cons_of_mem _ hd, hfound⟩

/-- What decodes with more escapes than usual decodes without them, or makes use of one. -/
theorem exists_decodeFrom_or_escaped {i j : Nat} {s : Text} {ds : List Decoded} (hdrop : t.text.drop i = s)
    (h : decodeFrom t extra i s = .ok ds) :
    (∃ ds', decodeFrom u [] j s = .ok ds') ∨
      ∃ d ∈ ds, d.char ∈ extra ∧ t.text.slice d.start d.stop = [('\\' : CodePoint), d.char] := by
  obtain ⟨us, rfl, rfl, hspells⟩ := exists_spells_of_decodeFrom h
  by_cases husual : ∀ v ∈ us, Spells [] v.1 v.2
  · have hharmless : IsHarmless [] := fun c hc => absurd hc List.not_mem_nil
    exact .inl ⟨_, decodeFrom_flatMap (fun v hv => (husual v hv).decodes hharmless) j⟩
  · obtain ⟨v, hv, hunusual⟩ : ∃ v ∈ us, ¬ Spells [] v.1 v.2 := by simpa using husual
    obtain ⟨hextra, hspelling⟩ := (hspells v hv).usual_or_escaped.resolve_left hunusual
    have hlaid : Value.LaidOut t i us := ⟨[], hdrop.trans (List.append_nil _).symm⟩
    obtain ⟨d, hd, hchar, hslice⟩ := exists_mem_layout hlaid hv
    rw [← hchar] at hextra hspelling
    exact .inr ⟨d, hd, hextra, hslice.trans hspelling⟩

/-- The escape of a bracket or a dash, which only classes know. -/
def IsClassEscape (w : Text) : Prop := ∃ c ∈ Text.ofString "]-[", w = [('\\' : CodePoint), c]

theorem IsClassEscape.decodeFrom_ne_ok {w rest : Text} (h : IsClassEscape w) {i : Nat} {ds : List Decoded} :
    decodeFrom t [] i (w ++ rest) ≠ .ok ds := by
  have hunknown : ∀ c ∈ Text.ofString "]-[", ofCode? c = none ∧ hexWidth? c = none := by decide
  obtain ⟨c, hc, rfl⟩ := h
  obtain ⟨hcode, hwidth⟩ := hunknown c hc
  intro hok
  rw [List.cons_append, List.singleton_append, decodeFrom, if_neg (fun hne => hne rfl), hcode] at hok
  simp only [if_neg List.not_mem_nil, hwidth] at hok
  cases hok

theorem decodeFrom_flatMap_ne_ok {us : List (CodePoint × Text)} {rest : Text}
    (h : ∀ u ∈ us, Decodes t [] u.1 u.2 ∨ IsClassEscape u.2) (hmem : ∃ u ∈ us, IsClassEscape u.2) {i : Nat}
    {ds : List Decoded} : decodeFrom t [] i (us.flatMap Prod.snd ++ rest) ≠ .ok ds := by
  induction us generalizing i ds with
  | nil =>
    obtain ⟨u, hu, -⟩ := hmem
    exact absurd hu List.not_mem_nil
  | cons u us ih =>
    rw [List.flatMap_cons, List.append_assoc]
    by_cases hescape : IsClassEscape u.2
    · exact hescape.decodeFrom_ne_ok
    · intro hok
      rw [(h u List.mem_cons_self).resolve_right hescape] at hok
      obtain ⟨more, hmore, -⟩ := map_eq_ok hok
      obtain ⟨v, hv, hlater⟩ := hmem
      rcases List.mem_cons.mp hv with rfl | hv
      · exact hescape hlater
      · exact ih (fun v hv => h v (List.mem_cons_of_mem u hv)) ⟨v, hv, hlater⟩ hmore

end Escape

/-! ## Classes that are no texts -/

namespace Value

open Escape (Decoded Decodes IsClassEscape decode decodeFrom)

variable {t : Token} {v : Value Span}

/-- Every element of a class but the dashes of ranges is an end of one of its ranges. -/
theorem exists_of_mem_readItems {whole body : Token} {ds : List Decoded} {ranges : List (Text × Text)}
    (h : readItems whole body ds = .ok ranges) {d : Decoded} (hd : d ∈ ds) (hraw : readItems.raw body d ≠ "-") :
    ∃ range ∈ ranges, range.1 = [d.char] ∨ range.2 = [d.char] := by
  have hlater : ∀ {first : Text × Text} {more : List (Text × Text)},
      (∃ range ∈ more, range.1 = [d.char] ∨ range.2 = [d.char]) →
        ∃ range ∈ first :: more, range.1 = [d.char] ∨ range.2 = [d.char] := by
    rintro first more ⟨range, hrange, hends⟩
    exact ⟨range, List.mem_cons_of_mem first hrange, hends⟩
  have hreading := reading whole body ds
  induction hreading generalizing ranges with
  | nil => exact absurd hd List.not_mem_nil
  | @single a ds _ _ hread _ ih =>
    rw [hread] at h
    obtain ⟨more, hmore, rfl⟩ := map_eq_ok h
    rcases List.mem_cons.mp hd with rfl | hd
    · exact ⟨_, List.mem_cons_self, .inl rfl⟩
    · exact hlater (ih hmore hd)
  | @range a dash b ds _ hdash _ hread _ ih =>
    rw [hread] at h
    obtain ⟨more, hmore, rfl⟩ := map_eq_ok h
    simp only [List.mem_cons] at hd
    rcases hd with rfl | rfl | rfl | hd
    · exact ⟨_, List.mem_cons_self, .inl rfl⟩
    · exact absurd hdash hraw
    · exact ⟨_, List.mem_cons_self, .inr rfl⟩
    · exact hlater (ih hmore hd)
  | bracket _ hread =>
    rw [hread] at h
    cases h
  | descending _ _ hread =>
    rw [hread] at h
    cases h

theorem isClassEscape_boundText {c : CodePoint} (hc : c ∈ Text.ofString "]-[") : IsClassEscape (boundText c) := by
  have hcodes : ∀ c ∈ Text.ofString "]-[", Escape.codeOf? c = none := by decide
  have hescaped : c ∈ classCare.escaped := hc
  refine ⟨c, hc, ?_⟩
  unfold boundText Escape.encodeOne
  rw [hcodes c hc]
  dsimp only
  rw [if_pos hescaped]

/-- A bound of a class is written as in a text, or with an escape of classes. -/
theorem decodes_boundText_or (t : Token) (c : CodePoint) :
    Decodes t [] c (boundText c) ∨ IsClassEscape (boundText c) := by
  by_cases hc : c ∈ Text.ofString "]-["
  · exact .inr (isClassEscape_boundText hc)
  · have hcare : Escape.Care.Fits ⟨[], [], []⟩ [] := ⟨by decide, by decide⟩
    refine .inl ?_
    have hescaped : c ∉ classCare.escaped := hc
    have heq : boundText c = Escape.encodeOne ⟨[], [], []⟩ true c := by
      unfold boundText Escape.encodeOne
      cases Escape.codeOf? c with
      | some code => rfl
      | none =>
        dsimp only
        rw [if_neg hescaped, if_neg List.not_mem_nil]
        rfl
    rw [heq]
    exact Escape.decodeFrom_encodeOne hcare true c

theorem decodeFrom_rangesText_ne_ok {pairs : List (CodePoint × CodePoint)} {c : CodePoint}
    (hc : c ∈ Text.ofString "]-[") (hends : ∃ p ∈ pairs, p.1 = c ∨ p.2 = c) {i : Nat} {rest : Text}
    {ds : List Decoded} : decodeFrom t [] i (rangesText pairs ++ rest) ≠ .ok ds := by
  refine Escape.decodeFrom_flatMap_ne_ok (fun u hu => ?_) ?_
  · obtain ⟨p, -, hu⟩ := List.mem_flatMap.mp hu
    unfold unitsOf at hu
    split at hu
    · rw [List.mem_singleton.mp hu]
      exact decodes_boundText_or t _
    · simp only [List.mem_cons, List.not_mem_nil, or_false] at hu
      rcases hu with rfl | rfl | rfl
      · exact decodes_boundText_or t _
      · exact .inl (Escape.decodeFrom_cons (by decide))
      · exact decodes_boundText_or t _
  · obtain ⟨p, hp, hend⟩ := hends
    have hunit : (c, boundText c) ∈ unitsOf p := by
      unfold unitsOf
      rcases hend with rfl | rfl
      · split <;> exact List.mem_cons_self
      · split
        · rename_i heq
          rw [heq]
          exact List.mem_cons_self
        · simp
    exact ⟨_, List.mem_flatMap.mpr ⟨p, hp, hunit⟩, isClassEscape_boundText hc⟩

/-- A class that was not read as a text is not written as one either. -/
theorem decode_writeClass_ne_ok {ranges : List (Text × Text)} {s : Span} {t' : Token}
    (h : readClass t = .ok (.charClass ranges s)) (hdecode : ∀ ds, decode t [] ≠ .ok ds)
    (ht' : t'.IsPlain (writeClass ranges)) {ds : List Decoded} : decode t' [] ≠ .ok ds := by
  obtain ⟨ranges', heq, pairs, hpairs, -⟩ := isRanges_of_readClass h
  cases heq
  have hquoted := ne_quoted_of_readClass h
  obtain ⟨inner, items, close, _, -, htext, hbody, hclose, -, hitems, heq⟩ := readClass_eq_ok h
  cases heq
  -- Some element of the class is written with an escape that is unknown outside of classes.
  obtain ⟨d, hd, hextra, hraw⟩ : ∃ d ∈ items ++ [close], d.char ∈ Text.ofString "]-[" ∧
      inner.slice d.start d.stop = [('\\' : CodePoint), d.char] := by
    have hquoted' : (classBody t inner).kind ≠ .quoted := hquoted
    rw [Escape.decode_of_ne_quoted hquoted'] at hbody
    rcases Escape.exists_decodeFrom_or_escaped (u := t) (j := 1) rfl hbody with ⟨ds', hds'⟩ | hescaped
    · have hinner : decodeFrom t [] (0 + 1) inner = .ok ds' := hds'
      refine absurd ?_ (hdecode (⟨'[', 0, 1⟩ :: ds'))
      rw [Escape.decode_of_ne_quoted hquoted, htext, Escape.decodeFrom_cons (by decide), hinner]
      rfl
    · exact hescaped
  have hitem : d ∈ items := by
    rcases List.mem_append.mp hd with hd | hd
    · exact hd
    · rw [List.mem_singleton.mp hd] at hraw
      rw [hraw] at hclose
      cases hclose
  obtain ⟨range, hrange, hends⟩ := exists_of_mem_readItems hitems hitem (by
    show inner.slice d.start d.stop ≠ _
    rw [hraw]
    exact fun heq => by cases heq)
  rw [hpairs] at hrange
  obtain ⟨p, hp, rfl⟩ := List.mem_map.mp hrange
  intro hok
  rw [Escape.decode_of_ne_quoted ht'.ne_quoted, ht'.text_eq, hpairs, writeClass_rangesOf,
    Escape.decodeFrom_cons (by decide)] at hok
  obtain ⟨more, hmore, -⟩ := map_eq_ok hok
  refine decodeFrom_rangesText_ne_ok hextra ⟨p, hp, ?_⟩ hmore
  exact hends.imp (fun heq => (List.cons.inj heq).1) fun heq => (List.cons.inj heq).1

end Value
end BrailleTable
