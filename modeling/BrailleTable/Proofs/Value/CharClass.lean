/-
Classes of characters are read back.

The body of a written class is a list of units: a code point and the way it is written.  A range takes three of
them, the one in the middle being the only dash that is not escaped, and no unit is a bracket by itself.
-/
import BrailleTable.Proofs.Result
import BrailleTable.Proofs.Value.Escape
import BrailleTable.Proofs.Value.Name

namespace BrailleTable

namespace Value

open Escape

/-- What the bounds of a class are written with. -/
def classCare : Care := ⟨[], "]-[", []⟩

theorem classCare_fits : classCare.Fits (Text.ofString "]-[") where
  escaped := by decide
  numbers := by decide

/-- The ends of the ranges of a class, which are single code points. -/
def rangesOf (pairs : List (CodePoint × CodePoint)) : List (Text × Text) :=
  pairs.map fun p => ([p.1], [p.2])

/-- The ranges that a class which was read may have. -/
def IsRanges (ranges : List (Text × Text)) : Prop :=
  ∃ pairs, ranges = rangesOf pairs ∧ pairs ≠ [] ∧ ∀ p ∈ pairs, p.1 ≤ p.2

/-! ## One item after the other -/

section

variable {whole body : Token}

/-- An element that no dash and another element follow is an item of its own. -/
theorem readItems_single {a : Decoded} {ds : List Decoded}
    (ha : readItems.guardBracket body a = .ok ())
    (hds : ∀ dash b rest, ds = dash :: b :: rest → readItems.raw body dash ≠ "-") :
    readItems whole body (a :: ds) = (readItems whole body ds).map (([a.char], [a.char]) :: ·) := by
  match ds with
  | [] =>
    unfold readItems
    rw [ha]
    rfl
  | [b] =>
    rw [readItems.eq_3, ha]
    cases readItems whole body [b] <;> rfl
  | b :: c :: rest =>
    rw [readItems, ha]
    simp only [Bind.bind, Except.bind, if_neg (hds b c rest rfl)]
    cases readItems whole body (b :: c :: rest) <;> rfl

/-- A dash that is not escaped makes a range. -/
theorem readItems_range {a dash b : Decoded} {ds : List Decoded}
    (ha : readItems.guardBracket body a = .ok ()) (hdash : readItems.raw body dash = "-")
    (hle : a.char ≤ b.char) :
    readItems whole body (a :: dash :: b :: ds) =
      (readItems whole body ds).map (([a.char], [b.char]) :: ·) := by
  have hlt : ¬ b.char < a.char := Nat.not_lt.mpr hle
  rw [readItems, ha]
  simp only [Bind.bind, Except.bind, if_pos hdash, if_neg hlt]
  cases readItems whole body ds <;> rfl

theorem readItems_bracket {a : Decoded} {ds : List Decoded} {e : ParseError}
    (ha : readItems.guardBracket body a = .error e) : readItems whole body (a :: ds) = .error e := by
  match ds with
  | [] =>
    rw [readItems, ha]
    rfl
  | [b] =>
    rw [readItems.eq_3, ha]
    rfl
  | b :: c :: rest =>
    rw [readItems, ha]
    rfl

theorem readItems_descending {a dash b : Decoded} {ds : List Decoded}
    (ha : readItems.guardBracket body a = .ok ()) (hdash : readItems.raw body dash = "-") (hlt : b.char < a.char) :
    readItems whole body (a :: dash :: b :: ds) =
      .error (.of .value (.descendingRange a.char b.char) (body.subSpan a.start b.stop) ["character class"]
        (some whole.text)) := by
  rw [readItems, ha]
  simp only [Bind.bind, Except.bind, if_pos hdash, if_pos hlt]

/-- How elements are read as items: an item is taken off their front, and then the rest is read, or they are refused. -/
inductive Reading (whole body : Token) : List Decoded → Prop
  | nil : Reading whole body []
  | single {a : Decoded} {ds : List Decoded} : readItems.guardBracket body a = .ok () →
      (∀ dash b rest, ds = dash :: b :: rest → readItems.raw body dash ≠ "-") →
      readItems whole body (a :: ds) = (readItems whole body ds).map (([a.char], [a.char]) :: ·) →
      Reading whole body ds → Reading whole body (a :: ds)
  | range {a dash b : Decoded} {ds : List Decoded} : readItems.guardBracket body a = .ok () →
      readItems.raw body dash = "-" → a.char ≤ b.char →
      readItems whole body (a :: dash :: b :: ds) = (readItems whole body ds).map (([a.char], [b.char]) :: ·) →
      Reading whole body ds → Reading whole body (a :: dash :: b :: ds)
  | bracket {a : Decoded} {ds : List Decoded} {e : ParseError} : readItems.guardBracket body a = .error e →
      readItems whole body (a :: ds) = .error e → Reading whole body (a :: ds)
  | descending {a dash b : Decoded} {ds : List Decoded} : readItems.raw body dash = "-" → b.char < a.char →
      readItems whole body (a :: dash :: b :: ds) =
        .error (.of .value (.descendingRange a.char b.char) (body.subSpan a.start b.stop) ["character class"]
          (some whole.text)) → Reading whole body (a :: dash :: b :: ds)

theorem reading (whole body : Token) : (ds : List Decoded) → Reading whole body ds
  | [] => .nil
  | a :: ds => by
    cases ha : readItems.guardBracket body a with
    | error e => exact .bracket ha (readItems_bracket ha)
    | ok _ =>
      by_cases hdash : ∃ dash b rest, ds = dash :: b :: rest ∧ readItems.raw body dash = "-"
      · obtain ⟨dash, b, rest, rfl, hdash⟩ := hdash
        by_cases hlt : b.char < a.char
        · exact .descending hdash hlt (readItems_descending ha hdash hlt)
        · have hle : a.char ≤ b.char := Nat.le_of_not_lt hlt
          exact .range ha hdash hle (readItems_range ha hdash hle) (reading whole body rest)
      · have hnext : ∀ dash b rest, ds = dash :: b :: rest → readItems.raw body dash ≠ "-" :=
          fun dash b rest hds heq => hdash ⟨dash, b, rest, hds, heq⟩
        exact .single ha hnext (readItems_single ha hnext) (reading whole body ds)
termination_by ds => ds.length

end

/-! ## What is read -/

theorem readItems_eq_ok {whole body : Token} {ds : List Decoded} {ranges : List (Text × Text)}
    (h : readItems whole body ds = .ok ranges) :
    ∃ pairs, ranges = rangesOf pairs ∧ (ds ≠ [] → pairs ≠ []) ∧ ∀ p ∈ pairs, p.1 ≤ p.2 := by
  have hreading := reading whole body ds
  induction hreading generalizing ranges with
  | nil =>
    cases h
    exact ⟨[], rfl, fun hne => absurd rfl hne, fun p hp => absurd hp List.not_mem_nil⟩
  | @single a ds _ _ hread _ ih =>
    rw [hread] at h
    obtain ⟨more, hmore, rfl⟩ := map_eq_ok h
    obtain ⟨pairs, rfl, -, hle⟩ := ih hmore
    exact ⟨(a.char, a.char) :: pairs, rfl, fun _ => List.cons_ne_nil _ _, List.forall_mem_cons.mpr ⟨Nat.le_refl _, hle⟩⟩
  | @range a dash b ds _ _ hbounds hread _ ih =>
    rw [hread] at h
    obtain ⟨more, hmore, rfl⟩ := map_eq_ok h
    obtain ⟨pairs, rfl, -, hle⟩ := ih hmore
    exact ⟨(a.char, b.char) :: pairs, rfl, fun _ => List.cons_ne_nil _ _, List.forall_mem_cons.mpr ⟨hbounds, hle⟩⟩
  | bracket _ hread =>
    rw [hread] at h
    cases h
  | descending _ _ hread =>
    rw [hread] at h
    cases h

/-- What stands between the brackets of a class and the closing one, as a token of its own. -/
def classBody (t : Token) (inner : Text) : Token :=
  { t with text := inner, value := inner, start := t.start + 1 }

/-- What a class was put together from. -/
theorem readClass_eq_ok {t : Token} {v : Value Span} (h : readClass t = .ok v) :
    ∃ (inner : Text) (items : List Decoded) (close : Decoded) (ranges : List (Text × Text)),
      t.kind ∈ [TokenKind.word, .punctuation] ∧ t.text = ('[' : CodePoint) :: inner ∧
      decode (classBody t inner) "]-[" = .ok (items ++ [close]) ∧ inner.slice close.start close.stop = "]" ∧
      items ≠ [] ∧ readItems t (classBody t inner) items = .ok ranges ∧ v = .charClass ranges t.span := by
  unfold readClass at h
  obtain ⟨_, hkind, h⟩ := bind_eq_ok h
  split at h
  · cases h
  rename_i c inner htext
  split at h
  · cases h
  rename_i hopen
  obtain ⟨elements, hdecode, h⟩ := bind_eq_ok h
  split at h
  · cases h
  rename_i close hlast
  split at h
  · cases h
  rename_i hclose
  split at h
  · cases h
  rename_i hitems
  obtain ⟨ranges, hranges, h⟩ := bind_eq_ok h
  cases h
  refine ⟨inner, elements.dropLast, close, ranges, requireKind_eq_ok_iff.mp hkind, not_not.mp hopen ▸ htext, ?_,
    not_not.mp hclose, hitems, hranges, rfl⟩
  rw [List.dropLast_append_getLast? close hlast]
  exact hdecode

theorem isRanges_of_readClass {t : Token} {v : Value Span} (h : readClass t = .ok v) :
    ∃ ranges, v = .charClass ranges t.span ∧ IsRanges ranges := by
  obtain ⟨_, _, _, ranges, -, -, -, -, hitems, hranges, rfl⟩ := readClass_eq_ok h
  obtain ⟨pairs, rfl, hne, hle⟩ := readItems_eq_ok hranges
  exact ⟨_, rfl, pairs, rfl, hne hitems, hle⟩

/-- No quoted string is a class. -/
theorem ne_quoted_of_readClass {t : Token} {v : Value Span} (h : readClass t = .ok v) : t.kind ≠ .quoted := by
  obtain ⟨_, _, _, _, hkind, -⟩ := readClass_eq_ok h
  intro hquoted
  rw [hquoted] at hkind
  exact absurd hkind (by decide)

/-! ## What is written -/

/-- How a bound of a class is written. -/
def boundText (c : CodePoint) : Text := encodeOne classCare true c

theorem decodes_boundText (t : Token) (c : CodePoint) : Decodes t "]-[" c (boundText c) :=
  decodeFrom_encodeOne classCare_fits true c

/-- A bound is written as one code point only where that is neither a bracket nor a dash. -/
theorem boundText_ne_singleton {c b : CodePoint} (hb : b ∈ Text.ofString "]-[") : boundText c ≠ [b] := by
  intro h
  unfold boundText encodeOne at h
  cases hcode : codeOf? c with
  | some code =>
    rw [hcode] at h
    cases h
  | none =>
    rw [hcode] at h
    dsimp only at h
    by_cases hescaped : c ∈ classCare.escaped
    · rw [if_pos hescaped] at h
      cases h
    · rw [if_neg hescaped] at h
      split at h
      · unfold byNumber at h
        split at h
        · cases h
        · split at h <;> cases h
      · cases h
        exact hescaped hb

/-- A range as the units it is written with. -/
def unitsOf (p : CodePoint × CodePoint) : List (CodePoint × Text) :=
  if p.2 = p.1 then [(p.1, boundText p.1)]
  else [(p.1, boundText p.1), ('-', "-"), (p.2, boundText p.2)]

/-- What stands between the brackets of a written class. -/
def rangesText (pairs : List (CodePoint × CodePoint)) : Text := (pairs.flatMap unitsOf).flatMap Prod.snd

theorem writeClass_rangesOf (pairs : List (CodePoint × CodePoint)) :
    writeClass (rangesOf pairs) = ('[' : CodePoint) :: (rangesText pairs ++ Text.ofString "]") := by
  have hone : ∀ p : CodePoint × CodePoint,
      (if [p.2] = [p.1] then encode classCare [p.1] else
        encode classCare [p.1] ++ "-" ++ encode classCare [p.2]) = (unitsOf p).flatMap Prod.snd := by
    intro p
    have hencode : ∀ c, encode classCare [c] = boundText c := fun c => List.append_nil _
    unfold unitsOf
    by_cases hp : p.2 = p.1
    · rw [if_pos hp, if_pos (by rw [hp]), hencode]
      exact (List.append_nil _).symm
    · rw [if_neg hp, if_neg (fun h => hp (List.cons.inj h).1), hencode, hencode]
      simp
  show Text.ofString "[" ++ (rangesOf pairs).flatMap _ ++ Text.ofString "]" = _
  unfold rangesOf rangesText
  rw [List.flatMap_map, List.flatMap_assoc, List.append_assoc]
  show ('[' : CodePoint) :: (pairs.flatMap _ ++ Text.ofString "]") = _
  congr 2
  exact congrArg (List.flatMap · pairs) (funext hone)

theorem decodes_of_mem_unitsOf {t : Token} {pairs : List (CodePoint × CodePoint)} :
    ∀ u ∈ pairs.flatMap unitsOf, Decodes t "]-[" u.1 u.2 := by
  intro u hu
  obtain ⟨p, -, hu⟩ := List.mem_flatMap.mp hu
  unfold unitsOf at hu
  split at hu
  · rw [List.mem_singleton.mp hu]
    exact decodes_boundText t _
  · simp only [List.mem_cons, List.not_mem_nil, or_false] at hu
    rcases hu with rfl | rfl | rfl
    · exact decodes_boundText t _
    · exact decodeFrom_cons (by decide)
    · exact decodes_boundText t _

/-! ## Reading the items back -/

variable {whole body : Token}

/-- Where units lie in the body of a class. -/
def LaidOut (body : Token) (i : Nat) (us : List (CodePoint × Text)) : Prop :=
  ∃ rest, body.text.drop i = us.flatMap Prod.snd ++ rest

theorem LaidOut.raw {i : Nat} {u : CodePoint × Text} {us : List (CodePoint × Text)}
    (h : LaidOut body i (u :: us)) : readItems.raw body ⟨u.1, i, i + u.2.length⟩ = u.2 := by
  obtain ⟨rest, hrest⟩ := h
  rw [List.flatMap_cons, List.append_assoc] at hrest
  exact Text.slice_of_drop_eq hrest

theorem LaidOut.tail {i : Nat} {u : CodePoint × Text} {us : List (CodePoint × Text)}
    (h : LaidOut body i (u :: us)) : LaidOut body (i + u.2.length) us := by
  obtain ⟨rest, hrest⟩ := h
  refine ⟨rest, ?_⟩
  rw [← List.drop_drop, hrest, List.flatMap_cons, List.append_assoc, List.drop_left]

theorem guardBracket_eq_ok {d : Decoded} {c : CodePoint} (h : readItems.raw body d = boundText c) :
    readItems.guardBracket body d = .ok () := by
  unfold readItems.guardBracket
  rw [h, if_neg]
  rintro (hc | hc)
  · exact boundText_ne_singleton (by decide) hc
  · exact boundText_ne_singleton (by decide) hc

theorem head?_layout_ne_dash {i : Nat} {pairs : List (CodePoint × CodePoint)}
    (h : LaidOut body i (pairs.flatMap unitsOf)) {d : Decoded}
    (hd : (layout i (pairs.flatMap unitsOf)).head? = some d) : readItems.raw body d ≠ "-" := by
  cases pairs with
  | nil => cases hd
  | cons p pairs =>
    have hfirst : ∃ us, (p :: pairs).flatMap unitsOf = (p.1, boundText p.1) :: us := by
      rw [List.flatMap_cons]
      unfold unitsOf
      split <;> exact ⟨_, rfl⟩
    obtain ⟨us, hus⟩ := hfirst
    rw [hus] at h hd
    cases hd
    rw [h.raw]
    exact boundText_ne_singleton (by decide)

theorem readItems_layout {i : Nat} {pairs : List (CodePoint × CodePoint)}
    (h : LaidOut body i (pairs.flatMap unitsOf)) (hle : ∀ p ∈ pairs, p.1 ≤ p.2) :
    readItems whole body (layout i (pairs.flatMap unitsOf)) = .ok (rangesOf pairs) := by
  induction pairs generalizing i with
  | nil => rfl
  | cons p pairs ih =>
    have hrest : ∀ q ∈ pairs, q.1 ≤ q.2 := fun q hq => hle q (List.mem_cons_of_mem p hq)
    by_cases hp : p.2 = p.1
    · have hunits : (p :: pairs).flatMap unitsOf = (p.1, boundText p.1) :: pairs.flatMap unitsOf := by
        rw [List.flatMap_cons, unitsOf, if_pos hp]
        rfl
      have hpair : rangesOf (p :: pairs) = ([p.1], [p.1]) :: rangesOf pairs := by
        show ([p.1], [p.2]) :: rangesOf pairs = _
        rw [hp]
      rw [hunits] at h ⊢
      rw [layout, readItems_single (guardBracket_eq_ok h.raw)
        (fun d b rest hds => head?_layout_ne_dash h.tail (by rw [hds]; rfl)), ih h.tail hrest, hpair]
      rfl
    · have hunits : (p :: pairs).flatMap unitsOf =
          (p.1, boundText p.1) :: ('-', "-") :: (p.2, boundText p.2) :: pairs.flatMap unitsOf := by
        rw [List.flatMap_cons, unitsOf, if_neg hp]
        rfl
      rw [hunits] at h ⊢
      rw [layout, layout, layout, readItems_range (guardBracket_eq_ok h.raw) h.tail.raw
        (hle p List.mem_cons_self), ih h.tail.tail.tail hrest]
      rfl

theorem layout_append (i : Nat) (us vs : List (CodePoint × Text)) :
    layout i (us ++ vs) = layout i us ++ layout (i + (us.flatMap Prod.snd).length) vs := by
  induction us generalizing i with
  | nil => rfl
  | cons u us ih =>
    rw [List.cons_append, layout, layout, ih, List.flatMap_cons, List.length_append, Nat.add_assoc]
    rfl

theorem readClass_of_decode {t : Token} {inner : Text} {items : List Decoded} {close : Decoded}
    {ranges : List (Text × Text)} (hkind : t.kind ∈ [TokenKind.word, .punctuation])
    (htext : t.text = ('[' : CodePoint) :: inner)
    (hdecode : decode (classBody t inner) "]-[" = .ok (items ++ [close]))
    (hclose : inner.slice close.start close.stop = "]") (hne : items ≠ [])
    (hitems : readItems t (classBody t inner) items = .ok ranges) :
    readClass t = .ok (.charClass ranges t.span) := by
  unfold classBody at hdecode hitems
  unfold readClass requireKind
  simp only [if_pos hkind, htext, Bind.bind, Except.bind, ne_eq, not_true_eq_false, if_false, hdecode,
    List.getLast?_concat, hclose, List.dropLast_concat, hitems]
  cases items with
  | nil => exact absurd rfl hne
  | cons d ds => rfl

/-- A class is read from elements that decode, between brackets: the closing bracket decodes as well, and what is left of
it are the elements. -/
theorem readClass_of_decodes {t : Token} {us : List (CodePoint × Text)} {ranges : List (Text × Text)}
    (hkind : t.kind ∈ [TokenKind.word, .punctuation]) (hne : us ≠ [])
    (htext : t.text = ('[' : CodePoint) :: (us.flatMap Prod.snd ++ Text.ofString "]"))
    (hus : ∀ u ∈ us, Decodes (classBody t (us.flatMap Prod.snd ++ Text.ofString "]")) "]-[" u.1 u.2)
    (hitems : readItems t (classBody t (us.flatMap Prod.snd ++ Text.ofString "]")) (layout 0 us) = .ok ranges) :
    readClass t = .ok (.charClass ranges t.span) := by
  have hquoted : (classBody t (us.flatMap Prod.snd ++ Text.ofString "]")).kind ≠ .quoted := by
    intro hq
    replace hq : t.kind = .quoted := hq
    rw [hq] at hkind
    exact absurd hkind (by decide)
  have hall : ∀ u ∈ us ++ [((']' : CodePoint), Text.ofString "]")],
      Decodes (classBody t (us.flatMap Prod.snd ++ Text.ofString "]")) "]-[" u.1 u.2 := by
    intro u hu
    rcases List.mem_append.mp hu with hu | hu
    · exact hus u hu
    · rw [List.mem_singleton.mp hu]
      exact decodeFrom_cons (by decide)
  have hdecode : decode (classBody t (us.flatMap Prod.snd ++ Text.ofString "]")) "]-[" =
      .ok (layout 0 us ++ [⟨']', (us.flatMap Prod.snd).length, (us.flatMap Prod.snd).length + 1⟩]) := by
    have hflat := decodeFrom_flatMap hall 0
    rw [List.flatMap_append, layout_append, Nat.zero_add] at hflat
    rw [decode_of_ne_quoted hquoted]
    exact hflat
  have hdrop : (us.flatMap Prod.snd ++ Text.ofString "]").drop (us.flatMap Prod.snd).length = Text.ofString "]" ++ [] :=
    List.drop_left
  have hlayout : layout 0 us ≠ [] := by
    cases us with
    | nil => exact absurd rfl hne
    | cons u us => exact List.cons_ne_nil _ _
  exact readClass_of_decode hkind htext hdecode (Text.slice_of_drop_eq hdrop) hlayout hitems

theorem readClass_writeClass {t : Token} {ranges : List (Text × Text)} (h : IsRanges ranges)
    (hkind : t.kind ∈ [TokenKind.word, .punctuation]) (htext : t.text = writeClass ranges) :
    readClass t = .ok (.charClass ranges t.span) := by
  obtain ⟨pairs, rfl, hne, hle⟩ := h
  rw [writeClass_rangesOf] at htext
  have hunits : pairs.flatMap unitsOf ≠ [] := by
    cases pairs with
    | nil => exact absurd rfl hne
    | cons p pairs =>
      rw [List.flatMap_cons]
      unfold unitsOf
      split <;> exact List.cons_ne_nil _ _
  exact readClass_of_decodes hkind hunits htext decodes_of_mem_unitsOf (readItems_layout ⟨"]", rfl⟩ hle)

end Value
end BrailleTable
