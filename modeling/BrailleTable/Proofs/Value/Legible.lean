/-
Which arguments a slot takes back.

A slot tries its kinds in turn.  A value is written without quotes and without a hint of the kind that it was read by,
so a kind that is tried earlier may take the written text for its own.  `LegibleIn kinds v` says that none does; the
slot takes a value back exactly if this holds.
-/
import BrailleTable.Proofs.Value.ClassEscape
import BrailleTable.Proofs.Value.Choice

namespace BrailleTable

open Value (dotDigits IsName IsPattern writeString writeClass writeDots)
open Escape (Decoded Decodes decode)

/-! ## Trying kinds in turn -/

/-- The kind that reads such a value from an unquoted token. -/
def Value.home {σ : Type} : Value σ → SlotKind
  | .character _ _ => .character
  | .string _ _ => .characters
  | .charClass _ _ => .charClass
  | .dots _ _ => .dots
  | .number _ _ => .number
  | .name _ _ => .name

theorem Value.home_eq_of_bare_eq {σ τ : Type} {v : Value σ} {v' : Value τ} (h : v'.bare = v.bare) :
    v'.home = v.home := by
  have hbare : ∀ {υ : Type} (u : Value υ), u.bare.home = u.home := by
    intro υ u
    cases u <;> rfl
  rw [← hbare v', h, hbare v]

namespace SlotKind

variable {kind : SlotKind} {kinds : List SlotKind} {t : Token} {v : Value Span}

/-- The kind refuses a token in such a way that the next one is tried. -/
def Refuses (kind : SlotKind) (t : Token) : Prop := ∃ e, kind.read dotDigits t = .error (.parse e)

theorem Refuses.read_ne (h : kind.Refuses t) : kind.read dotDigits t ≠ .ok v := by
  obtain ⟨e, he⟩ := h
  rw [he]
  exact fun heq => by cases heq

/-- Only numbers fail in another way than by refusing their token. -/
theorem refuses_iff_of_ne_number (hkind : kind ≠ .number) :
    kind.Refuses t ↔ ¬ ∃ v, kind.read dotDigits t = .ok v := by
  constructor
  · rintro h ⟨v, hv⟩
    exact h.read_ne hv
  · intro h
    have hread : ∀ {x : Except ParseError (Value Span)}, kind.read dotDigits t = x.mapError .parse →
        kind.Refuses t := by
      intro x hx
      cases x with
      | ok v => exact absurd ⟨v, hx⟩ h
      | error e => exact ⟨e, hx⟩
    cases kind with
    | number => exact absurd rfl hkind
    | _ => exact hread rfl

/-- A slot takes what the first kind takes that does not refuse the token. -/
theorem choose_eq_ok_iff :
    choose dotDigits kinds t = .ok v ↔
      ∃ before kind after, kinds = before ++ kind :: after ∧ (∀ k ∈ before, k.Refuses t) ∧
        kind.read dotDigits t = .ok v :=
  chooseAfter_eq_ok_iff

/-- Quoted strings and file names apart, the value tells the kind that read it. -/
theorem home_of_read (hfilename : kind ≠ .filename) (hstring : kind ≠ .string)
    (h : kind.read dotDigits t = .ok v) : v.home = kind := by
  cases kind with
  | filename => exact absurd rfl hfilename
  | string => exact absurd rfl hstring
  | dots =>
    obtain ⟨cells, rfl, -⟩ := Value.isPattern_of_readDots (mapError_eq_ok h)
    rfl
  | character =>
    obtain ⟨c, rfl⟩ := Value.exists_of_readCharacter (mapError_eq_ok h)
    rfl
  | characters =>
    obtain ⟨w, rfl, -⟩ := Value.exists_of_readCharacters (mapError_eq_ok h)
    rfl
  | charClass =>
    obtain ⟨ranges, rfl, -⟩ := Value.isRanges_of_readClass (mapError_eq_ok h)
    rfl
  | name =>
    obtain ⟨w, -, rfl⟩ := map_eq_ok (mapError_eq_ok h)
    rfl
  | number =>
    have hread : Value.readNumber t = .ok v := h
    unfold Value.readNumber at hread
    split at hread
    · cases hread
    · split at hread <;> cases hread
      rfl

theorem readString_eq_ok (h : string.read dotDigits t = .ok v) : t.kind = .quoted ∧ v = .string t.value t.span := by
  obtain ⟨_, hkind, heq⟩ := bind_eq_ok (mapError_eq_ok h)
  cases heq
  exact ⟨List.mem_singleton.mp (Value.requireKind_eq_ok_iff.mp hkind), rfl⟩

theorem takeWhile_ne_append {before after : List SlotKind} (h : kind ∉ before) :
    (before ++ kind :: after).takeWhile (· ≠ kind) = before := by
  rw [List.takeWhile_append_of_pos, List.takeWhile_cons_of_neg, List.append_nil]
  · simp
  · intro k hk
    simpa using fun heq : k = kind => h (heq ▸ hk)

/-- What is known of a slot that took a value by the kind it belongs to: the kinds before that one refuse the token. -/
structure Takes (kinds : List SlotKind) (t : Token) (v : Value Span) : Prop where
  mem : v.home ∈ kinds
  refuses : ∀ k ∈ kinds.takeWhile (· ≠ v.home), k.Refuses t
  read : v.home.read dotDigits t = .ok v

theorem Takes.choose (h : Takes kinds t v) : choose dotDigits kinds t = .ok v := by
  obtain ⟨before, after, heq, hnot⟩ := List.eq_append_cons_of_mem h.mem
  have hrefuses := h.refuses
  rw [heq, takeWhile_ne_append hnot] at hrefuses
  exact choose_eq_ok_iff.mpr ⟨before, v.home, after, heq, hrefuses, h.read⟩

theorem takes_of_choose (hfilename : filename ∉ kinds) (hhome : t.kind = .quoted → v.home ≠ .characters)
    (h : choose dotDigits kinds t = .ok v) : Takes kinds t v := by
  obtain ⟨before, kind, after, heq, hbefore, hread⟩ := choose_eq_ok_iff.mp h
  have hmem : kind ∈ kinds := by
    rw [heq]
    exact List.mem_append_right _ List.mem_cons_self
  have hstring : kind ≠ .string := by
    rintro rfl
    obtain ⟨hkind, rfl⟩ := readString_eq_ok hread
    exact hhome hkind rfl
  have hkind : v.home = kind := home_of_read (fun h => hfilename (h ▸ hmem)) hstring hread
  have hnot : kind ∉ before := fun hin => (hbefore kind hin).read_ne hread
  subst hkind
  refine ⟨hmem, ?_, hread⟩
  rw [heq, takeWhile_ne_append hnot]
  exact hbefore

/-- A slot takes a value back if its own kind does and comes first. -/
theorem exists_choose_iff_refuses (hquoted : t.kind ≠ .quoted) (hfilename : filename ∉ kinds)
    (hread : ∃ v', v.home.read dotDigits t = .ok v' ∧ v'.bare = v.bare) :
    (∃ v', choose dotDigits kinds t = .ok v' ∧ v'.bare = v.bare) ↔
      v.home ∈ kinds ∧ ∀ k ∈ kinds.takeWhile (· ≠ v.home), k.Refuses t := by
  constructor
  · rintro ⟨v', hchoose, hbare⟩
    have htakes := takes_of_choose hfilename (fun hkind => absurd hkind hquoted) hchoose
    rw [← Value.home_eq_of_bare_eq hbare]
    exact ⟨htakes.mem, htakes.refuses⟩
  · rintro ⟨hmem, hrefuses⟩
    obtain ⟨v', hv', hbare⟩ := hread
    rw [← Value.home_eq_of_bare_eq hbare] at hmem hrefuses hv'
    exact ⟨v', Takes.choose ⟨hmem, hrefuses, hv'⟩, hbare⟩

end SlotKind

/-! ## Texts without quotes -/

/-- An unquoted token with the spelling `w` that stands for the text `s` and is not meant for a class. -/
structure Token.Stands (w s : Text) (t : Token) : Prop where
  plain : t.IsPlain w
  decodes : ∃ ds, decode t [] = .ok ds ∧ ds.map Decoded.char = s
  ne_nil : s ≠ []
  head : w.head? ≠ some ('[' : CodePoint)

namespace Token

variable {w s : Text} {t : Token}

theorem stands_writeString (hs : s ≠ []) (ht : t.IsPlain (writeString '#' s)) : t.Stands (writeString '#' s) s where
  plain := ht
  decodes := Value.decode_writeString ht
  ne_nil := hs
  head := by
    intro hhead
    have hlead : ('[' : CodePoint) ∉ Value.stringCare.lead := Escape.head?_encode hhead (by decide)
    exact absurd hlead (by decide)

/-- Without backslashes and brackets a token stands for its own spelling. -/
theorem stands_self (hw : w ≠ []) (hplain : ∀ c ∈ w, c ≠ '\\' ∧ c ≠ '[') (ht : t.IsPlain w) : t.Stands w w where
  plain := ht
  decodes := by
    have hunits : ∀ u ∈ w.map fun c => (c, [c]), Decodes t [] u.1 u.2 := by
      intro u hu
      obtain ⟨c, hc, rfl⟩ := List.mem_map.mp hu
      exact Escape.decodeFrom_cons (hplain c hc).1
    have hdecode := Escape.decodeFrom_flatMap hunits 0
    have hself : (w.map fun c => (c, [c])).flatMap Prod.snd = w := by
      rw [List.flatMap_map]
      exact List.flatMap_singleton' w
    rw [hself] at hdecode
    refine ⟨_, by rw [Escape.decode_of_ne_quoted ht.ne_quoted, ht.text_eq, hdecode], ?_⟩
    rw [Escape.map_char_layout, List.map_map]
    exact List.map_id w
  ne_nil := hw
  head := fun hhead => (hplain _ (List.mem_of_mem_head? hhead)).2 rfl

end Token

namespace SlotKind

variable {kind : SlotKind} {kinds : List SlotKind} {t : Token} {w s : Text}

/-- The kind takes for its own what is spelled `w`, without quotes, and stands for the text `s`. -/
def Claims (kind : SlotKind) (w s : Text) : Prop :=
  match kind with
  | .dots => ∃ cells, IsPattern cells ∧ w = writeDots cells
  | .number => w ≠ [] ∧ ∀ c ∈ w, c.isDigit = true
  | .name => IsName w
  | .character => s.length = 1
  | .characters | .charClass | .filename | .string => False

theorem ofText_eq_number_iff : TokenKind.ofText w = .number ↔ w ≠ [] ∧ ∀ c ∈ w, c.isDigit = true := by
  refine ⟨TokenKind.isDigit_of_ofText_eq_number, fun h => ?_⟩
  unfold TokenKind.ofText
  rw [if_pos ⟨h.1, List.all_eq_true.mpr h.2⟩]

theorem refuses_number_iff (ht : t.IsPlain w) : number.Refuses t ↔ ¬ (w ≠ [] ∧ ∀ c ∈ w, c.isDigit = true) := by
  rw [← ofText_eq_number_iff, ← ht.kind_eq]
  have hread : number.read dotDigits t = Value.readNumber t := rfl
  unfold Refuses
  rw [hread]
  unfold Value.readNumber Value.requireKind
  by_cases hkind : t.kind = .number
  · rw [if_pos (List.mem_singleton.mpr hkind)]
    refine iff_of_false ?_ (not_not.mpr hkind)
    rintro ⟨e, he⟩
    dsimp only at he
    split at he <;> cases he
  · rw [if_neg fun hmem => hkind (List.mem_singleton.mp hmem)]
    exact iff_of_true ⟨_, rfl⟩ hkind

theorem exists_read_dots_iff (ht : t.IsPlain w) :
    (∃ v, dots.read dotDigits t = .ok v) ↔ ∃ cells, IsPattern cells ∧ w = writeDots cells := by
  constructor
  · rintro ⟨v, hv⟩
    obtain ⟨cells, -, hpattern, htext⟩ :=
      Value.writeDots_of_readDots Dialect.standard.dotAlphabet_digits (mapError_eq_ok hv)
    exact ⟨cells, hpattern.isPattern Dialect.standard.dotAlphabet_digits, ht.text_eq.symm.trans htext⟩
  · rintro ⟨cells, hpattern, rfl⟩
    have hread := Value.readDots_writeDots Dialect.standard.dotAlphabet_digits hpattern.isPatternOf ht
    exact ⟨_, congrArg (Except.mapError Failure.parse) hread⟩

theorem exists_read_name_iff (ht : t.IsPlain w) : (∃ v, name.read dotDigits t = .ok v) ↔ IsName w := by
  constructor
  · rintro ⟨v, hv⟩
    obtain ⟨w', hname, -⟩ := map_eq_ok (mapError_eq_ok hv)
    obtain ⟨-, htext, hw⟩ := Value.nameOf_eq_ok_iff.mp hname
    rwa [← ht.text_eq, htext]
  · intro hw
    have hname := Value.nameOf_eq_ok_iff.mpr ⟨ht.kind_eq.trans hw.ofText_eq_word, ht.text_eq, hw⟩
    refine ⟨.name w t.span, ?_⟩
    show ((Value.nameOf t).map _).mapError _ = _
    rw [hname]
    rfl

theorem exists_read_character_iff {ds : List Decoded} (h : decode t [] = .ok ds) :
    (∃ v, character.read dotDigits t = .ok v) ↔ ds.length = 1 := by
  constructor
  · rintro ⟨v, hv⟩
    obtain ⟨ds', hds', hmatch⟩ := bind_eq_ok (mapError_eq_ok hv)
    rw [h] at hds'
    cases hds'
    split at hmatch
    · cases hmatch
    · rfl
    · cases hmatch
  · intro hlength
    obtain ⟨d, rfl⟩ := List.length_eq_one_iff.mp hlength
    refine ⟨.character [d.char] t.span, ?_⟩
    show ((decode t [] >>= _ : Except ParseError (Value Span)).mapError _) = _
    rw [h]
    rfl

theorem not_exists_read_string (h : t.kind ≠ .quoted) : ¬ ∃ v, string.read dotDigits t = .ok v := by
  rintro ⟨v, hv⟩
  exact h (readString_eq_ok hv).1

/-- Which kinds refuse a token that stands for a text. -/
theorem refuses_iff (h : t.Stands w s) (hcharacters : kind ≠ .characters) (hfilename : kind ≠ .filename) :
    kind.Refuses t ↔ ¬ kind.Claims w s := by
  cases kind with
  | characters => exact absurd rfl hcharacters
  | filename => exact absurd rfl hfilename
  | number => exact refuses_number_iff h.plain
  | dots => exact (refuses_iff_of_ne_number (by decide)).trans (not_congr (exists_read_dots_iff h.plain))
  | name => exact (refuses_iff_of_ne_number (by decide)).trans (not_congr (exists_read_name_iff h.plain))
  | string =>
    refine (refuses_iff_of_ne_number (by decide)).trans (not_congr (iff_of_false ?_ id))
    exact not_exists_read_string h.plain.ne_quoted
  | charClass =>
    refine (refuses_iff_of_ne_number (by decide)).trans (not_congr (iff_of_false ?_ id))
    rintro ⟨v, hv⟩
    have hhead := head?_of_readClass (mapError_eq_ok hv)
    rw [h.plain.text_eq] at hhead
    exact h.head hhead
  | character =>
    obtain ⟨ds, hdecode, rfl⟩ := h.decodes
    refine (refuses_iff_of_ne_number (by decide)).trans (not_congr ?_)
    exact (exists_read_character_iff hdecode).trans (by rw [Claims, List.length_map])

/-- A text is never refused as such. -/
theorem not_refuses_characters {ds : List Decoded} (h : decode t [] = .ok ds) (hne : ds ≠ []) :
    ¬ characters.Refuses t := by
  intro hrefuses
  cases ds with
  | nil => exact hne rfl
  | cons d ds =>
    refine hrefuses.read_ne (v := .string ((d :: ds).map Decoded.char) t.span) ?_
    show ((decode t [] >>= _ : Except ParseError (Value Span)).mapError _) = _
    rw [h]
    rfl

/-- Whether a written class is refused depends on the class alone. -/
theorem refuses_writeClass {ranges : List (Text × Text)} {s : Span} {t' : Token}
    (hread : Value.readClass t = .ok (.charClass ranges s)) (ht' : t'.IsPlain (writeClass ranges))
    (hclass : kind ≠ .charClass) (hfilename : kind ≠ .filename) (h : kind.Refuses t) : kind.Refuses t' := by
  have hbracket : (writeClass ranges).head? = some ('[' : CodePoint) := rfl
  have hmem : ('[' : CodePoint) ∈ writeClass ranges := List.mem_of_mem_head? hbracket
  cases kind with
  | charClass => exact absurd rfl hclass
  | filename => exact absurd rfl hfilename
  | number =>
    rw [refuses_number_iff ht']
    rintro ⟨-, hdigits⟩
    exact absurd (hdigits _ hmem) (by decide)
  | dots =>
    rw [refuses_iff_of_ne_number (by decide), exists_read_dots_iff ht']
    rintro ⟨cells, hpattern, hwritten⟩
    obtain ⟨c, rest, hcells, hc⟩ := Value.head?_writeDots hpattern
    rw [hwritten, hcells] at hbracket
    cases hbracket
    exact absurd hc (by decide)
  | name =>
    rw [refuses_iff_of_ne_number (by decide), exists_read_name_iff ht']
    intro hname
    exact absurd (hname.isNameChar_of_mem _ hmem) (by decide)
  | string =>
    rw [refuses_iff_of_ne_number (by decide)]
    exact not_exists_read_string ht'.ne_quoted
  | character =>
    rw [refuses_iff_of_ne_number (by decide)]
    rintro ⟨v, hv⟩
    obtain ⟨ds, hdecode, -⟩ := bind_eq_ok (mapError_eq_ok hv)
    -- A class has a closing bracket too, so it is never a single character.
    have hlength := (exists_read_character_iff hdecode).mp ⟨v, hv⟩
    obtain ⟨_, heq, pairs, hpairs, -⟩ := Value.isRanges_of_readClass hread
    cases heq
    rw [Escape.decode_of_ne_quoted ht'.ne_quoted, ht'.text_eq, hpairs, Value.writeClass_rangesOf,
      Escape.decodeFrom_cons (by decide)] at hdecode
    obtain ⟨more, hmore, rfl⟩ := map_eq_ok hdecode
    obtain ⟨c, rest, hrest⟩ := List.exists_cons_of_ne_nil
      (List.append_ne_nil_of_right_ne_nil (Value.rangesText pairs) (List.cons_ne_nil (']' : CodePoint) []))
    have hne : more ≠ [] := Escape.decodeFrom_ne_nil (hrest ▸ hmore)
    rw [List.length_cons] at hlength
    exact hne (List.eq_nil_of_length_eq_zero (by omega))
  | characters =>
    rw [refuses_iff_of_ne_number (by decide)]
    rintro ⟨v, hv⟩
    obtain ⟨ds', hdecode', -⟩ := bind_eq_ok (mapError_eq_ok hv)
    refine Value.decode_writeClass_ne_ok hread (fun ds hdecode => ?_) ht' hdecode'
    obtain ⟨_, _, _, _, -, htext, -⟩ := Value.readClass_eq_ok hread
    refine not_refuses_characters hdecode ?_ h
    rw [Escape.decode_of_ne_quoted (Value.ne_quoted_of_readClass hread), htext] at hdecode
    exact Escape.decodeFrom_ne_nil hdecode

end SlotKind

/-! ## Legible values -/

namespace Value

/-- No kind that a slot tries before `home` takes for its own what is spelled `w` and stands for `s`. -/
def LeftTo (home : SlotKind) (kinds : List SlotKind) (w s : Text) : Prop :=
  ∀ kind ∈ kinds.takeWhile (· ≠ home), ¬ kind.Claims w s

/-- A value that a slot of these kinds can take back.  Dots, names and classes always are.  A string needs a kind that
takes texts without quotes, and it must not be empty. -/
def LegibleIn {σ : Type} (kinds : List SlotKind) : Value σ → Prop
  | .number n _ => LeftTo .number kinds (Text.ofInt n) (Text.ofInt n)
  | .character s _ => LeftTo .character kinds (writeString '#' s) s
  | .string s _ => s ≠ [] ∧ .characters ∈ kinds ∧ LeftTo .characters kinds (writeString '#' s) s
  | .dots _ _ | .name _ _ | .charClass _ _ => True

variable {kinds : List SlotKind} {line : LogicalLine} {t t' : Token} {v : Value Span}

theorem not_mem_takeWhile {α : Type} [DecidableEq α] {a : α} {l : List α} : a ∉ l.takeWhile (· ≠ a) := by
  intro h
  simpa using List.mem_takeWhile_imp h

/-- Where texts have not been tried yet, a token that stands for a text is refused unless it is claimed. -/
theorem forall_refuses_iff_leftTo {home : SlotKind} {w s : Text} (h : t.Stands w s) (hfilename : .filename ∉ kinds)
    (hcharacters : .characters ∉ kinds.takeWhile (· ≠ home)) :
    (∀ k ∈ kinds.takeWhile (· ≠ home), k.Refuses t) ↔ LeftTo home kinds w s := by
  refine forall₂_congr fun k hk => SlotKind.refuses_iff h (fun heq => hcharacters (heq ▸ hk)) fun heq => ?_
  exact hfilename (heq ▸ (List.takeWhile_sublist _).mem hk)

theorem plain_of_mem_dotDigits {w : Text} (h : ∀ c ∈ w, c ∈ dotDigits ∨ c = '-') : ∀ c ∈ w, c ≠ '\\' ∧ c ≠ '[' := by
  have hdigits : ∀ c ∈ dotDigits, c ≠ '\\' ∧ c ≠ '[' := by decide
  intro c hc
  rcases h c hc with hc | rfl
  · exact hdigits c hc
  · decide

theorem stands_digits {w : Text} (hw : w ≠ []) (hdigits : ∀ c ∈ w, c.isDigit = true) (ht : t.IsPlain w) :
    t.Stands w w :=
  Token.stands_self hw (plain_of_mem_dotDigits fun c hc => .inl (mem_dotDigits_of_isDigit (hdigits c hc))) ht

theorem stands_writeDots {cells : List (List Int)} (hcells : IsPattern cells) (ht : t.IsPlain (writeDots cells)) :
    t.Stands (writeDots cells) (writeDots cells) :=
  Token.stands_self (isArgument_writeDots hcells).ne_nil
    (plain_of_mem_dotDigits fun _ => mem_writeDots hcells.cell) ht

theorem stands_name {w : Text} (hw : IsName w) (ht : t.IsPlain w) : t.Stands w w := by
  refine Token.stands_self (isArgument_of_isName hw hw.isBlank_of_mem).ne_nil (fun c hc => ?_) ht
  have hchar := hw.isNameChar_of_mem c hc
  refine ⟨?_, ?_⟩ <;>
    · rintro rfl
      exact absurd hchar (by decide)

theorem fits_or_string (ht : t.CutFrom line) (hfilename : .filename ∉ kinds)
    (h : SlotKind.choose dotDigits kinds t = .ok v) : Fits v.home v ∨ v = .string t.value t.span := by
  obtain ⟨before, kind, after, rfl, -, hread⟩ := SlotKind.choose_eq_ok_iff.mp h
  have hkind : kind ≠ .filename := by
    rintro rfl
    exact hfilename (List.mem_append_right _ List.mem_cons_self)
  by_cases hstring : kind = .string
  · subst hstring
    exact .inr (SlotKind.readString_eq_ok hread).2
  · rw [SlotKind.home_of_read hkind hstring hread]
    exact .inl (fits_of_read ht hkind hstring hread)

/-- What a slot took from a token is written as an argument, unless it is the empty string. -/
theorem fits_home (ht : t.CutFrom line) (hfilename : .filename ∉ kinds)
    (h : SlotKind.choose dotDigits kinds t = .ok v) (hne : v.write '#' [] ≠ []) : Fits v.home v := by
  rcases fits_or_string ht hfilename h with hfits | rfl
  · exact hfits
  · refine .characters fun hnil => hne ?_
    rw [hnil]
    rfl

theorem LegibleIn.write_ne_nil (hlegible : v.LegibleIn kinds) (ht : t.CutFrom line) (hfilename : .filename ∉ kinds)
    (h : SlotKind.choose dotDigits kinds t = .ok v) : v.write '#' [] ≠ [] := by
  rcases fits_or_string ht hfilename h with hfits | rfl
  · exact hfits.isArgument.ne_nil
  · exact (isArgument_writeString hlegible.1).ne_nil

/-- A token that decodes was not refused by the kind that takes all texts, so the value was read before that was
tried. -/
theorem not_mem_of_decode (h : SlotKind.Takes kinds t v) {ds : List Decoded} (hdecode : decode t [] = .ok ds)
    (hds : ds ≠ []) : .characters ∉ kinds.takeWhile (· ≠ v.home) := fun hmem =>
  SlotKind.not_refuses_characters hdecode hds (h.refuses _ hmem)

theorem not_mem_of_stands (h : SlotKind.Takes kinds t v) {w s : Text} (ht : t.Stands w s) :
    .characters ∉ kinds.takeWhile (· ≠ v.home) := by
  obtain ⟨ds, hdecode, rfl⟩ := ht.decodes
  exact not_mem_of_decode h hdecode fun hnil => ht.ne_nil (by rw [hnil]; rfl)

/-- Where the text is written that was read, the kinds that refused it do so again. -/
theorem refuses_of_stands (h : SlotKind.Takes kinds t v) (hfilename : .filename ∉ kinds) {w : Text}
    (ht : t.Stands w w) (ht' : t'.Stands w w) : ∀ k ∈ kinds.takeWhile (· ≠ v.home), k.Refuses t' := by
  have hcharacters := not_mem_of_stands h ht
  rw [forall_refuses_iff_leftTo ht' hfilename hcharacters, ← forall_refuses_iff_leftTo ht hfilename hcharacters]
  exact h.refuses

theorem kind_of_readNumber (h : readNumber t = .ok v) : t.kind = .number := by
  unfold readNumber at h
  split at h
  · cases h
  · rename_i hrequire
    exact List.mem_singleton.mp (requireKind_eq_ok_iff.mp hrequire)

theorem kind_of_readDots (h : readDots dotDigits t = .ok v) : t.kind ≠ .quoted := by
  obtain ⟨_, hrequire, -⟩ := bind_eq_ok h
  intro hkind
  have hmem := requireKind_eq_ok_iff.mp hrequire
  rw [hkind] at hmem
  exact absurd hmem (by decide)

/-- A slot takes a value back, which it took from a token before, exactly if the value is legible in it. -/
theorem exists_choose_iff (ht : t.CutFrom line) (hfilename : .filename ∉ kinds)
    (h : SlotKind.choose dotDigits kinds t = .ok v) (hne : v.write '#' [] ≠ [])
    (ht' : t'.IsPlain (v.write '#' [])) :
    (∃ v', SlotKind.choose dotDigits kinds t' = .ok v' ∧ v'.bare = v.bare) ↔ v.LegibleIn kinds := by
  have hfits := fits_home ht hfilename h hne
  -- What is left to see is whether the kinds before the value's own refuse its text.  For dots, names and classes they
  -- have refused the same text before.
  rw [SlotKind.exists_choose_iff_refuses ht'.ne_quoted hfilename (hfits.read ht')]
  have htakes : v.home ≠ .characters → SlotKind.Takes kinds t v := fun hhome =>
    SlotKind.takes_of_choose hfilename (fun _ => hhome) h
  cases v with
  | string s span =>
    have hs : s ≠ [] := by
      rintro rfl
      exact hne rfl
    have hleft := forall_refuses_iff_leftTo (Token.stands_writeString hs ht') hfilename not_mem_takeWhile
    exact ⟨fun hboth => ⟨hs, hboth.1, hleft.mp hboth.2⟩, fun hlegible => ⟨hlegible.2.1, hleft.mpr hlegible.2.2⟩⟩
  | character s span =>
    have htakes := htakes nofun
    obtain ⟨ds, hdecode, hone⟩ := bind_eq_ok (mapError_eq_ok htakes.read)
    have hds : ds ≠ [] := by
      rintro rfl
      cases hone
    have hs : s ≠ [] := by
      rintro rfl
      exact hne rfl
    refine Iff.trans (and_iff_right htakes.mem) ?_
    exact forall_refuses_iff_leftTo (Token.stands_writeString hs ht') hfilename (not_mem_of_decode htakes hdecode hds)
  | number n span =>
    have htakes := htakes nofun
    obtain ⟨m, hm, -⟩ := exists_of_readNumber ht htakes.read
    cases hm
    have hkind := kind_of_readNumber htakes.read
    have htext := ht.isPlain (by rw [hkind]; decide)
    obtain ⟨hw, hdigits⟩ := SlotKind.ofText_eq_number_iff.mp (htext.kind_eq.symm.trans hkind)
    have hstands' : t'.Stands (Text.ofNat m) (Text.ofNat m) :=
      stands_digits (Text.ofNat_ne_nil m) Text.isDigit_of_mem_ofNat ht'
    refine Iff.trans (and_iff_right htakes.mem) ?_
    exact forall_refuses_iff_leftTo hstands' hfilename (not_mem_of_stands htakes (stands_digits hw hdigits htext))
  | dots cells span =>
    have htakes := htakes nofun
    obtain ⟨_, hcells, hof, htext⟩ :=
      writeDots_of_readDots Dialect.standard.dotAlphabet_digits (mapError_eq_ok htakes.read)
    cases hcells
    have hpattern := hof.isPattern Dialect.standard.dotAlphabet_digits
    have hquoted := kind_of_readDots (mapError_eq_ok htakes.read)
    have hstands := stands_writeDots hpattern (htext ▸ ht.isPlain hquoted)
    exact iff_of_true ⟨htakes.mem, refuses_of_stands htakes hfilename hstands (stands_writeDots hpattern ht')⟩ trivial
  | name w span =>
    have htakes := htakes nofun
    obtain ⟨_, hname, hw⟩ := map_eq_ok (mapError_eq_ok htakes.read)
    cases hw
    obtain ⟨hkind, htext, hw⟩ := nameOf_eq_ok_iff.mp hname
    have hstands := stands_name hw (htext ▸ ht.isPlain (by rw [hkind]; decide))
    exact iff_of_true ⟨htakes.mem, refuses_of_stands htakes hfilename hstands (stands_name hw ht')⟩ trivial
  | charClass ranges span =>
    have htakes := htakes nofun
    refine iff_of_true ⟨htakes.mem, fun k hk => ?_⟩ trivial
    refine SlotKind.refuses_writeClass (mapError_eq_ok htakes.read) ht' ?_ ?_ (htakes.refuses k hk)
    · rintro rfl
      exact not_mem_takeWhile hk
    · rintro rfl
      exact hfilename ((List.takeWhile_sublist _).mem hk)

end Value
end BrailleTable
