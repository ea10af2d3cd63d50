/-
Arguments are read back.

`Fits kind v` is what every value satisfies that a slot of the kind took from a token.  Such a value is written as one
unquoted token, and a slot of the kind takes it from that token again.
-/
import BrailleTable.Proofs.Text.Decimal
import BrailleTable.Proofs.Token.Kind
import BrailleTable.Proofs.Token.Spelling
import BrailleTable.Proofs.Value.CharClass
import BrailleTable.Proofs.Value.Dots
import BrailleTable.Proofs.Value.Name

namespace BrailleTable
namespace Value

open Escape

/-! ## What is read -/

/-- A value that a slot of the kind may hold, file names and quoted strings apart. -/
inductive Fits : SlotKind → Value Span → Prop
  | dots {cells : List (List Int)} {s : Span} : IsPattern cells → Fits .dots (.dots cells s)
  | character {c : CodePoint} {s : Span} : Fits .character (.character [c] s)
  | characters {t : Text} {s : Span} : t ≠ [] → Fits .characters (.string t s)
  | charClass {ranges : List (Text × Text)} {s : Span} :
      IsRanges ranges → Fits .charClass (.charClass ranges s)
  | number {n : Nat} {s : Span} : n < 10 ^ Text.digitLimit → Fits .number (.number n s)
  | name {t : Text} {s : Span} :
      IsName t → TokenKind.ofText t = .word → (∀ c ∈ t, c.isBlank = false) → Fits .name (.name t s)

theorem exists_of_readNumber {line : LogicalLine} {t : Token} {v : Value Span} (ht : t.CutFrom line)
    (h : readNumber t = .ok v) : ∃ n : Nat, v = .number n t.span ∧ n < 10 ^ Text.digitLimit := by
  unfold readNumber at h
  cases hrequire : requireKind t [.number] [.number] "number" with
  | error e =>
    rw [hrequire] at h
    cases h
  | ok u =>
    rw [hrequire] at h
    have hkind : t.kind = .number := List.mem_singleton.mp (requireKind_eq_ok_iff.mp hrequire)
    obtain ⟨htext, -, -⟩ := ht.plain (by rw [hkind]; decide)
    obtain ⟨hne, hall⟩ := TokenKind.isDigit_of_ofText_eq_number (htext.symm.trans hkind)
    rw [Text.readInteger_of_isDigit hne hall] at h
    by_cases hlimit : Text.digitLimit < t.text.length
    · rw [if_pos hlimit] at h
      cases h
    · rw [if_neg hlimit] at h
      cases h
      refine ⟨_, rfl, ?_⟩
      have hlt : Text.digitsValue (Text.digitValues t.text) < 10 ^ (Text.digitValues t.text).length := by
        refine Text.digitsValue_lt fun d hd => ?_
        obtain ⟨c, hc, rfl⟩ := List.mem_map.mp hd
        have hdigit := hall c hc
        unfold CodePoint.isDigit at hdigit
        rw [Bool.and_eq_true, decide_eq_true_iff, decide_eq_true_iff] at hdigit
        show c.val - 48 < 10
        omega
      have hlength : (Text.digitValues t.text).length = t.text.length := List.length_map _
      rw [hlength] at hlt
      exact Nat.lt_of_lt_of_le hlt (Nat.pow_le_pow_right (by decide) (Nat.le_of_not_lt hlimit))

theorem exists_of_readCharacters {t : Token} {v : Value Span} (h : readCharacters t = .ok v) :
    ∃ w, v = .string w t.span ∧ w ≠ [] := by
  unfold readCharacters at h
  obtain ⟨ds, -, h⟩ := bind_eq_ok h
  cases ds with
  | nil => cases h
  | cons d ds =>
    cases h
    exact ⟨_, rfl, List.cons_ne_nil _ _⟩

theorem exists_of_readCharacter {t : Token} {v : Value Span} (h : readCharacter t = .ok v) :
    ∃ c, v = .character [c] t.span := by
  unfold readCharacter at h
  obtain ⟨ds, -, h⟩ := bind_eq_ok h
  match ds with
  | [] => cases h
  | [d] =>
    cases h
    exact ⟨d.char, rfl⟩
  | _ :: _ :: _ => cases h

theorem fits_of_read {line : LogicalLine} {t : Token} {kind : SlotKind} {v : Value Span}
    (ht : t.CutFrom line) (hfilename : kind ≠ .filename) (hstring : kind ≠ .string)
    (h : kind.read dotDigits t = .ok v) : Fits kind v := by
  cases kind with
  | filename => exact absurd rfl hfilename
  | string => exact absurd rfl hstring
  | dots =>
    obtain ⟨cells, rfl, hcells⟩ := isPattern_of_readDots (mapError_eq_ok h)
    exact .dots hcells
  | character =>
    obtain ⟨c, rfl⟩ := exists_of_readCharacter (mapError_eq_ok h)
    exact .character
  | characters =>
    obtain ⟨w, rfl, hw⟩ := exists_of_readCharacters (mapError_eq_ok h)
    exact .characters hw
  | charClass =>
    obtain ⟨ranges, rfl, hranges⟩ := isRanges_of_readClass (mapError_eq_ok h)
    exact .charClass hranges
  | number =>
    obtain ⟨n, rfl, hn⟩ := exists_of_readNumber ht h
    exact .number hn
  | name =>
    obtain ⟨w, hname, rfl⟩ := map_eq_ok (mapError_eq_ok h)
    obtain ⟨hkind, rfl, hw⟩ := nameOf_eq_ok_iff.mp hname
    obtain ⟨hof, -, hblank⟩ := ht.plain (by rw [hkind]; decide)
    exact .name hw (hof.symm.trans hkind) hblank

/-! ## What is written -/

/-- The way the arguments of a directive are written: as unquoted tokens that end in no single backslash. -/
structure IsArgument (w : Text) : Prop where
  ne_nil : w ≠ []
  blank : ∀ c ∈ w, c.isBlank = false
  head : ∀ c, w.head? = some c → c ≠ '"' ∧ c ≠ '#'
  even : w.EndsEven

theorem IsArgument.isWord {w : Text} (h : IsArgument w) {rules : LexRules}
    (hrules : rules.commentMark = "#") : Lexer.IsWord rules false w where
  ne_nil := h.ne_nil
  blank := h.blank
  parenthesis := fun hin => by cases hin
  head := by
    intro c hc
    refine ⟨(h.head c hc).1, ?_⟩
    rw [hrules]
    intro heq
    exact (h.head c hc).2 (List.cons.inj heq).1

theorem IsArgument.isSealed {w : Text} (h : IsArgument w) : w.Sealed :=
  .of_forall h.ne_nil h.blank h.even

theorem IsArgument.sealed_cons {w : Text} (h : IsArgument w) {c : CodePoint} (hblank : c.isBlank = false)
    (hslash : c ≠ '\\') : Text.Sealed (c :: w) := by
  refine .of_forall (List.cons_ne_nil c w) (fun b hb => ?_) ?_
  · rcases List.mem_cons.mp hb with heq | hb
    · exact heq ▸ hblank
    · exact h.blank b hb
  · have hmark : Text.EndsEven [c] := .of_getLast? fun hlast => hslash (Option.some.inj hlast)
    exact hmark.append h.even

/-- What strings are written with. -/
def stringCare : Care := ⟨leadOf '#', [], []⟩

theorem stringCare_fits : stringCare.Fits [] where
  escaped := by decide
  numbers := by decide

theorem isArgument_writeString {t : Text} (hne : t ≠ []) : IsArgument (writeString '#' t) where
  ne_nil := by
    cases t with
    | nil => exact absurd rfl hne
    | cons c rest => exact List.append_ne_nil_of_left_ne_nil (encodeOne_ne_nil _ _ _) _
  blank := fun c hc => isBlank_of_mem_encode stringCare_fits hc
  head := by
    intro c hc
    have hlead : c ∉ stringCare.lead := head?_encode hc (by decide)
    have hmem : ('"' : CodePoint) ∈ stringCare.lead ∧ ('#' : CodePoint) ∈ stringCare.lead := by decide
    refine ⟨?_, ?_⟩
    · intro heq
      exact hlead (heq ▸ hmem.1)
    · intro heq
      exact hlead (heq ▸ hmem.2)
  even := endsEven_encode _ t

theorem isBlank_of_mem_boundText {c b : CodePoint} (h : b ∈ boundText c) : b.isBlank = false := by
  have hencode : encode classCare [c] = boundText c := List.append_nil _
  rw [← hencode] at h
  exact isBlank_of_mem_encode classCare_fits h

theorem isArgument_writeClass {ranges : List (Text × Text)} (h : IsRanges ranges) :
    IsArgument (writeClass ranges) := by
  obtain ⟨pairs, rfl, -, -⟩ := h
  rw [writeClass_rangesOf]
  refine ⟨List.cons_ne_nil _ _, ?_, ?_, ?_⟩
  · intro c hc
    rcases List.mem_cons.mp hc with rfl | hc
    · decide
    · rcases List.mem_append.mp hc with hc | hc
      · obtain ⟨u, hu, hc⟩ := List.mem_flatMap.mp hc
        obtain ⟨p, -, hu⟩ := List.mem_flatMap.mp hu
        unfold unitsOf at hu
        split at hu
        · rw [List.mem_singleton.mp hu] at hc
          exact isBlank_of_mem_boundText hc
        · simp only [List.mem_cons, List.not_mem_nil, or_false] at hu
          rcases hu with rfl | rfl | rfl
          · exact isBlank_of_mem_boundText hc
          · rw [List.mem_singleton.mp hc]
            decide
          · exact isBlank_of_mem_boundText hc
      · rw [List.mem_singleton.mp hc]
        decide
  · intro c hc
    cases hc
    decide
  · refine .of_getLast? ?_
    show (('[' : CodePoint) :: rangesText pairs ++ Text.ofString "]").getLast? ≠ _
    rw [List.getLast?_append_of_ne_nil _ (by decide)]
    decide

/-- Digits and dashes make an argument if a digit comes first. -/
theorem isArgument_of_mem_dotDigits {w : Text} (hhead : ∃ c rest, w = c :: rest ∧ c ∈ dotDigits)
    (h : ∀ c ∈ w, c ∈ dotDigits ∨ c = '-') : IsArgument w := by
  have hdigits : ∀ c ∈ dotDigits, c.isBlank = false ∧ c ≠ '"' ∧ c ≠ '#' ∧ c ≠ '\\' := by decide
  obtain ⟨d, rest, rfl, hd⟩ := hhead
  refine ⟨List.cons_ne_nil _ _, ?_, ?_, ?_⟩
  · intro c hc
    rcases h c hc with hc | rfl
    · exact (hdigits c hc).1
    · decide
  · intro c hc
    cases hc
    exact ⟨(hdigits d hd).2.1, (hdigits d hd).2.2.1⟩
  · refine .of_getLast? fun hlast => ?_
    rcases h _ (List.mem_of_getLast? hlast) with hc | hc
    · exact (hdigits _ hc).2.2.2 rfl
    · exact absurd hc (by decide)

theorem mem_dotDigits_of_isDigit {c : CodePoint} (h : c.isDigit = true) : c ∈ dotDigits := by
  refine mem_dotDigits_of_isDotDigit ?_
  unfold TokenKind.isDotDigit
  rw [h]
  rfl

theorem isArgument_writeDots {cells : List (List Int)} (h : IsPattern cells) :
    IsArgument (writeDots cells) :=
  isArgument_of_mem_dotDigits (head?_writeDots h) fun _ hc => mem_writeDots h.cell hc

theorem isArgument_ofNat (n : Nat) : IsArgument (Text.ofNat n) := by
  have hmem : ∀ c ∈ Text.ofNat n, c ∈ dotDigits := fun c hc =>
    mem_dotDigits_of_isDigit (Text.isDigit_of_mem_ofNat c hc)
  refine isArgument_of_mem_dotDigits ?_ fun c hc => .inl (hmem c hc)
  cases htext : Text.ofNat n with
  | nil => exact absurd htext (Text.ofNat_ne_nil n)
  | cons c rest => exact ⟨c, rest, rfl, hmem c (by rw [htext]; exact List.mem_cons_self)⟩

theorem isArgument_of_isName {w : Text} (h : IsName w) (hblank : ∀ c ∈ w, c.isBlank = false) :
    IsArgument w := by
  have hne : ∀ c ∈ w, c ≠ '"' ∧ c ≠ '#' ∧ c ≠ '\\' := by
    intro c hc
    have hchar := h.isNameChar_of_mem c hc
    refine ⟨?_, ?_, ?_⟩ <;>
      · intro heq
        rw [heq] at hchar
        exact absurd hchar (by decide)
  refine ⟨?_, hblank, fun c hc => ?_, .of_getLast? fun hlast => ?_⟩
  · obtain ⟨c, rest, rfl, -, -⟩ := h
    exact List.cons_ne_nil _ _
  · have hmem := List.mem_of_mem_head? hc
    exact ⟨(hne c hmem).1, (hne c hmem).2.1⟩
  · exact (hne _ (List.mem_of_getLast? hlast)).2.2 rfl

theorem Fits.isArgument {kind : SlotKind} {v : Value Span} (h : Fits kind v) :
    IsArgument (v.write '#' []) := by
  cases h with
  | dots hcells => exact isArgument_writeDots hcells
  | character => exact isArgument_writeString (List.cons_ne_nil _ _)
  | characters hne => exact isArgument_writeString hne
  | charClass hranges => exact isArgument_writeClass hranges
  | @number n s hn => exact isArgument_ofNat n
  | name hname hkind hblank => exact isArgument_of_isName hname hblank

/-! ## Reading back -/

variable {t : Token}

theorem decode_writeString {w : Text} (ht : t.IsPlain (writeString '#' w)) :
    ∃ ds, decode t [] = .ok ds ∧ ds.map Decoded.char = w := by
  have hquoted : t.kind ≠ .quoted := by
    rw [ht.kind_eq]
    exact TokenKind.ofText_ne_quoted _
  rw [decode_of_ne_quoted hquoted, ht.text_eq]
  exact decodeFrom_encode stringCare_fits w

theorem readCharacters_writeString {w : Text} (hne : w ≠ []) (ht : t.IsPlain (writeString '#' w)) :
    readCharacters t = .ok (.string w t.span) := by
  obtain ⟨ds, hdecode, hds⟩ := decode_writeString ht
  unfold readCharacters
  rw [hdecode]
  cases ds with
  | nil => exact absurd hds.symm hne
  | cons d ds =>
    rw [← hds]
    rfl

theorem readCharacter_writeString {c : CodePoint} (ht : t.IsPlain (writeString '#' [c])) :
    readCharacter t = .ok (.character [c] t.span) := by
  obtain ⟨ds, hdecode, hds⟩ := decode_writeString ht
  unfold readCharacter
  rw [hdecode]
  match ds with
  | [] => cases hds
  | [d] =>
    cases hds
    rfl
  | _ :: _ :: _ => cases hds

/-- A written pattern is sorted among the kinds that patterns are read from. -/
theorem ofText_writeDots_mem {cells : List (List Int)} (h : IsPattern cells) :
    TokenKind.ofText (writeDots cells) ∈ [TokenKind.dots, .number, .word] := by
  obtain ⟨c, rest, hhead, hc⟩ := head?_writeDots h
  have hdigits : ∀ c ∈ dotDigits, (c.isPunctuation || c.isSymbol) = false := by decide
  have hpunctuation : TokenKind.ofText (writeDots cells) ≠ .punctuation :=
    TokenKind.ofText_ne_punctuation (by rw [hhead]; exact List.mem_cons_self) (hdigits c hc)
  have hquoted := TokenKind.ofText_ne_quoted (writeDots cells)
  cases hk : TokenKind.ofText (writeDots cells) with
  | word => decide
  | number => decide
  | dots => decide
  | punctuation => exact absurd hk hpunctuation
  | quoted => exact absurd hk hquoted

theorem readDots_writeDots {alphabet : Text} (halphabet : ∀ c ∈ alphabet, TokenKind.isDotDigit c = true)
    {cells : List (List Int)} (h : IsPatternOf alphabet cells) (ht : t.IsPlain (writeDots cells)) :
    readDots alphabet t = .ok (.dots cells t.span) := by
  have hkind := ofText_writeDots_mem (h.isPattern halphabet)
  rw [← ht.kind_eq] at hkind
  unfold readDots
  rw [requireKind_eq_ok_iff.mpr hkind, ht.text_eq, readCells_writeDots halphabet h]
  rfl

theorem readNumber_ofNat {n : Nat} (h : n < 10 ^ Text.digitLimit) (ht : t.IsPlain (Text.ofNat n)) :
    readNumber t = .ok (.number n t.span) := by
  have hkind : t.kind = .number := by
    rw [ht.kind_eq]
    unfold TokenKind.ofText
    rw [if_pos ⟨Text.ofNat_ne_nil n, List.all_eq_true.mpr Text.isDigit_of_mem_ofNat⟩]
  unfold readNumber
  rw [requireKind_eq_ok_iff.mpr (List.mem_singleton.mpr hkind), ht.text_eq]
  dsimp only
  rw [Text.readInteger_ofNat (by decide) (Nat.le_refl _) h]

theorem readClass_isPlain {ranges : List (Text × Text)} (h : IsRanges ranges)
    (ht : t.IsPlain (writeClass ranges)) : readClass t = .ok (.charClass ranges t.span) := by
  have hmem : ('[' : CodePoint) ∈ writeClass ranges := List.mem_cons_self
  have hkind : t.kind ∈ [TokenKind.word, .punctuation] := by
    rw [ht.kind_eq]
    have hnumber : TokenKind.ofText (writeClass ranges) ≠ .number :=
      TokenKind.ofText_ne_number hmem (by decide)
    have hdots : TokenKind.ofText (writeClass ranges) ≠ .dots :=
      TokenKind.ofText_ne_dots hmem (by decide) (by decide)
    cases hk : TokenKind.ofText (writeClass ranges) with
    | word => decide
    | punctuation => decide
    | number => exact absurd hk hnumber
    | dots => exact absurd hk hdots
    | quoted => exact absurd hk (TokenKind.ofText_ne_quoted _)
  exact readClass_writeClass h hkind ht.text_eq

/-- A slot takes back what was written for it. -/
theorem Fits.read {kind : SlotKind} {v : Value Span} (h : Fits kind v)
    (ht : t.IsPlain (v.write '#' [])) : ∃ v', kind.read dotDigits t = .ok v' ∧ v'.bare = v.bare := by
  cases h with
  | dots hcells =>
    have hread := readDots_writeDots Dialect.standard.dotAlphabet_digits hcells.isPatternOf ht
    exact ⟨_, congrArg (Except.mapError Failure.parse) hread, rfl⟩
  | character =>
    exact ⟨_, congrArg (Except.mapError Failure.parse) (readCharacter_writeString ht), rfl⟩
  | characters hne =>
    exact ⟨_, congrArg (Except.mapError Failure.parse) (readCharacters_writeString hne ht), rfl⟩
  | charClass hranges =>
    exact ⟨_, congrArg (Except.mapError Failure.parse) (readClass_isPlain hranges ht), rfl⟩
  | number hn => exact ⟨_, readNumber_ofNat hn ht, rfl⟩
  | @name w s hname hkind hblank =>
    have hread : readName t = .ok (.name w t.span) := by
      unfold readName
      rw [nameOf_eq_ok_iff.mpr ⟨ht.kind_eq.trans hkind, ht.text_eq, hname⟩]
      rfl
    exact ⟨_, congrArg (Except.mapError Failure.parse) hread, rfl⟩

end Value
end BrailleTable
