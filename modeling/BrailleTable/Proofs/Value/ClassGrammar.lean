/-
The grammar of character classes.

  class := "[" item+ "]"
  item  := element "-" element / element

An element is a code point with one of its spellings, and a bracket that is not escaped starts no item.  Only a dash that
is not escaped makes a range, and only where another element follows it; since ranges are preferred, a text has one reading
at most.  The class that is read from a text has the code points that its items match.
-/
import BrailleTable.Proofs.Value.ClassEscape
import BrailleTable.Proofs.Value.EscapeGrammar

namespace BrailleTable
namespace Value

open Escape (Decoded Spells decode decodeFrom layout)

/-! ## Items -/

/-- One code point, or those from one to another. -/
inductive ClassItem where
  | single (c : CodePoint)
  | range (lo hi : CodePoint)
deriving DecidableEq

namespace ClassItem

def Matches (c : CodePoint) : ClassItem → Prop
  | .single a => c = a
  | .range lo hi => lo ≤ c ∧ c ≤ hi

/-- The range of an item.  One code point is the range from itself to itself. -/
def bounds : ClassItem → Text × Text
  | .single a => ([a], [a])
  | .range lo hi => ([lo], [hi])

end ClassItem

/-- A bracket that is not escaped. -/
def IsBareBracket (w : Text) : Prop := w = "]" ∨ w = "["

instance : DecidablePred IsBareBracket := fun _ => inferInstanceAs (Decidable (_ ∨ _))

/-- The items that elements make, from left to right.  An element is a code point and the way it is spelled. -/
inductive AreItems : List (CodePoint × Text) → List ClassItem → Prop
  | nil : AreItems [] []
  | range {lo dash hi : CodePoint × Text} {us : List (CodePoint × Text)} {items : List ClassItem} :
      ¬ IsBareBracket lo.2 → dash.2 = "-" → lo.1 ≤ hi.1 → AreItems us items →
      AreItems (lo :: dash :: hi :: us) (.range lo.1 hi.1 :: items)
  | single {u : CodePoint × Text} {us : List (CodePoint × Text)} {items : List ClassItem} :
      ¬ IsBareBracket u.2 → (∀ dash hi rest, us = dash :: hi :: rest → dash.2 ≠ "-") → AreItems us items →
      AreItems (u :: us) (.single u.1 :: items)

/-- The text is a class with these items: elements between brackets, one at least. -/
def IsClass (text : Text) (items : List ClassItem) : Prop :=
  ∃ us : List (CodePoint × Text), us ≠ [] ∧ (∀ u ∈ us, Spells "]-[" u.1 u.2) ∧ AreItems us items ∧
    text = ('[' : CodePoint) :: (us.flatMap Prod.snd ++ "]")

theorem isHarmless_brackets : Escape.IsHarmless "]-[" := by
  unfold Escape.IsHarmless
  decide

/-! ## Reading the items -/

section

variable {whole body : Token} {us : List (CodePoint × Text)} {items : List ClassItem} {ranges : List (Text × Text)}

theorem guardBracket_eq_ok_iff {d : Decoded} :
    readItems.guardBracket body d = .ok () ↔ ¬ IsBareBracket (readItems.raw body d) := by
  unfold readItems.guardBracket IsBareBracket
  split
  · rename_i hbracket
    exact iff_of_false (fun h => by cases h) (not_not.mpr hbracket)
  · rename_i hbracket
    exact iff_of_true rfl hbracket

/-- Whatever is read starts with an element that may start an item. -/
theorem guardBracket_of_readItems {a : Decoded} {ds : List Decoded} (h : readItems whole body (a :: ds) = .ok ranges) :
    readItems.guardBracket body a = .ok () := by
  match ds with
  | [] =>
    unfold readItems at h
    obtain ⟨_, ha, -⟩ := bind_eq_ok h
    exact ha
  | [b] =>
    unfold readItems at h
    obtain ⟨_, ha, -⟩ := bind_eq_ok h
    exact ha
  | b :: c :: rest =>
    unfold readItems at h
    obtain ⟨_, ha, -⟩ := bind_eq_ok h
    exact ha

/-- A range that is read does not descend. -/
theorem le_of_readItems {a dash b : Decoded} {ds : List Decoded} (hdash : readItems.raw body dash = "-")
    (h : readItems whole body (a :: dash :: b :: ds) = .ok ranges) : a.char ≤ b.char := by
  unfold readItems at h
  obtain ⟨_, -, h⟩ := bind_eq_ok h
  rw [if_pos hdash] at h
  split at h
  · cases h
  · rename_i hlt
    exact Nat.le_of_not_lt hlt

/-- Where another element follows, and a dash stands before it, an item is a range. -/
theorem exists_dash_or (us : List (CodePoint × Text)) :
    (∃ dash hi rest, us = dash :: hi :: rest ∧ dash.2 = Text.ofString "-") ∨
      ∀ dash hi rest, us = dash :: hi :: rest → dash.2 ≠ Text.ofString "-" := by
  by_cases hdash : ∃ dash hi rest, us = dash :: hi :: rest ∧ dash.2 = Text.ofString "-"
  · exact .inl hdash
  · exact .inr fun dash hi rest hus heq => hdash ⟨dash, hi, rest, hus, heq⟩

/-- No dash and another element are read next where none are written. -/
theorem raw_ne_dash {i : Nat} (h : LaidOut body i us)
    (hus : ∀ dash hi rest, us = dash :: hi :: rest → dash.2 ≠ Text.ofString "-") :
    ∀ dash b rest, layout i us = dash :: b :: rest → readItems.raw body dash ≠ "-" := by
  intro dash b rest hlayout
  match us with
  | [] => cases hlayout
  | [u] => cases hlayout
  | u :: v :: more =>
    cases hlayout
    rw [h.raw]
    exact hus u v more rfl

theorem AreItems.readItems_eq (h : AreItems us items) {i : Nat} (hus : LaidOut body i us) :
    readItems whole body (layout i us) = .ok (items.map ClassItem.bounds) := by
  induction h generalizing i with
  | nil => rfl
  | @range lo dash hi us items hlo hdash hle _ ih =>
    have hguard : readItems.guardBracket body ⟨lo.1, i, i + lo.2.length⟩ = .ok () := by
      rw [guardBracket_eq_ok_iff, hus.raw]
      exact hlo
    have hraw : readItems.raw body ⟨dash.1, i + lo.2.length, _⟩ = "-" := hus.tail.raw.trans hdash
    rw [layout, layout, layout, readItems_range hguard hraw hle, ih hus.tail.tail.tail]
    rfl
  | @single u us items hu hnext _ ih =>
    have hguard : readItems.guardBracket body ⟨u.1, i, i + u.2.length⟩ = .ok () := by
      rw [guardBracket_eq_ok_iff, hus.raw]
      exact hu
    rw [layout, readItems_single hguard (raw_ne_dash hus.tail hnext), ih hus.tail]
    rfl

theorem exists_areItems {us : List (CodePoint × Text)} {ranges : List (Text × Text)} {i : Nat} (hus : LaidOut body i us)
    (h : readItems whole body (layout i us) = .ok ranges) :
    ∃ items, AreItems us items ∧ ranges = items.map ClassItem.bounds := by
  match us with
  | [] =>
    cases h
    exact ⟨[], .nil, rfl⟩
  | u :: us =>
    have hguard := guardBracket_of_readItems h
    have hu : ¬ IsBareBracket u.2 := by
      rw [guardBracket_eq_ok_iff, hus.raw] at hguard
      exact hguard
    rcases exists_dash_or us with ⟨dash, hi, rest, rfl, hdash⟩ | hnext
    · have hraw : readItems.raw body ⟨dash.1, _, _⟩ = "-" := hus.tail.raw.trans hdash
      have hle := le_of_readItems hraw h
      rw [layout, layout, layout, readItems_range hguard hraw hle] at h
      obtain ⟨more, hmore, rfl⟩ := map_eq_ok h
      obtain ⟨items, hitems, rfl⟩ := exists_areItems hus.tail.tail.tail hmore
      exact ⟨_, .range hu hdash hle hitems, rfl⟩
    · rw [layout, readItems_single hguard (raw_ne_dash hus.tail hnext)] at h
      obtain ⟨more, hmore, rfl⟩ := map_eq_ok h
      obtain ⟨items, hitems, rfl⟩ := exists_areItems hus.tail hmore
      exact ⟨_, .single hu hnext hitems, rfl⟩
termination_by us.length

end

/-! ## Reading a class -/

variable {t : Token} {items : List ClassItem}

/-- An unquoted token that starts with a bracket has one of the kinds that classes are read from. -/
theorem kind_mem_of_bracket {inner : Text} (ht : t.IsPlain t.text) (htext : t.text = ('[' : CodePoint) :: inner) :
    t.kind ∈ [TokenKind.word, .punctuation] := by
  have hmem : ('[' : CodePoint) ∈ t.text := by
    rw [htext]
    exact List.mem_cons_self
  have hnumber := TokenKind.ofText_ne_number hmem (by decide)
  have hdots := TokenKind.ofText_ne_dots hmem (by decide) (by decide)
  have hquoted := TokenKind.ofText_ne_quoted t.text
  rw [ht.kind_eq]
  cases hkind : TokenKind.ofText t.text with
  | word => decide
  | punctuation => decide
  | number => exact absurd hkind hnumber
  | dots => exact absurd hkind hdots
  | quoted => exact absurd hkind hquoted

theorem IsClass.readClass_eq (h : IsClass t.text items) (ht : t.IsPlain t.text) :
    readClass t = .ok (.charClass (items.map ClassItem.bounds) t.span) := by
  obtain ⟨us, hne, hspells, hitems, htext⟩ := h
  exact readClass_of_decodes (kind_mem_of_bracket ht htext) hne htext
    (fun u hu => (hspells u hu).decodes isHarmless_brackets) (hitems.readItems_eq ⟨"]", rfl⟩)

theorem exists_isClass_of_readClass {v : Value Span} (h : readClass t = .ok v) :
    ∃ items, IsClass t.text items ∧ v = .charClass (items.map ClassItem.bounds) t.span := by
  obtain ⟨inner, ds, close, ranges, -, htext, hdecode, hclose, hne, hread, rfl⟩ := readClass_eq_ok h
  have hquoted : t.kind ≠ .quoted := ne_quoted_of_readClass h
  have hbody : (classBody t inner).kind ≠ .quoted := hquoted
  have hdecoded : decodeFrom (classBody t inner) "]-[" 0 inner = .ok (ds ++ [close]) :=
    (Escape.decode_of_ne_quoted hbody).symm.trans hdecode
  obtain ⟨us, hinner, hlayout, hspells⟩ := Escape.exists_spells_of_decodeFrom hdecoded
  -- The last of the elements is the closing bracket, and the others are what the items are read from.
  rcases List.eq_nil_or_concat' us with rfl | ⟨us, u, rfl⟩
  · exact absurd hlayout (List.append_ne_nil_of_right_ne_nil _ (List.cons_ne_nil _ _))
  · rw [layout_append] at hlayout
    obtain ⟨rfl, hlast⟩ := List.append_inj' hlayout rfl
    obtain rfl := List.singleton_inj.mp hlast
    rw [List.flatMap_append, List.flatMap_singleton] at hinner
    have hdrop : inner.drop (0 + (us.flatMap Prod.snd).length) = u.2 ++ [] := by
      rw [hinner, Nat.zero_add, List.drop_left, List.append_nil]
    have hu : u.2 = Text.ofString "]" := (Text.slice_of_drop_eq hdrop).symm.trans hclose
    have hlaid : LaidOut (classBody t inner) 0 us := ⟨u.2, hinner⟩
    obtain ⟨items, hitems, rfl⟩ := exists_areItems hlaid hread
    refine ⟨items, ⟨us, ?_, fun v hv => hspells v (List.mem_append_left _ hv), hitems, ?_⟩, rfl⟩
    · rintro rfl
      exact hne rfl
    · rw [htext, hinner, hu]

/-! ## What a class stands for -/

theorem singleton_le_iff {a b : CodePoint} : ([a] : Text) ≤ [b] ↔ a ≤ b := by
  have hlt : ([b] : Text) < [a] ↔ b < a := by
    rw [List.cons_lt_cons_iff]
    exact or_iff_left fun h => List.not_lt_nil [] h.2
  exact (not_congr hlt).trans Nat.not_lt

theorem classContains_bounds (items : List ClassItem) (c : CodePoint) :
    classContains (items.map ClassItem.bounds) [c] = true ↔ ∃ item ∈ items, item.Matches c := by
  unfold classContains
  rw [List.any_map, List.any_eq_true]
  refine exists_congr fun item => and_congr_right fun _ => ?_
  rw [Function.comp_apply, Bool.and_eq_true, decide_eq_true_iff, decide_eq_true_iff]
  cases item with
  | single a =>
    show [a] ≤ [c] ∧ [c] ≤ [a] ↔ c = a
    rw [singleton_le_iff, singleton_le_iff]
    refine ⟨fun h => CodePoint.ext_val (Nat.le_antisymm h.2 h.1), ?_⟩
    rintro rfl
    exact ⟨Nat.le_refl _, Nat.le_refl _⟩
  | range lo hi =>
    show [lo] ≤ [c] ∧ [c] ≤ [hi] ↔ lo ≤ c ∧ c ≤ hi
    rw [singleton_le_iff, singleton_le_iff]

/-- A class stands for what is written.  An unquoted token of the lexer is read as a class exactly if it is one in the
grammar, and a code point is in the class exactly if one of its items matches it. -/
theorem readClass_iff_isClass {lx : Lexer} {t : Token} (hread : lx.read.1 = .ok (some t)) (hquoted : t.kind ≠ .quoted) :
    ((∃ v, readClass t = .ok v) ↔ ∃ items, IsClass t.text items) ∧
    ∀ v, readClass t = .ok v → ∃ ranges, v = .charClass ranges t.span ∧
      ∀ items, IsClass t.text items → ∀ c, classContains ranges [c] = true ↔ ∃ item ∈ items, item.Matches c := by
  obtain ⟨line, hcut⟩ := Lexer.exists_cutFrom_of_read hread
  have hplain := hcut.isPlain hquoted
  refine ⟨⟨?_, ?_⟩, fun v hv => ?_⟩
  · rintro ⟨v, hv⟩
    obtain ⟨items, hclass, -⟩ := exists_isClass_of_readClass hv
    exact ⟨items, hclass⟩
  · rintro ⟨items, hclass⟩
    exact ⟨_, hclass.readClass_eq hplain⟩
  · obtain ⟨items, hclass, rfl⟩ := exists_isClass_of_readClass hv
    refine ⟨_, rfl, fun items' hclass' c => ?_⟩
    -- Reading gives one answer, so the items have the same bounds whichever way the text is taken apart.
    have hok := hclass'.readClass_eq hplain
    rw [hv] at hok
    rw [(Value.charClass.inj (Except.ok.inj hok)).1]
    exact classContains_bounds items' c

/-- A class with a range, an escaped bracket and a dash that no element follows. -/
def classLine : LogicalLine := .single "[a-c\\]-]" ⟨1, 1, 0⟩

def classToken : Token := .plain classLine .word 0 8

def classItems : List ClassItem := [.range 'a' 'c', .single ']', .single '-']

theorem isClass_classToken : IsClass classToken.text classItems := by
  refine ⟨[('a', "a"), ('-', "-"), ('c', "c"), (']', "\\]"), ('-', "-")], List.cons_ne_nil _ _, ?_, ?_, by decide +kernel⟩
  · have hdash : Spells "]-[" '-' "-" := .plain (by decide)
    have hbracket : Spells "]-[" ']' "\\]" := .escaped (by decide)
    simp only [List.forall_mem_cons]
    exact ⟨.plain (by decide), hdash, .plain (by decide), hbracket, hdash, List.forall_mem_nil _⟩
  · refine .range (by decide) rfl (by decide) (.single (by decide) ?_ (.single (by decide) ?_ .nil))
    · rintro _ _ _ ⟨⟩
    · rintro _ _ _ ⟨⟩

theorem readClass_iff_isClass_classToken :
    (Lexer.basic.reset classLine).read.1 = .ok (some classToken) ∧ classToken.kind ≠ .quoted ∧
    ∃ ranges, readClass classToken = .ok (.charClass ranges classToken.span) ∧ classContains ranges ['b'] = true ∧
      classContains ranges ['d'] = false := by
  have hread : (Lexer.basic.reset classLine).read.1 = .ok (some classToken) := by decide +kernel
  have hquoted : classToken.kind ≠ .quoted := by decide
  obtain ⟨hiff, hvalue⟩ := readClass_iff_isClass hread hquoted
  obtain ⟨v, hv⟩ := hiff.mpr ⟨classItems, isClass_classToken⟩
  obtain ⟨ranges, rfl, hcontains⟩ := hvalue v hv
  refine ⟨hread, hquoted, ranges, hv, (hcontains _ isClass_classToken 'b').mpr ?_, ?_⟩
  · exact ⟨.range 'a' 'c', List.mem_cons_self, by decide, by decide⟩
  · rw [Bool.eq_false_iff, ne_eq, hcontains _ isClass_classToken]
    rintro ⟨item, hitem, hmatches⟩
    simp only [classItems, List.mem_cons, List.not_mem_nil, or_false] at hitem
    rcases hitem with rfl | rfl | rfl
    · exact absurd hmatches.2 (by decide)
    · cases hmatches
    · cases hmatches

end Value
end BrailleTable
