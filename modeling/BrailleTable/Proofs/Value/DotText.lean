/-
Dot patterns and the texts they are written as.

What a pattern is read from is cells of digits with a dash between any two of them, and every such text is read: whatever
kind its spelling has, it is one of those that patterns are read from.  Reading and writing are inverse to each other, for
a digit is what its value is written as.
-/
import BrailleTable.Proofs.Value.RoundTrip
import Mathlib.Data.List.Nodup

namespace BrailleTable
namespace Value

/-- Cells with one dash between any two of them.  A cell has at least one digit of the alphabet, and none of them twice. -/
def IsDotText (alphabet s : Text) : Prop :=
  ∃ cells : List Text, cells ≠ [] ∧ (∀ cell ∈ cells, cell ≠ [] ∧ cell.Nodup ∧ ∀ c ∈ cell, c ∈ alphabet) ∧
    s = Text.join "-" cells

/-- The dot that a digit names. -/
def dotOf (c : CodePoint) : Int := ((c.hexValue?.getD 0 : Nat) : Int)

/-- A cell is the dots that its digits name, and these are digits of the alphabet. -/
theorem IsCellOf.exists_eq_map {alphabet : Text} {cell : List Int} (h : IsCellOf alphabet cell) :
    ∃ digits : Text, cell = digits.map dotOf ∧ ∀ c ∈ digits, c ∈ alphabet := by
  obtain ⟨-, -, hdigit⟩ := h
  induction cell with
  | nil => exact ⟨[], rfl, fun _ hc => absurd hc List.not_mem_nil⟩
  | cons dot dots ih =>
    obtain ⟨c, hc, n, hvalue, rfl⟩ := hdigit dot List.mem_cons_self
    obtain ⟨digits, rfl, hdigits⟩ := ih fun dot' hdot' => hdigit dot' (List.mem_cons_of_mem _ hdot')
    refine ⟨c :: digits, ?_, List.forall_mem_cons.mpr ⟨hc, hdigits⟩⟩
    rw [List.map_cons, dotOf, hvalue, Option.getD_some]

section

variable {alphabet : Text} (halphabet : ∀ c ∈ alphabet, TokenKind.isDotDigit c = true)

include halphabet

theorem exists_dotOf {c : CodePoint} (hc : c ∈ alphabet) : ∃ n : Nat, c.hexValue? = some n ∧ dotOf c = n := by
  obtain ⟨n, -, hvalue⟩ := exists_of_isDotDigit (halphabet c hc)
  refine ⟨n, hvalue, ?_⟩
  unfold dotOf
  rw [hvalue, Option.getD_some]

theorem hexInteger_dotOf {c : CodePoint} (hc : c ∈ alphabet) : Text.hexInteger (dotOf c) = [c] := by
  obtain ⟨n, hvalue, hdot⟩ := exists_dotOf halphabet hc
  rw [hdot]
  exact hexInteger_eq_of_isDotDigit (halphabet c hc) hvalue

/-- The digits of a cell are those its dots are written as. -/
theorem flatMap_hexInteger_map {cell : Text} (hcell : ∀ c ∈ cell, c ∈ alphabet) :
    (cell.map dotOf).flatMap Text.hexInteger = cell := by
  induction cell with
  | nil => rfl
  | cons c rest ih =>
    rw [List.map_cons, List.flatMap_cons, hexInteger_dotOf halphabet (hcell c List.mem_cons_self),
      ih fun b hb => hcell b (List.mem_cons_of_mem _ hb)]
    rfl

theorem isCellOf_map {cell : Text} (hne : cell ≠ []) (hnodup : cell.Nodup) (hcell : ∀ c ∈ cell, c ∈ alphabet) :
    IsCellOf alphabet (cell.map dotOf) where
  ne_nil := fun hnil => hne (List.map_eq_nil_iff.mp hnil)
  nodup := by
    refine List.Nodup.map_on (fun b hb c hc heq => ?_) hnodup
    have hwritten := hexInteger_dotOf halphabet (hcell b hb)
    rw [heq, hexInteger_dotOf halphabet (hcell c hc)] at hwritten
    exact (List.singleton_inj.mp hwritten).symm
  digit := by
    intro dot hdot
    obtain ⟨c, hc, rfl⟩ := List.mem_map.mp hdot
    exact ⟨c, hcell c hc, exists_dotOf halphabet (hcell c hc)⟩

theorem isDotText_iff {s : Text} : IsDotText alphabet s ↔ ∃ cells, IsPatternOf alphabet cells ∧ s = writeDots cells := by
  constructor
  · rintro ⟨cells, hne, hcells, rfl⟩
    refine ⟨cells.map (List.map dotOf), ⟨fun hnil => hne (List.map_eq_nil_iff.mp hnil), fun dots hdots => ?_⟩, ?_⟩
    · obtain ⟨cell, hcell, rfl⟩ := List.mem_map.mp hdots
      obtain ⟨hcellne, hnodup, hdigits⟩ := hcells cell hcell
      exact isCellOf_map halphabet hcellne hnodup hdigits
    · have hwritten : ∀ cell ∈ cells, (cell.map dotOf).flatMap Text.hexInteger = cell := fun cell hcell =>
        flatMap_hexInteger_map halphabet (hcells cell hcell).2.2
      unfold writeDots
      have hmap : cells.map ((fun cell => cell.flatMap Text.hexInteger) ∘ List.map dotOf) = cells.map id :=
        List.map_congr_left hwritten
      rw [List.map_map, hmap, List.map_id]
  · rintro ⟨cells, ⟨hne, hcells⟩, rfl⟩
    refine ⟨cells.map fun cell => cell.flatMap Text.hexInteger, fun hnil => hne (List.map_eq_nil_iff.mp hnil),
      fun text htext => ?_, rfl⟩
    obtain ⟨cell, hcell, rfl⟩ := List.mem_map.mp htext
    obtain ⟨digits, rfl, hdigits⟩ := (hcells cell hcell).exists_eq_map
    rw [flatMap_hexInteger_map halphabet hdigits]
    have hnodup := List.Nodup.of_map dotOf (hcells _ hcell).nodup
    exact ⟨fun hnil => (hcells _ hcell).ne_nil (by rw [hnil, List.map_nil]), hnodup, hdigits⟩

end

/-- Patterns and their texts.  An unquoted token of the lexer is read as dots exactly if it is cells of digits of the
alphabet with dashes between them, and what is read is written as the token; and every pattern is written as a text that
has one of the kinds patterns are read from, and is read from it. -/
theorem readDots_iff_isDotText (d : Dialect) :
    (∀ (lx : Lexer) (t : Token), lx.read.1 = .ok (some t) → t.kind ≠ .quoted →
      ((∃ v, readDots d.dotAlphabet t = .ok v) ↔ IsDotText d.dotAlphabet t.text) ∧
      ∀ v, readDots d.dotAlphabet t = .ok v →
        ∃ cells, v = .dots cells t.span ∧ IsPatternOf d.dotAlphabet cells ∧ writeDots cells = t.text) ∧
    (∀ cells, IsPatternOf d.dotAlphabet cells →
      TokenKind.ofText (writeDots cells) ∈ [TokenKind.dots, .number, .word] ∧
      ∀ t : Token, t.IsPlain (writeDots cells) → readDots d.dotAlphabet t = .ok (.dots cells t.span)) := by
  have halphabet := d.dotAlphabet_digits
  refine ⟨fun lx t hread hquoted => ⟨⟨?_, ?_⟩, fun v hv => ?_⟩, fun cells hcells => ⟨?_, fun t ht => ?_⟩⟩
  · rintro ⟨v, hv⟩
    obtain ⟨cells, -, hpattern, htext⟩ := writeDots_of_readDots halphabet hv
    exact (isDotText_iff halphabet).mpr ⟨cells, hpattern, htext⟩
  · intro htext
    obtain ⟨cells, hpattern, hwritten⟩ := (isDotText_iff halphabet).mp htext
    obtain ⟨line, hcut⟩ := Lexer.exists_cutFrom_of_read hread
    exact ⟨_, readDots_writeDots halphabet hpattern (hwritten ▸ hcut.isPlain hquoted)⟩
  · obtain ⟨cells, rfl, hpattern, htext⟩ := writeDots_of_readDots halphabet hv
    exact ⟨cells, rfl, hpattern, htext.symm⟩
  · exact ofText_writeDots_mem (hcells.isPattern halphabet)
  · exact readDots_writeDots halphabet hcells ht

/-- The standard dialect with the eight dots of a cell. -/
def eightDots : Dialect :=
  { Dialect.standard with dotAlphabet := "12345678", dotAlphabet_digits := by decide }

def dotsLine : LogicalLine := .single "145-28" ⟨1, 1, 0⟩

def dotsToken : Token := .plain dotsLine .dots 0 6

theorem readDots_iff_isDotText_dotsToken :
    (Lexer.basic.reset dotsLine).read.1 = .ok (some dotsToken) ∧ IsDotText eightDots.dotAlphabet dotsToken.text ∧
    (∃ v, readDots eightDots.dotAlphabet dotsToken = .ok v) ∧ IsPatternOf eightDots.dotAlphabet [[1, 4, 5], [2, 8]] ∧
    readDots eightDots.dotAlphabet dotsToken = .ok (.dots [[1, 4, 5], [2, 8]] dotsToken.span) := by
  have hread : (Lexer.basic.reset dotsLine).read.1 = .ok (some dotsToken) := by decide +kernel
  have htext : IsDotText eightDots.dotAlphabet dotsToken.text :=
    ⟨["145", "28"], by decide +kernel, by decide +kernel, by decide +kernel⟩
  have hone : IsCellOf eightDots.dotAlphabet ((Text.ofString "145").map dotOf) :=
    isCellOf_map eightDots.dotAlphabet_digits (by decide +kernel) (by decide +kernel) (by decide +kernel)
  have htwo : IsCellOf eightDots.dotAlphabet ((Text.ofString "28").map dotOf) :=
    isCellOf_map eightDots.dotAlphabet_digits (by decide +kernel) (by decide +kernel) (by decide +kernel)
  have hpattern : IsPatternOf eightDots.dotAlphabet [[1, 4, 5], [2, 8]] :=
    ⟨List.cons_ne_nil _ _, List.forall_mem_cons.mpr ⟨hone, List.forall_mem_singleton.mpr htwo⟩⟩
  have hplain : dotsToken.IsPlain (writeDots [[1, 4, 5], [2, 8]]) := ⟨by decide +kernel, by decide +kernel⟩
  obtain ⟨hreads, hwrites⟩ := readDots_iff_isDotText eightDots
  exact ⟨hread, htext, (hreads _ _ hread (by decide)).1.mpr htext, hpattern, (hwrites _ hpattern).2 _ hplain⟩

/-- The word that nothing is spelled by. -/
def emptyWord : Token := ⟨.word, [], [], .point ⟨1, 1, 0⟩, 0, 0, none⟩

/-- A pattern without cells has none that is empty, and the text it is written as has a kind that patterns are read from;
but what is read has a cell. -/
theorem readDots_emptyWord : (∀ cell ∈ ([] : List (List Int)), IsCellOf Dialect.standard.dotAlphabet cell) ∧
    emptyWord.IsPlain (writeDots []) ∧ TokenKind.ofText (writeDots []) ∈ [TokenKind.dots, .number, .word] ∧
    readDots Dialect.standard.dotAlphabet emptyWord ≠ .ok (.dots [] emptyWord.span) :=
  ⟨fun _ hcell => absurd hcell List.not_mem_nil, ⟨by decide +kernel, rfl⟩, by decide +kernel, by decide +kernel⟩

end Value
end BrailleTable
