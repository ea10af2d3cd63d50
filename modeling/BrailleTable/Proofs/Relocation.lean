/-
A line that stands elsewhere.

A `Relocation` is a line, another line with the same text, and what becomes of the ranges of the first in the second.
Readers look at the text of tokens and lines and only carry places along, so whatever they give for the second line is
what they give for the first, with its ranges moved (`Agree`).
-/
import BrailleTable.Proofs.Result
import BrailleTable.Token
import BrailleTable.Value

namespace BrailleTable

/-- The range with its offsets and line numbers replaced.  Columns stay. -/
def Span.carry (offset row : Int → Int) (s : Span) : Span :=
  ⟨offset s.start, offset s.stop, row s.line, s.col, row s.endLine, s.endCol⟩

/-- Two lines with one text, and where the offsets and the line numbers of the first are found in the second. -/
structure Relocation where
  line : LogicalLine
  image : LogicalLine
  offset : Int → Int
  row : Int → Int
  text_eq : image.text = line.text
  span_eq : ∀ i j, image.span i j = (line.span i j).carry offset row
  /-- Offsets keep their order. -/
  offset_le : ∀ a b, offset a ≤ offset b ↔ a ≤ b

namespace Relocation

variable (v : Relocation)

def span : Span → Span := Span.carry v.offset v.row

theorem span_image (i j : Int) : v.image.span i j = v.span (v.line.span i j) := v.span_eq i j

theorem endSpan_image : v.image.endSpan = v.span v.line.endSpan := by
  unfold LogicalLine.endSpan
  rw [v.text_eq, v.span_image]

theorem start_lt (a b : Span) : (v.span a).start < (v.span b).start ↔ a.start < b.start := by
  have hle : (v.span b).start ≤ (v.span a).start ↔ b.start ≤ a.start := v.offset_le b.start a.start
  omega

theorem start_eq (a b : Span) : (v.span a).start = (v.span b).start ↔ a.start = b.start := by
  have hle : (v.span a).start ≤ (v.span b).start ↔ a.start ≤ b.start := v.offset_le a.start b.start
  have hge : (v.span b).start ≤ (v.span a).start ↔ b.start ≤ a.start := v.offset_le b.start a.start
  omega

/-- The range that covers two ranges moves with them, since the order of their ends does not change. -/
theorem merge_span (a b : Span) : (v.span a).merge (v.span b) = v.span (a.merge b) := by
  have hfirst : (v.span a).start ≤ (v.span b).start ↔ a.start ≤ b.start := v.offset_le a.start b.start
  have hlast : (v.span b).stop ≤ (v.span a).stop ↔ b.stop ≤ a.stop := v.offset_le b.stop a.stop
  unfold Span.merge
  simp only [hfirst, hlast]
  split <;> split <;> rfl

/-- A token that was cut from the line. -/
def Holds (v : Relocation) (t : Token) : Prop := t.source = some v.line

end Relocation

/-! ## Tokens -/

namespace Token

variable {v : Relocation} {t : Token}

def move (v : Relocation) (t : Token) : Token :=
  { t with span := v.span t.span, source := t.source.map fun _ => v.image }

@[simp] theorem text_move : (t.move v).text = t.text := rfl

@[simp] theorem span_move : (t.move v).span = v.span t.span := rfl

theorem subSpan_move (ht : v.Holds t) (i j : Nat) : (t.move v).subSpan i j = v.span (t.subSpan i j) := by
  have himage : (t.move v).source = some v.image := by
    show t.source.map _ = _
    rw [ht]
    rfl
  unfold subSpan
  rw [himage, ht]
  show (if t.kind = .quoted then _ else _) = v.span (if t.kind = .quoted then _ else _)
  split
  · rfl
  · exact v.span_image _ _

theorem ofLine_move (v : Relocation) (kind : TokenKind) (start stop : Nat) (value : Text) :
    ofLine v.image kind start stop value = (ofLine v.line kind start stop value).move v := by
  unfold ofLine
  rw [v.span_image, v.text_eq]
  rfl

theorem plain_move (v : Relocation) (kind : TokenKind) (start stop : Nat) :
    plain v.image kind start stop = (plain v.line kind start stop).move v := by
  unfold plain
  rw [v.text_eq]
  exact ofLine_move v kind start stop _

theorem ofPieces_move (v : Relocation) (start : Nat) (ps : List Text) :
    ofPieces v.image start ps = (ofPieces v.line start ps).map (move v) := by
  induction ps generalizing start with
  | nil => rfl
  | cons piece ps ih =>
    rw [ofPieces, ofPieces, ih, v.span_image]
    rfl

theorem holds_of_mem_ofPieces {start : Nat} {ps : List Text} : ∀ u ∈ ofPieces v.line start ps, v.Holds u := by
  induction ps generalizing start with
  | nil => exact fun u hu => absurd hu List.not_mem_nil
  | cons piece ps ih =>
    intro u hu
    rcases List.mem_cons.mp hu with rfl | hu
    · rfl
    · exact ih u hu

theorem splitOperators_move (ht : v.Holds t) : (t.move v).splitOperators = t.splitOperators.map (move v) := by
  obtain ⟨kind, text, value, span, start, stop, source⟩ := t
  obtain rfl : source = some v.line := ht
  unfold splitOperators
  show (if kind = .quoted ∨ text.length = 1 then _ else _) =
    List.map _ (if kind = .quoted ∨ text.length = 1 then _ else _)
  split
  · rfl
  · dsimp only [move, Option.map_some]
    split
    · rfl
    · exact ofPieces_move v start _

theorem holds_of_mem_splitOperators (ht : v.Holds t) : ∀ u ∈ t.splitOperators, v.Holds u := by
  obtain ⟨kind, text, value, span, start, stop, source⟩ := t
  obtain rfl : source = some v.line := ht
  unfold splitOperators
  dsimp only
  split
  · exact fun u hu => List.mem_singleton.mp hu ▸ rfl
  · split
    · exact fun u hu => List.mem_singleton.mp hu ▸ rfl
    · exact holds_of_mem_ofPieces

end Token

/-! ## Errors -/

def Reason.map (f : Span → Span) : Reason → Reason
  | .wrongArgument opcode position label cause => .wrongArgument opcode position label (cause.map f)
  | .unexpected opcode expected found context => .unexpected opcode expected found (context.map f)
  | .badOperand opcode cause => .badOperand opcode (cause.map f)
  | r => r

def Category.map (f : Span → Span) : Category → Category
  | .expression context => .expression (context.map f)
  | c => c

/-- An error keeps its class, what was expected and what was found. -/
def ParseError.map (f : Span → Span) (e : ParseError) : ParseError :=
  { e with category := e.category.map f, reason := e.reason.map f, span := f e.span }

def Failure.map (f : Span → Span) : Failure → Failure
  | .parse e => .parse (e.map f)
  | failure => failure

theorem Category.label_map (f : Span → Span) (c : Category) : (c.map f).label = c.label := by
  cases c <;> rfl

/-! ## Results -/

/-- A choice by anything but places is made alike. -/
theorem rel_ite {α β : Type} {R : α → β → Prop} {p : Prop} [Decidable p] {a a' : α} {b b' : β} (hpos : p → R a b)
    (hneg : ¬ p → R a' b') : R (if p then a else a') (if p then b else b') := by
  split
  · exact hpos ‹p›
  · exact hneg ‹¬ p›

/-- A result that is another one with its value and its error moved. -/
inductive Agree {ε α : Type} (f : ε → ε) (g : α → α) : Except ε α → Except ε α → Prop
  | ok (a : α) : Agree f g (.ok a) (.ok (g a))
  | error (e : ε) : Agree f g (.error e) (.error (f e))

namespace Agree

variable {ε α β : Type} {f : ε → ε} {g : α → α} {x y : Except ε α}

theorem ok_or_error (hxy : Agree f g x y) :
    (∃ a, x = .ok a ∧ y = .ok (g a)) ∨ ∃ e, x = .error e ∧ y = .error (f e) := by
  cases hxy with
  | ok a => exact .inl ⟨a, rfl, rfl⟩
  | error e => exact .inr ⟨e, rfl, rfl⟩

theorem bind_of_eq {h : β → β} (hxy : Agree f g x y) {k k' : α → Except ε β}
    (hk : ∀ a, x = .ok a → Agree f h (k a) (k' (g a))) : Agree f h (x >>= k) (y >>= k') := by
  cases hxy with
  | ok a => exact hk a rfl
  | error e => exact .error e

theorem bind {h : β → β} (hxy : Agree f g x y) {k k' : α → Except ε β} (hk : ∀ a, Agree f h (k a) (k' (g a))) :
    Agree f h (x >>= k) (y >>= k') :=
  hxy.bind_of_eq fun a _ => hk a

theorem map {h : β → β} (hxy : Agree f g x y) {k k' : α → β} (hk : ∀ a, k' (g a) = h (k a)) :
    Agree f h (x.map k) (y.map k') := by
  cases hxy with
  | ok a =>
    show Agree f h (.ok (k a)) (.ok (k' (g a)))
    rw [hk]
    exact .ok _
  | error e => exact .error e

/-- An error that is taken for a failure of the whole reading. -/
theorem asFailure {f : Span → Span} {x y : Except ParseError α} (hxy : Agree (ParseError.map f) g x y) :
    Agree (Failure.map f) g (x.mapError .parse) (y.mapError .parse) := by
  cases hxy with
  | ok a => exact .ok a
  | error e => exact .error _

end Agree
end BrailleTable
