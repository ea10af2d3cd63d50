/-
Movement of cursors, and the furthest of some misses.

`Cursor.Passes c w c'` says that the tokens `w` stand between two cursors of one line.  The productions of
expressions are described by the tokens they pass, so the lemmas here are the only ones that look at the
position of a cursor.  `Furthest.Sums` says once what is kept of the misses on the way.
-/
import BrailleTable.Cursor
import BrailleTable.Proofs.Text.Sorted
import Mathlib.Data.List.Induction

namespace BrailleTable

namespace Token

/-- A word with this spelling in lower case. -/
def IsKeyword (t : Token) (word : Text) : Prop := t.kind = .word ∧ t.text.lower = word

/-- A punctuation token with this spelling. -/
def IsMark (t : Token) (text : Text) : Prop := t.kind = .punctuation ∧ t.text = text

theorem IsMark.not_isKeyword {t : Token} {text word : Text} (h : t.IsMark text) :
    ¬ t.IsKeyword word := by
  intro hkey
  have hkind : TokenKind.punctuation = .word := h.1.symm.trans hkey.1
  cases hkind

end Token

namespace Cursor

theorem peek?_eq_head? (c : Cursor) : c.peek? = c.rest.head? := by
  unfold peek? rest
  rw [List.head?_drop]

theorem isWord_iff {c : Cursor} {word : Text} :
    c.isWord word = true ↔ ∃ t, c.peek? = some t ∧ t.IsKeyword word := by
  unfold isWord Token.IsKeyword
  cases c.peek? with
  | none => simp
  | some t => simp

theorem isPunctuation_iff {c : Cursor} {text : Text} :
    c.isPunctuation text = true ↔ ∃ t, c.peek? = some t ∧ t.IsMark text := by
  unfold isPunctuation Token.IsMark
  cases c.peek? with
  | none => simp
  | some t => simp

/-- The end of the line is reached when no token is left. -/
theorem atEnd_iff {c : Cursor} : c.atEnd = true ↔ c.rest = [] := by
  unfold atEnd rest
  rw [decide_eq_true_iff, List.drop_eq_nil_iff]

/-- The tokens `w` stand between a cursor and a later one of the same line. -/
structure Passes (c : Cursor) (w : List Token) (c' : Cursor) : Prop where
  rest_eq : c.rest = w ++ c'.rest
  tokens_eq : c'.tokens = c.tokens
  eol_eq : c'.eol = c.eol
  pos_eq : c'.pos = c.pos + w.length

namespace Passes

theorem refl (c : Cursor) : Passes c [] c := ⟨rfl, rfl, rfl, rfl⟩

theorem trans {c c' c'' : Cursor} {w v : List Token} (h : Passes c w c') (h' : Passes c' v c'') :
    Passes c (w ++ v) c'' where
  rest_eq := by rw [h.rest_eq, h'.rest_eq, List.append_assoc]
  tokens_eq := h'.tokens_eq.trans h.tokens_eq
  eol_eq := h'.eol_eq.trans h.eol_eq
  pos_eq := by rw [h'.pos_eq, h.pos_eq, List.length_append, Nat.add_assoc]

/-- Nothing stands between two cursors only if they are one. -/
theorem eq_of_nil {c c' : Cursor} (h : Passes c [] c') : c' = c := by
  obtain ⟨-, htokens, heol, hpos⟩ := h
  cases c
  cases c'
  simp_all

/-- The token at a cursor stands between it and the next one. -/
theorem next {c : Cursor} {t : Token} (h : c.peek? = some t) : Passes c [t] c.next := by
  obtain ⟨hlt, hget⟩ := List.getElem?_eq_some_iff.mp (show c.tokens[c.pos]? = some t from h)
  have hpos : c.next.pos = c.pos + 1 := by
    show min (c.pos + 1) c.tokens.length = c.pos + 1
    omega
  refine ⟨?_, rfl, rfl, hpos⟩
  show c.tokens.drop c.pos = [t] ++ c.tokens.drop c.next.pos
  rw [hpos, List.drop_eq_getElem_cons hlt, hget]
  rfl

/-- The first of the tokens between two cursors stands at the first cursor. -/
theorem peek {c c' : Cursor} {t : Token} {w : List Token} (h : Passes c (t :: w) c') :
    c.peek? = some t := by
  rw [peek?_eq_head?, h.rest_eq]
  rfl

/-- What is left to pass after the first token. -/
theorem tail {c c' : Cursor} {t : Token} {w : List Token} (h : Passes c (t :: w) c') :
    Passes c.next w c' := by
  have hnext := next h.peek
  refine ⟨?_, h.tokens_eq, h.eol_eq, ?_⟩
  · have hrest : t :: c.next.rest = t :: (w ++ c'.rest) := by
      rw [← List.singleton_append, ← hnext.rest_eq, h.rest_eq]
      rfl
    exact (List.cons.inj hrest).2
  · rw [h.pos_eq, hnext.pos_eq]
    simp only [List.length_cons, List.length_nil]
    omega

/-- What stands between two cursors can be passed in two parts. -/
theorem split {c c' : Cursor} {w v : List Token} (h : Passes c (w ++ v) c') :
    ∃ m, Passes c w m ∧ Passes m v c' := by
  induction w generalizing c with
  | nil => exact ⟨c, refl c, h⟩
  | cons t w ih =>
    obtain ⟨m, hw, hv⟩ := ih h.tail
    exact ⟨m, (next h.peek).trans hw, hv⟩

/-- What is left of a line can be passed. -/
theorem exists_of_rest_eq {c : Cursor} {w v : List Token} (h : c.rest = w ++ v) : ∃ m, Passes c w m ∧ m.rest = v := by
  have hrest : c.tokens.drop (c.pos + w.length) = v := by
    rw [← List.drop_drop]
    show c.rest.drop w.length = v
    rw [h, List.drop_left]
  exact ⟨{ c with pos := c.pos + w.length }, ⟨h.trans (congrArg (w ++ ·) hrest.symm), rfl, rfl, rfl⟩, hrest⟩

theorem length_rest {c c' : Cursor} {w : List Token} (h : Passes c w c') :
    c.rest.length = w.length + c'.rest.length := by
  rw [h.rest_eq, List.length_append]

/-- From the start of a line, the tokens before a cursor are those that were passed. -/
theorem eq_take {tokens : List Token} {eol : Span} {w : List Token} {c : Cursor}
    (h : Passes ⟨tokens, 0, eol⟩ w c) : w = tokens.take c.pos := by
  have hrest : tokens = w ++ c.rest := h.rest_eq
  have hpos : c.pos = w.length := by rw [h.pos_eq, Nat.zero_add]
  rw [hpos, hrest, List.take_left]

end Passes
end Cursor

/-! ## The furthest of some misses -/

namespace Furthest

variable {f : Furthest} {ms : List Miss}

theorem pos_of_cursor_eq {c : Cursor} (h : f.cursor = some c) : f.pos = c.pos := by
  unfold pos
  rw [h]

/-- The furthest place of some misses.  One of them is there and none is beyond, what is wanted there some miss at this
place wanted, and the context is that of a miss at this place. -/
structure Sums (f : Furthest) (ms : List Miss) : Prop where
  cursor_mem : ∀ {c}, f.cursor = some c → ∃ m ∈ ms, m.cursor = c
  le_pos : ∀ m ∈ ms, (m.cursor.pos : Int) ≤ f.pos
  expected_mem : ∀ label ∈ f.expected, ∃ m ∈ ms, (m.cursor.pos : Int) = f.pos ∧ label ∈ m.expected
  context_mem : f.cursor.isSome → ∃ m ∈ ms, (m.cursor.pos : Int) = f.pos ∧ m.context = f.context

theorem sums_none : none.Sums [] where
  cursor_mem h := by cases h
  le_pos _ hm := absurd hm List.not_mem_nil
  expected_mem _ hlabel := absurd hlabel List.not_mem_nil
  context_mem h := by cases h

namespace Sums

theorem mono (h : f.Sums ms) {ms' : List Miss} (hms : ∀ m ∈ ms, m ∈ ms')
    (hle : ∀ m ∈ ms', (m.cursor.pos : Int) ≤ f.pos) : f.Sums ms' where
  cursor_mem hc := by
    obtain ⟨m, hm, heq⟩ := h.cursor_mem hc
    exact ⟨m, hms m hm, heq⟩
  le_pos := hle
  expected_mem label hlabel := by
    obtain ⟨m, hm, heq⟩ := h.expected_mem label hlabel
    exact ⟨m, hms m hm, heq⟩
  context_mem hsome := by
    obtain ⟨m, hm, heq⟩ := h.context_mem hsome
    exact ⟨m, hms m hm, heq⟩

theorem add (h : f.Sums ms) (m : Miss) : (f.add m).Sums (ms ++ [m]) := by
  have hlast : m ∈ ms ++ [m] := List.mem_concat_self
  have hle : ∀ {p : Int}, f.pos ≤ p → m.cursor.pos ≤ p → ∀ m' ∈ ms ++ [m], (m'.cursor.pos : Int) ≤ p := by
    intro p hf hm m' hm'
    rcases List.mem_append.mp hm' with hm' | hm'
    · exact Int.le_trans (h.le_pos m' hm') hf
    · rw [List.mem_singleton.mp hm']
      exact hm
  unfold Furthest.add
  split
  · rename_i hlt
    refine ⟨fun hc => ⟨m, hlast, Option.some.inj hc⟩, hle (Int.le_of_lt hlt) (Int.le_refl _), fun label hlabel => ?_,
      fun _ => ⟨m, hlast, rfl, rfl⟩⟩
    exact ⟨m, hlast, rfl, Text.mem_sortedSet.mp hlabel⟩
  · rename_i hlt
    have hold := h.mono (fun m' hm' => List.mem_append_left [m] hm') (hle (Int.le_refl f.pos) (Int.not_lt.mp hlt))
    split
    · rename_i heq
      refine ⟨hold.cursor_mem, hold.le_pos, fun label hlabel => ?_, fun hsome => ?_⟩
      · rcases List.mem_append.mp (Text.mem_sortedSet.mp hlabel) with hlabel | hlabel
        · exact hold.expected_mem label hlabel
        · exact ⟨m, hlast, heq, hlabel⟩
      · cases hcontext : f.context with
        | none => exact ⟨m, hlast, heq, by rw [Option.none_or]⟩
        | some s =>
          obtain ⟨m', hm', hpos, hm'context⟩ := hold.context_mem hsome
          exact ⟨m', hm', hpos, by rw [hm'context, hcontext, Option.some_or]⟩
    · exact hold

/-- Of some misses at all, one is at the furthest place. -/
theorem exists_cursor_eq (h : f.Sums ms) (hne : ms ≠ []) : ∃ m ∈ ms, f.cursor = some m.cursor := by
  obtain ⟨m, hm⟩ := List.exists_mem_of_ne_nil ms hne
  cases hcursor : f.cursor with
  | none =>
    have hpos : f.pos = -1 := by
      unfold pos
      rw [hcursor]
    have hle := h.le_pos m hm
    omega
  | some c =>
    obtain ⟨m', hm', heq⟩ := h.cursor_mem hcursor
    exact ⟨m', hm', congrArg some heq.symm⟩

end Sums

theorem sums_ofMisses (ms : List Miss) : (ofMisses ms).Sums ms := by
  induction ms using List.reverseRecOn with
  | nil => exact sums_none
  | append_singleton ms m ih =>
    unfold ofMisses
    rw [List.foldl_append]
    exact ih.add m

end Furthest
end BrailleTable
