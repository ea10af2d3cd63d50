/-
The grammar of escapes.

`Spells extra c w` says that `w` is one way to spell the code point `c`.  A text is decoded exactly if it is put together
from such spellings, and then it stands for the code points that they spell.
-/
import BrailleTable.Proofs.Result
import BrailleTable.Proofs.Value.Escape

namespace BrailleTable
namespace Escape

variable {t : Token} {extra : Text}

/-- The letters that stand, after a backslash, before the number of a code point, and how many digits it has. -/
def numbered : List (CodePoint × Nat) := [('x', 4), ('y', 5), ('z', 8)]

/-- The ways to spell a code point: as it stands; by a backslash and the letter it has, or itself where it is one of
`extra`; and by its number in hexadecimal digits of either case. -/
inductive Spells (extra : Text) : CodePoint → Text → Prop
  | plain {c : CodePoint} : c ≠ '\\' → Spells extra c [c]
  | letter {code c : CodePoint} : (code, c) ∈ simple → Spells extra c ['\\', code]
  | escaped {c : CodePoint} : c ∈ extra → Spells extra c ['\\', c]
  | number {code c : CodePoint} {width : Nat} {digits : Text} : (code, width) ∈ numbered →
      hexNumber? width digits = some c.val → Spells extra c ('\\' :: code :: digits)

theorem Spells.ne_nil {c : CodePoint} {w : Text} (h : Spells extra c w) : w ≠ [] := by
  cases h <;> exact List.cons_ne_nil _ _

theorem ofCode?_eq_some_iff {code c : CodePoint} : ofCode? code = some c ↔ (code, c) ∈ simple := by
  constructor
  · intro h
    obtain ⟨entry, hentry, rfl⟩ := Option.map_eq_some_iff.mp h
    have hfind := List.find?_some hentry
    have hcode : entry.1 = code := of_decide_eq_true hfind
    rw [← hcode]
    exact List.mem_of_find?_eq_some hentry
  · intro h
    have hall : ∀ entry ∈ simple, ofCode? entry.1 = some entry.2 := by decide
    exact hall _ h

theorem hexWidth?_eq_some_iff {code : CodePoint} {width : Nat} : hexWidth? code = some width ↔ (code, width) ∈ numbered := by
  constructor
  · intro h
    unfold hexWidth? at h
    split at h
    · rename_i hcode
      cases h
      rw [hcode]
      exact List.mem_cons_self
    · split at h
      · rename_i hcode
        cases h
        rw [hcode]
        exact List.mem_cons_of_mem _ List.mem_cons_self
      · split at h
        · rename_i hcode
          cases h
          rw [hcode]
          exact List.mem_cons_of_mem _ (List.mem_cons_of_mem _ List.mem_cons_self)
        · cases h
  · intro h
    have hall : ∀ entry ∈ numbered, hexWidth? entry.1 = some entry.2 := by decide
    exact hall _ h

/-- What is escaped by itself is no letter that means something else after a backslash. -/
def IsHarmless (extra : Text) : Prop := ∀ c ∈ extra, ofCode? c = none ∧ hexWidth? c = none

theorem Spells.decodes (hextra : IsHarmless extra) {c : CodePoint} {w : Text} (h : Spells extra c w) :
    Decodes t extra c w := by
  intro i rest
  cases h with
  | plain hc => exact decodeFrom_cons hc i rest
  | letter hcode => exact decodeFrom_simple (ofCode?_eq_some_iff.mpr hcode) i rest
  | escaped hc => exact decodeFrom_extra (hextra c hc).1 hc i rest
  | @number code c width digits hcode hnumber =>
    have hletters : ∀ entry ∈ numbered, ofCode? entry.1 = none := by decide
    have hwidth := hexWidth?_eq_some_iff.mpr hcode
    have hfresh : code ∉ extra := by
      intro hmem
      rw [(hextra code hmem).2] at hwidth
      cases hwidth
    have hlength : i + ('\\' :: code :: digits : Text).length = i + 2 + width := by
      rw [List.length_cons, List.length_cons, length_of_hexNumber? hnumber]
      omega
    rw [hlength]
    exact decodeFrom_number (hletters _ hcode) hfresh hwidth hnumber i rest

/-! ## One spelling after the other -/

/-- How a text is decoded, wherever it stands: a spelling is taken off its front, and then the rest is decoded, or the
text is refused. -/
inductive Decoding (extra : Text) : Text → Prop
  | nil : Decoding extra []
  | spelling {c : CodePoint} {w rest : Text} : Spells extra c w →
      (∀ t i, decodeFrom t extra i (w ++ rest) =
        (decodeFrom t extra (i + w.length) rest).map (⟨c, i, i + w.length⟩ :: ·)) →
      Decoding extra rest → Decoding extra (w ++ rest)
  /-- What is refused lies in the text, or it is an escape by number with all the digits that it should have. -/
  | refusal {s : Text} {n : Nat} (what : Text) :
      (0 < n ∧ n ≤ s.length ∨
        ∃ (code : CodePoint) (rest : Text) (width : Nat),
          s = ('\\' : CodePoint) :: code :: rest ∧ hexWidth? code = some width ∧ n = 2 + width) →
      (∀ t i, decodeFrom t extra i s = .error (refuse t i (i + n) what [])) → Decoding extra s

theorem eq_val_of_ofNat? {n : Nat} {c : CodePoint} (h : CodePoint.ofNat? n = some c) : n = c.val := by
  unfold CodePoint.ofNat? at h
  split at h
  · cases h
    rfl
  · cases h

theorem decoding_of_number {code : CodePoint} {rest : Text} {width : Nat} (hcode : ofCode? code = none)
    (hextra : code ∉ extra) (hwidth : hexWidth? code = some width) (hrest : Decoding extra (rest.drop width)) :
    Decoding extra ('\\' :: code :: rest) := by
  cases hnumber : hexNumber? width (rest.take width) with
  | none =>
    refine .refusal (Text.ofNat width ++ " hex digits after '\\" ++ [code] ++ "'")
      (.inr ⟨code, rest, width, rfl, hwidth, rfl⟩) fun t i => ?_
    rw [decodeFrom, if_neg (fun h => h rfl), hcode, ← Nat.add_assoc]
    simp only [if_neg hextra, hwidth, hnumber]
  | some n =>
    cases hchar : CodePoint.ofNat? n with
    | none =>
      refine .refusal "code point up to 10FFFF" (.inr ⟨code, rest, width, rfl, hwidth, rfl⟩) fun t i => ?_
      rw [decodeFrom, if_neg (fun h => h rfl), hcode, ← Nat.add_assoc]
      simp only [if_neg hextra, hwidth, hnumber, hchar]
    | some c =>
      rw [eq_val_of_ofNat? hchar] at hnumber
      have hspells : Spells extra c ('\\' :: code :: rest.take width) :=
        .number (hexWidth?_eq_some_iff.mp hwidth) hnumber
      have hlength : ('\\' :: code :: rest.take width : Text).length = 2 + width := by
        rw [List.length_cons, List.length_cons, length_of_hexNumber? hnumber]
        omega
      have hdecoding := Decoding.spelling hspells (fun t i => by
        rw [hlength, ← Nat.add_assoc]
        exact decodeFrom_number hcode hextra hwidth hnumber i (rest.drop width)) hrest
      rwa [List.cons_append, List.cons_append, List.take_append_drop] at hdecoding

theorem decoding_of_escape {code : CodePoint} {rest : Text} (hrest : ∀ k, Decoding extra (rest.drop k)) :
    Decoding extra ('\\' :: code :: rest) := by
  cases hcode : ofCode? code with
  | some c =>
    exact .spelling (.letter (ofCode?_eq_some_iff.mp hcode)) (fun t i => decodeFrom_simple hcode i rest) (hrest 0)
  | none =>
    by_cases hextra : code ∈ extra
    · exact .spelling (.escaped hextra) (fun t i => decodeFrom_extra hcode hextra i rest) (hrest 0)
    · cases hwidth : hexWidth? code with
      | none =>
        refine .refusal "escape sequence" (.inl ⟨Nat.two_pos, Nat.le_add_left 2 rest.length⟩) fun t i => ?_
        rw [decodeFrom, if_neg (fun h => h rfl), hcode]
        simp only [if_neg hextra, hwidth]
      | some width => exact decoding_of_number hcode hextra hwidth (hrest width)

theorem decoding (extra : Text) : (s : Text) → Decoding extra s
  | [] => .nil
  | [c] => by
    by_cases hc : c = '\\'
    · refine .refusal "escape sequence" (.inl ⟨Nat.one_pos, Nat.le_refl 1⟩) fun t i => ?_
      rw [decodeFrom, if_pos hc]
    · exact .spelling (.plain hc) (fun t i => decodeFrom_cons hc i []) .nil
  | c :: code :: rest => by
    by_cases hc : c = '\\'
    · rw [hc]
      exact decoding_of_escape fun k => decoding extra (rest.drop k)
    · exact .spelling (.plain hc) (fun t i => decodeFrom_cons hc i (code :: rest)) (decoding extra (code :: rest))
termination_by s => s.length

/-- What is decoded is put together from spellings. -/
theorem exists_spells_of_decodeFrom {i : Nat} {s : Text} {ds : List Decoded} (h : decodeFrom t extra i s = .ok ds) :
    ∃ us, s = us.flatMap Prod.snd ∧ ds = layout i us ∧ ∀ u ∈ us, Spells extra u.1 u.2 := by
  have hdecoding := decoding extra s
  induction hdecoding generalizing i ds with
  | nil =>
    rw [decodeFrom] at h
    cases h
    exact ⟨[], rfl, rfl, fun _ hu => absurd hu List.not_mem_nil⟩
  | @spelling c w rest hspells hdecode _ ih =>
    rw [hdecode] at h
    obtain ⟨more, hmore, rfl⟩ := map_eq_ok h
    obtain ⟨us, rfl, rfl, hus⟩ := ih hmore
    exact ⟨(c, w) :: us, rfl, rfl, List.forall_mem_cons.mpr ⟨hspells, hus⟩⟩
  | refusal _ _ hrefused =>
    rw [hrefused] at h
    cases h

/-- A text is decoded exactly if it is put together from spellings. -/
theorem decodeFrom_eq_ok_iff (hextra : IsHarmless extra) {i : Nat} {s : Text} {ds : List Decoded} :
    decodeFrom t extra i s = .ok ds ↔
      ∃ us, s = us.flatMap Prod.snd ∧ ds = layout i us ∧ ∀ u ∈ us, Spells extra u.1 u.2 := by
  refine ⟨exists_spells_of_decodeFrom, ?_⟩
  rintro ⟨us, rfl, rfl, hus⟩
  exact decodeFrom_flatMap (fun u hu => (hus u hu).decodes hextra) i

end Escape
end BrailleTable
