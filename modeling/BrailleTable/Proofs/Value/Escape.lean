/-
Escapes are read back.

Every code point of a written text becomes one or more code points that decode to it again, whatever
follows.  What a written text may hold is settled here too: no white space, pairs of backslashes at its end,
and none of the code points that the writer was told to keep away.
-/
import BrailleTable.Proofs.Text.Trim
import BrailleTable.Value.Printer
import Mathlib.Algebra.Group.Nat.Defs

namespace BrailleTable

namespace CodePoint

theorem hexValue?_hexDigit (n : Nat) : (hexDigit n).hexValue? = some (n % 16) := by
  unfold hexDigit hexValue?
  by_cases hlt : n % 16 < 10
  · rw [if_pos hlt]
    dsimp only
    rw [if_pos ⟨by omega, by omega⟩]
    congr 1
    omega
  · rw [if_neg hlt]
    dsimp only
    rw [if_neg (by omega), if_pos ⟨by omega, by omega⟩]
    congr 1
    omega

theorem hexDigit_mem (n : Nat) : hexDigit n ∈ Text.ofString "0123456789abcdef" := by
  have hall : ∀ k : Fin 16, hexDigit k.val ∈ Text.ofString "0123456789abcdef" := by decide
  have hmod : hexDigit n = hexDigit (n % 16) := by
    unfold hexDigit
    simp only [Nat.mod_mod]
  rw [hmod]
  exact hall ⟨n % 16, Nat.mod_lt _ (by decide)⟩

theorem ofNat?_val (c : CodePoint) : ofNat? c.val = some c := by
  unfold ofNat?
  rw [dif_pos c.isLt]

end CodePoint

namespace Text

theorem length_hex (width n : Nat) : (hex width n).length = width := by
  induction width generalizing n with
  | zero => rfl
  | succ width ih =>
    rw [hex, List.length_append, ih, List.length_singleton]

theorem mem_hex {width n : Nat} {c : CodePoint} (h : c ∈ hex width n) :
    c ∈ Text.ofString "0123456789abcdef" := by
  induction width generalizing n with
  | zero => exact absurd h List.not_mem_nil
  | succ width ih =>
    rw [hex] at h
    rcases List.mem_append.mp h with h | h
    · exact ih h
    · rw [List.mem_singleton.mp h]
      exact CodePoint.hexDigit_mem n

/-- The digits of a number stand for the number. -/
theorem foldl_hex (width n : Nat) :
    ((hex width n).filterMap CodePoint.hexValue?).foldl (fun n d => 16 * n + d) 0 = n % 16 ^ width := by
  induction width generalizing n with
  | zero => rw [Nat.pow_zero, Nat.mod_one]; rfl
  | succ width ih =>
    rw [hex, List.filterMap_append, List.foldl_append, ih]
    have hlast : [CodePoint.hexDigit n].filterMap CodePoint.hexValue? = [n % 16] := by
      rw [List.filterMap_cons, CodePoint.hexValue?_hexDigit]
      rfl
    rw [hlast, List.foldl_cons, List.foldl_nil, Nat.pow_succ, Nat.mul_comm (16 ^ width) 16,
      Nat.mod_mul]
    omega

end Text

namespace Escape

theorem hexNumber?_hex {width n : Nat} (h : n < 16 ^ width) :
    hexNumber? width (Text.hex width n) = some n := by
  have hall : (Text.hex width n).all (·.hexValue?.isSome) = true := by
    rw [List.all_eq_true]
    intro c hc
    have hdigits : ∀ c ∈ Text.ofString "0123456789abcdef", c.hexValue?.isSome = true := by decide
    exact hdigits c (Text.mem_hex hc)
  unfold hexNumber?
  rw [if_pos ⟨Text.length_hex width n, hall⟩, Text.foldl_hex, Nat.mod_eq_of_lt h]

/-! ## Decoding -/

variable {t : Token} {extra : Text}

theorem decode_of_ne_quoted (h : t.kind ≠ .quoted) : decode t extra = decodeFrom t extra 0 t.text :=
  if_neg h

/-- A code point that starts no escape stands for itself. -/
theorem decodeFrom_cons {c : CodePoint} (hc : c ≠ ('\\' : CodePoint)) (i : Nat) (rest : Text) :
    decodeFrom t extra i (c :: rest) =
      (decodeFrom t extra (i + 1) rest).map (⟨c, i, i + 1⟩ :: ·) := by
  cases rest with
  | nil =>
    have hnil : decodeFrom t extra (i + 1) [] = .ok [] := by rw [decodeFrom]
    rw [hnil, decodeFrom.eq_2, if_neg hc]
    rfl
  | cons code rest => rw [decodeFrom, if_pos hc]

theorem decodeFrom_simple {code c : CodePoint} (hcode : ofCode? code = some c) (i : Nat) (rest : Text) :
    decodeFrom t extra i ('\\' :: code :: rest) =
      (decodeFrom t extra (i + 2) rest).map (⟨c, i, i + 2⟩ :: ·) := by
  rw [decodeFrom, if_neg (fun h => h rfl), hcode]

theorem decodeFrom_extra {c : CodePoint} (hcode : ofCode? c = none) (hc : c ∈ extra) (i : Nat)
    (rest : Text) :
    decodeFrom t extra i ('\\' :: c :: rest) =
      (decodeFrom t extra (i + 2) rest).map (⟨c, i, i + 2⟩ :: ·) := by
  rw [decodeFrom, if_neg (fun h => h rfl), hcode]
  simp only [if_pos hc]

theorem length_of_hexNumber? {width n : Nat} {digits : Text} (h : hexNumber? width digits = some n) :
    digits.length = width := by
  unfold hexNumber? at h
  split at h
  · rename_i hdigits
    exact hdigits.1
  · cases h

theorem decodeFrom_number {code c : CodePoint} {width : Nat} {digits : Text} (hcode : ofCode? code = none)
    (hextra : code ∉ extra) (hwidth : hexWidth? code = some width) (hnumber : hexNumber? width digits = some c.val)
    (i : Nat) (rest : Text) :
    decodeFrom t extra i ('\\' :: code :: (digits ++ rest)) =
      (decodeFrom t extra (i + 2 + width) rest).map (⟨c, i, i + 2 + width⟩ :: ·) := by
  have hlength := length_of_hexNumber? hnumber
  have htake : (digits ++ rest).take width = digits := by
    rw [List.take_append_of_le_length (by omega), List.take_of_length_le (by omega)]
  have hdrop : (digits ++ rest).drop width = rest := by
    rw [List.drop_append_of_le_length (by omega), List.drop_of_length_le (by omega)]
    rfl
  rw [decodeFrom, if_neg (fun h => h rfl), hcode]
  simp only [if_neg hextra, hwidth, htake, hnumber, CodePoint.ofNat?_val, hdrop]

theorem decodeFrom_hex {code c : CodePoint} {width : Nat} (hcode : ofCode? code = none)
    (hextra : code ∉ extra) (hwidth : hexWidth? code = some width) (hc : c.val < 16 ^ width) (i : Nat)
    (rest : Text) :
    decodeFrom t extra i ('\\' :: code :: (Text.hex width c.val ++ rest)) =
      (decodeFrom t extra (i + 2 + width) rest).map (⟨c, i, i + 2 + width⟩ :: ·) :=
  decodeFrom_number hcode hextra hwidth (hexNumber?_hex hc) i rest

/-! ## Writing -/

/-- What a writer escapes with a backslash, the reader takes back. -/
structure Care.Fits (care : Care) (extra : Text) : Prop where
  escaped : ∀ c ∈ care.escaped, c ∈ extra ∧ ofCode? c = none ∧ c.isBlank = false
  numbers : ('x' : CodePoint) ∉ extra ∧ ('y' : CodePoint) ∉ extra ∧ ('z' : CodePoint) ∉ extra

theorem ofCode?_of_codeOf? {c code : CodePoint} (h : codeOf? c = some code) : ofCode? code = some c := by
  obtain ⟨entry, hentry, rfl⟩ := Option.map_eq_some_iff.mp h
  have hall : ∀ entry ∈ simple, ofCode? entry.1 = some entry.2 := by decide
  have hc : entry.2 = c := by
    have hfind := List.find?_some hentry
    exact of_decide_eq_true hfind
  rw [hall entry (List.mem_of_find?_eq_some hentry), hc]

theorem decodeFrom_byNumber {care : Care} (hfits : care.Fits extra) (c : CodePoint) (i : Nat)
    (rest : Text) :
    decodeFrom t extra i (byNumber c ++ rest) =
      (decodeFrom t extra (i + (byNumber c).length) rest).map
        (⟨c, i, i + (byNumber c).length⟩ :: ·) := by
  obtain ⟨hx, hy, hz⟩ := hfits.numbers
  have hlt := c.isLt
  unfold byNumber
  by_cases h4 : c.val ≤ 0xffff
  · rw [if_pos h4]
    have hlength : (Text.ofString "\\x" ++ Text.hex 4 c.val).length = 2 + 4 := by
      rw [List.length_append, Text.length_hex]
      rfl
    rw [hlength]
    exact decodeFrom_hex (by decide) hx (by decide) (show c.val < 16 ^ 4 by omega) i rest
  · rw [if_neg h4]
    by_cases h5 : c.val ≤ 0xfffff
    · rw [if_pos h5]
      have hlength : (Text.ofString "\\y" ++ Text.hex 5 c.val).length = 2 + 5 := by
        rw [List.length_append, Text.length_hex]
        rfl
      rw [hlength]
      exact decodeFrom_hex (by decide) hy (by decide) (show c.val < 16 ^ 5 by omega) i rest
    · rw [if_neg h5]
      have hlength : (Text.ofString "\\z" ++ Text.hex 8 c.val).length = 2 + 8 := by
        rw [List.length_append, Text.length_hex]
        rfl
      rw [hlength]
      exact decodeFrom_hex (by decide) hz (by decide) (show c.val < 16 ^ 8 by omega) i rest

theorem decodeFrom_encodeOne {care : Care} (hfits : care.Fits extra) (isFirst : Bool) (c : CodePoint)
    (i : Nat) (rest : Text) :
    decodeFrom t extra i (encodeOne care isFirst c ++ rest) =
      (decodeFrom t extra (i + (encodeOne care isFirst c).length) rest).map
        (⟨c, i, i + (encodeOne care isFirst c).length⟩ :: ·) := by
  unfold encodeOne
  cases hcode : codeOf? c with
  | some code => exact decodeFrom_simple (ofCode?_of_codeOf? hcode) i rest
  | none =>
    dsimp only
    by_cases hescaped : c ∈ care.escaped
    · rw [if_pos hescaped]
      exact decodeFrom_extra (hfits.escaped c hescaped).2.1 (hfits.escaped c hescaped).1 i rest
    · rw [if_neg hescaped]
      split
      · exact decodeFrom_byNumber hfits c i rest
      · have hc : c ≠ ('\\' : CodePoint) := by
          rintro rfl
          revert hcode
          decide
        exact decodeFrom_cons hc i rest

/-- A text that decodes to a code point, whatever follows. -/
def Decodes (t : Token) (extra : Text) (c : CodePoint) (w : Text) : Prop :=
  ∀ i rest, decodeFrom t extra i (w ++ rest) =
    (decodeFrom t extra (i + w.length) rest).map (⟨c, i, i + w.length⟩ :: ·)

/-- The code points of a text and where they lie, given how each is written. -/
def layout : Nat → List (CodePoint × Text) → List Decoded
  | _, [] => []
  | i, u :: us => ⟨u.1, i, i + u.2.length⟩ :: layout (i + u.2.length) us

theorem map_char_layout (i : Nat) (us : List (CodePoint × Text)) :
    (layout i us).map Decoded.char = us.map Prod.fst := by
  induction us generalizing i with
  | nil => rfl
  | cons u us ih => exact congrArg (u.1 :: ·) (ih _)

theorem decodeFrom_flatMap {us : List (CodePoint × Text)} (h : ∀ u ∈ us, Decodes t extra u.1 u.2)
    (i : Nat) : decodeFrom t extra i (us.flatMap Prod.snd) = .ok (layout i us) := by
  induction us generalizing i with
  | nil => rw [List.flatMap_nil, decodeFrom]; rfl
  | cons u us ih =>
    rw [List.flatMap_cons, h u List.mem_cons_self i, ih fun v hv => h v (List.mem_cons_of_mem u hv)]
    rfl

/-- The code points of a text, each with the way it is written. -/
def units (care : Care) : Text → List (CodePoint × Text)
  | [] => []
  | c :: rest => (c, encodeOne care true c) :: rest.map fun b => (b, encodeOne care false b)

theorem encode_eq_flatMap (care : Care) (s : Text) : encode care s = (units care s).flatMap Prod.snd := by
  cases s with
  | nil => rfl
  | cons c rest =>
    rw [units, encode, List.flatMap_cons, List.flatMap_map]

theorem map_fst_units (care : Care) (s : Text) : (units care s).map Prod.fst = s := by
  cases s with
  | nil => rfl
  | cons c rest =>
    rw [units, List.map_cons, List.map_map]
    congr 1
    exact List.map_id rest

theorem decodes_of_mem_units {care : Care} (hfits : care.Fits extra) {s : Text} :
    ∀ u ∈ units care s, Decodes t extra u.1 u.2 := by
  intro u hu
  cases s with
  | nil => exact absurd hu List.not_mem_nil
  | cons c rest =>
    rcases List.mem_cons.mp hu with rfl | hu
    · exact decodeFrom_encodeOne hfits true c
    · obtain ⟨b, -, rfl⟩ := List.mem_map.mp hu
      exact decodeFrom_encodeOne hfits false b

theorem decodeFrom_encode {care : Care} (hfits : care.Fits extra) (s : Text) :
    ∃ ds, decodeFrom t extra 0 (encode care s) = .ok ds ∧ ds.map Decoded.char = s := by
  refine ⟨layout 0 (units care s), ?_, ?_⟩
  · rw [encode_eq_flatMap]
    exact decodeFrom_flatMap (decodes_of_mem_units hfits) 0
  · rw [map_char_layout, map_fst_units]

/-! ## What a written text holds -/

/-- The code points that escapes are made of. -/
def marks : Text := "\\strnfvexyz0123456789abcdef"

theorem mem_byNumber {c b : CodePoint} (h : b ∈ byNumber c) : b ∈ marks := by
  have hdigits : ∀ b ∈ Text.ofString "0123456789abcdef", b ∈ marks := by decide
  have hx : ∀ b ∈ Text.ofString "\\x", b ∈ marks := by decide
  have hy : ∀ b ∈ Text.ofString "\\y", b ∈ marks := by decide
  have hz : ∀ b ∈ Text.ofString "\\z", b ∈ marks := by decide
  unfold byNumber at h
  split at h
  · rcases List.mem_append.mp h with h | h
    · exact hx b h
    · exact hdigits b (Text.mem_hex h)
  · split at h
    · rcases List.mem_append.mp h with h | h
      · exact hy b h
      · exact hdigits b (Text.mem_hex h)
    · rcases List.mem_append.mp h with h | h
      · exact hz b h
      · exact hdigits b (Text.mem_hex h)

theorem mem_marks_of_codeOf? {c code : CodePoint} (h : codeOf? c = some code) : code ∈ marks := by
  obtain ⟨entry, hentry, rfl⟩ := Option.map_eq_some_iff.mp h
  have hall : ∀ entry ∈ simple, entry.1 ∈ marks := by decide
  exact hall entry (List.mem_of_find?_eq_some hentry)

/-- A code point is written with the marks of escapes, or as it is where nothing speaks against it. -/
theorem mem_encodeOne {care : Care} {isFirst : Bool} {c b : CodePoint}
    (h : b ∈ encodeOne care isFirst c) :
    b ∈ marks ∨ b ∈ care.escaped ∨
      b = c ∧ c ∉ care.numbered ∧ c.isBlank = false ∧ (isFirst = true → c ∉ care.lead) := by
  have hslash : ('\\' : CodePoint) ∈ marks := by decide
  unfold encodeOne at h
  cases hcode : codeOf? c with
  | some code =>
    rw [hcode] at h
    rcases List.mem_cons.mp h with rfl | h
    · exact .inl hslash
    · rw [List.mem_singleton.mp h]
      exact .inl (mem_marks_of_codeOf? hcode)
  | none =>
    rw [hcode] at h
    dsimp only at h
    split at h
    · rename_i hescaped
      rcases List.mem_cons.mp h with rfl | h
      · exact .inl hslash
      · rw [List.mem_singleton.mp h]
        exact .inr (.inl hescaped)
    · split at h
      · exact .inl (mem_byNumber h)
      · rename_i hplain
        simp only [Bool.or_eq_true, Bool.and_eq_true, decide_eq_true_eq, Bool.not_eq_true', not_or,
          not_and] at hplain
        refine .inr (.inr ⟨List.mem_singleton.mp h, hplain.1.1.2, ?_, hplain.1.1.1⟩)
        exact Bool.eq_false_iff.mpr hplain.1.2

theorem mem_encode {care : Care} {s : Text} {b : CodePoint} (h : b ∈ encode care s) :
    b ∈ marks ∨ b ∈ care.escaped ∨ b ∈ s ∧ b ∉ care.numbered ∧ b.isBlank = false := by
  rw [encode_eq_flatMap] at h
  obtain ⟨u, hu, hb⟩ := List.mem_flatMap.mp h
  have hone : ∃ isFirst c, c ∈ s ∧ u.2 = encodeOne care isFirst c := by
    cases s with
    | nil => exact absurd hu List.not_mem_nil
    | cons c rest =>
      rcases List.mem_cons.mp hu with rfl | hu
      · exact ⟨true, c, List.mem_cons_self, rfl⟩
      · obtain ⟨b', hb', rfl⟩ := List.mem_map.mp hu
        exact ⟨false, b', List.mem_cons_of_mem c hb', rfl⟩
  obtain ⟨isFirst, c, hc, hu⟩ := hone
  rw [hu] at hb
  rcases mem_encodeOne hb with hb | hb | ⟨rfl, hnumbered, hblank, -⟩
  · exact .inl hb
  · exact .inr (.inl hb)
  · exact .inr (.inr ⟨hc, hnumbered, hblank⟩)

/-- A written text has no white space in it. -/
theorem isBlank_of_mem_encode {care : Care} (hfits : care.Fits extra) {s : Text} {b : CodePoint}
    (h : b ∈ encode care s) : b.isBlank = false := by
  have hmarks : ∀ b ∈ marks, b.isBlank = false := by decide
  rcases mem_encode h with h | h | ⟨-, -, h⟩
  · exact hmarks b h
  · exact (hfits.escaped b h).2.2
  · exact h

/-- What has an escape of its own is written with it. -/
theorem mem_encode_of_codeOf? (care : Care) {s : Text} {c code : CodePoint} (hc : c ∈ s)
    (hcode : codeOf? c = some code) : ('\\' : CodePoint) ∈ encode care s ∧ code ∈ encode care s := by
  have hone : ∀ isFirst, encodeOne care isFirst c = [('\\' : CodePoint), code] := by
    intro isFirst
    unfold encodeOne
    rw [hcode]
  cases s with
  | nil => cases hc
  | cons b rest =>
    unfold encode
    dsimp only
    rcases List.mem_cons.mp hc with rfl | hc
    · rw [hone]
      exact ⟨by simp, by simp⟩
    · refine ⟨List.mem_append_right _ ?_, List.mem_append_right _ ?_⟩
      · exact List.mem_flatMap.mpr ⟨c, hc, by rw [hone]; simp⟩
      · exact List.mem_flatMap.mpr ⟨c, hc, by rw [hone]; simp⟩

theorem encodeOne_ne_nil (care : Care) (isFirst : Bool) (c : CodePoint) :
    encodeOne care isFirst c ≠ [] := by
  unfold encodeOne byNumber
  split
  · exact List.cons_ne_nil _ _
  · split
    · exact List.cons_ne_nil _ _
    · split
      · split
        · exact List.cons_ne_nil _ _
        · split <;> exact List.cons_ne_nil _ _
      · exact List.cons_ne_nil _ _

/-- The first code point of a written text is none of those to keep away from there. -/
theorem head?_encode {care : Care} {s : Text} {b : CodePoint} (hs : (encode care s).head? = some b)
    (hmarks : ∀ c ∈ care.lead, c ∉ marks ∧ c ∉ care.escaped) : b ∉ care.lead := by
  cases s with
  | nil => cases hs
  | cons c rest =>
    intro hlead
    have hb : b ∈ encodeOne care true c := by
      unfold encode at hs
      rw [List.head?_append_of_ne_nil _ (encodeOne_ne_nil care true c)] at hs
      exact List.mem_of_mem_head? hs
    rcases mem_encodeOne hb with hb | hb | ⟨rfl, -, -, hfirst⟩
    · exact (hmarks b hlead).1 hb
    · exact (hmarks b hlead).2 hb
    · exact hfirst rfl hlead

/-! ## The end of a written text -/

theorem endsEven_hex (width n : Nat) : Text.EndsEven (Text.hex width n) := by
  refine .of_getLast? fun hlast => ?_
  have hmem := Text.mem_hex (List.mem_of_getLast? hlast)
  revert hmem
  decide

theorem endsEven_encodeOne (care : Care) (isFirst : Bool) (c : CodePoint) :
    Text.EndsEven (encodeOne care isFirst c) := by
  unfold encodeOne
  cases hcode : codeOf? c with
  | some code =>
    obtain ⟨entry, hentry, rfl⟩ := Option.map_eq_some_iff.mp hcode
    have hall : ∀ entry ∈ simple, Text.backslashes ['\\', entry.1] % 2 = 0 := by decide
    exact hall entry (List.mem_of_find?_eq_some hentry)
  | none =>
    have hc : c ≠ ('\\' : CodePoint) := by
      rintro rfl
      revert hcode
      decide
    dsimp only
    split
    · exact .of_getLast? fun hlast => hc (Option.some.inj hlast)
    · split
      · unfold byNumber
        split
        · exact Text.EndsEven.append (by unfold Text.EndsEven; decide) (endsEven_hex 4 _)
        · split
          · exact Text.EndsEven.append (by unfold Text.EndsEven; decide) (endsEven_hex 5 _)
          · exact Text.EndsEven.append (by unfold Text.EndsEven; decide) (endsEven_hex 8 _)
      · exact .of_getLast? fun hlast => hc (Option.some.inj hlast)

theorem endsEven_encode (care : Care) (s : Text) :
    Text.EndsEven (encode care s) := by
  cases s with
  | nil => exact .nil
  | cons c rest =>
    exact (endsEven_encodeOne care true c).append
      (.flatMap fun b _ => endsEven_encodeOne care false b)

end Escape
end BrailleTable
