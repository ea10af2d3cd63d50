/-
Every index of a logical line stands for one place of the source.

A logical line is a list of code points with their places, and joining puts together what it keeps of each physical line.
So what is known of the code points kept of a physical line holds of all logical lines: each is the code point of the
source at its place, or the space that a continuation marker became.  What is not kept is a line ending, the rest of a
marker, or the white space behind one.
-/
import BrailleTable.Proofs.LogicalLine.Physical

namespace BrailleTable
namespace LogicalLine

/-! ## What is kept of a physical line -/

variable {marker commentMark : Text}

/-- The index of the marker in a physical line that ends in one. -/
def cutAt (marker raw : Text) : Nat := (Text.stripRight (body raw)).length - marker.length

/-- The part of a logical line that a physical line becomes. -/
def kept (marker commentMark raw : Text) : Text :=
  if isContinued marker commentMark raw then (body raw).take (cutAt marker raw) ++ " " else body raw

theorem exists_body_append (raw : Text) :
    ∃ ending, raw = body raw ++ ending ∧ ∀ c ∈ ending, c = '\r' ∨ c = '\n' := by
  unfold body
  split
  · obtain ⟨ending, hraw, hending⟩ := Text.exists_trimEnd_append (p := fun c => c = '\r' || c = '\n') raw
    exact ⟨ending, hraw, fun c hc => by simpa using hending c hc⟩
  · obtain ⟨ending, hraw, hending⟩ := Text.exists_trimEnd_append (p := fun c => c = '\r') raw
    exact ⟨ending, hraw, fun c hc => .inl (by simpa using hending c hc)⟩

/-- The parts of a continued line. -/
theorem exists_of_isContinued {raw : Text} (h : isContinued marker commentMark raw = true) :
    ∃ before blanks, body raw = before ++ marker ++ blanks ∧ cutAt marker raw = before.length ∧ marker ≠ [] ∧
      ∀ c ∈ blanks, c.isBlank = true := by
  unfold isContinued continues at h
  rw [Bool.and_eq_true, Bool.and_eq_true, Bool.and_eq_true, decide_eq_true_iff] at h
  obtain ⟨-, ⟨hne, hsuffix⟩, -⟩ := h
  obtain ⟨before, hbefore⟩ := List.isSuffixOf_iff_suffix.mp hsuffix
  obtain ⟨blanks, hbody, hblanks⟩ := Text.exists_trimEnd_append (p := CodePoint.isBlank) (body raw)
  refine ⟨before, blanks, ?_, ?_, hne, hblanks⟩
  · rw [hbefore]
    exact hbody
  · unfold cutAt
    rw [← hbefore, List.length_append, Nat.add_sub_cancel]

theorem kept_of_isContinued {raw before rest : Text} (h : isContinued marker commentMark raw = true)
    (hbody : body raw = before ++ rest) (hcut : cutAt marker raw = before.length) :
    kept marker commentMark raw = before ++ [(' ' : CodePoint)] := by
  unfold kept
  rw [if_pos h, hcut, hbody, List.take_left]
  rfl

/-- The marker stands where a continued line is cut. -/
theorem isPrefix_drop_cutAt {raw : Text} (h : isContinued marker commentMark raw = true) :
    cutAt marker raw < raw.length ∧ marker <+: raw.drop (cutAt marker raw) := by
  obtain ⟨ending, hraw, -⟩ := exists_body_append raw
  obtain ⟨before, blanks, hbody, hcut, hne, -⟩ := exists_of_isContinued h
  have hpos : 0 < marker.length := List.length_pos_of_ne_nil hne
  have hparts : raw = before ++ (marker ++ (blanks ++ ending)) := by
    rw [hraw, hbody]
    simp only [List.append_assoc]
  rw [hcut]
  refine ⟨?_, ?_⟩
  · rw [hparts, List.length_append, List.length_append]
    omega
  · rw [hparts, List.drop_left]
    exact List.prefix_append _ _

/-- What is kept stands for the code points of the physical line, one by one, but for the space in place of a marker. -/
theorem getElem?_kept {raw : Text} {i : Nat} {c : CodePoint} (h : (kept marker commentMark raw)[i]? = some c) :
    i < raw.length ∧ (raw[i]? = some c ∨ c = ' ' ∧ marker <+: raw.drop i) := by
  obtain ⟨ending, hraw, -⟩ := exists_body_append raw
  have hbefore : ∀ t : Text, t <+: body raw → t[i]? = some c → i < raw.length ∧ raw[i]? = some c := by
    intro t ht hget
    obtain ⟨hlt, rfl⟩ := List.getElem?_eq_some_iff.mp hget
    have hinitial : t <+: raw := hraw ▸ ht.trans (List.prefix_append _ _)
    exact ⟨Nat.lt_of_lt_of_le hlt hinitial.length_le, List.prefix_iff_getElem?.mp hinitial i hlt⟩
  by_cases hcont : isContinued marker commentMark raw = true
  · obtain ⟨before, blanks, hbody, hcut, -, -⟩ := exists_of_isContinued hcont
    rw [List.append_assoc] at hbody
    rw [kept_of_isContinued hcont hbody hcut] at h
    by_cases hi : i < before.length
    · rw [List.getElem?_append_left hi] at h
      obtain ⟨hlt, hget⟩ := hbefore before (hbody ▸ List.prefix_append _ _) h
      exact ⟨hlt, .inl hget⟩
    · obtain ⟨hlt, hc⟩ := List.getElem?_eq_some_iff.mp h
      rw [List.length_append, List.length_singleton] at hlt
      obtain rfl : i = cutAt marker raw := by omega
      rw [hcut, List.getElem?_concat_length] at h
      obtain ⟨hcutlt, hmarker⟩ := isPrefix_drop_cutAt hcont
      exact ⟨hcutlt, .inr ⟨(Option.some.inj h).symm, hmarker⟩⟩
  · have hkept : kept marker commentMark raw = body raw := if_neg hcont
    rw [hkept] at h
    obtain ⟨hlt, hget⟩ := hbefore (body raw) (List.prefix_refl _) h
    exact ⟨hlt, .inl hget⟩

/-- What is left out of a physical line. -/
theorem left_out_of_length_le {raw : Text} (hfeed : ('\n' : CodePoint) ∉ raw.dropLast) {i : Nat}
    (hi : (kept marker commentMark raw).length ≤ i) :
    (∀ c ∈ raw.drop i, c = '\r' ∨ c = '\n') ∨
      isContinued marker commentMark raw = true ∧ cutAt marker raw < i ∧
        (i < cutAt marker raw + marker.length ∨
          ∀ c ∈ raw.slice (cutAt marker raw + marker.length) (i + 1), c.isBlank = true ∧ c ≠ '\n') := by
  obtain ⟨ending, hraw, hending⟩ := exists_body_append raw
  by_cases hbody : (body raw).length ≤ i
  · refine .inl fun c hc => hending c ?_
    rw [hraw, List.drop_append, List.drop_of_length_le hbody, List.nil_append] at hc
    exact List.mem_of_mem_drop hc
  · have hcont : isContinued marker commentMark raw = true := by
      by_contra hnot
      have hkept : kept marker commentMark raw = body raw := if_neg hnot
      rw [hkept] at hi
      exact hbody hi
    obtain ⟨before, blanks, hparts, hcut, -, hblanks⟩ := exists_of_isContinued hcont
    have hlength : (body raw).length = before.length + marker.length + blanks.length := by
      rw [hparts, List.length_append, List.length_append]
    rw [kept_of_isContinued hcont (hparts.trans (List.append_assoc _ _ _)) hcut, List.length_append,
      List.length_singleton] at hi
    rw [hcut]
    refine .inr ⟨hcont, by omega, ?_⟩
    by_cases hmarker : i < before.length + marker.length
    · exact .inl hmarker
    · refine .inr fun c hc => ?_
      have hdrop : raw.drop (before.length + marker.length) = blanks ++ ending := by
        rw [hraw, hparts, List.append_assoc, ← List.length_append, List.drop_left]
      rw [Text.slice_eq, hdrop, List.take_append_of_le_length (by omega)] at hc
      have hmem : c ∈ blanks := List.mem_of_mem_take hc
      refine ⟨hblanks c hmem, fun heq => not_mem_body hfeed ?_⟩
      rw [hparts, ← heq]
      exact List.mem_append_right _ hmem

/-! ## Logical lines as lists of placed code points -/

/-- The code points of a text that begins at a place. -/
def placed (start : Place) (t : Text) : List (CodePoint × Place) := t.mapIdx fun i c => (c, start.advance i)

/-- The code points of a logical line with the places that their indices stand for. -/
def cells (l : LogicalLine) : List (CodePoint × Place) := l.text.mapIdx fun i c => (c, l.place i)

theorem mem_placed {start : Place} {t : Text} {x : CodePoint × Place} (h : x ∈ placed start t) :
    ∃ i : Nat, t[i]? = some x.1 ∧ x.2 = start.advance i := by
  obtain ⟨i, hi, rfl⟩ := List.mem_mapIdx.mp h
  exact ⟨i, List.getElem?_eq_getElem hi, rfl⟩

theorem mem_cells {l : LogicalLine} {i : Nat} {c : CodePoint} (h : l.text[i]? = some c) :
    (c, l.place i) ∈ l.cells := by
  obtain ⟨hi, rfl⟩ := List.getElem?_eq_some_iff.mp h
  exact List.mem_mapIdx.mpr ⟨i, hi, rfl⟩

theorem owner_append_of_lt {index : Int} {p q : Piece} {rest : List Piece} (h : index < q.index) :
    owner index p (rest ++ [q]) = owner index p rest := by
  induction rest generalizing p with
  | nil => exact if_neg (Int.not_le.mpr h)
  | cons r rest ih =>
    rw [List.cons_append, owner, owner, ih]

theorem owner_append_of_le {index : Int} {p q : Piece} {rest : List Piece} (h : (q.index : Int) ≤ index)
    (hrest : ∀ r ∈ rest, (r.index : Int) ≤ index) : owner index p (rest ++ [q]) = q := by
  induction rest generalizing p with
  | nil => exact if_pos h
  | cons r rest ih =>
    rw [List.cons_append, owner, if_pos (hrest r List.mem_cons_self)]
    exact ih fun s hs => hrest s (List.mem_cons_of_mem r hs)

/-- A line whose pieces begin inside it or at its end. -/
def IsBounded (l : LogicalLine) : Prop := ∀ q ∈ l.more, q.index ≤ l.text.length

theorem isBounded_extend {pending : Option Pending} (h : ∀ p ∈ pending, p.line.IsBounded) (start : Place)
    (text : Text) : (extend pending start text).IsBounded := by
  cases pending with
  | none => exact fun q hq => absurd hq List.not_mem_nil
  | some p =>
    intro q hq
    show q.index ≤ (p.line.text ++ text).length
    rw [List.length_append]
    rcases List.mem_append.mp hq with hq | hq
    · have hle := h p rfl q hq
      omega
    · rw [List.mem_singleton.mp hq]
      exact Nat.le_add_right _ _

theorem place_extend_of_lt {p : Pending} {start : Place} {text : Text} {i : Nat} (hi : i < p.line.text.length) :
    (extend (some p) start text).place i = p.line.place i := by
  have howner : owner i p.line.first (p.line.more ++ [⟨p.line.text.length, start⟩]) =
      owner i p.line.first p.line.more := owner_append_of_lt (Int.ofNat_lt.mpr hi)
  unfold place extend
  dsimp only
  rw [howner]

theorem place_extend_add {p : Pending} (h : p.line.IsBounded) {start : Place} {text : Text} (i : Nat) :
    (extend (some p) start text).place ((i + p.line.text.length : Nat) : Int) = start.advance i := by
  have howner : owner ((i + p.line.text.length : Nat) : Int) p.line.first
      (p.line.more ++ [⟨p.line.text.length, start⟩]) = ⟨p.line.text.length, start⟩ := by
    refine owner_append_of_le (Int.ofNat_le.mpr (Nat.le_add_left _ _)) fun r hr => ?_
    have hle := h r hr
    omega
  unfold place extend
  dsimp only
  rw [howner]
  refine congrArg start.advance ?_
  show ((i + p.line.text.length : Nat) : Int) - p.line.text.length = i
  omega

/-- Extending a line adds placed code points and leaves those it has. -/
theorem cells_extend {pending : Option Pending} (h : ∀ p ∈ pending, p.line.IsBounded) (start : Place)
    (text : Text) :
    (extend pending start text).cells = (pending.map fun p => p.line.cells).getD [] ++ placed start text := by
  cases pending with
  | none =>
    have hplace : ∀ i : Nat, (single text start).place i = start.advance i := fun i =>
      congrArg start.advance (Int.sub_zero _)
    unfold cells placed
    simp only [extend, hplace]
    rfl
  | some p =>
    show ((p.line.text ++ text).mapIdx fun i c => (c, (extend (some p) start text).place i)) = _
    rw [List.mapIdx_append]
    refine congrArg₂ (· ++ ·) (List.mapIdx_eq_mapIdx_iff.mpr fun i hi => ?_) ?_
    · rw [place_extend_of_lt hi]
    · unfold placed
      simp only [place_extend_add (h p rfl)]

/-! ## Joining -/

theorem joinFrom_of_isContinued {raw : Text} (h : isContinued marker commentMark raw = true) (count offset : Nat)
    (pending : Option Pending) (raws : List Text) :
    joinFrom marker commentMark count offset pending (raw :: raws) =
      joinFrom marker commentMark (count + 1) (offset + width raw)
        (some ⟨extend pending ⟨count + 1, 1, offset⟩ (kept marker commentMark raw),
          Place.advance ⟨count + 1, 1, offset⟩ (cutAt marker raw)⟩) raws := by
  have hkept : kept marker commentMark raw = (body raw).take (cutAt marker raw) ++ " " := if_pos h
  rw [joinFrom, hkept]
  exact if_pos h

theorem joinFrom_of_not_isContinued {raw : Text} (h : ¬ isContinued marker commentMark raw = true)
    (count offset : Nat) (pending : Option Pending) (raws : List Text) :
    joinFrom marker commentMark count offset pending (raw :: raws) =
      ⟨extend pending ⟨count + 1, 1, offset⟩ (kept marker commentMark raw) ::
          (joinFrom marker commentMark (count + 1) (offset + width raw) none raws).lines,
        (joinFrom marker commentMark (count + 1) (offset + width raw) none raws).dangling⟩ := by
  have hkept : kept marker commentMark raw = body raw := if_neg h
  rw [joinFrom, hkept]
  exact if_neg h

/-- All that joining keeps of some physical lines. -/
def keptCells (marker commentMark : Text) (lines : List (Place × Text)) : List (CodePoint × Place) :=
  lines.flatMap fun x => placed x.1 (kept marker commentMark x.2)

/-- The logical lines hold what is kept of the physical lines, in the same order, up to the line that a dangling marker
leaves open. -/
theorem exists_cells_joinFrom (raws : List Text) (count offset : Nat) (pending : Option Pending)
    (hpending : ∀ p ∈ pending, p.line.IsBounded) :
    ∃ leftover, (joinFrom marker commentMark count offset pending raws).lines.flatMap cells ++ leftover =
        (pending.map fun p => p.line.cells).getD [] ++
          keptCells marker commentMark (placeLines count offset raws) ∧
      ((joinFrom marker commentMark count offset pending raws).dangling = none → leftover = []) := by
  induction raws generalizing count offset pending with
  | nil =>
    refine ⟨_, (List.append_nil _).symm, fun hnone => ?_⟩
    cases pending with
    | none => rfl
    | some p => cases hnone
  | cons raw raws ih =>
    have hextend := isBounded_extend hpending ⟨count + 1, 1, offset⟩ (kept marker commentMark raw)
    have hcells := cells_extend hpending ⟨count + 1, 1, offset⟩ (kept marker commentMark raw)
    by_cases hcont : isContinued marker commentMark raw = true
    · rw [joinFrom_of_isContinued hcont]
      obtain ⟨leftover, hlines, hnone⟩ := ih (count + 1) (offset + width raw)
        (some ⟨extend pending ⟨count + 1, 1, offset⟩ (kept marker commentMark raw),
          Place.advance ⟨count + 1, 1, offset⟩ (cutAt marker raw)⟩)
        (fun p hp => by cases hp; exact hextend)
      refine ⟨leftover, ?_, hnone⟩
      rw [hlines, Option.map_some, Option.getD_some, hcells, List.append_assoc]
      rfl
    · rw [joinFrom_of_not_isContinued hcont]
      obtain ⟨leftover, hlines, hnone⟩ := ih (count + 1) (offset + width raw) none
        (fun p hp => by cases hp)
      refine ⟨leftover, ?_, hnone⟩
      rw [List.flatMap_cons, List.append_assoc, hlines, hcells, List.append_assoc]
      rfl

/-- A marker that no line follows stands in a physical line of its own. -/
theorem exists_of_dangling_joinFrom {raws : List Text} {count offset : Nat} {pending : Option Pending} {e : ParseError}
    (h : (joinFrom marker commentMark count offset pending raws).dangling = some e) :
    (∃ p ∈ pending, e = dangling marker p.marker) ∨
      ∃ x ∈ placeLines count offset raws, isContinued marker commentMark x.2 = true ∧
        e = dangling marker (x.1.advance (cutAt marker x.2)) := by
  induction raws generalizing count offset pending with
  | nil =>
    cases pending with
    | none => cases h
    | some p =>
      cases h
      exact .inl ⟨p, rfl, rfl⟩
  | cons raw raws ih =>
    by_cases hcont : isContinued marker commentMark raw = true
    · rw [joinFrom_of_isContinued hcont] at h
      rcases ih h with ⟨p, hp, rfl⟩ | ⟨x, hx, hfound⟩
      · cases hp
        exact .inr ⟨_, List.mem_cons_self, hcont, rfl⟩
      · exact .inr ⟨x, List.mem_cons_of_mem _ hx, hfound⟩
    · rw [joinFrom_of_not_isContinued hcont] at h
      rcases ih h with ⟨p, hp, -⟩ | ⟨x, hx, hfound⟩
      · cases hp
      · exact .inr ⟨x, List.mem_cons_of_mem _ hx, hfound⟩

/-! ## The source map -/

theorem getElem?_placed {start : Place} {t : Text} {i : Nat} {c : CodePoint} (h : t[i]? = some c) :
    (c, start.advance i) ∈ placed start t := by
  obtain ⟨hi, rfl⟩ := List.getElem?_eq_some_iff.mp h
  exact List.mem_mapIdx.mpr ⟨i, hi, rfl⟩

/-- Each code point that is kept is the one at its place, or the space that a marker became. -/
theorem exists_ofOffset_of_mem_keptCells {text : Text} {x : CodePoint × Place}
    (h : x ∈ keptCells marker commentMark (placeLines 0 0 (physicalLines text))) :
    ∃ o < text.length, x.2 = .ofOffset text o ∧
      (text[o]? = some x.1 ∨ x.1 = ' ' ∧ marker <+: text.drop o) := by
  obtain ⟨y, hy, hx⟩ := List.mem_flatMap.mp h
  obtain ⟨i, hkept, hplace⟩ := mem_placed hx
  obtain ⟨hi, hcode⟩ := getElem?_kept hkept
  have hline : IsPhysicalLine text y := isPhysicalLine_of_mem_placeLines (List.nil_append text).symm (.inl rfl) y hy
  obtain ⟨o, -, ho, hadvance, hget, hdrop⟩ := hline.advance_eq hi
  refine ⟨o, ho, hplace.trans hadvance, ?_⟩
  rcases hcode with hcode | ⟨hspace, hmarker⟩
  · exact .inl (hget.trans hcode)
  · exact .inr ⟨hspace, hmarker.trans hdrop⟩

theorem pairwise_placed (start : Place) (t : Text) :
    (placed start t).Pairwise fun x y => x.2.offset < y.2.offset := by
  unfold placed
  refine List.pairwise_iff_getElem.mpr fun i j hi hj hij => ?_
  rw [List.getElem_mapIdx, List.getElem_mapIdx]
  show start.offset + i < start.offset + j
  omega

/-- Places grow along what is kept. -/
theorem pairwise_keptCells (raws : List Text) :
    (keptCells marker commentMark (placeLines 0 0 raws)).Pairwise fun x y => x.2.offset < y.2.offset := by
  refine List.pairwise_flatMap.mpr ⟨fun x _ => pairwise_placed _ _, (pairwise_placeLines raws 0 0).imp ?_⟩
  intro a b hab x hx y hy
  obtain ⟨i, hkept, hxplace⟩ := mem_placed hx
  obtain ⟨j, -, hyplace⟩ := mem_placed hy
  obtain ⟨hi, -⟩ := getElem?_kept hkept
  rw [hxplace, hyplace]
  show a.1.offset + i < b.1.offset + j
  omega

/-- Some index of the lines stands for the offset, with this code point. -/
def StandsFor (lines : List LogicalLine) (c : CodePoint) (o : Nat) : Prop :=
  ∃ l ∈ lines, ∃ i : Nat, l.text[i]? = some c ∧ (l.place i).offset = o

theorem standsFor_of_mem {lines : List LogicalLine} {x : CodePoint × Place} {o : Nat} (h : x ∈ lines.flatMap cells)
    (ho : x.2.offset = o) : StandsFor lines x.1 o := by
  obtain ⟨l, hl, hx⟩ := List.mem_flatMap.mp h
  obtain ⟨i, hi, rfl⟩ := List.mem_mapIdx.mp hx
  exact ⟨l, hl, i, List.getElem?_eq_getElem hi, ho⟩

/-- The offsets that no index has to stand for. -/
inductive LeftOut (marker text : Text) (lines : List LogicalLine) (o : Nat) : Prop
  /-- In the carriage returns and line feeds at the end of a physical line. -/
  | ending {run rest : Text} : text.drop o = run ++ rest → run ≠ [] → (∀ c ∈ run, c = '\r' ∨ c = '\n') →
      (rest = [] ∨ run.getLast? = some ('\n' : CodePoint)) → LeftOut marker text lines o
  /-- After the first code point of a marker, for which a space stands. -/
  | marker {s : Nat} : StandsFor lines ' ' s → marker <+: text.drop s → s < o → o < s + marker.length →
      LeftOut marker text lines o
  /-- In the white space between a marker and the end of its line. -/
  | blank {s : Nat} : StandsFor lines ' ' s → marker <+: text.drop s → s + marker.length ≤ o →
      (∀ c ∈ text.slice (s + marker.length) (o + 1), c.isBlank = true ∧ c ≠ '\n') → LeftOut marker text lines o

/-- What a physical line loses is left out, if the lines hold what is kept of it. -/
theorem IsPhysicalLine.standsFor_or_leftOut {text : Text} {lines : List LogicalLine} {x : Place × Text}
    (h : IsPhysicalLine text x) (hlines : ∀ y ∈ placed x.1 (kept marker commentMark x.2), y ∈ lines.flatMap cells)
    {i : Nat} (hi : i < x.2.length) {o : Nat} (ho : x.1.offset + i = o) :
    (∃ c, StandsFor lines c o) ∨ LeftOut marker text lines o := by
  cases h with
  | @mk before raw rest htext hbefore hfeed hlast =>
    replace hi : i < raw.length := hi
    obtain rfl : before.length + i = o := Int.ofNat_inj.mp ho
    by_cases hkept : i < (kept marker commentMark raw).length
    · exact .inl ⟨_, standsFor_of_mem (hlines _ (getElem?_placed (List.getElem?_eq_getElem hkept))) rfl⟩
    · right
      rcases left_out_of_length_le hfeed (Nat.not_lt.mp hkept) with hending | ⟨hcont, hcut, hrest⟩
      · refine .ending (drop_of_eq_append htext (Nat.le_of_lt hi)) ?_ hending ?_
        · exact List.ne_nil_of_length_pos (by rw [List.length_drop]; omega)
        · rwa [List.getLast?_drop, if_neg (by omega)]
      · obtain ⟨parts, blanks, hbody, hlength, -, -⟩ := exists_of_isContinued hcont
        have hspace : (kept marker commentMark raw)[cutAt marker raw]? = some (' ' : CodePoint) := by
          rw [kept_of_isContinued hcont (hbody.trans (List.append_assoc _ _ _)) hlength, hlength,
            List.getElem?_concat_length]
        have hstands : StandsFor lines ' ' (before.length + cutAt marker raw) :=
          standsFor_of_mem (hlines _ (getElem?_placed hspace)) rfl
        obtain ⟨hlt, hinitial⟩ := isPrefix_drop_cutAt hcont
        have hmarker : marker <+: text.drop (before.length + cutAt marker raw) := by
          rw [drop_of_eq_append htext (Nat.le_of_lt hlt)]
          exact hinitial.trans (List.prefix_append _ _)
        by_cases hinside : i < cutAt marker raw + marker.length
        · exact .marker hstands hmarker (by omega) (by omega)
        · rcases hrest with hrest | hblank
          · exact absurd hrest hinside
          · refine .blank hstands hmarker (by omega) fun c hc => hblank c ?_
            rwa [Nat.add_assoc, Nat.add_assoc, slice_of_eq_append htext (by omega) (by omega)] at hc

theorem cells_join_isPrefix (marker commentMark : Text) (raws : List Text) :
    (join marker commentMark raws).lines.flatMap cells <+: keptCells marker commentMark (placeLines 0 0 raws) := by
  obtain ⟨leftover, hcells, -⟩ := exists_cells_joinFrom raws 0 0 none (fun p hp => by cases hp)
  exact ⟨leftover, hcells⟩

theorem cells_join_eq {raws : List Text} (h : (join marker commentMark raws).dangling = none) :
    (join marker commentMark raws).lines.flatMap cells = keptCells marker commentMark (placeLines 0 0 raws) := by
  obtain ⟨leftover, hcells, hnone⟩ := exists_cells_joinFrom raws 0 0 none (fun p hp => by cases hp)
  rw [hnone h, List.append_nil] at hcells
  exact hcells

variable {text : Text}

theorem standsFor_or_leftOut_of_join (h : (join marker commentMark (physicalLines text)).dangling = none) {o : Nat}
    (ho : o < text.length) :
    (∃ c, StandsFor (join marker commentMark (physicalLines text)).lines c o) ∨
      LeftOut marker text (join marker commentMark (physicalLines text)).lines o := by
  obtain ⟨x, hx, i, hi, hoffset⟩ := exists_mem_placeLines 0 0 ho
  have hline : IsPhysicalLine text x := isPhysicalLine_of_mem_placeLines (List.nil_append text).symm (.inl rfl) x hx
  have hkept : ∀ y ∈ placed x.1 (kept marker commentMark x.2),
      y ∈ (join marker commentMark (physicalLines text)).lines.flatMap cells := by
    intro y hy
    rw [cells_join_eq h]
    exact List.mem_flatMap.mpr ⟨x, hx, hy⟩
  exact hline.standsFor_or_leftOut hkept hi (by omega)

theorem exists_slice_of_dangling {e : ParseError}
    (h : (join marker commentMark (physicalLines text)).dangling = some e) :
    ∃ s : Nat, e.span = .between (.ofOffset text s) ((Place.ofOffset text s).advance marker.length) ∧
      text.slice s (s + marker.length) = marker := by
  rcases exists_of_dangling_joinFrom h with ⟨p, hp, -⟩ | ⟨x, hx, hcont, rfl⟩
  · cases hp
  · obtain ⟨hlt, hmarker⟩ := isPrefix_drop_cutAt hcont
    have hline : IsPhysicalLine text x := isPhysicalLine_of_mem_placeLines (List.nil_append text).symm (.inl rfl) x hx
    obtain ⟨s, -, -, hadvance, -, hdrop⟩ := hline.advance_eq hlt
    obtain ⟨rest, hrest⟩ := hmarker.trans hdrop
    refine ⟨s, ?_, Text.slice_of_drop_eq hrest.symm⟩
    rw [← hadvance]
    rfl

/-- The source map of joined lines.  Every index stands for a place of the source, with the code point that stands there
or the space that a marker became; places grow along a line and from line to line; and if no marker dangles, nothing but
line endings, markers and the white space behind them is left out.  A marker that dangles is named by its place. -/
theorem join_sourceMap (marker commentMark text : Text) :
    (∀ l ∈ (join marker commentMark (physicalLines text)).lines, ∀ (i : Nat) (c : CodePoint), l.text[i]? = some c →
      ∃ o < text.length, l.place i = .ofOffset text o ∧
        (text[o]? = some c ∨ c = ' ' ∧ marker <+: text.drop o)) ∧
    (∀ l ∈ (join marker commentMark (physicalLines text)).lines, ∀ i j : Nat, i < j → j < l.text.length →
      (l.place i).offset < (l.place j).offset) ∧
    (join marker commentMark (physicalLines text)).lines.Pairwise (fun l l' => ∀ i j : Nat, i < l.text.length →
      j < l'.text.length → (l.place i).offset < (l'.place j).offset) ∧
    ((join marker commentMark (physicalLines text)).dangling = none → ∀ o < text.length,
      (∃ c, StandsFor (join marker commentMark (physicalLines text)).lines c o) ∨
        LeftOut marker text (join marker commentMark (physicalLines text)).lines o) ∧
    ∀ e, (join marker commentMark (physicalLines text)).dangling = some e →
      ∃ s : Nat, e.span = .between (.ofOffset text s) ((Place.ofOffset text s).advance marker.length) ∧
        text.slice s (s + marker.length) = marker := by
  have hinitial := cells_join_isPrefix marker commentMark (physicalLines text)
  have hcell : ∀ l : LogicalLine, ∀ i : Nat, (hi : i < l.text.length) → (l.text[i], l.place i) ∈ l.cells :=
    fun l i hi => mem_cells (List.getElem?_eq_getElem hi)
  obtain ⟨hinside, hacross⟩ :=
    List.pairwise_flatMap.mp ((pairwise_keptCells (physicalLines text)).sublist hinitial.sublist)
  refine ⟨?_, ?_, ?_, fun hnone o ho => standsFor_or_leftOut_of_join hnone ho,
    fun e he => exists_slice_of_dangling he⟩
  · intro l hl i c hc
    exact exists_ofOffset_of_mem_keptCells (hinitial.subset (List.mem_flatMap.mpr ⟨l, hl, mem_cells hc⟩))
  · intro l hl i j hij hj
    have hlength : l.cells.length = l.text.length := List.length_mapIdx
    have hlt := List.pairwise_iff_getElem.mp (hinside l hl) i j (by omega) (by omega) hij
    unfold cells at hlt
    rwa [List.getElem_mapIdx, List.getElem_mapIdx] at hlt
  · refine hacross.imp fun {l l'} hll' i j hi hj => ?_
    exact hll' _ (hcell l i hi) _ (hcell l' j hj)

end LogicalLine
end BrailleTable
