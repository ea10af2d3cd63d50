/-
What an error of an expression asks for.

An error names what could have stood at its place by labels.  Each label stands for tokens of one sort, of which `sample`
is one, and each stage offers some sorts: a token of such a sort leads on from the stage.  Two sorts depend on more than the
stage.  Another parenthesis must not be one too many, and dots need an alphabet with a digit.
-/
import BrailleTable.Proofs.Expression.ErrorPlace
import BrailleTable.Proofs.Value.Dots

namespace BrailleTable

/-- The sorts of tokens that errors of expressions ask for. -/
inductive Wanted where
  | classReference
  | number
  | quoted
  | dots
  | word
  | sign
  | opening
  | closing
  | neg
  | conj
  | disj
  | test
  | actions
  | stepName
deriving DecidableEq

namespace Wanted

open Expression (Role Spot IsBareWord roleOf isStepName)

/-- How errors name the sort. -/
def label : Wanted → Text
  | .classReference => "class reference"
  | .number => TokenKind.number.label
  | .quoted => TokenKind.quoted.label
  | .dots => "'@'dots"
  | .word => TokenKind.word.label
  | .sign => "comparison operator"
  | .opening => "'('"
  | .closing => "')'"
  | .neg => "'not'"
  | .conj => "'and'"
  | .disj => "'or'"
  | .test => "'test'"
  | .actions => "'actions'"
  | .stepName => "action name"

/-- Whether a token is of the sort.  Operands are told by the way they start. -/
def Fits (d : Dialect) (t : Token) : Wanted → Prop
  | .classReference => t.kind = .word ∧ t.text.head? = some ('_' : CodePoint)
  | .number => t.kind = .number
  | .quoted => t.kind = .quoted
  | .dots => t.kind ≠ .number ∧ t.kind ≠ .quoted ∧ t.text.head? = some ('@' : CodePoint)
  | .word => IsBareWord d t
  | .sign => t.kind = .punctuation ∧ (Comparison.ofText? t.text).isSome = true
  | .opening => t.IsMark "("
  | .closing => t.IsMark ")"
  | .neg => t.IsKeyword "not"
  | .conj => t.IsKeyword "and"
  | .disj => t.IsKeyword "or"
  | .test => t.IsKeyword "test"
  | .actions => t.IsKeyword "actions"
  | .stepName => t.kind = .word ∧ t.text.head? ≠ some ('_' : CodePoint)

/-- What a token of the sort is to a test, if nothing is wrong with it. -/
def role : Wanted → Role
  | .classReference | .number | .quoted | .dots => .operand
  | .word | .stepName => .word
  | .sign => .sign
  | .opening => .opening
  | .closing => .closing
  | .neg => .neg
  | .conj => .conj
  | .disj => .disj
  | .test => .test
  | .actions => .actions

theorem label_injective {w w' : Wanted} (h : w.label = w'.label) : w = w' := by
  revert h
  cases w <;> cases w' <;> decide

/-! ## Samples -/

open Expression.Stage (handmade)

/-- A token of the sort.  Dots need a digit of the alphabet. -/
def sample (d : Dialect) : Wanted → Token
  | .classReference => handmade .word "_a"
  | .number => handmade .number "1"
  | .quoted => { handmade .quoted "\"\"" with value := [] }
  | .dots => handmade (.ofText (('@' : CodePoint) :: d.dotAlphabet.take 1)) (('@' : CodePoint) :: d.dotAlphabet.take 1)
  | .word | .stepName => handmade .word "a"
  | .sign => handmade .punctuation "="
  | .opening => handmade .punctuation "("
  | .closing => handmade .punctuation ")"
  | .neg => handmade .word "not"
  | .conj => handmade .word "and"
  | .disj => handmade .word "or"
  | .test => handmade .word "test"
  | .actions => handmade .word "actions"

variable {d : Dialect} {w : Wanted}

theorem sample_eq_standard (h : w ≠ .dots) : w.sample d = w.sample .standard := by
  cases w <;> first | rfl | exact absurd rfl h

/-- The kind of a sample is that of its spelling. -/
theorem kind_sample (d : Dialect) (w : Wanted) :
    (w.sample d).kind = .quoted ∨ (w.sample d).kind = .ofText (w.sample d).text := by
  cases w with
  | quoted => exact .inl rfl
  | dots => exact .inr rfl
  | _ =>
    rw [sample_eq_standard (by decide)]
    right
    decide +kernel

theorem fits_dots (d : Dialect) : Fits d (sample d .dots) .dots := by
  have hat : ('@' : CodePoint) ∈ (sample d .dots).text := List.mem_cons_self
  exact ⟨TokenKind.ofText_ne_number hat (by decide), TokenKind.ofText_ne_quoted (sample d .dots).text, rfl⟩

theorem fits_sample (hd : d.HasStandardKeywords) : w.Fits d (w.sample d) := by
  have hword : IsBareWord d (handmade .word "a") := by
    refine ⟨⟨rfl, Bool.eq_false_iff.mpr fun hreserved => ?_⟩, by decide, by decide⟩
    obtain ⟨entry, hmem, hname⟩ := (Expression.isReserved_iff_exists hd).mp hreserved
    have hall : ∀ entry ∈ Expression.keywords, entry.1 ≠ (handmade .word "a").text.lower := by decide +kernel
    exact hall entry hmem hname
  have hlower : ∀ entry ∈ Expression.keywords, entry.1.lower = entry.1 := by decide +kernel
  cases w with
  | classReference => exact ⟨rfl, rfl⟩
  | number => rfl
  | quoted => rfl
  | dots => exact fits_dots d
  | word => exact hword
  | sign => exact ⟨rfl, rfl⟩
  | opening => exact ⟨rfl, rfl⟩
  | closing => exact ⟨rfl, rfl⟩
  | stepName =>
    rw [sample_eq_standard (by decide)]
    exact ⟨rfl, by decide⟩
  | neg => exact ⟨rfl, hlower ("not", .neg) (by decide)⟩
  | conj => exact ⟨rfl, hlower ("and", .conj) (by decide)⟩
  | disj => exact ⟨rfl, hlower ("or", .disj) (by decide)⟩
  | test => exact ⟨rfl, hlower ("test", .test) (by decide)⟩
  | actions => exact ⟨rfl, hlower ("actions", .actions) (by decide)⟩

/-- One digit of the alphabet makes dots. -/
theorem exists_readDots_digit {c : CodePoint} (hc : c ∈ d.dotAlphabet) {t : Token} (htext : t.text = [c])
    (hkind : t.kind = .ofText [c]) : ∃ v, Value.readDots d.dotAlphabet t = .ok v := by
  have hall : ∀ c ∈ Value.dotDigits, c ≠ '-' ∧ TokenKind.ofText [c] ∈ [TokenKind.dots, .number, .word] := by
    decide +kernel
  obtain ⟨hdash, hof⟩ := hall c (Value.mem_dotDigits_of_isDotDigit (d.dotAlphabet_digits c hc))
  refine ⟨.dots [[c.hexValue?.getD 0]] t.span, ?_⟩
  unfold Value.readDots
  rw [Value.requireKind_eq_ok_iff.mpr (hkind ▸ hof), htext, Value.readCells, if_neg hdash, if_neg (not_not.mpr hc)]
  rfl

theorem roleOf_sample (hdots : w = .dots → d.dotAlphabet ≠ []) : roleOf d (w.sample d) = w.role := by
  cases w with
  | classReference =>
    have hname : Value.classNameOf (handmade .word "_a") = .ok "a" := by decide +kernel
    exact Expression.roleOf_of_ok (Expression.operandOf?_eq_some_ok_iff.mpr (.classRef rfl hname))
  | number => exact Expression.Stage.roleOf_handmade_number
  | quoted => exact Expression.roleOf_of_ok (Expression.operandOf?_eq_some_ok_iff.mpr (.quoted rfl))
  | dots =>
    obtain ⟨c, rest, halphabet⟩ := List.exists_cons_of_ne_nil (hdots rfl)
    have hc : c ∈ d.dotAlphabet := by
      rw [halphabet]
      exact List.mem_cons_self
    have htake : d.dotAlphabet.take 1 = [c] := by rw [halphabet]; rfl
    have htext : (sample d .dots).text = ('@' : CodePoint) :: [c] := congrArg (_ :: ·) htake
    have hrest : (Expression.subtoken (sample d .dots) 1).text = [c] := htake
    obtain ⟨v, hv⟩ := exists_readDots_digit hc hrest (congrArg TokenKind.ofText hrest)
    obtain ⟨hnumber, hquoted, -⟩ := fits_dots d
    exact Expression.roleOf_of_ok (Expression.operandOf?_eq_some_ok_iff.mpr (.dots hnumber hquoted htext hv))
  | _ =>
    rw [sample_eq_standard (by decide)]
    refine (Expression.Stage.roleOf_handmade (by decide) (by decide) (by decide) (by decide)).trans ?_
    decide +kernel

/-! ## Sorts of one kind -/

/-- What operands start with. -/
def operands : List Wanted := [.classReference, .number, .quoted, .dots]

/-- What atoms start with. -/
def atoms : List Wanted := .opening :: .word :: operands

end Wanted

namespace Expression

variable {d : Dialect} {w : Wanted}

/-- What may come next at a spot of a test, but for what ends the test. -/
def Spot.offers : Spot → List Wanted
  | .link => .neg :: Wanted.atoms
  | .negated => Wanted.atoms
  | .operand => .sign :: .conj :: .disj :: .neg :: Wanted.atoms
  | .compared => Wanted.operands
  | .atom => .conj :: .disj :: .neg :: Wanted.atoms

/-- What ends a test after an operand or an atom, given the number of open parentheses. -/
def Spot.endings : Nat → Spot → List Wanted
  | 0, .operand | 0, .atom => [.actions]
  | _ + 1, .operand | _ + 1, .atom => [.closing]
  | _, _ => []

namespace Stage

/-- What may come next at a stage. -/
def offers : Stage → List Wanted
  | .start => [.test]
  | .test opened spot => spot.offers ++ spot.endings opened
  | .actions => [.stepName]
  | .steps => .stepName :: Wanted.operands

/-- The number of open parentheses. -/
def opened : Stage → Nat
  | .test opened _ => opened
  | .start | .actions | .steps => 0

theorem exists_stepTest_of_mem_offers {limit opened : Nat} {spot : Spot}
    (hw : w ∈ (Stage.test opened spot).offers) (hopening : w = .opening → opened < limit) :
    ∃ s, stepTest limit opened w.role spot = some s := by
  rcases List.mem_append.mp hw with hw | hw
  · by_cases heq : w = .opening
    · -- Only here the limit counts.
      have hgroup : ∃ s, beginAtom limit opened .opening = some s := ⟨_, if_pos (hopening heq)⟩
      subst heq
      cases spot with
      | compared => exact absurd hw (by decide)
      | _ => exact hgroup
    · revert hw
      cases spot <;> cases w <;> first
        | exact fun _ => ⟨_, rfl⟩
        | exact fun hw => absurd hw (by decide)
        | exact absurd rfl heq
  · cases opened <;> cases spot <;> first
      | (cases List.mem_singleton.mp hw; exact ⟨_, rfl⟩)
      | cases hw

/-- A token of each sort that a stage offers leads on from it. -/
theorem exists_step_of_mem_offers {s : Stage} (hw : w ∈ s.offers) (hdots : w = .dots → d.dotAlphabet ≠ [])
    (hopening : w = .opening → s.opened < d.maxDepth) : ∃ s', s.step d (w.sample d) = some s' := by
  have hrole := Wanted.roleOf_sample hdots
  have hname : isStepName (Wanted.sample d .stepName) = true := by
    rw [Wanted.sample_eq_standard (by decide)]
    decide +kernel
  cases s with
  | start =>
    cases List.mem_singleton.mp hw
    have htest : roleOf d (Wanted.sample d .test) = .test := hrole
    exact ⟨.test 0 .link, by rw [step, if_pos htest]⟩
  | test opened spot =>
    obtain ⟨s', hs'⟩ : ∃ s', stepTest d.maxDepth opened w.role spot = some s' :=
      exists_stepTest_of_mem_offers hw hopening
    rw [← hrole] at hs'
    exact ⟨s', hs'⟩
  | actions =>
    cases List.mem_singleton.mp hw
    exact ⟨.steps, by rw [step, if_pos hname]⟩
  | steps =>
    rcases List.mem_cons.mp hw with rfl | hw
    · exact ⟨.steps, by rw [step, if_pos (.inr hname)]⟩
    · have hoperand : w.role = .operand := by
        revert hw
        cases w <;> first | exact fun _ => rfl | exact fun hw => absurd hw (by decide)
      exact ⟨.steps, by rw [step, if_pos (.inl (hrole.trans hoperand))]⟩

end Stage
end Expression
end BrailleTable
