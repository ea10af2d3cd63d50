/-
The stages of an expression.

A test nests, but what may come next depends only on how many parentheses are open and on the last token,
so one counter and a few spots describe every prefix of an expression.  `Stage.step` says what each token
does at each stage.  Two facts make the stages useful for errors: a token without a step ends every
expression that starts that way, and from every stage some tokens lead to the end (`Stage.run_closing`).
-/
import BrailleTable.Proofs.Expression.Completeness

namespace BrailleTable
namespace Expression

/-- What a token is to a test. -/
inductive Role where
  | operand
  /-- A token that starts as an operand or a word and is none. -/
  | broken
  | opening
  | closing
  | sign
  | neg
  | conj
  | disj
  | test
  | actions
  | word
  | other
deriving DecidableEq

/-- The words that mean something in an expression. -/
def keywords : List (Text × Role) :=
  [("not", .neg), ("and", .conj), ("or", .disj), ("test", .test), ("actions", .actions)]

/-- The role of a word that is no operand. -/
def wordRole (t : Token) : Role :=
  match keywords.find? (·.1 = t.text.lower) with
  | some entry => entry.2
  | none => if (Value.readCharacters t).isOk then .word else .broken

/-- The role of a punctuation token that is no operand. -/
def markRole (t : Token) : Role :=
  if t.text = "(" then .opening
  else if t.text = ")" then .closing
  else if (Comparison.ofText? t.text).isSome then .sign
  else .other

/-- The role of a token that is no operand. -/
def plainRole (t : Token) : Role :=
  match t.kind with
  | .punctuation => markRole t
  | .word => wordRole t
  | _ => .other

def roleOf (d : Dialect) (t : Token) : Role :=
  match operandOf? d t with
  | some (.ok _) => .operand
  | some (.error _) => .broken
  | none => plainRole t

/-! ## Roles and spellings -/

section Roles

variable {d : Dialect} {t : Token}

theorem roleOf_of_ok {e : Expression Span} (h : operandOf? d t = some (.ok e)) :
    roleOf d t = .operand := by
  unfold roleOf
  rw [h]

theorem roleOf_of_error {f : Failure} (h : operandOf? d t = some (.error f)) :
    roleOf d t = .broken := by
  unfold roleOf
  rw [h]

theorem roleOf_of_none (h : operandOf? d t = none) : roleOf d t = plainRole t := by
  unfold roleOf
  rw [h]

theorem markRole_mem (t : Token) : markRole t ∈ [Role.opening, .closing, .sign, .other] := by
  unfold markRole
  split
  · decide
  · split
    · decide
    · split <;> decide

/-- The words that mean something differ, and each has a role of its own. -/
theorem find?_keywords {word : Text} {r : Role} (h : (word, r) ∈ keywords) :
    keywords.find? (·.1 = word) = some (word, r) := by
  have hall : ∀ entry ∈ keywords, keywords.find? (·.1 = entry.1) = some entry := by decide
  exact hall (word, r) h

theorem plainRole_eq_of_isKeyword {word : Text} {r : Role} (h : (word, r) ∈ keywords)
    (hkey : t.IsKeyword word) : plainRole t = r := by
  unfold plainRole wordRole
  rw [hkey.1, hkey.2, find?_keywords h]

theorem isKeyword_of_plainRole_eq {word : Text} {r : Role} (h : (word, r) ∈ keywords)
    (hrole : plainRole t = r) : t.IsKeyword word := by
  have hfacts : ∀ entry ∈ keywords, entry.2 ∉ [Role.opening, .closing, .sign, .other] ∧ entry.2 ≠ .other ∧
      entry.2 ≠ .word ∧ entry.2 ≠ .broken := by decide
  obtain ⟨hmark, hother, hword, hbroken⟩ := hfacts (word, r) h
  have hunique : ∀ entry ∈ keywords, ∀ entry' ∈ keywords, entry.2 = entry'.2 → entry = entry' := by
    decide
  unfold plainRole at hrole
  split at hrole
  · exact absurd (hrole ▸ markRole_mem t) hmark
  · rename_i hkind
    unfold wordRole at hrole
    split at hrole
    · rename_i entry hentry
      have hmem : entry ∈ keywords := List.mem_of_find?_eq_some hentry
      have heq : entry = (word, r) := hunique entry hmem (word, r) h hrole
      have hname : entry.1 = t.text.lower := by
        have hfind := List.find?_some hentry
        exact of_decide_eq_true hfind
      rw [heq] at hname
      exact ⟨hkind, hname.symm⟩
    · split at hrole
      · exact absurd hrole.symm hword
      · exact absurd hrole.symm hbroken
  · exact absurd hrole.symm hother

theorem operandOf?_eq_none_of_mem_keywords {word : Text} {r : Role} (h : (word, r) ∈ keywords)
    (hkey : t.IsKeyword word) : operandOf? d t = none := by
  have hhead : ∀ entry ∈ keywords, entry.1.head? ≠ some ('_' : CodePoint) ∧
      entry.1.head? ≠ some ('@' : CodePoint) := by decide
  exact operandOf?_eq_none_of_isKeyword hkey (hhead (word, r) h).1 (hhead (word, r) h).2

/-- A token has the role of a keyword exactly if it is the keyword. -/
theorem roleOf_eq_iff_isKeyword {word : Text} {r : Role} (h : (word, r) ∈ keywords) :
    roleOf d t = r ↔ t.IsKeyword word := by
  constructor
  · intro hrole
    have hvalue : ∀ entry ∈ keywords, entry.2 ≠ .operand ∧ entry.2 ≠ .broken := by decide
    cases hop : operandOf? d t with
    | none =>
      rw [roleOf_of_none hop] at hrole
      exact isKeyword_of_plainRole_eq h hrole
    | some x =>
      cases x with
      | ok e => exact absurd ((roleOf_of_ok hop).symm.trans hrole).symm (hvalue (word, r) h).1
      | error f => exact absurd ((roleOf_of_error hop).symm.trans hrole).symm (hvalue (word, r) h).2
  · intro hkey
    rw [roleOf_of_none (operandOf?_eq_none_of_mem_keywords h hkey)]
    exact plainRole_eq_of_isKeyword h hkey

/-- A mark is no operand, so its spelling decides its role. -/
theorem roleOf_of_isMark {text : Text} (h : t.IsMark text)
    (hat : text.head? ≠ some ('@' : CodePoint)) : roleOf d t = markRole t := by
  rw [roleOf_of_none (operandOf?_eq_none_of_isMark h hat)]
  unfold plainRole
  rw [h.1]

theorem markRole_of_roleOf (hrole : roleOf d t = .opening ∨ roleOf d t = .closing ∨ roleOf d t = .sign) :
    t.kind = .punctuation ∧ markRole t = roleOf d t := by
  cases hop : operandOf? d t with
  | some x =>
    exfalso
    cases x with
    | ok e =>
      rw [roleOf_of_ok hop] at hrole
      revert hrole
      decide
    | error f =>
      rw [roleOf_of_error hop] at hrole
      revert hrole
      decide
  | none =>
    rw [roleOf_of_none hop] at hrole ⊢
    unfold plainRole at hrole ⊢
    split at hrole
    · rename_i hkind
      exact ⟨hkind, rfl⟩
    · exfalso
      have hkeywords : ∀ entry ∈ keywords,
          ¬ (entry.2 = .opening ∨ entry.2 = .closing ∨ entry.2 = .sign) := by decide
      unfold wordRole at hrole
      split at hrole
      · rename_i entry hentry
        exact hkeywords entry (List.mem_of_find?_eq_some hentry) hrole
      · split at hrole
        · revert hrole
          decide
        · revert hrole
          decide
    · exfalso
      revert hrole
      decide

/-- What a punctuation token in a role has for its spelling. -/
def Role.Marks : Role → Text → Prop
  | .opening, w => w = "("
  | .closing, w => w = ")"
  | .sign, w => (Comparison.ofText? w).isSome = true
  | .other, _ => True
  | _, _ => False

theorem marks_markRole (t : Token) : (markRole t).Marks t.text := by
  unfold markRole
  split
  · rename_i hopen
    exact hopen
  · split
    · rename_i hclose
      exact hclose
    · split
      · rename_i hsign
        exact hsign
      · trivial

theorem marks_of_roleOf (hrole : roleOf d t = .opening ∨ roleOf d t = .closing ∨ roleOf d t = .sign) :
    t.kind = .punctuation ∧ (roleOf d t).Marks t.text := by
  obtain ⟨hkind, heq⟩ := markRole_of_roleOf hrole
  exact ⟨hkind, heq ▸ marks_markRole t⟩

theorem roleOf_eq_opening_iff : roleOf d t = .opening ↔ t.IsMark "(" := by
  constructor
  · intro h
    obtain ⟨hkind, hmarks⟩ := marks_of_roleOf (.inl h)
    rw [h] at hmarks
    exact ⟨hkind, hmarks⟩
  · intro h
    rw [roleOf_of_isMark h (by decide)]
    unfold markRole
    rw [if_pos h.2]

theorem roleOf_eq_closing_iff : roleOf d t = .closing ↔ t.IsMark ")" := by
  constructor
  · intro h
    obtain ⟨hkind, hmarks⟩ := marks_of_roleOf (.inr (.inl h))
    rw [h] at hmarks
    exact ⟨hkind, hmarks⟩
  · intro h
    rw [roleOf_of_isMark h (by decide)]
    unfold markRole
    rw [h.2]
    decide

theorem roleOf_eq_sign_iff :
    roleOf d t = .sign ↔ t.kind = .punctuation ∧ (Comparison.ofText? t.text).isSome = true := by
  constructor
  · intro h
    obtain ⟨hkind, hmarks⟩ := marks_of_roleOf (.inr (.inr h))
    rw [h] at hmarks
    exact ⟨hkind, hmarks⟩
  · intro ⟨hkind, hsome⟩
    obtain ⟨op, hop⟩ := Option.isSome_iff_exists.mp hsome
    have hlabel : op.label = t.text := by
      have hfind := List.find?_some hop
      exact of_decide_eq_true hfind
    have hall : ∀ op ∈ Comparison.all, op.label.head? ≠ some ('@' : CodePoint) ∧ op.label ≠ "(" ∧
        op.label ≠ ")" := by decide
    obtain ⟨hat, hopen, hclose⟩ := hall op (List.mem_of_find?_eq_some hop)
    rw [hlabel] at hat hopen hclose
    rw [roleOf_of_isMark ⟨hkind, rfl⟩ hat]
    unfold markRole
    rw [if_neg hopen, if_neg hclose, if_pos hsome]

end Roles

/-- Whether a token is the name of a step. -/
def isStepName (t : Token) : Bool := (Value.nameOf t).isOk

/-- Where a test stands after a token. -/
inductive Spot where
  /-- After the first keyword, an opening parenthesis or a connective. -/
  | link
  /-- After a negation. -/
  | negated
  /-- After an operand, which a comparison may follow. -/
  | operand
  /-- After a comparison. -/
  | compared
  /-- After an atom that is complete. -/
  | atom
deriving DecidableEq

inductive Stage where
  | start
  /-- In a test with some parentheses open. -/
  | test (opened : Nat) (spot : Spot)
  /-- After the keyword of the actions. -/
  | actions
  /-- After the name or an operand of a step. -/
  | steps
deriving DecidableEq

namespace Stage

/-- The stage after the first token of an atom. -/
def beginAtom (limit opened : Nat) : Role → Option Stage
  | .operand => some (.test opened .operand)
  | .word => some (.test opened .atom)
  | .opening => if opened < limit then some (.test (opened + 1) .link) else none
  | _ => none

/-- The stage after the first token of a test. -/
def beginTest (limit opened : Nat) : Role → Option Stage
  | .neg => some (.test opened .negated)
  | r => beginAtom limit opened r

/-- The stage after a token that follows an atom. -/
def follow (limit opened : Nat) : Role → Option Stage
  | .closing => if opened = 0 then none else some (.test (opened - 1) .atom)
  | .conj | .disj => some (.test opened .link)
  | .actions => if opened = 0 then some .actions else none
  | r => beginTest limit opened r

/-- The stage after one more token of a test, by its role. -/
def stepTest (limit opened : Nat) (r : Role) : Spot → Option Stage
  | .link => beginTest limit opened r
  | .negated => beginAtom limit opened r
  | .operand => if r = .sign then some (.test opened .compared) else follow limit opened r
  | .compared => if r = .operand then some (.test opened .atom) else none
  | .atom => follow limit opened r

/-- The stage after one more token; none where no expression goes on with it. -/
def step (d : Dialect) (t : Token) : Stage → Option Stage
  | .start => if roleOf d t = .test then some (.test 0 .link) else none
  | .test opened spot => stepTest d.maxDepth opened (roleOf d t) spot
  | .actions => if isStepName t then some .steps else none
  | .steps => if roleOf d t = .operand ∨ isStepName t = true then some .steps else none

/-- The stage after some more tokens. -/
def run (d : Dialect) : Stage → List Token → Option Stage
  | s, [] => some s
  | s, t :: ts => (s.step d t).bind fun s' => run d s' ts

theorem run_append {d : Dialect} {s : Stage} {ts us : List Token} :
    run d s (ts ++ us) = (run d s ts).bind fun s' => run d s' us := by
  induction ts generalizing s with
  | nil => rfl
  | cons t ts ih =>
    show (s.step d t).bind (fun s' => run d s' (ts ++ us)) =
      ((s.step d t).bind fun s' => run d s' ts).bind fun s' => run d s' us
    cases s.step d t with
    | none => rfl
    | some s' => exact ih

theorem run_singleton {d : Dialect} {s : Stage} {t : Token} : run d s [t] = s.step d t := by
  show (s.step d t).bind (fun s' => some s') = s.step d t
  cases s.step d t <;> rfl

/-! ## Leading to the end -/

/-- A token that was cut from no line. -/
def handmade (kind : TokenKind) (text : Text) : Token :=
  { kind, text, value := text, span := .point ⟨1, 1, 0⟩, start := 0, stop := 0, source := none }

theorem roleOf_handmade {d : Dialect} {kind : TokenKind} {text : Text} (hnumber : kind ≠ .number)
    (hquoted : kind ≠ .quoted) (hunder : text.head? ≠ some ('_' : CodePoint))
    (hat : text.head? ≠ some ('@' : CodePoint)) :
    roleOf d (handmade kind text) = plainRole (handmade kind text) := by
  have hnone : operandOf? d (handmade kind text) = none :=
    operandOf?_eq_none_iff.mpr ⟨fun h => hunder h.2, hnumber, hquoted, hat⟩
  unfold roleOf
  rw [hnone]

theorem roleOf_handmade_number {d : Dialect} : roleOf d (handmade .number "1") = .operand := by
  have hread : Value.readNumber (handmade .number "1") = .ok (.number 1 (.point ⟨1, 1, 0⟩)) := by
    decide +kernel
  have hsome := operandOf?_eq_some_ok_iff.mpr (Operand.number (d := d) rfl hread)
  unfold roleOf
  rw [hsome]

/-- The tokens that complete an atom. -/
def closingAtom : Spot → List Token
  | .link | .negated => [handmade .word "a"]
  | .compared => [handmade .number "1"]
  | .operand | .atom => []

theorem run_closingAtom {d : Dialect} (opened : Nat) (spot : Spot) :
    ∃ spot', (spot' = .operand ∨ spot' = .atom) ∧
      run d (.test opened spot) (closingAtom spot) = some (.test opened spot') := by
  have hword : roleOf d (handmade .word "a") = .word := by
    rw [roleOf_handmade (by decide) (by decide) (by decide) (by decide)]
    decide +kernel
  cases spot with
  | link =>
    refine ⟨.atom, .inr rfl, ?_⟩
    show run d (.test opened .link) [handmade .word "a"] = _
    rw [run_singleton, step, hword]
    rfl
  | negated =>
    refine ⟨.atom, .inr rfl, ?_⟩
    show run d (.test opened .negated) [handmade .word "a"] = _
    rw [run_singleton, step, hword]
    rfl
  | compared =>
    refine ⟨.atom, .inr rfl, ?_⟩
    show run d (.test opened .compared) [handmade .number "1"] = _
    rw [run_singleton, step, roleOf_handmade_number]
    rfl
  | operand => exact ⟨.operand, .inl rfl, rfl⟩
  | atom => exact ⟨.atom, .inr rfl, rfl⟩

/-- After an atom the open parentheses can be closed and the actions begun. -/
theorem run_closingTest {d : Dialect} (opened : Nat) {spot : Spot}
    (hspot : spot = .operand ∨ spot = .atom) :
    run d (.test opened spot) (List.replicate opened (handmade .punctuation ")") ++
      [handmade .word "actions"]) = some .actions := by
  have hclose : roleOf d (handmade .punctuation ")") = .closing := by
    rw [roleOf_handmade (by decide) (by decide) (by decide) (by decide)]
    decide +kernel
  have hactions : roleOf d (handmade .word "actions") = .actions := by
    rw [roleOf_handmade (by decide) (by decide) (by decide) (by decide)]
    decide +kernel
  have hfollow : ∀ n r, r ≠ .sign → stepTest d.maxDepth n r spot = follow d.maxDepth n r := by
    intro n r hr
    rcases hspot with rfl | rfl
    · exact if_neg hr
    · rfl
  induction opened generalizing spot with
  | zero =>
    show run d (.test 0 spot) [handmade .word "actions"] = some .actions
    rw [run_singleton, step, hactions, hfollow 0 .actions (by decide)]
    rfl
  | succ n ih =>
    rw [List.replicate_succ, List.cons_append, run, step, hclose, hfollow (n + 1) .closing (by decide)]
    exact ih (.inr rfl) fun _ _ _ => rfl

/-- From every stage some tokens lead to the end of an expression. -/
theorem run_closing (d : Dialect) (s : Stage) : ∃ ts, run d s ts = some .steps := by
  have hsteps : run d .actions [handmade .word "go"] = some .steps := by
    have hname : isStepName (handmade .word "go") = true := by decide +kernel
    rw [run_singleton, step, if_pos hname]
  have htest : ∀ opened spot, ∃ ts, run d (.test opened spot) ts = some .steps := by
    intro opened spot
    obtain ⟨spot', hspot, hatom⟩ := run_closingAtom (d := d) opened spot
    refine ⟨closingAtom spot ++ ((List.replicate opened (handmade .punctuation ")") ++
      [handmade .word "actions"]) ++ [handmade .word "go"]), ?_⟩
    rw [run_append, hatom, Option.bind_some, run_append, run_closingTest opened hspot,
      Option.bind_some, hsteps]
  cases s with
  | start =>
    have hrole : roleOf d (handmade .word "test") = .test := by
      rw [roleOf_handmade (by decide) (by decide) (by decide) (by decide)]
      decide +kernel
    obtain ⟨ts, hts⟩ := htest 0 .link
    refine ⟨handmade .word "test" :: ts, ?_⟩
    rw [run, step, if_pos hrole]
    exact hts
  | test opened spot => exact htest opened spot
  | actions => exact ⟨_, hsteps⟩
  | steps => exact ⟨[], rfl⟩

end Stage
end Expression
end BrailleTable
