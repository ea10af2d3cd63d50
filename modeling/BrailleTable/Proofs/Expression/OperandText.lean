/-
What operands are written as.

An operand of a comparison or of a step is written by the function that also writes the literals of a test, and a literal
may be a word.  So a string with a line ending in it becomes a word with escapes, and a number below zero a word that
starts with a dash.  A word is no operand, and it is no name of a step either, so the expression it stands in is not read.
Every other operand is read back.
-/
import BrailleTable.Proofs.Expression.Canonical
import BrailleTable.Proofs.Expression.Progress

namespace BrailleTable

namespace CodePoint

theorem decimalValue?_lt {c : CodePoint} {n : Nat} (h : c.decimalValue? = some n) : n < 10 := by
  obtain ⟨first, hfind, rfl⟩ := Option.map_eq_some_iff.mp h
  have hrange := List.find?_some hfind
  rw [decide_eq_true_iff] at hrange
  omega

end CodePoint

namespace Value

/-- A number that was read has no more digits than may be converted, whatever its sign and spelling. -/
theorem natAbs_lt_of_readInteger {t : Text} {n : Int} (h : Text.readInteger t = .ok n) :
    n.natAbs < 10 ^ Text.digitLimit := by
  unfold Text.readInteger at h
  generalize Text.splitSign (t.dropWhile Text.isNumeralBlank) = split at h
  obtain ⟨negative, body⟩ := split
  dsimp only at h
  generalize hdigits : (body.takeWhile Text.isNumeralPart).filterMap CodePoint.decimalValue? = digits at h
  have hten : ∀ d ∈ digits, d < 10 := by
    intro d hd
    rw [← hdigits] at hd
    obtain ⟨c, -, hc⟩ := List.mem_filterMap.mp hd
    exact CodePoint.decimalValue?_lt hc
  split at h
  · cases h
  · split at h
    · cases h
    · rename_i hlimit
      split at h
      · cases h
        have hlt : Text.digitsValue digits < 10 ^ Text.digitLimit :=
          Nat.lt_of_lt_of_le (Text.digitsValue_lt hten) (Nat.pow_le_pow_right (by decide) (Nat.le_of_not_lt hlimit))
        split <;> omega
      · cases h

theorem exists_natAbs_lt_of_readNumber {t : Token} {v : Value Span} (h : readNumber t = .ok v) :
    ∃ n : Int, v = .number n t.span ∧ n.natAbs < 10 ^ Text.digitLimit := by
  unfold readNumber at h
  split at h
  · cases h
  · split at h
    · rename_i n hn
      cases h
      exact ⟨n, rfl, natAbs_lt_of_readInteger hn⟩
    · cases h
    · cases h

end Value

namespace Expression

open Lexer (Spells)

/-! ## Operands that stay operands -/

/-- An operand that is not written as a word: a string without line endings, a number that is not below zero, a class or
dots. -/
def StaysOperand {σ : Type} : Expression σ → Prop
  | .literal (.value (.string v _)) _ => ('\n' : CodePoint) ∉ v ∧ ('\r' : CodePoint) ∉ v
  | .literal (.value (.number n _)) _ => 0 ≤ n
  | _ => True

variable {d : Dialect} {t : Token} {o : Expression Span} {rules : LexRules}

/-- An operand that stays one is as canonical as any, whatever token it was read from. -/
theorem Operand.canonicalOperand (h : Operand d t o) (hstays : o.StaysOperand) : CanonicalOperand o := by
  cases h with
  | classRef _ hname => exact .classRef (Value.classNameOf_eq_ok_iff.mp hname).2.2
  | number _ hread =>
    obtain ⟨n, rfl, hn⟩ := Value.exists_natAbs_lt_of_readNumber hread
    obtain ⟨m, rfl⟩ := Int.eq_ofNat_of_zero_le hstays
    exact .number hn
  | quoted _ => exact .string hstays.1 hstays.2
  | dots _ _ _ hread =>
    obtain ⟨cells, rfl, hcells⟩ := Value.isPatternOf_of_readDots d.dotAlphabet_digits hread
    exact .dots (hcells.isPattern d.dotAlphabet_digits)

/-- The two kinds of operands that do not stay operands. -/
theorem Operand.cases_of_not_staysOperand (h : Operand d t o) (hstays : ¬ o.StaysOperand) :
    (∃ v s s', o = .literal (.value (.string v s)) s' ∧ (('\n' : CodePoint) ∈ v ∨ ('\r' : CodePoint) ∈ v)) ∨
      ∃ n s s', o = .literal (.value (.number (.negSucc n) s)) s' := by
  cases h with
  | classRef => exact absurd trivial hstays
  | number _ hread =>
    obtain ⟨n, rfl, -⟩ := Value.exists_natAbs_lt_of_readNumber hread
    cases n with
    | ofNat n => exact absurd (Int.natCast_nonneg n) hstays
    | negSucc n => exact .inr ⟨n, _, _, rfl⟩
  | quoted _ =>
    refine .inl ⟨_, _, _, rfl, ?_⟩
    by_contra hnone
    exact hstays (not_or.mp hnone)
  | dots _ _ _ hread =>
    obtain ⟨cells, rfl, -⟩ := Value.isPatternOf_of_readDots d.dotAlphabet_digits hread
    exact absurd trivial hstays

/-! ## What is written -/

/-- What became of an operand in the token that it was written as. -/
structure Restores (o : Expression Span) (u : Token) : Prop where
  operand_iff : (∃ o', operandOf? .standard u = some (.ok o') ∧ o'.bare = o.bare) ↔ o.StaysOperand
  word : ¬ o.StaysOperand → operandOf? .standard u = none ∧ isStepName u = false

theorem spells_of_canonicalOperand (hrules : rules.commentMark = "#") (h : CanonicalOperand o) :
    ∃ w, writeOperand .standard o = .ok w ∧ SpellsOperand rules w o := by
  obtain ⟨w, hwrite, hclosed⟩ := (h.isOperand (f := id)).exists_write hrules
  rw [writeOperand_map] at hwrite
  have hspells := hclosed.spells (fun hmem => (Text.mem_unbroken.mp hmem).1 rfl)
    fun hmem => (Text.mem_unbroken.mp hmem).2 rfl
  refine ⟨w, hwrite, hspells.imp fun ts hts => ?_⟩
  obtain ⟨u, o', rfl, hoperand, hbare⟩ := hts
  exact ⟨u, o', rfl, hoperand, hbare.trans (bare_map id o)⟩

/-- An unquoted token with a mark in it that neither numbers nor names have. -/
theorem isNoOperand_of_isPlain {w : Text} {c : CodePoint} (ht : t.IsPlain w) (hc : c ∈ w) (hdigit : c.isDigit = false)
    (hname : Value.isNameChar c = false)
    (hhead : w.head? ≠ some ('_' : CodePoint) ∧ w.head? ≠ some ('@' : CodePoint)) :
    operandOf? .standard t = none ∧ isStepName t = false := by
  constructor
  · rw [operandOf?_eq_none_iff, ht.kind_eq, ht.text_eq]
    exact ⟨fun hboth => hhead.1 hboth.2, TokenKind.ofText_ne_number hc hdigit, TokenKind.ofText_ne_quoted w, hhead.2⟩
  · unfold isStepName
    cases hread : Value.nameOf t with
    | error e => rfl
    | ok name =>
      obtain ⟨-, htext, hisName⟩ := Value.nameOf_eq_ok_iff.mp hread
      rw [← ht.text_eq, htext] at hc
      rw [hisName.isNameChar_of_mem c hc] at hname
      cases hname

/-- A string with a line ending in it becomes a word with a backslash. -/
theorem spells_string_word (hrules : rules.commentMark = "#") {v : Text} (s s' : Span)
    (hv : ('\n' : CodePoint) ∈ v ∨ ('\r' : CodePoint) ∈ v) :
    ∃ w, writeOperand .standard (.literal (.value (.string v s)) s') = .ok w ∧ Spells rules true w fun ts =>
      ∃ u, ts = [u] ∧ operandOf? .standard u = none ∧ isStepName u = false := by
  refine ⟨_, (writeOperand_string v s s').trans (by rw [if_pos hv]), ?_⟩
  have hslash : ('\\' : CodePoint) ∈ Escape.encode (wordCare .standard) v := by
    rcases hv with hv | hv
    · exact (Escape.mem_encode_of_codeOf? (wordCare .standard) hv (show _ = some ('n' : CodePoint) by decide)).1
    · exact (Escape.mem_encode_of_codeOf? (wordCare .standard) hv (show _ = some ('r' : CodePoint) by decide)).1
  refine (spells_encode hrules (ne_nil_of_hasEnding hv)).imp fun ts hts => ?_
  obtain ⟨u, rfl, hu⟩ := hts
  refine ⟨u, rfl, isNoOperand_of_isPlain hu hslash (by decide) (by decide) ⟨fun hhead => ?_, fun hhead => ?_⟩⟩
  · exact (head?_encode_wordCare hhead).1 rfl
  · exact (head?_encode_wordCare hhead).2.1 rfl

/-- A number below zero becomes a word with a dash. -/
theorem spells_number_word (hrules : rules.commentMark = "#") (n : Nat) (s s' : Span) :
    ∃ w, writeOperand .standard (.literal (.value (.number (.negSucc n) s)) s') = .ok w ∧
      Spells rules true w fun ts => ∃ u, ts = [u] ∧ operandOf? .standard u = none ∧ isStepName u = false := by
  have hall : ∀ b ∈ ('-' : CodePoint) :: Text.ofNat (n + 1), b.isBlank = false ∧ Token.isOperatorChar b = false := by
    intro b hb
    rcases List.mem_cons.mp hb with rfl | hb
    · decide
    · exact ⟨(Value.isArgument_ofNat (n + 1)).blank b hb, isOperatorChar_of_mem_dotDigits
        (.inl (Value.mem_dotDigits_of_isDigit (Text.isDigit_of_mem_ofNat b hb)))⟩
  refine ⟨_, rfl, (spells_plain hrules rfl (by decide) (fun b hb => (hall b hb).1) fun b hb => (hall b hb).2).imp
    fun ts hts => ?_⟩
  obtain ⟨u, rfl, hu⟩ := hts
  exact ⟨u, rfl, isNoOperand_of_isPlain hu List.mem_cons_self (by decide) (by decide) (by
    rw [List.head?_cons]
    decide)⟩

/-- Every operand is written as one token, which is the same operand or no operand at all. -/
theorem Operand.exists_write (hrules : rules.commentMark = "#") (h : Operand d t o) :
    ∃ w, writeOperand .standard o = .ok w ∧ Spells rules true w fun ts => ∃ u, ts = [u] ∧ Restores o u := by
  by_cases hstays : o.StaysOperand
  · obtain ⟨w, hwrite, hspells⟩ := spells_of_canonicalOperand hrules (h.canonicalOperand hstays)
    refine ⟨w, hwrite, Spells.imp hspells fun ts hts => ?_⟩
    obtain ⟨u, o', rfl, hoperand, hbare⟩ := hts
    have hrestored : ∃ o', operandOf? .standard u = some (.ok o') ∧ o'.bare = o.bare :=
      ⟨o', operandOf?_of_operand hoperand, hbare⟩
    exact ⟨u, rfl, ⟨iff_of_true hrestored hstays, fun hnot => absurd hstays hnot⟩⟩
  · obtain ⟨w, hwrite, hspells⟩ : ∃ w, writeOperand .standard o = .ok w ∧ Spells rules true w fun ts =>
        ∃ u, ts = [u] ∧ operandOf? .standard u = none ∧ isStepName u = false := by
      rcases h.cases_of_not_staysOperand hstays with ⟨v, s, s', rfl, hv⟩ | ⟨n, s, s', rfl⟩
      · exact spells_string_word hrules s s' hv
      · exact spells_number_word hrules n s s'
    refine ⟨w, hwrite, hspells.imp fun ts hts => ?_⟩
    obtain ⟨u, rfl, hnone, hname⟩ := hts
    have hlost : ¬ ∃ o', operandOf? .standard u = some (.ok o') ∧ o'.bare = o.bare := by
      rintro ⟨o', hsome, -⟩
      rw [hnone] at hsome
      cases hsome
    exact ⟨u, rfl, ⟨iff_of_false hlost hstays, fun _ => ⟨hnone, hname⟩⟩⟩

/-! ## Where operands stand -/

/-- The expression that compares two operands and hands others to a step. -/
def comparing (op : Comparison) (left right : Expression Span) (name : Text) (operands : List (Expression Span))
    (s : Span) : Expression Span :=
  .body (.compare op left right s) [.step name operands s] s

/-- The tokens of such an expression, after its operands were written. -/
inductive Lists (op : Comparison) (left right : Expression Span) (name : Text) (operands : List (Expression Span)) :
    List Token → Prop
  | mk {k l m r a n : Token} {us : List Token} :
      k.IsKeyword "test" → Restores left l → m.kind = .punctuation → Comparison.ofText? m.text = some op →
      Restores right r → a.IsKeyword "actions" → Value.nameOf n = .ok name →
      List.Forall₂ (fun u o => Restores o u) us operands →
      Lists op left right name operands (k :: l :: m :: r :: a :: n :: us)

variable {op : Comparison} {left right : Expression Span} {name : Text} {operands : List (Expression Span)}
  {opcode : Text} {eol s : Span}

theorem Restores.roleOf_eq_iff {u : Token} (h : Restores o u) : roleOf .standard u = .operand ↔ o.StaysOperand := by
  constructor
  · intro hrole
    by_contra hnot
    rw [roleOf_of_none (h.word hnot).1] at hrole
    exact plainRole_ne_operand u hrole
  · intro hstays
    obtain ⟨o', hsome, -⟩ := h.operand_iff.mpr hstays
    exact roleOf_of_ok hsome

namespace Stage

theorem run_cons_eq_some {s s' : Stage} {ts : List Token} (h : run d s (t :: ts) = some s') :
    ∃ s₁, s.step d t = some s₁ ∧ run d s₁ ts = some s' :=
  Option.bind_eq_some_iff.mp h

/-- A comparison follows operands only. -/
theorem run_sign {l m : Token} {ts : List Token} {s : Stage} (hm : roleOf d m = .sign)
    (h : run d (.test 0 .link) (l :: m :: ts) = some s) :
    roleOf d l = .operand ∧ run d (.test 0 .compared) ts = some s := by
  obtain ⟨s₁, hl, h⟩ := run_cons_eq_some h
  obtain ⟨s₂, hsign, h⟩ := run_cons_eq_some h
  have hlink : beginTest d.maxDepth 0 (roleOf d l) = some s₁ := hl
  cases hrole : roleOf d l with
  | operand =>
    rw [hrole] at hlink
    cases hlink
    have hcompared : stepTest d.maxDepth 0 (roleOf d m) .operand = some s₂ := hsign
    rw [hm] at hcompared
    cases hcompared
    exact ⟨rfl, h⟩
  | neg =>
    rw [hrole] at hlink
    cases hlink
    have hnone : beginAtom d.maxDepth 0 (roleOf d m) = some s₂ := hsign
    rw [hm] at hnone
    cases hnone
  | word =>
    rw [hrole] at hlink
    cases hlink
    have hnone : follow d.maxDepth 0 (roleOf d m) = some s₂ := hsign
    rw [hm] at hnone
    cases hnone
  | opening =>
    rw [hrole] at hlink
    have hopen : (if 0 < d.maxDepth then some (Stage.test 1 .link) else none) = some s₁ := hlink
    rw [if_pos d.maxDepth_pos] at hopen
    cases hopen
    have hnone : beginTest d.maxDepth 1 (roleOf d m) = some s₂ := hsign
    rw [hm] at hnone
    cases hnone
  | _ =>
    rw [hrole] at hlink
    cases hlink

/-- After a comparison one more operand is wanted, and then the actions may begin. -/
theorem run_compared {r a n : Token} {ts : List Token} {s : Stage} (ha : roleOf d a = .actions)
    (h : run d (.test 0 .compared) (r :: a :: n :: ts) = some s) :
    roleOf d r = .operand ∧ run d .steps ts = some s := by
  obtain ⟨s₁, hr, h⟩ := run_cons_eq_some h
  obtain ⟨s₂, hactions, h⟩ := run_cons_eq_some h
  obtain ⟨s₃, hn, h⟩ := run_cons_eq_some h
  have hcompared : (if roleOf d r = .operand then some (Stage.test 0 .atom) else none) = some s₁ := hr
  split at hcompared
  · rename_i hrole
    cases hcompared
    have hfollow : follow d.maxDepth 0 (roleOf d a) = some s₂ := hactions
    rw [ha] at hfollow
    cases hfollow
    have hname : (if isStepName n then some Stage.steps else none) = some s₃ := hn
    split at hname
    · cases hname
      exact ⟨hrole, h⟩
    · cases hname
  · cases hcompared

/-- In the steps every token is an operand or a name. -/
theorem forall_of_run_steps {ts : List Token} {s : Stage} (h : run d .steps ts = some s) :
    ∀ u ∈ ts, roleOf d u = .operand ∨ isStepName u = true := by
  induction ts with
  | nil => exact fun u hu => absurd hu List.not_mem_nil
  | cons t ts ih =>
    obtain ⟨s₁, ht, h⟩ := run_cons_eq_some h
    have hstep : (if roleOf d t = .operand ∨ isStepName t = true then some Stage.steps else none) = some s₁ := ht
    split at hstep
    · rename_i hrole
      cases hstep
      exact List.forall_mem_cons.mpr ⟨hrole, ih h⟩
    · cases hstep

end Stage

/-- Such an expression is not read at all if one of its operands became a word. -/
theorem Lists.staysOperand {ts : List Token} (h : Lists op left right name operands ts)
    (hparse : ∃ e, parse .standard opcode ⟨ts, 0, eol⟩ = .ok e) : ∀ o ∈ left :: right :: operands, o.StaysOperand := by
  have hrun := (exists_parse_iff_run ⟨rfl, rfl⟩).mp hparse
  cases h with
  | @mk k l m r a n us hk hl hm hsign hr ha hn hus =>
    have htest : roleOf .standard k = .test := (roleOf_eq_iff_isKeyword (by decide)).mpr hk
    have hactions : roleOf .standard a = .actions := (roleOf_eq_iff_isKeyword (by decide)).mpr ha
    have hmark : roleOf .standard m = .sign := roleOf_eq_sign_iff.mpr ⟨hm, by rw [hsign]; rfl⟩
    obtain ⟨s₁, hstart, hrun⟩ := Stage.run_cons_eq_some hrun
    have hlink : (if roleOf .standard k = .test then some (Stage.test 0 .link) else none) = some s₁ := hstart
    rw [if_pos htest] at hlink
    cases hlink
    obtain ⟨hleft, hrun⟩ := Stage.run_sign hmark hrun
    obtain ⟨hright, hrun⟩ := Stage.run_compared hactions hrun
    refine List.forall_mem_cons.mpr ⟨hl.roleOf_eq_iff.mp hleft, List.forall_mem_cons.mpr
      ⟨hr.roleOf_eq_iff.mp hright, fun o ho => ?_⟩⟩
    obtain ⟨u, hu, hrestores⟩ := Lexer.exists_of_forall₂ hus.flip o ho
    by_contra hnot
    rcases Stage.forall_of_run_steps hrun u hu with hrole | hstep
    · exact hnot (hrestores.roleOf_eq_iff.mp hrole)
    · rw [(hrestores.word hnot).2] at hstep
      cases hstep

theorem exists_operands_of_restores {us : List Token} (h : List.Forall₂ (fun u o => Restores o u) us operands)
    (hstays : ∀ o ∈ operands, o.StaysOperand) :
    ∃ operands', List.Forall₂ (Operand .standard) us operands' ∧ operands'.map bare = operands.map bare := by
  induction h with
  | nil => exact ⟨[], .nil, rfl⟩
  | cons hfirst _ ih =>
    rw [List.forall_mem_cons] at hstays
    obtain ⟨o', hsome, hbare⟩ := hfirst.operand_iff.mpr hstays.1
    obtain ⟨os', hos', hbares⟩ := ih hstays.2
    exact ⟨o' :: os', .cons (operand_of_operandOf? hsome) hos', by rw [List.map_cons, List.map_cons, hbare, hbares]⟩

/-- It is read back if all of them stayed operands. -/
theorem Lists.exists_parse {ts : List Token} (h : Lists op left right name operands ts)
    (hstays : ∀ o ∈ left :: right :: operands, o.StaysOperand) :
    ∃ e, parse .standard opcode ⟨ts, 0, eol⟩ = .ok e ∧ e.bare = (comparing op left right name operands s).bare := by
  have htestKeyword := Dialect.standard_hasStandardKeywords.lower_testKeyword
  have hactionKeyword := Dialect.standard_hasStandardKeywords.lower_actionKeyword
  rw [List.forall_mem_cons, List.forall_mem_cons] at hstays
  cases h with
  | @mk k l m r a n us hk hl hm hsign hr ha hn hus =>
    obtain ⟨left', hleft, hleftBare⟩ := hl.operand_iff.mpr hstays.1
    obtain ⟨right', hright, hrightBare⟩ := hr.operand_iff.mpr hstays.2.1
    obtain ⟨operands', hoperands, hbares⟩ := exists_operands_of_restores hus hstays.2.2
    have hatom : Parses .atom Dialect.standard.maxDepth [l, m, r] [.compare op left' right' (left'.span.merge right'.span)] :=
      .comparison (operand_of_operandOf? hleft) hm hsign (operand_of_operandOf? hright)
    obtain ⟨es, hes, htest⟩ : Forms .disjunction Dialect.standard.maxDepth [l, m, r]
        (.compare op left' right' (left'.span.merge right'.span)) := forms_of_atom hatom (.inr (show 3 < 5 by decide))
    have hbody := Body.mk (htestKeyword ▸ hk) hes (hactionKeyword ▸ ha) (List.cons_ne_nil (n :: us) [])
      (.cons (.mk hn hoperands) .nil)
    refine ⟨_, parse_of_body ⟨rfl, rfl⟩ hbody ?_, ?_⟩
    · show _ = k :: ([l, m, r] ++ a :: ((n :: us) ++ []))
      rw [List.append_nil]
      rfl
    · rw [htest]
      show Expression.body (.compare op left'.bare right'.bare ()) [(Expression.step name operands' _).bare] () =
        .body (.compare op left.bare right.bare ()) [(Expression.step name operands _).bare] ()
      rw [hleftBare, hrightBare, bare_step, bare_step, hbares]

/-! ## Lines -/

theorem spells_step (hrules : rules.commentMark = "#") (hname : Value.IsName name) {texts : List Text}
    (h : List.Forall₂ (fun text o => Spells rules true text fun ts => ∃ u, ts = [u] ∧ Restores o u) texts operands) :
    Spells rules true (Text.join " " (name :: texts)) fun ts => ∃ n us, ts = n :: us ∧ Value.nameOf n = .ok name ∧
      List.Forall₂ (fun u o => Restores o u) us operands := by
  have hfirst : Spells rules true name fun ts => ∃ n, ts = [n] ∧ Value.nameOf n = .ok name :=
    spells_name hrules hname hname.ofText_eq_word hname.isBlank_of_mem
  by_cases hne : operands = []
  · subst hne
    cases h
    refine hfirst.imp fun ts hts => ?_
    obtain ⟨n, rfl, hn⟩ := hts
    exact ⟨n, [], rfl, hn, .nil⟩
  · rw [Text.join_cons (Lexer.ne_nil_of_forall₂ h hne)]
    refine (hfirst.blank (Lexer.spells_join h hne)).imp fun ts hts => ?_
    obtain ⟨_, _, rfl, ⟨n, rfl, hn⟩, ws, rfl, hws⟩ := hts
    exact ⟨n, ws.flatten, rfl, hn, Lexer.forall₂_flatten hws⟩

/-- The expression is written, and its text lists what became of its operands. -/
theorem spells_comparing (hrules : rules.commentMark = "#") (hop : op ∈ Comparison.all) (hname : Value.IsName name)
    (h : ∀ o ∈ left :: right :: operands, ∃ t, Operand d t o) :
    ∃ text, write .standard (comparing op left right name operands s) = .ok text ∧
      Spells rules true text (Lists op left right name operands) := by
  rw [List.forall_mem_cons, List.forall_mem_cons] at h
  obtain ⟨⟨tl, hleft⟩, ⟨tr, hright⟩, hoperands⟩ := h
  obtain ⟨l, hl, hlspells⟩ := hleft.exists_write hrules
  obtain ⟨r, hr, hrspells⟩ := hright.exists_write hrules
  obtain ⟨texts, htexts, hspells⟩ := exists_writeOperands fun o ho => by
    obtain ⟨t, ht⟩ := hoperands o ho
    exact ht.exists_write hrules
  have htest : write .standard (.compare op left right s) = .ok (l ++ " " ++ op.label ++ " " ++ r) := by
    unfold write
    rw [hl, hr]
    rfl
  have hsteps : writeAll .standard 0 [.step name operands s] = .ok [Text.join " " (name :: texts)] := by
    unfold writeAll write
    rw [htexts]
    rfl
  have htext : Text.ofString "test" ++ " " ++ (l ++ " " ++ op.label ++ " " ++ r) ++ " " ++ "actions" ++ " " ++
      Text.join " " (name :: texts) = Text.ofString "test" ++ " " ++ (l ++ " " ++ (op.label ++ " " ++ (r ++ " " ++
        (Text.ofString "actions" ++ " " ++ Text.join " " (name :: texts))))) := by
    simp only [List.append_assoc]
  refine ⟨Text.ofString "test" ++ " " ++ (l ++ " " ++ (op.label ++ " " ++ (r ++ " " ++
    (Text.ofString "actions" ++ " " ++ Text.join " " (name :: texts))))), ?_, ?_⟩
  · unfold comparing write
    rw [hsteps, htest]
    exact congrArg Except.ok htext
  · refine ((spells_keyword hrules (by decide)).blank (hlspells.blank ((spells_sign hrules hop).blank
      (hrspells.blank ((spells_keyword hrules (by decide)).blank (spells_step hrules hname hspells)))))).imp
        fun ts hts => ?_
    obtain ⟨_, _, rfl, ⟨k, rfl, hk⟩, _, _, rfl, ⟨tl, rfl, hleft⟩, _, _, rfl, ⟨m, rfl, hm, hsign⟩, _, _, rfl,
      ⟨tr, rfl, hright⟩, _, _, rfl, ⟨a, rfl, ha⟩, n, us, rfl, hn, hus⟩ := hts
    exact .mk hk hleft hm hsign hright ha hn hus

end Expression

namespace Directive

def contextShape : Shape := ⟨"context", [], true, true⟩

theorem contextShape_mem : contextShape ∈ Vocabulary.standard := by decide

/-- The tokens of an expression after an opcode that takes one. -/
theorem exists_tokenize_context {text : Text} {P : List Token → Prop}
    (hspells : Lexer.Spells Lexer.standardRules true text P) {line : LogicalLine}
    (hline : line.text = contextShape.name ++ " " ++ text) :
    ∃ c us lx, (Lexer.ofDialect .standard).tokenize line = (.ok (c :: us), lx) ∧ c.IsPlain contextShape.name ∧
      Lexer.Cutting true text us ∧ P us := by
  have hjoin : line.text = Text.join " " (([] : List Modifier).map Modifier.label ++ contextShape.name :: [text]) ++
      trailer .standard none := hline.trans (List.append_nil _).symm
  obtain ⟨ts, c, us, lx, htokens, hts, hc, ⟨hcut, hP⟩, -⟩ :=
    exists_tokenize contextShape_mem (List.cons_ne_nil text []) hspells.cutting [] (fun _ hnone => by cases hnone) hjoin
  cases hts
  exact ⟨c, us, lx, htokens, hc, hcut, hP⟩

end Directive

namespace Expression

variable {d : Dialect} {o left right : Expression Span} {operands : List (Expression Span)}

/-- At the end of a comparison an operand is one token. -/
theorem Operand.exists_tokenize {t : Token} (h : Operand d t o) :
    ∃ w, writeOperand .standard o = .ok w ∧ ∀ line : LogicalLine, line.text = "context test _a = " ++ w →
      ∃ ts u lx, (Lexer.ofDialect .standard).tokenize line = (.ok ts, lx) ∧
        (ts.drop 4).flatMap Token.splitOperators = [u] ∧ Restores o u := by
  obtain ⟨w, hwrite, hspells⟩ := h.exists_write Lexer.standardRules_commentMark
  refine ⟨w, hwrite, fun line hline => ?_⟩
  have hname : Value.IsName (Text.ofString "a") := ⟨'a', [], rfl, by decide, by decide⟩
  have hclass := spells_classRef Lexer.standardRules_commentMark (Span.point ⟨1, 1, 0⟩) hname
    hname.ofText_underscore_eq_word hname.isBlank_of_mem
  have hcomparison := (spells_keyword Lexer.standardRules_commentMark (show Text.ofString "test" ∈ _ by decide)).blank
    (hclass.blank ((spells_sign Lexer.standardRules_commentMark (show Comparison.eq ∈ _ by decide)).blank hspells))
  have htext : Text.ofString "context test _a = " = Directive.contextShape.name ++ " " ++
      (Text.ofString "test" ++ " " ++ (Text.ofString "_" ++ "a" ++ " " ++ (Comparison.eq.label ++ " "))) := by decide
  have hcontext : line.text = Directive.contextShape.name ++ " " ++ (Text.ofString "test" ++ " " ++
      (Text.ofString "_" ++ "a" ++ " " ++ (Comparison.eq.label ++ " " ++ w))) := by
    rw [hline, htext]
    simp only [List.append_assoc]
  obtain ⟨c, us, lx, htokens, -, hcut, _, _, rfl, ⟨k, rfl, -⟩, _, _, rfl, ⟨a, -, rfl, -⟩, _, _, rfl, ⟨m, rfl, -⟩, u,
    rfl, hrestores⟩ := Directive.exists_tokenize_context hcomparison hcontext
  refine ⟨_, u, lx, htokens, ?_, hrestores⟩
  show [u].flatMap Token.splitOperators = [u]
  rw [List.flatMap_singleton]
  exact hcut.whole rfl u (by simp)

/-- Such an expression is read back from the line it is written on exactly if its operands stay operands. -/
theorem exists_readLine_comparing_iff {op : Comparison} {name text : Text} (s : Span)
    (h : Lexer.Spells Lexer.standardRules true text (Lists op left right name operands)) {line : LogicalLine}
    (hline : line.text = Directive.contextShape.name ++ " " ++ text) :
    (∃ r, (Table.readLine .standard (.ofDialect .standard) line).1 = .ok (some r) ∧
      r.expression.map bare = some (comparing op left right name operands s).bare) ↔
      ∀ o ∈ left :: right :: operands, o.StaysOperand := by
  obtain ⟨c, us, lx, htokens, hc, hcut, hlists⟩ := Directive.exists_tokenize_context h hline
  have hsplit := Directive.flatMap_splitOperators hcut
  refine (Table.exists_readLine_opcode_iff Directive.contextShape_mem htokens hc (P := fun _ expression =>
    expression.map bare = some (comparing op left right name operands s).bare)).trans ⟨?_, fun hstays => ?_⟩
  · rintro ⟨args, expression, hoperands, -⟩
    cases hoperands with
    | expression _ hparse =>
      rw [hsplit] at hparse
      exact hlists.staysOperand ⟨_, hparse⟩
    | arguments hmultipart => cases hmultipart
  · obtain ⟨e, hparse, hbare⟩ := hlists.exists_parse hstays
    rw [← hsplit] at hparse
    exact ⟨[], some e, .expression rfl hparse, congrArg some hbare⟩

/-- Operands are read back from the token that they are written as, and expressions are from the line that they are
written on, exactly as far as the operands stay operands. -/
theorem exists_write_iff_staysOperand (h : ∀ o ∈ left :: right :: operands, ∃ t, operandOf? d t = some (.ok o))
    {op : Comparison} (hop : op ∈ Comparison.all) {name : Text} (hname : Value.IsName name) (s : Span) :
    (∀ o ∈ left :: right :: operands, ∃ w, writeOperand .standard o = .ok w ∧
      ∀ line : LogicalLine, line.text = "context test _a = " ++ w →
        ∃ ts u lx, (Lexer.ofDialect .standard).tokenize line = (.ok ts, lx) ∧
          (ts.drop 4).flatMap Token.splitOperators = [u] ∧
          ((∃ o', operandOf? .standard u = some (.ok o') ∧ o'.bare = o.bare) ↔ o.StaysOperand)) ∧
    ∃ text, write .standard (comparing op left right name operands s) = .ok text ∧
      ∀ line : LogicalLine, line.text = "context " ++ text →
        ((∃ r, (Table.readLine .standard (.ofDialect .standard) line).1 = .ok (some r) ∧
          r.expression.map bare = some (comparing op left right name operands s).bare) ↔
          ∀ o ∈ left :: right :: operands, o.StaysOperand) := by
  have hoperands : ∀ o ∈ left :: right :: operands, ∃ t, Operand d t o := by
    intro o ho
    obtain ⟨t, ht⟩ := h o ho
    exact ⟨t, operand_of_operandOf? ht⟩
  constructor
  · intro o ho
    obtain ⟨t, ht⟩ := hoperands o ho
    obtain ⟨w, hwrite, hline⟩ := ht.exists_tokenize
    refine ⟨w, hwrite, fun line hw => ?_⟩
    obtain ⟨ts, u, lx, htokens, hsplit, hrestores⟩ := hline line hw
    exact ⟨ts, u, lx, htokens, hsplit, hrestores.operand_iff⟩
  · obtain ⟨text, hwrite, hspells⟩ := spells_comparing Lexer.standardRules_commentMark hop hname hoperands
    exact ⟨text, hwrite, fun line hline => exists_readLine_comparing_iff s hspells hline⟩

/-- A comparison with a carriage return between quotes. -/
def returnLine : LogicalLine := .single "context test \"a\rb\" = _c actions go" ⟨1, 1, 0⟩

def returnString : Expression Span := ofValue (returnLine.span 13 18) (.string "a\rb" (returnLine.span 13 18))

def returnClass : Expression Span := .classRef "c" (returnLine.span 21 23)

/-- The string is an operand of the line, and a word of the line that is written for it. -/
theorem exists_write_returnLine :
    ∃ ts lx t u, (Lexer.ofDialect .standard).tokenize returnLine = (.ok ts, lx) ∧ t ∈ ts ∧ u ∈ ts ∧
      operandOf? .standard t = some (.ok returnString) ∧ operandOf? .standard u = some (.ok returnClass) ∧
      write .standard (comparing .eq returnString returnClass "go" [] returnLine.endSpan) =
        .ok "test a\\rb = _c actions go" ∧
      ¬ ∃ r, (Table.readLine .standard (.ofDialect .standard) (.single "context test a\\rb = _c actions go" ⟨1, 1, 0⟩)).1 =
        .ok (some r) ∧
        r.expression.map bare = some (comparing .eq returnString returnClass "go" [] returnLine.endSpan).bare := by
  have htokens : ((Lexer.ofDialect .standard).tokenize returnLine).1.toOption =
      some [Token.plain returnLine .word 0 7, Token.plain returnLine .word 8 12,
        Token.ofLine returnLine .quoted 13 18 "a\rb", Token.plain returnLine .punctuation 19 20,
        Token.plain returnLine .word 21 23, Token.plain returnLine .word 24 31, Token.plain returnLine .word 32 34] := by
    decide +kernel
  have hstring : operandOf? .standard (Token.ofLine returnLine .quoted 13 18 "a\rb") = some (.ok returnString) := rfl
  have hname : Value.classNameOf (Token.plain returnLine .word 21 23) = .ok "c" :=
    Value.classNameOf_eq_ok_iff.mpr ⟨rfl, by decide +kernel, 'c', [], rfl, by decide, by decide⟩
  have hclass : operandOf? .standard (Token.plain returnLine .word 21 23) = some (.ok returnClass) :=
    operandOf?_of_operand (.classRef rfl hname)
  have hoperands : ∀ o ∈ [returnString, returnClass], ∃ t, operandOf? .standard t = some (.ok o) :=
    List.forall_mem_cons.mpr ⟨⟨_, hstring⟩, List.forall_mem_singleton.mpr ⟨_, hclass⟩⟩
  obtain ⟨-, text, hwrite, hline⟩ := exists_write_iff_staysOperand hoperands (show Comparison.eq ∈ _ by decide)
    (show Value.IsName (Text.ofString "go") from ⟨'g', Text.ofString "o", rfl, by decide, by decide⟩) returnLine.endSpan
  have htext : (write .standard (comparing .eq returnString returnClass "go" [] returnLine.endSpan)).toOption =
      some "test a\\rb = _c actions go" := by decide +kernel
  rw [hwrite] at htext
  cases htext
  refine ⟨_, _, _, _, Prod.ext (toOption_eq_some htokens) rfl, by simp, by simp, hstring, hclass, hwrite, ?_⟩
  rw [hline _ rfl]
  intro hstays
  exact (hstays returnString List.mem_cons_self).2 (by decide)

end Expression
end BrailleTable
