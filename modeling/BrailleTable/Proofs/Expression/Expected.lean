/-
The labels of an error name what leads on.

Each production misses at the stage of the tokens before it, and asks there for no more than the stage offers (`Offered`).  So
whatever stands in the expected set of an error was asked for at its furthest place, and a token of that sort put there
instead begins some expression again.
-/
import BrailleTable.Config
import BrailleTable.Proofs.Expression.Context
import BrailleTable.Proofs.Expression.Wanted

namespace BrailleTable

namespace Expression

variable {d : Dialect} {opcode : Text} {α : Type}

/-! ## Open parentheses -/

/-- The number of open parentheses after a token of the role. -/
def Role.opens : Role → Nat → Nat
  | .opening, opened => opened + 1
  | .closing, opened => opened - 1
  | _, opened => opened

theorem Role.opens_eq_self {r : Role} (hopening : r ≠ .opening) (hclosing : r ≠ .closing) (opened : Nat) :
    r.opens opened = opened := by
  cases r <;> first | rfl | contradiction

theorem length_nest (d : Dialect) (t : Token) (stack : List Span) :
    (t.nest stack).length = (roleOf d t).opens stack.length := by
  by_cases hopening : roleOf d t = .opening
  · rw [hopening, Token.nest_of_opening (roleOf_eq_opening_iff.mp hopening)]
    rfl
  · by_cases hclosing : roleOf d t = .closing
    · rw [hclosing, Token.nest_of_closing (roleOf_eq_closing_iff.mp hclosing), List.length_tail]
      rfl
    · have hparen : ¬ t.IsParen := fun h =>
        h.elim (hopening ∘ roleOf_eq_opening_iff.mpr) (hclosing ∘ roleOf_eq_closing_iff.mpr)
      rw [Token.nest_of_not_isParen hparen, Role.opens_eq_self hopening hclosing]

/-- The name of a step is no parenthesis. -/
theorem opens_of_isStepName {t : Token} (h : isStepName t = true) (opened : Nat) : (roleOf d t).opens opened = opened := by
  have hkind : t.kind = .word := by
    by_contra hkind
    rw [isStepName_eq_false_of_head (.inl hkind)] at h
    cases h
  have hparen := Token.not_isParen_of_word hkind
  exact Role.opens_eq_self (fun hrole => hparen (.inl (roleOf_eq_opening_iff.mp hrole)))
    (fun hrole => hparen (.inr (roleOf_eq_closing_iff.mp hrole))) opened

theorem Stage.opened_of_stepTest {limit opened : Nat} {r : Role} {spot : Spot} {s : Stage}
    (h : stepTest limit opened r spot = some s) : s.opened = r.opens opened := by
  have hgroup : ∀ {s}, (if opened < limit then some (test (opened + 1) .link) else none) = some s →
      s.opened = opened + 1 := by
    intro s h
    split at h
    · cases h
      rfl
    · cases h
  have hclose : ∀ {s}, (if opened = 0 then none else some (test (opened - 1) .atom)) = some s →
      s.opened = opened - 1 := by
    intro s h
    split at h
    · cases h
    · cases h
      rfl
  have hactions : ∀ {s}, (if opened = 0 then some actions else none) = some s → s.opened = opened := by
    intro s h
    split at h
    · rename_i hopened
      cases h
      exact hopened.symm
    · cases h
  revert h
  cases spot <;> cases r <;> first
    | exact hgroup
    | exact hclose
    | exact hactions
    | (intro h; cases h; rfl)
    | (intro h; cases h)

/-- A stage counts the open parentheses. -/
theorem Stage.opened_of_step {s s' : Stage} {t : Token} (h : s.step d t = some s') :
    s'.opened = (roleOf d t).opens s.opened := by
  cases s with
  | start =>
    rw [step] at h
    split at h
    · rename_i hrole
      cases h
      rw [hrole]
      rfl
    · cases h
  | test opened spot => exact opened_of_stepTest h
  | actions =>
    rw [step] at h
    split at h
    · rename_i hname
      cases h
      exact (opens_of_isStepName hname 0).symm
    · cases h
  | steps =>
    rw [step] at h
    split at h
    · rename_i hstep
      cases h
      rcases hstep with hrole | hname
      · rw [hrole]
        rfl
      · exact (opens_of_isStepName hname 0).symm
    · cases h

theorem Stage.length_foldl_nest_of_run {s s' : Stage} {ts : List Token} (h : run d s ts = some s') {stack : List Span}
    (hstack : stack.length = s.opened) : (ts.foldl (fun stack t => t.nest stack) stack).length = s'.opened := by
  induction ts generalizing s stack with
  | nil =>
    cases h
    exact hstack
  | cons t ts ih =>
    obtain ⟨s₁, hstep, hrun⟩ := Option.bind_eq_some_iff.mp h
    refine ih hrun ?_
    rw [length_nest d, hstack, opened_of_step hstep]

/-- As many parentheses are open after some tokens as their stage says. -/
theorem Stage.length_openParens_of_run {s : Stage} {ts : List Token} (h : run d .start ts = some s) :
    (openParens ts).length = s.opened :=
  length_foldl_nest_of_run h rfl

/-! ## What the productions ask for -/

/-- A miss that asks for no more than the stage of its place offers. -/
def Offered (d : Dialect) (m : Miss) : Prop :=
  ∃ s, Reaches d m.cursor s ∧ ∀ label ∈ m.expected, ∃ w ∈ s.offers, w.label = label

/-- An attempt that asks for what is offered, and comes to a cursor that satisfies `R` if it finds something. -/
def Asks (d : Dialect) (R : Cursor → Prop) (o : Outcome (α × Cursor)) : Prop :=
  o.Meets (Offered d) (fun x => R x.2) fun _ => True

theorem Reaches.offered {c : Cursor} {s : Stage} (h : Reaches d c s) (ws : List Wanted) (hws : ∀ w ∈ ws, w ∈ s.offers)
    (context : Option Span) : Offered d ⟨c, ws.map Wanted.label, context⟩ := by
  refine ⟨s, h, fun label hlabel => ?_⟩
  obtain ⟨w, hw, rfl⟩ := List.mem_map.mp hlabel
  exact ⟨w, hws w hw, rfl⟩

theorem InTest.offered {opened : Nat} {spots : List Spot} {c : Cursor} (h : InTest d opened spots c) (ws : List Wanted)
    (hws : ∀ spot ∈ spots, ∀ w ∈ ws, w ∈ spot.offers) (context : Option Span) :
    Offered d ⟨c, ws.map Wanted.label, context⟩ := by
  obtain ⟨spot, hmem, hreach⟩ := h
  exact hreach.offered ws (fun w hw => List.mem_append_left _ (hws spot hmem w hw)) context

/-- An operand is asked for where operands are offered. -/
theorem operand_asks {R : Cursor → Prop} {s : Stage} {c : Cursor} (context : Option Span) (h : Reaches d c s)
    (hs : ∀ w ∈ Wanted.operands, w ∈ s.offers) (hnext : ∀ t, c.peek? = some t → roleOf d t = .operand → R c.next) :
    Asks d R (operand d opcode context c) := by
  rcases operand_cases opcode context c with ⟨t, e, ht, hrole, hop⟩ | ⟨t, f, -, -, -, -, hop⟩ | ⟨-, hop⟩
  · rw [hop]
    exact .found (hnext t ht hrole)
  · rw [hop]
    trivial
  · rw [hop]
    exact Outcome.misses_singleton (h.offered Wanted.operands hs context)

/-- The spots where an atom may start. -/
def atomSpots : List Spot := [.link, .negated, .operand, .atom]

/-- The spots where a test has come to an operand or an atom. -/
def endSpots : List Spot := [.operand, .atom]

section Test

variable {opened : Nat} {spots : List Spot} {c : Cursor} {groupAt : Cursor → Outcome Parsed}

theorem InTest.mono {spots' : List Spot} (h : InTest d opened spots c) (hspots : ∀ spot ∈ spots, spot ∈ spots') :
    InTest d opened spots' c := by
  obtain ⟨spot, hmem, hreach⟩ := h
  exact ⟨spot, hspots spot hmem, hreach⟩

theorem mem_offers_of_mem_operands (opened : Nat) (spot : Spot) :
    ∀ w ∈ Wanted.operands, w ∈ (Stage.test opened spot).offers := by
  intro w hw
  refine List.mem_append_left _ ?_
  revert w
  cases spot <;> decide

theorem comparison_asks (context : Option Span) (h : InTest d opened atomSpots c) :
    Asks d (InTest d opened endSpots) (comparison d opcode context c) := by
  obtain ⟨spot, -, hreach⟩ := id h
  have hleft : Asks d (Reaches d · (.test opened .operand)) (operand d opcode context c) :=
    operand_asks context hreach (mem_offers_of_mem_operands opened spot) fun t ht hrole =>
      h.next_operand (by decide) ht hrole
  refine hleft.bind fun x hx => ?_
  dsimp only
  split
  · have hmiddle : InTest d opened [.operand] x.2 := hx.inTest (by decide)
    exact Outcome.misses_singleton (hmiddle.offered [.sign] (by decide) context)
  · rename_i op hop
    obtain ⟨t, ht, hrole⟩ := roleOf_of_comparisonAt? (d := d) hop
    have hcompared := hx.next_sign ht hrole
    have hright : Asks d (InTest d opened endSpots) (operand d opcode context x.2.next) :=
      operand_asks context hcompared (mem_offers_of_mem_operands opened .compared) fun t' ht' hrole' =>
        (hcompared.next_compared ht' hrole').inTest (by decide)
    exact hright.commit.map fun _ hy => hy

theorem bareWord_asks (hd : d.HasStandardKeywords) (context : Option Span) (h : InTest d opened atomSpots c)
    (hnone : AtNoOperand d c) :
    Asks d (InTest d opened endSpots) (bareWord d opcode context c) := by
  rcases bareWord_cases opcode hd context hnone with ⟨t, e, ht, hrole, hword⟩ | ⟨t, f, -, -, -, hword⟩ | ⟨-, hword⟩
  · rw [hword]
    exact .found ((h.next_word (by decide) ht hrole).inTest (by decide))
  · rw [hword]
    trivial
  · rw [hword]
    exact Outcome.misses_singleton (h.offered [.word] (by decide) context)

/-- An operand by itself. -/
theorem loneOperand_asks (context : Option Span) (h : InTest d opened atomSpots c) :
    Asks d (InTest d opened endSpots) (operand d opcode context c) := by
  obtain ⟨spot, -, hreach⟩ := id h
  exact operand_asks context hreach (mem_offers_of_mem_operands opened spot) fun t ht hrole =>
    (h.next_operand (by decide) ht hrole).inTest (by decide)

theorem literalAt_asks (hd : d.HasStandardKeywords) (context : Option Span) (h : InTest d opened atomSpots c) :
    Asks d (InTest d opened endSpots) (literalAt d opcode context c) := by
  have hoperand : Asks d (InTest d opened endSpots) (operand d opcode context c) := loneOperand_asks context h
  unfold literalAt
  rcases operand_cases opcode context c with ⟨t, e, -, -, hop⟩ | ⟨t, f, -, -, -, -, hop⟩ | ⟨hnone, hop⟩
  · rw [hop] at hoperand ⊢
    exact hoperand
  · rw [hop]
    trivial
  · exact hoperand.orElse (bareWord_asks hd context h hnone)

/-- What is asked of the production for what starts with a parenthesis. -/
def GroupAsks (d : Dialect) (opened : Nat) (groupAt : Cursor → Outcome Parsed) : Prop :=
  ∀ c : Cursor, InTest d opened atomSpots c → c.isPunctuation "(" = true → Asks d (InTest d opened endSpots) (groupAt c)

theorem atom_asks (hd : d.HasStandardKeywords) (context : Option Span) (hgroup : GroupAsks d opened groupAt)
    (h : InTest d opened atomSpots c) : Asks d (InTest d opened endSpots) (atom d opcode groupAt context c) := by
  unfold atom
  split
  · rename_i hopening
    exact hgroup c h hopening
  · refine (comparison_asks context h).orElse ?_
    split
    · exact loneOperand_asks context h
    · exact (literalAt_asks hd context h).orMiss (h.offered [.opening] (by decide) context)

theorem negation_asks (hd : d.HasStandardKeywords) (context : Option Span) (hgroup : GroupAsks d opened groupAt)
    (h : InTest d opened [.link, .operand, .atom] c) :
    Asks d (InTest d opened endSpots) (negation d opcode groupAt context c) := by
  unfold negation
  split
  · rename_i hnot
    obtain ⟨t, ht, hkey⟩ := Cursor.isWord_iff.mp hnot
    have hnegated := h.next_not ht ((roleOf_eq_iff_isKeyword (by decide)).mpr hkey)
    exact (atom_asks hd context hgroup (hnegated.inTest (by decide))).commit.map fun _ hx => hx
  · refine (atom_asks hd context hgroup (h.mono (by decide))).orMiss ?_
    exact h.offered [.neg] (by decide) context

theorem sequenceAt_asks (hd : d.HasStandardKeywords) (context : Option Span) (hgroup : GroupAsks d opened groupAt)
    (h : InTest d opened [.link] c) :
    Asks d (InTest d opened endSpots) (sequenceAt d opcode groupAt context c) := by
  refine (negation_asks hd context hgroup (h.mono (by decide))).bind fun x hx => ?_
  have hmore : Reads (InTest d opened endSpots) (Offered d) (fun _ => True)
      (negation d opcode groupAt context) := fun c hc => negation_asks hd context hgroup (hc.mono (by decide))
  exact (Invariant.many_reads hmore _ x.2 hx).map fun _ hy => hy

/-- What is asked of the links of a chain. -/
def LinkAsks (d : Dialect) (opened : Nat) (link : Cursor → Outcome Parsed) : Prop :=
  ∀ c : Cursor, InTest d opened [.link] c → Asks d (InTest d opened endSpots) (link c)

/-- A connective is asked for after an operand or an atom. -/
theorem links_asks {op : Connective} (hop : op = .conj ∨ op = .disj) (context : Option Span)
    {link : Cursor → Outcome Parsed} (hlink : LinkAsks d opened link) (limit : Nat)
    (h : InTest d opened endSpots c) : Asks d (InTest d opened endSpots) (links op context link limit c) := by
  have hend : ∀ {c : Cursor}, InTest d opened endSpots c → Asks d (InTest d opened endSpots)
      (Outcome.found (([] : List (Expression Span)), c) [⟨c, ["'" ++ op.label ++ "'"], context⟩]) := by
    intro c hc
    refine ⟨hc, fun m hm => ?_⟩
    rw [List.mem_singleton.mp hm]
    rcases hop with rfl | rfl
    · exact hc.offered [.conj] (by decide) context
    · exact hc.offered [.disj] (by decide) context
  induction limit generalizing c with
  | zero => exact hend h
  | succ limit ih =>
    unfold links
    split
    · rename_i hword
      obtain ⟨t, ht, hkey⟩ := Cursor.isWord_iff.mp hword
      have hrole : roleOf d t = .conj ∨ roleOf d t = .disj := by
        rcases hop with rfl | rfl
        · exact .inl ((roleOf_eq_iff_isKeyword (by decide)).mpr hkey)
        · exact .inr ((roleOf_eq_iff_isKeyword (by decide)).mpr hkey)
      have hnext : InTest d opened [.link] c.next := (h.next_link ht hrole).inTest (by decide)
      exact (hlink c.next hnext).commit.bind fun x hx => (ih hx).map fun _ hy => hy
    · exact hend h

theorem chain_asks {op : Connective} (hop : op = .conj ∨ op = .disj) (context : Option Span)
    {link : Cursor → Outcome Parsed} (hlink : LinkAsks d opened link) : LinkAsks d opened (chain op context link) :=
  fun c hc => (hlink c hc).bind fun _ hx => (links_asks hop context hlink _ hx).map fun _ hy => hy

theorem disjunction_asks (hd : d.HasStandardKeywords) (context : Option Span) (hgroup : GroupAsks d opened groupAt) :
    LinkAsks d opened (disjunction d opcode groupAt context) :=
  chain_asks (.inr rfl) context (chain_asks (.inl rfl) context fun _ hc => sequenceAt_asks hd context hgroup hc)

/-- A closing parenthesis leads out of a group. -/
theorem InTest.next_closing {t : Token} (h : InTest d (opened + 1) endSpots c) (ht : c.peek? = some t)
    (hrole : roleOf d t = .closing) : Reaches d c.next (.test opened .atom) := by
  refine h.next ht hrole fun spot hmem => ?_
  rcases List.mem_pair.mp hmem with rfl | rfl <;> rfl

/-- In a group the connectives and its end go on from an operand or an atom. -/
theorem InTest.offered_closing (h : InTest d (opened + 1) endSpots c) (context : Option Span) :
    Offered d ⟨c, ["')'", "'and'", "'or'"], context⟩ := by
  obtain ⟨spot, hmem, hreach⟩ := h
  have hall : ∀ w ∈ [Wanted.closing, .conj, .disj], ∀ spot ∈ endSpots, w ∈ spot.offers ++ [.closing] := by decide
  have hendings : spot.endings (opened + 1) = [.closing] := by
    rcases List.mem_pair.mp hmem with rfl | rfl <;> rfl
  refine hreach.offered [.closing, .conj, .disj] (fun w hw => ?_) context
  rw [Stage.offers, hendings]
  exact hall w hw spot hmem

theorem group_asks (hopened : opened < d.maxDepth) {inner : Option Span → Cursor → Outcome Parsed}
    (hinner : ∀ context, LinkAsks d (opened + 1) (inner context)) : GroupAsks d opened (group inner) := by
  intro c h hopening
  obtain ⟨t, ht, hmark⟩ := Cursor.isPunctuation_iff.mp hopening
  have hinside := h.next_opening (by decide) ht (roleOf_eq_opening_iff.mpr hmark) hopened
  refine (hinner _ c.next (hinside.inTest (by decide))).commit.bind fun x hx => ?_
  dsimp only
  split
  · rename_i hclosing
    obtain ⟨t', ht', hmark'⟩ := Cursor.isPunctuation_iff.mp hclosing
    exact .found ((hx.next_closing ht' (roleOf_eq_closing_iff.mpr hmark')).inTest (by decide))
  · exact Outcome.misses_singleton (hx.offered_closing _)

theorem test_asks (hd : d.HasStandardKeywords) (depth : Nat) {opened : Nat} (hdepth : opened + depth = d.maxDepth)
    (context : Option Span) : LinkAsks d opened (test d opcode depth context) := by
  induction depth generalizing opened context with
  | zero => exact disjunction_asks hd context fun c _ _ => trivial
  | succ depth ih => exact disjunction_asks hd context (group_asks (by omega) fun context => ih (by omega) context)

end Test

/-! ## The actions and the whole -/

/-- The keyword of the actions leads out of the test. -/
theorem InTest.next_actions {c : Cursor} {t : Token} (h : InTest d 0 endSpots c) (ht : c.peek? = some t)
    (hrole : roleOf d t = .actions) : Reaches d c.next .actions := by
  refine h.next ht hrole fun spot hmem => ?_
  rcases List.mem_pair.mp hmem with rfl | rfl <;> rfl

/-- A keyword is asked for where it is offered. -/
theorem keyword_asks {word : Text} {w : Wanted} (hlabel : w.label = "'" ++ word ++ "'") (hword : (word, w.role) ∈ keywords)
    {s : Stage} {c : Cursor} (h : Reaches d c s) (hw : w ∈ s.offers) {R : Cursor → Prop}
    (hnext : ∀ t, c.peek? = some t → roleOf d t = w.role → R c.next) :
    (keyword none word c).Meets (Offered d) R fun _ => True := by
  unfold keyword
  split
  · rename_i hkey
    obtain ⟨t, ht, hkeyword⟩ := Cursor.isWord_iff.mp hkey
    exact .found (hnext t ht ((roleOf_eq_iff_isKeyword hword).mpr hkeyword))
  · rw [← hlabel]
    exact Outcome.misses_singleton (h.offered [w] (fun w' hw' => List.mem_singleton.mp hw' ▸ hw) none)

/-- The stages at which a step may start. -/
def InSteps (d : Dialect) (c : Cursor) : Prop := Reaches d c .actions ∨ Reaches d c .steps

theorem InSteps.offered {c : Cursor} (h : InSteps d c) : Offered d ⟨c, ["action name"], none⟩ := by
  rcases h with h | h
  · exact h.offered [.stepName] (by decide) none
  · exact h.offered [.stepName] (by decide) none

theorem InSteps.next {c : Cursor} {t : Token} (h : InSteps d c) (ht : c.peek? = some t) (hname : isStepName t = true) :
    Reaches d c.next .steps := by
  rcases h with h | h
  · exact h.next ht (if_pos hname)
  · exact h.next ht (if_pos (.inr hname))

theorem stepAt_asks {c : Cursor} (h : InSteps d c) : Asks d (Reaches d · .steps) (stepAt d opcode none c) := by
  unfold stepAt
  split
  · exact Outcome.misses_singleton h.offered
  · rename_i t ht
    split
    · exact Outcome.misses_singleton h.offered
    · split
      · trivial
      · rename_i name hname
        have hstep : isStepName t = true := by
          unfold isStepName
          rw [hname]
          rfl
        have hoperand : Reads (Reaches d · .steps) (Offered d) (fun _ => True) (operand d opcode none) := fun c hc =>
          operand_asks (R := (Reaches d · .steps)) none hc (fun w hw => List.mem_cons_of_mem _ hw) fun t ht hrole =>
            hc.next ht (if_pos (.inl hrole))
        exact (Invariant.many_reads hoperand _ c.next (h.next ht hstep)).map fun _ hx => hx

theorem steps_asks {c : Cursor} (h : Reaches d c .actions) :
    (steps d opcode none c).Meets (Offered d) (fun _ => True) fun _ => True := by
  unfold steps
  refine (stepAt_asks (.inl h)).commit.bind fun x hx => ?_
  have hmore : Reads (Reaches d · .steps) (Offered d) (fun _ => True) (stepAt d opcode none) := fun _ hc => stepAt_asks (.inr hc)
  refine (Invariant.many_reads hmore _ x.2 hx).bind fun y hy => ?_
  dsimp only
  split
  · exact .found trivial
  · exact Outcome.misses_singleton (hy.offered (.stepName :: Wanted.operands) (fun _ hw => hw) none)

theorem bodyAt_asks (opcode : Text) (hd : d.HasStandardKeywords) {c : Cursor} (h : Reaches d c .start) :
    (bodyAt d opcode c).Meets (Offered d) (fun _ => True) fun _ => True := by
  unfold bodyAt bodyWith
  rw [hd.lower_testKeyword, hd.lower_actionKeyword]
  have hfirst : (keyword none "test" c).Meets (Offered d) (Reaches d · (.test 0 .link)) fun _ => True :=
    keyword_asks (w := .test) rfl (by decide) h (by decide) fun t ht hrole => h.next ht (if_pos hrole)
  refine hfirst.bind fun c₁ hlink => ?_
  refine (test_asks hd d.maxDepth (Nat.zero_add _) none c₁ (hlink.inTest (by decide))).commit.bind fun x hx => ?_
  obtain ⟨spot, hspot, hreach⟩ := id hx
  have hoffered : Wanted.actions ∈ (Stage.test 0 spot).offers := by
    rcases List.mem_pair.mp hspot with rfl | rfl <;> decide
  have hsecond : (keyword none "actions" x.2).Meets (Offered d) (Reaches d · .actions) fun _ => True :=
    keyword_asks (w := .actions) rfl (by decide) hreach hoffered fun t ht hrole => hx.next_actions ht hrole
  refine hsecond.bind fun c₂ hsteps => ?_
  exact (steps_asks hsteps).map fun _ _ => trivial

/-! ## The error -/

/-- The index of the token that no production could go past, or the number of tokens if the line ends too early, and the
error there.  A token that cannot be read as what it starts as is another matter. -/
def stall? (d : Dialect) (opcode : Text) (cur : Cursor) : Option (Nat × ParseError) :=
  match bodyAt d opcode cur with
  | .missed misses | .stuck misses =>
    some (((Furthest.ofMisses misses).cursor.getD cur).pos, unexpected opcode cur misses)
  | .found _ _ | .refused _ => none

theorem parse_of_stall? {c : Cursor} {p : Nat} {e : ParseError} (h : stall? d opcode c = some (p, e)) :
    parse d opcode c = .error (.parse e) := by
  unfold stall? at h
  unfold parse conclude
  split at h
  · rename_i misses hbody
    cases h
    rw [hbody]
  · rename_i misses hbody
    cases h
    rw [hbody]
  · cases h
  · cases h

/-- Tokens before a cursor, as a part of the line. -/
theorem Reaches.run_take {c : Cursor} {s : Stage} (h : Reaches d c s) :
    Stage.run d .start (c.tokens.take c.pos) = some s := by
  obtain ⟨ts, hpass, hrun⟩ := h
  rwa [hpass.eq_take] at hrun

/-- The error is at the token of the index, and what it asks for, the stage offers that the tokens before lead to. -/
theorem exists_run_of_stall? (hd : d.HasStandardKeywords) {ts : List Token} {eol : Span} {p : Nat} {e : ParseError}
    (h : stall? d opcode ⟨ts, 0, eol⟩ = some (p, e)) :
    e.span = Cursor.span ⟨ts, p, eol⟩ ∧
      ∃ s, Stage.run d .start (ts.take p) = some s ∧ ∀ label ∈ e.expected, ∃ w ∈ s.offers, w.label = label := by
  have htracks := bodyAt_tracks opcode hd (reaches_start (d := d) ts eol)
  have hasks := bodyAt_asks opcode hd (reaches_start (d := d) ts eol)
  unfold stall? at h
  split at h
  · rename_i misses hbody
    rw [hbody] at htracks
    exact htracks.1.elim
  · rename_i misses hbody
    rw [hbody] at htracks hasks
    obtain ⟨c, ⟨w, hw⟩, ⟨s, hreach, -⟩, hwithin, hmem⟩ := htracks
    have hcursor := Furthest.cursor_ofMisses hwithin hmem
    have htokens : c.tokens = ts := hw.tokens_eq
    rw [unexpected_eq hcursor, hcursor] at h
    cases h
    have hspan : c.span = Cursor.span ⟨ts, c.pos, eol⟩ := by
      unfold Cursor.span Cursor.peek?
      rw [htokens, hw.eol_eq]
    have hrun : Stage.run d .start (ts.take c.pos) = some s := htokens ▸ hreach.run_take
    refine ⟨hspan, s, hrun, fun label hlabel => ?_⟩
    obtain ⟨m, hm, hpos, hlabel⟩ := (Furthest.sums_ofMisses misses).expected_mem label (Text.mem_sortedSet.mp hlabel)
    obtain ⟨s', hreach', hoffers⟩ := hasks.2 m hm
    -- The miss is at the furthest place, so it is at the stage of this place.
    have heq : m.cursor = c := by
      rw [Furthest.pos_of_cursor_eq hcursor] at hpos
      exact ((hwithin m hm).eq_of_pos_le (by omega)).symm
    obtain rfl : s' = s := Option.some.inj ((heq ▸ hreach'.run_take).symm.trans hreach.run_take)
    exact hoffers label hlabel
  · cases h
  · cases h

/-- What errors ask for where a test starts. -/
def startLabels : List Text := ["'('", "'@'dots", "'not'", "class reference", "number", "quoted-string", "word"]

/-- The labels of an error name what leads on: where one more parenthesis may be opened, some token of each sort that it
asks for can stand in its place and begin an expression with the tokens before. -/
theorem exists_accepted_of_mem_expected (hd : d.HasStandardKeywords) {ts : List Token} {eol : Span} {p : Nat}
    {e : ParseError} (h : stall? d opcode ⟨ts, 0, eol⟩ = some (p, e))
    (hdepth : (openParens (ts.take p)).length < d.maxDepth) :
    parse d opcode ⟨ts, 0, eol⟩ = .error (.parse e) ∧ e.span = Cursor.span ⟨ts, p, eol⟩ ∧
      ∀ label ∈ e.expected, (label = "'@'dots" → d.dotAlphabet ≠ []) →
        ∃ w : Wanted, w.label = label ∧ ∃ t : Token, w.Fits d t ∧ (t.kind = .quoted ∨ t.kind = .ofText t.text) ∧
          ∃ us e', parse d opcode ⟨ts.take p ++ t :: us, 0, eol⟩ = .ok e' := by
  obtain ⟨hspan, s, hrun, hoffers⟩ := exists_run_of_stall? hd h
  refine ⟨parse_of_stall? h, hspan, fun label hlabel hdots => ?_⟩
  obtain ⟨w, hw, heq⟩ := hoffers label hlabel
  have hopened : s.opened < d.maxDepth := (Stage.length_openParens_of_run hrun) ▸ hdepth
  have hdigit : w = .dots → d.dotAlphabet ≠ [] := by
    rintro rfl
    exact hdots heq.symm
  obtain ⟨s', hstep⟩ := Stage.exists_step_of_mem_offers hw hdigit fun _ => hopened
  obtain ⟨us, hus⟩ := Stage.run_closing d s'
  refine ⟨w, heq, w.sample d, Wanted.fits_sample hd, Wanted.kind_sample d w, us, ?_⟩
  refine (exists_parse_iff_run hd).mpr ?_
  rw [Stage.run_append, hrun, Option.bind_some, Stage.run, hstep]
  exact hus

theorem exists_accepted_unclosedLine : ∃ e,
    stall? .standard "context" ⟨unclosedTokens, 0, unclosedLine.endSpan⟩ = some (9, e) ∧
    (openParens (unclosedTokens.take 9)).length < Dialect.standard.maxDepth ∧
    e.expected = startLabels ∧
    parse .standard "context" ⟨unclosedTokens, 0, unclosedLine.endSpan⟩ = .error (.parse e) ∧
    e.span = Cursor.span ⟨unclosedTokens, 9, unclosedLine.endSpan⟩ ∧
    ∀ label ∈ e.expected, (label = "'@'dots" → Dialect.standard.dotAlphabet ≠ []) →
      ∃ w : Wanted, w.label = label ∧ ∃ t : Token, w.Fits .standard t ∧ (t.kind = .quoted ∨ t.kind = .ofText t.text) ∧
        ∃ us e', parse .standard "context" ⟨unclosedTokens.take 9 ++ t :: us, 0, unclosedLine.endSpan⟩ = .ok e' := by
  have hstall : (stall? .standard "context" ⟨unclosedTokens, 0, unclosedLine.endSpan⟩).map
      (fun x => (x.1, x.2.expected)) = some (9, startLabels) := by decide +kernel
  have hdepth : (openParens (unclosedTokens.take 9)).length < Dialect.standard.maxDepth := by decide +kernel
  obtain ⟨⟨p, e⟩, he, hshown⟩ := Option.map_eq_some_iff.mp hstall
  obtain ⟨rfl, hexpected⟩ := Prod.mk.inj hshown
  exact ⟨e, he, hdepth, hexpected, exists_accepted_of_mem_expected ⟨rfl, rfl⟩ he hdepth⟩

/-! ## Dots without an alphabet -/

/-- Without digits no token is dots. -/
theorem roleOf_of_fits_dots (halphabet : d.dotAlphabet = []) {t : Token} (h : Wanted.Fits d t .dots) :
    roleOf d t = .broken := by
  obtain ⟨hnumber, hquoted, hhead⟩ := h
  cases hop : operandOf? d t with
  | none => exact absurd hhead (operandOf?_eq_none_iff.mp hop).2.2.2
  | some x =>
    cases x with
    | error f => exact roleOf_of_error hop
    | ok e =>
      cases operandOf?_eq_some_ok_iff.mp hop with
      | classRef hkind hname =>
        rw [head?_of_classNameOf hname] at hhead
        exact absurd hhead (by decide)
      | number hkind => exact absurd hkind hnumber
      | quoted hkind => exact absurd hkind hquoted
      | dots _ _ _ hread =>
        obtain ⟨cells, -, hpattern⟩ := Value.isPatternOf_of_readDots d.dotAlphabet_digits hread
        exact absurd halphabet hpattern.alphabet_ne_nil

/-- The standard dialect without names for dots. -/
def undotted : Dialect where
  __ := Dialect.standard
  dotAlphabet := []
  dotAlphabet_digits := by simp

example : Dialect.configure [("dot_alphabet", .text "")] [] = .ok undotted := rfl

def bareTestTokens : List Token := (tokensOf .basic (.single "test" ⟨1, 1, 0⟩)).toOption.getD []

/-- Errors ask for dots also where the alphabet has none. -/
theorem not_forall_exists_accepted : ¬ ∀ (d : Dialect) (opcode : Text) (ts : List Token) (eol : Span) (p : Nat)
    (e : ParseError), d.HasStandardKeywords → stall? d opcode ⟨ts, 0, eol⟩ = some (p, e) →
    (openParens (ts.take p)).length < d.maxDepth →
    ∀ label ∈ e.expected, ∃ w : Wanted, w.label = label ∧ ∃ t : Token, w.Fits d t ∧
      ∃ us e', parse d opcode ⟨ts.take p ++ t :: us, 0, eol⟩ = .ok e' := by
  intro hall
  have hstall : (stall? undotted "context" ⟨bareTestTokens, 0, .point ⟨1, 1, 4⟩⟩).map (fun x => (x.1, x.2.expected)) =
      some (1, startLabels) := by decide +kernel
  obtain ⟨⟨p, e⟩, he, hshown⟩ := Option.map_eq_some_iff.mp hstall
  obtain ⟨rfl, hexpected⟩ := Prod.mk.inj hshown
  have hlabel : Wanted.dots.label ∈ e.expected := by
    rw [hexpected]
    decide +kernel
  obtain ⟨w, hw, t, hfits, us, haccepted⟩ := hall undotted _ _ _ 1 e ⟨rfl, rfl⟩ he (by decide +kernel) _ hlabel
  have hdots : w = .dots := Wanted.label_injective hw
  subst hdots
  refine not_accepted_of_run (n := 2) ⟨rfl, rfl⟩ _ ?_ haccepted
  have htest : Stage.run undotted .start (bareTestTokens.take 1) = some (.test 0 .link) := by decide +kernel
  have htake : (bareTestTokens.take 1 ++ t :: us).take 2 = bareTestTokens.take 1 ++ [t] := rfl
  rw [htake, Stage.run_append, htest, Option.bind_some, Stage.run_singleton]
  show Stage.stepTest undotted.maxDepth 0 (roleOf undotted t) .link = none
  rw [roleOf_of_fits_dots rfl hfits]
  rfl

end Expression
end BrailleTable
