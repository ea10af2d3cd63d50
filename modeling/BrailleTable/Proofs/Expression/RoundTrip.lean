/-
Expressions are read back.

A tree that can be written where an `X` stands is written as tokens from which the grammar derives an `X` again, and its
tree is the same but for places.  The proof follows `Writable`: each constructor is one production, and between the
production and `X` nothing happens to the tree, because it binds more tightly than what it stands in.
-/
import BrailleTable.Proofs.Expression.Depth
import BrailleTable.Proofs.Expression.Places
import BrailleTable.Proofs.Expression.Writable

namespace BrailleTable
namespace Expression

open Lexer (Spells Closed)

/-! ## Trees without places -/

variable {X : Symbol} {n : Nat} {e e' : Expression Span} {es es' : List (Expression Span)}

theorem precedence_of_bare_eq (h : e'.bare = e.bare) : e'.precedence = e.precedence := by
  rw [← precedence_map (fun _ => ()) e', ← precedence_map (fun _ => ()) e]
  exact congrArg precedence h

theorem length_of_map_bare_eq (h : es'.map bare = es.map bare) : es'.length = es.length := by
  have hlength := congrArg List.length h
  rwa [List.length_map, List.length_map] at hlength

theorem bare_ofItems (h : es'.map bare = es.map bare) (hlength : 2 ≤ es.length) (s : Span) :
    (ofItems es').bare = (Expression.sequence es s).bare := by
  obtain ⟨s', heq⟩ := exists_ofItems_eq (hlength.trans_eq (length_of_map_bare_eq h).symm)
  rw [heq, bare_sequence, bare_sequence, h]

theorem bare_ofOperands (op : Connective) (h : es'.map bare = es.map bare) (hlength : 2 ≤ es.length)
    (s : Span) : (ofOperands op es').bare = (Expression.combine op es s).bare := by
  obtain ⟨s', heq⟩ := exists_ofOperands_eq op (hlength.trans_eq (length_of_map_bare_eq h).symm)
  rw [heq, bare_combine, bare_combine, h]

/-! ## Derivations of one tree -/

/-- The grammar of the standard dialect. -/
abbrev Parses : Symbol → Nat → List Token → List (Expression Span) → Prop :=
  Derives (IsBareWord .standard) .standard

/-- The tokens form an `X`, and it stands for this tree. -/
def Forms : Symbol → Nat → List Token → Expression Span → Prop
  | .atom, n, ts, e => Parses .atom n ts [e]
  | .negation, n, ts, e => Parses .negation n ts [e]
  | .sequence, n, ts, e => ∃ es, Parses .sequence n ts es ∧ ofItems es = e
  | .conjunction, n, ts, e => ∃ es, Parses .conjunction n ts es ∧ ofOperands .conj es = e
  | .disjunction, n, ts, e => ∃ es, Parses .disjunction n ts es ∧ ofOperands .disj es = e

variable {ts : List Token}

theorem parses_sequence (h : Parses .negation n ts [e]) (hprec : e.precedence ≠ 3) : Parses .sequence n ts [e] := by
  have hsingle : Parses .sequence n ts (sequenceItems e) := .single h
  rwa [sequenceItems_eq_singleton hprec] at hsingle

theorem parses_conjunction (h : Forms .sequence n ts e) (hprec : e.precedence ≠ 2) :
    Parses .conjunction n ts [e] := by
  obtain ⟨es, hes, rfl⟩ := h
  have hsingle : Parses .conjunction n ts (chainOperands .conj (ofItems es)) := .sequence hes
  rwa [chainOperands_conj_eq_singleton hprec] at hsingle

theorem parses_disjunction (h : Forms .conjunction n ts e) (hprec : e.precedence ≠ 1) :
    Parses .disjunction n ts [e] := by
  obtain ⟨es, hes, rfl⟩ := h
  have hsingle : Parses .disjunction n ts (chainOperands .disj (ofOperands .conj es)) := .conjunction hes
  rwa [chainOperands_disj_eq_singleton hprec] at hsingle

theorem forms_sequence (h : Parses .negation n ts [e]) (hprec : e.precedence ≠ 3) :
    Forms .sequence n ts e :=
  ⟨[e], parses_sequence h hprec, rfl⟩

theorem forms_conjunction (h : Forms .sequence n ts e) (hprec : e.precedence ≠ 2) :
    Forms .conjunction n ts e :=
  ⟨[e], parses_conjunction h hprec, rfl⟩

theorem forms_disjunction (h : Forms .conjunction n ts e) (hprec : e.precedence ≠ 1) :
    Forms .disjunction n ts e :=
  ⟨[e], parses_disjunction h hprec, rfl⟩

theorem forms_of_conjunction (h : Forms .conjunction n ts e) (hprec : e.precedence = 2)
    (hrank : X.rank < 2) : Forms X n ts e := by
  cases X with
  | atom => exact absurd hrank (by decide)
  | negation => exact absurd hrank (by decide)
  | sequence => exact absurd hrank (by decide)
  | conjunction => exact h
  | disjunction => exact forms_disjunction h (by omega)

theorem forms_of_sequence (h : Forms .sequence n ts e) (hprec : e.precedence = 3) (hrank : X.rank < 3) :
    Forms X n ts e := by
  cases X with
  | atom => exact absurd hrank (by decide)
  | negation => exact absurd hrank (by decide)
  | sequence => exact h
  | conjunction => exact forms_conjunction h (by omega)
  | disjunction => exact forms_disjunction (forms_conjunction h (by omega)) (by omega)

theorem forms_of_negation (h : Parses .negation n ts [e]) (hprec : e.precedence < X.rank ∨ 3 < e.precedence)
    (hrank : X.rank < 4) : Forms X n ts e := by
  cases X with
  | atom => exact absurd hrank (by decide)
  | negation => exact h
  | sequence =>
    have hlt : e.precedence < 2 ∨ 3 < e.precedence := hprec
    exact forms_sequence h (by omega)
  | conjunction =>
    have hlt : e.precedence < 1 ∨ 3 < e.precedence := hprec
    exact forms_conjunction (forms_sequence h (by omega)) (by omega)
  | disjunction =>
    have hlt : e.precedence < 0 ∨ 3 < e.precedence := hprec
    exact forms_disjunction (forms_conjunction (forms_sequence h (by omega)) (by omega)) (by omega)

theorem forms_of_atom (h : Parses .atom n ts [e]) (hprec : e.precedence < X.rank ∨ 3 < e.precedence) :
    Forms X n ts e := by
  cases X with
  | atom => exact h
  | negation => exact .plain h
  | sequence => exact forms_of_negation (.plain h) hprec (by decide)
  | conjunction => exact forms_of_negation (.plain h) hprec (by decide)
  | disjunction => exact forms_of_negation (.plain h) hprec (by decide)

/-! ## Spelling trees -/

/-- The tokens of a text form an `X`, and it stands for this tree but for places. -/
def SpellsTree (rules : LexRules) (X : Symbol) (n : Nat) (text : Text) (e : Expression Span) : Prop :=
  Spells rules true text fun ts => ∃ e', Forms X n ts e' ∧ e'.bare = e.bare

variable {rules : LexRules} {text : Text}

theorem SpellsAtom.spellsTree (h : SpellsAtom rules n text e)
    (hprec : e.precedence < X.rank ∨ 3 < e.precedence) : SpellsTree rules X n text e := by
  refine Spells.imp h fun ts hts => ?_
  obtain ⟨e', hparses, hbare⟩ := hts
  refine ⟨e', forms_of_atom hparses ?_, hbare⟩
  rw [precedence_of_bare_eq hbare]
  exact hprec

theorem spells_keyword (hrules : rules.commentMark = "#") {w : Text}
    (hw : w ∈ ([Text.ofString "and", "or", "not", "test", "actions"] : List Text)) :
    Spells rules true w fun ts => ∃ t, ts = [t] ∧ t.IsKeyword w := by
  have hfacts : ∀ w ∈ ([Text.ofString "and", "or", "not", "test", "actions"] : List Text),
      w ≠ [] ∧ TokenKind.ofText w = .word ∧ w.all CodePoint.isUncased = true ∧
        ∀ c ∈ w, c ≠ '"' ∧ c ≠ '#' ∧ c.isBlank = false ∧ Token.isOperatorChar c = false := by
    decide +kernel
  obtain ⟨hne, hkind, hlower, hchars⟩ := hfacts w hw
  obtain ⟨c, rest, hhead⟩ := List.exists_cons_of_ne_nil hne
  have hc := hchars c (by rw [hhead]; exact List.mem_cons_self)
  have hspells := spells_plain hrules hhead ⟨hc.1, hc.2.1⟩ (fun b hb => (hchars b hb).2.2.1)
    fun b hb => (hchars b hb).2.2.2
  refine hspells.imp fun ts hts => ?_
  obtain ⟨t, rfl, ht⟩ := hts
  refine ⟨t, rfl, ht.kind_eq.trans hkind, ?_⟩
  rw [ht.text_eq]
  exact Text.lower_eq_self hlower

theorem spells_sign (hrules : rules.commentMark = "#") {op : Comparison} (hop : op ∈ Comparison.all) :
    Spells rules true op.label fun ts =>
      ∃ t, ts = [t] ∧ t.kind = .punctuation ∧ Comparison.ofText? t.text = some op := by
  have hfacts : ∀ op ∈ Comparison.all, op.label ≠ [] ∧ op.label ∈ Token.operators ∧
      Comparison.ofText? op.label = some op ∧ Token.pieces op.label = [op.label] ∧
        ∀ c ∈ op.label, c ≠ '"' ∧ c ≠ '#' ∧ c.isBlank = false ∧ Lexer.isParenthesis c = false := by
    decide
  obtain ⟨hne, hmem, hof, hpieces, hchars⟩ := hfacts op hop
  have hword : Lexer.IsWord rules true op.label := by
    refine ⟨hne, fun c hc => (hchars c hc).2.2.1, fun _ c hc => (hchars c hc).2.2.2, fun c hc => ?_⟩
    have hfact := hchars c (List.mem_of_mem_head? hc)
    refine ⟨hfact.1, ?_⟩
    rw [hrules]
    intro heq
    exact hfact.2.1 (List.cons.inj heq).1
  refine (Lexer.spells_word hword fun _ => .inr ⟨_, hpieces⟩).imp fun ts hts => ?_
  obtain ⟨t, rfl, ht⟩ := hts
  refine ⟨t, rfl, ht.kind_eq.trans (Token.ofText_of_mem_operators _ hmem), ?_⟩
  rw [ht.text_eq]
  exact hof

/-! ## Lists of trees -/

theorem not_mem_join {c : CodePoint} {separator : Text} {texts : List Text} (hseparator : c ∉ separator)
    (h : ∀ text ∈ texts, c ∉ text) : c ∉ Text.join separator texts := by
  induction texts with
  | nil => exact List.not_mem_nil
  | cons a texts ih =>
    by_cases hne : texts = []
    · rw [hne]
      exact h a List.mem_cons_self
    · rw [Text.join_cons hne]
      simp only [List.mem_append, not_or]
      exact ⟨⟨h a List.mem_cons_self, hseparator⟩, ih fun b hb => h b (List.mem_cons_of_mem a hb)⟩

/-- The text of a tree that binds as tightly as the tree read from it does. -/
theorem SpellsTree.of_precedence_ne {k : Nat} (h : SpellsTree rules X n text e) (hprec : e.precedence ≠ k) :
    Spells rules true text fun ts => ∃ e', (Forms X n ts e' ∧ e'.precedence ≠ k) ∧ e'.bare = e.bare := by
  refine Spells.imp h fun ts hts => ?_
  obtain ⟨e', hforms, hbare⟩ := hts
  exact ⟨e', ⟨hforms, fun heq => hprec ((precedence_of_bare_eq hbare).symm.trans heq)⟩, hbare⟩

/-- Tests one after another. -/
theorem spells_items {texts : List Text}
    (h : List.Forall₂ (fun text e => SpellsTree rules .negation n text e ∧ e.precedence ≠ 3) texts es)
    (hne : es ≠ []) :
    Spells rules true (Text.join " " texts) fun ts =>
      ∃ es', Parses .sequence n ts es' ∧ es'.map bare = es.map bare := by
  induction h with
  | nil => exact absurd rfl hne
  | @cons text e texts es hfirst hrest ih =>
    have hitem := hfirst.1.of_precedence_ne hfirst.2
    by_cases hes : es = []
    · subst hes
      cases hrest
      refine hitem.imp fun ts hts => ?_
      obtain ⟨e', ⟨hforms, hprec⟩, hbare⟩ := hts
      exact ⟨[e'], parses_sequence hforms hprec, by rw [List.map_singleton, List.map_singleton, hbare]⟩
    · rw [Text.join_cons (Lexer.ne_nil_of_forall₂ hrest hes)]
      refine (hitem.blank (ih hes)).imp fun ts hts => ?_
      obtain ⟨us, vs, rfl, ⟨e', ⟨hforms, hprec⟩, hbare⟩, es', hes', hbares⟩ := hts
      refine ⟨_, .juxtaposed hforms hes', ?_⟩
      rw [sequenceItems_eq_singleton hprec, List.map_append, List.map_singleton, hbare, hbares]
      rfl

/-- Tests with a connective between them, given what one test and one more test make. -/
theorem spells_chain {P : List Token → Expression Span → Prop}
    {Q : List Token → List (Expression Span) → Prop} {w : Text}
    (hw : Spells rules true w fun ts => ∃ t, ts = [t] ∧ t.IsKeyword w)
    (hone : ∀ {ts e}, P ts e → Q ts [e])
    (hmore : ∀ {ts e a us es}, P ts e → a.IsKeyword w → Q us es → Q (ts ++ a :: us) (e :: es))
    {texts : List Text}
    (h : List.Forall₂ (fun text e => Spells rules true text fun ts => ∃ e', P ts e' ∧ e'.bare = e.bare)
      texts es) (hne : es ≠ []) :
    Spells rules true (Text.join (" " ++ w ++ " ") texts) fun ts =>
      ∃ es', Q ts es' ∧ es'.map bare = es.map bare := by
  induction h with
  | nil => exact absurd rfl hne
  | @cons text e texts es hfirst hrest ih =>
    by_cases hes : es = []
    · subst hes
      cases hrest
      refine Spells.imp hfirst fun ts hts => ?_
      obtain ⟨e', he', hbare⟩ := hts
      exact ⟨[e'], hone he', by rw [List.map_singleton, List.map_singleton, hbare]⟩
    · have htexts := Lexer.ne_nil_of_forall₂ hrest hes
      have htext : Text.join (" " ++ w ++ " ") (text :: texts) =
          text ++ " " ++ (w ++ " " ++ Text.join (" " ++ w ++ " ") texts) := by
        rw [Text.join_cons htexts]
        simp only [List.append_assoc]
      rw [htext]
      refine (Spells.blank hfirst (Spells.blank hw (ih hes))).imp fun ts hts => ?_
      obtain ⟨us, vs, rfl, ⟨e', he', hbare⟩, ks, ws, rfl, ⟨k, rfl, hk⟩, es', hes', hbares⟩ := hts
      exact ⟨e' :: es', hmore he' hk hes', by rw [List.map_cons, List.map_cons, hbare, hbares]⟩

theorem spells_conjuncts (hrules : rules.commentMark = "#") {texts : List Text}
    (h : List.Forall₂ (fun text e => SpellsTree rules .sequence n text e ∧ e.precedence ≠ 2) texts es)
    (hne : es ≠ []) :
    Spells rules true (Text.join " and " texts) fun ts =>
      ∃ es', Parses .conjunction n ts es' ∧ es'.map bare = es.map bare := by
  refine spells_chain (P := fun ts e => Forms .sequence n ts e ∧ e.precedence ≠ 2)
    (spells_keyword hrules (show Text.ofString "and" ∈ _ by decide)) (fun he => parses_conjunction he.1 he.2) ?_
    (h.imp fun _ _ htext => htext.1.of_precedence_ne htext.2) hne
  intro ts e a us fs he ha hfs
  obtain ⟨⟨es, hes, rfl⟩, hprec⟩ := he
  have hmore : Parses .conjunction n (ts ++ a :: us) (chainOperands .conj (ofItems es) ++ fs) := .conj hes ha hfs
  rwa [chainOperands_conj_eq_singleton hprec] at hmore

theorem spells_disjuncts (hrules : rules.commentMark = "#") {texts : List Text}
    (h : List.Forall₂ (fun text e => SpellsTree rules .conjunction n text e ∧ e.precedence ≠ 1) texts es)
    (hne : es ≠ []) :
    Spells rules true (Text.join " or " texts) fun ts =>
      ∃ es', Parses .disjunction n ts es' ∧ es'.map bare = es.map bare := by
  refine spells_chain (P := fun ts e => Forms .conjunction n ts e ∧ e.precedence ≠ 1)
    (spells_keyword hrules (show Text.ofString "or" ∈ _ by decide)) (fun he => parses_disjunction he.1 he.2) ?_
    (h.imp fun _ _ htext => htext.1.of_precedence_ne htext.2) hne
  intro ts e a us fs he ha hfs
  obtain ⟨⟨es, hes, rfl⟩, hprec⟩ := he
  have hmore : Parses .disjunction n (ts ++ a :: us) (chainOperands .disj (ofOperands .conj es) ++ fs) :=
    .disj hes ha hfs
  rwa [chainOperands_disj_eq_singleton hprec] at hmore

/-! ## Writing trees -/

/-- What is known of the text of a tree: it stays on its line, and if the tree was read from a line without line
endings, the text stands for it. -/
structure Written (rules : LexRules) (line : Text) (X : Symbol) (n : Nat) (text : Text)
    (e : Expression Span) : Prop where
  no_feed : ('\n' : CodePoint) ∉ text
  spells : ('\n' : CodePoint) ∉ line → ('\r' : CodePoint) ∉ line → SpellsTree rules X n text e

theorem parenthesize_of_lt {need : Nat} (h : e.precedence < need) (text : Text) :
    parenthesize need e text = "(" ++ text ++ ")" := if_pos h

theorem parenthesize_of_le {need : Nat} (h : need ≤ e.precedence) (text : Text) :
    parenthesize need e text = text := if_neg (Nat.not_lt.mpr h)

theorem Written.parentheses (hrules : rules.commentMark = "#") {line : Text}
    (h : Written rules line .disjunction n text e) (hprec : e.precedence < X.rank) :
    Written rules line X (n + 1) ("(" ++ text ++ ")") e where
  no_feed := by
    have hopen : ('\n' : CodePoint) ∉ Text.ofString "(" := by decide
    have hclose : ('\n' : CodePoint) ∉ Text.ofString ")" := by decide
    simp only [List.mem_append, not_or]
    exact ⟨⟨hopen, h.no_feed⟩, hclose⟩
  spells := by
    intro hfeed hreturn
    have hgroup : SpellsAtom rules (n + 1) ("(" ++ text ++ ")") e := by
      refine (Spells.parentheses (h.spells hfeed hreturn) (by rw [hrules]; decide)
        (by rw [hrules]; decide)).imp fun ts hts => ?_
      obtain ⟨o, us, c, rfl, ho, ⟨e', ⟨es, hes, rfl⟩, hbare⟩, hc⟩ := hts
      exact ⟨_, .group ho hes hc, hbare⟩
    exact hgroup.spellsTree (.inl hprec)

theorem Written.negation (hrules : rules.commentMark = "#") {line : Text}
    (h : Written rules line .atom n text e) (s : Span) (hrank : X.rank < 4) :
    Written rules line X n (Text.ofString "not" ++ " " ++ text) (.combine .neg [e] s) where
  no_feed := by
    have hnot : ('\n' : CodePoint) ∉ Text.ofString "not" ++ Text.ofString " " := by decide
    rw [List.mem_append, not_or]
    exact ⟨hnot, h.no_feed⟩
  spells := by
    intro hfeed hreturn
    refine (Spells.blank (spells_keyword hrules (by decide)) (h.spells hfeed hreturn)).imp fun ts hts => ?_
    obtain ⟨us, vs, rfl, ⟨k, rfl, hk⟩, e', hforms, hbare⟩ := hts
    refine ⟨_, forms_of_negation (.negated hk hforms) (.inr (show 3 < 4 by decide)) hrank, ?_⟩
    show Expression.combine .neg [e'.bare] () = Expression.combine .neg [e.bare] ()
    rw [hbare]

theorem writeAll_eq_mapM (d : Dialect) (need : Nat) (es : List (Expression Span)) :
    writeAll d need es = es.mapM fun e => (write d e).map (parenthesize need e) := by
  induction es with
  | nil => rfl
  | cons e es ih =>
    rw [List.mapM_cons, ← ih, writeAll]
    cases write d e <;> rfl

theorem writeOperands_eq_mapM (d : Dialect) (es : List (Expression Span)) :
    writeOperands d es = es.mapM (writeOperand d) := by
  induction es with
  | nil => rfl
  | cons e es ih => rw [List.mapM_cons, ← ih, writeOperands]

theorem exists_writeAll {need : Nat} {R : Text → Expression Span → Prop}
    (h : ∀ e ∈ es, ∃ text, write .standard e = .ok text ∧ R (parenthesize need e text) e) :
    ∃ texts, writeAll .standard need es = .ok texts ∧ List.Forall₂ R texts es := by
  rw [writeAll_eq_mapM]
  refine exists_mapM_eq_ok fun e he => ?_
  obtain ⟨text, htext, hR⟩ := h e he
  exact ⟨_, congrArg (Except.map (parenthesize need e)) htext, hR⟩

theorem exists_writeOperands {R : Text → Expression Span → Prop}
    (h : ∀ e ∈ es, ∃ text, writeOperand .standard e = .ok text ∧ R text e) :
    ∃ texts, writeOperands .standard es = .ok texts ∧ List.Forall₂ R texts es := by
  rw [writeOperands_eq_mapM]
  exact exists_mapM_eq_ok h

/-- A chain or a sequence is written without parentheses of its own where its members ask for more than its place does,
and a production `Z` puts its members together again. -/
theorem exists_write_of_members {line separator : Text} {Y Z : Symbol} (hrank : Y.rank ≤ 3)
    (hplace : X.rank ≤ e.precedence) (hseparator : ('\n' : CodePoint) ∉ separator)
    (hwrite : write .standard e = writeAll .standard Y.rank es >>= fun texts => pure (Text.join separator texts))
    (hes : ∀ a ∈ es, Writable (IsOperand line) Y n a)
    (hwritten : ∀ a ∈ es, ∃ text, write .standard a = .ok text ∧
      Written rules line Y n (parenthesize Y.rank a text) a)
    (hspells : ∀ {texts : List Text},
      List.Forall₂ (fun text a => SpellsTree rules Y n text a ∧ a.precedence ≠ Y.rank) texts es →
        Spells rules true (Text.join separator texts) fun ts =>
          ∃ es', Parses Z n ts es' ∧ es'.map bare = es.map bare)
    (hforms : ∀ {ts : List Token} {es' : List (Expression Span)}, Parses Z n ts es' →
      es'.map bare = es.map bare → ∃ e', Forms X n ts e' ∧ e'.bare = e.bare) :
    ∃ text, write .standard e = .ok text ∧ Written rules line X n (parenthesize X.rank e text) e := by
  obtain ⟨texts, hall, hmembers⟩ : ∃ texts, writeAll .standard Y.rank es = .ok texts ∧
      List.Forall₂ (fun text a => Written rules line Y n text a ∧ a.precedence ≠ Y.rank) texts es := by
    refine exists_writeAll fun a ha => ?_
    obtain ⟨text, htext, hwritten⟩ := hwritten a ha
    exact ⟨text, htext, hwritten, (hes a ha).precedence_ne hrank⟩
  refine ⟨Text.join separator texts, ?_, ?_⟩
  · rw [hwrite, hall]
    rfl
  rw [parenthesize_of_le hplace]
  refine ⟨not_mem_join hseparator fun text htext => ?_, fun hfeed hreturn => ?_⟩
  · obtain ⟨a, -, ha⟩ := Lexer.exists_of_forall₂ hmembers text htext
    exact ha.1.no_feed
  · have hspelled : List.Forall₂ (fun text a => SpellsTree rules Y n text a ∧ a.precedence ≠ Y.rank) texts es :=
      hmembers.imp fun text a htext => ⟨htext.1.spells hfeed hreturn, htext.2⟩
    refine (hspells hspelled).imp fun ts hts => ?_
    obtain ⟨es', hparses, hbare⟩ := hts
    exact hforms hparses hbare

theorem exists_write_comparison (hrules : rules.commentMark = "#") {line : Text} {op : Comparison}
    {a b : Expression Span} (s : Span) (hop : op ∈ Comparison.all) (ha : IsOperand line a)
    (hb : IsOperand line b) :
    ∃ text, write .standard (.compare op a b s) = .ok text ∧ ('\n' : CodePoint) ∉ text ∧
      (('\n' : CodePoint) ∉ line → ('\r' : CodePoint) ∉ line →
        ∀ n, SpellsAtom rules n text (.compare op a b s)) := by
  obtain ⟨l, hl, hlsealed, hlspells⟩ := ha.exists_write hrules
  obtain ⟨r, hr, hrsealed, hrspells⟩ := hb.exists_write hrules
  have htext : l ++ " " ++ op.label ++ " " ++ r = l ++ " " ++ (op.label ++ " " ++ r) := by
    simp only [List.append_assoc]
  refine ⟨l ++ " " ++ op.label ++ " " ++ r, ?_, ?_, fun hfeed hreturn n => ?_⟩
  · unfold write
    rw [hl, hr]
    rfl
  · have hlabel : ∀ op ∈ Comparison.all, ('\n' : CodePoint) ∉ op.label := by decide
    have hblank : ('\n' : CodePoint) ∉ Text.ofString " " := by decide
    simp only [List.mem_append, not_or]
    exact ⟨⟨⟨⟨hlsealed.no_feed, hblank⟩, hlabel op hop⟩, hblank⟩, hrsealed.no_feed⟩
  · rw [htext]
    refine (Spells.blank (hlspells hfeed hreturn)
      (Spells.blank (spells_sign hrules hop) (hrspells hfeed hreturn))).imp fun ts hts => ?_
    obtain ⟨us, vs, rfl, ⟨t, a', rfl, ha', habare⟩, ks, ws, rfl, ⟨k, rfl, hkind, hk⟩, u, b', rfl, hb',
      hbbare⟩ := hts
    refine ⟨_, .comparison ha' hkind hk hb', ?_⟩
    show Expression.compare op a'.bare b'.bare () = Expression.compare op a.bare b.bare ()
    rw [habare, hbbare]

/-- A tree that can be written is written, and what is written stands for it. -/
theorem Writable.exists_write (hrules : rules.commentMark = "#") {line : Text}
    (h : Writable (IsOperand line) X n e) :
    ∃ text, write .standard e = .ok text ∧ Written rules line X n (parenthesize X.rank e text) e := by
  have hrank : ∀ X : Symbol, X.rank ≤ 5 := by
    intro X
    cases X <;> decide
  -- between a production and the symbol it stands for, the text and the tree stay as they are
  induction h with
  | @operand X n e ha hprec =>
    obtain ⟨text, hwrite, hsealed, hspells⟩ := ha.exists_write hrules
    refine ⟨text, ?_, ?_⟩
    · cases ha <;> exact hwrite
    · rw [parenthesize_of_le (by rw [hprec]; exact hrank X)]
      exact ⟨hsealed.no_feed, fun hfeed hreturn =>
        (SpellsOperand.spellsAtom (hspells hfeed hreturn)).spellsTree (.inr (by omega))⟩
  | @word X n v s s' =>
    obtain ⟨text, hwrite, hsealed, hspells⟩ := exists_write_string hrules v s s'
    refine ⟨text, hwrite, ?_⟩
    rw [parenthesize_of_le (hrank X)]
    exact ⟨hsealed.no_feed, fun _ _ => (hspells n).spellsTree (.inr (show 3 < 5 by decide))⟩
  | @compare X n op a b s hop ha hb =>
    obtain ⟨text, hwrite, hfree, hspells⟩ := exists_write_comparison hrules s hop ha hb
    refine ⟨text, hwrite, ?_⟩
    rw [parenthesize_of_le (hrank X)]
    exact ⟨hfree, fun hfeed hreturn =>
      (hspells hfeed hreturn n).spellsTree (.inr (show 3 < 5 by decide))⟩
  | @group X n e hlt _ ih =>
    obtain ⟨text, hwrite, hwritten⟩ := ih
    refine ⟨text, hwrite, ?_⟩
    have hplain : parenthesize Symbol.disjunction.rank e text = text :=
      parenthesize_of_le (Nat.zero_le _) text
    rw [hplain] at hwritten
    rw [parenthesize_of_lt hlt]
    exact hwritten.parentheses hrules hlt
  | @neg X n e s hlt _ ih =>
    obtain ⟨text, hwrite, hwritten⟩ := ih
    refine ⟨Text.ofString "not" ++ " " ++ parenthesize 5 e text, ?_, ?_⟩
    · unfold write
      rw [hwrite]
      rfl
    · rw [parenthesize_of_le (show X.rank ≤ 4 by omega)]
      exact hwritten.negation hrules s hlt
  | @sequence X n es s hlt hlength hes ih =>
    have hne : es ≠ [] := List.ne_nil_of_length_pos (by omega)
    refine exists_write_of_members (by decide) (Nat.le_of_lt hlt) (by decide) rfl hes ih
      (fun hmembers => spells_items hmembers hne) fun hparses hbare => ?_
    have hof := bare_ofItems hbare hlength s
    exact ⟨_, forms_of_sequence ⟨_, hparses, rfl⟩ (precedence_of_bare_eq hof) hlt, hof⟩
  | @conj X n es s hlt hlength hes ih =>
    have hne : es ≠ [] := List.ne_nil_of_length_pos (by omega)
    refine exists_write_of_members (by decide) (Nat.le_of_lt hlt) (by decide) rfl hes ih
      (fun hmembers => spells_conjuncts hrules hmembers hne) fun hparses hbare => ?_
    have hof := bare_ofOperands .conj hbare hlength s
    exact ⟨_, forms_of_conjunction ⟨_, hparses, rfl⟩ (precedence_of_bare_eq hof) hlt, hof⟩
  | @disj X n es s hlt hlength hes ih =>
    have hne : es ≠ [] := List.ne_nil_of_length_pos (by omega)
    obtain rfl : X = .disjunction := by
      cases X with
      | disjunction => rfl
      | _ => exact absurd hlt (by decide)
    exact exists_write_of_members (by decide) (Nat.zero_le _) (by decide) rfl hes ih
      (fun hmembers => spells_disjuncts hrules hmembers hne) fun hparses hbare =>
        ⟨_, ⟨_, hparses, rfl⟩, bare_ofOperands .disj hbare hlength s⟩

/-! ## Whole expressions -/

/-- The trees that some lists of tokens form, one by one. -/
theorem exists_map_bare_eq {P : List Token → Expression Span → Prop} {ws : List (List Token)}
    (h : List.Forall₂ (fun w e => ∃ e', P w e' ∧ e'.bare = e.bare) ws es) :
    ∃ es', List.Forall₂ P ws es' ∧ es'.map bare = es.map bare := by
  induction h with
  | nil => exact ⟨[], .nil, rfl⟩
  | cons hfirst _ ih =>
    obtain ⟨e', hP, hbare⟩ := hfirst
    obtain ⟨es', hPs, hbares⟩ := ih
    exact ⟨e' :: es', .cons hP hPs, by rw [List.map_cons, List.map_cons, hbare, hbares]⟩

theorem spells_name (hrules : rules.commentMark = "#") {name : Text} (hname : Value.IsName name)
    (hkind : TokenKind.ofText name = .word) (hblank : ∀ c ∈ name, c.isBlank = false) :
    Spells rules true name fun ts => ∃ t, ts = [t] ∧ Value.nameOf t = .ok name := by
  have hargument := Value.isArgument_of_isName hname hblank
  obtain ⟨c, rest, htext⟩ := List.exists_cons_of_ne_nil hargument.ne_nil
  have hhead := hargument.head c (by rw [htext]; rfl)
  refine (spells_plain hrules htext hhead hblank fun b hb =>
    isOperatorChar_of_isNameChar (hname.isNameChar_of_mem b hb)).imp fun ts hts => ?_
  obtain ⟨t, rfl, ht⟩ := hts
  exact ⟨t, rfl, Value.nameOf_eq_ok_iff.mpr ⟨ht.kind_eq.trans hkind, ht.text_eq, hname⟩⟩

theorem WritableStep.exists_write (hrules : rules.commentMark = "#") {line : Text}
    (h : WritableStep line e) : ∃ text, write .standard e = .ok text ∧
      Closed rules true line text fun ts => ∃ e', Step .standard ts e' ∧ e'.bare = e.bare := by
  cases h with
  | @mk name operands s hname hkind hblank hoperands =>
    have hall : ∀ e ∈ operands, ∃ text, writeOperand .standard e = .ok text ∧
        Closed rules true line text fun ts =>
          ∃ e', (∃ t, ts = [t] ∧ Operand .standard t e') ∧ e'.bare = e.bare := by
      intro e he
      obtain ⟨text, hwrite, hclosed⟩ := (hoperands e he).exists_write hrules
      refine ⟨text, hwrite, hclosed.imp fun ts hts => ?_⟩
      obtain ⟨t, e', rfl, hoperand, hbare⟩ := hts
      exact ⟨e', ⟨t, rfl, hoperand⟩, hbare⟩
    obtain ⟨texts, hwrite, htexts⟩ := exists_writeOperands hall
    have hstep : ∀ {t : Token} {us : List Token} {operands' : List (Expression Span)},
        Value.nameOf t = .ok name → List.Forall₂ (Operand .standard) us operands' →
        operands'.map bare = operands.map bare →
        ∃ e', Step .standard (t :: us) e' ∧ e'.bare = (Expression.step name operands s).bare := by
      intro t us operands' ht hus hbare
      refine ⟨_, .mk ht hus, ?_⟩
      rw [bare_step, bare_step, hbare]
    refine ⟨Text.join " " (name :: texts), ?_, ?_⟩
    · unfold write
      rw [hwrite]
      rfl
    · have hspells := spells_name hrules hname hkind hblank
      have hsealed := (Value.isArgument_of_isName hname hblank).isSealed
      by_cases hne : operands = []
      · subst hne
        cases htexts
        refine ⟨hsealed, fun _ _ => Spells.imp hspells fun ts hts => ?_⟩
        obtain ⟨t, rfl, ht⟩ := hts
        exact hstep ht .nil rfl
      · have hclosed := Closed.join htexts hne
        rw [Text.join_cons (Lexer.ne_nil_of_forall₂ htexts hne)]
        refine ⟨.append_blank hsealed.no_feed hclosed.isSealed, fun hfeed hreturn => ?_⟩
        refine (Spells.blank hspells (hclosed.spells hfeed hreturn)).imp fun ts hts => ?_
        obtain ⟨us, vs, rfl, ⟨t, rfl, ht⟩, ws, rfl, hws⟩ := hts
        obtain ⟨operands', hoperands', hbare⟩ := exists_map_bare_eq hws
        exact hstep ht (Lexer.forall₂_flatten hoperands') hbare

/-- A test and steps that can be written are read back as a whole expression, by every dialect with enough depth. -/
theorem exists_write_body (hrules : rules.commentMark = "#") {line : Text} {test : Expression Span}
    {actions : List (Expression Span)} (s : Span) (hn : 0 < n) (htest : Writable (IsOperand line) .disjunction n test)
    (hne : actions ≠ []) (hactions : ∀ e ∈ actions, WritableStep line e) :
    ∃ text, write .standard (.body test actions s) = .ok text ∧
      Closed rules true line text fun ts =>
        ∃ e', Body (IsBareWord .standard) (Dialect.standard.withDepth n hn) ts e' ∧
          e'.bare = (Expression.body test actions s).bare := by
  have hall : ∀ e ∈ actions, ∃ text, write .standard e = .ok text ∧
      Closed rules true line (parenthesize 0 e text) fun ts =>
        ∃ e', Step .standard ts e' ∧ e'.bare = e.bare := fun e he =>
    (hactions e he).exists_write hrules
  obtain ⟨t, hwriteTest, hwritten⟩ := htest.exists_write hrules
  have hplain : parenthesize Symbol.disjunction.rank test t = t := parenthesize_of_le (Nat.zero_le _) t
  rw [hplain] at hwritten
  obtain ⟨texts, hwriteSteps, htexts⟩ := exists_writeAll
    (R := fun text e => Closed rules true line text fun ts => ∃ e', Step .standard ts e' ∧ e'.bare = e.bare)
    hall
  have hclosed := Closed.join htexts hne
  have htext : Text.ofString "test" ++ " " ++ t ++ " " ++ "actions" ++ " " ++ Text.join " " texts =
      Text.ofString "test" ++ " " ++
        (t ++ " " ++ (Text.ofString "actions" ++ " " ++ Text.join " " texts)) := by
    simp only [List.append_assoc]
  refine ⟨Text.ofString "test" ++ " " ++ t ++ " " ++ "actions" ++ " " ++ Text.join " " texts, ?_, ?_⟩
  · unfold write
    rw [hwriteSteps, hwriteTest]
    rfl
  · rw [htext]
    refine ⟨?_, fun hfeed hreturn => ?_⟩
    · exact .append_blank (by decide)
        (.append_blank hwritten.no_feed (.append_blank (by decide) hclosed.isSealed))
    · have htestKeyword := Dialect.standard_hasStandardKeywords.lower_testKeyword
      have hactionKeyword := Dialect.standard_hasStandardKeywords.lower_actionKeyword
      refine (Spells.blank (spells_keyword hrules (by decide)) (Spells.blank
        (hwritten.spells hfeed hreturn) (Spells.blank (spells_keyword hrules (by decide))
          (hclosed.spells hfeed hreturn)))).imp fun ts hts => ?_
      obtain ⟨us, vs, rfl, ⟨k, rfl, hk⟩, ws, xs, rfl, ⟨test', ⟨es, hes, rfl⟩, hbare⟩, ls, ms, rfl,
        ⟨l, rfl, hl⟩, ws', rfl, hws⟩ := hts
      obtain ⟨actions', hsteps, hbares⟩ := exists_map_bare_eq hws
      have hwsNe : ws' ≠ [] := by
        intro hnil
        rw [hnil] at hws
        cases hws
        exact hne rfl
      refine ⟨_, .mk (htestKeyword ▸ hk) (hes.congr rfl) (hactionKeyword ▸ hl) hwsNe
        (hsteps.imp fun _ _ hstep => hstep.congr rfl), ?_⟩
      rw [bare_body, bare_body, hbare, hbares]

/-- A whole expression that can be written is read back. -/
theorem WritableBody.exists_write (hrules : rules.commentMark = "#") {line : Text}
    (h : WritableBody line e) : ∃ text, write .standard e = .ok text ∧
      Closed rules true line text fun ts =>
        ∃ e', Body (IsBareWord .standard) .standard ts e' ∧ e'.bare = e.bare := by
  cases h with
  | @mk test actions s htest hne hactions =>
    exact exists_write_body hrules s Dialect.standard.maxDepth_pos htest hne hactions

end Expression
end BrailleTable
