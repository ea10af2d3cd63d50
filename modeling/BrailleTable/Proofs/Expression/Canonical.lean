/-
Canonical trees survive writing and reading.

A tree is canonical when its chains and sequences are flat and have at least two members, its names are names, and its
numbers and dots are ones that a table can have.  Such a tree need not have been read from anywhere.  It can be written,
its parentheses are nested as deep as `nesting` says, and every dialect that allows so many reads the same tree back.
-/
import BrailleTable.Proofs.Table.RoundTrip

namespace BrailleTable

/-- Every code point but the two that end lines. -/
def Text.unbroken : Text :=
  ((List.finRange 0x110000).map fun n => (⟨n.val, n.isLt⟩ : CodePoint)).filter fun c => c ≠ '\n' ∧ c ≠ '\r'

theorem Text.mem_unbroken {c : CodePoint} : c ∈ unbroken ↔ c ≠ '\n' ∧ c ≠ '\r' := by
  have hall : c ∈ (List.finRange 0x110000).map fun n => (⟨n.val, n.isLt⟩ : CodePoint) :=
    List.mem_map.mpr ⟨⟨c.val, c.isLt⟩, List.mem_finRange _, rfl⟩
  unfold unbroken
  rw [List.mem_filter, decide_eq_true_iff]
  exact and_iff_right hall

namespace Expression

open Value (IsName IsPattern)

section

variable {σ : Type}

/-! ## Canonical trees -/

/-- An operand of a comparison or of a step.  There, a string is written between quotes and nothing in it is escaped. -/
inductive CanonicalOperand : Expression σ → Prop
  | classRef {name : Text} {s : σ} : IsName name → CanonicalOperand (.classRef name s)
  | number {n : Nat} {s s' : σ} :
      n < 10 ^ Text.digitLimit → CanonicalOperand (.literal (.value (.number n s)) s')
  | string {v : Text} {s s' : σ} :
      ('\n' : CodePoint) ∉ v → ('\r' : CodePoint) ∉ v → CanonicalOperand (.literal (.value (.string v s)) s')
  | dots {cells : List (List Int)} {s s' : σ} :
      IsPattern cells → CanonicalOperand (.literal (.value (.dots cells s)) s')

inductive CanonicalTest : Expression σ → Prop
  | operand {e : Expression σ} : CanonicalOperand e → CanonicalTest e
  /-- A string that stands for itself is any string. -/
  | string {v : Text} {s s' : σ} : CanonicalTest (.literal (.value (.string v s)) s')
  | compare {op : Comparison} {a b : Expression σ} {s : σ} :
      op ∈ Comparison.all → CanonicalOperand a → CanonicalOperand b → CanonicalTest (.compare op a b s)
  | neg {e : Expression σ} {s : σ} : CanonicalTest e → CanonicalTest (.combine .neg [e] s)
  | chain {op : Connective} {es : List (Expression σ)} {s : σ} :
      op = .conj ∨ op = .disj → 2 ≤ es.length → (∀ e ∈ es, CanonicalTest e) →
      (∀ fs s', .combine op fs s' ∉ es) → CanonicalTest (.combine op es s)
  | sequence {es : List (Expression σ)} {s : σ} :
      2 ≤ es.length → (∀ e ∈ es, CanonicalTest e) → (∀ fs s', .sequence fs s' ∉ es) →
      CanonicalTest (.sequence es s)

inductive CanonicalStep : Expression σ → Prop
  | mk {name : Text} {operands : List (Expression σ)} {s : σ} :
      IsName name → (∀ e ∈ operands, CanonicalOperand e) → CanonicalStep (.step name operands s)

inductive Canonical : Expression σ → Prop
  | mk {test : Expression σ} {actions : List (Expression σ)} {s : σ} :
      CanonicalTest test → actions ≠ [] → (∀ e ∈ actions, CanonicalStep e) →
      Canonical (.body test actions s)

/-! ## Nesting -/

/-- The parentheses that `parenthesize` puts around an expression. -/
def parentheses (need : Nat) (e : Expression σ) : Nat := if e.precedence < need then 1 else 0

mutual
/-- How deep the parentheses are nested in what an expression is written as. -/
def nesting : Expression σ → Nat
  | .combine .neg (e :: _) _ => nesting e + parentheses 5 e
  | .combine .conj operands _ => nestingAll 2 operands
  | .combine .disj operands _ => nestingAll 1 operands
  | .sequence items _ => nestingAll 3 items
  | .body test _ _ => nesting test
  | _ => 0

/-- The deepest nesting of expressions in places that ask for the precedence `need`. -/
def nestingAll (need : Nat) : List (Expression σ) → Nat
  | [] => 0
  | e :: rest => max (nesting e + parentheses need e) (nestingAll need rest)
end

theorem nesting_le_nestingAll {need : Nat} {es : List (Expression σ)} {e : Expression σ} (he : e ∈ es) :
    nesting e + parentheses need e ≤ nestingAll need es := by
  induction es with
  | nil => exact absurd he List.not_mem_nil
  | cons a es ih =>
    rw [nestingAll]
    rcases List.mem_cons.mp he with rfl | he
    · exact Nat.le_max_left _ _
    · exact Nat.le_trans (ih he) (Nat.le_max_right _ _)

/-! ## Canonical trees can be written -/

variable {f : σ → Span} {e : Expression σ} {es : List (Expression σ)}

/-- A tree that can be written by itself can be written in every place where it is not flattened away. -/
theorem Writable.in_place {P : Expression Span → Prop} {X : Symbol} {n : Nat} (h : Writable P .disjunction n (e.map f))
    (hne : e.precedence ≠ X.rank ∨ e.precedence = 5) : Writable P X (n + parentheses X.rank e) (e.map f) := by
  unfold parentheses
  by_cases hlt : e.precedence < X.rank
  · rw [if_pos hlt]
    exact .group (by rwa [precedence_map]) h
  · rw [if_neg hlt]
    refine h.of_disjunction ?_
    rw [precedence_map]
    omega

theorem CanonicalOperand.isOperand (h : CanonicalOperand e) : IsOperand Text.unbroken (e.map f) := by
  cases h with
  | classRef hname => exact .classRef hname hname.ofText_underscore_eq_word hname.isBlank_of_mem
  | number hn => exact .number hn
  | string hfeed hreturn =>
    refine .string fun c hc => Text.mem_unbroken.mpr ⟨?_, ?_⟩
    · exact fun heq => hfeed (heq ▸ hc)
    · exact fun heq => hreturn (heq ▸ hc)
  | dots hcells => exact .dots hcells

/-- What the members of a chain or a sequence need, given what each needs by itself. -/
theorem writable_of_mem_map {P : Expression Span → Prop} {X : Symbol}
    (hes : ∀ e ∈ es, Writable P .disjunction e.nesting (e.map f))
    (hne : ∀ e ∈ es, e.precedence ≠ X.rank) :
    ∀ a ∈ es.map (Expression.map f), Writable P X (nestingAll X.rank es) a := by
  intro a ha
  obtain ⟨e, he, rfl⟩ := List.mem_map.mp ha
  exact ((hes e he).in_place (.inl (hne e he))).mono (nesting_le_nestingAll he)

theorem eq_sequence_of_precedence (h : e.precedence = 3) : ∃ fs s, e = .sequence fs s := by
  cases e with
  | sequence fs s => exact ⟨fs, s, rfl⟩
  | combine op fs s => cases op <;> cases h
  | _ => cases h

theorem eq_conj_of_precedence (h : e.precedence = 2) : ∃ fs s, e = .combine .conj fs s := by
  cases e with
  | combine op fs s =>
    cases op with
    | conj => exact ⟨fs, s, rfl⟩
    | _ => cases h
  | _ => cases h

theorem eq_disj_of_precedence (h : e.precedence = 1) : ∃ fs s, e = .combine .disj fs s := by
  cases e with
  | combine op fs s =>
    cases op with
    | disj => exact ⟨fs, s, rfl⟩
    | _ => cases h
  | _ => cases h

theorem CanonicalTest.writable (f : σ → Span) (h : CanonicalTest e) :
    Writable (IsOperand Text.unbroken) .disjunction e.nesting (e.map f) := by
  induction h with
  | operand ha => exact .operand ha.isOperand ha.isOperand.precedence_eq
  | string => exact .word
  | compare hop ha hb => exact .compare hop ha.isOperand hb.isOperand
  | @neg e s _ ih =>
    rw [nesting]
    refine .neg (by decide) (ih.in_place ?_)
    show e.precedence ≠ 5 ∨ e.precedence = 5
    omega
  | @chain op es s hop hlength _ hflat ih =>
    rcases hop with rfl | rfl
    · rw [map, nesting, mapAll_eq_map]
      refine .conj (by decide) (by rwa [List.length_map]) (writable_of_mem_map ih fun e he heq => ?_)
      obtain ⟨fs, s', rfl⟩ := eq_conj_of_precedence heq
      exact hflat fs s' he
    · rw [map, nesting, mapAll_eq_map]
      refine .disj (by decide) (by rwa [List.length_map]) (writable_of_mem_map ih fun e he heq => ?_)
      obtain ⟨fs, s', rfl⟩ := eq_disj_of_precedence heq
      exact hflat fs s' he
  | @sequence es s hlength _ hflat ih =>
    rw [map, nesting, mapAll_eq_map]
    refine .sequence (by decide) (by rwa [List.length_map]) (writable_of_mem_map ih fun e he heq => ?_)
    obtain ⟨fs, s', rfl⟩ := eq_sequence_of_precedence heq
    exact hflat fs s' he

theorem CanonicalStep.writableStep (f : σ → Span) (h : CanonicalStep e) :
    WritableStep Text.unbroken (e.map f) := by
  cases h with
  | @mk name operands s hname hoperands =>
    rw [map, mapAll_eq_map]
    refine .mk hname hname.ofText_eq_word hname.isBlank_of_mem fun a ha => ?_
    obtain ⟨e, he, rfl⟩ := List.mem_map.mp ha
    exact (hoperands e he).isOperand

/-! ## Reading back -/

/-- What a tree is written as depends on nothing but the tree, so places can be made up for it. -/
theorem Canonical.exists_write {rules : LexRules} (hrules : rules.commentMark = "#") (h : Canonical e) {n : Nat}
    (hn : 0 < n) (hdepth : e.nesting ≤ n) : ∃ text, write .standard e = .ok text ∧
      Lexer.Closed rules true Text.unbroken text fun ts =>
        ∃ e', Body (IsBareWord .standard) (Dialect.standard.withDepth n hn) ts e' ∧ e'.bare = e.bare := by
  let place : σ → Span := fun _ => .point ⟨0, 0, 0⟩
  rw [← write_map place, ← bare_map place]
  cases h with
  | @mk test actions s htest hne hactions =>
    rw [nesting] at hdepth
    rw [map, mapAll_eq_map]
    refine exists_write_body hrules (place s) hn ((htest.writable place).mono hdepth) ?_ fun a ha => ?_
    · exact fun hnil => hne (List.map_eq_nil_iff.mp hnil)
    · obtain ⟨e, he, rfl⟩ := List.mem_map.mp ha
      exact (hactions e he).writableStep place

end

end Expression

/-- The tokens of an expression after an opcode that takes one, read by a dialect of any depth. -/
theorem Directive.exists_parse_of_body {shape : Shape} (hshape : shape ∈ Vocabulary.standard)
    (hmultipart : shape.isMultipart = true) {n : Nat} {hn : 0 < n} {t : Token} (ht : t.IsPlain shape.name)
    {us : List Token} {text : Text} (hcut : Lexer.Cutting true text us) {e : Expression Span}
    (hbody : Expression.Body (Expression.IsBareWord .standard) (Dialect.standard.withDepth n hn) us e)
    (eol : Span) (comment : Option Text) :
    ∃ r, parse (Dialect.standard.withDepth n hn) (t :: us) eol comment = .ok r ∧ r.opcode = shape.name ∧
      r.expression = some e := by
  have hword := Vocabulary.isHeadWord_name shape hshape
  obtain ⟨read, hread, hmap⟩ := readModifiers_append us .nil .nil (modifierOf?_opcode hshape ht)
  have hopcode : readOpcode (Dialect.standard.withDepth n hn).vocabulary read t = .ok shape :=
    readOpcode_eq ht hword (Vocabulary.lookup_name shape hshape) (.inl (List.map_eq_nil_iff.mp hmap))
  have hoperands : ReadsOperands (Dialect.standard.withDepth n hn) shape t.span eol us [] (some e) := by
    refine .expression hmultipart (Expression.parse_of_body ⟨rfl, rfl⟩ hbody ?_)
    rw [flatMap_splitOperators hcut]
    rfl
  obtain ⟨span, hparse⟩ := exists_parse_eq hread hopcode hoperands
  exact ⟨_, hparse, rfl, rfl⟩

/-- A canonical tree is written on a line of its own, and the line is read as the same tree wherever it stands, by every
dialect whose depth its parentheses keep to. -/
theorem Expression.exists_readLine_write_of_canonical {σ : Type} {e : Expression σ} (h : Canonical e) {n : Nat}
    (hn : 0 < n) (hdepth : e.nesting ≤ n) :
    ∃ text, e.write .standard = .ok text ∧ ('\n' : CodePoint) ∉ text ∧
      ∀ l : LogicalLine, l.text = "context " ++ text → ∃ r,
        (Table.readLine (Dialect.standard.withDepth n hn) (.ofDialect .standard) l).1 = .ok (some r) ∧
          r.opcode = "context" ∧ r.expression.map bare = some e.bare := by
  obtain ⟨text, hwrite, hclosed⟩ := h.exists_write Lexer.standardRules_commentMark hn hdepth
  have hunbroken := hclosed.spells (fun hmem => (Text.mem_unbroken.mp hmem).1 rfl)
    fun hmem => (Text.mem_unbroken.mp hmem).2 rfl
  refine ⟨text, hwrite, hclosed.isSealed.no_feed, fun l hl => ?_⟩
  obtain ⟨shape, hshape, hname, hmultipart⟩ : ∃ shape ∈ Vocabulary.standard,
      shape.name = "context" ∧ shape.isMultipart = true := by decide
  have hline : l.text = Text.join " " (([] : List Modifier).map Modifier.label ++ shape.name :: [text]) ++
      Directive.trailer .standard none := by
    rw [hl, hname]
    exact (List.append_nil _).symm
  obtain ⟨ts, t, us, lx, htokens, hts, ht, ⟨hcut, e', hbody, hbare⟩, -⟩ :=
    Directive.exists_tokenize hshape (List.cons_ne_nil text []) (hmultipart ▸ hunbroken.cutting) []
      (fun _ hnone => by cases hnone) hline
  cases hts
  obtain ⟨r, hparse, hopcode, hexpression⟩ :=
    Directive.exists_parse_of_body hshape hmultipart ht (hmultipart ▸ hcut) hbody l.endSpan lx.comment
  refine ⟨r, Table.readLine_of_tokenize htokens hparse, hopcode.trans hname, ?_⟩
  rw [hexpression, Option.map_some, hbare]

/-- A tree that no line was read as: `not ("a" line feed "b" followed by (_c or 3 <= @1f-2))`, with two parentheses open at
once. -/
def sampleTree : Expression Unit :=
  .body
    (.combine .neg
      [.sequence
        [.literal (.value (.string "a\nb" ())) (),
          .combine .disj
            [.classRef "c" (),
              .compare .le (.literal (.value (.number 3 ())) ()) (.literal (.value (.dots [[1, 15], [2]] ())) ()) ()]
            ()]
        ()]
      ())
    [.step "go" [.literal (.value (.string "x (y" ())) ()] ()] ()

theorem exists_readLine_write_sampleTree :
    sampleTree.Canonical ∧ sampleTree.nesting = 2 ∧ ∃ text, sampleTree.write .standard = .ok text ∧
      ('\n' : CodePoint) ∉ text ∧ ∀ l : LogicalLine, l.text = "context " ++ text → ∃ r,
        (Table.readLine (Dialect.standard.withDepth 2 (by decide)) (.ofDialect .standard) l).1 = .ok (some r) ∧
          r.opcode = "context" ∧ r.expression.map Expression.bare = some sampleTree.bare := by
  have hclass : Value.IsName (Text.ofString "c") := ⟨'c', [], rfl, by decide, by decide⟩
  have hstep : Value.IsName (Text.ofString "go") := ⟨'g', Text.ofString "o", rfl, by decide, by decide⟩
  have hdots : Value.IsPattern [[1, 15], [2]] := by
    refine ⟨by decide, List.forall_mem_cons.mpr ⟨?_, List.forall_mem_singleton.mpr ?_⟩⟩
    · exact ⟨by decide, by decide, List.forall_mem_cons.mpr ⟨⟨1, by decide⟩, List.forall_mem_singleton.mpr
        ⟨15, by decide⟩⟩⟩
    · exact ⟨by decide, by decide, List.forall_mem_singleton.mpr ⟨2, by decide⟩⟩
  have hnumber : 3 < 10 ^ Text.digitLimit :=
    Nat.lt_of_lt_of_le (show 3 < 10 ^ 1 by decide) (Nat.pow_le_pow_right (by decide) (by decide))
  have hcanonical : sampleTree.Canonical := by
    refine .mk (.neg (.sequence (by decide) (List.forall_mem_cons.mpr ⟨.string, List.forall_mem_singleton.mpr
      (.chain (.inr rfl) (by decide) (List.forall_mem_cons.mpr ⟨.operand (.classRef hclass),
        List.forall_mem_singleton.mpr (.compare (by decide) (.number hnumber) (.dots hdots))⟩) ?_)⟩) ?_))
      (List.cons_ne_nil _ _) (List.forall_mem_singleton.mpr
        (.mk hstep (List.forall_mem_singleton.mpr (.string (by decide) (by decide)))))
    · simp
    · simp
  exact ⟨hcanonical, rfl, Expression.exists_readLine_write_of_canonical hcanonical (by decide) (by decide)⟩

end BrailleTable
