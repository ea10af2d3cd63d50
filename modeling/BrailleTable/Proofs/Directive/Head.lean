/-
The words before the arguments of a directive.

A directive is put together from three readers: modifiers, the opcode, and what follows it.  `parse_eq_ok` takes a
directive apart into what they read, and `exists_parse_eq` puts it together again.
-/
import BrailleTable.Directive.Parser
import BrailleTable.Directive.Printer
import BrailleTable.Proofs.Text.Lowercase
import BrailleTable.Proofs.Token.Spelling
import BrailleTable.Table
import Mathlib.Data.List.Pairwise

namespace BrailleTable

/-! ## Words -/

/-- A word that may stand before the arguments: it is in lower case, and nothing in it starts a quoted string, a comment
or an escape. -/
def IsHeadWord (w : Text) : Prop :=
  w ≠ [] ∧ w.all CodePoint.isUncased = true ∧ TokenKind.ofText w = .word ∧
    ∀ c ∈ w, c.isBlank = false ∧ c ≠ '"' ∧ c ≠ '#' ∧ c ≠ '\\'

instance (w : Text) : Decidable (IsHeadWord w) :=
  inferInstanceAs (Decidable (w ≠ [] ∧ w.all CodePoint.isUncased = true ∧ TokenKind.ofText w = .word ∧
    ∀ c ∈ w, c.isBlank = false ∧ c ≠ '"' ∧ c ≠ '#' ∧ c ≠ '\\'))

theorem IsHeadWord.isWord {w : Text} (h : IsHeadWord w) {rules : LexRules}
    (hrules : rules.commentMark = "#") : Lexer.IsWord rules false w where
  ne_nil := h.1
  blank := fun c hc => (h.2.2.2 c hc).1
  parenthesis := fun hin => by cases hin
  head := by
    intro c hc
    obtain ⟨-, hquote, hmark, -⟩ := h.2.2.2 c (List.mem_of_head? hc)
    refine ⟨hquote, ?_⟩
    rw [hrules]
    intro heq
    exact hmark (List.cons.inj heq).1

theorem IsHeadWord.isSealed {w : Text} (h : IsHeadWord w) : w.Sealed := by
  refine .of_forall h.1 (fun c hc => (h.2.2.2 c hc).1) (.of_getLast? fun hlast => ?_)
  exact (h.2.2.2 _ (List.mem_of_getLast? hlast)).2.2.2 rfl

variable {t : Token} {w : Text}

theorem Token.IsPlain.lower_eq (ht : t.IsPlain w) (h : IsHeadWord w) : t.text.lower = w := by
  rw [ht.text_eq, Text.lower_eq_self h.2.1]

theorem Token.IsPlain.isWord (ht : t.IsPlain w) (h : IsHeadWord w) : t.kind = .word := by
  rw [ht.kind_eq, h.2.2.1]

/-! ## Modifiers -/

theorem Modifier.isHeadWord_label : ∀ m : Modifier, IsHeadWord m.label := by
  intro m
  cases m <;> decide +kernel

namespace Modifiers

theorem contains_insert (ms : Modifiers) (m m' : Modifier) :
    (ms.insert m).contains m' = true ↔ m' = m ∨ ms.contains m' = true := by
  cases m <;> cases m' <;> simp [insert, contains]

theorem contains_foldl_insert (ms : Modifiers) (l : List Modifier) (m : Modifier) :
    (l.foldl insert ms).contains m = true ↔ m ∈ l ∨ ms.contains m = true := by
  induction l generalizing ms with
  | nil => simp
  | cons a l ih =>
    rw [List.foldl_cons, ih, contains_insert, List.mem_cons]
    tauto

theorem contains_ofList (l : List Modifier) (m : Modifier) :
    (ofList l).contains m = true ↔ m ∈ l := by
  unfold ofList
  rw [contains_foldl_insert]
  cases m <;> simp [contains, none]

theorem ofList_toList (ms : Modifiers) : ofList ms.toList = ms := by
  obtain ⟨noback, nofor, nocross⟩ := ms
  cases noback <;> cases nofor <;> cases nocross <;> rfl

end Modifiers

namespace Directive

/-- Modifiers that may stand together. -/
def Apart (a b : Modifier) : Prop := a ≠ b ∧ clash a b = false

instance (a b : Modifier) : Decidable (Apart a b) :=
  inferInstanceAs (Decidable (a ≠ b ∧ clash a b = false))

instance : Std.Symm Apart where
  symm a b := by cases a <;> cases b <;> decide

theorem apart_of_not_mem {m : Modifier} {seen : List Modifier} (hmem : m ∉ seen)
    (hclash : ¬ seen.any (clash m) = true) : ∀ m' ∈ seen, Apart m m' := by
  intro m' hm'
  refine ⟨fun heq => hmem (heq ▸ hm'), ?_⟩
  by_contra hne
  refine hclash (List.any_eq_true.mpr ⟨m', hm', ?_⟩)
  rwa [Bool.not_eq_false] at hne

theorem not_mem_of_apart {m : Modifier} {seen : List Modifier} (h : ∀ m' ∈ seen, Apart m m') :
    m ∉ seen ∧ ¬ seen.any (clash m) = true := by
  refine ⟨fun hmem => (h m hmem).1 rfl, fun hany => ?_⟩
  obtain ⟨m', hm', hclash⟩ := List.any_eq_true.mp hany
  rw [(h m' hm').2] at hclash
  cases hclash

/-- The modifiers of a line may stand together. -/
theorem pairwise_of_readModifiers {seen : List Modifier} {tokens rest : List Token}
    {ms : List (Modifier × Token)} (hseen : seen.Pairwise Apart)
    (h : readModifiers seen tokens = .ok (ms, rest)) :
    ((ms.map Prod.fst).reverse ++ seen).Pairwise Apart ∧ ∀ t ∈ rest, t ∈ tokens := by
  induction tokens generalizing seen ms rest with
  | nil =>
    cases h
    exact ⟨hseen, fun t ht => ht⟩
  | cons t tokens ih =>
    unfold readModifiers at h
    cases hm : modifierOf? t with
    | none =>
      rw [hm] at h
      cases h
      exact ⟨hseen, fun t ht => ht⟩
    | some m =>
      rw [hm] at h
      dsimp only at h
      by_cases hmem : m ∈ seen
      · rw [if_pos hmem] at h
        cases h
      · rw [if_neg hmem] at h
        by_cases hclash : seen.any (clash m) = true
        · rw [if_pos hclash] at h
          cases h
        · rw [if_neg hclash] at h
          obtain ⟨⟨ms', rest'⟩, hrest, heq⟩ := map_eq_ok h
          cases heq
          obtain ⟨hpairwise, hsub⟩ :=
            ih (List.pairwise_cons.mpr ⟨apart_of_not_mem hmem hclash, hseen⟩) hrest
          refine ⟨?_, fun u hu => List.mem_cons_of_mem t (hsub u hu)⟩
          rw [List.map_cons, List.reverse_cons, List.append_assoc]
          exact hpairwise

/-- The modifiers of a line are its first tokens. -/
theorem eq_append_of_readModifiers {seen : List Modifier} {tokens rest : List Token} {ms : List (Modifier × Token)}
    (h : readModifiers seen tokens = .ok (ms, rest)) : tokens = ms.map Prod.snd ++ rest := by
  induction tokens generalizing seen ms rest with
  | nil =>
    cases h
    rfl
  | cons t tokens ih =>
    unfold readModifiers at h
    split at h
    · cases h
      rfl
    · split at h
      · cases h
      · split at h
        · cases h
        · obtain ⟨⟨ms', rest'⟩, hrest, heq⟩ := map_eq_ok h
          cases heq
          rw [List.map_cons, List.cons_append, ← ih hrest]

/-- Both directions at once are never asked for. -/
theorem pairwise_toList_ofList {l : List Modifier} (h : l.Pairwise Apart) :
    (Modifiers.ofList l).toList.Pairwise Apart := by
  have hboth : ¬ ((Modifiers.ofList l).contains .noback = true ∧
      (Modifiers.ofList l).contains .nofor = true) := by
    intro ⟨hnoback, nofor⟩
    rw [Modifiers.contains_ofList] at hnoback nofor
    have hapart := h.forall hnoback nofor (by decide)
    exact absurd hapart (by decide)
  generalize Modifiers.ofList l = ms at hboth
  obtain ⟨noback, nofor, nocross⟩ := ms
  revert hboth
  cases noback <;> cases nofor <;> cases nocross <;> decide

theorem modifierOf?_eq (ht : t.IsPlain w) (h : IsHeadWord w) :
    modifierOf? t = Modifier.ofText? w := by
  unfold modifierOf?
  rw [if_pos (ht.isWord h), ht.lower_eq h]

theorem modifierOf?_label {m : Modifier} (ht : t.IsPlain m.label) : modifierOf? t = some m := by
  rw [modifierOf?_eq ht m.isHeadWord_label]
  cases m <;> decide

/-- Written modifiers are read back. -/
theorem readModifiers_append {seen ms : List Modifier} {ts : List Token} (rest : List Token)
    (h : List.Forall₂ (fun t m => Token.IsPlain (Modifier.label m) t) ts ms)
    (hapart : (ms.reverse ++ seen).Pairwise Apart) (ht : modifierOf? t = none) :
    ∃ read, readModifiers seen (ts ++ t :: rest) = .ok (read, t :: rest) ∧ read.map Prod.fst = ms := by
  induction h generalizing seen with
  | nil =>
    refine ⟨[], ?_, rfl⟩
    rw [List.nil_append, readModifiers, ht]
  | @cons u m ts ms hu _ ih =>
    rw [List.reverse_cons, List.append_assoc] at hapart
    obtain ⟨read, hread, hmap⟩ := ih hapart
    have hseen : (m :: seen).Pairwise Apart := (List.pairwise_append.mp hapart).2.1
    obtain ⟨hmem, hclash⟩ := not_mem_of_apart (List.pairwise_cons.mp hseen).1
    refine ⟨(m, u) :: read, ?_, by rw [List.map_cons, hmap]⟩
    rw [List.cons_append, readModifiers, modifierOf?_label hu]
    dsimp only
    rw [if_neg hmem, if_neg hclash]
    show (readModifiers ([m] ++ seen) _).map _ = _
    rw [hread]
    rfl

/-- The modifiers of a directive are apart from each other. -/
theorem pairwise_modifiers {tokens rest : List Token} {ms : List (Modifier × Token)}
    (h : readModifiers [] tokens = .ok (ms, rest)) : (Modifiers.ofList (ms.map Prod.fst)).toList.Pairwise Apart := by
  have hpairwise := (pairwise_of_readModifiers .nil h).1
  rw [List.append_nil] at hpairwise
  exact pairwise_toList_ofList (List.pairwise_reverse.mp (hpairwise.imp fun hab => Std.Symm.symm _ _ hab))

/-! ## The opcode -/

theorem lookup_eq_some {v : Vocabulary} {name : Text} {shape : Shape} (h : v.lookup name = some shape) :
    shape ∈ v ∧ shape.name = name :=
  ⟨List.mem_of_find?_eq_some h, by simpa using List.find?_some h⟩

theorem readOpcode_eq_ok {v : Vocabulary} {ms : List (Modifier × Token)} {shape : Shape}
    (h : readOpcode v ms t = .ok shape) :
    shape ∈ v ∧ (ms = [] ∨ shape.takesModifiers = true) := by
  unfold readOpcode at h
  split at h
  · cases h
  · rename_i shape' hlookup
    have hmem : shape' ∈ v := by
      split at hlookup
      · cases hlookup
      · exact (lookup_eq_some hlookup).1
    cases ms with
    | nil =>
      cases h
      exact ⟨hmem, .inl rfl⟩
    | cons m ms =>
      dsimp only at h
      by_cases htakes : shape'.takesModifiers = true
      · rw [if_pos htakes] at h
        cases h
        exact ⟨hmem, .inr htakes⟩
      · rw [if_neg htakes] at h
        cases h

theorem readOpcode_of_lookup {v : Vocabulary} {ms : List (Modifier × Token)} {shape : Shape} (hkind : t.kind ≠ .quoted)
    (hlookup : v.lookup t.text.lower = some shape) (htakes : ms = [] ∨ shape.takesModifiers = true) :
    readOpcode v ms t = .ok shape := by
  unfold readOpcode
  rw [if_neg hkind, hlookup]
  cases ms with
  | nil => rfl
  | cons m ms =>
    rcases htakes with hnil | htakes
    · cases hnil
    · dsimp only
      rw [if_pos htakes]

theorem readOpcode_eq {v : Vocabulary} {ms : List (Modifier × Token)} {shape : Shape}
    (ht : t.IsPlain shape.name) (hname : IsHeadWord shape.name) (hlookup : v.lookup shape.name = some shape)
    (htakes : ms = [] ∨ shape.takesModifiers = true) : readOpcode v ms t = .ok shape := by
  refine readOpcode_of_lookup ?_ ?_ htakes
  · rw [ht.isWord hname]
    decide
  · rw [ht.lower_eq hname, hlookup]

/-! ## The whole line -/

variable {d : Dialect} {tokens : List Token} {eol : Span} {comment : Option Text}

/-- What an opcode reads from the tokens after it. -/
inductive ReadsOperands (d : Dialect) (shape : Shape) (name eol : Span) (tokens : List Token) :
    List (Value Span) → Option (Expression Span) → Prop
  | expression {e : Expression Span} :
      shape.isMultipart = true →
      Expression.parse d shape.name ⟨tokens.flatMap Token.splitOperators, 0, eol⟩ = .ok e →
      ReadsOperands d shape name eol tokens [] (some e)
  | arguments {vs : List (Value Span)} :
      shape.isMultipart = false → readArguments d.dotAlphabet shape name eol tokens = .ok vs →
      ReadsOperands d shape name eol tokens vs none

/-- What a directive was put together from. -/
theorem parse_eq_ok {r : Directive Span} (h : parse d tokens eol comment = .ok r) :
    ∃ (ms : List (Modifier × Token)) (t : Token) (arguments : List Token) (shape : Shape),
      readModifiers [] tokens = .ok (ms, t :: arguments) ∧ readOpcode d.vocabulary ms t = .ok shape ∧
      r.opcode = shape.name ∧ r.modifiers = .ofList (ms.map Prod.fst) ∧ r.comment = comment ∧
      ReadsOperands d shape t.span eol arguments r.args r.expression := by
  unfold parse at h
  obtain ⟨⟨ms, rest⟩, hms, h⟩ := bind_eq_ok h
  have hmodifiers := mapError_eq_ok hms
  cases tokens with
  | nil => cases h
  | cons first more =>
    cases rest with
    | nil => cases h
    | cons t arguments =>
      obtain ⟨shape, hshape, h⟩ := bind_eq_ok h
      have hopcode := mapError_eq_ok hshape
      refine ⟨ms, t, arguments, shape, hmodifiers, hopcode, ?_⟩
      dsimp only at h
      by_cases hmultipart : shape.isMultipart = true
      · rw [if_pos hmultipart] at h
        obtain ⟨e, he, h⟩ := bind_eq_ok h
        cases h
        exact ⟨rfl, rfl, rfl, .expression hmultipart he⟩
      · rw [if_neg hmultipart] at h
        obtain ⟨args, hargs, h⟩ := bind_eq_ok h
        cases h
        exact ⟨rfl, rfl, rfl, .arguments (by simpa using hmultipart) hargs⟩

/-- The errors about the words of a line before the arguments. -/
inductive IsHeadError (tokens : List Token) : ParseError → Prop
  | repeated {t : Token} {m : Modifier} : t ∈ tokens →
      IsHeadError tokens (headError (.repeatedModifier t.text) m.label t.span (some t.text))
  | clashing {t : Token} {m : Modifier} : t ∈ tokens →
      IsHeadError tokens (headError .clashingModifiers m.label t.span (some t.text))
  | unknown {t : Token} : t ∈ tokens → IsHeadError tokens (.unknownOpcode t.text t.span ["opcode"])
  | refused {t : Token} {name : Text} : t ∈ tokens →
      IsHeadError tokens (headError (.modifierRefused name t.text) name t.span (some t.text))

theorem IsHeadError.mono {tokens' : List Token} {e : ParseError} (h : IsHeadError tokens e) (hsub : tokens ⊆ tokens') :
    IsHeadError tokens' e := by
  cases h with
  | repeated ht => exact .repeated (hsub ht)
  | clashing ht => exact .clashing (hsub ht)
  | unknown ht => exact .unknown (hsub ht)
  | refused ht => exact .refused (hsub ht)

theorem isHeadError_of_readModifiers {seen : List Modifier} {e : ParseError} (h : readModifiers seen tokens = .error e) :
    IsHeadError tokens e := by
  induction tokens generalizing seen with
  | nil => cases h
  | cons t ts ih =>
    unfold readModifiers at h
    split at h
    · cases h
    · split at h
      · cases h
        exact .repeated List.mem_cons_self
      · split at h
        · cases h
          exact .clashing List.mem_cons_self
        · exact (ih (map_eq_error h)).mono (List.subset_cons_self t ts)

theorem isHeadError_of_readOpcode {ms : List (Modifier × Token)} {t : Token} {e : ParseError}
    (h : readOpcode d.vocabulary ms t = .error e) (rest : List Token) : IsHeadError (ms.map Prod.snd ++ t :: rest) e := by
  unfold readOpcode at h
  split at h
  · cases h
    exact .unknown (List.mem_append_right _ List.mem_cons_self)
  · split at h
    · split at h
      · cases h
      · cases h
        exact .refused List.mem_cons_self
    · cases h

/-- The refusals of a directive: its head or what follows the head is refused, or it has no head. -/
inductive IsRefused (d : Dialect) (tokens : List Token) (eol : Span) : Failure → Prop
  | head {e : ParseError} : IsHeadError tokens e → IsRefused d tokens eol (.parse e)
  | missing {opcode : Text} : IsRefused d tokens eol (.parse (headError .missingOpcode opcode eol none))
  | expression {ms : List (Modifier × Token)} {t : Token} {arguments : List Token} {shape : Shape} {f : Failure} :
      tokens = ms.map Prod.snd ++ t :: arguments → shape ∈ d.vocabulary →
      Expression.parse d shape.name ⟨arguments.flatMap Token.splitOperators, 0, eol⟩ = .error f →
      IsRefused d tokens eol f
  | arguments {ms : List (Modifier × Token)} {t : Token} {arguments : List Token} {shape : Shape} {f : Failure} :
      tokens = ms.map Prod.snd ++ t :: arguments → shape ∈ d.vocabulary →
      readArguments d.dotAlphabet shape t.span eol arguments = .error f → IsRefused d tokens eol f

/-- What refuses a directive is what refuses one of its parts. -/
theorem isRefused_of_parse {f : Failure} (h : parse d tokens eol comment = .error f) : IsRefused d tokens eol f := by
  unfold parse at h
  rcases bind_eq_error h with h | ⟨⟨ms, rest⟩, hms, h⟩
  · obtain ⟨e, he, rfl⟩ := mapError_eq_error h
    exact .head (isHeadError_of_readModifiers he)
  · have hsplit := eq_append_of_readModifiers (mapError_eq_ok hms)
    cases tokens with
    | nil =>
      cases h
      exact .missing
    | cons first more =>
      cases rest with
      | nil =>
        cases h
        exact .missing
      | cons t arguments =>
        rcases bind_eq_error h with h | ⟨shape, hshape, h⟩
        · obtain ⟨e, he, rfl⟩ := mapError_eq_error h
          exact .head (hsplit ▸ isHeadError_of_readOpcode he arguments)
        · have hmem := (readOpcode_eq_ok (mapError_eq_ok hshape)).1
          dsimp only at h
          split at h
          · rcases bind_eq_error h with h | ⟨e, -, h⟩
            · exact .expression hsplit hmem h
            · cases h
          · rcases bind_eq_error h with h | ⟨args, -, h⟩
            · exact .arguments hsplit hmem h
            · cases h

/-- A directive is put together from what its parts are read as. -/
theorem exists_parse_eq {ms : List (Modifier × Token)} {arguments : List Token} {shape : Shape}
    (hmodifiers : readModifiers [] tokens = .ok (ms, t :: arguments))
    (hopcode : readOpcode d.vocabulary ms t = .ok shape) {args : List (Value Span)}
    {expression : Option (Expression Span)}
    (h : ReadsOperands d shape t.span eol arguments args expression) :
    ∃ span, parse d tokens eol comment =
      .ok ⟨shape.name, args, expression, .ofList (ms.map Prod.fst), span, comment⟩ := by
  cases tokens with
  | nil => cases hmodifiers
  | cons first more =>
    refine ⟨coverTokens first more, ?_⟩
    unfold parse
    rw [hmodifiers]
    show (readOpcode d.vocabulary ms t).mapError Failure.parse >>= _ = _
    rw [hopcode]
    cases h with
    | expression hmultipart he =>
      show (if shape.isMultipart = true then _ else _) = _
      rw [if_pos hmultipart, he]
      rfl
    | arguments hmultipart hargs =>
      show (if shape.isMultipart = true then _ else _) = _
      rw [if_neg (by rw [hmultipart]; decide), hargs]
      rfl

end Directive
end BrailleTable
