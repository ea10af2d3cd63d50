/-
Lines with opcodes that a configuration adds.

The name of such an opcode may be any word without white space, a number or punctuation among them, and it is written in
lower case.  The lexer cuts the written line into modifiers, the opcode and the arguments, except that an empty argument
is lost, and the opcode is taken for what it was.  So the directive is read back exactly if its arguments are.
-/
import BrailleTable.Proofs.Directive.Mode
import BrailleTable.Proofs.Directive.Slots
import BrailleTable.Proofs.Table.RoundTrip

namespace BrailleTable

open Value (dotDigits IsArgument)

namespace Lexer

variable {lx lx' : Lexer} {line : LogicalLine} {t : Token} {ts : List Token}

/-! ## How tokens start -/

/-- A token does not start with the comment mark, and with a quote only if it is quoted. -/
def Begins (mark : Text) (t : Token) : Prop :=
  ∃ c, t.text.head? = some c ∧ [c] ≠ mark ∧ (t.kind ≠ .quoted → c ≠ '"')

theorem begins_of_readToken {mark : Text} {c : CodePoint} {rest : Text} (hdrop : line.text.drop lx.index = c :: rest)
    (hmark : [c] ≠ mark) (h : lx.readToken line c rest = .ok (t, lx')) : Begins mark t := by
  have hhead : ∀ {stop : Nat}, lx.index < stop → (line.text.slice lx.index stop).head? = some c := by
    intro stop hlt
    obtain ⟨k, hk⟩ : ∃ k, stop - lx.index = k + 1 := ⟨stop - lx.index - 1, by omega⟩
    rw [Text.slice_eq, hdrop, hk, List.take_succ_cons, List.head?_cons]
  cases cuts_of_readToken h with
  | parenthesis _ hparen =>
    refine ⟨c, hhead (Nat.lt_succ_self _), hmark, fun _ => ?_⟩
    rintro rfl
    exact absurd hparen (by decide)
  | quoted _ hquoted =>
    have hlt := (readQuoted_eq_ok hquoted).1
    exact ⟨c, hhead (by omega), hmark, fun hkind => absurd rfl hkind⟩
  | word hquote => exact ⟨c, hhead (by rw [List.length_cons]; omega), hmark, fun _ => hquote⟩

theorem begins_of_read (hline : lx.line = some line) (h : lx.read = (.ok (some t), lx')) :
    Begins lx.rules.commentMark t := by
  obtain ⟨blanks, c, rest, hdrop, -, -, hmark, hread⟩ := readToken_of_read hline h
  exact begins_of_readToken (Text.drop_of_drop_eq hdrop) hmark hread

theorem Takes.begins (h : Takes lx ts lx') (hline : lx.line = some line) (hpeeked : lx.peeked = none) :
    ∀ t ∈ ts, Begins lx.rules.commentMark t := by
  induction h with
  | nil => exact fun t ht => absurd ht List.not_mem_nil
  | @cons lx lx₁ lx₂ t ts hnext _ ih =>
    rw [next_eq_read hpeeked] at hnext
    obtain ⟨-, hline₁, hpeeked₁, -⟩ := read_eq_ok_some hline hnext
    have hrules : lx₁.rules = lx.rules := by
      have hsame := rules_read lx
      rwa [hnext] at hsame
    rw [List.forall_mem_cons, ← hrules]
    exact ⟨hrules ▸ begins_of_read hline hnext, ih hline₁ (hpeeked₁.trans hpeeked)⟩

theorem begins_of_tokenize (h : lx.tokenize line = (.ok ts, lx')) : ∀ t ∈ ts, Begins lx.rules.commentMark t := by
  obtain ⟨lx'', htakes, -⟩ := exists_takes_of_tokenize h
  have hline : (lx.reset line).line = some line := rfl
  exact htakes.begins hline rfl

/-! ## The name of an opcode -/

/-- The lower case of an unquoted token is a word of the lexer's again. -/
theorem isWord_lower {rules : LexRules} (hrules : rules.commentMark = "#") (hcut : t.CutFrom line)
    (hkind : t.kind ≠ .quoted) (hbegins : Begins "#" t) : IsWord rules false t.text.lower := by
  obtain ⟨c, hhead, hmark, hquote⟩ := hbegins
  obtain ⟨rest, htext⟩ := List.head?_eq_some_iff.mp hhead
  obtain ⟨first, hlower, hne, hfirst⟩ := Text.lowerAfter_cons [] c rest
  have hsplit : t.text.lower = first ++ Text.lowerAfter [c] rest := by
    rw [htext]
    exact hlower
  have hin : false = true → ∀ d ∈ t.text.lower, isParenthesis d = false := fun h => by cases h
  refine ⟨?_, fun d hd => ?_, hin, fun d hd => ?_⟩
  · rw [hsplit]
    exact List.append_ne_nil_of_left_ne_nil hne _
  · rcases (Text.mem_lowerAfter hd).2 with hmem | hvisible
    · exact (hcut.plain hkind).2.2 d hmem
    · exact hvisible.2
  · rw [hsplit, List.head?_append_of_ne_nil _ hne] at hd
    rcases (hfirst d (List.mem_of_mem_head? hd)).2 with rfl | hvisible
    · refine ⟨hquote hkind, ?_⟩
      rw [hrules]
      exact hmark
    · have hlow := hvisible.1
      refine ⟨?_, ?_⟩
      · rintro rfl
        exact absurd hlow (by decide)
      · rw [hrules]
        intro heq
        rw [(List.cons.inj heq).1] at hlow
        exact absurd hlow (by decide)

end Lexer

namespace Directive

variable {t u : Token} {line : LogicalLine}

theorem head?_label (m : Modifier) : m.label.head? = some ('n' : CodePoint) := by
  cases m <;> rfl

/-- What is no modifier is none in lower case either: a token that is in lower case one is a word. -/
theorem modifierOf?_lower (hcut : t.CutFrom line) (hkind : t.kind ≠ .quoted) (h : modifierOf? t = none)
    (hu : u.IsPlain t.text.lower) : modifierOf? u = none := by
  cases hm : modifierOf? u with
  | none => rfl
  | some m =>
    have hlabel : Modifier.ofText? t.text.lower = some m := by
      unfold modifierOf? at hm
      split at hm
      · rwa [hu.text_eq, Text.lower_lower] at hm
      · cases hm
    have hname : t.text.lower = m.label := by
      have hfound := List.find?_some hlabel
      exact (of_decide_eq_true hfound).symm
    obtain ⟨c, rest, htext⟩ := List.exists_cons_of_ne_nil (show t.text ≠ [] by
      intro hnil
      rw [hnil] at hname
      have hhead := head?_label m
      rw [← hname] at hhead
      cases hhead)
    have hhead : (Text.lower (c :: rest)).head? = some ('n' : CodePoint) := by
      rw [← htext, hname]
      exact head?_label m
    have hword : t.kind = .word := by
      rw [(hcut.plain hkind).1, htext]
      rcases Text.eq_of_head?_lower hhead with rfl | rfl
      · exact TokenKind.ofText_eq_word List.mem_cons_self (by decide) (by decide) List.mem_cons_self (by decide +kernel)
      · exact TokenKind.ofText_eq_word List.mem_cons_self (by decide) (by decide) List.mem_cons_self (by decide +kernel)
    unfold modifierOf? at h
    rw [if_pos hword, hlabel] at h
    cases h

/-! ## Written lines -/

open Lexer (Takes Ends IsWord)

variable {lx : Lexer} {l : LogicalLine} {rules : LexRules}

theorem join_cons_eq_flatMap (w : Text) (texts : List Text) :
    Text.join " " (w :: texts) = w ++ texts.flatMap (Text.ofString " " ++ ·) := by
  induction texts generalizing w with
  | nil => exact (List.append_nil w).symm
  | cons text texts ih =>
    rw [Text.join_cons (List.cons_ne_nil text texts), ih, List.flatMap_cons, List.append_assoc, List.append_assoc]

theorem ends_arguments (texts : List Text) (comment : Option Text) :
    Ends false (texts.flatMap (Text.ofString " " ++ ·) ++ trailer .standard comment) := by
  cases texts with
  | nil => exact ends_trailer false comment
  | cons w texts => exact Lexer.ends_blank _

/-- The lexer takes these tokens, and then the line is at its end. -/
def Drains (lx : Lexer) (ts : List Token) : Prop := ∃ lx₁ lx₂, Takes lx ts lx₁ ∧ lx₁.next = (.ok none, lx₂)

theorem Drains.of_next_eq {lx' : Lexer} {ts : List Token} (h : Drains lx' ts) (hnext : lx.next = lx'.next) :
    Drains lx ts := by
  obtain ⟨lx₁, lx₂, htakes, hend⟩ := h
  cases ts with
  | nil =>
    cases htakes
    exact ⟨lx, lx₂, .nil lx, hnext.trans hend⟩
  | cons t ts => exact ⟨lx₁, lx₂, htakes.of_next_eq (List.cons_ne_nil t ts) hnext, hend⟩

/-- Written arguments are cut apart, and the empty ones are lost. -/
theorem exists_drains_arguments (hmark : rules.commentMark = "#") {texts : List Text}
    (htexts : ∀ w ∈ texts, w = [] ∨ IsArgument w) {comment : Option Text} (hcomment : ∀ text ∈ comment, text.IsStripped)
    (hat : lx.At rules l false false (texts.flatMap (Text.ofString " " ++ ·) ++ trailer .standard comment)) :
    ∃ us, Drains lx us ∧ List.Forall₂ (fun u w => Token.IsPlain w u) us (texts.filter (· ≠ [])) := by
  induction texts generalizing lx with
  | nil =>
    obtain ⟨lx', hnext, -⟩ := next_trailer hmark hat hcomment
    exact ⟨[], ⟨lx, lx', .nil lx, hnext⟩, .nil⟩
  | cons w texts ih =>
    rw [List.forall_mem_cons] at htexts
    rw [List.flatMap_cons, List.append_assoc, List.append_assoc] at hat
    obtain ⟨lx₁, hat₁, hblank⟩ : ∃ lx₁ : Lexer, lx₁.At rules l false false
        (w ++ (texts.flatMap (Text.ofString " " ++ ·) ++ trailer .standard comment)) ∧ lx.next = lx₁.next :=
      hat.next_blank (by decide)
    rcases htexts.1 with rfl | hw
    · -- only the blank before an empty argument is written, and the lexer skips it
      obtain ⟨us, hdrains, hus⟩ := ih htexts.2 hat₁
      exact ⟨us, hdrains.of_next_eq hblank, hus⟩
    · obtain ⟨u, hnext, hu, hdrop⟩ := hat₁.next_word (hw.isWord hmark) (ends_arguments texts comment)
      obtain ⟨us, ⟨lx₂, lx₃, htakes, hend⟩, hus⟩ := ih htexts.2 (hat₁.note_argument hdrop)
      have hdrains : Drains lx₁ (u :: us) := ⟨lx₂, lx₃, .cons hnext htakes, hend⟩
      refine ⟨u :: us, hdrains.of_next_eq hblank, ?_⟩
      rw [List.filter_cons_of_pos (by simpa using hw.ne_nil)]
      exact .cons hu hus

/-- The tokens of a written line: modifiers, the opcode and its arguments. -/
theorem exists_tokenize_added {d : Dialect} (hmark : (Lexer.ofDialect d).rules.commentMark = "#") {w : Text}
    (hword : IsWord (Lexer.ofDialect d).rules false w)
    (hopcode : ∀ u : Token, u.IsPlain w → modifierOf? u = none ∧
      u.text.lower ∉ (Lexer.ofDialect d).rules.expressionOpcodes)
    {texts : List Text} (htexts : ∀ w ∈ texts, w = [] ∨ IsArgument w) (ms : List Modifier) {comment : Option Text}
    (hcomment : ∀ text ∈ comment, text.IsStripped)
    (hline : l.text = Text.join " " (ms.map Modifier.label ++ w :: texts) ++ trailer .standard comment) :
    ∃ ts u us lx, (Lexer.ofDialect d).tokenize l = (.ok (ts ++ u :: us), lx) ∧
      List.Forall₂ (fun t m => Token.IsPlain (Modifier.label m) t) ts ms ∧ u.IsPlain w ∧
      List.Forall₂ (fun u w => Token.IsPlain w u) us (texts.filter (· ≠ [])) := by
  have hlabels : ∀ m : Modifier, m.label ∈ (Lexer.ofDialect d).rules.modifiers := by
    intro m
    rw [Lexer.modifiers_ofDialect]
    cases m <;> decide
  have hat : ((Lexer.ofDialect d).reset l).At (Lexer.ofDialect d).rules l true false
      (Text.join " " (ms.map Modifier.label ++ w :: texts) ++ trailer .standard comment) :=
    ⟨rfl, rfl, rfl, rfl, rfl, rfl, hline⟩
  obtain ⟨ts, vs, lx₁, htakes, hts, -, u, us, rfl, hu, hus, lx₂, hend⟩ :=
    takes_modifiers hmark hlabels (Q := fun vs lx' => ∃ u us, vs = u :: us ∧ u.IsPlain w ∧
      List.Forall₂ (fun u w => Token.IsPlain w u) us (texts.filter (· ≠ [])) ∧ ∃ lx₂, lx'.next = (.ok none, lx₂))
      (List.cons_ne_nil _ _) (fun lx hlx => by
        rw [join_cons_eq_flatMap, List.append_assoc] at hlx
        obtain ⟨u, hnext, hu, hdrop⟩ := hlx.next_word hword (ends_arguments texts comment)
        obtain ⟨hnone, hplain⟩ := hopcode u hu
        have hname : u.kind = .word → u.text.lower ∉ (Lexer.ofDialect d).rules.modifiers := by
          intro hkind hmem
          obtain ⟨m, hm⟩ := (exists_modifierOf?_iff d u).mpr ⟨hkind, hmem⟩
          rw [hnone] at hm
          cases hm
        have hat₁ := hlx.note_opcode hname hdrop
        rw [decide_eq_false fun hboth => hplain hboth.2] at hat₁
        obtain ⟨us, ⟨lx₁, lx₂, htakes, hend⟩, hus⟩ := exists_drains_arguments hmark htexts hcomment hat₁
        exact ⟨u :: us, lx₁, List.cons_ne_nil _ _, .cons hnext htakes, u, us, rfl, hu, hus, lx₂, hend⟩) hat
  exact ⟨ts, u, us, lx₂, Lexer.tokenize_of_takes htakes hend, hts, hu, hus⟩

/-! ## Reading back -/

/-- Where modifiers and opcode are read back, the directive is if the arguments are. -/
theorem exists_parse_iff {d : Dialect} {r : Directive Span} {shape : Shape} {ts us : List Token} {u : Token}
    (hapart : r.modifiers.toList.Pairwise Apart)
    (hts : List.Forall₂ (fun t m => Token.IsPlain (Modifier.label m) t) ts r.modifiers.toList)
    (hnone : modifierOf? u = none) (hkind : u.kind ≠ .quoted) (hlookup : d.vocabulary.lookup u.text.lower = some shape)
    (htakes : r.modifiers.toList = [] ∨ shape.takesModifiers = true) (hname : shape.name = r.opcode)
    (hmultipart : shape.isMultipart = false) (hexpression : r.expression = none) (eol : Span) (comment : Option Text) :
    (∃ r', parse d (ts ++ u :: us) eol comment = .ok r' ∧ r'.bare = r.bare) ↔
      ∃ vs, readSlots d.dotAlphabet shape.name u.span eol 1 shape.slots us = .ok (vs, []) ∧
        vs.map Value.bare = r.args.map Value.bare := by
  have hreverse : (r.modifiers.toList.reverse ++ []).Pairwise Apart := by
    rw [List.append_nil, List.pairwise_reverse]
    exact hapart.imp fun hab => Std.Symm.symm _ _ hab
  obtain ⟨read, hread, hmap⟩ := readModifiers_append us hts hreverse hnone
  have hopcode : readOpcode d.vocabulary read u = .ok shape := by
    refine readOpcode_of_lookup hkind hlookup (htakes.imp_left fun hnil => ?_)
    rw [hnil] at hmap
    exact List.map_eq_nil_iff.mp hmap
  constructor
  · rintro ⟨r', hparse, hbare⟩
    obtain ⟨ms, t, arguments, shape', hms, hshape', -, -, -, hoperands⟩ := parse_eq_ok hparse
    rw [hread] at hms
    cases hms
    rw [hopcode] at hshape'
    cases hshape'
    have hargs : r'.args.map Value.bare = r.args.map Value.bare := congrArg Directive.args hbare
    generalize r'.args = args at hoperands hargs
    generalize r'.expression = expression at hoperands
    cases hoperands with
    | expression hmultipart' =>
      rw [hmultipart] at hmultipart'
      cases hmultipart'
    | arguments _ harguments => exact ⟨args, readArguments_eq_ok_iff.mp harguments, hargs⟩
  · rintro ⟨vs, hslots, hargs⟩
    have harguments := readArguments_eq_ok_iff.mpr hslots
    obtain ⟨span, hparse⟩ : ∃ span, parse d (ts ++ u :: us) eol comment = .ok ⟨_, _, _, _, span, comment⟩ :=
      exists_parse_eq hread hopcode (.arguments hmultipart harguments)
    refine ⟨_, hparse, ?_⟩
    unfold bare
    rw [hmap, Modifiers.ofList_toList, hname, hargs, hexpression]

/-- What is known of a directive that an opcode with arguments has read from a line. -/
structure IsReadBy (d : Dialect) (shape : Shape) (line : LogicalLine) (r : Directive Span) : Prop where
  lookup : d.vocabulary.lookup r.opcode = some shape
  lower : r.opcode.lower = r.opcode
  isWord : IsWord (Lexer.ofDialect d).rules false r.opcode
  no_modifier : ∀ u : Token, u.IsPlain r.opcode → modifierOf? u = none
  apart : r.modifiers.toList.Pairwise Apart
  takes : r.modifiers.toList = [] ∨ shape.takesModifiers = true
  expression : r.expression = none
  slots : ∃ name eol tokens, (∀ t ∈ tokens, t.CutFrom line) ∧
    readSlots d.dotAlphabet shape.name name eol 1 shape.slots tokens = .ok (r.args, [])
  comment : Lexer.CommentIn line r.comment

theorem isReadBy_of_parse {d : Dialect} (hmark : (Lexer.ofDialect d).rules.commentMark = "#") {shape : Shape}
    {r : Directive Span} {tokens : List Token} {eol : Span} {comment : Option Text}
    (hcut : ∀ t ∈ tokens, t.CutFrom line) (hbegins : ∀ t ∈ tokens, Lexer.Begins "#" t)
    (hcomment : Lexer.CommentIn line comment) (h : parse d tokens eol comment = .ok r)
    (hlookup : d.vocabulary.lookup r.opcode = some shape) (hmultipart : shape.isMultipart = false) :
    IsReadBy d shape line r := by
  obtain ⟨ms, t, arguments, shape', hmodifiers, hopcode, hname, hset, rfl, hoperands⟩ := parse_eq_ok h
  have hsub := (pairwise_of_readModifiers .nil hmodifiers).2
  have htakes := (readOpcode_eq_ok hopcode).2
  obtain ⟨hkind, hfound⟩ := lookup_of_readOpcode hopcode
  have htext : r.opcode = t.text.lower := hname.trans (lookup_eq_some hfound).2
  rw [htext, hfound] at hlookup
  cases hlookup
  have ht := hcut t (hsub t List.mem_cons_self)
  have hnone := (modifierOf?_of_readModifiers hmodifiers).2 t rfl
  have hread : r.expression = none ∧
      readArguments d.dotAlphabet shape t.span eol arguments = .ok r.args := by
    generalize r.args = args at hoperands
    generalize r.expression = expression at hoperands
    cases hoperands with
    | expression hmultipart' =>
      rw [hmultipart] at hmultipart'
      cases hmultipart'
    | arguments _ harguments => exact ⟨rfl, harguments⟩
  exact {
    lookup := by rw [htext, hfound]
    lower := by rw [htext, Text.lower_lower]
    isWord := htext ▸ Lexer.isWord_lower hmark ht hkind (hbegins t (hsub t List.mem_cons_self))
    no_modifier := fun u hu => modifierOf?_lower ht hkind hnone (htext ▸ hu)
    apart := by
      rw [hset]
      exact pairwise_modifiers hmodifiers
    takes := by
      refine htakes.imp_left fun hnil => ?_
      rw [hset, hnil]
      rfl
    expression := hread.1
    slots := ⟨t.span, eol, arguments, fun u hu => hcut u (hsub u (List.mem_cons_of_mem t hu)),
      readArguments_eq_ok_iff.mp hread.2⟩
    comment := hcomment }

/-- Written words have no white space in them, and blanks stand between them. -/
theorem mem_join {ws : List Text} (h : ∀ w ∈ ws, ∀ c ∈ w, c.isBlank = false) :
    ∀ c ∈ Text.join " " ws, c = ' ' ∨ c.isBlank = false := by
  induction ws with
  | nil => exact fun c hc => absurd hc List.not_mem_nil
  | cons w ws ih =>
    rw [List.forall_mem_cons] at h
    intro c hc
    cases ws with
    | nil => exact .inr (h.1 c hc)
    | cons w' ws =>
      rw [Text.join_cons (List.cons_ne_nil w' ws), List.mem_append, List.mem_append] at hc
      rcases hc with (hc | hc) | hc
      · exact .inr (h.1 c hc)
      · exact .inl (List.mem_singleton.mp hc)
      · exact ih h.2 c hc

section

variable {shapes : List Shape} {shape : Shape} {r : Directive Span}

theorem IsReadBy.write_eq (h : IsReadBy (Dialect.standard.withShapes shapes) shape line r)
    (hfilename : ∀ slot ∈ shape.slots, .filename ∉ slot.kinds) :
    r.write (Dialect.standard.withShapes shapes) =
      .ok (Text.join " " (r.modifiers.toList.map Modifier.label ++ r.opcode :: r.args.map (Value.write '#' [])) ++
        trailer .standard r.comment) := by
  refine Directive.write_eq (d := .withShapes .standard shapes) ?_
  unfold writeOperands
  rw [h.expression]
  dsimp only
  rw [h.lookup]
  refine congrArg Except.ok (writeArgs_eq_map (fun ks hks => ?_) r.args)
  obtain ⟨slot, hslot, rfl⟩ := exists_of_mem_slotKinds hks
  exact hfilename slot hslot

/-- The written line is one line, and all of it is looked at. -/
theorem IsReadBy.parseLine_eq {d : Dialect} (h : IsReadBy d shape line r) (hfeed : ('\n' : CodePoint) ∉ line.text)
    {texts : List Text} (htexts : ∀ w ∈ texts, w = [] ∨ IsArgument w) {text : Text}
    (htext : text = Text.join " " (r.modifiers.toList.map Modifier.label ++ r.opcode :: texts) ++
      trailer .standard r.comment) (n : Int) :
    Table.parseLine d text n = (Table.readLine d (.ofDialect d) (.single text ⟨n, 1, 0⟩)).1 := by
  have hwords : ∀ w ∈ r.modifiers.toList.map Modifier.label ++ r.opcode :: texts, ∀ c ∈ w, c.isBlank = false := by
    intro w hw c hc
    rcases List.mem_append.mp hw with hw | hw
    · obtain ⟨m, -, rfl⟩ := List.mem_map.mp hw
      exact (m.isHeadWord_label.2.2.2 c hc).1
    · rcases List.mem_cons.mp hw with rfl | hw
      · exact h.isWord.blank c hc
      · rcases htexts w hw with rfl | hw
        · cases hc
        · exact hw.blank c hc
  have hjoin := mem_join hwords
  -- an empty last argument leaves a blank at the end of the line, but never a carriage return
  refine Table.parseLine_eq ?_ ?_ n
  · rw [htext, List.mem_append, not_or]
    refine ⟨fun hmem => ?_, not_mem_trailer fun comment hcomment hmem => hfeed ((h.comment comment hcomment).2 _ hmem)⟩
    exact absurd (hjoin _ hmem) (by decide)
  · intro hlast
    rw [htext] at hlast
    rcases trailer_cases .standard r.comment with ⟨htrailer, -⟩ | ⟨comment, hcomment, hne, htrailer⟩
    · rw [htrailer, List.append_nil] at hlast
      exact absurd (hjoin _ (List.mem_of_getLast? hlast)) (by decide)
    · rw [htrailer, ← List.append_assoc, List.getLast?_append_of_ne_nil _ hne] at hlast
      exact absurd ((h.comment comment hcomment).1.last _ hlast) (by decide)

/-- The directive is read back from its line exactly if every argument is legible in its slot. -/
theorem IsReadBy.exists_parseLine_iff (h : IsReadBy (Dialect.standard.withShapes shapes) shape line r)
    (horderly : (Dialect.standard.withShapes shapes).vocabulary.IsOrderly) (hplain : Slot.ArePlain shape.slots)
    (hmultipart : shape.isMultipart = false) (hfilename : ∀ slot ∈ shape.slots, .filename ∉ slot.kinds)
    (hfeed : ('\n' : CodePoint) ∉ line.text) {text : Text}
    (htext : text =
      Text.join " " (r.modifiers.toList.map Modifier.label ++ r.opcode :: r.args.map (Value.write '#' [])) ++
        trailer .standard r.comment) (n : Int) :
    (∃ r', Table.parseLine (Dialect.standard.withShapes shapes) text n = .ok (some r') ∧ r'.bare = r.bare) ↔
      ∀ p ∈ (slotKinds shape.slots r.args.length).zip r.args, p.2.LegibleIn p.1 := by
  obtain ⟨name, eol, tokens, hcut, hslots⟩ := h.slots
  obtain ⟨assigned, hassign, hall⟩ := (readSlots_eq_ok_iff hplain).mp hslots
  have htexts : ∀ w ∈ r.args.map (Value.write '#' []), w = [] ∨ IsArgument w := by
    rw [List.forall_mem_map]
    exact hall.isArgument hcut fun slot hslot => hfilename slot (Slot.assign_subset hassign slot hslot)
  have hopcode : ∀ u : Token, u.IsPlain r.opcode → modifierOf? u = none ∧
      u.text.lower ∉ (Lexer.ofDialect (Dialect.standard.withShapes shapes)).rules.expressionOpcodes := by
    intro u hu
    refine ⟨h.no_modifier u hu, ?_⟩
    rw [hu.text_eq, h.lower, Lexer.mem_expressionOpcodes_iff horderly, h.lookup]
    rintro ⟨shape', heq, hmultipart'⟩
    cases heq
    rw [hmultipart] at hmultipart'
    cases hmultipart'
  rw [h.parseLine_eq hfeed htexts htext]
  obtain ⟨ts, u, us, lx, htokens, hts, hu, hus⟩ :=
    exists_tokenize_added (l := .single text ⟨n, 1, 0⟩) rfl h.isWord hopcode htexts r.modifiers.toList
      (fun comment hcomment => (h.comment comment hcomment).1) htext
  have hlookup : (Dialect.standard.withShapes shapes).vocabulary.lookup u.text.lower = some shape := by
    rw [hu.text_eq, h.lower, h.lookup]
  rw [Table.readLine_eq_parse htokens]
  simp only [map_some_eq_ok_iff]
  rw [exists_parse_iff h.apart hts (hopcode u hu).1 hu.ne_quoted hlookup h.takes (lookup_eq_some h.lookup).2 hmultipart
    h.expression]
  exact exists_readSlots_iff hplain hfilename hcut hslots hus

end

end Directive

namespace Table

theorem exists_readLine_of_parseLine {d : Dialect} {text : Text} {n : Int} {r : Directive Span}
    (h : parseLine d text n = .ok (some r)) :
    ∃ l : LogicalLine, ('\n' : CodePoint) ∉ l.text ∧ (readLine d (.ofDialect d) l).1 = .ok (some r) := by
  unfold parseLine at h
  dsimp only at h
  generalize (if text.getLast? = some ('\n' : CodePoint) then text.dropLast else text) = body at h
  split at h
  · cases h
  · rename_i hfeed
    exact ⟨_, fun hmem => hfeed ((Text.trimEnd_isPrefix _).subset hmem), h⟩

theorem isReadBy_of_readLine {d : Dialect} (hmark : (Lexer.ofDialect d).rules.commentMark = "#") {l : LogicalLine}
    {r : Directive Span} (h : (readLine d (.ofDialect d) l).1 = .ok (some r)) {shape : Shape}
    (hlookup : d.vocabulary.lookup r.opcode = some shape) (hmultipart : shape.isMultipart = false) :
    Directive.IsReadBy d shape l r := by
  obtain ⟨tokens, lx, htokens, hparse⟩ := exists_parse_of_readLine h
  obtain ⟨hcut, hcomment⟩ := Lexer.tokenize_eq_ok htokens
  have hbegins := Lexer.begins_of_tokenize htokens
  rw [hmark] at hbegins
  exact Directive.isReadBy_of_parse hmark hcut hbegins hcomment hparse hlookup hmultipart

/-- A directive with an opcode that was added to the standard ones, and that takes no file name, is written on a line,
and the line is read as that directive exactly if every argument is legible in its slot. -/
theorem exists_parseLine_write_iff {entries : List (Text × Text)} {d : Dialect}
    (hd : Dialect.standard.withOpcodes entries = .ok d) {line : Text} {n : Int} {r : Directive Span}
    (h : parseLine d line n = .ok (some r)) (hadded : ∃ entry ∈ entries, entry.1.lower = r.opcode) {shape : Shape}
    (hlookup : d.vocabulary.lookup r.opcode = some shape) (hmultipart : shape.isMultipart = false)
    (hfilename : ∀ slot ∈ shape.slots, .filename ∉ slot.kinds) :
    ∃ text, r.write d = .ok text ∧ ∀ m,
      (∃ r', parseLine d text m = .ok (some r') ∧ r'.bare = r.bare) ↔
        ∀ p ∈ (Directive.slotKinds shape.slots r.args.length).zip r.args, p.2.LegibleIn p.1 := by
  obtain ⟨shapes, hshapes, rfl⟩ := Dialect.withOpcodes_eq_ok hd
  obtain ⟨l, hfeed, hread⟩ := exists_readLine_of_parseLine h
  have hreadBy := isReadBy_of_readLine rfl hread hlookup hmultipart
  have hplain : Slot.ArePlain shape.slots := by
    obtain ⟨entry, hentry, hname⟩ := hadded
    have hmem := Vocabulary.mem_map_name_of_readEntries hshapes hentry
    rw [hname] at hmem
    obtain ⟨name, written, hshape⟩ :=
      Vocabulary.exists_readEntry_of_mem hshapes shape (Vocabulary.mem_of_lookup_putAll hmem hlookup)
    exact Shape.arePlain_of_readEntry hshape
  refine ⟨_, hreadBy.write_eq hfilename, fun m => ?_⟩
  exact hreadBy.exists_parseLine_iff (Vocabulary.isOrderly_putAll_of_readEntries hshapes) hplain hmultipart hfilename
    hfeed rfl m

end Table

/-- An opcode that takes quoted strings only. -/
def sayShape : Shape := ⟨"say", [⟨[.string], false, false, none, none, none⟩], false, false⟩

/-- An opcode that takes texts without quotes as well. -/
def tellShape : Shape := ⟨"tell", [⟨[.string, .characters], false, false, none, none, none⟩], false, false⟩

def quotingEntries : List (Text × Text) := [("say", "string"), ("tell", "string|characters")]

/-- What is needed of a line with one string, so that it can be computed. -/
theorem Table.exists_string_of_parseLine {d : Dialect} {line opcode s : Text}
    (h : ((parseLine d line 1).toOption.bind fun found => found.map fun r => (r.opcode, r.args.map Value.bare)) =
      some (opcode, [.string s ()])) :
    ∃ r span, parseLine d line 1 = .ok (some r) ∧ r.opcode = opcode ∧ r.args = [.string s span] := by
  obtain ⟨found, hfound, h⟩ := toOption_bind_eq_some h
  obtain ⟨r, rfl, hr⟩ := Option.map_eq_some_iff.mp h
  obtain ⟨hopcode, hargs⟩ := Prod.mk.inj hr
  obtain ⟨v, hv, hbare⟩ := List.map_eq_singleton_iff.mp hargs
  cases v with
  | string s span =>
    cases hbare
    exact ⟨r, span, hfound, hopcode, hv⟩
  | _ => cases hbare

/-- A quoted string is written without quotes, which is not enough for an opcode that wants them. -/
theorem exists_parseLine_write_quoted :
    ∃ d, Dialect.standard.withOpcodes quotingEntries = .ok d ∧
      (∃ r text, Table.parseLine d "say \"a b\"" 1 = .ok (some r) ∧ r.write d = .ok text ∧
        ¬ ∃ r', Table.parseLine d text 1 = .ok (some r') ∧ r'.bare = r.bare) ∧
      ∃ r text, Table.parseLine d "tell \"a b\"" 1 = .ok (some r) ∧ r.write d = .ok text ∧
        ∃ r', Table.parseLine d text 1 = .ok (some r') ∧ r'.bare = r.bare := by
  have hd : Dialect.standard.withOpcodes quotingEntries =
      .ok (Dialect.standard.withShapes [sayShape, tellShape]) := by
    have hshapes : (Vocabulary.readEntries quotingEntries).toOption = some [sayShape, tellShape] := by decide +kernel
    unfold Dialect.withOpcodes
    rw [toOption_eq_some hshapes]
    rfl
  refine ⟨_, hd, ?_, ?_⟩
  · obtain ⟨r, span, hr, hopcode, hargs⟩ : ∃ r span,
        Table.parseLine (Dialect.standard.withShapes [sayShape, tellShape]) "say \"a b\"" 1 = .ok (some r) ∧
          r.opcode = "say" ∧ r.args = [.string "a b" span] :=
      Table.exists_string_of_parseLine (by decide +kernel)
    have hadded : ∃ entry ∈ quotingEntries, entry.1.lower = Text.ofString "say" := by decide +kernel
    have hlookup : (Dialect.standard.withShapes [sayShape, tellShape]).vocabulary.lookup "say" = some sayShape := by
      decide +kernel
    rw [← hopcode] at hadded hlookup
    obtain ⟨text, htext, hiff⟩ := Table.exists_parseLine_write_iff hd hr hadded hlookup rfl (by decide)
    refine ⟨r, text, hr, htext, ?_⟩
    rw [hiff, hargs]
    intro hlegible
    have htexts : SlotKind.characters ∈ [SlotKind.string] := (hlegible _ List.mem_cons_self).2.1
    exact absurd htexts (by decide)
  · obtain ⟨r, span, hr, hopcode, hargs⟩ : ∃ r span,
        Table.parseLine (Dialect.standard.withShapes [sayShape, tellShape]) "tell \"a b\"" 1 = .ok (some r) ∧
          r.opcode = "tell" ∧ r.args = [.string "a b" span] :=
      Table.exists_string_of_parseLine (by decide +kernel)
    have hadded : ∃ entry ∈ quotingEntries, entry.1.lower = Text.ofString "tell" := by decide +kernel
    have hlookup : (Dialect.standard.withShapes [sayShape, tellShape]).vocabulary.lookup "tell" = some tellShape := by
      decide +kernel
    rw [← hopcode] at hadded hlookup
    obtain ⟨text, htext, hiff⟩ := Table.exists_parseLine_write_iff hd hr hadded hlookup rfl (by decide)
    refine ⟨r, text, hr, htext, (hiff 1).mpr ?_⟩
    rw [hargs]
    intro p hp
    cases List.mem_singleton.mp hp
    refine ⟨by decide, List.mem_cons_of_mem _ List.mem_cons_self, fun kind hkind => ?_⟩
    cases List.mem_singleton.mp hkind
    exact id

end BrailleTable
