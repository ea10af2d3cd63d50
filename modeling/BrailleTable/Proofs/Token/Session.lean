/-
Sessions with one lexer.

A lexer may be turned to a line, asked to look at or to take the next token, or asked for all tokens of a line, in any
order and also after a call that failed.  What it answers about a line depends on its rules and the line alone: behind
every session stands the stream of the line's tokens with the error that cuts it off, if one does, and looking and
taking walk along that stream.
-/
import BrailleTable.Proofs.Table.Alone
import BrailleTable.Proofs.Token.Order

namespace BrailleTable

/-- The two ways to ask a lexer for a token. -/
inductive Look where
  | peek
  | next
deriving DecidableEq

/-- One call of a session. -/
inductive Call where
  | reset (line : LogicalLine)
  | look (how : Look)
  | tokenize (line : LogicalLine)

/-- What a line holds for a lexer: its tokens, and the error that stands in the place of the next one. -/
structure TokenStream where
  tokens : List Token
  fault : Option ParseError

namespace TokenStream

/-- The stream as a whole, which an error spoils. -/
def result (s : TokenStream) : Except ParseError (List Token) :=
  match s.fault with
  | none => .ok s.tokens
  | some e => .error e

/-- What stands at a place of the stream: a token or, behind the last one, nothing or the error. -/
def entry (s : TokenStream) (n : Nat) : Except ParseError (Option Token) :=
  match s.tokens[n]?, s.fault with
  | some t, _ => .ok (some t)
  | none, none => .ok none
  | none, some e => .error e

/-- What is left of the stream after `n` tokens. -/
def drop (s : TokenStream) (n : Nat) : TokenStream := ⟨s.tokens.drop n, s.fault⟩

theorem entry_drop (s : TokenStream) (n : Nat) : (s.drop n).entry 0 = s.entry n := by
  unfold entry drop
  rw [List.getElem?_drop, Nat.add_zero]

theorem drop_drop (s : TokenStream) (m n : Nat) : (s.drop m).drop n = s.drop (m + n) := by
  unfold drop
  rw [List.drop_drop]

end TokenStream

namespace Lexer

def look (lx : Lexer) : Look → Except ParseError (Option Token) × Lexer
  | .peek => lx.peek
  | .next => lx.next

/-- The lexer after a call, whether the call failed or not. -/
def after (lx : Lexer) : Call → Lexer
  | .reset line => lx.reset line
  | .look how => (lx.look how).2
  | .tokenize line => (lx.tokenize line).2

/-- The lexer after a session. -/
def run (lx : Lexer) (calls : List Call) : Lexer := calls.foldl after lx

variable {lx lx' : Lexer} {line : LogicalLine} {t : Token} {s : TokenStream}

/-! ## Rules -/

theorem rules_peek (lx : Lexer) : lx.peek.2.rules = lx.rules := by
  have hread := rules_read lx
  unfold peek
  split
  · rfl
  · split
    · rename_i hstep
      rw [hstep] at hread
      exact hread
    · rename_i hstep
      rw [hstep] at hread
      exact hread

theorem rules_after (lx : Lexer) (call : Call) : (lx.after call).rules = lx.rules := by
  cases call with
  | reset line => rfl
  | look how =>
    cases how with
    | peek => exact rules_peek lx
    | next => exact rules_next lx
  | tokenize line => exact rules_tokenize lx line

theorem rules_run (lx : Lexer) (calls : List Call) : (lx.run calls).rules = lx.rules := by
  induction calls generalizing lx with
  | nil => rfl
  | cons call calls ih => exact (ih (lx.after call)).trans (rules_after lx call)

/-- Turning to a line forgets everything but the rules. -/
theorem reset_congr (h : lx.rules = lx'.rules) (line : LogicalLine) : lx.reset line = lx'.reset line := by
  unfold reset
  rw [h]

/-! ## Where the tokens end -/

/-- Where a lexer finds no token it stays, and finds none in the same way when it reads again. -/
theorem read_again {answer : Except ParseError (Option Token)} (h : lx.read = (answer, lx'))
    (hanswer : ∀ t, answer ≠ .ok (some t)) : lx'.read = (answer, lx') ∧ lx'.peeked = lx.peeked := by
  obtain ⟨rules, _ | line, index, inHead, inExpression, peeked, comment⟩ := lx
  · cases h
    exact ⟨rfl, rfl⟩
  · have hdrop : line.text.drop (index + ((line.text.drop index).takeWhile CodePoint.isBlank).length) =
        (line.text.drop index).dropWhile CodePoint.isBlank := by
      rw [← List.drop_drop, drop_length_takeWhile]
    unfold read at h
    dsimp only at h
    split at h
    · rename_i hnil
      cases h
      refine ⟨?_, rfl⟩
      simp only [read, hdrop, hnil, List.takeWhile_nil, List.dropWhile_nil, List.length_nil, Nat.add_zero]
    · rename_i c rest hcons
      have hc := Text.isBlank_of_dropWhile hcons
      split at h
      · -- A comment leaves the lexer at the end of the line.
        cases h
        refine ⟨?_, rfl⟩
        simp only [read, List.drop_length, List.takeWhile_nil, List.dropWhile_nil, List.length_nil, Nat.add_zero]
      · rename_i hmark
        split at h
        · -- The white space before the error is behind the lexer now, and the error is the same.
          rename_i e herror
          cases h
          refine ⟨?_, rfl⟩
          simp only [read, hdrop, hcons, List.takeWhile_cons, List.dropWhile_cons, hc, Bool.false_eq_true, if_false,
            List.length_nil, Nat.add_zero, if_neg hmark, herror]
        · cases h
          exact absurd rfl (hanswer _)

/-- A lexer that has looked at no token yet and finds the tokens of a stream one by one, and then its end over and over
again. -/
inductive Gives : Lexer → TokenStream → Prop
  | token {lx lx' : Lexer} {t : Token} {ts : List Token} {fault : Option ParseError} :
      lx.peeked = none → lx.read = (.ok (some t), lx') → Gives lx' ⟨ts, fault⟩ → Gives lx ⟨t :: ts, fault⟩
  | stop {lx lx' : Lexer} {fault : Option ParseError} :
      lx.peeked = none → lx.read = (TokenStream.entry ⟨[], fault⟩ 0, lx') → Gives lx ⟨[], fault⟩

theorem Gives.peeked_eq (h : Gives lx s) : lx.peeked = none := by
  cases h <;> assumption

/-- What is left of a line is a stream, with fewer tokens than code points. -/
theorem exists_gives (hline : lx.line = some line) (hpeeked : lx.peeked = none) :
    ∃ s, Gives lx s ∧ s.tokens.length ≤ line.text.length - lx.index := by
  -- Every token takes the lexer further along the line.
  induction hleft : line.text.length - lx.index using Nat.strongRecOn generalizing lx with
  | ind left ih =>
    cases hread : lx.read with
    | mk answer lx₁ =>
      match answer with
      | .error e => exact ⟨⟨[], some e⟩, .stop hpeeked hread, Nat.zero_le _⟩
      | .ok none => exact ⟨⟨[], none⟩, .stop hpeeked hread, Nat.zero_le _⟩
      | .ok (some t) =>
        obtain ⟨hcut, hline₁, hpeeked₁, -⟩ := read_eq_ok_some hline hread
        obtain ⟨hstart, hindex⟩ := index_read hline hread
        have hlt := hcut.start_lt
        have hle := hcut.stop_le
        obtain ⟨s, hs, hlength⟩ :=
          ih (line.text.length - lx₁.index) (by omega) hline₁ (hpeeked₁.trans hpeeked) rfl
        refine ⟨⟨t :: s.tokens, s.fault⟩, .token hpeeked hread hs, ?_⟩
        rw [List.length_cons]
        omega

/-- Taking all tokens gives the stream as a whole. -/
theorem Gives.drain_eq (h : Gives lx s) {limit : Nat} (hlimit : s.tokens.length < limit) :
    (drain limit lx).1 = s.result := by
  induction h generalizing limit with
  | @token lx lx' t ts fault hpeeked hread _ ih =>
    cases limit with
    | zero => omega
    | succ limit =>
      have hrest := ih (Nat.lt_of_succ_lt_succ hlimit)
      unfold drain next
      rw [hpeeked, hread]
      dsimp only
      rw [hrest]
      cases fault <;> rfl
  | @stop lx lx' fault hpeeked hread =>
    cases limit with
    | zero => omega
    | succ limit =>
      unfold drain next
      rw [hpeeked, hread]
      cases fault <;> rfl

/-! ## Walking along a stream -/

/-- What a session finds next is the stream `s`, whose first token may have been looked at already. -/
def Ready (lx : Lexer) (s : TokenStream) : Prop :=
  Gives lx s ∨ ∃ lx' t ts fault, s = ⟨t :: ts, fault⟩ ∧ Gives lx' ⟨ts, fault⟩ ∧ lx = { lx' with peeked := some t }

/-- Looking at the next entry of a stream keeps the stream, and taking it leaves the rest. -/
theorem Ready.look (h : Ready lx s) (how : Look) :
    (lx.look how).1 = s.entry 0 ∧ Ready (lx.look how).2 (s.drop ([how].count .next)) := by
  rcases h with h | ⟨lx', t, ts, fault, rfl, hrest, rfl⟩
  · cases h with
    | @token lx lx' t ts fault hpeeked hread hrest =>
      cases how with
      | peek =>
        unfold Lexer.look peek
        rw [hpeeked, hread]
        exact ⟨rfl, .inr ⟨lx', t, ts, fault, rfl, hrest, rfl⟩⟩
      | next =>
        unfold Lexer.look next
        rw [hpeeked, hread]
        exact ⟨rfl, .inl hrest⟩
    | @stop lx lx' fault hpeeked hread =>
      have hnone : ∀ t, TokenStream.entry ⟨[], fault⟩ 0 ≠ .ok (some t) := by
        cases fault <;> exact fun t ht => by cases ht
      obtain ⟨hagain, hpeeked'⟩ := read_again hread hnone
      have hstop : Gives lx' ⟨[], fault⟩ := .stop (hpeeked'.trans hpeeked) hagain
      have hlook : lx.look how = (TokenStream.entry ⟨[], fault⟩ 0, lx') := by
        cases how with
        | peek =>
          unfold Lexer.look peek
          rw [hpeeked, hread]
          cases fault with
          | none =>
            obtain ⟨rules, line, index, inHead, inExpression, peeked, comment⟩ := lx'
            cases hpeeked'.trans hpeeked
            rfl
          | some e => rfl
        | next =>
          unfold Lexer.look next
          rw [hpeeked, hread]
      have hdrop : TokenStream.drop ⟨[], fault⟩ ([how].count .next) = ⟨[], fault⟩ := by
        unfold TokenStream.drop
        rw [List.drop_nil]
      rw [hlook, hdrop]
      exact ⟨rfl, .inl hstop⟩
  · cases how with
    | peek => exact ⟨rfl, .inr ⟨lx', t, ts, fault, rfl, hrest, rfl⟩⟩
    | next =>
      refine ⟨rfl, .inl ?_⟩
      have hpeeked := hrest.peeked_eq
      obtain ⟨rules, line, index, inHead, inExpression, peeked, comment⟩ := lx'
      cases hpeeked
      exact hrest

theorem Ready.run (h : Ready lx s) (looks : List Look) :
    Ready (lx.run (looks.map .look)) (s.drop (looks.count .next)) := by
  induction looks generalizing lx s with
  | nil => exact h
  | cons how looks ih =>
    have hrest := ih (h.look how).2
    rw [TokenStream.drop_drop, ← List.count_append] at hrest
    exact hrest

/-- What a lexer answers about a line does not depend on the session before it.  All tokens of the line come out as from
a new lexer, which also ends in the same state.  And the line has a stream: whatever is looked at and taken after
turning to the line, the next answer is the entry of that stream whose place is the number of tokens taken. -/
theorem exists_stream_run (rules : LexRules) (history : List Call) (line : LogicalLine) :
    ((ofRules rules).run history).tokenize line = (ofRules rules).tokenize line ∧
      ∃ s : TokenStream, ((ofRules rules).tokenize line).1 = s.result ∧
        ∀ (looks : List Look) (how : Look),
          (((((ofRules rules).run history).reset line).run (looks.map .look)).look how).1 =
            s.entry (looks.count .next) := by
  have hrules : ((ofRules rules).run history).rules = (ofRules rules).rules := rules_run _ history
  obtain ⟨s, hs, hlength⟩ :
      ∃ s, Gives ((ofRules rules).reset line) s ∧ s.tokens.length ≤ line.text.length - 0 := exists_gives rfl rfl
  refine ⟨tokenize_congr hrules line, s, hs.drain_eq (Nat.lt_succ_of_le (hlength.trans (Nat.sub_le _ _))), ?_⟩
  intro looks how
  rw [reset_congr hrules, ((Ready.run (.inl hs) looks).look how).1, TokenStream.entry_drop]

end Lexer
end BrailleTable
