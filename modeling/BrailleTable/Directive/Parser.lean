/-
Reading a directive from the tokens of a line.

Modifiers come first, then the opcode, whose shape says what follows.  Tokens are handed to the slots in
order; an optional slot is filled only while more tokens are left than the required slots after it need.
-/
import BrailleTable.Directive
import BrailleTable.Expression.Parser

namespace BrailleTable
namespace Directive

/-! ## Modifiers and the opcode -/

/-- The error of a word before the arguments. -/
def headError (reason : Reason) (opcode : Text) (span : Span) (found : Option Text) : ParseError :=
  .of (.argument opcode 0 "opcode") reason span ["opcode"] found

def modifierOf? (t : Token) : Option Modifier :=
  if t.kind = .word then Modifier.ofText? t.text.lower else none

/-- Whether one of two modifiers excludes the other. -/
def clash (a b : Modifier) : Bool :=
  (a = .noback && b = .nofor) || (a = .nofor && b = .noback)

/-- Takes the modifiers off the tokens of a line, where `seen` holds those already taken. -/
def readModifiers (seen : List Modifier) :
    List Token → Except ParseError (List (Modifier × Token) × List Token)
  | [] => .ok ([], [])
  | t :: rest =>
    match modifierOf? t with
    | none => .ok ([], t :: rest)
    | some m =>
      if m ∈ seen then .error (headError (.repeatedModifier t.text) m.label t.span (some t.text))
      else if seen.any (clash m) then .error (headError .clashingModifiers m.label t.span (some t.text))
      else (readModifiers (m :: seen) rest).map fun (ms, rest') => ((m, t) :: ms, rest')

def readOpcode (vocabulary : Vocabulary) (modifiers : List (Modifier × Token)) (t : Token) :
    Except ParseError Shape :=
  match (if t.kind = .quoted then none else vocabulary.lookup t.text.lower) with
  | none => .error (.unknownOpcode t.text t.span ["opcode"])
  | some shape =>
    match modifiers with
    | (_, m) :: _ =>
      if shape.takesModifiers then .ok shape
      else .error (headError (.modifierRefused shape.name m.text) shape.name m.span (some m.text))
    | [] => .ok shape

/-! ## Arguments -/

/-- What a slot stands for where it is left out.  Its first kind decides the kind of value. -/
def defaultValue (slot : Slot) (raw : Text) (span : Span) : Except Failure (Value Span) :=
  match slot.kinds.head? with
  | some .character => .ok (.character raw span)
  | some .number =>
    match raw.readInteger with
    | .ok n => .ok (.number n span)
    | .error (.oversized digits) => .error (.oversizedNumber digits)
    | .error .malformed => .error (.badInteger raw)
  | some .name => .ok (.name raw span)
  | _ => .ok (.string raw span)

def acceptedLabels (slot : Slot) : List Text := (SlotKind.acceptedTokens slot.kinds).map TokenKind.label

/-- The error of a slot that no token is left for. -/
def missing (opcode : Text) (slot : Slot) (position : Nat) (eol : Span) : ParseError :=
  .of (.argument opcode position slot.label) (.missingArgument opcode position slot.label) eol
    (acceptedLabels slot) none

def inRange (slot : Slot) (n : Int) : Bool :=
  slot.lower.all (fun lower => (lower : Int) ≤ n) && slot.upper.all (fun upper => n ≤ (upper : Int))

def readArgument (alphabet opcode : Text) (slot : Slot) (position : Nat) (t : Token) :
    Except Failure (Value Span) :=
  match SlotKind.choose alphabet slot.kinds t with
  | .error (.parse e) =>
    .error (.parse (.of (.argument opcode position slot.label)
      (.wrongArgument opcode position slot.label e.reason) e.span e.expected e.found))
  | .error f => .error f
  | .ok (.number n span) =>
    if inRange slot n then .ok (.number n span)
    else .error (.parse (.of (.argument opcode position slot.label)
      (.outOfRange opcode position slot.lower slot.upper n) t.span (acceptedLabels slot) (some t.text)))
  | .ok v => .ok v

/-- Reads all tokens as arguments of one slot. -/
def readRepeated (alphabet opcode : Text) (slot : Slot) (position : Nat) :
    List Token → Except Failure (List (Value Span))
  | [] => .ok []
  | t :: rest => do
    let v ← readArgument alphabet opcode slot position t
    return v :: (← readRepeated alphabet opcode slot (position + 1) rest)

/-- Hands the tokens of a line to slots, the first of which takes the argument numbered `position`.
The tokens left over are returned with the values.  `name` is the range of the opcode, where values
that were left out are placed. -/
def readSlots (alphabet opcode : Text) (name eol : Span) (position : Nat) :
    List Slot → List Token → Except Failure (List (Value Span) × List Token)
  | [], tokens => .ok ([], tokens)
  | slot :: slots, tokens =>
    if slot.isOptional ∧ tokens.length ≤ Slot.required slots then
      match slot.fallback with
      | none => readSlots alphabet opcode name eol (position + 1) slots tokens
      | some raw => do
        let v ← defaultValue slot raw name
        let (vs, left) ← readSlots alphabet opcode name eol (position + 1) slots tokens
        return (v :: vs, left)
    else match tokens with
      | [] => .error (.parse (missing opcode slot position eol))
      | t :: rest =>
        if slot.repeats then do
          let vs ← readRepeated alphabet opcode slot position (t :: rest)
          let (vs', left) ← readSlots alphabet opcode name eol (position + 1) slots []
          return (vs ++ vs', left)
        else do
          let v ← readArgument alphabet opcode slot position t
          let (vs, left) ← readSlots alphabet opcode name eol (position + 1) slots rest
          return (v :: vs, left)

/-- Reads the arguments of an opcode; none may be left over. -/
def readArguments (alphabet : Text) (shape : Shape) (name eol : Span) (tokens : List Token) :
    Except Failure (List (Value Span)) := do
  let (vs, left) ← readSlots alphabet shape.name name eol 1 shape.slots tokens
  match left with
  | [] => return vs
  | t :: _ =>
    .error (.parse (.of (.argument shape.name (vs.length + 1) endOfLine)
      (.extraArgument shape.name t.text) t.span [endOfLine] (some t.text)))

/-! ## The whole line -/

def coverTokens (first : Token) (rest : List Token) : Span :=
  first.span.merge ((rest.getLast?.getD first).span)

/-- Reads a directive, where `read` reads the expression of an opcode that takes one. -/
def parse (d : Dialect) (tokens : List Token) (eol : Span) (comment : Option Text)
    (read : Expression.Reader := Expression.parse d) : Except Failure (Directive Span) := do
  let (modifiers, rest) ← (readModifiers [] tokens).mapError .parse
  match tokens, rest with
  | first :: more, t :: arguments =>
    let shape ← (readOpcode d.vocabulary modifiers t).mapError .parse
    let directive : Directive Span :=
      { opcode := shape.name, args := [], expression := none,
        modifiers := .ofList (modifiers.map (·.1)), span := coverTokens first more, comment }
    if shape.isMultipart then
      let e ← read shape.name ⟨arguments.flatMap Token.splitOperators, 0, eol⟩
      return { directive with expression := some e }
    else
      let args ← readArguments d.dotAlphabet shape t.span eol arguments
      return { directive with args }
  | _, _ =>
    let opcode : Text := (modifiers.getLast?.map fun m => m.1.label).getD []
    .error (.parse (headError .missingOpcode opcode eol none))

end Directive
end BrailleTable
