/-
The arguments of the command line.

A subcommand comes first, then options and one file in any order.  A long option may be shortened as long
as it stays the only one that fits, and its value may follow an equals sign; options of one letter may be
written together, with an equals sign after the first or without one.  After two dashes everything is a file name.
-/
import BrailleTable.Text.Decimal

namespace BrailleTable
namespace Command

inductive Verb where
  | check
  | lex
  | dump
deriving DecidableEq

namespace Verb

def label : Verb → Text
  | .check => "check"
  | .lex => "lex"
  | .dump => "dump"

def all : List Verb := [.check, .lex, .dump]

end Verb

/-- The options, by what they are for. -/
inductive Switch where
  | help
  | debug
  | config
  | maxDepth
  | keepGoing
  | text
  | json
deriving DecidableEq

namespace Switch

/-- Whether a value has to follow. -/
def takesValue : Switch → Bool
  | .config | .maxDepth | .text => true
  | .help | .debug | .keepGoing | .json => false

end Switch

/-- The spellings of the options, before a subcommand (`none`) or after one. -/
def spellings : Option Verb → List (Text × Switch)
  | none => [("-h", .help), ("--help", .help)]
  | some verb =>
    let own : Text × Switch :=
      match verb with
      | .check => ("--keep-going", .keepGoing)
      | .lex => ("--text", .text)
      | .dump => ("--json", .json)
    [("-h", .help), ("--help", .help), ("-D", .debug), ("--debug", .debug), ("--config", .config),
     ("--max-depth", .maxDepth), own]

structure Invocation where
  verb : Verb
  debug : Bool
  config : Option Text
  maxDepth : Option Int
  keepGoing : Bool
  json : Bool
  text : Option Text
  file : Option Text

/-- Why arguments lead to no invocation: help was asked for, or they are not understood. -/
inductive Stop where
  | help
  | misused
deriving DecidableEq

namespace Stop

def exitCode : Stop → Nat
  | .help => 0
  | .misused => 2

end Stop

/-! ## Telling options from files -/

inductive Word where
  | plain (t : Text)
  | option (o : Switch)
  /-- A long option, an equals sign and a value. -/
  | assigned (o : Switch) (value : Text)
  /-- An option of one letter with more letters after it. -/
  | bundle (o : Switch) (letters : Text)
  | unknown
  /-- The two dashes after which everything is plain. -/
  | dashes

def splitEquals (t : Text) : Text × Option Text :=
  let beforeEquals (c : CodePoint) : Bool := c ≠ '='
  match t.dropWhile beforeEquals with
  | [] => (t, none)
  | _ :: value => (t.takeWhile beforeEquals, some value)

/-- Whether a text is written like a negative number. -/
def looksNegative (t : Text) : Bool :=
  let isDigit (c : CodePoint) : Bool := c.decimalValue?.isSome
  let t := if t.getLast? = some ('\n' : CodePoint) then t.dropLast else t
  match t with
  | [] => false
  | c :: rest =>
    c = '-' &&
      match rest.dropWhile isDigit with
      | [] => rest ≠ []
      | d :: fraction => d = '.' && fraction ≠ [] && fraction.all isDigit

def isLong (t : Text) : Bool := (Text.ofString "--").isPrefixOf t

/-- A long option by itself or with the value after an equals sign. -/
def longWord (o : Switch) : Option Text → Word
  | none => .option o
  | some value => .assigned o value

/-- The ways to take an argument for a known option: a long one may be shortened, and one of one letter
may have more letters after it. -/
def candidates (known : List (Text × Switch)) (t : Text) : List Word :=
  if isLong t then
    let (name, value) := splitEquals t
    (known.filter fun (s, _) => name.isPrefixOf s).map fun (_, o) => longWord o value
  else
    known.filterMap fun (s, o) =>
      if s = t.take 2 then some (.bundle o (t.drop 2))
      else if t.isPrefixOf s then some (.option o)
      else none

/-- Tells what one argument is.  None is an argument that may be short for several options. -/
def classify (known : List (Text × Switch)) (t : Text) : Option Word :=
  match t with
  | [] | [_] => some (.plain t)
  | c :: _ =>
    if c ≠ '-' then some (.plain t)
    else if t = "--" then some .dashes
    else
      let (name, value) := splitEquals t
      match known.lookup t, known.lookup name, value with
      | some o, _, _ => some (.option o)
      | none, some o, some value => some (if isLong t then .assigned o value else .bundle o value)
      | none, _, _ =>
        match candidates known t with
        | [w] => some w
        | [] => if looksNegative t ∨ (' ' : CodePoint) ∈ t then some (.plain t) else some .unknown
        | _ => none

def classifyAll (known : List (Text × Switch)) : List Text → Option (List Word)
  | [] => some []
  | t :: rest => do
    match ← classify known t with
    | .dashes => return .dashes :: rest.map .plain
    | w => return w :: (← classifyAll known rest)

/-! ## Reading the arguments of a subcommand -/

/-- What has been read so far. -/
structure Partial where
  invocation : Invocation
  /-- Whether an argument was left that nothing takes. -/
  leftover : Bool

namespace Partial

def ofVerb (verb : Verb) : Partial :=
  ⟨{ verb, debug := false, config := none, maxDepth := none, keepGoing := false, json := false,
     text := none, file := none }, false⟩

def flag (p : Partial) : Switch → Except Stop Partial
  | .help => .error .help
  | .debug => .ok { p with invocation := { p.invocation with debug := true } }
  | .keepGoing => .ok { p with invocation := { p.invocation with keepGoing := true } }
  | .json => .ok { p with invocation := { p.invocation with json := true } }
  | .config | .maxDepth | .text => .error .misused

/-- Takes an option with its value.  A text excludes a file. -/
def assign (p : Partial) (value : Text) : Switch → Except Stop Partial
  | .config => .ok { p with invocation := { p.invocation with config := some value } }
  | .maxDepth =>
    match value.readInteger with
    | .ok n => .ok { p with invocation := { p.invocation with maxDepth := some n } }
    | .error _ => .error .misused
  | .text =>
    if p.invocation.file.isSome then .error .misused
    else .ok { p with invocation := { p.invocation with text := some value } }
  | .help | .debug | .keepGoing | .json => .error .misused

/-- Takes a plain argument: the first is the file, and there is no room for another. -/
def plain (p : Partial) (t : Text) : Except Stop Partial :=
  if p.invocation.file.isSome then .ok { p with leftover := true }
  else if p.invocation.text.isSome then .error .misused
  else .ok { p with invocation := { p.invocation with file := some t } }

end Partial

/-- The options that letters written together stand for; each letter has to be one. -/
def letterOptions (known : List (Text × Switch)) : Text → Except Stop (List Switch)
  | [] => .ok []
  | c :: rest =>
    match known.lookup [('-' : CodePoint), c] with
    | none => .error .misused
    | some o => (letterOptions known rest).map (o :: ·)

/-- Takes an option of one letter and those of the letters after it, of which there has to be one. -/
def takeBundle (known : List (Text × Switch)) (o : Switch) (letters : Text) (p : Partial) :
    Except Stop Partial :=
  if letters = [] then .error .misused
  else do
    let more ← letterOptions known letters
    (o :: more).foldlM Partial.flag p

/-- Reads arguments one after the other.  Two dashes belong to the file they stand next to, and
`afterFile` says whether a file was read just before. -/
def readWords (known : List (Text × Switch)) (afterFile : Bool) (p : Partial) :
    List Word → Except Stop Partial
  | [] => .ok p
  | .plain t :: rest => do
    let p' ← p.plain t
    readWords known (p.invocation.file.isNone && p'.invocation.file.isSome) p' rest
  | .unknown :: rest => readWords known false { p with leftover := true } rest
  | .dashes :: rest =>
    readWords known false
      (if p.invocation.file.isSome && !afterFile then { p with leftover := true } else p) rest
  | .assigned o value :: rest => do readWords known false (← p.assign value o) rest
  | .bundle o letters :: rest => do readWords known false (← takeBundle known o letters p) rest
  | .option o :: rest =>
    if o.takesValue then
      match rest with
      | .plain value :: rest' => do readWords known false (← p.assign value o) rest'
      | _ => .error .misused
    else do readWords known false (← p.flag o) rest

/-- Checks that nothing is missing and nothing is left over. -/
def finish (p : Partial) : Except Stop Invocation :=
  if p.leftover then .error .misused
  else if p.invocation.file.isNone && p.invocation.text.isNone then .error .misused
  else .ok p.invocation

def readAfter (verb : Verb) (args : List Text) : Except Stop Partial :=
  let known := spellings (some verb)
  match classifyAll known args with
  | none => .error .misused
  | some words => readWords known false (Partial.ofVerb verb) words

/-- Reads the arguments of the command line, where `leftover` says whether one was met that nothing
takes. -/
def readFrom (leftover : Bool) : List Text → Except Stop Invocation
  | [] => .error .misused
  | t :: rest =>
    match classify (spellings none) t with
    | some (.plain name) =>
      match Verb.all.find? (·.label = name) with
      | none => .error .misused
      | some verb => do
        let p ← readAfter verb rest
        finish { p with leftover := p.leftover || leftover }
    | some .unknown => readFrom true rest
    | some (.bundle o letters) => do
      let _ ← takeBundle (spellings none) o letters (Partial.ofVerb .check)
      readFrom leftover rest
    | some (.option o) => do
      let _ ← (Partial.ofVerb .check).flag o
      readFrom leftover rest
    | some (.assigned _ _) | some .dashes | none => .error .misused

def readArguments (args : List Text) : Except Stop Invocation := readFrom false args

end Command
end BrailleTable
