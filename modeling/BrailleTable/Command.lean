/-
The command line: checking a table, listing its tokens, and writing it out.

A run is a function of the arguments and of what surrounds it: the files they name, the reader of
configuration files and the console.  So everything it prints can be reasoned about; reading the files
and printing is left to `BrailleTable.Main`.
-/
import BrailleTable.Command.Arguments
import BrailleTable.Config.File
import BrailleTable.Config.Table
import BrailleTable.Report
import BrailleTable.Table.Record
import BrailleTable.Text.Utf8

namespace BrailleTable
namespace Command

/-! ## Surroundings -/

inductive FileContent where
  | bytes (bytes : List UInt8)
  | missing
  | directory
  /-- A path through something that is no directory. -/
  | notDirectory

/-- The files that a run may open, by path. -/
abbrev Files := Text → FileContent

/-- Where output is written, in an encoding that not every code point has a place in. -/
structure Console where
  codec : Text
  takes : CodePoint → Bool
  /-- Why a code point is refused. -/
  reason : Text
  takes_ascii : ∀ c : CodePoint, c.val < 0x80 → takes c = true

/-- Why a text is not written: the code points from `start` up to `stop` have no place in the encoding. -/
structure Unencodable where
  codec : Text
  first : CodePoint
  start : Nat
  stop : Nat
  reason : Text

/-- A code point by its number, with as many digits as its size asks for. -/
def escape (c : CodePoint) : Text :=
  if c.val < 0x100 then "\\x" ++ Text.hex 2 c.val
  else if c.val < 0x10000 then "\\u" ++ Text.hex 4 c.val
  else "\\U" ++ Text.hex 8 c.val

def Unencodable.message (u : Unencodable) : Text :=
  "'" ++ u.codec ++ "' codec can't encode " ++
    (if u.stop = u.start + 1 then
      "character '" ++ escape u.first ++ "' in position " ++ Text.ofNat u.start
    else "characters in position " ++ Text.ofNat u.start ++ "-" ++ Text.ofNat (u.stop - 1)) ++
    ": " ++ u.reason

namespace Console

/-- UTF-8 has a place for everything but surrogates. -/
def utf8 : Console where
  codec := "utf-8"
  takes c := !c.isSurrogate
  reason := "surrogates not allowed"
  takes_ascii c h := by
    unfold CodePoint.isSurrogate
    rw [Bool.not_eq_true', Bool.and_eq_false_iff]
    exact .inl (decide_eq_false (by omega))

/-- A console that keeps texts as they are. -/
def memory : Console where
  codec := []
  takes _ := true
  reason := []
  takes_ascii _ _ := rfl

/-- What keeps a text from being written: the first run of code points that are refused. -/
def refusal? (console : Console) (t : Text) : Option Unencodable :=
  match t.dropWhile console.takes with
  | [] => none
  | c :: rest =>
    let start := (t.takeWhile console.takes).length
    let run := (c :: rest).takeWhile (!console.takes ·)
    some ⟨console.codec, c, start, start + run.length, console.reason⟩

end Console

/-- What surrounds a run.  A configuration file that cannot be decoded gives the class and the message of
what is wrong with it. -/
structure Host where
  files : Files
  decode : Text → Except Text Config.Mapping
  console : Console

/-! ## Endings -/

inductive Ending where
  /-- The arguments alone decided it. -/
  | stopped (reason : Stop)
  | exit (code : Nat)
  /-- A failure that the command does not answer. -/
  | failed (failure : Failure)
  | unconfigured (fault : Dialect.Fault)
  | unprintable (fault : PrintFault)
  | unencodable (fault : Unencodable)

/-- Why a command gives up. -/
inductive Fault where
  | missingFile (path : Text)
  | isDirectory (path : Text)
  | notDirectory (path : Text)
  /-- A path with a null character, which no file has. -/
  | nullInPath
  | undecodable (fault : Utf8.Fault)
  | badFile (message : Text)
  | badConfig (fault : Dialect.Fault)
  | badTable (failure : Failure)
  | unencodable (fault : Unencodable)

namespace Fault

/-- The class of a fault and its message. -/
def message : Fault → Text
  | .missingFile path => "FileNotFoundError [Errno 2] No such file or directory: " ++ path.display
  | .isDirectory path => "IsADirectoryError [Errno 21] Is a directory: " ++ path.display
  | .notDirectory path => "NotADirectoryError [Errno 20] Not a directory: " ++ path.display
  | .nullInPath => "ValueError embedded null byte"
  | .undecodable fault => "UnicodeDecodeError " ++ fault.message
  | .badFile message => message
  | .badConfig fault => fault.label ++ " " ++ fault.message
  | .badTable failure => failure.label ++ " " ++ failure.message
  | .unencodable fault => "UnicodeEncodeError " ++ fault.message

/-- How a run ends with a fault that nothing answers.  Only the faults of files and of values are answered. -/
def unanswered? : Fault → Option Ending
  | .badConfig fault => if fault.isValueError then none else some (.unconfigured fault)
  | .badTable failure => if failure.isValueError then none else some (.failed failure)
  | _ => none

end Fault

structure Screen where
  out : Text
  err : Text

/-- A part of a run: it prints, and may give up. -/
abbrev Act := ExceptT Fault (StateM Screen)

def put (t : Text) : Act Unit := modify fun s => { s with out := s.out ++ t }

/-- Prints a line, or gives up. -/
def printLine (console : Console) (t : Text) : Act Unit :=
  match console.refusal? t with
  | none => put (t ++ "\n")
  | some fault => throw (.unencodable fault)

/-- Prints the last a command has to say.  If that is refused nothing answers it any more. -/
def printLast (console : Console) (t : Text) (code : Nat) : Act Ending := do
  match console.refusal? t with
  | none =>
    put t
    return .exit code
  | some fault => return .unencodable fault

/-- Prints a line of what went wrong.  Nothing is refused there: a code point without a place is spelled out. -/
def warn (t : Text) : Act Unit := modify fun s => { s with err := s.err ++ t ++ "\n" }

/-- Prints a line that only a debugging run shows. -/
def trace (inv : Invocation) (t : Text) : Act Unit :=
  if inv.debug then warn ("[DEBUG] " ++ t) else pure ()

def orFault {ε α : Type} (fault : ε → Fault) : Except ε α → Act α
  | .ok a => pure a
  | .error e => throw (fault e)

/-! ## Input -/

def readFile (files : Files) (path : Text) : Act Text :=
  if path.any (·.val = 0) then throw .nullInPath
  else match files path with
    | .bytes bytes => orFault .undecodable (Utf8.decode bytes)
    | .missing => throw (.missingFile path)
    | .directory => throw (.isDirectory path)
    | .notDirectory => throw (.notDirectory path)

/-- The path with empty and single-dot components left out; one with no component left is a dot. -/
def normalizePath (path : Text) : Text :=
  let root : Text :=
    if (Text.ofString "//").isPrefixOf path ∧ !(Text.ofString "///").isPrefixOf path then "//"
    else if path.head? = some ('/' : CodePoint) then "/"
    else []
  let parts := (Text.splitAt '/' path).filter fun part => part ≠ [] ∧ part ≠ Text.ofString "."
  if root = [] ∧ parts = [] then "." else root ++ Text.join "/" parts

/-- The configuration that the arguments ask for. -/
def loadConfig (host : Host) (inv : Invocation) : Act Config := do
  let c ← match inv.config with
    | none | some [] => pure Config.standard
    | some path => do
      let mapping ← orFault .badFile (host.decode (← readFile host.files path))
      trace inv ("louistab.config: Read parser configuration from " ++ path)
      let c ← orFault .badConfig (Config.ofMapping mapping.settings mapping.opcodes)
      if mapping.opcodes ≠ [] then
        trace inv ("louistab.config: Loaded " ++ Text.ofNat mapping.opcodes.length ++
          " custom opcode shapes")
      pure c
  let c ← match inv.maxDepth with
    | none => pure c
    | some depth => orFault .badConfig (c.withSettings [(.maxDepth, .number depth)])
  trace inv ("config ready | opcodes=" ++ Text.ofNat c.vocabulary.length ++ " max_depth=" ++
    Text.ofNat c.maxDepth)
  return c

/-- The table's source: the text given in the arguments, or else the file. -/
def readSource (files : Files) (inv : Invocation) : Act Text :=
  match inv.text, inv.file with
  | some text, _ => pure text
  | none, some path => return (← readFile files (normalizePath path)).normalizeNewlines
  | none, none => pure []

/-! ## Commands -/

/-- The number of directives of each opcode, in ascending order of the names. -/
def summary (t : Table) : List Text :=
  (Text.sortedSet (t.directives.map Directive.opcode)).map fun name =>
    "  " ++ Text.padRight 16 name ++ " " ++
      Text.ofNat (t.directives.countP (·.opcode = name))

/-- Reads the table and traces how many directives it has. -/
def loadTable (inv : Invocation) (c : Config) (source : Text) : Act (Except Failure Table) := do
  match c.parse source with
  | .ok t =>
    trace inv ("louistab.grammar.assembler: Assembled " ++ Text.ofNat t.directives.length ++ " directives")
    return .ok t
  | .error f => return .error f

def checkAll (console : Console) (inv : Invocation) (c : Config) (source : Text) : Act Ending := do
  match c.errors source with
  | .error f => return .failed f
  | .ok errors =>
    trace inv ("louistab.grammar.assembler: Collected " ++ Text.ofNat errors.length ++ " errors")
    errors.forM fun e => warn (Report.write e (some source))
    if errors = [] then printLast console "[CHECK OK]\n" 0
    else
      warn ("[CHECK FAILED] errors=" ++ Text.ofNat errors.length)
      return .exit 2

/-- What is said of a table that was read. -/
def approval (t : Table) : Text :=
  "[CHECK OK] directives=" ++ Text.ofNat t.directives.length ++ " multipart=" ++
    Text.ofNat (t.directives.countP (·.expression.isSome)) ++ "\n"

def checkFirst (console : Console) (inv : Invocation) (c : Config) (source : Text) : Act Ending := do
  match ← loadTable inv c source with
  | .error (.parse e) =>
    warn "[SYNTAX ERROR]"
    warn (Report.write e (some source))
    return .exit 2
  | .error f => return .failed f
  | .ok t =>
    if inv.debug then
      warn "\n[Opcodes]"
      (summary t).forM warn
    printLast console (approval t) 0

def check (host : Host) (inv : Invocation) : Act Ending := do
  let c ← loadConfig host inv
  let source ← readSource host.files inv
  if inv.keepGoing then checkAll host.console inv c source else checkFirst host.console inv c source

/-- The number of a token, with zeros before it up to three digits. -/
def tokenNumber (n : Nat) : Text :=
  let digits := Text.ofNat n
  List.replicate (3 - digits.length) ('0' : CodePoint) ++ digits

/-- Prints tokens, the first of which has the number `n`. -/
def listTokens (console : Console) (n : Nat) : List Token → Act Unit
  | [] => pure ()
  | t :: rest => do
    printLine console (tokenNumber n ++ ": " ++ Text.padRight 14 t.kind.label ++ " " ++ t.text.display ++
      "  @" ++ t.span.display)
    listTokens console (n + 1) rest

/-- Prints the tokens of lines and stops at the first error. -/
def listLines (console : Console) (inv : Invocation) (lx : Lexer) (n : Nat) :
    List LogicalLine → Act (Option ParseError)
  | [] => return none
  | line :: rest =>
    match lx.tokenize line with
    | (.error e, _) => return some e
    | (.ok tokens, lx') => do
      listTokens console n tokens
      match lx'.comment with
      | none => pure ()
      | some comment =>
        trace inv ("line " ++ Text.ofInt line.lineNumber ++ " comment=" ++ comment.display)
      listLines console inv lx' (n + tokens.length) rest

def lex (host : Host) (inv : Invocation) : Act Ending := do
  let c ← loadConfig host inv
  let source ← readSource host.files inv
  if c.seeksNumber (physicalLines source) then throw (.badTable .numericMarker)
  let d := c.dialect
  let joined := LogicalLine.join d.continuationMarker [d.commentChar] (physicalLines source)
  match (← listLines host.console inv (.ofDialect d) 0 joined.lines).or joined.dangling with
  | none => return .exit 0
  | some e =>
    warn ("[LEX ERROR] " ++ Report.write e (some source))
    return .exit 2

def dump (host : Host) (inv : Invocation) : Act Ending := do
  let c ← loadConfig host inv
  let source ← readSource host.files inv
  match ← loadTable inv c source with
  | .error (.parse e) =>
    if inv.json then printLast host.console ((Json.object [("error", Report.record e)]).write ++ "\n") 2
    else
      warn "[SYNTAX ERROR]"
      warn (Report.write e (some source))
      return .exit 2
  | .error f => throw (.badTable f)
  | .ok t =>
    if inv.json then printLast host.console (t.record.write ++ "\n") 0
    else match t.write c.dialect with
      | .ok text => printLast host.console text 0
      | .error fault => return .unprintable fault

/-- The command that an invocation asks for. -/
def commandOf (host : Host) (inv : Invocation) : Act Ending :=
  match inv.verb with
  | .check => check host inv
  | .lex => lex host inv
  | .dump => dump host inv

/-- How a command ends, by what it gives.  One that gives up says why, if that is answered. -/
def answer : Except Fault Ending → StateM Screen Ending
  | .ok ending => return ending
  | .error fault =>
    match fault.unanswered? with
    | some ending => return ending
    | none => do
      modify fun s => { s with err := s.err ++ "[ERROR] " ++ fault.message ++ "\n" }
      return .exit 2

def perform (host : Host) (inv : Invocation) : StateM Screen Ending := do
  answer (← (commandOf host inv).run)

/-- A whole run: how it ends and what it prints. -/
def run (host : Host) (args : List Text) : Ending × Screen :=
  match readArguments args with
  | .error stop => (.stopped stop, ⟨[], []⟩)
  | .ok inv => (perform host inv).run ⟨[], []⟩

end Command
end BrailleTable
