/-
Configuration files: the part of TOML that they are written in.

A statement takes one line.  A header in brackets opens a table; any other line gives a key, which may be
plain, quoted or made of several parts with dots between them, and its value: a text between double
quotes with escapes, a text between single quotes, a whole number, or a table between braces.  The other
values that TOML knows (texts of several lines, fractions, booleans, dates, arrays) no setting and no
shape takes, and a file that has one is refused, like one with braces inside braces.
-/
import BrailleTable.Config
import BrailleTable.LogicalLine
import BrailleTable.Text.Decimal

namespace BrailleTable
namespace Config

/-- What a configuration is made from: its settings and its opcodes by name. -/
structure Mapping where
  settings : List (Text × Dialect.Datum)
  opcodes : List (Text × Dialect.Datum)

namespace File

open Dialect (Datum)

inductive Fault where
  /-- What is wrong with a line where so many of its code points are left. -/
  | malformed (message : Text) (left : Nat)
  | oversizedNumber (digits : Nat)

def malformed {α : Type} (message : Text) (rest : Text) : Except Fault α :=
  .error (.malformed message rest.length)

def isBlank (c : CodePoint) : Bool := c = ' ' || c = '\t'

def skipBlanks (t : Text) : Text := t.dropWhile isBlank

/-- The control characters, which have to be escaped; a tab does not count. -/
def isControl (c : CodePoint) : Bool := (c.val < 0x20 && c ≠ '\t') || c.val = 0x7f

/-! ## Texts and keys -/

/-- The code point of an escape by number, whose digits stand before `rest`. -/
def escaped (digits : Text) (rest : Text) : Except Fault CodePoint :=
  match digits.mapM CodePoint.hexValue? with
  | none => malformed "Invalid hex value" (digits ++ rest)
  | some values =>
    match CodePoint.ofNat? (values.foldl (fun n v => 16 * n + v) 0) with
    | some c => if c.isSurrogate then malformed "Escaped character is not a Unicode scalar value" rest else .ok c
    | none => malformed "Escaped character is not a Unicode scalar value" rest

/-- What a letter after a backslash stands for. -/
def escapeOf? (c : CodePoint) : Option CodePoint :=
  ([('b', '\x08'), ('t', '\t'), ('n', '\n'), ('f', '\x0c'), ('r', '\r'), ('"', '"'), ('\\', '\\')] :
    List (CodePoint × CodePoint)).lookup c

/-- Reads a text up to its closing double quote. -/
def readBasic : Text → Except Fault (Text × Text)
  | [] => malformed "Unterminated string" []
  | c :: rest =>
    if c = '"' then .ok ([], rest)
    else if c = '\\' then
      match rest with
      | [] => malformed "Unescaped '\\' in a string" []
      | e :: rest =>
        if e = 'u' then
          match rest with
          | a :: b :: c :: d :: rest => do
            let point ← escaped [a, b, c, d] rest
            let (t, after) ← readBasic rest
            return (point :: t, after)
          | rest => malformed "Invalid hex value" rest
        else if e = 'U' then
          match rest with
          | a :: b :: c :: d :: a' :: b' :: c' :: d' :: rest => do
            let point ← escaped [a, b, c, d, a', b', c', d'] rest
            let (t, after) ← readBasic rest
            return (point :: t, after)
          | rest => malformed "Invalid hex value" rest
        else match escapeOf? e with
          | none => malformed "Unescaped '\\' in a string" rest
          | some point => (readBasic rest).map fun (t, after) => (point :: t, after)
    else if isControl c then malformed ("Illegal character " ++ Text.display [c]) (c :: rest)
    else (readBasic rest).map fun (t, after) => (c :: t, after)

/-- Reads a text up to its closing single quote. -/
def readLiteral (t : Text) : Except Fault (Text × Text) :=
  let inside := t.takeWhile fun c : CodePoint => c ≠ '\''
  let after := t.dropWhile fun c : CodePoint => c ≠ '\''
  match inside.dropWhile (!isControl ·), after with
  | c :: more, _ => malformed ("Found invalid character " ++ Text.display [c]) (c :: more ++ after)
  | [], [] => malformed "Expected \"'\"" []
  | [], _ :: rest => .ok (inside, rest)

def isBare (c : CodePoint) : Bool :=
  c.isDigit || (97 ≤ c.val && c.val ≤ 122) || (65 ≤ c.val && c.val ≤ 90) || c = '-' || c = '_'

def readKeyPart (t : Text) : Except Fault (Text × Text) :=
  match t with
  | [] => malformed "Invalid initial character for a key part" []
  | c :: rest =>
    if isBare c then .ok (t.takeWhile isBare, t.dropWhile isBare)
    else if c = '"' then readBasic rest
    else if c = '\'' then readLiteral rest
    else malformed "Invalid initial character for a key part" t

/-- Reads a key of at most `limit` parts with dots between them, and the blanks after it. -/
def readKey : Nat → Text → Except Fault (List Text × Text)
  | 0, t => malformed "Invalid initial character for a key part" t
  | limit + 1, t => do
    let (part, rest) ← readKeyPart t
    match skipBlanks rest with
    | [] => return ([part], [])
    | c :: rest =>
      if c = '.' then (readKey limit (skipBlanks rest)).map fun (parts, after) => (part :: parts, after)
      else return ([part], c :: rest)

/-! ## Values -/

/-- Takes digits off a text; single underscores may stand between them. -/
def takeDigits (isDigit : CodePoint → Bool) : Text → Text × Text
  | [] => ([], [])
  | c :: rest =>
    if isDigit c then
      let (digits, after) := takeDigits isDigit rest
      (c :: digits, after)
    else if c = '_' ∧ rest.head?.any isDigit then
      match rest with
      | [] => ([], [c])
      | d :: rest =>
        let (digits, after) := takeDigits isDigit rest
        (d :: digits, after)
    else ([], c :: rest)

/-- The number that digits of a base stand for. -/
def valueOf (base : Nat) (digits : Text) : Nat :=
  digits.foldl (fun n c => base * n + (c.hexValue?).getD 0) 0

/-- The bases other than ten, by the letter that names them after a zero. -/
def baseOf? (c : CodePoint) : Option Nat :=
  ([('x', 16), ('o', 8), ('b', 2)] : List (CodePoint × Nat)).lookup c

def isDigitOf (base : Nat) (c : CodePoint) : Bool := c.hexValue?.any (· < base)

/-- Reads a numeral of base ten without its sign.  One that starts with a zero is over after it. -/
def readDecimal (t : Text) : Except Fault (Nat × Text) :=
  match t with
  | [] => malformed "Invalid value" []
  | c :: rest =>
    if c = '0' then .ok (0, rest)
    else if isDigitOf 10 c then
      let (digits, after) := takeDigits (isDigitOf 10) t
      if Text.digitLimit < digits.length then .error (.oversizedNumber digits.length)
      else .ok (valueOf 10 digits, after)
    else malformed "Invalid value" t

def readNumber (t : Text) : Except Fault (Int × Text) :=
  match t with
  | z :: b :: d :: rest =>
    match (if z = '0' then baseOf? b else none) with
    | some base =>
      if isDigitOf base d then
        let (digits, after) := takeDigits (isDigitOf base) (d :: rest)
        .ok (valueOf base digits, after)
      else .ok (0, b :: d :: rest)
    | none => signed
  | _ => signed
where
  signed : Except Fault (Int × Text) :=
    match t with
    | [] => malformed "Invalid value" []
    | c :: rest =>
      if c = '-' ∨ c = '+' then
        match readDecimal rest with
        | .ok (n, after) => .ok (if c = '-' then -(n : Int) else n, after)
        | .error (.oversizedNumber digits) => .error (.oversizedNumber digits)
        | .error _ => malformed "Invalid value" t
      else (readDecimal t).map fun (n, after) => ((n : Int), after)

def readDatum (t : Text) : Except Fault (Datum × Text) :=
  match t with
  | [] => malformed "Invalid value" []
  | c :: rest =>
    if c = '"' then (readBasic rest).map fun (s, after) => (.text s, after)
    else if c = '\'' then (readLiteral rest).map fun (s, after) => (.text s, after)
    else (readNumber t).map fun (n, after) => (.number n, after)

/-! ## Tables -/

/-- The data of tables, each with the parts of its whole name, and the names of the tables. -/
structure Nest where
  data : List (List Text × Datum)
  tables : List (List Text)

/-- The starts of a name, from the shortest that has a part. -/
def starts (name : List Text) : List (List Text) := (List.range name.length).map fun n => name.take (n + 1)

namespace Nest

def isDatum (nest : Nest) (name : List Text) : Bool := nest.data.any (·.1 = name)

/-- Makes a table and those around it, unless there is a datum in one of their places. -/
def open? (nest : Nest) (name : List Text) : Option Nest :=
  if (starts name).any nest.isDatum then none
  else some { nest with tables := nest.tables ++ (starts name).filter (· ∉ nest.tables) }

def has (nest : Nest) (name : List Text) : Bool := nest.isDatum name || decide (name ∈ nest.tables)

end Nest

/-- A value of a line: a datum, or the nest of a table between braces. -/
inductive Entry where
  | datum (d : Datum)
  | braces (nest : Nest)

/-- Reads a key, an equals sign, and what `read` reads. -/
def readPair {α : Type} (read : Text → Except Fault (α × Text)) (t : Text) : Except Fault ((List Text × α) × Text) := do
  let (key, rest) ← readKey t.length t
  match rest with
  | [] => malformed "Expected '=' after a key in a key/value pair" []
  | c :: rest =>
    if c = '=' then (read (skipBlanks rest)).map fun (a, after) => ((key, a), after)
    else malformed "Expected '=' after a key in a key/value pair" (c :: rest)

/-- Reads at most `limit` pairs up to a closing brace. -/
def readPairs (nest : Nest) : Nat → Text → Except Fault (Nest × Text)
  | 0, t => malformed "Unclosed inline table" t
  | limit + 1, t => do
    let ((key, datum), rest) ← readPair readDatum t
    match nest.open? key.dropLast with
    | none => malformed "Cannot overwrite a value" rest
    | some nest =>
      if nest.has key then malformed ("Duplicate inline table key " ++ (key.getLast?.getD []).display) rest
      else
        let nest := { nest with data := nest.data ++ [(key, datum)] }
        match skipBlanks rest with
        | [] => malformed "Unclosed inline table" []
        | c :: rest =>
          if c = '\x7d' then return (nest, rest)
          else if c = ',' then readPairs nest limit (skipBlanks rest)
          else malformed "Unclosed inline table" (c :: rest)

def readEntry (t : Text) : Except Fault (Entry × Text) :=
  match t with
  | [] => malformed "Invalid value" []
  | c :: rest =>
    if c = '\x7b' then
      let inside := skipBlanks rest
      if inside.head? = some ('\x7d' : CodePoint) then .ok (.braces ⟨[], []⟩, inside.drop 1)
      else (readPairs ⟨[], []⟩ inside.length inside).map fun (nest, after) => (.braces nest, after)
    else (readDatum t).map fun (d, after) => (.datum d, after)

/-! ## Statements -/

/-- What has been read of a file. -/
structure Document where
  nest : Nest
  /-- The table that the last header opened. -/
  header : List Text
  /-- The tables that a header opened; no other header may open them. -/
  opened : List (List Text)
  /-- The tables that keys with dots have opened since the last header. -/
  dotted : List (List Text)
  /-- The tables between braces, to which nothing is added. -/
  closed : List (List Text)

namespace Document

def start : Document := ⟨⟨[], []⟩, [], [], [], []⟩

def isClosed (doc : Document) (name : List Text) : Bool := (starts name).any fun n => decide (n ∈ doc.closed)

/-- A name as messages show it. -/
def displayName (name : List Text) : Text :=
  "(" ++ Text.join ", " (name.map Text.display) ++ (if name.length = 1 then ",)" else ")")

/-- Opens the table of a header, which `rest` follows. -/
def openTable (doc : Document) (name : List Text) (rest : Text) : Except Fault Document :=
  let opened := doc.opened ++ doc.dotted
  if name ∈ opened ∨ doc.isClosed name then malformed ("Cannot declare " ++ displayName name ++ " twice") rest
  else match doc.nest.open? name with
    | none => malformed "Cannot overwrite a value" rest
    | some nest => .ok { doc with nest, header := name, opened := opened ++ [name], dotted := [] }

/-- Puts an entry below the last header; `rest` follows it. -/
def put (doc : Document) (key : List Text) (entry : Entry) (rest : Text) : Except Fault Document :=
  let above := doc.header ++ key.dropLast
  let name := doc.header ++ key
  let between := (starts key.dropLast).map (doc.header ++ ·)
  match between.find? (· ∈ doc.opened) with
  | some opened => malformed ("Cannot redefine namespace " ++ displayName opened) rest
  | none =>
    if doc.isClosed above then malformed ("Cannot mutate immutable namespace " ++ displayName above) rest
    else match doc.nest.open? above with
      | none => malformed "Cannot overwrite a value" rest
      | some nest =>
        if nest.has name then malformed "Cannot overwrite a value" rest
        else
          let doc := { doc with nest, dotted := doc.dotted ++ between }
          match entry with
          | .datum d => .ok { doc with nest := { nest with data := nest.data ++ [(name, d)] } }
          | .braces inner => .ok
            { doc with
              nest := ⟨nest.data ++ inner.data.map fun (n, d) => (name ++ n, d),
                nest.tables ++ name :: inner.tables.map (name ++ ·)⟩
              closed := doc.closed ++ [name] }

end Document

/-- Checks that nothing but a comment follows. -/
def readEnd (t : Text) : Except Fault Unit :=
  match skipBlanks t with
  | [] => .ok ()
  | c :: rest =>
    if c = '\n' then .ok ()
    else if c = '#' then
      match rest.dropWhile (!isControl ·) with
      | [] => .ok ()
      | bad :: more =>
        if bad = '\n' then .ok ()
        else malformed ("Found invalid character " ++ Text.display [bad]) (bad :: more)
    else malformed "Expected newline or end of document after a statement" (c :: rest)

/-- Reads a line with its line feed. -/
def readLine (doc : Document) (line : Text) : Except Fault Document :=
  match skipBlanks line with
  | [] => .ok doc
  | c :: rest =>
    if c = '\n' then .ok doc
    else if c = '[' then do
      let (name, rest) ← readKey line.length (skipBlanks rest)
      let doc ← doc.openTable name rest
      match rest with
      | [] => malformed "Expected ']' at the end of a table declaration" []
      | c :: rest =>
        if c = ']' then
          readEnd rest
          return doc
        else malformed "Expected ']' at the end of a table declaration" (c :: rest)
    else if isBare c ∨ c = '"' ∨ c = '\'' then do
      let ((key, entry), rest) ← readPair readEntry (c :: rest)
      let doc ← doc.put key entry rest
      readEnd rest
      return doc
    else if c = '#' then do
      readEnd (c :: rest)
      return doc
    else malformed "Invalid statement" (c :: rest)

/-! ## Files -/

/-- The class and the message of a fault in the line with this number.  Where nothing is left of the line, the
place is the start of the next one. -/
def report (lineNumber : Nat) (line : Text) (isLast : Bool) : Fault → Text
  | .malformed message left =>
    let place : Text :=
      if 0 < left then
        "line " ++ Text.ofNat lineNumber ++ ", column " ++ Text.ofNat (line.length - left + 1)
      else if isLast then "end of document"
      else "line " ++ Text.ofNat (lineNumber + 1) ++ ", column 1"
    "TOMLDecodeError " ++ message ++ " (at " ++ place ++ ")"
  | .oversizedNumber digits => "ValueError " ++ Failure.oversizedMessage digits

/-- Reads lines, the first of which has this number. -/
def readLines (doc : Document) (lineNumber : Nat) : List Text → Except Text Document
  | [] => .ok doc
  | line :: rest =>
    match readLine doc line with
    | .ok doc => readLines doc (lineNumber + 1) rest
    | .error fault => .error (report lineNumber line rest.isEmpty fault)

/-- The text in which a line feed stands for each pair of a carriage return and a line feed. -/
def dropReturns : Text → Text
  | [] => []
  | [c] => [c]
  | c :: d :: rest =>
    if c = '\r' ∧ d = '\n' then dropReturns (d :: rest) else c :: dropReturns (d :: rest)

/-- The data of a table.  It may hold no other table, nor be a datum itself. -/
def Nest.table? (nest : Nest) (name : Text) : Option (List (Text × Datum)) :=
  if nest.isDatum [name] ∨ nest.tables.any (fun n => n.length > 1 ∧ n.head? = some name) then none
  else some (nest.data.filterMap fun (n, d) =>
    match n with
    | [table, key] => if table = name then some (key, d) else none
    | _ => none)

/-- Reads a file; the answer is what makes a configuration, or the class and the message of what is wrong. -/
def decode (t : Text) : Except Text Mapping := do
  let doc ← readLines .start 1 (physicalLines (dropReturns t))
  match doc.nest.table? "parser", doc.nest.table? "opcodes" with
  | some settings, some opcodes => return ⟨settings, opcodes⟩
  | _, _ => .error "TOMLDecodeError Invalid value (at end of document)"

end File
end Config
end BrailleTable
