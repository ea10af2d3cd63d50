/-
JSON values and their indented writing.
-/
import BrailleTable.Text

namespace BrailleTable

/-- A JSON value.  The members of an object keep their order. -/
inductive Json where
  | null
  | number (n : Int)
  | text (t : Text)
  | list (items : List Json)
  | object (members : List (Text × Json))

namespace Json

/-- A code point inside a JSON string.  Only quotes, backslashes and controls are escaped. -/
def escapeOne (c : CodePoint) : Text :=
  if c = '"' ∨ c = '\\' then ['\\', c]
  else if c = '\n' then "\\n"
  else if c = '\r' then "\\r"
  else if c = '\t' then "\\t"
  else if c.val = 8 then "\\b"
  else if c.val = 12 then "\\f"
  else if c.val < 0x20 then "\\u" ++ Text.hex 4 c.val
  else [c]

def string (t : Text) : Text := "\"" ++ t.flatMap escapeOne ++ "\""

/-- A line break and the indentation of a level. -/
def newLine (level : Nat) : Text := "\n" ++ List.replicate (2 * level) (' ' : CodePoint)

/-- Puts items between brackets, each on a line of its own one level further in. -/
def block (opening closing : Text) (level : Nat) (items : List Text) : Text :=
  match items with
  | [] => opening ++ closing
  | items =>
    opening ++ newLine (level + 1) ++ Text.join ("," ++ newLine (level + 1)) items ++ newLine level ++
      closing

mutual
/-- Writes a value that stands at a level of indentation. -/
def indented (level : Nat) : Json → Text
  | .null => "null"
  | .number n => Text.ofInt n
  | .text t => string t
  | .list items => block "[" "]" level (indentedAll (level + 1) items)
  | .object members => block "\x7b" "\x7d" level (indentedMembers (level + 1) members)

def indentedAll (level : Nat) : List Json → List Text
  | [] => []
  | j :: rest => indented level j :: indentedAll level rest

def indentedMembers (level : Nat) : List (Text × Json) → List Text
  | [] => []
  | (key, j) :: rest => (string key ++ ": " ++ indented level j) :: indentedMembers level rest
end

/-- Writes a value over several lines, two spaces for each level. -/
def write (j : Json) : Text := j.indented 0

def texts (ts : List Text) : Json := .list (ts.map .text)

def optional : Option Text → Json
  | none => .null
  | some t => .text t

end Json
end BrailleTable
