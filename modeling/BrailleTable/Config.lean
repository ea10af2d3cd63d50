/-
Configurations: what a mapping of settings and opcodes makes.

A setting is given as a text or as a number.  The depth, the dot alphabet and the comment character are
checked when the configuration is made, so they are of their types.  The marker and the keywords are kept
as they are given: one that is no text shows only when a table is read.
-/
import BrailleTable.Dialect

namespace BrailleTable
namespace Dialect

/-- What a setting is given as. -/
inductive Datum where
  | text (t : Text)
  | number (n : Int)
deriving DecidableEq

namespace Datum

def isText : Datum → Bool
  | .text _ => true
  | .number _ => false

/-- The text that is given; a number stands for the empty one. -/
def textOrEmpty : Datum → Text
  | .text t => t
  | .number _ => []

end Datum

inductive Setting where
  | continuationMarker
  | commentChar
  | dotAlphabet
  | maxDepth
  | testKeyword
  | actionKeyword
deriving DecidableEq

namespace Setting

def all : List Setting :=
  [.continuationMarker, .commentChar, .dotAlphabet, .maxDepth, .testKeyword, .actionKeyword]

def label : Setting → Text
  | .continuationMarker => "continuation_marker"
  | .commentChar => "comment_char"
  | .dotAlphabet => "dot_alphabet"
  | .maxDepth => "max_depth"
  | .testKeyword => "test_keyword"
  | .actionKeyword => "action_keyword"

def ofLabel? (t : Text) : Option Setting := all.find? (·.label = t)

end Setting

/-- What keeps a mapping from making a configuration. -/
inductive Fault where
  /-- The names that are not settings, in ascending order. -/
  | unknownSettings (names : List Text)
  | depthIsText
  | depthTooSmall
  | dotAlphabetIsNumber
  | badDotAlphabet (bad : Text)
  | commentCharIsNumber
  | commentCharLength
  | shape (fault : Shape.Fault)
  | shapeIsNumber

end Dialect

namespace Shape.Fault

def message : Shape.Fault → Text
  | .badSlot opcode slot => "opcode " ++ opcode.display ++ ": bad argument slot " ++ slot.display
  | .unknownKind opcode kind => "opcode " ++ opcode.display ++ ": unknown argument kind " ++ kind.display
  | .repeatNotLast opcode => "opcode " ++ opcode.display ++ ": only the last slot may repeat"
  | .oversizedBound digits => Failure.oversizedMessage digits

end Shape.Fault

namespace Dialect.Fault

/-- The class of a fault.  Only those of values are looked for when a configuration is loaded. -/
def label : Fault → Text
  | .depthIsText | .dotAlphabetIsNumber | .commentCharIsNumber => "TypeError"
  | .shapeIsNumber => "AttributeError"
  | _ => "ValueError"

def isValueError (fault : Fault) : Bool := fault.label = "ValueError"

def message : Fault → Text
  | .unknownSettings names => "Unknown [parser] settings: " ++ Text.join ", " names
  | .depthIsText => "'<' not supported between instances of 'str' and 'int'"
  | .depthTooSmall => "max_depth must be at least 1"
  | .dotAlphabetIsNumber => "'int' object is not iterable"
  | .badDotAlphabet bad => "dot_alphabet may only contain 0-9 and a-f, got " ++ bad.display
  | .commentCharIsNumber => "object of type 'int' has no len()"
  | .commentCharLength => "comment_char must be a single character"
  | .shape fault => fault.message
  | .shapeIsNumber => "'int' object has no attribute 'startswith'"

end Dialect.Fault

open Dialect (Datum Setting Fault)

/-- What a table is read by.  The conditions on the depth and on the dot alphabet hold for every
configuration that can be made. -/
structure Config where
  vocabulary : Vocabulary
  continuationMarker : Datum
  commentChar : CodePoint
  dotAlphabet : Text
  maxDepth : Nat
  testKeyword : Datum
  actionKeyword : Datum
  maxDepth_pos : 0 < maxDepth
  dotAlphabet_digits : ∀ c ∈ dotAlphabet, TokenKind.isDotDigit c = true

namespace Config

/-- The marker and the keywords are texts. -/
def IsTyped (c : Config) : Prop :=
  c.continuationMarker.isText ∧ c.testKeyword.isText ∧ c.actionKeyword.isText

instance (c : Config) : Decidable c.IsTyped := inferInstanceAs (Decidable (_ ∧ _ ∧ _))

/-- The dialect of a configuration, in which an empty text stands for what is given as a number. -/
def dialect (c : Config) : Dialect where
  vocabulary := c.vocabulary
  continuationMarker := c.continuationMarker.textOrEmpty
  commentChar := c.commentChar
  dotAlphabet := c.dotAlphabet
  maxDepth := c.maxDepth
  testKeyword := c.testKeyword.textOrEmpty
  actionKeyword := c.actionKeyword.textOrEmpty
  maxDepth_pos := c.maxDepth_pos
  dotAlphabet_digits := c.dotAlphabet_digits

/-! ## Settings -/

/-- A datum for every setting. -/
abbrev Settings := Setting → Datum

namespace Settings

def put (s : Settings) (k : Setting) (datum : Datum) : Settings := fun k' => if k' = k then datum else s k'

/-- Puts in the entries of a list one after the other. -/
def putAll (s : Settings) (entries : List (Setting × Datum)) : Settings :=
  entries.foldl (fun s (k, datum) => s.put k datum) s

end Settings

def settings (c : Config) : Settings
  | .continuationMarker => c.continuationMarker
  | .commentChar => .text [c.commentChar]
  | .dotAlphabet => .text c.dotAlphabet
  | .maxDepth => .number c.maxDepth
  | .testKeyword => c.testKeyword
  | .actionKeyword => c.actionKeyword

def checkDepth : Datum → Except Fault { n : Nat // 0 < n }
  | .text _ => .error .depthIsText
  | .number n => if h : 0 < n.toNat then .ok ⟨n.toNat, h⟩ else .error .depthTooSmall

def checkDotAlphabet : Datum → Except Fault { t : Text // ∀ c ∈ t, TokenKind.isDotDigit c = true }
  | .number _ => .error .dotAlphabetIsNumber
  | .text t =>
    if h : ∀ c ∈ t, TokenKind.isDotDigit c = true then .ok ⟨t, h⟩
    else .error (.badDotAlphabet (t.filter (!TokenKind.isDotDigit ·)))

def checkCommentChar : Datum → Except Fault CodePoint
  | .number _ => .error .commentCharIsNumber
  | .text [c] => .ok c
  | .text _ => .error .commentCharLength

/-- Checks the depth, then the dot alphabet, then the comment character. -/
def ofSettings (vocabulary : Vocabulary) (s : Settings) : Except Fault Config := do
  let depth ← checkDepth (s .maxDepth)
  let dots ← checkDotAlphabet (s .dotAlphabet)
  let comment ← checkCommentChar (s .commentChar)
  return { vocabulary, continuationMarker := s .continuationMarker, commentChar := comment,
           dotAlphabet := dots.1, maxDepth := depth.1, testKeyword := s .testKeyword,
           actionKeyword := s .actionKeyword, maxDepth_pos := depth.2, dotAlphabet_digits := dots.2 }

def standard : Config where
  vocabulary := .standard
  continuationMarker := .text "\\"
  commentChar := '#'
  dotAlphabet := "0123456789abcdef"
  maxDepth := 32
  testKeyword := .text "test"
  actionKeyword := .text "actions"
  maxDepth_pos := Dialect.standard.maxDepth_pos
  dotAlphabet_digits := Dialect.standard.dotAlphabet_digits

def withSettings (c : Config) (entries : List (Setting × Datum)) : Except Fault Config :=
  ofSettings c.vocabulary (c.settings.putAll entries)

/-- Reads the names of settings; those that are none are all reported, before any datum is looked at. -/
def readSettings (entries : List (Text × Datum)) : Except Fault (List (Setting × Datum)) :=
  match (entries.map (·.1)).filter fun name => (Setting.ofLabel? name).isNone with
  | [] => .ok (entries.filterMap fun (name, datum) => (Setting.ofLabel? name).map (·, datum))
  | unknown => .error (.unknownSettings (Text.sortedSet unknown))

/-! ## Opcodes -/

/-- Reads the shapes of opcodes; the first fault ends the reading. -/
def readShapes : List (Text × Datum) → Except Fault (List Shape)
  | [] => .ok []
  | (_, .number _) :: _ => .error .shapeIsNumber
  | (name, .text written) :: rest => do
    let s ← (Shape.readEntry name written).mapError .shape
    return s :: (← readShapes rest)

def withOpcodes (c : Config) (entries : List (Text × Datum)) : Except Fault Config := do
  let shapes ← readShapes entries
  return { c with vocabulary := c.vocabulary.putAll shapes }

/-- The configuration that a mapping of settings and one of opcodes make. -/
def ofMapping (settings opcodes : List (Text × Datum)) : Except Fault Config := do
  let c ← standard.withSettings (← readSettings settings)
  c.withOpcodes opcodes

end Config

namespace Dialect

/-- An opcode whose shape is given as a text. -/
def textEntry (entry : Text × Text) : Text × Datum := (entry.1, .text entry.2)

/-- The dialect of the configuration that settings and written shapes make.  There is none if they make no
configuration, and none (without a fault) of a configuration with a marker or a keyword that is no text. -/
def configure (settings : List (Text × Datum)) (opcodes : List (Text × Text)) :
    Except (Option Fault) Dialect :=
  match Config.ofMapping settings (opcodes.map textEntry) with
  | .error fault => .error (some fault)
  | .ok c => if c.IsTyped then .ok c.dialect else .error none

end Dialect

end BrailleTable
