/-
The program: reads the files that its arguments name and prints what the run prints.
-/
import BrailleTable.Command

namespace BrailleTable
namespace Main

/-- A text as a string.  Surrogates, which no string holds, are replaced. -/
def toString (t : Text) : String :=
  String.ofList (t.map fun c => (c.toChar?).getD (Char.ofNat 0xfffd))

/-- Opens a file. -/
def openFile (path : Text) : IO Command.FileContent := do
  try
    let bytes ← IO.FS.readBinFile (toString path)
    return .bytes bytes.toList
  catch e =>
    match e with
    | .noFileOrDirectory _ _ _ => return .missing
    | .inappropriateType _ _ _ => return .directory
    | _ => return .notDirectory

/-- Opens the files that an invocation names. -/
def openFiles (inv : Command.Invocation) : IO Command.Files := do
  let paths := inv.config.toList ++ (inv.file.map Command.normalizePath).toList
  let contents ← paths.mapM fun path => return (path, ← openFile path)
  return fun path => (contents.lookup path).getD .missing

/-- Ends with what nothing answered. -/
def abort (message : Text) : IO UInt32 := do
  IO.eprintln (toString message)
  return 1

end Main
end BrailleTable

open BrailleTable in
def main (args : List String) : IO UInt32 := do
  let args := args.map Text.ofString
  match Command.readArguments args with
  | .error stop =>
    IO.eprintln "usage: check FILE [--keep-going] | lex (FILE | --text TEXT) | dump FILE [--json]"
    return UInt32.ofNat stop.exitCode
  | .ok inv =>
    let host : Command.Host := { files := ← Main.openFiles inv, decode := Config.File.decode, console := .utf8 }
    let (ending, screen) := Command.run host args
    IO.print (Main.toString screen.out)
    IO.eprint (Main.toString screen.err)
    match ending with
    | .exit code => return UInt32.ofNat code
    | .stopped stop => return UInt32.ofNat stop.exitCode
    | .failed failure => Main.abort failure.message
    | .unconfigured fault => Main.abort fault.message
    | .unprintable fault => Main.abort fault.message
    | .unencodable fault => Main.abort fault.message
