import Highlighter.CommandLine

/-!
The command as a program: it reads the files that the arguments name, and writes the outcome.
-/

open Highlighter

/-- The content of a file, if it can be read and is a text. -/
def contentOf (path : String) : IO (Except FileError Text) := do
  try
    let bytes ← IO.FS.readBinFile path
    match String.fromUTF8? bytes with
    | some s => return .ok s.toList
    | none => return .error .notUtf8
  catch e =>
    match e with
    | .permissionDenied .. => return .error .notAllowed
    | .inappropriateType _ code _ =>
      return .error (if code = 20 then .notDirectory else .isDirectory)
    | _ => return .error .notFound

def main (args : List String) : IO UInt32 := do
  let contents ← (CommandLine.pathsOf args).mapM fun path ↦ do return (path, ← contentOf path)
  let outcome := CommandLine.run (fun path ↦ (contents.lookup path).getD (.error .notFound)) args
  IO.print (String.ofList outcome.output)
  match outcome.failure with
  | some e => IO.eprintln ("Error: " ++ e.message)
  | none => pure ()
  return outcome.exitCode.toUInt32
