import VoiceScript.Cli.Arguments

namespace VoiceScript.Cli

/-- Why the system could not do something with a file. -/
def systemReason : IO.Error → String
  | .noFileOrDirectory .. => "No such file or directory (os error 2)"
  | .permissionDenied .. => "Permission denied (os error 13)"
  | .inappropriateType _ 20 _ => "Not a directory (os error 20)"
  | .inappropriateType .. => "Is a directory (os error 21)"
  | e => toString e

partial def readAll (input : IO.FS.Stream) (sofar : String) : IO String := do
  let line ← input.getLine
  if line.isEmpty then return sofar else readAll input (sofar ++ line)

def attempt {α : Type} (action : IO α) : IO (Except String α) := do
  try return .ok (← action) catch e => return .error (systemReason e)

/-- The machine that the program runs on. -/
def machine (terminal : Bool) : System IO where
  readFile path := attempt do return (← IO.FS.readFile path).toList
  readStdin := attempt do return (← readAll (← IO.getStdin) "").toList
  writeFile path text := attempt (IO.FS.writeFile path (String.ofList text))
  terminal := terminal

def summary : List Char :=
  let verbs := "|".intercalate (Verb.all.map Verb.name)
  s!"usage: ({verbs}) [options] FILE\n".toList

def texts : Arguments.Texts where
  help _ := summary
  usage _ := summary

end VoiceScript.Cli

open VoiceScript.Cli in
def main (words : List String) : IO UInt32 := do
  let stdout ← IO.getStdout
  let stderr ← IO.getStderr
  let terminal := (← stdout.isTty) && (← stderr.isTty)
  let outcome ← run (Arguments.take texts) (machine terminal) words
  stderr.putStr (String.ofList outcome.stderr)
  stdout.putStr (String.ofList outcome.stdout)
  return outcome.exit.toUInt32
