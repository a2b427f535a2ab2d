/-
  The command line: reads the file that is asked for, and prints the answer.
-/
import JuiceSyntax.Command.Run

namespace JuiceSyntax

def readContent (file : String) : IO FileContent := do
  try
    return .ofBytes (← IO.FS.readBinFile file)
  catch _ =>
    return .absent

def usage : String :=
  "usage: juice lex FILE\n       juice parse|check FILE [--strict] [--max-depth N] [--max-errors N] " ++
    "[--format text|json]\n       juice explain [CODE]\n"

/-- Colours are off if `NO_COLOR` is set, and else on if `FORCE_COLOR` is. -/
def wantsColour : IO Bool := do
  if (← IO.getEnv "NO_COLOR").isSome then
    return false
  return (← IO.getEnv "FORCE_COLOR").isSome

end JuiceSyntax

open JuiceSyntax in
def main (args : List String) : IO UInt32 := do
  match Request.ofArguments? args with
  | none =>
    (← IO.getStderr).putStr usage
    return 2
  | some request =>
    let content ← match request.file? with
      | some file => readContent file
      | none => pure .absent
    let outcome := Surroundings.answer ⟨← wantsColour, fun _ => content⟩ request
    (← IO.getStdout).putStr outcome.output
    (← IO.getStderr).putStr outcome.errors
    return outcome.status.toUInt32
