import Crochet.Command.Arguments
import Crochet.Command.Run

/-! The command line program. -/
namespace Crochet.Command

def attempt (action : IO α) : IO (Option α) := do
  try
    let x ← action
    return some x
  catch _ => return none

def fileHost : Host IO where
  load path := attempt (IO.FS.readFile path)
  input := attempt do (← IO.getStdin).readToEnd
  store path text := return (← attempt (IO.FS.writeFile path text)).isSome

def usage : String :=
  "Usage: [-c CONFIG] [-v] validate|expand|rows|compile|stitches [OPTIONS] [PATTERN]\n"

end Crochet.Command

open Crochet.Command in
def main (words : List String) : IO UInt32 := do
  match parse words with
  | .error refusal =>
    match refusal with
    | .help => (← IO.getStdout).putStr usage
    | .usage => (← IO.getStderr).putStr usage
    return refusal.code.toUInt32
  | .ok invocation =>
    let report ← run fileHost invocation
    (← IO.getStdout).putStr report.out
    (← IO.getStderr).putStr report.err
    return report.code.toUInt32
