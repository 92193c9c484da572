/-
# The program

Reads the files that a command needs, runs the command and prints its outcome.
A question is printed as soon as it is known to be asked: the command is run
with what was typed so far, and run again once another line is typed.
-/
import CodePatch.CommandLine.Run

namespace CodePatch.Program

/-- The contents of a file, if it can be read. -/
def readFile? (path : Path) : IO (Option (List UInt8)) := do
  try
    let bytes ← IO.FS.readBinFile path
    return some bytes.toList
  catch _ => return none

/-- The contents of files by name. -/
def readFiles (paths : List Path) : IO Files := do
  let contents ← paths.mapM fun path => do return (path, ← readFile? path)
  return fun path => (contents.lookup path).join

/-- Prints a text from the character with the given number on. -/
def printFrom (text : String) (shown : Nat) : IO Unit := do
  let output ← IO.getStdout
  output.putStr (String.ofList (text.toList.drop shown))
  output.flush

/-- Runs a command, reading a line from the console for each question.  The
lines in `typed` are read already, and `shown` characters printed.  Returns the
outcome and the number of characters that are printed. -/
partial def converse (command : Command) (files : Files) (typed : List String) (shown : Nat) :
    IO (CommandOutcome × Nat) := do
  let outcome := command.run files typed
  if outcome.questions ≤ typed.length then return (outcome, shown)
  printFrom outcome.output shown
  let line ← (← IO.getStdin).getLine
  if line.isEmpty then return (outcome, outcome.output.length)
  converse command files (typed ++ [line]) outcome.output.length

/-- Prints the events of a journal that matter. -/
def printJournal (journal : Journal) (verbose : Bool) : IO Unit :=
  for event in journal do
    if verbose || event.level ≠ .info then IO.eprintln event.line

/-- Runs the command that the words of a command line give, and returns the exit
code: that of its failure for a command that failed, 2 for words that give none. -/
def run (words : List String) : IO UInt32 := do
  match Command.ofWords? words with
  | none =>
    IO.eprintln "usage: hackpoint [-v] eval|render|apply|hexdump|offset ..."
    return 2
  | some (command, verbose) =>
    let (outcome, shown) ← converse command (← readFiles command.paths) [] 0
    printJournal outcome.journal verbose
    printFrom outcome.output shown
    match outcome.failure with
    | none => return 0
    | some cause =>
      IO.eprintln ("Error: " ++ cause.message)
      return cause.exitCode

end CodePatch.Program

def main (words : List String) : IO UInt32 :=
  CodePatch.Program.run words
