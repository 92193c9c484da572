/-
# Questions about missing handlers

A breakpoint whose handler is missing is skipped, or whoever runs the program
is asked whether to go on without it.  The answers are either known beforehand,
after which everything is agreed to, or read line by line from a console.  A
console asks again until it gets an answer, and takes the end of its input for
a refusal.
-/
import CodePatch.Text.Ascii
import CodePatch.Text.Blank

namespace CodePatch

/-- What to do about a missing handler. -/
inductive SymbolPolicy where
  /-- Say so and go on. -/
  | warn
  /-- Ask whether to go on. -/
  | prompt
deriving DecidableEq, Repr, Inhabited

namespace SymbolPolicy

def all : List SymbolPolicy :=
  [.warn, .prompt]

def name : SymbolPolicy → String
  | .warn => "warn"
  | .prompt => "prompt"

/-- The policy with this name, in any case. -/
def ofName? (text : List Char) : Option SymbolPolicy :=
  all.find? fun p => Text.sameLetters p.name.toList text

end SymbolPolicy

/-- Where answers come from. -/
inductive Answers where
  | known (answers : List Bool)
  | console (lines : List String)
deriving DecidableEq, Repr

/-- Someone who can be asked, and what was asked so far. -/
structure Prompter where
  answers : Answers
  /-- The name in each question, the earliest first. -/
  asked : List String := []
deriving DecidableEq, Repr

namespace Prompter

/-- The question about the handler `name`. -/
def question (name : String) : String :=
  s!"Breakpoint function '{name}' not found. Continue without it? [y/n] "

/-- The answer that a line gives, if it gives one. -/
def answer? (line : String) : Option Bool :=
  match String.ofList ((Text.trim line.toList).map Char.toLower) with
  | "y" | "yes" => some true
  | "n" | "no" => some false
  | _ => none

/-- The first answer that the lines give, the number of questions it took, and
the lines behind it. -/
def readAnswer : List String → Bool × Nat × List String
  | [] => (false, 1, [])
  | line :: rest =>
    match answer? line with
    | some answer => (answer, 1, rest)
    | none =>
      let (answer, questions, rest) := readAnswer rest
      (answer, questions + 1, rest)

/-- Asks whether to go on without the handler `name`. -/
def ask (p : Prompter) (name : String) : Bool × Prompter :=
  match p.answers with
  | .known [] => (true, ⟨.known [], p.asked ++ [name]⟩)
  | .known (answer :: rest) => (answer, ⟨.known rest, p.asked ++ [name]⟩)
  | .console lines =>
    let (answer, questions, rest) := readAnswer lines
    (answer, ⟨.console rest, p.asked ++ List.replicate questions name⟩)

end Prompter
end CodePatch
