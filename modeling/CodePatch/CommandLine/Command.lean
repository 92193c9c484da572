/-
# Commands

What the program can be asked to do, and how that is said on the command line.
Every command but one works on a simulated process: an image in memory, and
names bound to addresses.
-/
import CodePatch.CommandLine.Arguments
import CodePatch.Prompter
import CodePatch.Text.Blank
import CodePatch.Text.Numeral

namespace CodePatch

/-- A value that does not make sense. -/
inductive ValueError where
  | address (text : String) (cause : Text.NumeralError)
deriving DecidableEq, Repr

def ValueError.message : ValueError → String
  | .address text cause => s!"Invalid hex address '{text}': {cause.message}"

/-- A file name. -/
abbrev Path := String

/-- The process that a command works on. -/
structure Target where
  /-- The file with the image; without one, the image is all no-ops. -/
  image : Option Path := none
  base : UInt32 := 0x400000
  /-- The size of an image without a file. -/
  imageSize : UInt32 := 0x10000
  symbols : List (String × UInt32) := []
deriving DecidableEq, Repr

/-- What the program is asked to do. -/
inductive Command where
  /-- Show the value of an expression. -/
  | eval (expression : String) (registers : List (String × UInt32)) (config : Option Path)
      (target : Target)
  /-- Show the bytes of a code string at an address. -/
  | render (code : String) (address : UInt32) (config : Option Path) (target : Target)
  /-- Apply a configuration and report on it. -/
  | apply (config : Path) (stubHandlers : Bool) (policy : SymbolPolicy) (json : Bool)
      (target : Target)
  /-- List memory. -/
  | hexdump (address : UInt32) (size : Nat) (ascii : Bool) (config : Option Path) (target : Target)
  /-- Show the distance between two addresses. -/
  | offset (start finish : String)
deriving DecidableEq, Repr

namespace Command

/-! ## Values -/

/-- An address in hexadecimal, with `0x` in front or without. -/
def readAddress (text : String) : Except ValueError UInt32 :=
  let digits := Text.trim text.toList
  (Text.readHexAddress digits).mapError (.address (String.ofList digits))

def address? (text : String) : Option UInt32 :=
  (readAddress text).toOption

/-- A name and an address, with `=` between them. -/
def assignment? (text : String) : Option (String × UInt32) := do
  let (name, value) ← Text.splitFirst? '=' text.toList
  let name := Text.trim name
  let address ← address? (String.ofList value)
  if name.isEmpty then none else return (String.ofList name, address)

def path? (text : String) : Option Path :=
  if text.isEmpty then none else some text

def count? (text : String) : Option Nat :=
  (Text.readUnsigned 10 UInt64.size text.toList).toOption

/-- The value of an option as `read` understands it, or a default one. -/
def given {α : Type} (a : Arguments) (name : String) (read : String → Option α) (default : α) :
    Option α :=
  match a.value? name with
  | none => some default
  | some text => read text

/-- The value of an option that has no default. -/
def given? {α : Type} (a : Arguments) (name : String) (read : String → Option α) :
    Option (Option α) :=
  given a name (fun text => (read text).map some) none

/-- The only operand. -/
def operand? (a : Arguments) : Option String :=
  match a.operands with
  | [operand] => some operand
  | _ => none

/-! ## Options -/

def verboseOption : CommandOption := { name := "verbose", letter := 'v', kind := .flag }

def configOption : CommandOption := { name := "config", letter := 'c', kind := .single }

/-- The options that describe the process. -/
def targetOptions : List CommandOption :=
  [{ name := "image", kind := .single }, { name := "base", kind := .single },
   { name := "image-size", kind := .single },
   { name := "symbol", letter := 's', kind := .repeated }, verboseOption]

/-- The process that the options describe. -/
def targetOf (a : Arguments) : Option Target := do
  let image ← given? a "image" path?
  let base ← given a "base" address? 0x400000
  let imageSize ← given a "image-size" address? 0x10000
  let symbols ← (a.values "symbol").mapM assignment?
  return { image, base, imageSize, symbols }

/-! ## Reading a command -/

/-- How the words behind the name of a command are read. -/
structure Grammar where
  options : List CommandOption
  read : Arguments → Option Command

def evalGrammar : Grammar where
  options := { name := "reg", letter := 'r', kind := .repeated } :: configOption :: targetOptions
  read a := do
    let expression ← operand? a
    let registers ← (a.values "reg").mapM assignment?
    let config ← given? a "config" path?
    return .eval expression registers config (← targetOf a)

def renderGrammar : Grammar where
  options := { name := "at", kind := .single } :: configOption :: targetOptions
  read a := do
    let code ← operand? a
    let address ← given a "at" address? 0x401000
    let config ← given? a "config" path?
    return .render code address config (← targetOf a)

def applyGrammar : Grammar where
  options := { name := "stub-handlers", kind := .flag } :: { name := "policy", kind := .single } ::
    { name := "json", kind := .flag } :: targetOptions
  read a := do
    let operand ← operand? a
    let config ← path? operand
    let policy ← given a "policy" (fun text => SymbolPolicy.ofName? text.toList) .warn
    return .apply config (a.has "stub-handlers") policy (a.has "json") (← targetOf a)

def hexdumpGrammar : Grammar where
  options := { name := "size", letter := 'n', kind := .single } ::
    { name := "ascii", kind := .flag } :: configOption :: targetOptions
  read a := do
    let operand ← operand? a
    let address ← address? operand
    let size ← given a "size" count? 64
    let config ← given? a "config" path?
    return .hexdump address size (a.has "ascii") config (← targetOf a)

def offsetGrammar : Grammar where
  options := [verboseOption]
  read a :=
    match a.operands with
    | [start, finish] => some (.offset start finish)
    | _ => none

/-- The commands by name. -/
def grammars : List (String × Grammar) :=
  [("eval", evalGrammar), ("render", renderGrammar), ("apply", applyGrammar),
   ("hexdump", hexdumpGrammar), ("offset", offsetGrammar)]

/-- Is a word the flag that may stand before the name of a command? -/
def isVerbose (word : String) : Bool :=
  word == "-v" || word == "--verbose"

/-- The command that the words from its name on give, and whether the flag for
more messages is among them. -/
def ofNamed? : List String → Option (Command × Bool)
  | [] => none
  | name :: words => do
    let grammar ← grammars.lookup name
    let a ← Arguments.sort grammar.options words
    let command ← grammar.read a
    return (command, a.has verboseOption.name)

/-- The command that the words of a command line give, and whether they ask for
more messages; `none` if they are not used as they should be. -/
def ofWords? : List String → Option (Command × Bool)
  | [] => none
  | first :: rest =>
    if isVerbose first then (ofNamed? rest).map fun (command, _) => (command, true)
    else ofNamed? (first :: rest)

/-- The files that a command reads. -/
def paths : Command → List Path
  | .eval _ _ config target | .render _ _ config target | .hexdump _ _ _ config target =>
    target.image.toList ++ config.toList
  | .apply config _ _ _ target => target.image.toList ++ [config]
  | .offset _ _ => []

end Command
end CodePatch
