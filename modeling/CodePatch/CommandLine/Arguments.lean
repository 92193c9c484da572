/-
# Arguments

The words of a command line, sorted into options and operands.  An option is
spelled `--name`, and `-n` if it has a letter.  Some are flags; the others take
a value, as the next word or in the same one: `--name=value`, `-n=value` or
`-nvalue`.  Letters of flags may share a word.  A value in a word of its own
must not look like an option.  Behind `--` every word is an operand.

What an option may be given is decided by whoever reads the sorted words; that
an option which takes a single value, or a flag, is given twice is refused
here already.
-/
import CodePatch.Text.Ascii

namespace CodePatch

/-- What can be given with an option. -/
inductive OptionKind where
  | flag
  | single
  | repeated
deriving DecidableEq, Repr

/-- An option of a command. -/
structure CommandOption where
  name : String
  letter : Option Char := none
  kind : OptionKind
deriving DecidableEq, Repr

/-- The words of a command line, sorted. -/
structure Arguments where
  /-- The options given, with their values; the value of a flag is empty. -/
  options : List (String × String) := []
  operands : List String := []
deriving DecidableEq, Repr, Inhabited

namespace Arguments

/-- Is the option given? -/
def has (a : Arguments) (name : String) : Bool :=
  a.options.any (·.1 == name)

/-- The values of an option, in the order given. -/
def values (a : Arguments) (name : String) : List String :=
  (a.options.filter (·.1 == name)).map (·.2)

/-- The value of an option that takes one, if it is given. -/
def value? (a : Arguments) (name : String) : Option String :=
  a.options.lookup name

/-- The arguments with an option more, if it may be given again. -/
def add (a : Arguments) (option : CommandOption) (value : List Char) : Option Arguments :=
  if option.kind ≠ .repeated ∧ a.has option.name then none
  else some { a with options := a.options ++ [(option.name, String.ofList value)] }

def addOperand (a : Arguments) (word : List Char) : Arguments :=
  { a with operands := a.operands ++ [String.ofList word] }

/-- Does a word look like an option?  A lone dash does not. -/
def looksLikeOption : List Char → Bool
  | '-' :: _ :: _ => true
  | _ => false

/-- What was read of a word that is no operand. -/
inductive Reading where
  | complete (arguments : Arguments)
  /-- The value of the option is the next word. -/
  | pending (arguments : Arguments) (option : CommandOption)

/-- Reads the long option `--name` or `--name=value`, without its dashes. -/
def readLong (known : List CommandOption) (a : Arguments) (word : List Char) : Option Reading := do
  let (name, value) := match Text.splitFirst? '=' word with
    | some (name, value) => (name, some value)
    | none => (word, none)
  let option ← known.find? (·.name.toList == name)
  match option.kind, value with
  | .flag, none => (a.add option []).map .complete
  | .flag, some _ => none
  | _, some value => (a.add option value).map .complete
  | _, none => some (.pending a option)

/-- Reads the letters of a word, without its dash. -/
def readLetters (known : List CommandOption) : Arguments → List Char → Option Reading
  | a, [] => some (.complete a)
  | a, letter :: rest => do
    let option ← known.find? (·.letter == some letter)
    if option.kind = .flag then
      let a ← a.add option []
      readLetters known a rest
    else
      match rest with
      | [] => some (.pending a option)
      | '=' :: value => (a.add option value).map .complete
      | value => (a.add option value).map .complete

/-- Reads a word that looks like an option. -/
def readOption (known : List CommandOption) (a : Arguments) (word : List Char) : Option Reading :=
  match word with
  | '-' :: '-' :: long => readLong known a long
  | _ :: letters => readLetters known a letters
  | [] => none

/-- Sorts words behind those sorted already; `none` if they make no sense. -/
def sortBehind (known : List CommandOption) : Arguments → List (List Char) → Option Arguments
  | a, [] => some a
  | a, word :: rest =>
    if word = ['-', '-'] then some (rest.foldl addOperand a)
    else if looksLikeOption word then
      match readOption known a word with
      | none => none
      | some (.complete a) => sortBehind known a rest
      | some (.pending a option) =>
        match rest with
        | [] => none
        | value :: rest =>
          if looksLikeOption value then none
          else
            match a.add option value with
            | none => none
            | some a => sortBehind known a rest
    else sortBehind known (a.addOperand word) rest

/-- Sorts words; `none` if they make no sense. -/
def sort (known : List CommandOption) (words : List String) : Option Arguments :=
  sortBehind known {} (words.map String.toList)

end Arguments
end CodePatch
