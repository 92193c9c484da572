/-
# What can go wrong

Every failure is a cause with the data that it is about, and its wording is
one function of the cause.  `ExpressionError` and `CodeError` are the failures
of the two small languages, `ConfigError` those of a configuration entry, and
`PatchError` any failure of an operation of the library.

Some expression errors are of another kind than the rest: a name that does not
resolve.  Whoever writes code into memory may put zeros for such a name, but
has to give up on text that is malformed.
-/
import CodePatch.Memory.Error
import CodePatch.Json.Printer

namespace CodePatch

/-- Why an expression has no value.  Offsets count bytes of its text. -/
inductive ExpressionError where
  | unmatchedGrouping (offset : Nat)
  | unmatchedValueBrackets (offset : Nat)
  | unknownCharacter (character : Char) (offset : Nat)
  | unexpectedEnd (offset : Nat)
  | optionNotFound (name : String)
  | caveNotFound (name : String)
  | symbolNotFound (name : String)
  | dereferenceWithoutRegisters (offset : Nat)
  | memoryUnreadable (address : UInt32) (size : Nat)
  | divisionByZero (offset : Nat)
  | nestingTooDeep (offset : Nat)
deriving DecidableEq, Repr

namespace ExpressionError

def message : ExpressionError → String
  | .unmatchedGrouping offset => s!"Unmatched grouping brackets at offset {offset}"
  | .unmatchedValueBrackets offset => s!"Unmatched patch value brackets at offset {offset}"
  | .unknownCharacter c offset => s!"Unknown character '{c}' at offset {offset}"
  | .unexpectedEnd offset => s!"Unexpected end of expression at offset {offset}"
  | .optionNotFound name => s!"Option '{name}' not found"
  | .caveNotFound name => s!"Code cave '{name}' not found"
  | .symbolNotFound name => s!"Symbol '{name}' not found"
  | .dereferenceWithoutRegisters offset =>
    s!"Dereference at offset {offset} needs a register context"
  | .memoryUnreadable a size => s!"Cannot read {size} bytes at {Text.address a}"
  | .divisionByZero offset => s!"Division by zero at offset {offset}"
  | .nestingTooDeep offset => s!"Expression nested too deeply at offset {offset}"

/-- Is it a name that did not resolve, rather than malformed text? -/
def isUnresolved : ExpressionError → Bool
  | .optionNotFound _ | .caveNotFound _ | .symbolNotFound _ => true
  | _ => false

end ExpressionError

/-- Why a code string does not compile.  Offsets count bytes of its text. -/
inductive CodeError where
  | nestedPointer (offset : Nat)
  | unterminatedPointer (offset : Nat)
  | emptyPointer (offset : Nat)
  | unterminatedExpression (offset : Nat)
  | unknownWidth (width : String) (offset : Nat)
  | invalidLiteral (text : String) (offset : Nat)
  | malformedCharacter (character : Char) (offset : Nat)
deriving DecidableEq, Repr

def CodeError.message : CodeError → String
  | .nestedPointer offset => s!"Nested pointer brackets at offset {offset}"
  | .unterminatedPointer offset => s!"Pointer name starting at offset {offset} is not terminated"
  | .emptyPointer offset => s!"Empty pointer name at offset {offset}"
  | .unterminatedExpression offset =>
    s!"Sized expression starting at offset {offset} is not terminated"
  | .unknownWidth width offset => s!"Unknown value width '{width}' at offset {offset}"
  | .invalidLiteral text offset => s!"Invalid numeric literal '{text}' at offset {offset}"
  | .malformedCharacter c offset => s!"Unexpected character '{c}' at offset {offset}"

/-! ## Configuration entries -/

/-- What is wrong with an option. -/
inductive OptionProblem where
  | missingType
  | unknownType (type : String)
  | missingValue
  | notInteger
  | notNumber
  | notText
deriving DecidableEq, Repr

def OptionProblem.message : OptionProblem → String
  | .missingType => "missing 'type'"
  | .unknownType type => s!"unknown type '{type}'"
  | .missingValue => "missing 'val'"
  | .notInteger => "'val' is not an integer"
  | .notNumber => "'val' is not a number"
  | .notText => "'val' is not a string"

/-- What is wrong with a code cave. -/
inductive CaveProblem where
  | plusInName
  | badCode
  | accessNotText
  | unknownAccess (access : String)
  | notCount (key : String)
  | tooLarge (key : String)
  | fillTooLarge
  | wrongShape
deriving DecidableEq, Repr

def CaveProblem.message : CaveProblem → String
  | .plusInName => "name contains illegal character '+'"
  | .badCode => "bad code"
  | .accessNotText => "'access' is not a string"
  | .unknownAccess access => s!"unknown access '{access}'"
  | .notCount key => s!"'{key}' is not a positive integer"
  | .tooLarge key => s!"'{key}' is too large"
  | .fillTooLarge => "'fill' does not fit in a byte"
  | .wrongShape => "not a string or object"

/-- What is wrong with a binary hack. -/
inductive BinhackProblem where
  | notObject
  | missingCode
  | missingAddress
deriving DecidableEq, Repr

def BinhackProblem.message : BinhackProblem → String
  | .notObject => "not an object"
  | .missingCode => "missing 'code'"
  | .missingAddress => "missing 'addr'"

/-- What is wrong with a breakpoint. -/
inductive BreakpointProblem where
  | notObject
  | sizeNotNumber
  | sizeTooLarge
  | missingSize
  | badStackClear
  | missingAddress
deriving DecidableEq, Repr

def BreakpointProblem.message : BreakpointProblem → String
  | .notObject => "not an object"
  | .sizeNotNumber => "'cavesize' is not a number"
  | .sizeTooLarge => "'cavesize' is too large"
  | .missingSize => "missing 'cavesize'"
  | .badStackClear => "'stack_clear_size' is not a 16-bit number"
  | .missingAddress => "missing 'addr'"

/-- What is wrong with a configuration. -/
inductive ConfigError where
  | rootNotObject
  | option (name : String) (problem : OptionProblem)
  | cave (name : String) (problem : CaveProblem)
  | binhack (name : String) (problem : BinhackProblem)
  | breakpoint (name : String) (problem : BreakpointProblem)
  | addressOutOfRange (number : Json.Number)
  | badAddress (value : Json)
  | caveTooLarge (count size : Nat)
  | caveDefinedTwice (name : String)
  | caveExists (name : String)
deriving Repr

def ConfigError.message : ConfigError → String
  | .rootNotObject => "root is not an object"
  | .option name problem => s!"option '{name}': {problem.message}"
  | .cave name problem => s!"codecave '{name}': {problem.message}"
  | .binhack name problem => s!"binhack '{name}': {problem.message}"
  | .breakpoint name problem => s!"breakpoint '{name}': {problem.message}"
  | .addressOutOfRange number => s!"address {number.text} out of range"
  | .badAddress value => s!"bad address: {value.compact}"
  | .caveTooLarge count size => s!"cave of {count} x {size} bytes is too large"
  | .caveDefinedTwice name => s!"code cave '{name}' defined twice"
  | .caveExists name => s!"code cave '{name}' already exists"

/-! ## Any failure -/

/-- Why an operation failed. -/
inductive PatchError where
  | memory (cause : MemoryError)
  | sizeMismatch (expected written : Nat)
  | caveSizeOutOfRange (size least greatest : Nat)
  | handlerNotFound (name : String)
  | invalidConfig (cause : ConfigError)
  /-- The run was given up because a handler is missing. -/
  | aborted (handler : String)
  | code (cause : CodeError)
  | expression (cause : ExpressionError)
  /-- A file that could not be read, because it is missing or otherwise. -/
  | unreadableFile (missing : Bool)
  | notJson
  | overflow (kind : Overflow)
deriving Repr

namespace PatchError

def message : PatchError → String
  | .memory cause => cause.message
  | .sizeMismatch expected written => s!"Rendered {written} bytes but {expected} were computed"
  | .caveSizeOutOfRange size least greatest =>
    s!"Cave size {size} out of range ({least}..={greatest})"
  | .handlerNotFound name => s!"Breakpoint function '{name}' not found"
  | .invalidConfig cause => s!"Invalid configuration: {cause.message}"
  | .aborted handler => s!"Aborted: breakpoint function '{handler}' not found"
  | .code cause => cause.message
  | .expression cause => cause.message
  | .unreadableFile _ => "The file cannot be read"
  | .notJson => "The file is not a document"
  | .overflow kind => kind.message

/-- Does the failure end a whole run, rather than one entry? -/
def isFatal : PatchError → Bool
  | .aborted _ => true
  | _ => false

/-- Is it a file that does not exist? -/
def isNotFound : PatchError → Bool
  | .unreadableFile missing => missing
  | _ => false

end PatchError
end CodePatch
