/-
# Where a patch goes

A configuration gives an address as a number or as an expression.  An
expression is kept as text and evaluated when the patch is applied, because it
may refer to code caves that are placed only then.  Several addresses in a
list share one entry.
-/
import CodePatch.Error
import CodePatch.Expression.Evaluate
import CodePatch.Text.Blank

namespace CodePatch

/-- The address of a patch. -/
inductive TargetAddress where
  | absolute (address : UInt32)
  | expression (text : String)
deriving DecidableEq, Repr

namespace TargetAddress

/-- The address as listings show it. -/
def text : TargetAddress → String
  | .absolute address => Text.address address
  | .expression text => text

/-- The address itself. -/
def resolve (scope : Scope) : TargetAddress → Except ExpressionError UInt32
  | .absolute address => .ok address
  | .expression text => (Expression.evaluate scope text.toList none).map (·.value)

/-- The address that a value of a configuration describes. -/
def ofJson : Json → Except ConfigError TargetAddress
  | .number n =>
    match n.nat? with
    | some address =>
      if address < UInt32.size then .ok (.absolute (UInt32.ofNat address))
      else .error (.addressOutOfRange n)
    | none => .error (.addressOutOfRange n)
  | .string text => .ok (.expression (Text.trimmed text))
  | other => .error (.badAddress other)

/-- The address, or the addresses of a list, that a value describes. -/
def listOfJson : Json → Except ConfigError (List TargetAddress)
  | .array items => items.mapM ofJson
  | single => (ofJson single).map fun address => [address]

/-- The addresses of an entry, or `missing` if it has none. -/
def ofEntry (missing : ConfigError) (entry : Json) : Except ConfigError (List TargetAddress) :=
  match entry.field? "addr" with
  | none => .error missing
  | some value => listOfJson value

end TargetAddress
end CodePatch
