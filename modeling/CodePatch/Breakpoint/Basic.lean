/-
# Breakpoints

A breakpoint calls a handler when execution reaches one of its addresses.  The
bytes at the address make room for the call, so an entry says how many bytes
that is: whole instructions, at least as many as a call takes, and few enough
to fit into a slot together with a jump.

The part of a name from `#` on only tells entries apart; what is left names
the handler, or the code cave that is called in its place.
-/
import CodePatch.Expression.Literal
import CodePatch.TargetAddress

namespace CodePatch

/-- The length of a call or jump with a 32-bit distance. -/
def callLength : Nat := 5

/-- The length of the slot that the bytes at a breakpoint move to. -/
def slotLength : Nat := 32

/-- An entry for a breakpoint. -/
structure Breakpoint where
  name : String
  addresses : List TargetAddress
  /-- The number of bytes that make room for the call. -/
  caveSize : Nat
  /-- The size of the arguments dropped on return. -/
  stackClear : UInt16 := 0
  expected : Option String := none
  ignore : Bool := false
  /-- The whole entry, for the handler to look into. -/
  config : Json
deriving Repr

namespace Breakpoint

def leastCaveSize : Nat := callLength

/-- A slot has to hold the jump back as well. -/
def greatestCaveSize : Nat := slotLength - callLength

/-- What is wrong with the cave size of an entry, if anything. -/
def checkCaveSize (bp : Breakpoint) : Except PatchError Unit :=
  if leastCaveSize ≤ bp.caveSize ∧ bp.caveSize ≤ greatestCaveSize then .ok ()
  else .error (.caveSizeOutOfRange bp.caveSize leastCaveSize greatestCaveSize)

/-- The number of addresses of the entries that are not to be ignored. -/
def sites (breakpoints : List Breakpoint) : Nat :=
  ((breakpoints.filter (!·.ignore)).map (·.addresses.length)).foldr (· + ·) 0

/-! ## Handlers -/

/-- The name up to the first `#`. -/
def baseName (bp : Breakpoint) : List Char :=
  bp.name.toList.takeWhile (· ≠ '#')

/-- The code cave that is called, if the breakpoint calls one. -/
def caveName? (bp : Breakpoint) : Option String :=
  (Text.after? Symbols.caveAlias bp.baseName).map String.ofList

/-- The name of the handler, or of the code cave behind its mark. -/
def handlerName (bp : Breakpoint) : String :=
  match bp.caveName? with
  | some _ => String.ofList bp.baseName
  | none => "BP_" ++ String.ofList bp.baseName

/-! ## Entries -/

/-- An integer, or a text that is just one literal. -/
def integer? : Json → Option Nat
  | .number n => n.nat?
  | .string text =>
    let literal := Text.trim text.toList
    match Literal.atStart? 0 literal with
    | some (value, length) => if length = literal.length then some value.toNat else none
    | none => none
  | _ => none

/-- The cave size that an entry gives. -/
def caveSizeOf (entry : Json) : Except BreakpointProblem Nat :=
  match entry.field? "cavesize" with
  | none => .error .missingSize
  | some value =>
    match integer? value with
    | none => .error .sizeNotNumber
    | some n => if n < UInt32.size then .ok n else .error .sizeTooLarge

/-- The size of arguments that an entry gives. -/
def stackClearOf (entry : Json) : Except BreakpointProblem UInt16 :=
  match entry.field? "stack_clear_size" with
  | none | some .null => .ok 0
  | some value =>
    match integer? value with
    | none => .error .badStackClear
    | some n => if n < UInt16.size then .ok (UInt16.ofNat n) else .error .badStackClear

/-- The breakpoint that an entry of a configuration describes. -/
def ofJson (name : String) (entry : Json) : Except ConfigError Breakpoint :=
  match entry with
  | .object _ => do
    let caveSize ← (caveSizeOf entry).mapError (.breakpoint name)
    let stackClear ← (stackClearOf entry).mapError (.breakpoint name)
    let addresses ← TargetAddress.ofEntry (.breakpoint name .missingAddress) entry
    return {
      name
      addresses
      caveSize
      stackClear
      expected := (entry.field? "expected").bind Json.joinedText?
      ignore := ((entry.field? "ignore").bind Json.bool?).getD false
      config := entry }
  | _ => .error (.breakpoint name .notObject)

end Breakpoint
end CodePatch
