/-
# Rendering code

`Code.render` gives the bytes that code becomes at an address.  A name that
does not resolve becomes zeros of the size that was kept for it, and a warning
in the journal; an expression that is malformed has no bytes at all.

A relative pointer holds the distance from the byte behind it, and a sized
expression is evaluated with its own address as the origin.
-/
import CodePatch.Code.Chunk
import CodePatch.Expression.Evaluate

namespace CodePatch

/-- A result and what is said on the way to it. -/
abbrev Reported (ε α : Type) := Except ε α × Journal

namespace Chunk

/-- The word of a pointer at `here`. -/
def pointerWord (address offset here : UInt32) (relative : Bool) : UInt32 :=
  if relative then address + offset - (here + 4) else address + offset

/-- The bytes of a chunk at the address `here`. -/
def render (scope : Scope) (here : UInt32) : Chunk → Reported ExpressionError (List UInt8)
  | .bytes data => (.ok data, [])
  | .pointer target offset relative =>
    match scope.symbols.resolve? scope.memory target with
    | some address => (.ok (wordBytes (pointerWord address offset here relative)), [])
    | none =>
      (.ok (List.replicate pointerSize 0),
        [.warn s!"Function '{target}' not found, writing zero at {Text.address here}"])
  | .option name =>
    match scope.options.get? name with
    | some value => (.ok value.toBytes, [])
    | none =>
      (.ok (List.replicate missingOptionSize 0),
        [.warn s!"Option '{name}' not found, writing zero at {Text.address here}"])
  | .sized width expression =>
    match Expression.evaluate (scope.withOrigin here) expression.toList none with
    | .ok evaluation => (.ok (width.ofWord evaluation.value).toBytes, [])
    | .error e =>
      if e.isUnresolved then
        (.ok (width.ofWord 0).toBytes,
          [.warn s!"{e.message}, writing zero at {Text.address here}"])
      else (.error e, [])
  | .literal value => (.ok value.toBytes, [])

end Chunk

namespace Code

/-- The bytes of chunks one behind the other, from `here` on. -/
def renderChunks (scope : Scope) (here : UInt32) :
    List Chunk → Reported ExpressionError (List UInt8)
  | [] => (.ok [], [])
  | chunk :: rest =>
    match chunk.render scope here with
    | (.error e, said) => (.error e, said)
    | (.ok bytes, said) =>
      let later := renderChunks scope (here + UInt32.ofNat bytes.length) rest
      (later.1.map (bytes ++ ·), said ++ later.2)

/-- The bytes of the code at the address `target`. -/
def render (code : Code) (scope : Scope) (target : UInt32) : Reported PatchError (List UInt8) :=
  match renderChunks scope target code.chunks with
  | (.error e, said) => (.error (.expression e), said)
  | (.ok bytes, said) =>
    if bytes.length = code.size scope.options then (.ok bytes, said)
    else (.error (.sizeMismatch (code.size scope.options) bytes.length), said)

end Code
end CodePatch
