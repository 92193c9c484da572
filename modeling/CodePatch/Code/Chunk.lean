/-
# Code strings, compiled

A code string describes bytes to be written into memory:

    B8 [cave:strings+10] E8 [kernel32:Sleep] (f32: 1 + 1) +1.5f <option:lives>

Compiled, it is a list of chunks.  The size of a chunk never depends on what
names resolve to, so code can be given a place before the names in it have
addresses; only the size of an option has to be known.
-/
import CodePatch.Options

namespace CodePatch

/-- One unit of compiled code. -/
inductive Chunk where
  | bytes (bytes : List UInt8)
  /-- `[target+offset]` if relative, else `<target+offset>`. -/
  | pointer (target : String) (offset : UInt32) (relative : Bool)
  /-- `<option:name>` or `[option:name]`. -/
  | option (name : String)
  /-- `(width: expression)`. -/
  | sized (width : ValueWidth) (expression : String)
  | literal (value : PatchValue)
deriving DecidableEq, Repr

/-- The size of a pointer. -/
def pointerSize : Nat := 4

/-- The room kept for an option that is not set. -/
def missingOptionSize : Nat := 4

namespace Chunk

/-- The number of bytes that the chunk becomes. -/
def size (options : Options) : Chunk → Nat
  | .bytes data => data.length
  | .pointer _ _ _ => pointerSize
  | .option name => (options.get? name).elim missingOptionSize PatchValue.size
  | .sized width _ => width.size
  | .literal value => value.size

end Chunk

/-- A compiled code string. -/
structure Code where
  chunks : List Chunk
deriving DecidableEq, Repr

namespace Code

def isEmpty (code : Code) : Bool :=
  code.chunks.isEmpty

/-- The number of bytes that the code becomes. -/
def size (options : Options) (code : Code) : Nat :=
  (code.chunks.map (Chunk.size options)).foldr (· + ·) 0

end Code
end CodePatch
