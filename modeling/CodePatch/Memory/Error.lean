/-
# Failures of memory access

Each failure says which access failed and why.  `MemoryCause.injected` is the
failure of an access that a fault plan lets fail.  An access whose arithmetic
overflows is told apart from all of these.
-/
import CodePatch.Overflow
import CodePatch.Text.Hex

namespace CodePatch

/-- Why an access failed. -/
inductive MemoryCause where
  | notMapped
  | notAccessible
  | readPastEnd
  | notWritable
  | writePastEnd
  | emptyAllocation
  | exhausted
  | injected
deriving DecidableEq, Repr

def MemoryCause.message : MemoryCause → String
  | .notMapped => "address not mapped"
  | .notAccessible => "page is not accessible"
  | .readPastEnd => "read crosses region end"
  | .notWritable => "page is not writable"
  | .writePastEnd => "write crosses region end"
  | .emptyAllocation => "zero-sized allocation"
  | .exhausted => "address space exhausted"
  | .injected => "injected"

/-- A failed access. -/
inductive MemoryError where
  | unavailable (address : UInt32) (length : Nat)
  | readFailed (address : UInt32) (cause : MemoryCause)
  | writeFailed (address : UInt32) (cause : MemoryCause)
  | protectFailed (address : UInt32) (cause : MemoryCause)
  | allocationFailed (size : Nat) (cause : MemoryCause)
  | expectedMismatch (address : UInt32)
  | overflow (kind : Overflow)
deriving DecidableEq, Repr

open Text (address) in
def MemoryError.message : MemoryError → String
  | .unavailable a length => s!"Memory at {address a} is not accessible for {length} bytes"
  | .readFailed a cause => s!"Failed to read memory at {address a}: {cause.message}"
  | .writeFailed a cause => s!"Failed to write memory at {address a}: {cause.message}"
  | .protectFailed a cause => s!"Failed to change protection at {address a}: {cause.message}"
  | .allocationFailed size cause => s!"Failed to allocate {size} bytes: {cause.message}"
  | .expectedMismatch a => s!"Expected bytes not matched at {address a}"
  | .overflow kind => kind.message

end CodePatch
