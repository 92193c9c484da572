/-
# Machine code of breakpoints

The three pieces of code that a breakpoint needs, as bytes for addresses that
are chosen elsewhere.

* The redirect is written over the bytes at a breakpoint: a call of an entry
  stub, and no-ops over what is left.
* An entry stub saves the registers, calls the dispatcher with the number of a
  table and the saved registers, restores them and returns to wherever the
  dispatcher left the return address.
* A slot holds the bytes that the redirect replaced, and a jump back behind
  the redirect.  A call or jump that they start with still reaches its target.

Distances are counted from the byte behind the instruction and wrap around.
-/
import CodePatch.Breakpoint.Basic
import CodePatch.LittleEndian

namespace CodePatch.MachineCode

/-- `call` with a 32-bit distance. -/
def callOpcode : UInt8 := 0xE8

/-- `jmp` with a 32-bit distance. -/
def jumpOpcode : UInt8 := 0xE9

def nop : UInt8 := 0x90

/-- What unused bytes are filled with. -/
def trap : UInt8 := 0xCC

/-- The length of an entry stub. -/
def stubLength : Nat := 32

/-- The bytes of a call or jump at `address` that reaches `target`. -/
def branch (opcode : UInt8) (address target : UInt32) : List UInt8 :=
  opcode :: wordBytes (target - (address + UInt32.ofNat callLength))

/-- `bytes` with traps behind them, up to `length`. -/
def padded (length : Nat) (bytes : List UInt8) : List UInt8 :=
  bytes ++ List.replicate (length - bytes.length) trap

/-- The return from an entry stub, which drops `stackClear` bytes. -/
def returnBytes (stackClear : UInt16) : List UInt8 :=
  if stackClear = 0 then [0xC3] else 0xC2 :: littleEndian 2 stackClear.toNat

/-- Saves all registers and pushes their address and a word. -/
def saveBytes (table : UInt32) : List UInt8 :=
  [0x60, 0x9C, 0x54, 0x68] ++ wordBytes table

/-- Restores the registers from where the dispatcher says they are. -/
def restoreBytes : List UInt8 :=
  [0x89, 0xC4, 0x9D, 0x61]

/-- The entry stub at `stub`. -/
def entryStub (stub table dispatcher : UInt32) (stackClear : UInt16) : List UInt8 :=
  padded stubLength
    (saveBytes table ++ branch callOpcode (stub + 8) dispatcher ++ restoreBytes ++
      returnBytes stackClear)

/-- Code moved from `address` to `slot`: the target of a call or jump at its
start stays what it was. -/
def moved (address slot : UInt32) : List UInt8 → List UInt8
  | opcode :: a :: b :: c :: d :: rest =>
    if opcode = callOpcode ∨ opcode = jumpOpcode then
      let distance := UInt32.ofNat (ofLittleEndian [a, b, c, d])
      opcode :: wordBytes (distance + (address - slot)) ++ rest
    else opcode :: a :: b :: c :: d :: rest
  | short => short

/-- The slot at `slot` for the bytes `replaced` taken from `address`. -/
def relocatedSlot (replaced : List UInt8) (address slot : UInt32) : List UInt8 :=
  let length := UInt32.ofNat replaced.length
  padded slotLength
    (moved address slot replaced ++ branch jumpOpcode (slot + length) (address + length))

/-- The call of `stub` that replaces `caveSize` bytes at `address`. -/
def redirect (address stub : UInt32) (caveSize : Nat) : List UInt8 :=
  branch callOpcode address stub ++ List.replicate (caveSize - callLength) nop

/-! ## Lengths -/

@[simp] theorem length_branch (opcode : UInt8) (address target : UInt32) :
    (branch opcode address target).length = callLength := by
  simp [branch, wordBytes, callLength]

theorem length_moved (address slot : UInt32) (replaced : List UInt8) :
    (moved address slot replaced).length = replaced.length := by
  unfold moved
  split
  · split <;> simp [wordBytes]; omega
  · rfl

theorem length_redirect (address stub : UInt32) (caveSize : Nat) :
    (redirect address stub caveSize).length = max caveSize callLength := by
  simp [redirect]
  omega

end CodePatch.MachineCode
