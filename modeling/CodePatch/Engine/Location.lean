/-
# Naming addresses

What a crash report wants to know: which of the code caves, entry stubs and
slots an address lies in, and how far from its start.
-/
import CodePatch.Breakpoint.Stage
import CodePatch.Cave.Stage

namespace CodePatch

/-- What an address can lie in. -/
inductive LocationKind where
  | codeCave
  | breakpointStub
  | breakpointSlot
deriving DecidableEq, Repr

/-- An address, by what it lies in. -/
structure CodeLocation where
  kind : LocationKind
  /-- The name of the cave or breakpoint; entry stubs have none. -/
  name : String
  base : UInt32
  offset : UInt32
deriving DecidableEq, Repr

/-- A batch of breakpoints that was installed. -/
structure Batch where
  sites : List BreakpointSite
  area : BreakpointArea

namespace CodeLocation

/-- The location as reports show it. -/
def text (location : CodeLocation) : String :=
  let offset := "0x" ++ Text.hex location.offset.toNat
  match location.kind with
  | .codeCave => s!"codecave:{location.name}+{offset}"
  | .breakpointStub => s!"breakpoint stub+{offset}"
  | .breakpointSlot => s!"breakpoint {location.name} (original code)+{offset}"

/-- The location of `address` if it is in the `size` bytes from `base` on. -/
def within? (kind : LocationKind) (name : String) (base : UInt32) (size : Nat) (address : UInt32) :
    Option CodeLocation :=
  if base ≤ address ∧ address.toNat < base.toNat + size then some ⟨kind, name, base, address - base⟩
  else none

/-- The location of an address in a cave. -/
def inCave? (address : UInt32) (cave : PlacedCave) : Option CodeLocation :=
  within? .codeCave cave.name cave.address cave.padded address

/-- The location of an address in the slot of a site. -/
def inSlot? (address : UInt32) (site : BreakpointSite) : Option CodeLocation :=
  site.slot.bind fun slot => within? .breakpointSlot site.name slot slotLength address

/-- The location of an address in a batch. -/
def inBatch? (address : UInt32) (batch : Batch) : Option CodeLocation :=
  let stubs := batch.area.stubs * MachineCode.stubLength
  (within? .breakpointStub "" batch.area.base stubs address).orElse fun _ =>
    batch.sites.findSome? (inSlot? address)

/-- The location of an address in caves and batches. -/
def find? (caves : List PlacedCave) (batches : List Batch) (address : UInt32) :
    Option CodeLocation :=
  (caves.findSome? (inCave? address)).orElse fun _ => batches.findSome? (inBatch? address)

end CodeLocation
end CodePatch
