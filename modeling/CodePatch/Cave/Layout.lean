/-
# Placing code caves

All caves of one access class share one region.  They lie in it in the order
of their entries, each at a multiple of sixteen and with at least one byte of
padding behind it, so that running off the end of a cave is caught.  No region
may be larger than the address space: a cave that would make it so is left
out, and the caves behind it are placed as if it were not there.

Sizes are 64-bit counts; one that does not fit has no place.
-/
import CodePatch.Cave.Basic
import CodePatch.Memory.Region

namespace CodePatch

/-- The alignment of caves. -/
def caveAlignment : Nat := 16

/-- The byte between the end of a cave and the next one. -/
def cavePadding : UInt8 := 0xCC

/-- The largest region that a class may need. -/
def greatestRegion : Nat := UInt32.size - 1

/-- The least multiple of `alignment` from `value` on, if it is a 64-bit
count. -/
def alignUp (value alignment : Nat) : Option Nat :=
  if alignment = 0 then none
  else
    let multiple := (value + (alignment - 1)) / alignment * alignment
    if multiple < countRange then some multiple else none

/-- The size of a cave with its padding. -/
def paddedSize (size : Nat) : Option Nat :=
  alignUp (size + 1) caveAlignment

/-- The size of a cave of `count` elements of size `requested` that starts with
code of size `code`; `none` if it needs no memory. -/
def slotSize (requested count code : Nat) : Except ConfigError (Option Nat) :=
  if greatestRegion < requested * count then .error (.caveTooLarge count requested)
  else if requested * count = 0 ∧ code = 0 then .ok none
  else .ok (some (max (requested * count) code))

/-- The place of a cave. -/
structure CaveSlot where
  access : AccessClass
  /-- The offset in the region of the class. -/
  offset : Nat
  size : Nat
  /-- The size with padding. -/
  padded : Nat
deriving DecidableEq, Repr

/-- What became of a request for a place. -/
inductive CavePlacement where
  /-- No memory is needed. -/
  | empty
  | placed (slot : CaveSlot)
  /-- The region would have become too large. -/
  | tooLarge
deriving DecidableEq, Repr

/-- A request for a place: a class and, if memory is needed, a size. -/
abbrev CaveRequest := AccessClass × Option Nat

/-- The number of bytes given out in each class. -/
abbrev ClassSizes := AccessClass → Nat

namespace CavePlacement

/-- The placement of a request behind what is given out already. -/
def ofRequest (used : ClassSizes) : CaveRequest → CavePlacement
  | (_, none) => .empty
  | (access, some size) =>
    match paddedSize size with
    | none => .tooLarge
    | some padded =>
      if used access + padded ≤ greatestRegion then .placed ⟨access, used access, size, padded⟩
      else .tooLarge

/-- What is given out after a placement. -/
def extend (used : ClassSizes) : CavePlacement → ClassSizes
  | .placed slot => fun access =>
    if access = slot.access then slot.offset + slot.padded else used access
  | .empty | .tooLarge => used

end CavePlacement

/-- The placements of requests, and what is given out in the end. -/
structure CaveLayout where
  placements : List CavePlacement
  used : ClassSizes

namespace CaveLayout

/-- The layout of requests behind what is given out already. -/
def behind (used : ClassSizes) : List CaveRequest → CaveLayout
  | [] => ⟨[], used⟩
  | request :: rest =>
    let placement := CavePlacement.ofRequest used request
    let later := CaveLayout.behind (placement.extend used) rest
    ⟨placement :: later.placements, later.used⟩

/-- The layout of requests in empty regions. -/
def ofRequests (requests : List CaveRequest) : CaveLayout :=
  CaveLayout.behind (fun _ => 0) requests

/-- The classes that need a region, and its size. -/
def classSizes (layout : CaveLayout) : List (AccessClass × Nat) :=
  AccessClass.all.filterMap fun access =>
    if layout.used access = 0 then none else some (access, layout.used access)

/-- Every request has one placement. -/
theorem length_placements_behind (used : ClassSizes) (requests : List CaveRequest) :
    (CaveLayout.behind used requests).placements.length = requests.length := by
  induction requests generalizing used with
  | nil => rfl
  | cons request rest ih => simp [CaveLayout.behind, ih]

end CaveLayout
end CodePatch
