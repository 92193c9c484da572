/-
# Regions

The description of a mapped range of memory: where it starts, how long it is
and what may be done with it.  Addresses have 32 bits but the end of a region
may lie just past the last of them, so ends are counted in 64 bits.

A size has as many bits itself, so the sum of an address and a size may be too
large for a count.  Whether bytes lie in a region is then not answered at all.
-/
import CodePatch.Memory.Protection
import CodePatch.Overflow

namespace CodePatch

/-- A mapped range of memory. -/
structure Region where
  base : UInt32
  size : Nat
  protection : Protection
deriving DecidableEq, Repr

namespace Region

/-- The address behind the last byte, as a 64-bit count. -/
def endAddress (r : Region) : Except Overflow Nat :=
  Count.add r.base.toNat r.size

/-- Does the address lie in the region?  Below its base, the end is not computed. -/
def contains (r : Region) (address : UInt32) : Except Overflow Bool :=
  if r.base ≤ address then r.endAddress.map (address.toNat < ·) else .ok false

/-- Do `length` bytes from `address` lie in the region, and may they be
accessed?  The end of the bytes is only computed for an address in a region that
can be accessed. -/
def covers (r : Region) (address : UInt32) (length : Nat) : Except Overflow Bool :=
  if r.protection = .noAccess then .ok false
  else do
    if ← r.contains address then
      return (← Count.add address.toNat length) ≤ (← r.endAddress)
    else return false

end Region
end CodePatch
