/-
# Breakpoint sites

A site is a breakpoint at one of its addresses.  On its way to being armed it
goes through a few states, and the one that it ends in says what is in place:
only the room for it, also the copy of its bytes in a slot, also the redirect,
or all of it.
-/
import CodePatch.Breakpoint.MachineCode
import CodePatch.Breakpoint.Hit

namespace CodePatch

/-- How far the installation of a site has come. -/
inductive SiteState where
  /-- Its bytes are known to be there, and it has room in the batch. -/
  | caveReserved
  /-- Its bytes are copied to the slot. -/
  | relocated
  /-- The redirect is written. -/
  | redirectInstalled
  /-- Hits call the handler. -/
  | armed
deriving DecidableEq, Repr

def SiteState.name : SiteState → String
  | .caveReserved => "CaveReserved"
  | .relocated => "Relocated"
  | .redirectInstalled => "RedirectInstalled"
  | .armed => "Armed"

/-- A breakpoint that is to be installed at an address. -/
structure Site where
  breakpoint : Breakpoint
  handler : Handler
  address : UInt32
  /-- The entry stub that the site calls. -/
  stub : UInt32 := 0
  slot : Option UInt32 := none
  state : SiteState := .caveReserved

/-- What is known of a site once its batch is installed. -/
structure BreakpointSite where
  name : String
  address : UInt32
  slot : Option UInt32
  state : SiteState
deriving DecidableEq, Repr

namespace Site

/-- Do the bytes of the site meet the `length` bytes from `address` on? -/
def overlaps (site : Site) (address : UInt32) (length : Nat) : Bool :=
  address.toNat < site.address.toNat + site.breakpoint.caveSize &&
    site.address.toNat < address.toNat + length

def summary (site : Site) : BreakpointSite :=
  ⟨site.breakpoint.name, site.address, site.slot, site.state⟩

/-- How messages name the site. -/
def label (site : Site) : String :=
  s!"{site.breakpoint.name} at {Text.address site.address}"

end Site
end CodePatch
