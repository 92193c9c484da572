/-
# What an address is said to lie in

`Engine.ranges` lists everything that was put in place so far: the caves with
their padding, and for every batch the entry stubs and the slots of its sites.
`locate` finds the first of these ranges that an address lies in
(`locate_eq_findSome?`).  Where no two of them have an address in common, the
first is the only one, so `locate` says all there is to say (`locate_of_mem`).
-/
import Mathlib
import CodePatch.Engine.Basic

namespace CodePatch

/-! ## Ranges -/

/-- A range of addresses, and what it is said to be. -/
structure CodeRange where
  kind : LocationKind
  name : String
  base : UInt32
  size : Nat
deriving DecidableEq, Repr

namespace CodeRange

/-- The address of the byte behind the last one. -/
def finish (range : CodeRange) : Nat :=
  range.base.toNat + range.size

/-- The address lies in the range. -/
def Contains (range : CodeRange) (address : UInt32) : Prop :=
  range.base.toNat ≤ address.toNat ∧ address.toNat < range.finish

/-- The ranges have no address in common. -/
def Apart (range other : CodeRange) : Prop :=
  range.finish ≤ other.base.toNat ∨ other.finish ≤ range.base.toNat

/-- What is said of an address in the range. -/
def location (range : CodeRange) (address : UInt32) : CodeLocation :=
  ⟨range.kind, range.name, range.base, address - range.base⟩

/-- What is said of an address, if it is in the range. -/
def locate? (address : UInt32) (range : CodeRange) : Option CodeLocation :=
  CodeLocation.within? range.kind range.name range.base range.size address

variable {range other : CodeRange} {address : UInt32}

theorem Apart.symm (h : range.Apart other) : other.Apart range :=
  Or.symm h

instance : Std.Symm Apart :=
  ⟨fun _ _ h => h.symm⟩

theorem not_contains_of_apart (h : range.Apart other) (hrange : range.Contains address) :
    ¬ other.Contains address := by
  rintro ⟨hlow, hhigh⟩
  obtain ⟨hlow', hhigh'⟩ := hrange
  unfold Apart at h
  omega

theorem locate?_of_contains (h : range.Contains address) :
    range.locate? address = some (range.location address) :=
  if_pos ⟨UInt32.le_iff_toNat_le.mpr h.1, h.2⟩

theorem locate?_eq_none_iff : range.locate? address = none ↔ ¬ range.Contains address := by
  constructor
  · intro h hcontains
    rw [locate?_of_contains hcontains] at h
    cases h
  · intro h
    exact if_neg fun hin => h ⟨UInt32.le_iff_toNat_le.mp hin.1, hin.2⟩

theorem base_add_offset (range : CodeRange) (address : UInt32) :
    (range.location address).base + (range.location address).offset = address := by
  show range.base + (address - range.base) = address
  rw [UInt32.add_comm, UInt32.sub_add_cancel]

end CodeRange

/-! ## What was put in place -/

def PlacedCave.range (cave : PlacedCave) : CodeRange :=
  ⟨.codeCave, cave.name, cave.address, cave.padded⟩

/-- The slot of a site, if it has one. -/
def BreakpointSite.range? (site : BreakpointSite) : Option CodeRange :=
  site.slot.map fun slot => ⟨.breakpointSlot, site.name, slot, slotLength⟩

namespace Batch

/-- The entry stubs of a batch. -/
def stubRange (batch : Batch) : CodeRange :=
  ⟨.breakpointStub, "", batch.area.base, batch.area.stubs * MachineCode.stubLength⟩

/-- The entry stubs and the slots of a batch. -/
def ranges (batch : Batch) : List CodeRange :=
  batch.stubRange :: batch.sites.filterMap BreakpointSite.range?

end Batch

namespace Engine

/-- Everything that was put in place so far. -/
def ranges (e : Engine) : List CodeRange :=
  e.caves.map PlacedCave.range ++ e.batches.flatMap Batch.ranges

/-! ## Locating -/

theorem inSlot?_eq (address : UInt32) (site : BreakpointSite) :
    CodeLocation.inSlot? address site = site.range?.bind (CodeRange.locate? address) := by
  unfold CodeLocation.inSlot? BreakpointSite.range?
  cases site.slot with
  | none => rfl
  | some slot => rfl

theorem inBatch?_eq (address : UInt32) (batch : Batch) :
    CodeLocation.inBatch? address batch = batch.ranges.findSome? (CodeRange.locate? address) := by
  have hslots : batch.sites.findSome? (CodeLocation.inSlot? address) =
      (batch.sites.filterMap BreakpointSite.range?).findSome? (CodeRange.locate? address) := by
    rw [funext (inSlot?_eq address), ← List.head?_filterMap, ← List.head?_filterMap,
      List.filterMap_filterMap]
  unfold CodeLocation.inBatch? Batch.ranges
  rw [List.findSome?_cons, hslots]
  show Option.orElse (batch.stubRange.locate? address) _ = _
  cases batch.stubRange.locate? address with
  | none => rfl
  | some location => rfl

theorem locate_eq_findSome? (e : Engine) (address : UInt32) :
    e.locate address = e.ranges.findSome? (CodeRange.locate? address) := by
  have hcaves : (e.caves.map PlacedCave.range).findSome? (CodeRange.locate? address) =
      e.caves.findSome? (CodeLocation.inCave? address) :=
    List.findSome?_map
  have hbatches : (e.batches.flatMap Batch.ranges).findSome? (CodeRange.locate? address) =
      e.batches.findSome? (CodeLocation.inBatch? address) := by
    rw [funext (inBatch?_eq address), ← List.head?_filterMap, List.filterMap_flatMap,
      List.head?_flatMap]
    exact congrArg (List.findSome? · _) (funext fun batch => List.head?_filterMap)
  rw [ranges, List.findSome?_append, hcaves, hbatches]
  unfold locate CodeLocation.find?
  cases e.caves.findSome? (CodeLocation.inCave? address) with
  | none => rfl
  | some location => rfl

variable {e : Engine} {address : UInt32}

theorem locate_eq_none_iff :
    e.locate address = none ↔ ∀ range ∈ e.ranges, ¬ range.Contains address := by
  rw [locate_eq_findSome?, List.findSome?_eq_none_iff]
  exact forall₂_congr fun range _ => CodeRange.locate?_eq_none_iff

theorem range_of_contains (h : e.ranges.Pairwise CodeRange.Apart) {range other : CodeRange}
    (hmem : range ∈ e.ranges) (hother : other ∈ e.ranges) (hin : range.Contains address)
    (hin' : other.Contains address) : other = range := by
  by_contra hne
  exact CodeRange.not_contains_of_apart (h.forall hother hmem hne) hin' hin

theorem locate_of_mem (h : e.ranges.Pairwise CodeRange.Apart) {range : CodeRange}
    (hmem : range ∈ e.ranges) (hin : range.Contains address) :
    e.locate address = some (range.location address) := by
  cases hfound : e.locate address with
  | none => exact absurd hin (locate_eq_none_iff.mp hfound range hmem)
  | some location =>
      rw [locate_eq_findSome?] at hfound
      obtain ⟨other, hother, hlocation⟩ := List.exists_of_findSome?_eq_some hfound
      have hin' : other.Contains address := by
        by_contra hout
        rw [CodeRange.locate?_eq_none_iff.mpr hout] at hlocation
        cases hlocation
      obtain rfl : other = range := range_of_contains h hmem hother hin hin'
      exact hlocation.symm.trans (CodeRange.locate?_of_contains hin)

end Engine
end CodePatch
