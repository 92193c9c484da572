/-
# The area once it is written

`BreakpointArea.Serves` says what it is for an area to serve a site whose bytes
have been replaced.  The redirect at the site calls the entry stub for the size
of arguments that the breakpoint drops; the stub calls the dispatcher; and the
slot that the table gives for the address holds what was replaced, and a jump
back.  All of it lies in the area, which can be executed.

An area is served from what is `Written` in it: the stubs, then the slots.  What
happens later leaves that as it is, as long as it is elsewhere.
-/
import CodePatch.Proofs.Breakpoint.Redirect

namespace CodePatch

open MachineCode (stubLength IsRedirect IsEntryStub IsSlot)

/-- In the memory `m`, the area serves the site with the given number, whose
bytes were `original`. -/
structure BreakpointArea.Serves (area : BreakpointArea) (dispatcher : UInt32)
    (original : List UInt8) (m : Memory) (index : Nat) (site : Site) : Prop where
  /-- The area can be executed. -/
  executable : ∃ region, m.regionAt area.base = .ok region ∧ region.base = area.base ∧
    area.size ≤ region.size ∧ region.protection = .executeRead
  /-- The bytes at the site call an entry stub of the area, which calls the
  dispatcher and drops the arguments of the breakpoint. -/
  entry : ∃ (stub : UInt32) (number : Nat) (call code : List UInt8),
    number < area.stubs ∧ stub.toNat = area.base.toNat + 32 * number ∧
    call.length = site.breakpoint.caveSize ∧ m.Holds site.address call ∧
    IsRedirect site.address stub site.breakpoint.caveSize call ∧
    code.length = 32 ∧ m.Holds stub code ∧
    IsEntryStub stub dispatcher site.breakpoint.stackClear code
  /-- The slot of the site lies behind the stubs, and holds what was replaced. -/
  slot : ∃ (slot : UInt32) (code : List UInt8), area.table.slot? site.address = some slot ∧
    slot.toNat = area.base.toNat + 32 * (area.stubs + index) ∧
    32 * (area.stubs + index + 1) ≤ area.size ∧
    code.length = 32 ∧ m.Holds slot code ∧ IsSlot site.address slot original code

namespace BreakpointStage

theorem address_ne_of_clear {site other : Site} (h : site.Clear other)
    (hsize : 0 < site.breakpoint.caveSize) (hsize' : 0 < other.breakpoint.caveSize) :
    site.address ≠ other.address := by
  intro heq
  unfold Site.Clear at h
  rw [heq] at h
  omega

theorem pairwise_address_ne {sites : List Site} (hclear : sites.Pairwise Site.Clear)
    (hsize : ∀ site ∈ sites, 0 < site.breakpoint.caveSize) :
    sites.Pairwise (·.address ≠ ·.address) :=
  hclear.imp_of_mem fun hs ho h => address_ne_of_clear h (hsize _ hs) (hsize _ ho)

/-! ## The area once it is written -/

/-- The memory holds the stubs for `clears` and the slots behind them, and they
can be executed. -/
structure Written (m : Memory) (base table dispatcher : UInt32) (clears : List UInt16)
    (slots : List UInt8) : Prop where
  separate : m.Separate
  fits : base.toNat + (clears.length * stubLength + slots.length) ≤ 2 ^ 32
  image : m.Holds base (stubBytes table dispatcher base clears ++ slots)
  region : ∃ size, clears.length * stubLength + slots.length ≤ size ∧
    m.regionAt base = .ok ⟨base, size, .executeRead⟩

section Written
variable {m : Memory} {base table dispatcher : UInt32} {clears : List UInt16} {slots : List UInt8}

theorem Written.part (h : Written m base table dispatcher clears slots)
    {front code back : List UInt8}
    (hsplit : stubBytes table dispatcher base clears ++ slots = front ++ code ++ back)
    (hne : 0 < code.length) :
    (base + UInt32.ofNat front.length).toNat = base.toNat + front.length ∧
      m.Holds (base + UInt32.ofNat front.length) code := by
  have himage := h.image
  have hfits := h.fits
  have hlen := congrArg List.length hsplit
  rw [hsplit] at himage
  rw [List.length_append, length_stubBytes] at hlen
  rw [hlen] at hfits
  refine ⟨?_, himage.part h.separate hfits hne⟩
  simp only [List.length_append] at hfits
  rw [UInt32.toNat_add, UInt32.toNat_ofNat']
  omega

theorem Written.stub (h : Written m base table dispatcher clears slots) {clear : UInt16}
    (hclear : clear ∈ clears) :
    ∃ stub number, stub = base + UInt32.ofNat (clears.idxOf clear * stubLength) ∧
      number < clears.length ∧ stub.toNat = base.toNat + 32 * number ∧
      m.Holds stub (MachineCode.entryStub stub table dispatcher clear) := by
  obtain ⟨front, back, hsplit, hfront⟩ := stubBytes_at table dispatcher base hclear
  have hall : stubBytes table dispatcher base clears ++ slots = front ++
      MachineCode.entryStub (base + UInt32.ofNat (clears.idxOf clear * stubLength)) table dispatcher
        clear ++ (back ++ slots) := by
    rw [hsplit, List.append_assoc]
  obtain ⟨haddr, hheld⟩ := h.part hall (by rw [MachineCode.length_entryStub]; decide)
  rw [hfront] at haddr hheld
  refine ⟨_, _, rfl, List.idxOf_lt_length_of_mem hclear, ?_, hheld⟩
  rw [haddr, stubLength, Nat.mul_comm]

theorem Written.slot (h : Written m base table dispatcher clears slots)
    {front slot back : List UInt8} (hsplit : slots = front ++ slot ++ back) {index : Nat}
    (hfront : front.length = index * slotLength) (hslot : slot.length = slotLength) :
    (slotAddress base clears.length index).toNat = base.toNat + 32 * (clears.length + index) ∧
      m.Holds (slotAddress base clears.length index) slot := by
  have hall : stubBytes table dispatcher base clears ++ slots =
      (stubBytes table dispatcher base clears ++ front) ++ slot ++ back := by
    rw [hsplit]
    simp only [List.append_assoc]
  obtain ⟨haddr, hheld⟩ := h.part hall (by rw [hslot]; decide)
  rw [List.length_append, length_stubBytes, hfront] at haddr hheld
  refine ⟨?_, hheld⟩
  show (base + UInt32.ofNat (clears.length * stubLength + index * slotLength)).toNat = _
  rw [haddr, stubLength, slotLength]
  omega

/-- A written area stays so, as long as what happens spares its bytes and does
not change its protection. -/
theorem Written.later (h : Written m base table dispatcher clears slots) {spared : Nat → Prop}
    {m' : Memory} (hspares : m.Spares spared m')
    (harea : ∀ i < clears.length * stubLength + slots.length, spared (base.toNat + i))
    (hregion : m'.regionAt base = m.regionAt base) :
    Written m' base table dispatcher clears slots where
  separate := hspares.separate.mpr h.separate
  fits := h.fits
  image := by
    refine hspares.holds (fun i hi => harea i ?_) h.image
    rwa [List.length_append, length_stubBytes] at hi
  region := hregion ▸ h.region

/-- Connecting sites that are elsewhere leaves a written area as it is. -/
theorem Written.connected {b : Bench} (h : Written b.memory base table dispatcher clears slots)
    (entries : BreakpointTable) {sites : List Site}
    (hsize : ∀ site ∈ sites, Breakpoint.leastCaveSize ≤ site.breakpoint.caveSize)
    (houtside : ∀ site ∈ sites, ∀ i < clears.length * stubLength + slots.length,
      site.Outside (base.toNat + i))
    (helsewhere : ∀ site ∈ sites, b.memory.baseAt? base ≠ b.memory.baseAt? site.address) :
    Written (connectAll entries b sites).2.2.memory base table dispatcher clears slots :=
  h.later (spares_connectAll entries b hsize) (fun i hi site hsite => houtside site hsite i hi)
    (regionAt_connectAll entries b sites hsize helsewhere)

/-- A site that is redirected is served by a written area, if the table has
its slot. -/
theorem Written.serves {before : Memory} (h : Written m base table dispatcher clears slots)
    {site site' : Site} {index : Nat} {front slot back original : List UInt8}
    (hsplit : slots = front ++ slot ++ back) (hfront : front.length = index * slotLength)
    (hrel : Relocated before base clears index site site' slot)
    (hfresh : site.Fresh before) (hclear : site.breakpoint.stackClear ∈ clears)
    (hbytes : before.bytesAt site.address site.breakpoint.caveSize = .ok original)
    (hcopied : site'.state = .relocated)
    (hredirect : m.Holds site.address
      (MachineCode.redirect site.address site'.stub site.breakpoint.caveSize))
    {entries : BreakpointTable} (hentry : entries.slot? site.address = site'.slot) :
    BreakpointArea.Serves ⟨base, clears.length * stubLength + slots.length, clears.length, entries⟩
      dispatcher original m index site := by
  constructor
  case executable =>
    obtain ⟨size, hle, hregion⟩ := h.region
    exact ⟨_, hregion, rfl, hle, rfl⟩
  case entry =>
    obtain ⟨stub, number, hstub, hnumber, haddr, hcode⟩ := h.stub hclear
    have hsame : site'.stub = stub := hrel.stub.trans hstub.symm
    rw [hsame] at hredirect
    exact ⟨stub, number, _, _, hnumber, haddr, length_redirect_site hfresh.least stub, hredirect,
      MachineCode.isRedirect_redirect _ _ _, MachineCode.length_entryStub _ _ _ _, hcode,
      MachineCode.isEntryStub_entryStub _ _ _ _⟩
  case slot =>
    obtain ⟨haddr, hheld⟩ := h.slot hsplit hfront hrel.length
    rcases hrel.outcome with ⟨hstate, -⟩ | ⟨found, hfound, hslot, hcode⟩
    · rw [hcopied, hfresh.state] at hstate
      cases hstate
    · obtain rfl : original = found := Except.ok.inj (hbytes.symm.trans hfound)
      have hlong : callLength ≤ original.length := by
        rw [Memory.length_of_bytesAt hbytes]
        exact hfresh.least
      refine ⟨_, slot, hentry.trans hslot, haddr, ?_, hrel.length, hheld, ?_⟩
      · have hroom : index * slotLength + slotLength ≤ slots.length := by
          rw [hsplit, List.length_append, List.length_append, hfront, hrel.length]
          exact Nat.le_add_right ..
        simp only [stubLength, slotLength] at hroom ⊢
        omega
      · rw [hcode]
        exact MachineCode.isSlot_relocatedSlot site.address _ hlong

end Written

end BreakpointStage
end CodePatch
