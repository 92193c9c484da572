/-
# Installed breakpoints

A site whose bytes the stage has replaced leads to code that is there
(`BreakpointArea.Serves`).

`replaced_sites_are_served` is the theorem: it holds for every way in which
handlers are resolved and for every plan of faults.  What it needs is that the
ranges of the memory before are separate, and that the area was allocated where
nothing was mapped.  A site that is not armed in the end may still be redirected,
namely if its redirect was written but could not be flushed; the theorem
covers it too, since it speaks of bytes and not of states.
-/
import CodePatch.Proofs.Breakpoint.Written
import CodePatch.Proofs.Memory.Allocation

namespace CodePatch

open MachineCode (stubLength)

namespace BreakpointStage

/-! ## Installing -/

/-- A memory in which sites can be installed in `size` bytes at `base`. -/
structure Ready (m : Memory) (base : UInt32) (size : Nat) (sites : List Site) : Prop where
  separate : m.Separate
  fits : base.toNat + size ≤ 2 ^ 32
  /-- The area lies in one range, which begins with it. -/
  found : ∃ r, m.mappingAt? base = some r ∧ r.base = base ∧ size ≤ r.size
  fresh : ∀ site ∈ sites, site.Fresh m
  clear : sites.Pairwise Site.Clear
  /-- The sites are not in the area, nor in its range. -/
  outside : ∀ site ∈ sites, ∀ i < size, site.Outside (base.toNat + i)
  elsewhere : ∀ site ∈ sites, m.baseAt? base ≠ m.baseAt? site.address

theorem Ready.elsewhere_of_place {m m' : Memory} {base : UInt32} {size : Nat}
    {sites sites' : List Site} (h : Ready m base size sites)
    (hplace : sites'.map Site.place = sites.map Site.place)
    (hbase : ∀ address, m'.baseAt? address = m.baseAt? address) :
    (∀ site ∈ sites', ∀ i < size, site.Outside (base.toNat + i)) ∧
      ∀ site ∈ sites', m'.baseAt? base ≠ m'.baseAt? site.address := by
  constructor
  · intro site hsite
    obtain ⟨other, hother, hbp, haddr⟩ := Site.exists_of_place hplace hsite
    unfold Site.Outside
    rw [hbp, haddr]
    exact h.outside other hother
  · intro site hsite
    obtain ⟨other, hother, -, haddr⟩ := Site.exists_of_place hplace hsite
    rw [hbase, hbase, haddr]
    exact h.elsewhere other hother

theorem written_writeArea {b : Bench} {m : Memory} {base table dispatcher : UInt32}
    {clears : List UInt16} {slots : List UInt8} {sites : List Site}
    (hready : Ready m base (clears.length * stubLength + slots.length) sites)
    (hspace : b.memory.space = m.space)
    (hok : (writeArea b base (stubBytes table dispatcher base clears ++ slots)).1 = .ok ()) :
    Written (writeArea b base (stubBytes table dispatcher base clears ++ slots)).2.memory
      base table dispatcher clears slots := by
  obtain ⟨r, hr, hbase, hsize⟩ := hready.found
  have hr' : b.memory.mappingAt? base = some r :=
    (Memory.mappingAt?_eq_of_space_eq hspace base).trans hr
  refine ⟨?_, hready.fits, holds_writeArea _ _ _ hok, r.size, hsize, ?_⟩
  · rw [(spares_writeArea _ _ _).separate, Memory.separate_iff_of_space_eq hspace]
    exact hready.separate
  · rw [regionAt_writeArea _ _ _ hok hr', hbase]

theorem length_image (table dispatcher base : UInt32) (clears : List UInt16) {slots : List UInt8}
    {sites : Nat} (h : slots.length = sites * slotLength) :
    (stubBytes table dispatcher base clears ++ slots).length = areaSize clears.length sites := by
  rw [List.length_append, length_stubBytes, h]
  rfl

section InstallAt
variable (symbols : Symbols) (options : Options) (table base : UInt32) {sites : List Site}
  (b : Bench)

/-- Installing ends where the area could not be written, or goes on to connect
the sites.  Either way the table has the slots of the sites as they were copied. -/
theorem installAt_cases (sites : List Site) :
    let copied := relocateAll base (stackClears sites) b 0 sites
    let entries := tableOf symbols options copied.1
    let wrote := writeArea copied.2.2 base
      (stubBytes table copied.2.2.memory.dispatcher base (stackClears sites) ++ copied.2.1)
    let installed := installAt symbols options table base sites b
    ∃ t : BreakpointTable, (∀ address, t.slot? address = entries.slot? address) ∧
      installed.2.1 = ⟨base, areaSize (stackClears sites).length copied.1.length,
        (stackClears sites).length, t⟩ ∧
      installed.1.map Site.place = sites.map Site.place ∧
      ((installed.1 = copied.1 ∧ installed.2.2.memory = wrote.2.memory) ∨
        (wrote.1 = .ok () ∧ installed.1 = (connectAll entries wrote.2 copied.1).1 ∧
          installed.2.2.memory = (connectAll entries wrote.2 copied.1).2.2.memory)) := by
  intro copied entries wrote installed
  have hcopied : copied.1.map Site.place = sites.map Site.place :=
    map_place_relocateAll base (stackClears sites) b 0 sites
  simp only [installed, installAt]
  rcases hw : wrote with ⟨_ | u, b₁⟩
  all_goals
    have hw' := hw
    simp only [wrote, copied] at hw'
    rw [hw']
  · exact ⟨entries, fun _ => rfl, rfl, hcopied, Or.inl ⟨rfl, rfl⟩⟩
  · exact ⟨_, slot?_connectAll entries b₁ copied.1, rfl,
      (map_place_connectAll entries b₁ copied.1).trans hcopied, Or.inr ⟨rfl, rfl, rfl⟩⟩

variable {base b} (hready : Ready b.memory base
  (areaSize (stackClears sites).length sites.length) sites)
include hready

theorem clear_relocateAll :
    (relocateAll base (stackClears sites) b 0 sites).1.Pairwise Site.Clear :=
  Site.pairwise_clear_of_place (map_place_relocateAll ..) hready.clear

theorem least_relocateAll : ∀ site ∈ (relocateAll base (stackClears sites) b 0 sites).1,
    Breakpoint.leastCaveSize ≤ site.breakpoint.caveSize := by
  intro site hsite
  obtain ⟨other, hother, hbp, -⟩ := Site.exists_of_place (map_place_relocateAll ..) hsite
  rw [hbp]
  exact (hready.fresh other hother).least

theorem relocateAll_ready :
    (relocateAll base (stackClears sites) b 0 sites).1.length = sites.length ∧
    (relocateAll base (stackClears sites) b 0 sites).2.1.length = sites.length * slotLength ∧
    (relocateAll base (stackClears sites) b 0 sites).2.2.memory.space = b.memory.space ∧
    ∀ i site, sites[i]? = some site → ∃ site' front slot back,
      (relocateAll base (stackClears sites) b 0 sites).1[i]? = some site' ∧
      (relocateAll base (stackClears sites) b 0 sites).2.1 = front ++ slot ++ back ∧
      front.length = i * slotLength ∧
      Relocated b.memory base (stackClears sites) i site site' slot := by
  have h := relocateAll_at base (stackClears sites) (b := b) rfl 0
    fun site hsite => (hready.fresh site hsite).greatest
  simpa only [Nat.zero_add] using h

theorem written_connectAll (entries : BreakpointTable) :
    let copied := relocateAll base (stackClears sites) b 0 sites
    let wrote := writeArea copied.2.2 base
      (stubBytes table copied.2.2.memory.dispatcher base (stackClears sites) ++ copied.2.1)
    wrote.1 = .ok () → Written (connectAll entries wrote.2 copied.1).2.2.memory base table
      b.memory.dispatcher (stackClears sites) copied.2.1 := by
  intro copied wrote hok
  obtain ⟨-, hlen, hspace, -⟩ := relocateAll_ready hready
  have hdispatcher : copied.2.2.memory.dispatcher = b.memory.dispatcher :=
    congrArg (·.2.1) (Memory.surroundings_eq_of_space_eq hspace)
  have hroom : areaSize (stackClears sites).length sites.length =
      (stackClears sites).length * stubLength + copied.2.1.length := by rw [hlen]; rfl
  have hready' := hroom ▸ hready
  have hwritten := written_writeArea hready' hspace hok
  have hbase := fun address => ((spares_writeArea copied.2.2 base (stubBytes table
    copied.2.2.memory.dispatcher base (stackClears sites) ++ copied.2.1)).baseAt? address).trans
      (Memory.baseAt?_eq_of_space_eq hspace address)
  obtain ⟨houtside, helsewhere⟩ := hready'.elsewhere_of_place (map_place_relocateAll ..) hbase
  rw [← hdispatcher]
  exact hwritten.connected entries (least_relocateAll hready) houtside helsewhere

theorem slot?_installAt {index : Nat} {site : Site} {slot : UInt32}
    (hsite : sites[index]? = some site)
    (hslot : (installAt symbols options table base sites b).2.1.table.slot? site.address =
      some slot) : slot = slotAddress base (stackClears sites).length index := by
  obtain ⟨t, ht, harea, -, -⟩ := installAt_cases symbols options table base b sites
  obtain ⟨-, -, -, hat⟩ := relocateAll_ready hready
  obtain ⟨site', _, _, _, hsite', -, -, hrel⟩ := hat index site hsite
  have hne := pairwise_address_ne (clear_relocateAll hready) fun s hs =>
    Nat.lt_of_lt_of_le (by decide) (least_relocateAll hready s hs)
  rw [harea, ht, ← hrel.address,
    slot?_tableOf symbols options hne (List.mem_of_getElem? hsite')] at hslot
  rcases hrel.outcome with ⟨-, hnone⟩ | ⟨_, _, hsome, _⟩
  · rw [hnone, (hready.fresh site (List.mem_of_getElem? hsite)).slot] at hslot
    cases hslot
  · exact Option.some.inj (hslot.symm.trans hsome)

theorem holds_writeArea_of_outside {b₁ : Bench} (hspace : b₁.memory.space = b.memory.space)
    {image bytes : List UInt8}
    (himage : image.length = areaSize (stackClears sites).length sites.length) {site : Site}
    (hsite : site ∈ sites) (hlen : bytes.length = site.breakpoint.caveSize)
    (h : b.memory.Holds site.address bytes) :
    (writeArea b₁ base image).2.memory.Holds site.address bytes := by
  have hcopied : b₁.memory.Holds site.address bytes :=
    (Memory.bytesAt_eq_of_space_eq hspace site.address bytes.length).trans h
  refine (spares_writeArea b₁ base image).holds (fun i hi => ?_) hcopied
  have hout := hready.outside site hsite (site.address.toNat + i - base.toNat)
  unfold Site.Outside at hout
  omega

/-- Each site ends with the bytes that it had, or is served by the area. -/
theorem installAt_outcome {index : Nat} {site : Site} (hsite : sites[index]? = some site)
    {original : List UInt8}
    (hbytes : b.memory.bytesAt site.address site.breakpoint.caveSize = .ok original) :
    (installAt symbols options table base sites b).2.2.memory.Holds site.address original ∨
      (installAt symbols options table base sites b).2.1.Serves b.memory.dispatcher original
        (installAt symbols options table base sites b).2.2.memory index site := by
  obtain ⟨t, ht, harea, -, hmem⟩ := installAt_cases symbols options table base b sites
  obtain ⟨hcount, hlen, hspace, hat⟩ := relocateAll_ready hready
  obtain ⟨site', front, slot, back, hsite', hsplit, hfront, hrel⟩ := hat index site hsite
  have hsize := least_relocateAll hready
  have hclear := clear_relocateAll hready
  have hwritten := written_connectAll table hready
    (tableOf symbols options (relocateAll base (stackClears sites) b 0 sites).1)
  have hmem' := List.mem_of_getElem? hsite'
  have hin := List.mem_of_getElem? hsite
  have hdispatcher : (relocateAll base (stackClears sites) b 0 sites).2.2.memory.dispatcher =
      b.memory.dispatcher :=
    congrArg (·.2.1) (Memory.surroundings_eq_of_space_eq hspace)
  dsimp only at hwritten
  rw [hdispatcher] at hmem hwritten
  rw [harea]
  generalize relocateAll base (stackClears sites) b 0 sites = copied at *
  obtain ⟨sites', slots, b₁⟩ := copied
  simp only at *
  have hcave := Memory.length_of_bytesAt hbytes
  have hbreakpoint : site'.breakpoint.caveSize = site.breakpoint.caveSize :=
    congrArg Breakpoint.caveSize hrel.breakpoint
  have hroom : areaSize (stackClears sites).length sites.length =
      (stackClears sites).length * stubLength + slots.length := by rw [hlen]; rfl
  have himage := length_image table b.memory.dispatcher base (stackClears sites) hlen
  have hwrote := holds_writeArea_of_outside hready hspace himage hin hcave
    (Memory.holds_of_bytesAt hbytes)
  rcases hmem with ⟨-, hmem⟩ | ⟨hok, -, hmem⟩
  · rw [hmem]
    exact Or.inl hwrote
  rw [hmem]
  have hwritten := hwritten hok
  generalize writeArea b₁ base
    (stubBytes table b.memory.dispatcher base (stackClears sites) ++ slots) = wrote at *
  rcases connectAll_outcome (tableOf symbols options sites') wrote.2 hsize hclear
    site' hmem' with hkeep | ⟨hstate, hredirect⟩
  · rw [hrel.address, hbreakpoint] at hkeep
    exact Or.inl (hkeep original hcave hwrote)
  · refine Or.inr ?_
    rw [hrel.address, hbreakpoint] at hredirect
    have hne := pairwise_address_ne hclear fun s hs => Nat.lt_of_lt_of_le (by decide) (hsize s hs)
    have hentry : t.slot? site.address = site'.slot := by
      rw [ht, ← hrel.address]
      exact slot?_tableOf symbols options hne hmem'
    have hserves := hwritten.serves hsplit hfront hrel (hready.fresh site hin)
      (mem_stackClears hin) hbytes hstate hredirect hentry
    rw [hcount, hroom]
    exact hserves

end InstallAt

/-! ## The stage -/

section Install
variable {m : Memory} {sites : List Site} {base : UInt32}

theorem toNat_slotAddress {stubs count number : Nat}
    (hfits : base.toNat + areaSize stubs count ≤ 2 ^ 32) (h : number < count) :
    (slotAddress base stubs number).toNat = base.toNat + 32 * (stubs + number) := by
  simp only [areaSize, stubLength, slotLength] at hfits
  rw [slotAddress, stubLength, slotLength, UInt32.toNat_add, UInt32.toNat_ofNat']
  omega

theorem range_of_fresh {site : Site} (h : site.Fresh m) :
    ∃ r, m.mappingAt? site.address = some r ∧ r.base.toNat ≤ site.address.toNat ∧
      site.address.toNat + site.breakpoint.caveSize ≤ r.base.toNat + r.size := by
  obtain ⟨bytes, hbytes⟩ := h.there
  obtain ⟨r, hr, -, hlen, -⟩ := Memory.bytesAt_eq_ok_iff.mp hbytes
  obtain ⟨hlow, hhigh⟩ := (Memory.mem_of_mappingAt? hr).2
  rw [Mapping.toNat_sub_base hlow] at hlen
  exact ⟨r, hr, hlow, by omega⟩

/-- Sites are ready to be installed in a range allocated for them. -/
theorem ready_allocate (hm : m.Separate) (hfresh : ∀ site ∈ sites, site.Fresh m)
    (hclear : sites.Pairwise Site.Clear) {size : Nat}
    (hsize : size = areaSize (stackClears sites).length sites.length)
    (hok : (m.allocate size .readWrite).1 = .ok base)
    (hfree : ∀ r ∈ m.mappings, r.Apart base.toNat (Memory.roundToPages size)) :
    Ready (m.allocate size .readWrite).2 base size sites := by
  have hround := Memory.le_roundToPages size
  have hpos : 0 < size := by
    rcases Memory.allocate_cases m size .readWrite with ⟨e, he, -⟩ | ⟨-, hpos, -⟩
    · rw [hok] at he
      cases he
    · exact hpos
  have hgrown := Memory.grown_of_allocate hm hok hfree
  have hfound := hgrown.found base (Nat.le_refl _) (by omega)
  refine ⟨hgrown.separate, Nat.le_of_lt (Nat.lt_of_le_of_lt (by omega) hgrown.fits),
    ⟨_, hfound, rfl, hround⟩, fun site hsite => ?_, hclear, fun site hsite i hi => ?_,
    fun site hsite => ?_⟩
  · obtain ⟨hleast, hgreatest, ⟨bytes, hbytes⟩, hslot, hstate⟩ := hfresh site hsite
    have hkept := hgrown.keeps _ _ (fun _ _ => trivial) (Memory.holds_of_bytesAt hbytes)
    rw [Memory.Holds, Memory.length_of_bytesAt hbytes] at hkept
    exact ⟨hleast, hgreatest, ⟨bytes, hkept⟩, hslot, hstate⟩
  -- The range that a site lies in is apart from the new one.
  · obtain ⟨r, hr, hlow, hhigh⟩ := range_of_fresh (hfresh site hsite)
    have hapart := hfree r (Memory.mem_of_mappingAt? hr).1
    unfold Site.Outside
    unfold Mapping.Apart at hapart
    omega
  · obtain ⟨r, hr, hlow, hhigh⟩ := range_of_fresh (hfresh site hsite)
    have hapart := hfree r (Memory.mem_of_mappingAt? hr).1
    have hleast := (hfresh site hsite).least
    simp only [Memory.baseAt?, hfound, hgrown.others _ _ hr, Option.map_some, ne_eq,
      Option.some.injEq]
    intro heq
    have heq : base.toNat = r.base.toNat := congrArg UInt32.toNat heq
    unfold Mapping.Apart at hapart
    rw [Breakpoint.leastCaveSize, callLength] at hleast
    omega

section Outcome
variable (symbols : Symbols) (options : Options) (table : UInt32) (b : Bench)

/-- Installing fails to allocate its area and writes nothing, or has an area to
install the sites in. -/
theorem install_cases (sites : List Site) :
    ((install symbols options table sites b).1 = sites ∧
      (install symbols options table sites b).2.1 = none ∧
      (install symbols options table sites b).2.2.memory.space = b.memory.space) ∨
    ∃ base b₁, (b.memory.allocate (areaSize (stackClears sites).length sites.length) .readWrite).1 =
        .ok base ∧
      b₁.memory =
        (b.memory.allocate (areaSize (stackClears sites).length sites.length) .readWrite).2 ∧
      (install symbols options table sites b).1 =
        (installAt symbols options table base sites b₁).1 ∧
      (install symbols options table sites b).2.1 =
        some (installAt symbols options table base sites b₁).2.1 ∧
      (install symbols options table sites b).2.2 =
        (installAt symbols options table base sites b₁).2.2 := by
  unfold install
  split
  · rename_i hempty
    rw [List.isEmpty_iff.mp hempty]
    exact Or.inl ⟨rfl, rfl, rfl⟩
  · have hspace := Memory.allocate_cases b.memory
      (areaSize (stackClears sites).length sites.length) .readWrite
    rcases hal : b.memory.allocate (areaSize (stackClears sites).length sites.length)
      .readWrite with ⟨e | base, memory⟩
    all_goals rw [hal] at hspace
    · rcases hspace with ⟨_, -, hs⟩ | ⟨hok, -⟩
      · exact Or.inl ⟨rfl, rfl, hs⟩
      · cases hok
    · exact Or.inr ⟨base, _, rfl, rfl, rfl, rfl, rfl⟩

theorem map_place_install (sites : List Site) :
    (install symbols options table sites b).1.map Site.place = sites.map Site.place := by
  rcases install_cases symbols options table b sites with ⟨h, -⟩ | ⟨base, b₁, -, -, h, -⟩
  · rw [h]
  · obtain ⟨_, -, -, hplace, -⟩ := installAt_cases symbols options table base b₁ sites
    rw [h, hplace]

variable {b} {sites : List Site} (hm : b.memory.Separate)
  (hfresh : ∀ site ∈ sites, site.Fresh b.memory) (hclear : sites.Pairwise Site.Clear)
  (hfree : ∀ area, (install symbols options table sites b).2.1 = some area →
    ∀ r ∈ b.memory.mappings, r.Apart area.base.toNat (Memory.roundToPages area.size))
include hm hfresh hclear hfree

/-- Installing writes nothing, or it goes on with an area that is ready for the sites
and with their bytes as they were. -/
theorem install_opens :
    ((install symbols options table sites b).1 = sites ∧
      (install symbols options table sites b).2.2.memory.space = b.memory.space) ∨
    ∃ base b₁, Ready b₁.memory base (areaSize (stackClears sites).length sites.length) sites ∧
      b.memory.Keeps (fun _ => True) b₁.memory ∧ b.memory.Leads b₁.memory ∧
      b₁.memory.dispatcher = b.memory.dispatcher ∧
      (installAt symbols options table base sites b₁).2.1.base = base ∧
      (install symbols options table sites b).1 =
        (installAt symbols options table base sites b₁).1 ∧
      (install symbols options table sites b).2.1 =
        some (installAt symbols options table base sites b₁).2.1 ∧
      (install symbols options table sites b).2.2 =
        (installAt symbols options table base sites b₁).2.2 := by
  rcases install_cases symbols options table b sites with
    ⟨hsame, -, hspace⟩ | ⟨base, b₁, hok, hb₁, hsites, harea, hend⟩
  · exact Or.inl ⟨hsame, hspace⟩
  obtain ⟨t, -, hshape, -, -⟩ := installAt_cases symbols options table base b₁ sites
  have hcount := Site.length_of_place (map_place_relocateAll base (stackClears sites) b₁ 0 sites)
  have hfree' := hfree _ (harea.trans (congrArg some hshape))
  rw [hcount] at hfree'
  have hready := ready_allocate hm hfresh hclear rfl hok hfree'
  have hgrown := Memory.grown_of_allocate hm hok hfree'
  have hleads : b.memory.Leads b₁.memory := by
    rw [hb₁]
    exact fun access => ⟨_, Memory.spends_allocate b.memory _ .readWrite access⟩
  rw [← hb₁] at hready hgrown
  exact Or.inr ⟨base, b₁, hready, hgrown.keeps, hleads, congrArg (·.2.1) hgrown.surroundings,
    congrArg BreakpointArea.base hshape, hsites, harea, hend⟩

/-- Each site ends with the bytes that it had, or there is an area that serves it. -/
theorem install_outcome {index : Nat} {site : Site} (hsite : sites[index]? = some site)
    {original : List UInt8}
    (hbytes : b.memory.bytesAt site.address site.breakpoint.caveSize = .ok original) :
    (install symbols options table sites b).2.2.memory.Holds site.address original ∨
    ∃ area, (install symbols options table sites b).2.1 = some area ∧
      area.Serves b.memory.dispatcher original
        (install symbols options table sites b).2.2.memory index site ∧
      ∀ other number slot, sites[number]? = some other →
        area.table.slot? other.address = some slot →
        slot.toNat = area.base.toNat + 32 * (area.stubs + number) := by
  have hheld := Memory.holds_of_bytesAt hbytes
  rcases install_opens symbols options table hm hfresh hclear hfree with
    ⟨-, hspace⟩ | ⟨base, b₁, hready, hkeeps, -, hdispatcher, -, -, harea, hend⟩
  · have hkept : b.memory.Keeps (fun _ => True) _ := Memory.keeps_of_space_eq hspace
    exact Or.inl (hkept _ _ (fun _ _ => trivial) hheld)
  have hheld₁ := hkeeps _ _ (fun _ _ => trivial) hheld
  rw [Memory.Holds, Memory.length_of_bytesAt hbytes] at hheld₁
  rw [hend]
  rcases installAt_outcome symbols options table hready hsite hheld₁ with hkept | hserves
  · exact Or.inl hkept
  · refine Or.inr ⟨_, harea, hdispatcher ▸ hserves, fun other number slot hother hslot => ?_⟩
    obtain ⟨t, -, hshape, -, -⟩ := installAt_cases symbols options table base b₁ sites
    rw [slot?_installAt symbols options table hready hother hslot, hshape]
    exact toNat_slotAddress hready.fits (List.getElem?_eq_some_iff.mp hother).1

end Outcome

end Install

section Run
variable {σ : Type} (symbols : Symbols) (options : Options) (table : UInt32) (resolve : Resolver σ)
  (resolver : σ) (b : Bench) (breakpoints : List Breakpoint)

theorem run_cases {stage : BreakpointStage}
    (h : (run symbols options table resolve resolver b breakpoints).1 = .ok stage) :
    let admitted := (admission symbols options resolve resolver b breakpoints).2
    let installed := install symbols options table admitted.sites admitted.bench
    (admitted.sites = [] ∧ stage.sites = [] ∧
      (run symbols options table resolve resolver b breakpoints).2.2.memory = b.memory) ∨
    (stage.sites = installed.1.map Site.summary ∧ stage.area = installed.2.1 ∧
      (run symbols options table resolve resolver b breakpoints).2.2 = installed.2.2) := by
  intro admitted installed
  by_cases hzero : Breakpoint.sites breakpoints = 0
  · rw [run_of_no_sites symbols options table resolve resolver b hzero] at h ⊢
    refine Or.inl ⟨sites_admitAll_of_sites_eq_zero _ _ _ _ hzero, ?_, rfl⟩
    rw [← Except.ok.inj h]
  · simp only [installed, admitted]
    rcases hadmission : admission symbols options resolve resolver b breakpoints with ⟨_ | name, a⟩
    · rw [run_of_admitted table hzero hadmission] at h ⊢
      rw [← Except.ok.inj h]
      exact Or.inr ⟨rfl, rfl, rfl⟩
    · rw [run_of_refused table hzero hadmission] at h
      cases h

end Run

/-- Where a stage has replaced the bytes of a site, there is an area that
serves it, and the slots of other sites in its table do not meet its own. -/
theorem replaced_sites_are_served {σ : Type} {symbols : Symbols} {options : Options}
    {table : UInt32} {resolve : Resolver σ} {resolver : σ} {b : Bench}
    {breakpoints : List Breakpoint} {stage : BreakpointStage} (hm : b.memory.Separate)
    (hrun : (run symbols options table resolve resolver b breakpoints).1 = .ok stage)
    (hfree : ∀ area, stage.area = some area →
      ∀ r ∈ b.memory.mappings, r.Apart area.base.toNat (Memory.roundToPages area.size)) :
    let after := (run symbols options table resolve resolver b breakpoints).2.2.memory
    let admitted := (admission symbols options resolve resolver b breakpoints).2.sites
    stage.sites.map (fun site => (site.name, site.address)) =
      admitted.map (fun site => (site.breakpoint.name, site.address)) ∧
    ∀ index site, admitted[index]? = some site →
      after.bytesAt site.address site.breakpoint.caveSize ≠
        b.memory.bytesAt site.address site.breakpoint.caveSize →
      ∃ area original, stage.area = some area ∧
        b.memory.bytesAt site.address site.breakpoint.caveSize = .ok original ∧
        area.Serves b.memory.dispatcher original after index site ∧
        ∀ number other slot slot', number ≠ index → admitted[number]? = some other →
          area.table.slot? site.address = some slot →
          area.table.slot? other.address = some slot' →
          slot.toNat + 32 ≤ slot'.toNat ∨ slot'.toNat + 32 ≤ slot.toNat := by
  intro after admitted
  have hsound := sound_admission symbols options resolve resolver b breakpoints
  rcases run_cases symbols options table resolve resolver b breakpoints hrun with
    ⟨hnone, hsites, -⟩ | ⟨hsites, harea, hend⟩
  · refine ⟨by rw [hsites]; simp only [admitted, hnone, List.map_nil], fun index site hsite => ?_⟩
    simp only [admitted, hnone, List.getElem?_nil] at hsite
    cases hsite
  have hspace := hsound.space
  refine ⟨?_, fun index site hsite hchanged => ?_⟩
  · have hplace := map_place_install symbols options table
      (admission symbols options resolve resolver b breakpoints).2.bench admitted
    have hpairs := congrArg (List.map fun p : Breakpoint × UInt32 => (p.1.name, p.2)) hplace
    rw [List.map_map, List.map_map] at hpairs
    rw [hsites, List.map_map]
    exact hpairs
  obtain ⟨original, hbytes⟩ := (hsound.fresh site (List.mem_of_getElem? hsite)).there
  generalize (admission symbols options resolve resolver b breakpoints).2.bench = b₁ at *
  have hfresh : ∀ s ∈ admitted, s.Fresh b₁.memory := fun s hs =>
    (hsound.fresh s hs).of_space_eq hspace
  have hfree' : ∀ area, (install symbols options table admitted b₁).2.1 = some area →
      ∀ r ∈ b₁.memory.mappings, r.Apart area.base.toNat (Memory.roundToPages area.size) := by
    rw [Memory.mappings_eq_of_space_eq hspace]
    exact fun area h => hfree area (harea.trans h)
  have hbytes₁ := hbytes
  rw [← Memory.bytesAt_eq_of_space_eq hspace] at hbytes₁
  have hdispatcher : b₁.memory.dispatcher = b.memory.dispatcher :=
    congrArg (·.2.1) (Memory.surroundings_eq_of_space_eq hspace)
  rcases install_outcome symbols options table ((Memory.separate_iff_of_space_eq hspace).mpr hm)
    hfresh hsound.clear hfree' hsite hbytes₁ with hkept | ⟨area, hsome, hserves, hslots⟩
  · refine absurd ?_ hchanged
    rw [Memory.Holds, Memory.length_of_bytesAt hbytes, ← hend] at hkept
    exact hkept.trans hbytes.symm
  · rw [hdispatcher, ← hend] at hserves
    refine ⟨area, original, harea.trans hsome, hbytes, hserves, ?_⟩
    intro number other slot slot' hne hother hslot hslot'
    have hfirst := hslots site index slot hsite hslot
    have hsecond := hslots other number slot' hother hslot'
    omega

/-! ### Two breakpoints

The second one drops eight bytes of arguments, so each has an entry stub of its own. -/

def servedBench : Bench where
  memory := { mappings := [.ofBytes 0x401000
    [0x55, 0x8B, 0xEC, 0x6A, 0xFF, 0x8B, 0x45, 0x08, 0x5D, 0xC2, 0x08, 0x00] .executeRead] }

def servedBreakpoints : List Breakpoint :=
  [{ name := "enter", addresses := [.absolute 0x401000], caveSize := 5, config := .null },
    { name := "leave", addresses := [.absolute 0x401005], caveSize := 7, stackClear := 8,
      config := .null }]

/-- Every breakpoint has the handler that does nothing. -/
def goOn : Resolver Unit := fun _ s => (.handler fun hit => (.cave, hit), s, [])

/-- What is admitted, and what it is installed to. -/
def servedAdmission : Admission Unit :=
  (admission {} {} goOn () servedBench servedBreakpoints).2

def servedInstall : List Site × Option BreakpointArea × Bench :=
  install {} {} 7 servedAdmission.sites servedAdmission.bench

theorem sample_sites_are_served : ∃ (enter leave : Site) (area : BreakpointArea),
    enter.address = 0x401000 ∧ enter.breakpoint.stackClear = 0 ∧
    leave.address = 0x401005 ∧ leave.breakpoint.stackClear = 8 ∧
    area.base = 0x10000000 ∧ area.stubs = 2 ∧
    area.Serves servedBench.memory.dispatcher [0x55, 0x8B, 0xEC, 0x6A, 0xFF]
      (run {} {} 7 goOn () servedBench servedBreakpoints).2.2.memory 0 enter ∧
    area.Serves servedBench.memory.dispatcher [0x8B, 0x45, 0x08, 0x5D, 0xC2, 0x08, 0x00]
      (run {} {} 7 goOn () servedBench servedBreakpoints).2.2.memory 1 leave ∧
    ∀ slot slot', area.table.slot? enter.address = some slot →
      area.table.slot? leave.address = some slot' →
      slot.toNat + 32 ≤ slot'.toNat ∨ slot'.toNat + 32 ≤ slot.toNat := by
  have hadmission : admission {} {} goOn () servedBench servedBreakpoints =
      (none, servedAdmission) := Prod.ext rfl rfl
  have hrun := run_of_admitted 7 (by decide) hadmission
  rw [← servedInstall] at hrun
  obtain ⟨⟨base, size, stubs, table⟩, harea, hnumbers⟩ := Option.map_eq_some_iff.mp
    (show servedInstall.2.1.map (fun area => (area.base, area.size, area.stubs)) =
      some (0x10000000, 128, 2) by decide +kernel)
  cases hnumbers
  have hfree : ∀ area, servedInstall.2.1 = some area → ∀ r ∈ servedBench.memory.mappings,
      r.Apart area.base.toNat (Memory.roundToPages area.size) := by
    intro area hsome
    cases harea.symm.trans hsome
    exact (by decide : ∀ r ∈ servedBench.memory.mappings,
      r.Apart 0x10000000 (Memory.roundToPages 128))
  have hserved := replaced_sites_are_served (by decide) (congrArg Prod.fst hrun)
  rw [hadmission, hrun] at hserved
  dsimp only at hserved
  obtain ⟨-, hall⟩ := hserved hfree
  obtain ⟨area, original, hsome, hbytes, henter, hslots⟩ := hall 0 _ rfl fun h =>
    absurd (congrArg Except.toOption h) (by decide +kernel)
  obtain ⟨area', original', hsome', hbytes', hleave, -⟩ := hall 1 _ rfl fun h =>
    absurd (congrArg Except.toOption h) (by decide +kernel)
  cases harea.symm.trans hsome
  cases harea.symm.trans hsome'
  cases hbytes
  cases hbytes'
  rw [hrun]
  dsimp only
  exact ⟨_, _, _, rfl, rfl, rfl, rfl, rfl, rfl, henter, hleave,
    fun slot slot' => hslots 1 _ slot slot' (by decide) rfl⟩

end BreakpointStage
end CodePatch
