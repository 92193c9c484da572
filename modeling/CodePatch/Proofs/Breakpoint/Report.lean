/-
# What the states of sites say

The state in which a site is reported says what lies at its address.  Armed, it
is the redirect.  Short of that, the bytes are the ones that were there before,
except in one case: a redirect is flushed after it is written, and if the flush
fails the site is reported as if its bytes had been copied and no more, with the
redirect in place (`unflushed_redirect_is_reported_relocated`).

`sites_end_as_reported` is this for every site of a stage.  `Ended` lists the
three ways of ending, for any two memories, and the lemmas carry it from the
connection of one site to that of all of them and to the whole stage.  What
happens in between is only that accesses are made (`Memory.Leads`) and that the
bytes of a site are left alone.
-/
import CodePatch.Proofs.Breakpoint.Install
import CodePatch.Proofs.Memory.Atomic

namespace CodePatch

open MachineCode (redirect)

/-- The ways in which a site can end, by its state, if `original` was at its
address before and `new` is what is to be written there. -/
inductive SiteState.Ended (before after : Memory) (address : UInt32)
    (original new : List UInt8) : SiteState → Prop where
  | untouched {state : SiteState} (unarmed : state ≠ .armed)
      (bytes : after.Holds address original) :
      Ended before after address original new state
  | armed (bytes : after.Holds address new) : Ended before after address original new .armed
  /-- Written, but not known to whoever fetches instructions. -/
  | unflushed (bytes : after.Holds address new) (failed : ∃ n, before.Failed after .flush n) :
      Ended before after address original new .relocated

section Ended
variable {before after : Memory} {address : UInt32} {original new : List UInt8} {state : SiteState}

theorem SiteState.Ended.of_armed (h : SiteState.Ended before after address original new state)
    (harmed : state = .armed) : after.Holds address new := by
  subst harmed
  cases h with
  | untouched hunarmed => exact absurd rfl hunarmed
  | armed hbytes => exact hbytes

theorem SiteState.Ended.of_unarmed (h : SiteState.Ended before after address original new state)
    (hunarmed : state ≠ .armed) : after.Holds address original ∨
      state = .relocated ∧ (∃ n, before.Failed after .flush n) ∧ after.Holds address new := by
  cases h with
  | untouched _ hbytes => exact Or.inl hbytes
  | armed => exact absurd rfl hunarmed
  | unflushed hbytes hfailed => exact Or.inr ⟨rfl, hfailed, hbytes⟩

/-- A site ends as it did where what happens before and behind leaves its bytes alone. -/
theorem SiteState.Ended.within {before₀ after₀ : Memory}
    (h : SiteState.Ended before after address original new state)
    (hbefore : before₀.Leads before) (hafter : after.Leads after₀)
    (hkeep : ∀ bytes, bytes = original ∨ bytes = new → after.Holds address bytes →
      after₀.Holds address bytes) :
    SiteState.Ended before₀ after₀ address original new state := by
  cases h with
  | untouched hunarmed hbytes => exact .untouched hunarmed (hkeep _ (Or.inl rfl) hbytes)
  | armed hbytes => exact .armed (hkeep _ (Or.inr rfl) hbytes)
  | unflushed hbytes hfailed =>
      exact .unflushed (hkeep _ (Or.inr rfl) hbytes)
        (Memory.exists_failed_within hbefore hfailed hafter)

end Ended

/-- A site that is not armed yet, and that the table has a slot for if its bytes are copied. -/
structure Site.Entered (table : BreakpointTable) (site : Site) : Prop where
  unarmed : site.state ≠ .armed
  entry : site.state = .relocated → (table.slot? site.address).isSome = true

namespace BreakpointStage

open SiteState (Ended)

/-! ## One site -/

section Connect
variable (table : BreakpointTable) (b : Bench) {site : Site}

theorem leads_connect (site : Site) : b.memory.Leads (connect table b site).2.2.memory := by
  rcases (connect_cases table b site).1 with h | ⟨-, expected, h⟩
  · rw [h]
    exact Memory.leads_of_faults_eq rfl
  · rw [h]
    exact Memory.leads_patch _ _ _ _

/-- Connecting a site changes nothing of it but its state, and the state says what
lies at its address. -/
theorem connect_ended (hentered : site.Entered table) {original : List UInt8}
    (hbytes : b.memory.Holds site.address original) :
    ∃ state, (connect table b site).1 = { site with state } ∧
      Ended b.memory (connect table b site).2.2.memory site.address original
        (redirect site.address site.stub site.breakpoint.caveSize) state := by
  have hunarmed := hentered.unarmed
  simp only [connect]
  split
  case isFalse => exact ⟨site.state, rfl, .untouched hunarmed hbytes⟩
  rename_i hstate
  obtain ⟨expected, hresult, hmemory⟩ : ∃ expected,
      (writeRedirect table.symbols table.options b site).1 = (b.memory.patch site.address expected
        (redirect site.address site.stub site.breakpoint.caveSize)).result ∧
      (writeRedirect table.symbols table.options b site).2.memory =
        (b.memory.patch site.address expected
          (redirect site.address site.stub site.breakpoint.caveSize)).memory := ⟨_, rfl, rfl⟩
  rcases hwrote : writeRedirect table.symbols table.options b site with ⟨e | u, b₁⟩
  all_goals
    rw [hwrote] at hresult hmemory
    dsimp only at hresult hmemory
  · refine ⟨site.state, rfl, ?_⟩
    show Ended b.memory b₁.memory site.address original _ site.state
    rw [hmemory]
    rcases Memory.unwritten_or_failed_flush _ _ _ _ hresult.symm with ⟨hsame, -⟩ | hfailed
    · exact .untouched hunarmed (hsame.keeps _ _ (fun _ _ => trivial) hbytes)
    · rcases Memory.holds_or_keeps_patch b.memory site.address expected
        (redirect site.address site.stub site.breakpoint.caveSize) with hnew | ⟨-, hkeep⟩
      · rw [hstate]
        exact .unflushed hnew ⟨0, hfailed⟩
      · exact .untouched hunarmed (hkeep _ _ (fun _ _ => trivial) hbytes)
  · have hfound : (table.arm site.address).1 = true := by
      have hslot := hentered.entry hstate
      rwa [BreakpointTable.slot?, Option.isSome_map] at hslot
    refine ⟨.armed, ?_, ?_⟩
    · simp only [armSite, hfound, if_true]
    · show Ended b.memory b₁.memory site.address original _ .armed
      rw [hmemory]
      exact .armed (Memory.holds_patch _ _ _ _ hresult.symm)

end Connect

/-! ## All sites -/

section ConnectAll
variable (table : BreakpointTable) (b : Bench)

theorem leads_connectAll (sites : List Site) :
    b.memory.Leads (connectAll table b sites).2.2.memory := by
  induction sites generalizing table b with
  | nil => exact Memory.leads_of_faults_eq rfl
  | cons site rest ih => exact (leads_connect table b site).trans (ih _ _)

variable {sites : List Site}

/-- The same of each of many sites, whatever becomes of the others. -/
theorem connectAll_ended
    (hsize : ∀ site ∈ sites, Breakpoint.leastCaveSize ≤ site.breakpoint.caveSize)
    (hclear : sites.Pairwise Site.Clear) (hentered : ∀ site ∈ sites, site.Entered table)
    {index : Nat} {site : Site} (hsite : sites[index]? = some site) {original : List UInt8}
    (hlen : original.length = site.breakpoint.caveSize)
    (hbytes : b.memory.Holds site.address original) :
    ∃ state, (connectAll table b sites).1[index]? = some { site with state } ∧
      Ended b.memory (connectAll table b sites).2.2.memory site.address original
        (redirect site.address site.stub site.breakpoint.caveSize) state := by
  induction sites generalizing table b index with
  | nil => cases hsite
  | cons first rest ih =>
      obtain ⟨hfirst, hrest⟩ := List.pairwise_cons.mp hclear
      have hsize₁ := hsize first List.mem_cons_self
      have hsizes : ∀ s ∈ rest, Breakpoint.leastCaveSize ≤ s.breakpoint.caveSize :=
        fun s hs => hsize s (List.mem_cons_of_mem _ hs)
      have hspares := spares_connectAll (connect table b first).2.1 (connect table b first).2.2
        hsizes
      cases index with
      -- what is done to the rest leaves the bytes of the first site alone
      | zero =>
          obtain rfl : first = site := Option.some.inj hsite
          obtain ⟨state, hstate, hended⟩ :=
            connect_ended table b (hentered first List.mem_cons_self) hbytes
          refine ⟨state, congrArg some hstate, ?_⟩
          refine hended.within (Memory.leads_of_faults_eq rfl) (leads_connectAll _ _ rest) ?_
          intro bytes hbytes
          have hcount : bytes.length = first.breakpoint.caveSize := by
            rcases hbytes with rfl | rfl
            · exact hlen
            · exact length_redirect_site hsize₁ first.stub
          refine hspares.holds fun i hi other hother => ?_
          exact Site.outside_of_clear (hfirst other hother).symm (hcount ▸ hi)
      -- and what is done to the first site those of the rest
      | succ index =>
          have hmem : site ∈ rest := List.mem_of_getElem? hsite
          have hheld : (connect table b first).2.2.memory.Holds site.address original := by
            refine (spares_connect table b hsize₁).holds (fun i hi => ?_) hbytes
            exact Site.outside_of_clear (hfirst site hmem) (hlen ▸ hi)
          have hentered' : ∀ s ∈ rest, s.Entered (connect table b first).2.1 := by
            intro s hs
            obtain ⟨hunarmed, hentry⟩ := hentered s (List.mem_cons_of_mem _ hs)
            refine ⟨hunarmed, ?_⟩
            rwa [(connect_cases table b first).2.2]
          obtain ⟨state, hstate, hended⟩ := ih (connect table b first).2.1
            (connect table b first).2.2 hsizes hrest hentered' hsite hheld
          exact ⟨state, hstate, hended.within (leads_connect table b first)
            (Memory.leads_of_faults_eq rfl) fun _ _ => id⟩

end ConnectAll

/-! ## The area -/

section Area
variable (base : UInt32) (clears : List UInt16) (b : Bench)

theorem memory_relocate (index : Nat) (site : Site) :
    (relocate base clears b index site).2.2.memory =
      (b.memory.readBytes site.address site.breakpoint.caveSize).2 := by
  simp only [relocate]
  rcases b.memory.readBytes site.address site.breakpoint.caveSize with ⟨_ | _, _⟩ <;> rfl

theorem leads_relocateAll (index : Nat) (sites : List Site) :
    b.memory.Leads (relocateAll base clears b index sites).2.2.memory := by
  induction sites generalizing b index with
  | nil => exact Memory.leads_of_faults_eq rfl
  | cons site rest ih =>
      have hfirst : b.memory.Leads (relocate base clears b index site).2.2.memory := by
        rw [memory_relocate]
        exact fun access => ⟨_, Memory.spends_readBytes _ _ _ access⟩
      exact hfirst.trans (ih _ _)

theorem relocate_state {index : Nat} {site : Site}
    (h : site.state = .caveReserved ∧ site.slot = none) :
    (relocate base clears b index site).1.state = .caveReserved ∧
        (relocate base clears b index site).1.slot = none ∨
      (relocate base clears b index site).1.state = .relocated ∧
        (relocate base clears b index site).1.slot.isSome = true := by
  simp only [relocate]
  rcases b.memory.readBytes site.address site.breakpoint.caveSize with ⟨_ | _, _⟩
  · exact Or.inl h
  · exact Or.inr ⟨rfl, rfl⟩

theorem relocateAll_state (index : Nat) {sites : List Site}
    (h : ∀ site ∈ sites, site.state = .caveReserved ∧ site.slot = none) :
    ∀ site ∈ (relocateAll base clears b index sites).1,
      site.state = .caveReserved ∧ site.slot = none ∨
        site.state = .relocated ∧ site.slot.isSome = true := by
  induction sites generalizing b index with
  | nil => exact fun _ hsite => absurd hsite List.not_mem_nil
  | cons first rest ih =>
      intro site hsite
      rcases List.mem_cons.mp hsite with rfl | hsite
      · exact relocate_state base clears b (h first List.mem_cons_self)
      · exact ih _ (index + 1) (fun s hs => h s (List.mem_cons_of_mem _ hs)) site hsite

theorem leads_writeArea (image : List UInt8) :
    b.memory.Leads (writeArea b base image).2.memory := by
  have hpatch := Memory.leads_patch b.memory base none image
  have hprotect := hpatch.trans fun access =>
    ⟨_, Memory.spends_protect _ base .executeRead access⟩
  simp only [writeArea, Bench.patch]
  cases (b.memory.patch base none image).result with
  | error e => exact hpatch
  | ok u =>
      simp only [Bench.memory_say, Bench.memory_withMemory]
      rcases hp : (b.memory.patch base none image).memory.protect base .executeRead with ⟨_ | p, m⟩
      all_goals rw [hp] at hprotect
      · exact hprotect
      · exact hprotect.trans fun access => ⟨_, Memory.spends_flush _ base access⟩

end Area

/-! ## The stage -/

section InstallAt
variable (symbols : Symbols) (options : Options) (table : UInt32) {base : UInt32}
  {sites : List Site} {b : Bench}

theorem entered_relocateAll (hready : Ready b.memory base
      (areaSize (stackClears sites).length sites.length) sites) :
    ∀ site ∈ (relocateAll base (stackClears sites) b 0 sites).1,
      site.Entered
        (tableOf symbols options (relocateAll base (stackClears sites) b 0 sites).1) := by
  have hsize := least_relocateAll hready
  have hne := pairwise_address_ne (clear_relocateAll hready) fun s hs =>
    Nat.lt_of_lt_of_le (by decide) (hsize s hs)
  have hstate := relocateAll_state base (stackClears sites) b 0
    fun s hs => ⟨(hready.fresh s hs).state, (hready.fresh s hs).slot⟩
  intro site hsite
  rcases hstate site hsite with ⟨hreserved, -⟩ | ⟨hrelocated, hslot⟩
  · constructor
    · intro harmed
      cases hreserved.symm.trans harmed
    · intro hrelocated
      cases hreserved.symm.trans hrelocated
  · constructor
    · intro harmed
      cases hrelocated.symm.trans harmed
    · intro _
      rw [slot?_tableOf symbols options hne hsite]
      exact hslot

/-- A site ends as the redirect to its entry stub allows, whether the area could be
written or not. -/
theorem installAt_ended (hready : Ready b.memory base
      (areaSize (stackClears sites).length sites.length) sites)
    {index : Nat} {site : Site} (hsite : sites[index]? = some site) {original : List UInt8}
    (hbytes : b.memory.bytesAt site.address site.breakpoint.caveSize = .ok original) :
    ∃ site', (installAt symbols options table base sites b).1[index]? = some site' ∧
      site'.place = site.place ∧
      Ended b.memory (installAt symbols options table base sites b).2.2.memory site.address original
        (redirect site.address (stubAddress base (stackClears sites) site)
          site.breakpoint.caveSize) site'.state := by
  obtain ⟨-, -, -, -, hinstalled⟩ := installAt_cases symbols options table base b sites
  obtain ⟨-, hlen, hspace, hat⟩ := relocateAll_ready hready
  obtain ⟨site', _, _, _, hsite', -, -, hrel⟩ := hat index site hsite
  have hsize := least_relocateAll hready
  have hclear := clear_relocateAll hready
  have hentered := entered_relocateAll symbols options hready
  have hcopied := leads_relocateAll base (stackClears sites) b 0 sites
  generalize relocateAll base (stackClears sites) b 0 sites = copied at *
  obtain ⟨sites', slots, b₁⟩ := copied
  simp only at *
  have hmem := List.mem_of_getElem? hsite'
  have hplace : site'.place = site.place := Prod.ext hrel.breakpoint hrel.address
  have hcave := Memory.length_of_bytesAt hbytes
  have himage := length_image table b₁.memory.dispatcher base (stackClears sites) hlen
  have hheld := holds_writeArea_of_outside hready hspace himage (List.mem_of_getElem? hsite) hcave
    (Memory.holds_of_bytesAt hbytes)
  have hwrote := hcopied.trans (leads_writeArea base b₁
    (stubBytes table b₁.memory.dispatcher base (stackClears sites) ++ slots))
  generalize writeArea b₁ base
    (stubBytes table b₁.memory.dispatcher base (stackClears sites) ++ slots) = wrote at *
  rcases hinstalled with ⟨hend, hmemory⟩ | ⟨-, hend, hmemory⟩
  · rw [hend, hmemory]
    exact ⟨site', hsite', hplace, .untouched (hentered site' hmem).unarmed hheld⟩
  have hcount : original.length = site'.breakpoint.caveSize := by
    rw [hrel.breakpoint]
    exact hcave
  rw [← hrel.address] at hheld
  obtain ⟨state, hconnected, hended⟩ := connectAll_ended (tableOf symbols options sites') wrote.2
    hsize hclear hentered hsite' hcount hheld
  rw [hend, hmemory]
  refine ⟨_, hconnected, hplace, ?_⟩
  rw [hrel.address, hrel.stub, hrel.breakpoint] at hended
  exact hended.within hwrote (Memory.leads_of_faults_eq rfl) fun _ _ => id

end InstallAt

section Install
variable (symbols : Symbols) (options : Options) (table : UInt32) {b : Bench} {sites : List Site}

theorem install_ended (hm : b.memory.Separate) (hfresh : ∀ site ∈ sites, site.Fresh b.memory)
    (hclear : sites.Pairwise Site.Clear)
    (hfree : ∀ area, (install symbols options table sites b).2.1 = some area →
      ∀ r ∈ b.memory.mappings, r.Apart area.base.toNat (Memory.roundToPages area.size))
    {index : Nat} {site : Site} (hsite : sites[index]? = some site) {original : List UInt8}
    (hbytes : b.memory.bytesAt site.address site.breakpoint.caveSize = .ok original) :
    ∃ site', (install symbols options table sites b).1[index]? = some site' ∧
      site'.place = site.place ∧
      ((site'.state ≠ .armed ∧
        (install symbols options table sites b).2.2.memory.Holds site.address original) ∨
      ∃ area, (install symbols options table sites b).2.1 = some area ∧
        Ended b.memory (install symbols options table sites b).2.2.memory site.address original
          (redirect site.address (stubAddress area.base (stackClears sites) site)
            site.breakpoint.caveSize) site'.state) := by
  have hheld := Memory.holds_of_bytesAt hbytes
  rcases install_opens symbols options table hm hfresh hclear hfree with
    ⟨hsame, hspace⟩ | ⟨base, b₁, hready, hkeeps, hleads, -, hbase, hsites, harea, hend⟩
  · rw [hsame]
    have hunarmed : site.state ≠ .armed := by
      rw [(hfresh site (List.mem_of_getElem? hsite)).state]
      decide
    have hkept : b.memory.Keeps (fun _ => True) _ := Memory.keeps_of_space_eq hspace
    exact ⟨site, hsite, rfl, Or.inl ⟨hunarmed, hkept _ _ (fun _ _ => trivial) hheld⟩⟩
  · have hheld₁ := hkeeps _ _ (fun _ _ => trivial) hheld
    rw [Memory.Holds, Memory.length_of_bytesAt hbytes] at hheld₁
    obtain ⟨site', hsite', hplace, hended⟩ :=
      installAt_ended symbols options table hready hsite hheld₁
    rw [hsites, hend]
    refine ⟨site', hsite', hplace, Or.inr ⟨_, harea, ?_⟩⟩
    rw [hbase]
    exact hended.within hleads (Memory.leads_of_faults_eq rfl) fun _ _ => id

end Install

/-- Every site of a stage is one that was admitted, and it ends untouched or as the
redirect to the area allows. -/
theorem run_ended {σ : Type} {symbols : Symbols} {options : Options} {table : UInt32}
    {resolve : Resolver σ} {resolver : σ} {b : Bench} {breakpoints : List Breakpoint}
    {stage : BreakpointStage} (hm : b.memory.Separate)
    (hrun : (run symbols options table resolve resolver b breakpoints).1 = .ok stage)
    (hfree : ∀ area, stage.area = some area →
      ∀ r ∈ b.memory.mappings, r.Apart area.base.toNat (Memory.roundToPages area.size)) :
    let after := (run symbols options table resolve resolver b breakpoints).2.2.memory
    let admitted := (admission symbols options resolve resolver b breakpoints).2.sites
    ∀ (index : Nat) (reported : BreakpointSite), stage.sites[index]? = some reported →
      ∃ site original, admitted[index]? = some site ∧ site.Fresh b.memory ∧
        reported.name = site.breakpoint.name ∧ reported.address = site.address ∧
        b.memory.bytesAt site.address site.breakpoint.caveSize = .ok original ∧
        ((reported.state ≠ .armed ∧ after.Holds site.address original) ∨
        ∃ area, stage.area = some area ∧
          Ended b.memory after site.address original
            (redirect site.address (stubAddress area.base (stackClears admitted) site)
              site.breakpoint.caveSize) reported.state) := by
  intro after admitted index reported hreported
  have hsound := sound_admission symbols options resolve resolver b breakpoints
  rcases run_cases symbols options table resolve resolver b breakpoints hrun with
    ⟨-, hsites, -⟩ | ⟨hsites, harea, hend⟩
  · rw [hsites] at hreported
    cases hreported
  have hafter : after = _ := congrArg Bench.memory hend
  rw [hafter, harea]
  rw [harea] at hfree
  simp only [admitted]
  generalize (admission symbols options resolve resolver b breakpoints).2 = admission at *
  rw [hsites, List.getElem?_map] at hreported
  obtain ⟨ended, hended, rfl⟩ := Option.map_eq_some_iff.mp hreported
  obtain ⟨site, hsite⟩ : ∃ site, admission.sites[index]? = some site := by
    have hlen := Site.length_of_place
      (map_place_install symbols options table admission.bench admission.sites)
    have hlt := (List.getElem?_eq_some_iff.mp hended).1
    exact ⟨_, List.getElem?_eq_getElem (hlen ▸ hlt)⟩
  have hfresh := hsound.fresh site (List.mem_of_getElem? hsite)
  obtain ⟨original, hbytes⟩ := hfresh.there
  -- the admission has changed nothing that installing depends on
  have hspace := hsound.space
  have hseparate := (Memory.separate_iff_of_space_eq hspace).mpr hm
  have hbytes' := hbytes
  rw [← Memory.bytesAt_eq_of_space_eq hspace] at hbytes'
  rw [← Memory.mappings_eq_of_space_eq hspace] at hfree
  obtain ⟨site', hsite', hplace, houtcome⟩ := install_ended symbols options table hseparate
    (fun s hs => (hsound.fresh s hs).of_space_eq hspace) hsound.clear hfree hsite hbytes'
  obtain rfl := Option.some.inj (hended.symm.trans hsite')
  refine ⟨site, original, hsite, hfresh, congrArg (·.1.name) hplace, congrArg Prod.snd hplace,
    hbytes, ?_⟩
  rcases houtcome with hkept | ⟨area, hsome, hended⟩
  · exact Or.inl hkept
  · exact Or.inr ⟨area, hsome,
      hended.within hsound.leads (Memory.leads_of_faults_eq rfl) fun _ _ => id⟩

/-- A site that is reported armed is redirected, and any other has the bytes that it
had, unless a flush failed: then it may be redirected and reported as copied. -/
theorem sites_end_as_reported {σ : Type} {symbols : Symbols} {options : Options}
    {table : UInt32} {resolve : Resolver σ} {resolver : σ} {b : Bench}
    {breakpoints : List Breakpoint} {stage : BreakpointStage} (hm : b.memory.Separate)
    (hrun : (run symbols options table resolve resolver b breakpoints).1 = .ok stage)
    (hfree : ∀ area, stage.area = some area →
      ∀ r ∈ b.memory.mappings, r.Apart area.base.toNat (Memory.roundToPages area.size)) :
    let after := (run symbols options table resolve resolver b breakpoints).2.2.memory
    let admitted := (admission symbols options resolve resolver b breakpoints).2.sites
    ∀ (index : Nat) (reported : BreakpointSite), stage.sites[index]? = some reported →
      ∃ site original, admitted[index]? = some site ∧
        reported.name = site.breakpoint.name ∧ reported.address = site.address ∧
        b.memory.bytesAt site.address site.breakpoint.caveSize = .ok original ∧
        (reported.state = .armed → ∃ area, stage.area = some area ∧
          after.bytesAt site.address site.breakpoint.caveSize = .ok
            (redirect site.address (stubAddress area.base (stackClears admitted) site)
              site.breakpoint.caveSize)) ∧
        (reported.state ≠ .armed →
          after.bytesAt site.address site.breakpoint.caveSize = .ok original ∨
          reported.state = .relocated ∧ (∃ n, b.memory.Failed after .flush n) ∧
            ∃ area, stage.area = some area ∧
              after.bytesAt site.address site.breakpoint.caveSize = .ok
                (redirect site.address (stubAddress area.base (stackClears admitted) site)
                  site.breakpoint.caveSize)) := by
  intro after admitted index reported hreported
  obtain ⟨site, original, hsite, hfresh, hname, haddress, hbytes, houtcome⟩ :=
    run_ended hm hrun hfree index reported hreported
  have hread : ∀ bytes, bytes.length = site.breakpoint.caveSize →
      after.Holds site.address bytes →
      after.bytesAt site.address site.breakpoint.caveSize = .ok bytes := by
    intro bytes hlen hheld
    exact hlen ▸ hheld
  have hlen := Memory.length_of_bytesAt hbytes
  have hlen' := fun stub => length_redirect_site hfresh.least stub
  refine ⟨site, original, hsite, hname, haddress, hbytes, ?_, ?_⟩
  · intro harmed
    rcases houtcome with ⟨hunarmed, -⟩ | ⟨area, hsome, hended⟩
    · exact absurd harmed hunarmed
    · exact ⟨area, hsome, hread _ (hlen' _) (hended.of_armed harmed)⟩
  · intro hunarmed
    rcases houtcome with ⟨-, hkept⟩ | ⟨area, hsome, hended⟩
    · exact Or.inl (hread _ hlen hkept)
    rcases hended.of_unarmed hunarmed with hkept | ⟨hstate, hfailed, hnew⟩
    · exact Or.inl (hread _ hlen hkept)
    · exact Or.inr ⟨hstate, hfailed, area, hsome, hread _ (hlen' _) hnew⟩

/-! ### One breakpoint, and a flush that fails -/

def sampleBench : Bench where
  memory := { mappings := [.ofBytes 0x401000 [0x55, 0x8B, 0xEC, 0x6A, 0xFF, 0xC3] .executeRead] }

def sampleBreakpoint : Breakpoint where
  name := "enter"
  addresses := [.absolute 0x401000]
  caveSize := 5
  config := .null

/-- The second flush fails: the one behind the first redirect. -/
def unflushedBench : Bench where
  memory := { sampleBench.memory with faults := { flush := [1] } }

/-- One breakpoint that is armed, and the same one where the flush of its redirect fails. -/
theorem sample_sites_end_as_reported :
    (run {} {} 7 goOn () sampleBench [sampleBreakpoint]).2.2.memory.bytesAt 0x401000 5 =
      .ok (redirect 0x401000 0x10000000 5) ∧
    ∃ n, unflushedBench.memory.Failed
      (run {} {} 7 goOn () unflushedBench [sampleBreakpoint]).2.2.memory .flush n := by
  constructor
  · have hall := sites_end_as_reported (b := sampleBench) (by decide)
      (rfl : (run {} {} 7 goOn () sampleBench [sampleBreakpoint]).1 = .ok _) ?free
    case free =>
      rintro area ⟨⟩
      decide
    obtain ⟨site, original, hsite, -, -, -, harmed, -⟩ := hall 0 _ rfl
    cases hsite
    obtain ⟨area, harea, hbytes⟩ := harmed rfl
    cases harea
    exact hbytes
  · have hall := sites_end_as_reported (b := unflushedBench) (by decide)
      (rfl : (run {} {} 7 goOn () unflushedBench [sampleBreakpoint]).1 = .ok _) ?free
    case free =>
      rintro area ⟨⟩
      decide
    obtain ⟨site, original, hsite, -, -, hbytes, -, hunarmed⟩ := hall 0 _ rfl
    cases hsite
    rcases hunarmed (by decide) with hkept | ⟨-, hfailed, -⟩
    · exact absurd (congrArg Except.toOption (hkept.trans hbytes.symm)) (by decide)
    · exact hfailed

/-- A site that is not armed, and whose bytes are not the ones that were there. -/
theorem unflushed_redirect_is_reported_relocated : ∃ stage area,
    unflushedBench.memory.Separate ∧
    (run {} {} 7 goOn () unflushedBench [sampleBreakpoint]).1 = .ok stage ∧
    stage.area = some area ∧
    (∀ r ∈ unflushedBench.memory.mappings,
      r.Apart area.base.toNat (Memory.roundToPages area.size)) ∧
    ¬ ∀ reported ∈ stage.sites, reported.state ≠ .armed →
      (run {} {} 7 goOn () unflushedBench [sampleBreakpoint]).2.2.memory.bytesAt
        reported.address 5 = unflushedBench.memory.bytesAt reported.address 5 := by
  refine ⟨_, _, by decide, rfl, rfl, by decide, ?_⟩
  intro h
  have hsame := h _ List.mem_cons_self (by decide)
  exact absurd (congrArg Except.toOption hsame) (by decide)

end BreakpointStage
end CodePatch
