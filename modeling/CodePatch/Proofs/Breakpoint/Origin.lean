/-
# Where sites and their copies come from

A site that is admitted is one that an entry asks for: the entry is not to be
ignored, and the address of the site is what one of its addresses stands for
(`asked_admission`).  And what the slot of an armed site holds is a copy of the
bytes that were at its address when the stage began, with a jump back
(`copied_install`), whatever these bytes were: if they were a redirect, it is
a redirect that is copied.
-/
import CodePatch.Proofs.Breakpoint.Report

namespace CodePatch

/-! ## Sites -/

/-- One of the entries asks for the site. -/
structure Site.Asked (breakpoints : List Breakpoint) (site : Site) : Prop where
  entry : site.breakpoint ∈ breakpoints
  active : site.breakpoint.ignore = false
  target : ∃ target ∈ site.breakpoint.addresses, ∃ scope, target.resolve scope = .ok site.address

namespace Admission

variable {σ : Type} {a : Admission σ} {breakpoints : List Breakpoint} (s : Setting)

theorem asked_admitSite (h : ∀ site ∈ a.sites, site.Asked breakpoints) {bp : Breakpoint}
    (handler : Handler) (index : Nat) {address : UInt32}
    (hasked : ({ breakpoint := bp, handler, address } : Site).Asked breakpoints) :
    ∀ site ∈ (admitSite s a bp handler index address).sites, site.Asked breakpoints := by
  simp only [admitSite]
  split
  · exact h
  · split
    · intro site hsite
      rcases List.mem_append.mp hsite with hsite | hsite
      · exact h site hsite
      · obtain rfl := List.mem_singleton.mp hsite
        exact hasked
    · exact h

theorem asked_admitEach (h : ∀ site ∈ a.sites, site.Asked breakpoints) {bp : Breakpoint}
    (hbp : bp ∈ breakpoints) (hactive : bp.ignore = false) (handler : Handler) (index : Nat)
    {targets : List TargetAddress} (htargets : targets ⊆ bp.addresses) :
    ∀ site ∈ (admitEach s a bp handler index targets).sites, site.Asked breakpoints := by
  induction targets generalizing a index with
  | nil => exact h
  | cons target rest ih =>
      obtain ⟨htarget, hrest⟩ := List.cons_subset.mp htargets
      refine ih ?_ (index + 1) hrest
      unfold admitAt
      split
      · exact h
      · rename_i address hresolve
        split
        · exact h
        · exact asked_admitSite s h handler index ⟨hbp, hactive, target, htarget, _, hresolve⟩

theorem asked_admitEntry (h : ∀ site ∈ a.sites, site.Asked breakpoints) (resolve : Resolver σ)
    (index : Nat) {bp : Breakpoint} (hbp : bp ∈ breakpoints) :
    ∀ site ∈ (admitEntry s resolve a index bp).2.sites, site.Asked breakpoints := by
  unfold admitEntry
  split
  · exact h
  · rename_i hactive
    split
    · exact h
    · rcases hr : resolve bp a.resolver with ⟨resolution, resolver, said⟩
      simp only [admitResolved, hr]
      cases resolution with
      | handler handler =>
          refine asked_admitEach s ?_ hbp (Bool.eq_false_iff.mpr hactive) handler index
            (List.Subset.refl _)
          exact h
      | skip => exact h
      | abort name => exact h

theorem asked_admitAll (h : ∀ site ∈ a.sites, site.Asked breakpoints) (resolve : Resolver σ)
    (index : Nat) {entries : List Breakpoint} (hentries : entries ⊆ breakpoints) :
    ∀ site ∈ (admitAll s resolve a index entries).2.sites, site.Asked breakpoints := by
  induction entries generalizing a index with
  | nil => exact h
  | cons bp rest ih =>
      obtain ⟨hbp, hrest⟩ := List.cons_subset.mp hentries
      have hentry := asked_admitEntry s h resolve index hbp
      rw [admitAll_cons]
      cases (admitEntry s resolve a index bp).1 with
      | some name => exact hentry
      | none => exact ih hentry (next index bp) hrest

end Admission

namespace BreakpointStage

open MachineCode (relocatedSlot)

theorem asked_admission {σ : Type} (symbols : Symbols) (options : Options) (resolve : Resolver σ)
    (resolver : σ) (b : Bench) (breakpoints : List Breakpoint) :
    ∀ site ∈ (admission symbols options resolve resolver b breakpoints).2.sites,
      site.Asked breakpoints :=
  Admission.asked_admitAll _ (fun _ h => absurd h List.not_mem_nil) resolve 1 (List.Subset.refl _)

/-! ## Copies -/

/-- The site has a slot, in which lies a copy of the bytes that were at its address. -/
def Copied (before after : Memory) (site : Site) : Prop :=
  ∃ slot original, site.slot = some slot ∧
    before.bytesAt site.address site.breakpoint.caveSize = .ok original ∧
    after.Holds slot (relocatedSlot original site.address slot)

theorem copied_iff_of_space_eq {before before' after : Memory} {site : Site}
    (h : before'.space = before.space) : Copied before' after site ↔ Copied before after site := by
  simp only [Copied, Memory.bytesAt_eq_of_space_eq h]

/-- Connecting a site changes nothing of it but its state, and not that if its bytes are
not copied. -/
theorem connect_state (table : BreakpointTable) (b : Bench) (site : Site) :
    ∃ state, (connect table b site).1 = { site with state } ∧
      (site.state ≠ .relocated → state = site.state) := by
  simp only [connect]
  split
  · rename_i hstate
    rcases writeRedirect table.symbols table.options b site with ⟨_ | u, b₁⟩
    · exact ⟨site.state, rfl, fun _ => rfl⟩
    · exact ⟨_, rfl, fun hne => absurd hstate hne⟩
  · exact ⟨site.state, rfl, fun _ => rfl⟩

theorem connectAll_state (table : BreakpointTable) (b : Bench) {sites : List Site} {index : Nat}
    {site : Site} (hsite : sites[index]? = some site) :
    ∃ state, (connectAll table b sites).1[index]? = some { site with state } ∧
      (site.state ≠ .relocated → state = site.state) := by
  induction sites generalizing table b index with
  | nil => cases hsite
  | cons first rest ih =>
      cases index with
      | zero =>
          obtain rfl : first = site := Option.some.inj hsite
          obtain ⟨state, hsame, hstate⟩ := connect_state table b first
          exact ⟨state, congrArg some hsame, hstate⟩
      | succ index => exact ih _ _ hsite

section Install
variable (symbols : Symbols) (options : Options) (table : UInt32) {b : Bench} {sites : List Site}

theorem copied_installAt {base : UInt32}
    (hready : Ready b.memory base (areaSize (stackClears sites).length sites.length) sites)
    {index : Nat} {site : Site}
    (hsite : (installAt symbols options table base sites b).1[index]? = some site)
    (harmed : site.state = .armed) :
    Copied b.memory (installAt symbols options table base sites b).2.2.memory site := by
  obtain ⟨-, -, -, hplaces, hinstalled⟩ := installAt_cases symbols options table base b sites
  obtain ⟨-, -, -, hat⟩ := relocateAll_ready hready
  have hi : index < sites.length :=
    Site.length_of_place hplaces ▸ (List.getElem?_eq_some_iff.mp hsite).1
  obtain ⟨site', front, slot, back, hsite', hsplit, hfront, hrel⟩ :=
    hat index _ (List.getElem?_eq_getElem hi)
  have hwritten := written_connectAll table hready
    (tableOf symbols options (relocateAll base (stackClears sites) b 0 sites).1)
  have hunarmed := (entered_relocateAll symbols options hready _
    (List.mem_of_getElem? hsite')).unarmed
  generalize relocateAll base (stackClears sites) b 0 sites = copied at *
  obtain ⟨sites', slots, b₁⟩ := copied
  simp only at *
  rcases hinstalled with ⟨hend, -⟩ | ⟨hok, hend, hmemory⟩
  · rw [hend, hsite'] at hsite
    cases hsite
    exact absurd harmed hunarmed
  obtain ⟨state, hconnected, hkept⟩ :=
    connectAll_state (tableOf symbols options sites') _ hsite'
  rw [hend] at hsite
  obtain rfl := Option.some.inj (hsite.symm.trans hconnected)
  rcases hrel.outcome with ⟨hreserved, -⟩ | ⟨original, hbytes, hslot, hcode⟩
  -- only a site whose bytes are copied is ever armed
  · have hne : site'.state ≠ .relocated := by
      rw [hreserved, (hready.fresh _ (List.getElem_mem hi)).state]
      decide
    exact absurd ((hkept hne).symm.trans harmed) hunarmed
  obtain ⟨-, hheld⟩ := (hwritten hok).slot hsplit hfront hrel.length
  refine ⟨_, original, hslot, ?_, ?_⟩
  · rw [← hrel.breakpoint, ← hrel.address] at hbytes
    exact hbytes
  · rw [hmemory]
    rw [hcode, ← hrel.address] at hheld
    exact hheld

/-- The slot of an armed site holds the bytes that were there. -/
theorem copied_install (hm : b.memory.Separate) (hfresh : ∀ site ∈ sites, site.Fresh b.memory)
    (hclear : sites.Pairwise Site.Clear)
    (hfree : ∀ area, (install symbols options table sites b).2.1 = some area →
      ∀ r ∈ b.memory.mappings, r.Apart area.base.toNat (Memory.roundToPages area.size))
    {site : Site} (hsite : site ∈ (install symbols options table sites b).1)
    (harmed : site.state = .armed) :
    Copied b.memory (install symbols options table sites b).2.2.memory site := by
  obtain ⟨admitted, hadmitted, hbreakpoint, haddress⟩ :=
    Site.exists_of_place (map_place_install symbols options table b sites) hsite
  obtain ⟨original, hbytes⟩ := (hfresh admitted hadmitted).there
  rcases install_opens symbols options table hm hfresh hclear hfree with
    ⟨hsame, -⟩ | ⟨base, b₁, hready, hkeeps, -, -, -, hsites, -, hend⟩
  · rw [hsame] at hsite
    cases harmed.symm.trans (hfresh site hsite).state
  · rw [hsites] at hsite
    obtain ⟨index, hindex⟩ := List.mem_iff_getElem?.mp hsite
    obtain ⟨slot, original', hslot, hbytes', hheld⟩ :=
      copied_installAt symbols options table hready hindex harmed
    -- allocating the area leaves the bytes alone
    have hkept := hkeeps _ _ (fun _ _ => trivial) (Memory.holds_of_bytesAt hbytes)
    rw [Memory.Holds, Memory.length_of_bytesAt hbytes, ← hbreakpoint, ← haddress] at hkept
    obtain rfl : original' = original := Except.ok.inj (hbytes'.symm.trans hkept)
    rw [← hbreakpoint, ← haddress] at hbytes
    rw [hend]
    exact ⟨slot, original', hslot, hbytes, hheld⟩

end Install

end BreakpointStage
end CodePatch
