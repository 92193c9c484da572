/-
# What the table and the report say of the states of sites

The state of a site, its slot, its entry in the table and the count of the report are
set at different places of the stage, and the stage can end early behind each of them.
`states_table_and_report_agree` says that they agree wherever it ends.  No site ends with
its redirect written and not armed as far as the stage knows: the site is in the table by
then, so arming it finds it.

Nothing is asked of the memory.  What the table needs is that sites are at addresses that
differ, and that is what their admission sees to.

`Site.Settled` is what holds of one site alone, and `Site.Recorded` what holds of it and
the table.  Connecting a site establishes the second for that site and leaves it alone for
the others, so it holds of all of them at the end.
-/
import CodePatch.Proofs.Breakpoint.Report

namespace CodePatch

/-- The site has a slot if its bytes are copied, and no redirect that is not armed. -/
structure Site.Settled (site : Site) : Prop where
  state : site.state = .caveReserved ∨ site.state = .relocated ∨ site.state = .armed
  slot : site.slot.isSome = true ↔ site.state = .relocated ∨ site.state = .armed

/-- The table has the slot of the site, and knows whether it is armed. -/
structure Site.Recorded (table : BreakpointTable) (site : Site) : Prop extends site.Settled where
  entry : table.slot? site.address = site.slot
  armed : table.isArmed site.address = true ↔ site.state = .armed

namespace BreakpointTable

@[simp] theorem size_arm (t : BreakpointTable) (address : UInt32) :
    (t.arm address).2.size = t.size :=
  List.length_map _

theorem isArmed_arm_of_ne (t : BreakpointTable) {address other : UInt32} (h : other ≠ address) :
    (t.arm address).2.isArmed other = t.isArmed other := by
  rw [isArmed, entryAt?_arm, isArmed]
  cases hentry : t.entryAt? other with
  | none => rfl
  | some entry =>
      have haddress : entry.address ≠ address := (mem_of_entryAt? hentry).2 ▸ h
      rw [Option.map_some, armedAt, if_neg haddress]

theorem isArmed_arm_self (t : BreakpointTable) {address : UInt32}
    (h : (t.slot? address).isSome = true) : (t.arm address).2.isArmed address = true := by
  rw [slot?, Option.isSome_map] at h
  obtain ⟨entry, hentry⟩ := Option.isSome_iff_exists.mp h
  rw [isArmed, entryAt?_arm, hentry, Option.map_some, armedAt, if_pos (mem_of_entryAt? hentry).2]
  rfl

theorem isSome_slot?_of_isArmed {t : BreakpointTable} {address : UInt32}
    (h : t.isArmed address = true) : (t.slot? address).isSome = true := by
  cases hentry : t.entryAt? address with
  | none =>
      rw [isArmed, hentry] at h
      cases h
  | some entry =>
      rw [slot?, hentry]
      rfl

end BreakpointTable

namespace BreakpointStage

/-! ## Connecting -/

section Connect
variable (table : BreakpointTable) (b : Bench) {site : Site}

theorem connect_arms (site : Site) :
    ((connect table b site).1 = site ∧ (connect table b site).2.1 = table) ∨
    (site.state = .relocated ∧ (connect table b site).1 = (armSite table site).1 ∧
      (connect table b site).2.1 = (table.arm site.address).2) := by
  simp only [connect]
  split
  · rename_i hstate
    rcases writeRedirect table.symbols table.options b site with ⟨_ | u, b₁⟩
    · exact Or.inl ⟨rfl, rfl⟩
    · exact Or.inr ⟨hstate, rfl, rfl⟩
  · exact Or.inl ⟨rfl, rfl⟩

theorem recorded_connect (h : site.Recorded table) :
    (connect table b site).1.Recorded (connect table b site).2.1 := by
  rcases connect_arms table b site with ⟨hsite, htable⟩ | ⟨hstate, hsite, htable⟩
  · rwa [hsite, htable]
  · -- the bytes of the site are copied, so the table has an entry to arm
    have hslot : site.slot.isSome = true := h.slot.mpr (Or.inl hstate)
    have hentry : (table.slot? site.address).isSome = true := h.entry.symm ▸ hslot
    have hfound : (table.arm site.address).1 = true := by
      rwa [BreakpointTable.slot?, Option.isSome_map] at hentry
    have harmed : (armSite table site).1 = { site with state := .armed } := by
      simp only [armSite, hfound, if_true]
    rw [hsite, htable, harmed]
    exact {
      state := Or.inr (Or.inr rfl)
      slot := ⟨fun _ => Or.inr rfl, fun _ => hslot⟩
      entry := (slot?_arm table site.address site.address).trans h.entry
      armed := ⟨fun _ => rfl, fun _ => table.isArmed_arm_self hentry⟩ }

theorem recorded_connect_of_ne (site : Site) {other : Site} (hne : other.address ≠ site.address)
    (h : other.Recorded table) : other.Recorded (connect table b site).2.1 := by
  rcases connect_arms table b site with ⟨-, htable⟩ | ⟨-, -, htable⟩
  · rwa [htable]
  · rw [htable]
    refine { h with entry := ?_, armed := ?_ }
    · exact (slot?_arm table site.address other.address).trans h.entry
    · rw [table.isArmed_arm_of_ne hne]
      exact h.armed

theorem recorded_connectAll_of_ne (sites : List Site) {other : Site}
    (hne : ∀ site ∈ sites, other.address ≠ site.address) (h : other.Recorded table) :
    other.Recorded (connectAll table b sites).2.1 := by
  induction sites generalizing table b with
  | nil => exact h
  | cons first rest ih =>
      have hfirst := recorded_connect_of_ne table b first (hne first List.mem_cons_self) h
      exact ih _ _ (fun site hsite => hne site (List.mem_cons_of_mem _ hsite)) hfirst

/-- Sites at addresses that differ are recorded once all of them are connected. -/
theorem recorded_connectAll {sites : List Site} (hsites : sites.Pairwise (·.address ≠ ·.address))
    (h : ∀ site ∈ sites, site.Recorded table) :
    ∀ site ∈ (connectAll table b sites).1, site.Recorded (connectAll table b sites).2.1 := by
  induction sites generalizing table b with
  | nil => exact fun _ hsite => absurd hsite List.not_mem_nil
  | cons first rest ih =>
      obtain ⟨hfirst, hrest⟩ := List.pairwise_cons.mp hsites
      have hplace := (connect_cases table b first).2.1
      have hothers : ∀ site ∈ rest, site.Recorded (connect table b first).2.1 := by
        intro site hsite
        exact recorded_connect_of_ne table b first (hfirst site hsite).symm
          (h site (List.mem_cons_of_mem _ hsite))
      have haddress : (connect table b first).1.address = first.address := congrArg Prod.snd hplace
      have hconnected : ∀ other ∈ rest, (connect table b first).1.address ≠ other.address :=
        haddress ▸ hfirst
      refine List.forall_mem_cons.mpr ⟨?_, ih _ _ hrest hothers⟩
      exact recorded_connectAll_of_ne _ _ rest hconnected
        (recorded_connect table b (h first List.mem_cons_self))

theorem size_connectAll (sites : List Site) : (connectAll table b sites).2.1.size = table.size := by
  induction sites generalizing table b with
  | nil => rfl
  | cons first rest ih =>
      have hfirst : (connect table b first).2.1.size = table.size := by
        rcases connect_arms table b first with ⟨-, htable⟩ | ⟨-, -, htable⟩
        · rw [htable]
        · rw [htable, BreakpointTable.size_arm]
      exact (ih _ _).trans hfirst

theorem map_slot_connectAll (sites : List Site) :
    (connectAll table b sites).1.map Site.slot = sites.map Site.slot := by
  induction sites generalizing table b with
  | nil => rfl
  | cons first rest ih =>
      have hfirst : (connect table b first).1.slot = first.slot := by
        rcases connect_arms table b first with ⟨hsite, -⟩ | ⟨-, hsite, -⟩ <;> rw [hsite]
        rfl
      simp only [connectAll, List.map_cons, hfirst, ih]

end Connect

/-! ## The stage -/

/-- What the states of sites, the table and the area of a batch agree on. -/
structure Agree (area : BreakpointArea) (sites : List Site) : Prop where
  size : area.table.size = sites.countP (·.slot.isSome)
  recorded : ∀ site ∈ sites, site.Recorded area.table
  /-- There is nothing in the table but sites. -/
  known : ∀ address, (area.table.slot? address).isSome = true →
    ∃ site ∈ sites, site.address = address

section Install
variable (symbols : Symbols) (options : Options) (table base : UInt32) {b : Bench}
  {sites : List Site}

theorem recorded_tableOf (hsites : sites.Pairwise (·.address ≠ ·.address))
    (hstate : ∀ site ∈ sites, site.state = .caveReserved ∧ site.slot = none ∨
      site.state = .relocated ∧ site.slot.isSome = true) :
    ∀ site ∈ sites, site.Recorded (tableOf symbols options sites) := by
  intro site hsite
  have hentry := slot?_tableOf symbols options hsites hsite
  have hunarmed : (tableOf symbols options sites).isArmed site.address = false := by
    rw [BreakpointTable.isArmed, entryAt?_tableOf symbols options hsites hsite]
    cases hsome : entryOf? site with
    | none => rfl
    | some entry => exact (entryOf?_eq_some hsome).2.2
  rcases hstate site hsite with ⟨hreserved, hnone⟩ | ⟨hrelocated, hsome⟩
  · exact {
      state := Or.inl hreserved
      slot := by simp [hnone, hreserved]
      entry := hentry
      armed := by simp [hunarmed, hreserved] }
  · exact {
      state := Or.inr (Or.inl hrelocated)
      slot := by simp [hsome, hrelocated]
      entry := hentry
      armed := by simp [hunarmed, hrelocated] }

theorem size_tableOf (sites : List Site) :
    (tableOf symbols options sites).size = sites.countP (·.slot.isSome) := by
  have hlength := (TableEntry.perm_sort (sites.filterMap entryOf?)).length_eq
  rw [List.length_filterMap_eq_countP] at hlength
  refine hlength.trans (List.countP_congr fun site _ => ?_)
  rw [entryOf?, Option.isSome_map]

theorem exists_of_isSome_slot? (sites : List Site) {address : UInt32}
    (h : ((tableOf symbols options sites).slot? address).isSome = true) :
    ∃ site ∈ sites, site.address = address := by
  by_contra hnone
  push Not at hnone
  rw [BreakpointTable.slot?,
    entryAt?_tableOf_eq_none symbols options fun site hsite _ => hnone site hsite] at h
  cases h

theorem installAt_connects (sites : List Site) :
    let copied := (relocateAll base (stackClears sites) b 0 sites).1
    let entries := tableOf symbols options copied
    let installed := installAt symbols options table base sites b
    (installed.1 = copied ∧ installed.2.1.table = entries) ∨
      ∃ b₁, installed.1 = (connectAll entries b₁ copied).1 ∧
        installed.2.1.table = (connectAll entries b₁ copied).2.1 := by
  intro copied entries installed
  simp only [installed, entries, copied, installAt]
  generalize relocateAll base (stackClears sites) b 0 sites = relocated
  obtain ⟨sites', slots, b'⟩ := relocated
  dsimp only
  rcases writeArea b' base
    (stubBytes table b'.memory.dispatcher base (stackClears sites) ++ slots) with ⟨_ | u, b₁⟩
  · exact Or.inl ⟨rfl, rfl⟩
  · exact Or.inr ⟨b₁, rfl, rfl⟩

theorem agree_installAt (hsites : sites.Pairwise (·.address ≠ ·.address))
    (hfresh : ∀ site ∈ sites, site.state = .caveReserved ∧ site.slot = none) :
    Agree (installAt symbols options table base sites b).2.1
      (installAt symbols options table base sites b).1 := by
  have hplace := map_place_relocateAll base (stackClears sites) b 0 sites
  have hstate := relocateAll_state base (stackClears sites) b 0 hfresh
  have hconnects := installAt_connects symbols options table base (b := b) sites
  generalize (relocateAll base (stackClears sites) b 0 sites).1 = copied at *
  have hcopied := Site.pairwise_address_of_place hplace hsites
  have hrecorded := recorded_tableOf symbols options hcopied hstate
  have hsize := size_tableOf symbols options copied
  have hknown : ∀ address, ((tableOf symbols options copied).slot? address).isSome = true →
      ∃ site ∈ copied, site.address = address :=
    fun address => exists_of_isSome_slot? symbols options copied
  rcases hconnects with ⟨hend, htable⟩ | ⟨b₁, hend, htable⟩
  · rw [hend]
    exact ⟨htable ▸ hsize, htable ▸ hrecorded, htable ▸ hknown⟩
  · rw [hend]
    refine ⟨?_, ?_, fun address hsome => ?_⟩
    · have hslots := congrArg (List.countP Option.isSome)
        (map_slot_connectAll (tableOf symbols options copied) b₁ copied)
      rw [List.countP_map, List.countP_map] at hslots
      rw [htable, size_connectAll, hsize]
      exact hslots.symm
    · rw [htable]
      exact recorded_connectAll _ b₁ hcopied hrecorded
    · rw [htable, slot?_connectAll] at hsome
      obtain ⟨site, hsite, rfl⟩ := hknown address hsome
      obtain ⟨site', hsite', -, haddress⟩ := Site.exists_of_place
        (map_place_connectAll (tableOf symbols options copied) b₁ copied).symm hsite
      exact ⟨site', hsite', haddress.symm⟩

/-- Wherever installing ends, each site is settled, and the table agrees with them if there
is one. -/
theorem agree_install (hsites : sites.Pairwise (·.address ≠ ·.address))
    (hfresh : ∀ site ∈ sites, site.state = .caveReserved ∧ site.slot = none) :
    (∀ site ∈ (install symbols options table sites b).1, site.Settled) ∧
    ∀ area, (install symbols options table sites b).2.1 = some area →
      Agree area (install symbols options table sites b).1 := by
  rcases install_cases symbols options table b sites with
    ⟨hsame, hnone, -⟩ | ⟨base, b₁, -, -, hend, harea, -⟩
  · rw [hsame, hnone]
    refine ⟨fun site hsite => ?_, fun area h => nomatch h⟩
    obtain ⟨hstate, hslot⟩ := hfresh site hsite
    exact ⟨Or.inl hstate, by simp [hstate, hslot]⟩
  · rw [hend, harea]
    have hagree := agree_installAt symbols options table base (b := b₁) hsites hfresh
    refine ⟨fun site hsite => (hagree.recorded site hsite).toSettled, ?_⟩
    rintro area ⟨⟩
    exact hagree

end Install

/-- Where the stage does not give up, the states of its sites, their slots, the table and the
report say the same. -/
theorem states_table_and_report_agree {σ : Type} {symbols : Symbols} {options : Options}
    {table : UInt32} {resolve : Resolver σ} {resolver : σ} {b : Bench}
    {breakpoints : List Breakpoint} {stage : BreakpointStage}
    (hrun : (run symbols options table resolve resolver b breakpoints).1 = .ok stage) :
    (∀ site ∈ stage.sites,
      (site.state = .caveReserved ∨ site.state = .relocated ∨ site.state = .armed) ∧
      (site.slot.isSome = true ↔ site.state = .relocated ∨ site.state = .armed)) ∧
    (∀ area, stage.area = some area →
      area.table.size = stage.sites.countP (·.slot.isSome) ∧
      (∀ site ∈ stage.sites, area.table.slot? site.address = site.slot) ∧
      ∀ address, area.table.isArmed address = true ↔
        ∃ site ∈ stage.sites, site.address = address ∧ site.state = .armed) ∧
    stage.report.applied = stage.sites.countP (·.state = .armed) := by
  by_cases hzero : Breakpoint.sites breakpoints = 0
  · rw [run_of_no_sites symbols options table resolve resolver b hzero] at hrun
    obtain rfl := Except.ok.inj hrun
    exact ⟨fun _ h => absurd h List.not_mem_nil, (fun _ h => nomatch h), rfl⟩
  have hsound := sound_admission symbols options resolve resolver b breakpoints
  rcases hadmission : admission symbols options resolve resolver b breakpoints with ⟨_ | name, a⟩
  case some => rw [run_of_refused table hzero hadmission] at hrun; cases hrun
  rw [hadmission] at hsound
  rw [run_of_admitted table hzero hadmission] at hrun
  obtain rfl := Except.ok.inj hrun
  have hsites := pairwise_address_ne hsound.clear fun site hsite =>
    Nat.lt_of_lt_of_le (by decide) (hsound.fresh site hsite).least
  obtain ⟨hsettled, hagree⟩ := agree_install symbols options table (b := a.bench) hsites
    fun site hsite => ⟨(hsound.fresh site hsite).state, (hsound.fresh site hsite).slot⟩
  generalize install symbols options table a.sites a.bench = installed at *
  have hcount : ∀ p : BreakpointSite → Bool,
      installed.1.countP (fun site => p site.summary) =
        (installed.1.map Site.summary).countP p := fun p => List.countP_map.symm
  refine ⟨?_, fun area harea => ?_, hcount (·.state = .armed)⟩
  · exact List.forall_mem_map.mpr fun site hsite => ⟨(hsettled site hsite).state,
      (hsettled site hsite).slot⟩
  obtain ⟨hsize, hrecorded, hknown⟩ := hagree area harea
  refine ⟨hsize.trans (hcount (·.slot.isSome)), ?_, fun address => ⟨fun harmed => ?_, ?_⟩⟩
  · exact List.forall_mem_map.mpr fun site hsite => (hrecorded site hsite).entry
  · obtain ⟨site, hsite, rfl⟩ :=
      hknown address (BreakpointTable.isSome_slot?_of_isArmed harmed)
    exact ⟨site.summary, List.mem_map_of_mem hsite, rfl, (hrecorded site hsite).armed.mp harmed⟩
  · rintro ⟨reported, hreported, rfl, harmed⟩
    obtain ⟨site, hsite, rfl⟩ := List.mem_map.mp hreported
    exact (hrecorded site hsite).armed.mpr harmed

/-! ### Three sites that come to different ends

The bytes of the first one cannot be read, and the redirect of the second one cannot be
flushed.  Their addresses decrease. -/

def mixedBench : Bench where
  memory := {
    mappings := [.ofBytes 0x401000 (List.replicate 15 0x90) .executeRead]
    faults := { read := [0], flush := [1] } }

def mixedBreakpoint : Breakpoint where
  name := "step"
  addresses := [.absolute 0x40100A, .absolute 0x401005, .absolute 0x401000]
  caveSize := 5
  config := .null

/-- What is admitted, and what it is installed to. -/
def mixedAdmission : Admission Unit :=
  (admission {} {} goOn () mixedBench [mixedBreakpoint]).2

def mixedInstall : List Site × Option BreakpointArea × Bench :=
  install {} {} 7 mixedAdmission.sites mixedAdmission.bench

theorem mixed_states_agree : ∃ stage area,
    (run {} {} 7 goOn () mixedBench [mixedBreakpoint]).1 = .ok stage ∧ stage.area = some area ∧
    stage.sites.map (·.state) = [.caveReserved, .relocated, .armed] ∧
    area.table.size = 2 ∧ area.table.slot? 0x401005 = some 0x10000040 ∧
    area.table.isArmed 0x401000 = true ∧ stage.report.applied = 1 := by
  have hadmission : admission {} {} goOn () mixedBench [mixedBreakpoint] =
      (none, mixedAdmission) := Prod.ext rfl rfl
  have hrun := congrArg Prod.fst (run_of_admitted 7 (by decide) hadmission)
  rw [← mixedInstall] at hrun
  obtain ⟨area, harea⟩ := Option.isSome_iff_exists.mp
    (show mixedInstall.2.1.isSome = true by decide +kernel)
  have hends : (mixedInstall.1.map Site.summary).map (fun site =>
      (site.address, site.state, site.slot)) =
      [(0x40100A, .caveReserved, none), (0x401005, .relocated, some 0x10000040),
        (0x401000, .armed, some 0x10000060)] := by decide +kernel
  obtain ⟨-, htable, happlied⟩ := states_table_and_report_agree hrun
  dsimp only at htable happlied
  obtain ⟨hsize, hslots, harmed⟩ := htable area harea
  generalize mixedInstall.1.map Site.summary = sites at *
  obtain ⟨first, _, rfl, hfirst, hends⟩ := List.map_eq_cons_iff.mp hends
  obtain ⟨second, _, rfl, hsecond, hends⟩ := List.map_eq_cons_iff.mp hends
  obtain ⟨third, _, rfl, hthird, hends⟩ := List.map_eq_cons_iff.mp hends
  obtain rfl := List.map_eq_nil_iff.mp hends
  simp only [Prod.mk.injEq] at hfirst hsecond hthird
  obtain ⟨-, hstate₁, hslot₁⟩ := hfirst
  obtain ⟨haddress₂, hstate₂, hslot₂⟩ := hsecond
  obtain ⟨haddress₃, hstate₃, hslot₃⟩ := hthird
  have hsecond := hslots second (List.mem_cons_of_mem _ List.mem_cons_self)
  refine ⟨_, area, hrun, ?_⟩
  dsimp only
  refine ⟨harea, ?_, hsize.trans ?_, ?_, ?_, happlied.trans ?_⟩
  · simp only [List.map_cons, List.map_nil, hstate₁, hstate₂, hstate₃]
  · simp [hslot₁, hslot₂, hslot₃]
  · rw [← haddress₂, hsecond, hslot₂]
  · exact (harmed _).mpr ⟨third, List.mem_cons_of_mem _ (List.mem_cons_of_mem _ List.mem_cons_self),
      haddress₃, hstate₃⟩
  · simp [hstate₁, hstate₂, hstate₃]

end BreakpointStage
end CodePatch
