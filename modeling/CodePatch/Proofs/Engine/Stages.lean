/-
# What the stages put in place

Memory is given out from below, and only allocations move the next free
address.  So what a stage puts in place lies between the next free address
before it and the one after it (`Fills`), apart from everything that was put in
place earlier, and nothing needs to be known of the memory for that.

This is said here of each stage: the caves that are placed (`fills_placed`),
the entry stubs and slots of a batch (`fills_batch`); binary hacks take nothing
(`nextAllocation_run`).
-/
import CodePatch.Proofs.Binhack.Pairs
import CodePatch.Proofs.Breakpoint.Origin
import CodePatch.Proofs.Cave.Stage
import CodePatch.Proofs.Engine.Location
import CodePatch.Proofs.Memory.Allocation

namespace CodePatch

/-- The ranges are apart from each other, and lie between two addresses. -/
structure Fills (ranges : List CodeRange) (low high : Nat) : Prop where
  apart : ranges.Pairwise CodeRange.Apart
  bounds : ∀ range ∈ ranges, low ≤ range.base.toNat ∧ range.finish ≤ high

namespace Fills

variable {ranges ranges' : List CodeRange} {low middle high : Nat}

theorem nil (low high : Nat) : Fills [] low high :=
  ⟨List.Pairwise.nil, fun _ h => absurd h List.not_mem_nil⟩

theorem grow (h : Fills ranges low middle) (hle : middle ≤ high) : Fills ranges low high :=
  ⟨h.apart, fun range hmem => ⟨(h.bounds range hmem).1, Nat.le_trans (h.bounds range hmem).2 hle⟩⟩

theorem perm (h : Fills ranges low high) (hperm : ranges.Perm ranges') :
    Fills ranges' low high :=
  ⟨(hperm.pairwise_iff fun hapart => CodeRange.Apart.symm hapart).mp h.apart,
    fun range hmem => h.bounds range (hperm.symm.subset hmem)⟩

theorem append (h : Fills ranges low middle) (h' : Fills ranges' middle high)
    (hlow : low ≤ middle) (hhigh : middle ≤ high) : Fills (ranges ++ ranges') low high := by
  refine ⟨List.pairwise_append.mpr ⟨h.apart, h'.apart, fun range hmem other hother => ?_⟩,
    fun range hmem => ?_⟩
  · exact Or.inl (Nat.le_trans (h.bounds range hmem).2 (h'.bounds other hother).1)
  · rcases List.mem_append.mp hmem with hmem | hmem
    · obtain ⟨hfrom, hto⟩ := h.bounds range hmem
      exact ⟨hfrom, Nat.le_trans hto hhigh⟩
    · obtain ⟨hfrom, hto⟩ := h'.bounds range hmem
      exact ⟨Nat.le_trans hlow hfrom, hto⟩

end Fills

/-! ## Caves -/

namespace CaveStage

theorem nextAllocation_allocateAll (b : Bench) (classes : List (AccessClass × Nat)) :
    b.memory.nextAllocation.toNat ≤ (allocateAll b classes).2.memory.nextAllocation.toNat ∧
    ∀ region ∈ (allocateAll b classes).1,
      region.base.toNat + region.size ≤ (allocateAll b classes).2.memory.nextAllocation.toNat := by
  induction classes generalizing b with
  | nil => exact ⟨Nat.le_refl _, fun _ h => absurd h List.not_mem_nil⟩
  | cons first rest ih =>
      obtain ⟨access, size⟩ := first
      have hfirst := (nextAllocation_cases b.memory size .readWrite).2
      have hstart := Memory.nextAllocation_le_allocate b.memory size .readWrite
      simp only [allocateAll]
      rcases hal : b.memory.allocate size .readWrite with ⟨e | base, memory⟩
      all_goals rw [hal] at hfirst hstart
      · obtain ⟨hle, hall⟩ := ih ((b.withMemory memory).say
          [.error s!"Could not allocate {access.name} cave memory: {e.message}"])
        exact ⟨Nat.le_trans hstart hle, hall⟩
      · obtain ⟨hle, hall⟩ := ih (b.withMemory memory)
        refine ⟨Nat.le_trans hstart hle, fun region hregion => ?_⟩
        rcases List.mem_cons.mp hregion with rfl | hregion
        · rcases hfirst with ⟨⟨e, he⟩, -⟩ | ⟨hok, -, hnext⟩
          · cases he
          · cases hok
            exact Nat.le_trans hnext hle
        · exact hall region hregion

section Finish
variable (symbols : Symbols) (options : Options) (b : Bench)

theorem nextAllocation_finish (job : CaveJob) :
    (finish symbols options b job).2.memory.nextAllocation = b.memory.nextAllocation := by
  obtain ⟨cave, progress⟩ := job
  cases progress with
  | rejected => rfl
  | empty => rfl
  | planned code slot => rfl
  | located code slot address =>
      simp only [finish]
      rcases writeCave_cases symbols options b cave code slot address with
        ⟨-, hm⟩ | ⟨rendered, said, -, hm, -⟩
      · rw [hm]
      · rw [hm]
        exact Memory.nextAllocation_patch ..

theorem nextAllocation_finishAll (jobs : List CaveJob) :
    (finishAll symbols options b jobs).2.memory.nextAllocation = b.memory.nextAllocation := by
  induction jobs generalizing b with
  | nil => rfl
  | cons job rest ih => exact (ih _).trans (nextAllocation_finish symbols options b job)

theorem nextAllocation_protectAll (regions : List CaveRegion) :
    (protectAll b regions).memory.nextAllocation = b.memory.nextAllocation := by
  induction regions generalizing b with
  | nil => rfl
  | cons region rest ih =>
      have hprotect : (protectRegion b region).memory.nextAllocation =
          b.memory.nextAllocation := by
        have h := Memory.nextAllocation_protect b.memory region.base region.access.protection
        unfold protectRegion
        rcases hp : b.memory.protect region.base region.access.protection with ⟨_ | p, m⟩
        all_goals
          rw [hp] at h
          exact h
      have hflush : (flushRegion (protectRegion b region) region).memory.nextAllocation =
          (protectRegion b region).memory.nextAllocation := by
        unfold flushRegion
        split
        · rcases hf : (protectRegion b region).memory.flush region.base with ⟨_ | u, m⟩
          all_goals
            have h := Memory.space_flush (protectRegion b region).memory region.base
            rw [hf] at h
            exact Memory.nextAllocation_of_space_eq h
        · rfl
      exact (ih _).trans (hflush.trans hprotect)

end Finish

section Placed
variable (symbols : Symbols) (options : Options) (b : Bench) (caves : List Cave)

theorem run_cases :
    ((run symbols options b caves).placed = [] ∧
      (run symbols options b caves).symbols = symbols ∧
      (run symbols options b caves).bench = b) ∨
    run symbols options b caves = passes symbols options b caves := by
  by_cases hcaves : caves = []
  · rw [hcaves]
    exact Or.inl ⟨rfl, rfl, rfl⟩
  · exact Or.inr (run_eq symbols options b caves hcaves)

theorem nextAllocation_passes :
    (passes symbols options b caves).bench.memory.nextAllocation =
      (allocation symbols options b caves).2.memory.nextAllocation :=
  (nextAllocation_protectAll _ _).trans (nextAllocation_finishAll _ _ _ _)

theorem allocation_between :
    b.memory.nextAllocation.toNat ≤
      (allocation symbols options b caves).2.memory.nextAllocation.toNat ∧
    ∀ region ∈ (allocation symbols options b caves).1,
      b.memory.nextAllocation.toNat ≤ region.base.toNat ∧ region.base.toNat + region.size ≤
        (allocation symbols options b caves).2.memory.nextAllocation.toNat := by
  have hlow : ∀ region ∈ (allocation symbols options b caves).1,
      b.memory.nextAllocation.toNat ≤ region.base.toNat ∧
        region.base.toNat + region.size < 2 ^ 32 :=
    bounds_allocateAll (b.say _) _
  have hhigh : b.memory.nextAllocation.toNat ≤
        (allocation symbols options b caves).2.memory.nextAllocation.toNat ∧
      ∀ region ∈ (allocation symbols options b caves).1, region.base.toNat + region.size ≤
        (allocation symbols options b caves).2.memory.nextAllocation.toNat :=
    nextAllocation_allocateAll (b.say _) _
  exact ⟨hhigh.1, fun region hregion => ⟨(hlow region hregion).1, hhigh.2 region hregion⟩⟩

theorem fills_placed :
    let stage := run symbols options b caves
    b.memory.nextAllocation.toNat ≤ stage.bench.memory.nextAllocation.toNat ∧
    Fills (stage.placed.map PlacedCave.range) b.memory.nextAllocation.toNat
      stage.bench.memory.nextAllocation.toNat := by
  intro stage
  rcases run_cases symbols options b caves with ⟨hplaced, -, hbench⟩ | hrun
  · simp only [stage, hplaced, hbench]
    exact ⟨Nat.le_refl _, .nil _ _⟩
  · obtain ⟨hle, hbetween⟩ := allocation_between symbols options b caves
    have hnext := nextAllocation_passes symbols options b caves
    simp only [stage, hrun, hnext]
    refine ⟨hle, List.pairwise_map.mpr (disjoint_placed symbols options b caves), ?_⟩
    intro range hrange
    obtain ⟨placed, hplaced, rfl⟩ := List.mem_map.mp hrange
    obtain ⟨job, hjob, hplace⟩ := List.mem_filterMap.mp hplaced
    obtain ⟨code, slot, address, hlocated, rfl⟩ := placedCave?_eq_some hplace
    obtain ⟨i, hi⟩ := List.mem_iff_getElem?.mp hjob
    obtain ⟨region, -, hregion, -, haddress, hslot⟩ := region_of_located hi hlocated
    obtain ⟨hfrom, hto⟩ := hbetween region hregion
    show b.memory.nextAllocation.toNat ≤ address.toNat ∧ address.toNat + slot.padded ≤ _
    omega

theorem names_placed :
    ((run symbols options b caves).placed.map (·.name)).Nodup ∧
    ∀ placed ∈ (run symbols options b caves).placed,
      symbols.bound? (Symbols.caveName placed.name) = none := by
  rcases run_cases symbols options b caves with ⟨hplaced, -, -⟩ | hrun
  · rw [hplaced]
    exact ⟨List.nodup_nil, fun _ h => absurd h List.not_mem_nil⟩
  · rw [hrun]
    refine ⟨List.pairwise_map.mpr (List.pairwise_filterMap.mpr
      (List.pairwise_iff_getElem.mpr fun i j hi hj hij => ?_)),
      fun placed hmem => free_of_located _ symbols (placedCave?_planned symbols options caves) hmem⟩
    intro first hfirst second hsecond
    obtain ⟨_, _, _, hlocated, rfl⟩ := placedCave?_eq_some hfirst
    obtain ⟨_, _, _, hlocated', rfl⟩ := placedCave?_eq_some hsecond
    -- the later cave was prepared knowing the name of the earlier one
    obtain ⟨hcave, -⟩ := located_at (List.getElem?_eq_getElem hi) hlocated
    obtain ⟨-, -, -, -, -, hprepare⟩ := located_at (List.getElem?_eq_getElem hj) hlocated'
    intro hsame
    refine (prepare_ok hprepare).1 (List.mem_reverse.mpr (List.mem_map.mpr ⟨_, ?_, hsame⟩))
    exact List.mem_of_getElem? ((List.getElem?_take_of_lt hij).trans hcave)

theorem bound?_run :
    (∀ placed ∈ (run symbols options b caves).placed,
      (run symbols options b caves).symbols.bound? (Symbols.caveName placed.name) =
        some placed.address) ∧
    ∀ name address, symbols.bound? name = some address →
      (run symbols options b caves).symbols.bound? name = some address := by
  rcases run_cases symbols options b caves with ⟨hplaced, hsymbols, -⟩ | hrun
  · rw [hplaced, hsymbols]
    exact ⟨fun _ h => absurd h List.not_mem_nil, fun _ _ h => h⟩
  · rw [hrun]
    have hplanned := placedCave?_planned symbols options caves
    exact ⟨fun placed hmem => bound?_of_located _ symbols hplanned hmem,
      fun name address h => Symbols.bound?_of_append (bindings_publishAll _ symbols hplanned) h⟩

end Placed

end CaveStage

/-! ## Binary hacks -/

namespace BinhackStage

theorem nextAllocation_triedAll (scope : Scope) (m : Memory) (pairs : List BinhackPair) :
    (triedAll scope m pairs).2.nextAllocation = m.nextAllocation := by
  induction pairs generalizing m with
  | nil => rfl
  | cons pair rest ih =>
      refine (ih _).trans ?_
      cases pair.patch? scope with
      | none => rfl
      | some patch => exact Memory.nextAllocation_patch ..

/-- Binary hacks take no memory. -/
theorem nextAllocation_run (symbols : Symbols) (options : Options) (b : Bench)
    (hacks : List Binhack) :
    (run symbols options b hacks).2.memory.nextAllocation = b.memory.nextAllocation := by
  rw [(run_eq symbols options b hacks).2.1]
  exact nextAllocation_triedAll ..

end BinhackStage

/-! ## Breakpoints -/

open MachineCode (stubLength)
open BreakpointStage (areaSize slotAddress)

namespace Batch

variable {batch : Batch}
  (hfits : batch.area.base.toNat + areaSize batch.area.stubs batch.sites.length ≤ 2 ^ 32)
  (hslots : ∀ (i : Nat) (site : BreakpointSite), batch.sites[i]? = some site →
    ∀ slot, site.slot = some slot → slot = slotAddress batch.area.base batch.area.stubs i)
include hfits hslots

theorem slot_at {i : Nat} (hi : i < batch.sites.length) {range : CodeRange}
    (h : (batch.sites[i]).range? = some range) :
    range.base.toNat = batch.area.base.toNat + 32 * (batch.area.stubs + i) ∧
      range.size = slotLength := by
  obtain ⟨slot, hslot, rfl⟩ := Option.map_eq_some_iff.mp h
  obtain rfl := hslots i _ (List.getElem?_eq_getElem hi) slot hslot
  exact ⟨BreakpointStage.toNat_slotAddress hfits hi, rfl⟩

theorem fills_ranges : Fills batch.ranges batch.area.base.toNat
    (batch.area.base.toNat + areaSize batch.area.stubs batch.sites.length) := by
  have hstubs : batch.stubRange.finish = batch.area.base.toNat + 32 * batch.area.stubs := by
    rw [CodeRange.finish, stubRange, stubLength, Nat.mul_comm]
  have hslot : ∀ range ∈ batch.sites.filterMap BreakpointSite.range?,
      ∃ i, i < batch.sites.length ∧
        range.base.toNat = batch.area.base.toNat + 32 * (batch.area.stubs + i) ∧
        range.size = slotLength := by
    intro range hrange
    obtain ⟨site, hsite, h⟩ := List.mem_filterMap.mp hrange
    obtain ⟨i, hi, rfl⟩ := List.mem_iff_getElem.mp hsite
    exact ⟨i, hi, slot_at hfits hslots hi h⟩
  simp only [areaSize, stubLength, slotLength] at hslot ⊢
  refine ⟨List.pairwise_cons.mpr ⟨fun range hrange => ?_, ?_⟩, fun range hrange => ?_⟩
  · obtain ⟨i, hi, hbase, -⟩ := hslot range hrange
    exact Or.inl (by omega)
  · refine List.pairwise_filterMap.mpr (List.pairwise_iff_getElem.mpr fun i j hi hj hij => ?_)
    intro range hrange other hother
    obtain ⟨hbase, hsize⟩ := slot_at hfits hslots hi hrange
    obtain ⟨hbase', -⟩ := slot_at hfits hslots hj hother
    unfold CodeRange.Apart CodeRange.finish
    rw [slotLength] at hsize
    omega
  · rcases List.mem_cons.mp hrange with rfl | hrange
    · refine ⟨Nat.le_refl _, ?_⟩
      omega
    · obtain ⟨i, hi, hbase, hsize⟩ := hslot range hrange
      unfold CodeRange.finish
      omega

end Batch

namespace BreakpointStage

section Connect
variable (table : BreakpointTable) (b : Bench)

theorem nextAllocation_connectAll (sites : List Site) :
    (connectAll table b sites).2.2.memory.nextAllocation = b.memory.nextAllocation := by
  induction sites generalizing table b with
  | nil => rfl
  | cons site rest ih =>
      have hfirst : (connect table b site).2.2.memory.nextAllocation =
          b.memory.nextAllocation := by
        rcases (connect_cases table b site).1 with h | ⟨-, expected, h⟩
        · rw [h]
        · rw [h]
          exact Memory.nextAllocation_patch ..
      exact (ih _ _).trans hfirst

theorem nextAllocation_writeArea (base : UInt32) (image : List UInt8) :
    (writeArea b base image).2.memory.nextAllocation = b.memory.nextAllocation := by
  have hpatch := Memory.nextAllocation_patch b.memory base none image
  rcases writeArea_cases b base image with ⟨-, hm⟩ | ⟨hspace, -⟩
  · rw [hm, hpatch]
  · rw [Memory.nextAllocation_of_space_eq hspace, Memory.nextAllocation_protect, hpatch]

end Connect

section Install
variable (symbols : Symbols) (options : Options) (table : UInt32) {b : Bench} {sites : List Site}
  {m : Memory} (hfresh : ∀ site ∈ sites, site.Fresh m)
include hfresh

theorem nextAllocation_installAt (base : UInt32) :
    (installAt symbols options table base sites b).2.2.memory.nextAllocation =
      b.memory.nextAllocation := by
  obtain ⟨-, -, hspace, -⟩ := relocateAll_at base (stackClears sites) (b := b) rfl 0
    fun site hsite => (hfresh site hsite).greatest
  obtain ⟨t, -, -, -, hend⟩ := installAt_cases symbols options table base b sites
  have hcopied := Memory.nextAllocation_of_space_eq hspace
  rcases hend with ⟨-, hmemory⟩ | ⟨-, -, hmemory⟩
  · rw [hmemory, nextAllocation_writeArea, hcopied]
  · rw [hmemory, nextAllocation_connectAll, nextAllocation_writeArea, hcopied]

theorem slot_installAt (base : UInt32) (i : Nat) (site : Site)
    (hsite : (installAt symbols options table base sites b).1[i]? = some site) {slot : UInt32}
    (hslot : site.slot = some slot) : slot = slotAddress base (stackClears sites).length i := by
  obtain ⟨-, -, -, hat⟩ := relocateAll_at base (stackClears sites) (b := b) rfl 0
    fun site hsite => (hfresh site hsite).greatest
  obtain ⟨t, -, -, hplace, hend⟩ := installAt_cases symbols options table base b sites
  have hi : i < sites.length :=
    Site.length_of_place hplace ▸ (List.getElem?_eq_some_iff.mp hsite).1
  obtain ⟨site', _, _, _, hsite', -, -, hrelocated⟩ := hat i _ (List.getElem?_eq_getElem hi)
  -- what is done to a site once its bytes are copied leaves its slot alone
  have hsame : site'.slot = site.slot := by
    rcases hend with ⟨hsites, -⟩ | ⟨-, hsites, -⟩
    · rw [hsites, hsite'] at hsite
      rw [Option.some.inj hsite]
    · obtain ⟨state, hconnected, -⟩ := connectAll_state _ _ hsite'
      rw [hsites, hconnected] at hsite
      rw [← Option.some.inj hsite]
  rcases hrelocated.outcome with ⟨-, hnone⟩ | ⟨_, -, hsome, -⟩
  · rw [hsame, hslot, (hfresh _ (List.getElem_mem hi)).slot] at hnone
    cases hnone
  · rw [Nat.zero_add, hsame, hslot] at hsome
    exact Option.some.inj hsome

theorem fills_install :
    let installed := install symbols options table sites b
    b.memory.nextAllocation.toNat ≤ installed.2.2.memory.nextAllocation.toNat ∧
    ∀ area, installed.2.1 = some area → Fills (Batch.ranges ⟨installed.1.map Site.summary, area⟩)
      b.memory.nextAllocation.toNat installed.2.2.memory.nextAllocation.toNat := by
  intro installed
  rcases install_cases symbols options table b sites with
    ⟨-, hnone, hspace⟩ | ⟨base, b₁, hok, hb₁, hsites, harea, hend⟩
  · refine ⟨Nat.le_of_eq (congrArg UInt32.toNat (Memory.nextAllocation_of_space_eq hspace)).symm,
      fun area h => ?_⟩
    rw [show installed.2.1 = none from hnone] at h
    cases h
  · obtain ⟨t, -, hshape, hplace, -⟩ := installAt_cases symbols options table base b₁ sites
    have hnext := nextAllocation_installAt symbols options table hfresh base (b := b₁)
    have hslots := slot_installAt symbols options table hfresh base (b := b₁)
    have hlength := Site.length_of_place hplace
    have hcount := Site.length_of_place
      (map_place_relocateAll base (stackClears sites) b₁ 0 sites)
    obtain ⟨-, ⟨⟨e, he⟩, -⟩ | ⟨hbase, hfits, htop⟩⟩ :=
      CaveStage.nextAllocation_cases b.memory _ .readWrite
    · rw [hok] at he
      cases he
    obtain rfl : base = b.memory.nextAllocation := Except.ok.inj (hok.symm.trans hbase)
    rw [← hb₁] at htop
    simp only [installed, hend, hnext]
    refine ⟨Nat.le_trans (Nat.le_add_right ..) htop, fun area h => ?_⟩
    obtain rfl := Option.some.inj (harea.symm.trans h)
    rw [hsites, hshape, hcount]
    refine (Batch.fills_ranges ?_ ?_).grow ?_
    · rw [List.length_map, hlength]
      exact Nat.le_of_lt hfits
    · intro i site hsite slot hslot
      rw [List.getElem?_map] at hsite
      obtain ⟨site', hsite', rfl⟩ := Option.map_eq_some_iff.mp hsite
      exact hslots i site' hsite' hslot
    · rw [List.length_map, hlength]
      exact htop

end Install

section Run
variable {σ : Type} (symbols : Symbols) (options : Options) (table : UInt32) (resolve : Resolver σ)
  (resolver : σ) (b : Bench) (breakpoints : List Breakpoint)

theorem run_ends :
    let outcome := run symbols options table resolve resolver b breakpoints
    let admitted := admission symbols options resolve resolver b breakpoints
    let installed := install symbols options table admitted.2.sites admitted.2.bench
    (outcome.2.2.memory.space = b.memory.space ∧
      (∀ stage, outcome.1 = .ok stage → stage.area = none) ∧
      (admitted.1 = none → installed.2.1 = none)) ∨
    (admitted.1 = none ∧ outcome.2.2 = installed.2.2 ∧ ∃ stage, outcome.1 = .ok stage ∧
      stage.sites = installed.1.map Site.summary ∧ stage.area = installed.2.1) := by
  intro outcome admitted installed
  have hspace := (sound_admission symbols options resolve resolver b breakpoints).space
  by_cases hzero : Breakpoint.sites breakpoints = 0
  · have hrun : outcome = _ := run_of_no_sites symbols options table resolve resolver b hzero
    have hsites : admitted.2.sites = [] := sites_admitAll_of_sites_eq_zero _ _ _ _ hzero
    rw [hrun]
    refine Or.inl ⟨rfl, fun stage h => ?_, fun _ => ?_⟩
    · rw [← Except.ok.inj h]
    · simp only [installed, hsites]
      rfl
  · simp only [outcome, installed, admitted]
    rcases hadmission : admission symbols options resolve resolver b breakpoints with ⟨_ | name, a⟩
    · rw [run_of_admitted table hzero hadmission]
      exact Or.inr ⟨rfl, rfl, _, rfl, rfl, rfl⟩
    · rw [run_of_refused table hzero hadmission]
      rw [hadmission] at hspace
      exact Or.inl ⟨hspace, nofun, nofun⟩

/-- What a stage installs lies between what is free before and what is free afterwards. -/
theorem fills_batch :
    let outcome := run symbols options table resolve resolver b breakpoints
    b.memory.nextAllocation.toNat ≤ outcome.2.2.memory.nextAllocation.toNat ∧
    ∀ stage area, outcome.1 = .ok stage → stage.area = some area →
      Fills (Batch.ranges ⟨stage.sites, area⟩) b.memory.nextAllocation.toNat
        outcome.2.2.memory.nextAllocation.toNat := by
  intro outcome
  have hsound := sound_admission symbols options resolve resolver b breakpoints
  have hnext := Memory.nextAllocation_of_space_eq hsound.space
  obtain ⟨hle, hfills⟩ := fills_install symbols options table hsound.fresh
    (b := (admission symbols options resolve resolver b breakpoints).2.bench)
  rw [hnext] at hle hfills
  rcases run_ends symbols options table resolve resolver b breakpoints with
    ⟨hspace, hnone, -⟩ | ⟨-, hend, stage, hstage, hsites, harea⟩
  · refine ⟨Nat.le_of_eq (congrArg UInt32.toNat (Memory.nextAllocation_of_space_eq hspace)).symm,
      fun stage area h harea => ?_⟩
    rw [hnone stage h] at harea
    cases harea
  · simp only [outcome, hend]
    refine ⟨hle, fun stage' area h h' => ?_⟩
    obtain rfl : stage = stage' := Except.ok.inj (hstage.symm.trans h)
    rw [hsites]
    exact hfills area (harea.symm.trans h')

end Run

end BreakpointStage
end CodePatch
