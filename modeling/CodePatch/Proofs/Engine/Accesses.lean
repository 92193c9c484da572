/-
# Runs as accesses to memory

Whatever a configuration asks for, the stages do nothing to memory but access it: they read,
query, protect, write, allocate and flush, in an order of their own (`Used`).  What holds of a
memory however it is used therefore holds all through a run and after it.

A patch is such a sequence of accesses, and so is each step of a stage; the theorems about lists
put the steps one behind the other, up to the run of a whole configuration (`used_apply`).  The
list of accesses is not given, since it depends on what they find.
-/
import CodePatch.Proofs.Breakpoint.Resolve
import CodePatch.Proofs.Engine.History
import CodePatch.Proofs.Memory.Operations

namespace CodePatch

/-! ## Sequences of accesses -/

/-- The second memory came of the first by being used. -/
def Memory.Used (m m' : Memory) : Prop :=
  ∃ list, m' = m.operations list

namespace Memory

theorem Used.refl (m : Memory) : m.Used m :=
  ⟨[], rfl⟩

theorem Used.trans {m m' m'' : Memory} (h : m.Used m') (h' : m'.Used m'') : m.Used m'' := by
  obtain ⟨first, rfl⟩ := h
  obtain ⟨second, rfl⟩ := h'
  exact ⟨first ++ second, List.foldl_append.symm⟩

theorem used_operate (m : Memory) (operation : Operation) : m.Used (m.operate operation) :=
  ⟨[operation], rfl⟩

theorem Queried.used {m m' : Memory} (h : m.Queried m') : m.Used m' := by
  obtain ⟨count, rfl⟩ := h
  induction count with
  | zero =>
      rw [spend_zero]
      exact .refl m
  | succ count ih =>
      rw [← spend_spend m .query count 1]
      exact ih.trans (used_operate _ (.query 0))

section Patch
variable (m : Memory) (address : UInt32) (expected : Option (List UInt8)) (new : List UInt8)

theorem used_compareAndWrite : m.Used (m.compareAndWrite address expected new).2 := by
  cases expected with
  | none => exact m.used_operate (.write address new)
  | some old =>
      have hread := m.used_operate (.read address old.length)
      simp only [compareAndWrite]
      split
      · exact hread
      · split
        · exact hread.trans (used_operate _ (.write address new))
        · exact hread

theorem used_patchWritable (old : Protection) :
    m.Used (m.patchWritable address expected new old).memory := by
  have hrestored := (used_compareAndWrite m address expected new).trans
    (used_operate _ (.protect address old))
  simp only [patchWritable]
  split
  · exact hrestored
  · split
    · exact hrestored.trans (used_operate _ (.flush address))
    · exact hrestored

theorem used_patch : m.Used (m.patch address expected new).memory := by
  have hquery := m.used_operate (.query address)
  unfold patch
  rcases hq : m.query address with ⟨e | region, m₁⟩
  all_goals
    rw [operate, hq] at hquery
    dsimp only
  · exact hquery
  · rcases region.covers address (patchLength expected new) with kind | _ | _
    · exact hquery
    · exact hquery
    · have hprotect := m₁.used_operate (.protect address region.protection.whilePatching)
      dsimp only
      rcases hp : m₁.protect address region.protection.whilePatching with ⟨e | old, m₂⟩
      all_goals
        rw [operate, hp] at hprotect
        dsimp only
      · exact hquery.trans hprotect
      · exact (hquery.trans hprotect).trans (used_patchWritable m₂ address expected new old)

end Patch

end Memory

/-! ## Caves -/

namespace CaveStage

theorem used_allocateAll (b : Bench) (classes : List (AccessClass × Nat)) :
    b.memory.Used (allocateAll b classes).2.memory := by
  induction classes generalizing b with
  | nil => exact .refl _
  | cons first rest ih =>
      obtain ⟨access, size⟩ := first
      have hallocate := b.memory.used_operate (.allocate size .readWrite)
      simp only [allocateAll]
      rcases ha : b.memory.allocate size .readWrite with ⟨e | base, m⟩
      all_goals rw [Memory.operate, ha] at hallocate
      · exact hallocate.trans (ih _)
      · exact hallocate.trans (ih _)

section Finish
variable (symbols : Symbols) (options : Options) (b : Bench)

theorem used_finish (job : CaveJob) : b.memory.Used (finish symbols options b job).2.memory := by
  obtain ⟨cave, progress⟩ := job
  cases progress with
  | rejected => exact .refl _
  | empty => exact .refl _
  | planned code slot => exact .refl _
  | located code slot address =>
      rcases writeCave_cases symbols options b cave code slot address with
        ⟨-, hm⟩ | ⟨rendered, said, -, hm, -⟩
      · exact hm ▸ .refl _
      · exact hm ▸ Memory.used_patch ..

theorem used_finishAll (jobs : List CaveJob) :
    b.memory.Used (finishAll symbols options b jobs).2.memory := by
  induction jobs generalizing b with
  | nil => exact .refl _
  | cons job rest ih => exact (used_finish symbols options b job).trans (ih _)

end Finish

theorem used_protectRegion (b : Bench) (region : CaveRegion) :
    b.memory.Used (protectRegion b region).memory := by
  have hprotect := b.memory.used_operate (.protect region.base region.access.protection)
  unfold protectRegion
  rcases hp : b.memory.protect region.base region.access.protection with ⟨_ | p, m⟩
  all_goals
    rw [Memory.operate, hp] at hprotect
    exact hprotect

theorem used_flushRegion (b : Bench) (region : CaveRegion) :
    b.memory.Used (flushRegion b region).memory := by
  have hflush := b.memory.used_operate (.flush region.base)
  unfold flushRegion
  split
  · rcases hf : b.memory.flush region.base with ⟨_ | u, m⟩
    all_goals
      rw [Memory.operate, hf] at hflush
      exact hflush
  · exact .refl _

theorem used_protectAll (b : Bench) (regions : List CaveRegion) :
    b.memory.Used (protectAll b regions).memory := by
  induction regions generalizing b with
  | nil => exact .refl _
  | cons region rest ih =>
      exact ((used_protectRegion b region).trans (used_flushRegion _ region)).trans (ih _)

theorem used_run (symbols : Symbols) (options : Options) (b : Bench) (caves : List Cave) :
    b.memory.Used (run symbols options b caves).bench.memory := by
  simp only [run]
  split
  · exact .refl _
  · refine .trans ?_ (used_protectAll _ _)
    refine .trans ?_ (used_finishAll _ options _ _)
    exact used_allocateAll (b.say _) _

end CaveStage

/-! ## Binary hacks -/

namespace BinhackStage

section Steps
variable (s : Setting) (b : Bench)

theorem used_write (code : Code) (expected : Option Code) (address : UInt32) :
    b.memory.Used (write s b code expected address).2.memory := by
  simp only [write]
  rcases code.render (s.scope b.memory) address with ⟨e | new, said⟩
  · exact .refl _
  · dsimp only
    rcases expectedBytes (s.scope b.memory) expected address new.length with ⟨e | old, more⟩
    · exact .refl _
    · exact Memory.used_patch b.memory address old new

theorem used_applyAt (label : String) (code : Code) (expected : Option Code) (index : Nat)
    (target : TargetAddress) :
    b.memory.Used (applyAt s b label code expected index target).2.memory := by
  unfold applyAt
  split
  · exact .refl _
  · split
    · exact .refl _
    · exact used_write s b code expected _

theorem used_applyEach (label : String) (code : Code) (expected : Option Code) (index : Nat)
    (targets : List TargetAddress) :
    b.memory.Used (applyEach s b label code expected index targets).2.memory := by
  induction targets generalizing b index with
  | nil => exact .refl _
  | cons target rest ih =>
      exact (used_applyAt s b label code expected index target).trans (ih _ _)

theorem used_applyEntry (index : Nat) (hack : Binhack) :
    b.memory.Used (applyEntry s b index hack).2.memory := by
  unfold applyEntry
  split
  · exact .refl _
  · split
    · exact .refl _
    · split
      · exact .refl _
      · exact used_applyEach s _ _ _ _ _ _

theorem used_applyEntries (index : Nat) (hacks : List Binhack) :
    b.memory.Used (applyEntries s b index hacks).2.memory := by
  induction hacks generalizing b index with
  | nil => exact .refl _
  | cons hack rest ih => exact (used_applyEntry s b index hack).trans (ih _ _)

end Steps

theorem used_run (symbols : Symbols) (options : Options) (b : Bench) (hacks : List Binhack) :
    b.memory.Used (run symbols options b hacks).2.memory := by
  simp only [run]
  split
  · exact .refl _
  · exact used_applyEntries _ _ _ _

end BinhackStage

/-! ## Breakpoints -/

namespace BreakpointStage

theorem used_relocateAll (base : UInt32) (clears : List UInt16) (b : Bench) (index : Nat)
    (sites : List Site) :
    b.memory.Used (relocateAll base clears b index sites).2.2.memory := by
  induction sites generalizing b index with
  | nil => exact .refl _
  | cons site rest ih =>
      have hread := b.memory.used_operate (.read site.address site.breakpoint.caveSize)
      have hfirst : b.memory.Used (relocate base clears b index site).2.2.memory := by
        simp only [relocate]
        rcases hr : b.memory.readBytes site.address site.breakpoint.caveSize with ⟨e | replaced, m⟩
        all_goals
          rw [Memory.operate, hr] at hread
          exact hread
      exact hfirst.trans (ih _ _)

theorem used_writeArea (b : Bench) (base : UInt32) (image : List UInt8) :
    b.memory.Used (writeArea b base image).2.memory := by
  have hpatch := Memory.used_patch b.memory base none image
  simp only [writeArea, Bench.patch]
  cases (b.memory.patch base none image).result with
  | error e => exact hpatch
  | ok u =>
      have hprotect := hpatch.trans (Memory.used_operate _ (.protect base .executeRead))
      simp only [Bench.memory_say, Bench.memory_withMemory]
      rcases hp : (b.memory.patch base none image).memory.protect base .executeRead with ⟨_ | p, m⟩
      all_goals rw [Memory.operate, hp] at hprotect
      · exact hprotect
      · exact hprotect.trans (Memory.used_operate _ (.flush base))

theorem used_connectAll (table : BreakpointTable) (b : Bench) (sites : List Site) :
    b.memory.Used (connectAll table b sites).2.2.memory := by
  induction sites generalizing table b with
  | nil => exact .refl _
  | cons site rest ih =>
      have hfirst : b.memory.Used (connect table b site).2.2.memory := by
        rcases (connect_cases table b site).1 with h | ⟨-, expected, h⟩
        · exact h ▸ .refl _
        · exact h ▸ Memory.used_patch ..
      exact hfirst.trans (ih _ _)

theorem used_install (symbols : Symbols) (options : Options) (table : UInt32) (sites : List Site)
    (b : Bench) : b.memory.Used (install symbols options table sites b).2.2.memory := by
  unfold install
  split
  · exact .refl _
  · have hallocate := b.memory.used_operate
      (.allocate (areaSize (stackClears sites).length sites.length) .readWrite)
    rcases ha : b.memory.allocate (areaSize (stackClears sites).length sites.length) .readWrite with
      ⟨e | base, m⟩
    all_goals rw [Memory.operate, ha] at hallocate
    · exact hallocate
    · refine hallocate.trans ?_
      have hcopied := used_relocateAll base (stackClears sites) ((b.withMemory m).say
        [.info s!"Rendering breakpoints... (slots at {Text.address base})"]) 0 sites
      obtain ⟨t, -, -, -, hend⟩ := installAt_cases symbols options table base ((b.withMemory m).say
        [.info s!"Rendering breakpoints... (slots at {Text.address base})"]) sites
      rcases hend with ⟨-, hmemory⟩ | ⟨-, -, hmemory⟩
      · exact hmemory ▸ hcopied.trans (used_writeArea _ _ _)
      · exact hmemory ▸ (hcopied.trans (used_writeArea _ _ _)).trans (used_connectAll _ _ _)

theorem used_run {σ : Type} (symbols : Symbols) (options : Options) (table : UInt32)
    (resolve : Resolver σ) (resolver : σ) (b : Bench) (breakpoints : List Breakpoint) :
    b.memory.Used (run symbols options table resolve resolver b breakpoints).2.2.memory := by
  simp only [run]
  split
  · exact .refl _
  · have hadmitted := (Admission.admitAll_resolves
      ⟨symbols, options, Breakpoint.sites breakpoints⟩ resolve
      { resolver, bench := b.say [.info "Setting up breakpoints..."] } 1 breakpoints).2.2.used
    split
    · rename_i heq
      rw [heq] at hadmitted
      exact hadmitted
    · rename_i heq
      rw [heq] at hadmitted
      exact hadmitted.trans (used_install _ _ _ _ _)

end BreakpointStage

/-! ## Runs -/

namespace Engine

section Apply
variable (e : Engine) (config : Config)

theorem used_applyCaves : e.memory.Used (e.applyCaves config).2.1.memory :=
  CaveStage.used_run e.symbols config.options ⟨e.memory, []⟩ config.caves

theorem used_patched : e.memory.Used (e.patched config).memory :=
  (used_applyCaves e config).trans
    (BinhackStage.used_run (e.applyCaves config).2.1.symbols config.options
      ⟨(e.applyCaves config).2.1.memory, []⟩ config.binhacks)

/-- To apply a configuration is to access memory, again and again. -/
theorem used_apply : e.memory.Used (e.apply config).2.1.memory := by
  have hbreakpoints := BreakpointStage.used_run (e.patched config).symbols config.options
    (UInt32.ofNat (e.patched config).batches.length)
    (resolver (e.patched config).symbols (e.patched config).handlers (e.patched config).policy)
    (e.patched config).prompter ⟨(e.patched config).memory, []⟩ config.breakpoints
  rw [apply_eq]
  refine (used_patched e config).trans ?_
  change (e.patched config).memory.Used ((e.patched config).applyBreakpoints config).2.1.memory
  simp only [applyBreakpoints]
  generalize BreakpointStage.run (e.patched config).symbols config.options
    (UInt32.ofNat (e.patched config).batches.length)
    (resolver (e.patched config).symbols (e.patched config).handlers (e.patched config).policy)
    (e.patched config).prompter ⟨(e.patched config).memory, []⟩ config.breakpoints = outcome
    at hbreakpoints ⊢
  obtain ⟨name | stage, prompter, b⟩ := outcome
  · exact hbreakpoints
  · simp only [addBatch]
    split
    · exact hbreakpoints
    · exact hbreakpoints

end Apply

end Engine
end CodePatch
