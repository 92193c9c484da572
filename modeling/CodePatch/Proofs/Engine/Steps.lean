/-
# What an engine goes through

An engine is used in any order: configurations are applied, names bound,
memory allocated, written and protected from outside, accesses made to fail.
`Action` lists what can happen, and `Orderly` is what holds throughout: all
that was put in place is apart, below the next free address, and every cave is
bound under a name of its own.

`Orderly.act` is the step, with one lemma for each stage of a configuration,
and `Orderly.actions` the run.  `locate_is_exact` is what follows for crash
reports.  The handlers of breakpoints are functions of whoever uses the engine,
which may do anything to memory; a hit is therefore no action.
-/
import CodePatch.Proofs.Engine.Stages
import CodePatch.Proofs.Symbols

namespace CodePatch

namespace Engine

/-- What can happen to an engine. -/
inductive Action where
  | apply (config : Config)
  /-- Binds a name. -/
  | bind (name : String) (address : UInt32)
  /-- Binds the name of a code cave. -/
  | bindCave (cave : String) (address : UInt32)
  /-- Binds the functions that a module exports. -/
  | bindExports (module : String) (functions : List (String × UInt32))
  /-- Places caves that are not to be the engine's own. -/
  | placeCaves (options : Options) (caves : List Cave)
  | setHandler (name : String) (handler : Handler)
  | setPolicy (policy : SymbolPolicy)
  | setPrompter (prompter : Option Prompter)
  | read (address : UInt32) (size : Nat)
  | query (address : UInt32)
  | allocate (size : Nat) (protection : Protection)
  | write (address : UInt32) (bytes : List UInt8)
  | protect (address : UInt32) (protection : Protection)
  | flush (address : UInt32)
  | patch (address : UInt32) (expected : Option (List UInt8)) (new : List UInt8)
  /-- Plans which accesses will fail from now on. -/
  | plan (faults : FaultPlan)

/-- The engine after something has happened. -/
def act (e : Engine) : Action → Engine
  | .apply config => (e.apply config).2.1
  | .bind name address => { e with symbols := e.symbols.bind name address }
  | .bindCave cave address =>
    { e with symbols := e.symbols.bind (Symbols.caveName cave) address }
  | .bindExports module functions =>
    { e with symbols := (e.symbols.bindExports module functions).2.1 }
  | .placeCaves options caves =>
    let stage := CaveStage.run e.symbols options ⟨e.memory, []⟩ caves
    { e with memory := stage.bench.memory, symbols := stage.symbols }
  | .setHandler name handler => { e with handlers := e.handlers.set name handler }
  | .setPolicy policy => { e with policy }
  | .setPrompter prompter => { e with prompter }
  | .read address size => { e with memory := (e.memory.readBytes address size).2 }
  | .query address => { e with memory := (e.memory.query address).2 }
  | .allocate size protection => { e with memory := (e.memory.allocate size protection).2 }
  | .write address bytes => { e with memory := (e.memory.write address bytes).2 }
  | .protect address protection => { e with memory := (e.memory.protect address protection).2 }
  | .flush address => { e with memory := (e.memory.flush address).2 }
  | .patch address expected new => { e with memory := (e.memory.patch address expected new).memory }
  | .plan faults => { e with memory := { e.memory with faults } }

/-- The engine after one thing after the other has happened. -/
def actions (e : Engine) (list : List Action) : Engine :=
  list.foldl act e

/-! ## The invariant -/

/-- What was put in place is apart and below what is free, and caves have names of their own. -/
structure Orderly (e : Engine) : Prop where
  fills : Fills e.ranges 0 e.memory.nextAllocation.toNat
  names : (e.caves.map (·.name)).Nodup
  bound : ∀ cave ∈ e.caves, e.symbols.bound? (Symbols.caveName cave.name) = some cave.address

theorem orderly_fresh (memory : Memory) : Orderly { memory } where
  fills := .nil 0 _
  names := List.nodup_nil
  bound := fun _ h => absurd h List.not_mem_nil

section Step
variable {e : Engine}

/-- Nothing is lost where no cave and no batch is added, and nothing is given back. -/
theorem Orderly.same (h : e.Orderly) {e' : Engine} (hcaves : e'.caves = e.caves)
    (hbatches : e'.batches = e.batches)
    (hnext : e.memory.nextAllocation.toNat ≤ e'.memory.nextAllocation.toNat)
    (hsymbols : e.symbols.Extends e'.symbols) : e'.Orderly := by
  have hranges : e'.ranges = e.ranges := by rw [ranges, hcaves, hbatches]; rfl
  refine ⟨?_, hcaves ▸ h.names, fun cave hcave => hsymbols _ _ (h.bound cave (hcaves ▸ hcave))⟩
  rw [hranges]
  exact h.fills.grow hnext

theorem Orderly.applyCaves (h : e.Orderly) (config : Config) :
    (e.applyCaves config).2.1.Orderly := by
  obtain ⟨hle, hfills⟩ :=
    CaveStage.fills_placed e.symbols config.options ⟨e.memory, []⟩ config.caves
  obtain ⟨hnames, hfree⟩ :=
    CaveStage.names_placed e.symbols config.options ⟨e.memory, []⟩ config.caves
  obtain ⟨hbound, hkept⟩ :=
    CaveStage.bound?_run e.symbols config.options ⟨e.memory, []⟩ config.caves
  simp only [Engine.applyCaves]
  generalize CaveStage.run e.symbols config.options ⟨e.memory, []⟩ config.caves = stage at *
  refine ⟨?_, ?_, fun cave hcave => ?_⟩
  · refine (h.fills.append hfills (Nat.zero_le _) hle).perm ?_
    simp only [ranges, List.map_append, List.append_assoc]
    exact List.perm_append_comm.append_left _
  · rw [List.map_append]
    refine List.nodup_append.mpr ⟨h.names, hnames, ?_⟩
    rintro name hname other hother rfl
    obtain ⟨cave, hcave, rfl⟩ := List.mem_map.mp hname
    obtain ⟨placed, hplaced, hsame⟩ := List.mem_map.mp hother
    have hnone := hfree placed hplaced
    rw [hsame, h.bound cave hcave] at hnone
    cases hnone
  · rcases List.mem_append.mp hcave with hcave | hcave
    · exact hkept _ _ (h.bound cave hcave)
    · exact hbound cave hcave

theorem Orderly.applyBinhacks (h : e.Orderly) (config : Config) :
    (e.applyBinhacks config).2.1.Orderly := by
  refine h.same rfl rfl (Nat.le_of_eq ?_) (.refl _)
  exact congrArg UInt32.toNat (BinhackStage.nextAllocation_run e.symbols config.options
    ⟨e.memory, []⟩ config.binhacks).symm

theorem Orderly.applyBreakpoints (h : e.Orderly) (config : Config) :
    (e.applyBreakpoints config).2.1.Orderly := by
  obtain ⟨hle, hfills⟩ := BreakpointStage.fills_batch e.symbols config.options
    (UInt32.ofNat e.batches.length) (resolver e.symbols e.handlers e.policy) e.prompter
    ⟨e.memory, []⟩ config.breakpoints
  simp only [Engine.applyBreakpoints]
  generalize BreakpointStage.run e.symbols config.options (UInt32.ofNat e.batches.length)
    (resolver e.symbols e.handlers e.policy) e.prompter ⟨e.memory, []⟩ config.breakpoints = outcome
    at *
  obtain ⟨result, prompter, b⟩ := outcome
  cases result with
  | error name => exact h.same rfl rfl hle (.refl _)
  | ok stage =>
      simp only [addBatch]
      cases harea : stage.area with
      | none => exact h.same rfl rfl hle (.refl _)
      | some area =>
          refine ⟨?_, h.names, h.bound⟩
          have hall := h.fills.append (hfills stage area rfl harea) (Nat.zero_le _) hle
          simpa only [ranges, List.flatMap_append, List.flatMap_singleton, List.append_assoc]
            using hall

/-- The engine after a run is the engine after its last stage. -/
theorem apply_eq (e : Engine) (config : Config) : (e.apply config).2.1 =
    (((e.applyCaves config).2.1.applyBinhacks config).2.1.applyBreakpoints config).2.1 := by
  simp only [apply]
  rcases ((e.applyCaves config).2.1.applyBinhacks config).2.1.applyBreakpoints config with
    ⟨_ | report, e', said⟩
  · rfl
  · rfl

theorem Orderly.apply (h : e.Orderly) (config : Config) : (e.apply config).2.1.Orderly := by
  rw [apply_eq]
  exact ((h.applyCaves config).applyBinhacks config).applyBreakpoints config

/-- Whatever happens to an orderly engine, it stays orderly. -/
theorem Orderly.act (h : e.Orderly) (action : Action) : (e.act action).Orderly := by
  cases action with
  | apply config => exact h.apply config
  | bind name address =>
      exact h.same rfl rfl (Nat.le_refl _) (Symbols.extends_bind e.symbols name address)
  | bindCave cave address =>
      exact h.same rfl rfl (Nat.le_refl _) (Symbols.extends_bind e.symbols _ address)
  | bindExports module functions =>
      exact h.same rfl rfl (Nat.le_refl _) (Symbols.extends_bindAll e.symbols _)
  | placeCaves options caves =>
      exact h.same rfl rfl (CaveStage.fills_placed e.symbols options ⟨e.memory, []⟩ caves).1
        (CaveStage.bound?_run e.symbols options ⟨e.memory, []⟩ caves).2
  | setHandler name handler => exact h.same rfl rfl (Nat.le_refl _) (.refl _)
  | setPolicy policy => exact h.same rfl rfl (Nat.le_refl _) (.refl _)
  | setPrompter prompter => exact h.same rfl rfl (Nat.le_refl _) (.refl _)
  | read address size => exact h.same rfl rfl (Nat.le_refl _) (.refl _)
  | query address => exact h.same rfl rfl (Nat.le_refl _) (.refl _)
  | allocate size protection =>
      exact h.same rfl rfl (Memory.nextAllocation_le_allocate e.memory size protection) (.refl _)
  | write address bytes =>
      have hnext := Memory.nextAllocation_write e.memory address bytes
      exact h.same rfl rfl (Nat.le_of_eq (congrArg UInt32.toNat hnext.symm)) (.refl _)
  | protect address protection =>
      have hnext := Memory.nextAllocation_protect e.memory address protection
      exact h.same rfl rfl (Nat.le_of_eq (congrArg UInt32.toNat hnext.symm)) (.refl _)
  | flush address => exact h.same rfl rfl (Nat.le_refl _) (.refl _)
  | patch address expected new =>
      have hnext := Memory.nextAllocation_patch e.memory address expected new
      exact h.same rfl rfl (Nat.le_of_eq (congrArg UInt32.toNat hnext.symm)) (.refl _)
  | plan faults => exact h.same rfl rfl (Nat.le_refl _) (.refl _)

theorem Orderly.actions (h : e.Orderly) (list : List Action) : (e.actions list).Orderly := by
  induction list generalizing e with
  | nil => exact h
  | cons action rest ih => exact ih (h.act action)

end Step

/-! ## Locating -/

/-- In every engine that a fresh one can become, what was put in place is apart, caves have
names of their own and are bound under them, and an address is said to lie in the one range
that it lies in, if there is one. -/
theorem locate_is_exact (memory : Memory) (list : List Action) :
    let e := ({ memory } : Engine).actions list
    e.ranges.Pairwise CodeRange.Apart ∧
    (e.caves.map (·.name)).Nodup ∧
    (∀ cave ∈ e.caves, e.symbols.get? (Symbols.caveName cave.name) = some cave.address) ∧
    ∀ address,
      (e.locate address = none ↔ ∀ range ∈ e.ranges, ¬ range.Contains address) ∧
      ∀ range ∈ e.ranges, range.Contains address →
        (∀ other ∈ e.ranges, other.Contains address → other = range) ∧
        ∃ location, e.locate address = some location ∧ location.kind = range.kind ∧
          location.name = range.name ∧ location.base = range.base ∧
          location.base + location.offset = address := by
  intro e
  have h : e.Orderly := (orderly_fresh memory).actions list
  refine ⟨h.fills.apart, h.names, fun cave hcave => ?_, fun address => ⟨locate_eq_none_iff, ?_⟩⟩
  · rw [Symbols.get?_caveName]
    exact h.bound cave hcave
  · intro range hrange hin
    refine ⟨fun other hother => range_of_contains h.fills.apart hrange hother hin,
      range.location address, locate_of_mem h.fills.apart hrange hin, rfl, rfl, rfl, ?_⟩
    exact range.base_add_offset address

end Engine
end CodePatch
