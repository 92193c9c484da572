/-
# The engine

An engine holds what lasts from one configuration to the next: the memory, the
names bound, the handlers, and what was put in place so far.  Applying a
configuration goes through its stages in order: caves first, because patches
refer to them; then binary hacks; breakpoints last, because their slots copy
the bytes that are there by then.

Entries that fail are counted and reported.  Only a refusal to go on without a
handler ends a run, and it does so before any breakpoint is written.
-/
import CodePatch.Binhack.Stage
import CodePatch.Config
import CodePatch.Engine.Location
import CodePatch.Prompter

namespace CodePatch

/-- The outcome of a run. -/
structure ApplyReport where
  caves : StageReport
  binhacks : StageReport
  breakpoints : StageReport
deriving DecidableEq, Repr, Inhabited

namespace ApplyReport

def applied (r : ApplyReport) : Nat :=
  r.caves.applied + r.binhacks.applied + r.breakpoints.applied

def failed (r : ApplyReport) : Nat :=
  r.caves.failed + r.binhacks.failed + r.breakpoints.failed

/-- What is said at the end of a run. -/
def event (r : ApplyReport) : Event :=
  if r.failed = 0 then .info s!"Applied {r.applied} hackpoints"
  else .warn s!"Applied {r.applied} hackpoints, {r.failed} failed"

end ApplyReport

/-- Handlers by name, each name once. -/
abbrev Handlers := List (String × Handler)

namespace Handlers

/-- The handlers with `name` set, in place if it is there. -/
def set (handlers : Handlers) (name : String) (handler : Handler) : Handlers :=
  match handlers with
  | [] => [(name, handler)]
  | (n, h) :: rest => if n = name then (n, handler) :: rest else (n, h) :: set rest name handler

/-- The handler set last is the one that is found. -/
theorem lookup_set (handlers : Handlers) (name other : String) (handler : Handler) :
    (handlers.set name handler).lookup other =
      if other = name then some handler else handlers.lookup other := by
  induction handlers with
  | nil => by_cases h : other = name <;> simp [set, List.lookup_cons, h, beq_false_of_ne]
  | cons entry rest ih =>
    obtain ⟨n, old⟩ := entry
    by_cases h : n = name
    · subst h
      by_cases h' : other = n <;> simp [set, List.lookup_cons, h', beq_false_of_ne]
    · by_cases h' : other = n
      · subst h'
        simp [set, h]
      · simp [set, List.lookup_cons, h, ih, h', beq_false_of_ne]

end Handlers

/-- What lasts from one configuration to the next. -/
structure Engine where
  memory : Memory
  symbols : Symbols := {}
  handlers : Handlers := []
  policy : SymbolPolicy := .warn
  prompter : Option Prompter := none
  /-- The caves placed by every run so far. -/
  caves : List PlacedCave := []
  /-- The batches installed by every run so far. -/
  batches : List Batch := []

namespace Engine

/-! ## Handlers -/

/-- The handler that goes on as the entry of its breakpoint says. -/
def defaultHandler : Handler := fun hit => hit.defaultResume

/-- The handler of a breakpoint, if there is one. -/
def handler? (symbols : Symbols) (handlers : Handlers) (bp : Breakpoint) : Option Handler :=
  match bp.caveName? with
  | some cave => (symbols.get? (Symbols.caveName cave)).map fun _ => defaultHandler
  | none => handlers.lookup bp.handlerName

/-- What to do about a missing handler, and who was asked. -/
def missing (policy : SymbolPolicy) (name : String) (prompter : Option Prompter) :
    Resolution × Option Prompter :=
  match policy, prompter with
  | .prompt, some p =>
    let (agreed, p) := p.ask name
    (if agreed then .skip else .abort name, some p)
  | _, prompter => (.skip, prompter)

/-- Finds the handlers of breakpoints, and asks about missing ones if the policy
is to ask. -/
def resolver (symbols : Symbols) (handlers : Handlers) (policy : SymbolPolicy) :
    Resolver (Option Prompter) := fun bp prompter =>
  match handler? symbols handlers bp with
  | some handler => (.handler handler, prompter, [])
  | none =>
    let (resolution, prompter) := missing policy bp.handlerName prompter
    (resolution, prompter, [.error (PatchError.handlerNotFound bp.handlerName).message])

/-! ## Applying a configuration -/

/-- The engine once the caves of a configuration are applied. -/
def applyCaves (e : Engine) (config : Config) : StageReport × Engine × Journal :=
  let stage := CaveStage.run e.symbols config.options ⟨e.memory, []⟩ config.caves
  (stage.report,
    { e with
      memory := stage.bench.memory, symbols := stage.symbols, caves := e.caves ++ stage.placed },
    stage.bench.journal)

/-- The engine once the binary hacks of a configuration are applied. -/
def applyBinhacks (e : Engine) (config : Config) : StageReport × Engine × Journal :=
  let (report, b) := BinhackStage.run e.symbols config.options ⟨e.memory, []⟩ config.binhacks
  (report, { e with memory := b.memory }, b.journal)

/-- The engine with a batch more, if there is one. -/
def addBatch (e : Engine) (stage : BreakpointStage) : Engine :=
  match stage.area with
  | none => e
  | some area => { e with batches := e.batches ++ [⟨stage.sites, area⟩] }

/-- The engine once the breakpoints of a configuration are applied.  Entry stubs
know their table by the number of its batch. -/
def applyBreakpoints (e : Engine) (config : Config) :
    Except PatchError StageReport × Engine × Journal :=
  let (result, prompter, b) := BreakpointStage.run e.symbols config.options
    (UInt32.ofNat e.batches.length) (resolver e.symbols e.handlers e.policy) e.prompter
    ⟨e.memory, []⟩ config.breakpoints
  let e := { e with memory := b.memory, prompter }
  match result with
  | .error name => (.error (.aborted name), e, b.journal)
  | .ok stage => (.ok stage.report, e.addBatch stage, b.journal)

/-- The engine once a configuration is applied. -/
def apply (e : Engine) (config : Config) : Except PatchError ApplyReport × Engine × Journal :=
  let (caves, e, said₁) := e.applyCaves config
  let (binhacks, e, said₂) := e.applyBinhacks config
  let (result, e, said₃) := e.applyBreakpoints config
  let said := .info "Applying hackpoints..." :: said₁ ++ said₂ ++ said₃
  match result with
  | .error cause => (.error cause, e, said)
  | .ok breakpoints =>
    let report : ApplyReport := ⟨caves, binhacks, breakpoints⟩
    (.ok report, e, said ++ [report.event])

/-! ## Between runs -/

/-- Handles a hit of a breakpoint of a batch. -/
def fire (e : Engine) (batch : Batch) (registers : Registers) :
    Option Resume × Registers × List Note × Engine × Journal :=
  let firing := batch.area.table.fire registers ⟨e.memory, []⟩
  (firing.resume, firing.registers, firing.notes, { e with memory := firing.bench.memory },
    firing.bench.journal)

/-- What `address` lies in, of what was put in place so far. -/
def locate (e : Engine) (address : UInt32) : Option CodeLocation :=
  CodeLocation.find? e.caves e.batches address

end Engine
end CodePatch
