/-
# What the contents of memory do not decide

Without registers a text has one value or error, whichever of two memories is attached, as long
as both export the same functions: ranges, bytes, protections and planned faults make no
difference, and nothing is read.

The stages of a run work without registers, and take the base of the main module from memory.  So
what they resolve and render is the same for memories that have the base in common as well
(`SameReading`).  They write while they go on resolving, but no access changes a name
(`surroundings_operations`) and the stages do nothing to memory but access it, so it is the same
at every moment of a run at which they do (`Moment`).  Once code is written, what it says there
decides nothing about what is written next.

Registers make the difference: with them `[...]` reads memory, and two memories that export the
same functions may differ in every byte.
-/
import CodePatch.Proofs.Engine.Accesses
import CodePatch.Proofs.Expression.Walk

namespace CodePatch

/-! ## Memory in use -/

namespace Memory

theorem surroundings_operate (m : Memory) (operation : Operation) :
    (m.operate operation).surroundings = m.surroundings := by
  rcases operate_cases m operation with h | ⟨base, f, -, h⟩ | ⟨size, protection, -, -, h⟩
  · exact surroundings_eq_of_space_eq h
  · exact surroundings_eq_of_space_eq (m := m.modifyMapping base f) h
  · exact (congrArg surroundings h :)

theorem surroundings_operations (m : Memory) (list : List Operation) :
    (m.operations list).surroundings = m.surroundings := by
  induction list generalizing m with
  | nil => rfl
  | cons operation rest ih => exact (ih _).trans (surroundings_operate m operation)

theorem Used.surroundings {m m' : Memory} (h : m.Used m') : m'.surroundings = m.surroundings := by
  obtain ⟨list, rfl⟩ := h
  exact surroundings_operations m list

end Memory

/-! ## Reading a configuration -/

/-- A run that has come to the second memory resolves and renders as it would with the first. -/
structure SameReading (symbols : Symbols) (options : Options) (m m' : Memory) : Prop where
  addresses (target : TargetAddress) :
    target.resolve (Scope.ofPatch symbols options m') =
      target.resolve (Scope.ofPatch symbols options m)
  code (code : Code) (address : UInt32) :
    code.render (Scope.ofPatch symbols options m') address =
      code.render (Scope.ofPatch symbols options m) address
  caves (code : Option Code) (address : UInt32) :
    CaveStage.renderCode (Scope.ofPatch symbols options m') code address =
      CaveStage.renderCode (Scope.ofPatch symbols options m) code address
  binhacks (expected : Option Code) (address : UInt32) (size : Nat) :
    BinhackStage.expectedBytes (Scope.ofPatch symbols options m') expected address size =
      BinhackStage.expectedBytes (Scope.ofPatch symbols options m) expected address size
  breakpoints (site : Site) :
    BreakpointStage.expectedBytes (Scope.ofPatch symbols options m') site =
      BreakpointStage.expectedBytes (Scope.ofPatch symbols options m) site

theorem BreakpointStage.expectedBytes_of_alike {scope scope' : Scope} (h : scope.Alike scope')
    (site : Site) : expectedBytes scope' site = expectedBytes scope site := by
  have hoptions : scope'.options = scope.options := by rw [h.fields]
  simp only [expectedBytes, hoptions, Code.render_of_alike h]

theorem SameReading.of_alike {symbols : Symbols} {options : Options} {m m' : Memory}
    (h : (Scope.ofPatch symbols options m).Alike (Scope.ofPatch symbols options m')) :
    SameReading symbols options m m' where
  addresses := BinhackStage.resolve_of_alike h
  code := Code.render_of_alike h
  caves := CaveStage.renderCode_of_alike h
  binhacks := BinhackStage.expectedBytes_of_alike h
  breakpoints := BreakpointStage.expectedBytes_of_alike h

/-! ## In the middle of a stage -/

/-- The memories in which stages resolve and render, if they start with `m`.  What is said in
between makes no difference. -/
inductive Moment (m : Memory) : Memory → Prop where
  /-- A cave is rendered when all regions are allocated and the caves before it are written. -/
  | cave {b : Bench} (start : b.memory = m) (symbols : Symbols) (options : Options)
      (classes : List (AccessClass × Nat)) (said : Journal) (jobs : List CaveJob) :
      Moment m (CaveStage.finishAll symbols options
        ((CaveStage.allocateAll b classes).2.say said) jobs).2.memory
  /-- A binary hack is resolved and rendered behind other entries, and for each of its
  addresses behind those before. -/
  | binhack {b : Bench} (start : b.memory = m) (s : Setting) (index place : Nat)
      (hacks : List Binhack) (said : Journal) (label : String) (code : Code)
      (expected : Option Code) (targets : List TargetAddress) :
      Moment m (BinhackStage.applyEach s ((BinhackStage.applyEntries s b index hacks).2.say said)
        label code expected place targets).2.memory
  /-- So is a site, which is resolved while others are admitted. -/
  | site {σ : Type} {a : Admission σ} (start : a.bench.memory = m) (s : Setting)
      (resolve : Resolver σ) (index place : Nat) (breakpoints : List Breakpoint) (said : Journal)
      (resolver : σ) (bp : Breakpoint) (handler : Handler) (targets : List TargetAddress) :
      Moment m (Admission.admitEach s
        { (Admission.admitAll s resolve a index breakpoints).2.say said with resolver }
        bp handler place targets).bench.memory
  /-- What a site expects is rendered when the area is written, and the sites before it are
  connected. -/
  | redirect {b : Bench} (start : b.memory = m) (size index : Nat) (said : Journal)
      (base : UInt32) (clears : List UInt16) (sites connected : List Site) (image : List UInt8)
      (table : BreakpointTable) :
      Moment m (BreakpointStage.connectAll table (BreakpointStage.writeArea
        (BreakpointStage.relocateAll base clears
          ((b.withMemory (b.memory.allocate size .readWrite).2).say said) index sites).2.2
        base image).2 connected).2.2.memory

/-- At every moment, memory has only been used. -/
theorem Moment.used {m m' : Memory} (h : Moment m m') : m.Used m' := by
  cases h with
  | @cave b start symbols options classes said jobs =>
      subst start
      exact (CaveStage.used_allocateAll b classes).trans
        (CaveStage.used_finishAll symbols options (Bench.say _ said) jobs)
  | @binhack b start s index place hacks said label code expected targets =>
      subst start
      exact (BinhackStage.used_applyEntries s b index hacks).trans
        (BinhackStage.used_applyEach s (Bench.say _ said) label code expected place targets)
  | @site σ a start s resolve index place breakpoints said resolver bp handler targets =>
      subst start
      exact (Admission.admitAll_resolves s resolve a index breakpoints).2.2.used.trans
        (Admission.admitEach_queries s _ bp handler place targets).2.used
  | @redirect b start size index said base clears sites connected image table =>
      subst start
      have hallocated := b.memory.used_operate (.allocate size .readWrite)
      have hcopied := BreakpointStage.used_relocateAll base clears
        ((b.withMemory (b.memory.allocate size .readWrite).2).say said) index sites
      exact ((hallocated.trans hcopied).trans (BreakpointStage.used_writeArea _ base image)).trans
        (BreakpointStage.used_connectAll table _ connected)

/-! ## Two memories -/

/-- Two memories that export the same functions cannot be told apart without registers.  Any text
comes to the same with either of them attached, and no memory is read.  If their main modules
have one base, a stage that starts with what became of the second by use resolves and renders at
every moment as it would with the first; and so does every stage of every run, since runs do
nothing but use memory. -/
theorem contents_of_memory_do_not_count {m m' : Memory} (h : m.SameExports m') :
    (∀ (symbols : Symbols) (options : Options) (moduleBase origin : UInt32) (text : List Char)
        (stop : Option Char),
      let scope (memory : Memory) : Scope :=
        { symbols, options, memory := some memory, moduleBase, origin }
      Expression.evaluateCounting (scope m') text stop =
          Expression.evaluateCounting (scope m) text stop ∧
        (Expression.evaluateCounting (scope m) text stop).2 = 0) ∧
    (m'.moduleBase = m.moduleBase → ∀ start, m'.Used start → ∀ reached, Moment start reached →
      ∀ symbols options, SameReading symbols options m reached) ∧
    ∀ (e : Engine) (config : Config), m'.Used e.memory →
      m'.Used (e.applyCaves config).2.1.memory ∧ m'.Used (e.patched config).memory ∧
        m'.Used (e.apply config).2.1.memory := by
  refine ⟨fun symbols options moduleBase origin text stop => ?_,
    fun hbase start hstart reached hreached symbols options => ?_, fun e config he => ?_⟩
  · exact ⟨Expression.evaluateCounting_of_alike
        (.attach { symbols, options, moduleBase, origin } rfl h) text stop,
      Expression.reads_evaluateCounting rfl text stop⟩
  · have hsame : reached.surroundings = m'.surroundings := (hstart.trans hreached.used).surroundings
    have hexports : reached.exports = m'.exports := congrArg (·.2.2) hsame
    refine .of_alike (.ofExports symbols options (fun module function => ?_) ?_)
    · rw [← h module function, Memory.exportAddress?, hexports]
      rfl
    · exact (congrArg (·.1) hsame).trans hbase
  · exact ⟨he.trans (e.used_applyCaves config), he.trans (e.used_patched config),
      he.trans (e.used_apply config)⟩

/-- Two memories with one exported function, different bytes, and a range that only one of them
has. -/
theorem sample_contents_do_not_count :
    let exports : List ModuleExport := [⟨"kernel32", "Sleep", 0x77001000⟩]
    let m : Memory := { mappings := [.ofBytes 0x400000 [0x55, 0x8B] .executeRead], exports }
    let m' : Memory :=
      { mappings := [.ofBytes 0x400000 [0x90, 0xC3] .readWrite, .filled 0x500000 16 0 .noAccess],
        exports }
    let scope (memory : Memory) : Scope :=
      { symbols := {}, options := {}, memory := some memory }
    let text := "<kernel32:Sleep> + [kernel32:Sleep]".toList
    m.bytesAt 0x400000 2 ≠ m'.bytesAt 0x400000 2 ∧ m.SameExports m' ∧
      Expression.evaluateCounting (scope m') text none =
        Expression.evaluateCounting (scope m) text none ∧
      SameReading {} {} m (m'.patch 0x400000 none [0xCC]).memory := by
  intro exports m m' scope text
  have hexports : m.SameExports m' := fun _ _ => rfl
  obtain ⟨htext, hstages, -⟩ := contents_of_memory_do_not_count hexports
  refine ⟨by decide, hexports, (htext {} {} 0 0 text none).1, ?_⟩
  exact hstages rfl _ (Memory.used_patch m' 0x400000 none [0xCC]) _
    (.cave (b := ⟨_, []⟩) rfl {} {} [] [] []) {} {}

-- With registers the bytes count.
example :
    let scope (bytes : List UInt8) : Scope :=
      { symbols := {}, options := {}, registers := some {},
        memory := some { mappings := [.ofBytes 0x400000 bytes .readWrite] } }
    Expression.evaluate (scope [1, 0, 0, 0]) "[0x400000]".toList none ≠
      Expression.evaluate (scope [2, 0, 0, 0]) "[0x400000]".toList none := by
  decide

end CodePatch
