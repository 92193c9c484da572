/-
# Applying code caves

The first stage gives every cave its memory, in four passes over the entries:
compile the code and find the size; lay the caves out and allocate one region
for each access class; bind every name to its address; write the contents.
Names are bound before any content is rendered, so caves may refer to each
other in any order.  In the end each region gets the protection of its class.

A cave that cannot be compiled, laid out, allocated or named fails on its own.
-/
import CodePatch.Bench
import CodePatch.Cave.Layout
import CodePatch.Code.Compile
import CodePatch.Code.Render

namespace CodePatch

/-- The memory of one access class. -/
structure CaveRegion where
  access : AccessClass
  base : UInt32
  size : Nat
deriving DecidableEq, Repr

/-- A cave that has an address. -/
structure PlacedCave where
  name : String
  address : UInt32
  size : Nat
  padded : Nat
deriving DecidableEq, Repr

/-- How far a cave has come. -/
inductive CaveProgress where
  /-- Given up; this was said. -/
  | rejected
  /-- Asks for no memory. -/
  | empty
  | planned (code : Option Code) (slot : CaveSlot)
  | located (code : Option Code) (slot : CaveSlot) (address : UInt32)
deriving DecidableEq, Repr

/-- A cave on its way into memory. -/
structure CaveJob where
  cave : Cave
  progress : CaveProgress
deriving DecidableEq, Repr

/-- What became of a cave in the end. -/
inductive CaveOutcome where
  | applied
  | failed
  | ignored
deriving DecidableEq, Repr

/-- The result of the stage. -/
structure CaveStage where
  report : StageReport
  /-- The regions allocated, in the order of the classes. -/
  regions : List CaveRegion
  /-- Every cave that has an address, in the order of the entries. -/
  placed : List PlacedCave
  symbols : Symbols
  bench : Bench

namespace CaveStage

def complaint (cave : Cave) (text : String) : String :=
  s!"Code cave {cave.name}: {text}"

/-! ## Sizes -/

/-- The code of a cave, and the size it needs if any. -/
def prepare (symbols : Symbols) (options : Options) (earlier : List String) (cave : Cave) :
    Except PatchError (Option Code × Option Nat) :=
  if earlier.contains cave.name then .error (.invalidConfig (.caveDefinedTwice cave.name))
  else if (symbols.get? (Symbols.caveName cave.name)).isSome then
    .error (.invalidConfig (.caveExists cave.name))
  else do
    let code ← (cave.code.mapM Code.compile).mapError .code
    let size ← (slotSize cave.size cave.count (code.elim 0 (Code.size options))).mapError
      .invalidConfig
    return (code, size)

/-- A cave and what came of preparing it. -/
abbrev Prepared := Cave × Except PatchError (Option Code × Option Nat)

/-- Prepares caves that come behind those named `earlier`. -/
def prepareAll (symbols : Symbols) (options : Options) (earlier : List String) :
    List Cave → List Prepared
  | [] => []
  | cave :: rest =>
    (cave, prepare symbols options earlier cave) ::
      prepareAll symbols options (cave.name :: earlier) rest

def prepareEvents : Prepared → Journal
  | (cave, .error e) => [.error (complaint cave e.message)]
  | (_, .ok _) => []

/-! ## Places -/

/-- What a cave asks the layout for; a rejected one asks for nothing. -/
def request : Prepared → CaveRequest
  | (cave, .ok (_, size)) => (cave.access, size)
  | (cave, .error _) => (cave.access, none)

/-- The job of a cave that was prepared and laid out. -/
def plan (prepared : Prepared) (placement : CavePlacement) : CaveJob :=
  match prepared, placement with
  | (cave, .error _), _ => ⟨cave, .rejected⟩
  | (cave, .ok _), .tooLarge => ⟨cave, .rejected⟩
  | (cave, .ok _), .empty => ⟨cave, .empty⟩
  | (cave, .ok (code, _)), .placed slot => ⟨cave, .planned code slot⟩

def planEvents (prepared : Prepared) : CavePlacement → Journal
  | .tooLarge =>
    [.error (complaint prepared.1 s!"does not fit in {prepared.1.access.name} cave memory")]
  | .empty | .placed _ => []

/-- Allocates a region for each of the classes. -/
def allocateAll (b : Bench) : List (AccessClass × Nat) → List CaveRegion × Bench
  | [] => ([], b)
  | (access, size) :: rest =>
    match b.memory.allocate size .readWrite with
    | (.ok base, memory) =>
      let later := allocateAll (b.withMemory memory) rest
      (⟨access, base, size⟩ :: later.1, later.2)
    | (.error e, memory) =>
      allocateAll ((b.withMemory memory).say
        [.error s!"Could not allocate {access.name} cave memory: {e.message}"]) rest

/-! ## Names -/

/-- The address of a slot in the region of its class. -/
def addressOf? (regions : List CaveRegion) (slot : CaveSlot) : Option UInt32 :=
  (regions.find? (·.access = slot.access)).map fun region => region.base + UInt32.ofNat slot.offset

/-- Binds the name of a planned cave to its address. -/
def publish (regions : List CaveRegion) (symbols : Symbols) (job : CaveJob) :
    CaveJob × Symbols × Journal :=
  match job.progress with
  | .planned code slot =>
    match addressOf? regions slot with
    | none => (job, symbols, [])
    | some address =>
      let name := Symbols.caveName job.cave.name
      if symbols.isFree name then
        (⟨job.cave, .located code slot address⟩, symbols.bind name address, [])
      else
        (⟨job.cave, .rejected⟩, symbols, symbols.bindEvents name address ++
          [.warn (complaint job.cave "name already taken, skipping")])
  | _ => (job, symbols, [])

def publishAll (regions : List CaveRegion) (symbols : Symbols) :
    List CaveJob → List CaveJob × Symbols × Journal
  | [] => ([], symbols, [])
  | job :: rest =>
    let (job, symbols, said) := publish regions symbols job
    let (jobs, symbols, more) := publishAll regions symbols rest
    (job :: jobs, symbols, said ++ more)

def placedCave? (job : CaveJob) : Option PlacedCave :=
  match job.progress with
  | .located _ slot address => some ⟨job.cave.name, address, slot.size, slot.padded⟩
  | _ => none

/-! ## Contents -/

/-- The bytes of a cave: its code, then the fill byte, then padding. -/
def contents (cave : Cave) (slot : CaveSlot) (code : List UInt8) : List UInt8 :=
  code ++ List.replicate (slot.size - code.length) cave.fill ++
    List.replicate (slot.padded - slot.size) cavePadding

/-- The code of a cave as it lies at `address`. -/
def renderCode (scope : Scope) (code : Option Code) (address : UInt32) :
    Reported PatchError (List UInt8) :=
  match code with
  | none => (.ok [], [])
  | some code => code.render scope address

/-- Writes a cave that has an address. -/
def writeCave (symbols : Symbols) (options : Options) (b : Bench) (cave : Cave)
    (code : Option Code) (slot : CaveSlot) (address : UInt32) : CaveOutcome × Bench :=
  let scope := Scope.ofPatch symbols options b.memory
  match renderCode scope code address with
  | (.error e, said) => (.failed, b.say (said ++ [.error (complaint cave e.message)]))
  | (.ok rendered, said) =>
    match (b.say said).patch address none (contents cave slot rendered) with
    | (.ok (), b) =>
      (.applied, b.say
        [.info s!"Code cave {cave.name} at {Text.address address} ({slot.size} bytes)"])
    | (.error e, b) => (.failed, b.say [.error (complaint cave e.message)])

/-- Finishes a job. -/
def finish (symbols : Symbols) (options : Options) (b : Bench) (job : CaveJob) :
    CaveOutcome × Bench :=
  match job.progress with
  | .rejected | .planned _ _ => (.failed, b)
  | .empty => (.ignored, b)
  | .located code slot address => writeCave symbols options b job.cave code slot address

def finishAll (symbols : Symbols) (options : Options) (b : Bench) :
    List CaveJob → List CaveOutcome × Bench
  | [] => ([], b)
  | job :: rest =>
    let (outcome, b) := finish symbols options b job
    let (outcomes, b) := finishAll symbols options b rest
    (outcome :: outcomes, b)

/-! ## Protection -/

/-- Gives a region the protection of its class. -/
def protectRegion (b : Bench) (region : CaveRegion) : Bench :=
  match b.memory.protect region.base region.access.protection with
  | (.ok _, memory) => b.withMemory memory
  | (.error e, memory) => (b.withMemory memory).say
      [.warn s!"Could not protect {region.access.name} cave memory: {e.message}"]

/-- Flushes a region that holds code. -/
def flushRegion (b : Bench) (region : CaveRegion) : Bench :=
  if region.access.protection.isExecutable then
    match b.memory.flush region.base with
    | (.ok (), memory) => b.withMemory memory
    | (.error e, memory) => (b.withMemory memory).say
        [.warn s!"Could not flush {region.access.name} cave memory: {e.message}"]
  else b

/-- Gives every region the protection of its class. -/
def protectAll (b : Bench) (regions : List CaveRegion) : Bench :=
  regions.foldl (fun b region => flushRegion (protectRegion b region) region) b

/-! ## The stage -/

/-- The report on caves with the given outcomes. -/
def reportOf (outcomes : List CaveOutcome) : StageReport where
  total := outcomes.length - outcomes.count .ignored
  applied := outcomes.count .applied
  failed := outcomes.count .failed
  ignored := outcomes.count .ignored

/-- Places, names and writes every cave. -/
def run (symbols : Symbols) (options : Options) (b : Bench) (caves : List Cave) : CaveStage :=
  if caves.isEmpty then ⟨{}, [], [], symbols, b⟩
  else
    let prepared := prepareAll symbols options [] caves
    let layout := CaveLayout.ofRequests (prepared.map request)
    let b := b.say (.info "Applying code caves..." :: prepared.flatMap prepareEvents ++
      (List.zipWith planEvents prepared layout.placements).flatten)
    let (regions, b) := allocateAll b layout.classSizes
    let (jobs, symbols, said) :=
      publishAll regions symbols (List.zipWith plan prepared layout.placements)
    let (outcomes, b) := finishAll symbols options (b.say said) jobs
    ⟨reportOf outcomes, regions, jobs.filterMap placedCave?, symbols, protectAll b regions⟩

end CaveStage
end CodePatch
