/-
# Running a command

A command is a function of the files that it reads and of what is typed on the
console.  Its outcome is what it prints, and what went wrong if something did.
The only questions that are ever asked are those about missing handlers; they
are part of what is printed.
-/
import CodePatch.CommandLine.Command
import CodePatch.CommandLine.Hexdump
import CodePatch.Engine.Basic

namespace CodePatch

/-- The contents of files; `none` for one that cannot be read. -/
abbrev Files := Path → Option (List UInt8)

/-- Why a command failed. -/
inductive CommandError where
  | unreadableImage (path : Path)
  | unreadableConfig (path : Path)
  | unknownRegister (name : String)
  | value (cause : ValueError)
  | failed (cause : PatchError)
  | overflow (kind : Overflow)
deriving Repr

def CommandError.message : CommandError → String
  | .unreadableImage path => s!"Failed to read image {path}"
  | .unreadableConfig path => s!"Failed to load configuration {path}"
  | .unknownRegister name => s!"Unknown register '{name}'"
  | .value cause => cause.message
  | .failed cause => cause.message
  | .overflow kind => kind.message

/-- The exit code of a command that fails; an overflow has one of its own. -/
def CommandError.exitCode : CommandError → UInt32
  | .overflow _ => 101
  | _ => 1

/-- What came of a command. -/
structure CommandOutcome where
  /-- What is printed. -/
  output : String
  /-- The number of questions asked on the console. -/
  questions : Nat := 0
  failure : Option CommandError := none
  /-- What happened while a configuration was applied. -/
  journal : Journal := []

namespace Command

/-! ## The simulated process -/

/-- The memory of a process with its image. -/
def memoryOf (files : Files) (target : Target) : Except CommandError Memory :=
  let mapped (image : Mapping) : Memory := Memory.map { moduleBase := target.base } image
  match target.image with
  | none =>
    .ok (mapped (.filled target.base target.imageSize.toNat MachineCode.nop .executeRead))
  | some path =>
    match files path with
    | none => .error (.unreadableImage path)
    | some bytes => .ok (mapped (.ofBytes target.base bytes .executeRead))

/-- The configuration in a file, or an empty one. -/
def configOf (files : Files) : Option Path → Except CommandError Config
  | none => .ok {}
  | some path =>
    match (Config.ofFile (files path)).1 with
    | .ok config => .ok config
    | .error (.overflow kind) => .error (.overflow kind)
    | .error _ => .error (.unreadableConfig path)

/-- An engine for a process, with the names that are bound. -/
def engineOf (memory : Memory) (target : Target) : Engine where
  memory
  symbols := (Symbols.bindAll {} target.symbols).2.1

/-- The engine with a handler for every breakpoint of a configuration that has
none yet; it only goes on as the entry says. -/
def addStubHandlers (e : Engine) (config : Config) : Engine :=
  config.breakpoints.foldl (fun e bp =>
    if (e.handlers.lookup bp.handlerName).isSome then e
    else { e with handlers := e.handlers.set bp.handlerName Engine.defaultHandler }) e

/-- The engine once a configuration is applied, of which only the effect is of
interest. -/
def applyQuietly (e : Engine) (config : Config) : Except CommandError Engine :=
  if config.isEmpty then .ok e
  else
    match (addStubHandlers e config).apply config with
    | (.ok _, e, _) => .ok e
    | (.error cause, _, _) => .error (.failed cause)

/-- The engine and the configuration that a command starts from. -/
def start (files : Files) (target : Target) (config : Option Path) :
    Except CommandError (Engine × Config) := do
  let memory ← memoryOf files target
  let config ← configOf files config
  let e ← applyQuietly (engineOf memory target) config
  return (e, config)

/-! ## Showing values, code and memory -/

/-- Registers that are zero but for the given ones. -/
def registersOf : Registers → List (String × UInt32) → Except CommandError Registers
  | registers, [] => .ok registers
  | registers, (name, value) :: rest =>
    match Register.ofName? name.toList with
    | none => .error (.unknownRegister name)
    | some r => registersOf (registers.set r value) rest

/-- What `eval` prints. -/
def evalLines (files : Files) (expression : String) (registers : List (String × UInt32))
    (config : Option Path) (target : Target) : Except CommandError (List String) := do
  let (e, config) ← start files target config
  let state ← registersOf {} registers
  let scope := Scope.ofPatch e.symbols config.options e.memory
  let scope := if registers.isEmpty then scope else scope.withRegisters state
  match Expression.evaluate scope expression.toList none with
  | .error cause => .error (.failed (.expression cause))
  | .ok ⟨value, _⟩ =>
    return [s!"{expression} = {Text.addressUpper value} ({value.toInt32}, unsigned {value})"]

/-- What `render` prints. -/
def renderLines (files : Files) (code : String) (address : UInt32) (config : Option Path)
    (target : Target) : Except CommandError (List String) := do
  let (e, config) ← start files target config
  let compiled ← (Code.compile code).mapError fun cause => .failed (.code cause)
  let scope := Scope.ofPatch e.symbols config.options e.memory
  let bytes ← (compiled.render scope address).1.mapError .failed
  return s!"{bytes.length} bytes at {Text.addressUpper address}:" :: "" ::
    Hexdump.lines address bytes false

/-- The first line of a listing. -/
def hexdumpTitle (e : Engine) (address : UInt32) (size : Nat) : String :=
  match e.locate address with
  | some location =>
    s!"Hexdump at {Text.addressUpper address} ({location.text}, {size} bytes):"
  | none => s!"Hexdump at {Text.addressUpper address} ({size} bytes):"

/-- What `hexdump` prints. -/
def hexdumpLines (files : Files) (address : UInt32) (size : Nat) (ascii : Bool)
    (config : Option Path) (target : Target) : Except CommandError (List String) := do
  let (e, _) ← start files target config
  let bytes ← (e.memory.readBytes address size).1.mapError fun cause => .failed (.memory cause)
  return hexdumpTitle e address size :: "" :: Hexdump.lines address bytes ascii

/-! ## Showing a distance -/

/-- The distance in a call or jump at `start` that reaches `finish`. -/
def branchDistance (start finish : UInt32) : UInt32 :=
  finish - (start + UInt32.ofNat callLength)

/-- The distance between two addresses, with its sign. -/
def distanceText (start finish : UInt32) : String :=
  let distance := ((finish.toNat : Int) - start.toNat)
  s!"{distance} (0x{Text.hexUpper distance.natAbs})"

/-- What `offset` prints. -/
def offsetLines (start finish : String) : Except CommandError (List String) := do
  let start ← (readAddress start).mapError .value
  let finish ← (readAddress finish).mapError .value
  let distance := branchDistance start finish
  let bytes := " ".intercalate ((wordBytes distance).map Text.byteUpper)
  return [s!"From: {Text.addressUpper start}", s!"To:   {Text.addressUpper finish}", "",
    s!"Offset: {distanceText start finish}",
    s!"rel32:  {Text.addressUpper distance} (E8/E9 {bytes})"]

/-! ## Applying a configuration -/

/-- A number as the report shows it. -/
def column (n : Nat) : String :=
  Text.padStart 3 ' ' (toString n)

def stageLine (name : String) (r : StageReport) : String :=
  s!"  {Text.padEnd 12 name} {column r.total} total, {column r.applied} applied, " ++
    s!"{column r.failed} failed, {column r.ignored} ignored"

def caveLine (cave : PlacedCave) : String :=
  s!"  {Text.addressUpper cave.address} {cave.name} ({cave.size} bytes, {cave.padded} reserved)"

def siteLine (site : BreakpointSite) : String :=
  let slot := site.slot.elim "-" Text.addressUpper
  s!"  {Text.addressUpper site.address} {site.name} slot {slot} {site.state.name}"

/-- Lines under a heading, if there are any. -/
def listing (heading : String) (lines : List String) : List String :=
  if lines.isEmpty then [] else "" :: heading :: lines

/-- The sites of all batches. -/
def sitesOf (e : Engine) : List BreakpointSite :=
  e.batches.flatMap (·.sites)

/-- The report on a run, in words. -/
def reportLines (e : Engine) (report : ApplyReport) : List String :=
  ["Result:", stageLine "codecaves" report.caves, stageLine "binhacks" report.binhacks,
    stageLine "breakpoints" report.breakpoints] ++
  listing "Code caves:" (e.caves.map caveLine) ++
  listing "Breakpoints:" ((sitesOf e).map siteLine) ++
  (if report.failed = 0 then []
    else ["", s!"{report.failed} hackpoints failed, see the log above"])

def natural (n : Nat) : Json :=
  .number (.integer n)

def stageJson (r : StageReport) : Json :=
  .object [("total", natural r.total), ("applied", natural r.applied),
    ("failed", natural r.failed), ("ignored", natural r.ignored)]

def caveJson (cave : PlacedCave) : Json :=
  .object [("name", .string cave.name), ("address", natural cave.address.toNat),
    ("size", natural cave.size), ("padded", natural cave.padded)]

def siteJson (site : BreakpointSite) : Json :=
  .object [("name", .string site.name), ("address", natural site.address.toNat),
    ("slot", site.slot.elim .null fun slot => natural slot.toNat),
    ("state", .string site.state.name)]

/-- The report on a run, as a document. -/
def reportJson (e : Engine) (report : ApplyReport) : Json :=
  .object [
    ("report", .object [("codecaves", stageJson report.caves),
      ("binhacks", stageJson report.binhacks), ("breakpoints", stageJson report.breakpoints)]),
    ("codecaves", .array (e.caves.map caveJson)),
    ("breakpoints", .array ((sitesOf e).map siteJson))]

/-! ## Outcomes -/

/-- The outcome of printing lines. -/
def printed : Except CommandError (List String) → CommandOutcome
  | .ok lines => { output := String.join (lines.map (· ++ "\n")) }
  | .error cause => { output := "", failure := some cause }

/-- The outcome behind a run that asked questions. -/
def behindRun (asked : List String) (journal : Journal) (outcome : CommandOutcome) :
    CommandOutcome :=
  { outcome with
    output := String.join (asked.map Prompter.question) ++ outcome.output
    questions := asked.length
    journal }

/-- The outcome of `apply`. -/
def applyOutcome (files : Files) (console : List String) (config : Path) (stubHandlers : Bool)
    (policy : SymbolPolicy) (json : Bool) (target : Target) : CommandOutcome :=
  let setting : Except CommandError (Memory × Config) := do
    let memory ← memoryOf files target
    let config ← configOf files (some config)
    return (memory, config)
  match setting with
  | .error cause => printed (.error cause)
  | .ok (memory, config) =>
    let prompter : Prompter := { answers := .console console }
    let e := { engineOf memory target with policy, prompter := some prompter }
    let (result, e, said) := (if stubHandlers then addStubHandlers e config else e).apply config
    behindRun (e.prompter.elim [] Prompter.asked) said <| printed <|
      match result with
      | .error cause => .error (.failed cause)
      | .ok report =>
        .ok (if json then [(reportJson e report).laidOut 0] else reportLines e report)

/-- What comes of a command. -/
def run (files : Files) (console : List String) : Command → CommandOutcome
  | .eval expression registers config target =>
    printed (evalLines files expression registers config target)
  | .render code address config target => printed (renderLines files code address config target)
  | .apply config stubHandlers policy json target =>
    applyOutcome files console config stubHandlers policy json target
  | .hexdump address size ascii config target =>
    printed (hexdumpLines files address size ascii config target)
  | .offset start finish => printed (offsetLines start finish)

end Command
end CodePatch
