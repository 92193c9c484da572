/-
# Installing breakpoints

The third stage puts the admitted sites in place.  One range of memory is
allocated for the batch: an entry stub for each size of arguments that is
dropped, and behind the stubs a slot for each site.  The range is written as a
whole and made executable before any redirect to it is written, and a site is
armed only after its redirect is in place, so a thread that runs into the
middle of it always finds code that does what the replaced bytes did.

A failure leaves behind what is in place already.  None of it can be reached
from a site that is not armed, short of one whose redirect is written and could
not be flushed.
-/
import CodePatch.Breakpoint.Admission
import CodePatch.Breakpoint.Table
import CodePatch.Code.Compile
import CodePatch.Code.Render

namespace CodePatch

/-- The memory of a batch and its table. -/
structure BreakpointArea where
  base : UInt32
  size : Nat
  /-- The number of entry stubs that the area starts with. -/
  stubs : Nat
  table : BreakpointTable

/-- The result of the stage. -/
structure BreakpointStage where
  report : StageReport
  sites : List BreakpointSite := []
  /-- The area of the batch, if it could be allocated. -/
  area : Option BreakpointArea := none

namespace BreakpointStage

open MachineCode (stubLength)

/-! ## The area of a batch -/

/-- Puts a number into a list of increasing numbers, once. -/
def insertClear (clear : UInt16) : List UInt16 → List UInt16
  | [] => [clear]
  | first :: rest =>
    if clear < first then clear :: first :: rest
    else if clear = first then first :: rest
    else first :: insertClear clear rest

/-- The sizes of arguments that the sites drop, increasing. -/
def stackClears (sites : List Site) : List UInt16 :=
  sites.foldl (fun clears site => insertClear site.breakpoint.stackClear clears) []

/-- The size of the area for `sites` sites with `stubs` different stubs. -/
def areaSize (stubs sites : Nat) : Nat :=
  stubs * stubLength + sites * slotLength

/-- The entry stub of a site. -/
def stubAddress (base : UInt32) (clears : List UInt16) (site : Site) : UInt32 :=
  base + UInt32.ofNat (clears.idxOf site.breakpoint.stackClear * stubLength)

/-- The slot of the site with the given number. -/
def slotAddress (base : UInt32) (stubs index : Nat) : UInt32 :=
  base + UInt32.ofNat (stubs * stubLength + index * slotLength)

/-- Copies the bytes of the site with the given number.  Returns the site, the
bytes of its slot, and the bench. -/
def relocate (base : UInt32) (clears : List UInt16) (b : Bench) (index : Nat) (site : Site) :
    Site × List UInt8 × Bench :=
  let slot := slotAddress base clears.length index
  let site := { site with stub := stubAddress base clears site }
  match b.memory.readBytes site.address site.breakpoint.caveSize with
  | (.ok replaced, memory) =>
    ({ site with slot := some slot, state := .relocated },
      MachineCode.relocatedSlot replaced site.address slot, b.withMemory memory)
  | (.error e, memory) =>
    (site, MachineCode.padded slotLength [],
      (b.withMemory memory).say [.error s!"{site.label}: {e.message}"])

/-- Copies the bytes of sites, the first of which has the given number. -/
def relocateAll (base : UInt32) (clears : List UInt16) (b : Bench) (index : Nat) :
    List Site → List Site × List UInt8 × Bench
  | [] => ([], [], b)
  | site :: rest =>
    let (site, bytes, b) := relocate base clears b index site
    let (sites, more, b) := relocateAll base clears b (index + 1) rest
    (site :: sites, bytes ++ more, b)

/-- The entry stubs, the first of which lies at `base`. -/
def stubBytes (table dispatcher base : UInt32) : List UInt16 → List UInt8
  | [] => []
  | clear :: rest =>
    MachineCode.entryStub base table dispatcher clear ++
      stubBytes table dispatcher (base + UInt32.ofNat stubLength) rest

/-- What the table says of a site, if the site has a slot. -/
def entryOf? (site : Site) : Option TableEntry :=
  site.slot.map fun slot => {
    address := site.address
    slot
    name := site.breakpoint.name
    config := site.breakpoint.config
    handler := site.handler }

/-- The table of the sites that have a slot. -/
def tableOf (symbols : Symbols) (options : Options) (sites : List Site) : BreakpointTable :=
  BreakpointTable.ofEntries symbols options (sites.filterMap entryOf?)

/-- Writes the area and makes it executable. -/
def writeArea (b : Bench) (base : UInt32) (image : List UInt8) : Except MemoryError Unit × Bench :=
  match b.patch base none image with
  | (.error e, b) => (.error e, b)
  | (.ok (), b) =>
    match b.memory.protect base .executeRead with
    | (.error e, memory) => (.error e, b.withMemory memory)
    | (.ok _, memory) => ((memory.flush base).1, b.withMemory (memory.flush base).2)

/-! ## Redirects -/

/-- The bytes that a site expects at its address; `none` if they are not to be
verified. -/
def expectedBytes (scope : Scope) (site : Site) : Option (List UInt8) × Journal :=
  let name := site.breakpoint.name
  let unverified (why : String) : Event := .warn s!"{name}: {why}"
  let invalid (text : String) : Event :=
    unverified s!"invalid expected string, skipping verification: {text}"
  match site.breakpoint.expected.mapM Code.compile with
  | .error e => (none, [invalid e.message])
  | .ok none => (none, [])
  | .ok (some code) =>
    if code.size scope.options ≠ site.breakpoint.caveSize then
      (none, [unverified
        s!"expected code is not {site.breakpoint.caveSize} bytes, skipping verification"])
    else
      match code.render scope site.address with
      | (.ok bytes, said) => (some bytes, said)
      | (.error e, said) => (none, said ++ [invalid e.message])

/-- Writes the redirect of a site. -/
def writeRedirect (symbols : Symbols) (options : Options) (b : Bench) (site : Site) :
    Except MemoryError Unit × Bench :=
  let (expected, said) := expectedBytes (Scope.ofPatch symbols options b.memory) site
  (b.say said).patch site.address expected
    (MachineCode.redirect site.address site.stub site.breakpoint.caveSize)

/-- What is said about a redirect. -/
def redirectEvents (site : Site) : Except MemoryError Unit → Journal
  | .ok () => []
  | .error (.expectedMismatch _) =>
    [.warn s!"{site.label}: expected bytes not matched, skipping"]
  | .error e => [.error s!"{site.label}: {e.message}"]

/-- Arms a site whose redirect is written. -/
def armSite (table : BreakpointTable) (site : Site) : Site × BreakpointTable :=
  let (found, table) := table.arm site.address
  ({ site with state := if found then .armed else .redirectInstalled }, table)

/-- Writes the redirect of a site whose bytes are copied, and arms it. -/
def connect (table : BreakpointTable) (b : Bench) (site : Site) : Site × BreakpointTable × Bench :=
  if site.state = .relocated then
    let (result, b) := writeRedirect table.symbols table.options b site
    let b := b.say (redirectEvents site result)
    match result with
    | .ok () =>
      let (site, table) := armSite table site
      (site, table, b)
    | .error _ => (site, table, b)
  else (site, table, b)

def connectAll (table : BreakpointTable) (b : Bench) :
    List Site → List Site × BreakpointTable × Bench
  | [] => ([], table, b)
  | site :: rest =>
    let (site, table, b) := connect table b site
    let (sites, table, b) := connectAll table b rest
    (site :: sites, table, b)

/-! ## The stage -/

/-- The report on sites in their last states, of `total` with `failed` refused
and `ignored` entries. -/
def reportOf (total failed ignored : Nat) (sites : List Site) : StageReport where
  total
  applied := sites.countP (·.state = .armed)
  failed := failed + sites.countP (·.state ≠ .armed)
  ignored

/-- Writes the area at `base` and the redirects to it. -/
def installAt (symbols : Symbols) (options : Options) (table : UInt32) (base : UInt32)
    (sites : List Site) (b : Bench) : List Site × BreakpointArea × Bench :=
  let clears := stackClears sites
  let (sites, slots, b) := relocateAll base clears b 0 sites
  let entries := tableOf symbols options sites
  let area : BreakpointArea := ⟨base, areaSize clears.length sites.length, clears.length, entries⟩
  match writeArea b base (stubBytes table b.memory.dispatcher base clears ++ slots) with
  | (.error e, b) => (sites, area, b.say [.error s!"Could not write breakpoint slots: {e.message}"])
  | (.ok (), b) =>
    let (sites, entries, b) := connectAll entries b sites
    (sites, { area with table := entries }, b)

/-- Installs admitted sites.  `table` is the number that entry stubs pass to
the dispatcher. -/
def install (symbols : Symbols) (options : Options) (table : UInt32) (sites : List Site)
    (b : Bench) : List Site × Option BreakpointArea × Bench :=
  if sites.isEmpty then ([], none, b.say [.info "No valid breakpoints to render."])
  else
    match b.memory.allocate (areaSize (stackClears sites).length sites.length) .readWrite with
    | (.error e, memory) =>
      (sites, none, (b.withMemory memory).say
        [.error s!"Could not allocate breakpoint slots: {e.message}"])
    | (.ok base, memory) =>
      let b := (b.withMemory memory).say
        [.info s!"Rendering breakpoints... (slots at {Text.address base})"]
      let (sites, area, b) := installAt symbols options table base sites b
      (sites, some area, b)

/-- Admits and installs breakpoints.  Returns the name of the handler for want
of which the run is given up, if it is, and the state of whoever resolves
handlers. -/
def run {σ : Type} (symbols : Symbols) (options : Options) (table : UInt32) (resolve : Resolver σ)
    (resolver : σ) (b : Bench) (breakpoints : List Breakpoint) :
    Except String BreakpointStage × σ × Bench :=
  let total := Breakpoint.sites breakpoints
  if total = 0 then
    (.ok { report := {} }, resolver, b.say [.info "No breakpoints to set up."])
  else
    let start : Admission σ := { resolver, bench := b.say [.info "Setting up breakpoints..."] }
    match Admission.admitAll ⟨symbols, options, total⟩ resolve start 1 breakpoints with
    | (some name, a) => (.error name, a.resolver, a.bench)
    | (none, a) =>
      let (sites, area, b) := install symbols options table a.sites a.bench
      (.ok {
        report := reportOf total a.failed a.ignored sites
        sites := sites.map Site.summary
        area }, a.resolver, b)

end BreakpointStage
end CodePatch
