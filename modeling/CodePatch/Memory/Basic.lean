/-
# Memory

The address space that is patched: mapped ranges with their contents, the
functions that other modules export, and the next free address for new
ranges.  It is a plain value; every access returns the memory after it, also
when it fails, since a failed access uses up its place in the fault plan.

A range has one protection, and changing it anywhere in the range changes all
of it.  An address belongs to the range with the greatest base at or below it
and to no other, even where ranges were mapped over each other.

The accesses `readBytes`, `query`, `protect`, `write`, `allocate` and `flush`
consult the fault plan and then do what the plain functions beside them say:
`bytesAt`, `regionAt`, `protectedAt`, `writtenAt`, `allocated`.  Nothing in
this file puts a write access in place for a write; that is `Memory.patch`.
-/
import CodePatch.Memory.Region
import CodePatch.Memory.Error
import CodePatch.Memory.Faults

namespace CodePatch

/-- A mapped range with its contents: `byte i` is the byte at `base + i`. -/
structure Mapping where
  base : UInt32
  size : Nat
  protection : Protection
  byte : Nat → UInt8

namespace Mapping

def region (m : Mapping) : Region :=
  ⟨m.base, m.size, m.protection⟩

/-- A range that holds `bytes`. -/
def ofBytes (base : UInt32) (bytes : List UInt8) (protection : Protection) : Mapping :=
  let image := bytes.toArray
  ⟨base, bytes.length, protection, fun i => image.getD i 0⟩

/-- A range that holds `size` times `fill`. -/
def filled (base : UInt32) (size : Nat) (fill : UInt8) (protection : Protection) : Mapping :=
  ⟨base, size, protection, fun _ => fill⟩

/-- Does `address` lie below the end of the range? -/
def reaches (m : Mapping) (address : UInt32) : Bool :=
  address.toNat < m.base.toNat + m.size

/-- The `size` bytes from offset `start` on. -/
def slice (m : Mapping) (start size : Nat) : List UInt8 :=
  (List.range size).map fun i => m.byte (start + i)

/-- `old` with `image` laid over it from offset `start` on. -/
def overlay (old : Nat → UInt8) (start : Nat) (image : Array UInt8) (i : Nat) : UInt8 :=
  if start ≤ i then image.getD (i - start) (old i) else old i

/-- The range with `bytes` written from offset `start` on. -/
def written (m : Mapping) (start : Nat) (bytes : List UInt8) : Mapping :=
  { m with byte := overlay m.byte start bytes.toArray }

end Mapping

/-- An exported function: module in lower case, name, address. -/
structure ModuleExport where
  module : String
  function : String
  address : UInt32
deriving DecidableEq, Repr

/-- An address space. -/
structure Memory where
  /-- The mapped ranges, by increasing base. -/
  mappings : List Mapping := []
  /-- Where the next allocation goes. -/
  nextAllocation : UInt32 := 0x10000000
  /-- Where the main module is loaded. -/
  moduleBase : UInt32 := 0x400000
  /-- The routine that entry stubs call. -/
  dispatcher : UInt32 := 0x7FF00000
  exports : List ModuleExport := []
  /-- The number of writes made. -/
  writes : Nat := 0
  faults : FaultPlan := {}

instance : Inhabited Memory := ⟨{}⟩

/-- Allocations are made in whole pages of this size. -/
def pageSize : Nat := 0x1000

namespace Memory

/-! ## The map -/

/-- The mapped ranges, described. -/
def regions (m : Memory) : List Region :=
  m.mappings.map Mapping.region

/-- The range that `address` belongs to. -/
def mappingAt? (m : Memory) (address : UInt32) : Option Mapping :=
  (m.mappings.filter (·.base ≤ address)).getLast?.filter (·.reaches address)

/-- `mappings` with `new` put in its place; a range with the same base is
replaced. -/
def insertMapping (new : Mapping) : List Mapping → List Mapping
  | [] => [new]
  | old :: rest =>
    if new.base < old.base then new :: old :: rest
    else if new.base = old.base then new :: rest
    else old :: insertMapping new rest

/-- The memory with a range mapped. -/
def map (m : Memory) (new : Mapping) : Memory :=
  { m with mappings := insertMapping new m.mappings }

/-- The memory with the range based at `base` changed by `f`. -/
def modifyMapping (m : Memory) (base : UInt32) (f : Mapping → Mapping) : Memory :=
  { m with mappings := m.mappings.map fun old => if old.base = base then f old else old }

/-- The address of an exported function.  The module's name is compared without
regard to case, the function's as it stands. -/
def exportAddress? (m : Memory) (module function : String) : Option UInt32 :=
  (m.exports.reverse.find? fun e =>
    e.module == String.ofList (module.toList.map Char.toLower) && e.function == function).map
      (·.address)

/-- The memory with an exported function more; a later export of the same name
wins. -/
def addExport (m : Memory) (module function : String) (address : UInt32) : Memory :=
  { m with exports := m.exports ++
      [⟨String.ofList (module.toList.map Char.toLower), function, address⟩] }

/-! ## What an access does if no fault is planned -/

/-- The `size` bytes from `address` on. -/
def bytesAt (m : Memory) (address : UInt32) (size : Nat) : Except MemoryError (List UInt8) :=
  match m.mappingAt? address with
  | none => .error (.readFailed address .notMapped)
  | some r =>
    if r.protection = .noAccess then .error (.readFailed address .notAccessible)
    else if (address - r.base).toNat + size ≤ r.size then
      .ok (r.slice (address - r.base).toNat size)
    else .error (.readFailed address .readPastEnd)

/-- The region that `address` belongs to. -/
def regionAt (m : Memory) (address : UInt32) : Except MemoryError Region :=
  match m.mappingAt? address with
  | none => .error (.readFailed address .notMapped)
  | some r => .ok r.region

/-- Changes the protection of the range that `address` belongs to, and returns
the one before. -/
def protectedAt (m : Memory) (address : UInt32) (protection : Protection) :
    Except MemoryError Protection × Memory :=
  match m.mappingAt? address with
  | none => (.error (.protectFailed address .notMapped), m)
  | some r => (.ok r.protection, m.modifyMapping r.base fun old => { old with protection })

/-- Writes `bytes` from `address` on, within one writable range. -/
def writtenAt (m : Memory) (address : UInt32) (bytes : List UInt8) :
    Except MemoryError Unit × Memory :=
  match m.mappingAt? address with
  | none => (.error (.writeFailed address .notMapped), m)
  | some r =>
    if !r.protection.isWritable then (.error (.writeFailed address .notWritable), m)
    else if r.size < (address - r.base).toNat + bytes.length then
      (.error (.writeFailed address .writePastEnd), m)
    else
      (.ok (), { m.modifyMapping r.base (·.written (address - r.base).toNat bytes) with
        writes := m.writes + 1 })

/-- The number of pages that hold `size` bytes. -/
def pagesFor (size : Nat) : Nat :=
  (size + (pageSize - 1)) / pageSize

/-- `size` rounded up to whole pages. -/
def roundToPages (size : Nat) : Nat :=
  pagesFor size * pageSize

/-- The address behind `size` bytes in whole pages from `base` on, as a 64-bit
count. -/
def allocationEnd (base : UInt32) (size : Nat) : Except Overflow Nat := do
  Count.add base.toNat (← Count.multiply (pagesFor size) pageSize)

/-- Maps a new range of zeros, in whole pages, at the next free address. -/
def allocated (m : Memory) (size : Nat) (protection : Protection) :
    Except MemoryError UInt32 × Memory :=
  if size = 0 then (.error (.allocationFailed size .emptyAllocation), m)
  else
    match allocationEnd m.nextAllocation size with
    | .error kind => (.error (.overflow kind), m)
    | .ok next =>
      if UInt32.size ≤ next then (.error (.allocationFailed size .exhausted), m)
      else
        (.ok m.nextAllocation,
          { m.map (.filled m.nextAllocation (roundToPages size) 0 protection) with
            nextAllocation := UInt32.ofNat next })

/-! ## Accesses -/

/-- Is the next access of this kind planned to fail? -/
def fails (m : Memory) (access : Access) : Bool :=
  m.faults.failsAfter access 0

/-- The memory once `count` accesses of one kind are made. -/
def spend (m : Memory) (access : Access) (count : Nat) : Memory :=
  { m with faults := m.faults.advance access count }

def readBytes (m : Memory) (address : UInt32) (size : Nat) :
    Except MemoryError (List UInt8) × Memory :=
  (if m.fails .read then .error (.readFailed address .injected) else m.bytesAt address size,
    m.spend .read 1)

/-- What reading returns once `count` other reads are made. -/
def readAfter (m : Memory) (count : Nat) (address : UInt32) (size : Nat) :
    Except MemoryError (List UInt8) :=
  if m.faults.failsAfter .read count then .error (.readFailed address .injected)
  else m.bytesAt address size

def query (m : Memory) (address : UInt32) : Except MemoryError Region × Memory :=
  (if m.fails .query then .error (.readFailed address .injected) else m.regionAt address,
    m.spend .query 1)

/-- Changes the protection around `address`; the length of the range asked for
does not matter. -/
def protect (m : Memory) (address : UInt32) (protection : Protection) :
    Except MemoryError Protection × Memory :=
  if m.fails .protect then (.error (.protectFailed address .injected), m.spend .protect 1)
  else (m.spend .protect 1).protectedAt address protection

def write (m : Memory) (address : UInt32) (bytes : List UInt8) : Except MemoryError Unit × Memory :=
  if m.fails .write then (.error (.writeFailed address .injected), m.spend .write 1)
  else (m.spend .write 1).writtenAt address bytes

def allocate (m : Memory) (size : Nat) (protection : Protection) :
    Except MemoryError UInt32 × Memory :=
  if m.fails .allocate then (.error (.allocationFailed size .injected), m.spend .allocate 1)
  else (m.spend .allocate 1).allocated size protection

/-- Makes freshly written code visible to whoever fetches instructions. -/
def flush (m : Memory) (address : UInt32) : Except MemoryError Unit × Memory :=
  (if m.fails .flush then .error (.writeFailed address .injected) else .ok (), m.spend .flush 1)

/-- Are `length` bytes from `address` on mapped and accessible? -/
def checkRegion (m : Memory) (address : UInt32) (length : Nat) :
    Except Overflow Bool × Memory :=
  (match (m.query address).1 with
    | .ok region => region.covers address length
    | .error _ => .ok false,
    (m.query address).2)

end Memory
end CodePatch
