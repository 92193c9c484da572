/-
# Hits

What a handler sees when its breakpoint is reached: the registers of the
interrupted code, which it may change, the entry of the breakpoint, and the
memory.  Fields of the entry may be expressions, evaluated with the registers
of the hit; a field may also name a register, or a place in memory in brackets,
as in `[ebp-8]`.

Looking something up may read memory and may leave something in the journal,
so a look-up returns the hit after it beside its result.
-/
import CodePatch.Bench
import CodePatch.Breakpoint.Basic

namespace CodePatch

/-- Where execution goes on after a hit. -/
inductive Resume where
  /-- With the code that the breakpoint replaced. -/
  | cave
  /-- At the return address that the handler left. -/
  | override
deriving DecidableEq, Repr

/-- What a handler can read or write. -/
inductive ValueLocation where
  | register (register : Register)
  | memory (address : UInt32)
deriving DecidableEq, Repr

/-- Something that a handler puts down about its hit. -/
inductive Note where
  | arrived (name : String) (address : UInt32)
  | word (value : Option UInt32)
  | location (value : Option ValueLocation)
  | value (value : Option PatchValue)
  | config (value : Option Json)
  | read (bytes : Except MemoryError (List UInt8))
  | flag (value : Bool)
  | done

/-- A hit of a breakpoint. -/
structure Hit where
  name : String
  address : UInt32
  registers : Registers
  /-- The entry of the breakpoint. -/
  config : Json
  symbols : Symbols
  options : Options
  bench : Bench
  /-- What the handler put down, the earliest first. -/
  notes : List Note := []

/-- What is called on a hit. -/
abbrev Handler := Hit → Resume × Hit

namespace Hit

def say (hit : Hit) (events : Journal) : Hit :=
  { hit with bench := hit.bench.say events }

def put (hit : Hit) (note : Note) : Hit :=
  { hit with notes := hit.notes ++ [note] }

/-- The hit once memory was read `count` times. -/
def spend (hit : Hit) (count : Nat) : Hit :=
  { hit with bench := hit.bench.withMemory (hit.bench.memory.spend .read count) }

/-- What the expressions of the entry can refer to. -/
def scope (hit : Hit) : Scope :=
  (Scope.ofPatch hit.symbols hit.options hit.bench.memory).withRegisters hit.registers

/-- A field of the entry. -/
def field? (hit : Hit) (key : String) : Option Json :=
  hit.config.field? key

/-- A field of the entry that is a text, without blanks around it. -/
def text? (hit : Hit) (key : String) : Option (List Char) :=
  (hit.field? key).bind fun value => value.string?.map fun text => Text.trim text.toList

/-- What is said about a field: its name stands in front. -/
def about (hit : Hit) (key text : String) : String :=
  s!"{hit.name}: '{key}'{text}"

/-! ## Numbers -/

/-- The integer part of a double as a word, or the nearest word. -/
def nearestWord (bits : UInt64) : UInt32 :=
  UInt32.ofNat (min (BinaryFloat.truncate64 64 bits).toNat (UInt32.size - 1))

/-- A number as a word: an integer of the signed 64-bit range is cut, any other
number is the nearest word. -/
def wordOf (n : Json.Number) : UInt32 :=
  match n.signed? with
  | some value => UInt32.ofInt value
  | none => nearestWord n.double

/-- The value of field `key` as a word; a text is evaluated. -/
def immediate (hit : Hit) (key : String) : Option UInt32 × Hit :=
  match hit.field? key with
  | none => (none, hit)
  | some .null => (some 0, hit)
  | some (.bool b) => (some (if b then 1 else 0), hit)
  | some (.number n) => (some (wordOf n), hit)
  | some (.string text) =>
    let (value, events, reads) := Expression.evaluateOrZero hit.scope text.toList
    (some value, (hit.spend reads).say events)
  | some (.array _) | some (.object _) =>
    (none, hit.say [.warn (hit.about key " must not be an array or object")])

/-! ## Locations -/

/-- The register that field `key` names. -/
def register? (hit : Hit) (key : String) : Option Register :=
  (hit.text? key).bind Register.ofName?

/-- What is said about text behind a bracket that closes a place in memory. -/
def leftoverEvents (hit : Hit) (rest : List Char) : Journal :=
  if (Text.trim rest).isEmpty then []
  else [.warn s!"{hit.name}: leftover bytes after dereference: '{String.ofList rest}'"]

/-- The place in memory whose bracket opens before `inner`. -/
def dereference (hit : Hit) (key : String) (inner : List Char) : Option ValueLocation × Hit :=
  match Expression.evaluateCounting hit.scope inner (some ']') with
  | (.ok evaluation, reads) =>
    let rest := inner.drop ((Expression.window (some ']') inner).length + 1)
    (some (.memory evaluation.value), (hit.spend reads).say (hit.leftoverEvents rest))
  | (.error e, reads) =>
    (none, (hit.spend reads).say [.error (hit.about key s!": {e.message}")])

/-- The location that field `key` names. -/
def pointer (hit : Hit) (key : String) : Option ValueLocation × Hit :=
  match hit.text? key with
  | none => (none, hit)
  | some text =>
    match Register.ofName? text with
    | some register => (some (.register register), hit)
    | none =>
      match text with
      | '[' :: inner => hit.dereference key inner
      | _ => (none, hit.say [.error (hit.about key " is neither a register nor a dereference")])

/-- Reads memory. -/
def read (hit : Hit) (address : UInt32) (size : Nat) : Except MemoryError (List UInt8) × Hit :=
  let (bytes, memory) := hit.bench.memory.readBytes address size
  (bytes, { hit with bench := hit.bench.withMemory memory })

/-- The value at the location that field `key` names. -/
def typed (hit : Hit) (key : String) (width : ValueWidth) : Option PatchValue × Hit :=
  match hit.pointer key with
  | (none, hit) => (none, hit)
  | (some (.register register), hit) =>
    (some (width.decode (wordBytes (hit.registers.get register))), hit)
  | (some (.memory address), hit) =>
    match hit.read address width.size with
    | (.ok bytes, hit) => (some (width.decode bytes), hit)
    | (.error e, hit) => (none, hit.say [.error (hit.about key s!": {e.message}")])

/-! ## Going on -/

/-- Is the replaced code to run?  It is, unless field `cave_exec` is zero. -/
def runsCave (hit : Hit) : Bool × Hit :=
  let (value, hit) := hit.immediate "cave_exec"
  (value.all (· ≠ 0), hit)

/-- Where execution goes on if the handler has no say in it. -/
def defaultResume (hit : Hit) : Resume × Hit :=
  let (runs, hit) := hit.runsCave
  (if runs then .cave else .override, hit)

end Hit
end CodePatch
