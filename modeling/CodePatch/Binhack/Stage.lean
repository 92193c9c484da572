/-
# Applying binary hacks

The second stage takes the entries in order and, in each entry, the addresses
in order.  Each write is whole or not made at all, and none depends on whether
those before it succeeded, other than through the bytes that they left behind.

An entry whose code is empty counts as ignored, and its pairs are taken out of
the total, but they keep their numbers.
-/
import CodePatch.Bench
import CodePatch.Binhack.Basic
import CodePatch.Code.Compile
import CodePatch.Code.Render

namespace CodePatch

/-- What became of an entry. -/
inductive BinhackOutcome where
  /-- To be ignored. -/
  | ignored
  /-- Without code, at so many addresses. -/
  | codeless (sites : Nat)
  /-- For each address, whether the code was written. -/
  | tried (written : List Bool)
deriving DecidableEq, Repr

namespace BinhackOutcome

def applied : BinhackOutcome → Nat
  | .tried written => written.count true
  | .ignored | .codeless _ => 0

def failed : BinhackOutcome → Nat
  | .tried written => written.count false
  | .ignored | .codeless _ => 0

/-- The number of pairs that are taken out of the total. -/
def withdrawn : BinhackOutcome → Nat
  | .codeless sites => sites
  | .ignored | .tried _ => 0

/-- Does the entry count as ignored? -/
def isIgnored : BinhackOutcome → Bool
  | .ignored | .codeless _ => true
  | .tried _ => false

end BinhackOutcome

namespace BinhackStage

/-! ## One address -/

/-- What is said where expected and new code differ in size. -/
def differentSizes (address : UInt32) : Event :=
  .warn ("Different sizes for expected and new code at " ++ Text.address address ++
    ", skipping verification")

/-- The bytes expected at an address where `size` new ones go; `none` if they
are not to be verified. -/
def expectedBytes (scope : Scope) (expected : Option Code) (address : UInt32) (size : Nat) :
    Reported PatchError (Option (List UInt8)) :=
  match expected with
  | none => (.ok none, [])
  | some code =>
    if code.size scope.options ≠ size then
      (.ok none, [differentSizes address])
    else
      let rendered := code.render scope address
      (rendered.1.map some, rendered.2)

/-- Writes code to an address. -/
def write (s : Setting) (b : Bench) (code : Code) (expected : Option Code) (address : UInt32) :
    Except PatchError Unit × Bench :=
  let scope := s.scope b.memory
  match code.render scope address with
  | (.error e, said) => (.error e, b.say said)
  | (.ok new, said) =>
    match expectedBytes scope expected address new.length with
    | (.error e, more) => (.error e, b.say (said ++ more))
    | (.ok old, more) =>
      let (result, b) := (b.say (said ++ more)).patch address old new
      (result.mapError .memory, b)

/-- What is said about writing to an address. -/
def writeEvent (place label : String) (address : UInt32) : Except PatchError Unit → Event
  | .ok () => .info s!"{place} {Text.address address} {label}... OK"
  | .error (.memory (.expectedMismatch _)) =>
    .warn s!"{place} {Text.address address} {label}... expected bytes not matched, skipping"
  | .error e => .error s!"{place} {Text.address address} {label}... {e.message}"

/-- Writes code to the address that `target` stands for, and tells whether that
was done. -/
def applyAt (s : Setting) (b : Bench) (label : String) (code : Code) (expected : Option Code)
    (index : Nat) (target : TargetAddress) : Bool × Bench :=
  match target.resolve (s.scope b.memory) with
  | .error e => (false, b.say [.error s!"{s.place index} {label}: {e.message}"])
  | .ok address =>
    if address = 0 then
      (false, b.say [.warn s!"{s.place index} {label}: address resolved to zero, skipping"])
    else
      let (result, b) := write s b code expected address
      (result.toBool, b.say [writeEvent (s.place index) label address result])

/-- Writes code to addresses, the first of which has the given number. -/
def applyEach (s : Setting) (b : Bench) (label : String) (code : Code) (expected : Option Code)
    (index : Nat) : List TargetAddress → List Bool × Bench
  | [] => ([], b)
  | target :: rest =>
    let (written, b) := applyAt s b label code expected index target
    let (later, b) := applyEach s b label code expected (index + 1) rest
    (written :: later, b)

/-! ## One entry -/

/-- The compiled code that an entry expects, as far as it compiles. -/
def compileExpected (label : String) (expected : Option String) : Option Code × Journal :=
  match expected.mapM Code.compile with
  | .ok code => (code, [])
  | .error e =>
    (none, [.warn s!"Binhack {label}: bad expected code, skipping verification: {e.message}"])

/-- Applies an entry whose first address has the given number. -/
def applyEntry (s : Setting) (b : Bench) (index : Nat) (hack : Binhack) : BinhackOutcome × Bench :=
  if hack.ignore then (.ignored, b)
  else
    match Code.compile hack.code with
    | .error e =>
      (.tried (List.replicate hack.addresses.length false),
        b.say [.error s!"Binhack {hack.label}: {e.message}"])
    | .ok code =>
      if code.isEmpty then
        (.codeless hack.addresses.length, b.say [.warn s!"Binhack {hack.label}: no code, skipping"])
      else
        let (expected, said) := compileExpected hack.label hack.expected
        let (written, b) := applyEach s (b.say said) hack.label code expected index hack.addresses
        (.tried written, b)

/-- The number of the first address behind an entry. -/
def next (index : Nat) (hack : Binhack) : Nat :=
  if hack.ignore then index else index + hack.addresses.length

def applyEntries (s : Setting) (b : Bench) (index : Nat) :
    List Binhack → List BinhackOutcome × Bench
  | [] => ([], b)
  | hack :: rest =>
    let (outcome, b) := applyEntry s b index hack
    let (later, b) := applyEntries s b (next index hack) rest
    (outcome :: later, b)

/-! ## The stage -/

/-- The report on `total` pairs whose entries had the given outcomes. -/
def reportOf (total : Nat) (outcomes : List BinhackOutcome) : StageReport where
  total := total - (outcomes.map BinhackOutcome.withdrawn).foldr (· + ·) 0
  applied := (outcomes.map BinhackOutcome.applied).foldr (· + ·) 0
  failed := (outcomes.map BinhackOutcome.failed).foldr (· + ·) 0
  ignored := outcomes.countP BinhackOutcome.isIgnored

/-- Applies every entry. -/
def run (symbols : Symbols) (options : Options) (b : Bench) (hacks : List Binhack) :
    StageReport × Bench :=
  let total := Binhack.sites hacks
  if total = 0 then ({}, b.say [.info "No binary hacks to apply."])
  else
    let (outcomes, b) :=
      applyEntries ⟨symbols, options, total⟩ (b.say [.info "Applying binary hacks..."]) 1 hacks
    (reportOf total outcomes, b)

end BinhackStage
end CodePatch
