/-
# Admitting breakpoints

The first part of the breakpoint stage finds out which sites can be installed
at all, and changes nothing in memory.  A breakpoint needs a cave size in
range and a handler; a site needs an address other than zero, bytes that are
mapped, and none of them in common with a site that was admitted before.

Who resolves handlers has a state of its own, because it may ask questions.
It may end the whole run, which is why all handlers are resolved before
anything is written.
-/
import CodePatch.Breakpoint.Site

namespace CodePatch

/-- What is to be done about a breakpoint. -/
inductive Resolution where
  | handler (handler : Handler)
  /-- The breakpoint is left out. -/
  | skip
  /-- The run is given up for want of the named handler. -/
  | abort (name : String)

/-- Finds the handlers of breakpoints. -/
abbrev Resolver (σ : Type) := Breakpoint → σ → Resolution × σ × Journal

/-- The sites admitted so far. -/
structure Admission (σ : Type) where
  sites : List Site := []
  /-- The number of sites that are not admitted. -/
  failed : Nat := 0
  /-- The number of entries that are to be ignored. -/
  ignored : Nat := 0
  /-- The state of whoever resolves handlers. -/
  resolver : σ
  bench : Bench

namespace Admission

variable {σ : Type}

/-- The admission once something more is said. -/
def say (a : Admission σ) (events : Journal) : Admission σ :=
  { a with bench := a.bench.say events }

/-- The admission with `count` more sites that are not admitted. -/
def refuse (a : Admission σ) (count : Nat) (events : Journal) : Admission σ :=
  { a.say events with failed := a.failed + count }

/-- Admits the site of a breakpoint at an address, unless its bytes are taken or
not there.  A cave size in range is too small for the check to overflow. -/
def admitSite (s : Setting) (a : Admission σ) (bp : Breakpoint) (handler : Handler) (index : Nat)
    (address : UInt32) : Admission σ :=
  let start := s!"{s.place index} {Text.address address} {bp.name}..."
  match a.sites.find? (·.overlaps address bp.caveSize) with
  | some other =>
    a.refuse 1 [.warn s!"{start} overlaps breakpoint {other.breakpoint.name}, skipping"]
  | none =>
    let (there, memory) := a.bench.memory.checkRegion address bp.caveSize
    let a := { a with bench := a.bench.withMemory memory }
    match there with
    | .ok true =>
      { a.say [.info s!"{start} OK"] with
        sites := a.sites ++ [{ breakpoint := bp, handler, address }] }
    | _ => a.refuse 1 [.warn s!"{start} not enough source bytes, skipping"]

/-- Admits the site of a breakpoint at the address that `target` stands for. -/
def admitAt (s : Setting) (a : Admission σ) (bp : Breakpoint) (handler : Handler) (index : Nat)
    (target : TargetAddress) : Admission σ :=
  match target.resolve (s.scope a.bench.memory) with
  | .error e => a.refuse 1 [.error s!"{s.place index} {bp.name}: {e.message}"]
  | .ok address =>
    if address = 0 then
      a.refuse 1 [.warn s!"{s.place index} {bp.name}: address resolved to zero, skipping"]
    else admitSite s a bp handler index address

/-- Admits the sites of a breakpoint; the first address has the given number. -/
def admitEach (s : Setting) (a : Admission σ) (bp : Breakpoint) (handler : Handler) (index : Nat) :
    List TargetAddress → Admission σ
  | [] => a
  | target :: rest =>
    admitEach s (admitAt s a bp handler index target) bp handler (index + 1) rest

/-- Admits the sites of a breakpoint whose cave size is in range.  Returns the
name of the handler for want of which the run is given up, if it is. -/
def admitResolved (s : Setting) (resolve : Resolver σ) (a : Admission σ) (index : Nat)
    (bp : Breakpoint) : Option String × Admission σ :=
  let (resolution, resolver, said) := resolve bp a.resolver
  let a := { a.say said with resolver }
  match resolution with
  | .handler handler => (none, admitEach s a bp handler index bp.addresses)
  | .skip => (none, a.refuse bp.addresses.length [])
  | .abort name => (some name, a)

/-- Admits the sites of an entry whose first address has the given number. -/
def admitEntry (s : Setting) (resolve : Resolver σ) (a : Admission σ) (index : Nat)
    (bp : Breakpoint) : Option String × Admission σ :=
  if bp.ignore then (none, { a with ignored := a.ignored + 1 })
  else
    match bp.checkCaveSize with
    | .error e =>
      (none, a.refuse bp.addresses.length [.error s!"{s.place index} {bp.name}: {e.message}"])
    | .ok () => admitResolved s resolve a index bp

/-- The number of the first address behind an entry. -/
def next (index : Nat) (bp : Breakpoint) : Nat :=
  if bp.ignore then index else index + bp.addresses.length

/-- Admits the sites of all entries, up to the one where the run is given up. -/
def admitAll (s : Setting) (resolve : Resolver σ) (a : Admission σ) (index : Nat) :
    List Breakpoint → Option String × Admission σ
  | [] => (none, a)
  | bp :: rest =>
    match admitEntry s resolve a index bp with
    | (some name, a) => (some name, a)
    | (none, a) => admitAll s resolve a (next index bp) rest

end Admission
end CodePatch
