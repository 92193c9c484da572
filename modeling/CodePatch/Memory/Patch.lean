/-
# Patching memory

`Memory.patch` is the one way in which code and data are changed: it checks
that the bytes lie in one accessible region, grants write access, compares
with the bytes that are expected there if any, writes, and puts the protection
back on every path on which it changed it.  The old bytes are compared over
their own length, so expected and new bytes may differ in number; the region
has to hold the longer of the two.
-/
import CodePatch.Memory.Basic
import CodePatch.Journal

namespace CodePatch.Memory

/-- What became of an access that may have something to say. -/
structure Outcome (α : Type) where
  result : Except MemoryError α
  memory : Memory
  events : Journal := []

/-- Writes `new` unless other bytes than the expected ones are found. -/
def compareAndWrite (m : Memory) (address : UInt32) (expected : Option (List UInt8))
    (new : List UInt8) : Except MemoryError Unit × Memory :=
  match expected with
  | none => m.write address new
  | some old =>
    match (m.readBytes address old.length).1 with
    | .error e => (.error e, (m.readBytes address old.length).2)
    | .ok found =>
      if found = old then (m.readBytes address old.length).2.write address new
      else (.error (.expectedMismatch address), (m.readBytes address old.length).2)

/-- The number of bytes that a patch needs at its address. -/
def patchLength (expected : Option (List UInt8)) (new : List UInt8) : Nat :=
  max (expected.elim 0 List.length) new.length

/-- What is said when the protection before a patch could not be put back. -/
def restoreEvents (address : UInt32) : Except MemoryError Protection → Journal
  | .ok _ => []
  | .error e => [.warn s!"Could not restore protection at {Text.address address}: {e.message}"]

/-- The part of a patch during which memory is writable; `old` is the
protection to put back. -/
def patchWritable (m : Memory) (address : UInt32) (expected : Option (List UInt8))
    (new : List UInt8) (old : Protection) : Outcome Unit :=
  let change := m.compareAndWrite address expected new
  let restore := change.2.protect address old
  match change.1 with
  | .error e => ⟨.error e, restore.2, restoreEvents address restore.1⟩
  | .ok () =>
    if old.isExecutable then
      ⟨(restore.2.flush address).1, (restore.2.flush address).2, restoreEvents address restore.1⟩
    else ⟨.ok (), restore.2, restoreEvents address restore.1⟩

/-- Replaces the bytes at `address` by `new`, if they are the expected ones. -/
def patch (m : Memory) (address : UInt32) (expected : Option (List UInt8)) (new : List UInt8) :
    Outcome Unit :=
  match m.query address with
  | (.error e, m) => ⟨.error e, m, []⟩
  | (.ok region, m) =>
    match region.covers address (patchLength expected new) with
    | .error kind => ⟨.error (.overflow kind), m, []⟩
    | .ok false => ⟨.error (.unavailable address (patchLength expected new)), m, []⟩
    | .ok true =>
      match m.protect address region.protection.whilePatching with
      | (.error e, m) => ⟨.error e, m, []⟩
      | (.ok old, m) => m.patchWritable address expected new old

end CodePatch.Memory
