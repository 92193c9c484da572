/-
# Stages

A configuration is applied in three stages: code caves, binary hacks,
breakpoints.  A stage works on a bench, which holds the memory as it is now and
the journal so far; what it does to one patch is one step from bench to bench.

A stage ends in a report.  Its total counts pairs of an entry and an address,
and every such pair is either applied or failed.  Entries that are to be
ignored, or that turn out to ask for nothing, are counted apart.  Where pairs
are spoken of, they are numbered from one on, over all entries that are not to
be ignored.
-/
import CodePatch.Error
import CodePatch.Expression.Scope
import CodePatch.Memory.Patch

namespace CodePatch

/-- The outcome of one stage. -/
structure StageReport where
  total : Nat := 0
  applied : Nat := 0
  failed : Nat := 0
  ignored : Nat := 0
deriving DecidableEq, Repr, Inhabited

/-- What a stage works on. -/
structure Bench where
  memory : Memory
  journal : Journal := []

namespace Bench

/-- The bench once something more is said. -/
def say (b : Bench) (events : Journal) : Bench :=
  { b with journal := b.journal ++ events }

/-- The bench with the memory after an access. -/
def withMemory (b : Bench) (memory : Memory) : Bench :=
  { b with memory }

/-- Patches the memory on the bench. -/
def patch (b : Bench) (address : UInt32) (expected : Option (List UInt8)) (new : List UInt8) :
    Except MemoryError Unit × Bench :=
  let outcome := b.memory.patch address expected new
  (outcome.result, (b.withMemory outcome.memory).say outcome.events)

@[simp] theorem memory_say (b : Bench) (events : Journal) : (b.say events).memory = b.memory := rfl

@[simp] theorem memory_withMemory (b : Bench) (memory : Memory) :
    (b.withMemory memory).memory = memory := rfl

end Bench

/-- What stays the same throughout a stage. -/
structure Setting where
  symbols : Symbols
  options : Options
  /-- The number of pairs of an entry and an address. -/
  total : Nat

namespace Setting

/-- The scope in which names and expressions are resolved. -/
def scope (s : Setting) (memory : Memory) : Scope :=
  Scope.ofPatch s.symbols s.options memory

/-- The number of a pair, as messages show it. -/
def place (s : Setting) (index : Nat) : String :=
  s!"({index}/{s.total})"

end Setting
end CodePatch
