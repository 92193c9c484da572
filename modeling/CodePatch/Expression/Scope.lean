/-
# Scopes

Everything an expression can refer to.  Without registers, brackets embed
addresses: `<...>` an absolute one and `[...]` one relative to the place that
the value is written to.  With registers, `[...]` reads memory instead.
-/
import CodePatch.Symbols
import CodePatch.Options
import CodePatch.Registers

namespace CodePatch

/-- What an expression can refer to. -/
structure Scope where
  symbols : Symbols
  options : Options
  memory : Option Memory := none
  registers : Option Registers := none
  /-- The base of literals such as `Rx1F`. -/
  moduleBase : UInt32 := 0
  /-- Where the value is written to. -/
  origin : UInt32 := 0

namespace Scope

/-- The scope with memory attached, which also fixes the module's base. -/
def withMemory (s : Scope) (memory : Memory) : Scope :=
  { s with memory := some memory, moduleBase := memory.moduleBase }

/-- The scope of patches to `memory`. -/
def ofPatch (symbols : Symbols) (options : Options) (memory : Memory) : Scope :=
  withMemory { symbols, options } memory

def withRegisters (s : Scope) (registers : Registers) : Scope :=
  { s with registers := some registers }

def withOrigin (s : Scope) (origin : UInt32) : Scope :=
  { s with origin }

end Scope
end CodePatch
