/-
# What a value takes from memory

Without registers, brackets embed addresses and nothing is read.  All that an
expression then takes from memory is the names of exported functions, and the
base of the main module, which is a part of the scope.  So the same code gives
the same bytes before and after memory is written.
-/
import CodePatch.Code.Render
import CodePatch.Proofs.Memory.Patch

namespace CodePatch

/-- Every function that either memory exports is exported by both, at one address. -/
def Memory.SameExports (m m' : Memory) : Prop :=
  ∀ module function, m'.exportAddress? module function = m.exportAddress? module function

/-- The scopes differ in memory alone, and both memories export the same functions. -/
structure Scope.Alike (scope scope' : Scope) : Prop where
  registers : scope.registers = none
  exports : ∀ name, scope'.symbols.resolve? scope'.memory name =
    scope.symbols.resolve? scope.memory name
  fields : scope' = { scope with memory := scope'.memory }

namespace Scope.Alike

theorem withOrigin {scope scope' : Scope} (h : scope.Alike scope') (origin : UInt32) :
    (scope.withOrigin origin).Alike (scope'.withOrigin origin) where
  registers := h.registers
  exports := h.exports
  fields := by
    rw [h.fields]
    rfl

theorem attach (scope : Scope) (hregisters : scope.registers = none) {m m' : Memory}
    (h : m.SameExports m') :
    ({ scope with memory := some m } : Scope).Alike { scope with memory := some m' } where
  registers := hregisters
  exports name := by simp only [Symbols.resolve?, Option.bind_eq_bind, Option.bind_some, h _ _]
  fields := rfl

theorem ofExports (symbols : Symbols) (options : Options) {m m' : Memory} (h : m.SameExports m')
    (hbase : m'.moduleBase = m.moduleBase) :
    (Scope.ofPatch symbols options m).Alike (Scope.ofPatch symbols options m') := by
  rw [Scope.ofPatch, Scope.ofPatch, Scope.withMemory, Scope.withMemory, hbase]
  exact attach { symbols, options, moduleBase := m.moduleBase } rfl h

/-- The scopes of patches to a memory, before and after bytes and protections change. -/
theorem ofPatch (symbols : Symbols) (options : Options) {m m' : Memory}
    (h : m'.surroundings = m.surroundings) :
    (Scope.ofPatch symbols options m).Alike (Scope.ofPatch symbols options m') := by
  have hexports : m'.exports = m.exports := congrArg (·.2.2) h
  refine ofExports symbols options (fun module function => ?_) (congrArg (·.1) h)
  rw [Memory.exportAddress?, hexports]
  rfl

end Scope.Alike

namespace Expression

variable {scope scope' : Scope}

theorem dereference_of_alike (h : scope.Alike scope') (operand : Operand) (cast : Cast) :
    dereference scope' operand cast = dereference scope operand cast := by
  have hreg : scope'.registers = none := by rw [h.fields]; exact h.registers
  funext skipping c
  simp only [dereference, hreg, h.registers, Option.isNone_none, if_true]

theorem embedded_of_alike (h : scope.Alike scope') (operand : Operand) (skipping relative : Bool)
    (c : Cursor) :
    embedded scope' operand skipping relative c = embedded scope operand skipping relative c := by
  have hexports := h.exports
  rw [h.fields] at hexports ⊢
  simp only [embedded, embeddedExpression, embed, hexports]

theorem primary_of_alike (h : scope.Alike scope') (operand : Operand) :
    primary scope' operand = primary scope operand := by
  funext skipping c
  simp only [primary, embedded_of_alike h, dereference_of_alike h]
  rw [h.fields]
  rfl

theorem operand_of_alike (h : scope.Alike scope') (levels : Nat) :
    operand scope' levels = operand scope levels := by
  induction levels with
  | zero => rfl
  | succ levels ih =>
      funext skipping c
      simp only [operand, operandAt, ih, primary_of_alike h, dereference_of_alike h]

theorem evaluateCounting_of_alike (h : scope.Alike scope') (text : List Char)
    (stop : Option Char) :
    evaluateCounting scope' text stop = evaluateCounting scope text stop := by
  simp only [evaluateCounting, run, operand_of_alike h]

theorem evaluate_of_alike (h : scope.Alike scope') (text : List Char) (stop : Option Char) :
    evaluate scope' text stop = evaluate scope text stop :=
  congrArg Prod.fst (evaluateCounting_of_alike h text stop)

end Expression

/-! ## Code -/

variable {scope scope' : Scope}

theorem Chunk.render_of_alike (h : scope.Alike scope') (here : UInt32) (chunk : Chunk) :
    chunk.render scope' here = chunk.render scope here := by
  have hexports := h.exports
  cases chunk with
  | bytes data => rfl
  | pointer target offset relative => simp only [Chunk.render, hexports]
  | option name =>
      rw [h.fields]
      rfl
  | sized width expression =>
      simp only [Chunk.render, Expression.evaluate_of_alike (h.withOrigin here)]
  | literal value => rfl

theorem Code.renderChunks_of_alike (h : scope.Alike scope') (here : UInt32) (chunks : List Chunk) :
    Code.renderChunks scope' here chunks = Code.renderChunks scope here chunks := by
  induction chunks generalizing here with
  | nil => rfl
  | cons chunk rest ih => simp only [Code.renderChunks, Chunk.render_of_alike h, ih]

theorem Code.render_of_alike (h : scope.Alike scope') (code : Code) (target : UInt32) :
    code.render scope' target = code.render scope target := by
  have hoptions : scope'.options = scope.options := by rw [h.fields]
  simp only [Code.render, Code.renderChunks_of_alike h, hoptions]

end CodePatch
