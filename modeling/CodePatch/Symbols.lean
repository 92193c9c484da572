/-
# Named addresses

The addresses that expressions and code strings refer to by name.  A name is
bound once and never bound again, so that what was rendered against it stays
right.  Functions that a module exports are bound as `module:function`, code
caves as `cave:name`; a cave may also be looked up as `codecave:name`.

A name that is not bound may still be the export of a loaded module: `resolve?`
asks the memory for it.
-/
import CodePatch.Memory.Basic
import CodePatch.Journal

namespace CodePatch

/-- Names bound to addresses, the oldest first. -/
structure Symbols where
  bindings : List (String × UInt32) := []
deriving DecidableEq, Repr, Inhabited

namespace Symbols

/-- What the name of a code cave is bound behind. -/
def caveMark : List Char := ['c', 'a', 'v', 'e', ':']

/-- What a code cave may be looked up behind as well. -/
def caveAlias : List Char := ['c', 'o', 'd', 'e', 'c', 'a', 'v', 'e', ':']

/-- The name that a code cave is bound to. -/
def caveName (cave : String) : String :=
  String.ofList (caveMark ++ cave.toList)

/-- The address that `name` itself is bound to. -/
def bound? (s : Symbols) (name : String) : Option UInt32 :=
  s.bindings.lookup name

/-- Binds `name`, unless it is bound. -/
def bind (s : Symbols) (name : String) (address : UInt32) : Symbols :=
  if (s.bound? name).isSome then s else ⟨s.bindings ++ [(name, address)]⟩

/-- What is said about binding `name`. -/
def bindEvents (s : Symbols) (name : String) (address : UInt32) : Journal :=
  match s.bound? name with
  | none => []
  | some old =>
    let first := Text.address old
    [.warn s!"Address name '{name}' already bound to {first}, ignoring {Text.address address}"]

/-- Is `name` free to be bound? -/
def isFree (s : Symbols) (name : String) : Bool :=
  (s.bound? name).isNone

/-- Binds each of the pairs in turn, and counts those whose name was free. -/
def bindAll (s : Symbols) : List (String × UInt32) → Nat × Symbols × Journal
  | [] => (0, s, [])
  | (name, address) :: rest =>
    let later := (s.bind name address).bindAll rest
    ((if s.isFree name then 1 else 0) + later.1, later.2.1,
      s.bindEvents name address ++ later.2.2)

/-- Binds the functions that `module` exports. -/
def bindExports (s : Symbols) (module : String) (functions : List (String × UInt32)) :
    Nat × Symbols × Journal :=
  s.bindAll (functions.map fun (function, address) => (s!"{module}:{function}", address))

/-- The address of `name`; a cave goes by either of its names. -/
def get? (s : Symbols) (name : String) : Option UInt32 :=
  match Text.after? caveAlias name.toList with
  | some cave => s.bound? (caveName (String.ofList cave))
  | none => s.bound? name

/-- Modules that stand for something else than a loaded module. -/
def reservedModules : List String := ["cave", "codecave", "option"]

/-- The address of `name`, or of the export that it names. -/
def resolve? (s : Symbols) (memory : Option Memory) (name : String) : Option UInt32 :=
  match s.get? name with
  | some address => some address
  | none => do
    let memory ← memory
    let (module, function) ← Text.splitFirst? ':' name.toList
    if reservedModules.contains (String.ofList module) then none
    else memory.exportAddress? (String.ofList module) (String.ofList function)

/-! ## A bound name keeps its address -/

theorem bound?_bind (s : Symbols) (name other : String) (address : UInt32) :
    (s.bind name address).bound? other =
      if other = name ∧ s.isFree name then some address else s.bound? other := by
  unfold bind isFree bound?
  cases h : s.bindings.lookup name with
  | some a => simp
  | none =>
    by_cases ho : other = name
    · subst ho
      simp [List.lookup_append, h]
    · simp [List.lookup_append, ho, List.lookup_cons, beq_false_of_ne]

end Symbols
end CodePatch
