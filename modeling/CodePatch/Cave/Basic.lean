/-
# Code caves

A code cave is memory that a configuration asks for by name: room for data, or
code of its own that patches jump to.  Its access class is the protection that
it has once its contents are written.  An entry is an object, or just the code
of the cave.
-/
import CodePatch.Error
import CodePatch.Memory.Protection

namespace CodePatch

/-- What may be done with a code cave, in the order in which regions for caves
are allocated. -/
inductive AccessClass where
  | r
  | rw
  | x
  | rx
  | rwx
deriving DecidableEq, Repr, Inhabited

namespace AccessClass

def all : List AccessClass :=
  [.r, .rw, .x, .rx, .rwx]

def name : AccessClass → String
  | .r => "r"
  | .rw => "rw"
  | .x => "x"
  | .rx => "rx"
  | .rwx => "rwx"

/-- The class with this name, in any case. -/
def ofName? (text : List Char) : Option AccessClass :=
  all.find? fun a => Text.sameLetters a.name.toList text

/-- The protection of a finished cave. -/
def protection : AccessClass → Protection
  | .r => .read
  | .rw => .readWrite
  | .x => .execute
  | .rx => .executeRead
  | .rwx => .executeReadWrite

theorem mem_all (a : AccessClass) : a ∈ all := by
  cases a <;> decide

end AccessClass

/-- An entry for a code cave. -/
structure Cave where
  name : String
  access : AccessClass
  /-- The size of one element. -/
  size : Nat := 0
  /-- The number of elements. -/
  count : Nat := 1
  /-- The byte that the cave is filled with behind its code. -/
  fill : UInt8 := 0
  /-- The code string that the cave starts with. -/
  code : Option String := none
deriving DecidableEq, Repr

namespace Cave

/-- The access class that an entry names, or the given one. -/
def accessOf (given : AccessClass) (entry : Json) : Except CaveProblem AccessClass :=
  match entry.field? "access" with
  | none => .ok given
  | some (.string access) =>
    match AccessClass.ofName? access.toList with
    | some a => .ok a
    | none => .error (.unknownAccess access)
  | some _ => .error .accessNotText

/-- The number of field `key`, or the given one. -/
def numberOf (entry : Json) (key : String) (given : Nat) : Except CaveProblem Nat :=
  match entry.field? key with
  | none => .ok given
  | some (.number n) =>
    match n.nat? with
    | some value => .ok value
    | none => .error (.notCount key)
  | some _ => .error (.notCount key)

/-- The number of field `key`, which must fit in the address space. -/
def sizeOf (entry : Json) (key : String) (given : Nat) : Except CaveProblem Nat := do
  let n ← numberOf entry key given
  if n < UInt32.size then return n else .error (.tooLarge key)

/-- The byte that an entry fills its cave with. -/
def fillOf (entry : Json) : Except CaveProblem UInt8 := do
  let n ← numberOf entry "fill" 0
  if n < 256 then return UInt8.ofNat n else .error .fillTooLarge

/-- The cave that an object describes. -/
def ofObject (name : String) (given : AccessClass) (entry : Json) : Except CaveProblem Cave := do
  let access ← accessOf given entry
  let size ← sizeOf entry "size" 0
  let count ← sizeOf entry "count" 1
  let fill ← fillOf entry
  return { name, access, size, count, fill, code := (entry.field? "code").bind Json.joinedText? }

/-- The cave that an entry describes; `given` is the access class of entries
that name none. -/
def ofEntry (name : String) (given : AccessClass) (entry : Json) : Except CaveProblem Cave :=
  if name.toList.contains '+' then .error .plusInName
  else
    match entry with
    | .object fields => ofObject name given (.object fields)
    | .string code => .ok { name, access := given, code := some code }
    | .array items =>
      match (Json.array items).joinedText? with
      | some code => .ok { name, access := given, code := some code }
      | none => .error .badCode
    | _ => .error .wrongShape

/-- The cave that an entry of a configuration describes. -/
def ofJson (name : String) (given : AccessClass) (entry : Json) : Except ConfigError Cave :=
  (ofEntry name given entry).mapError (.cave name)

end Cave
end CodePatch
