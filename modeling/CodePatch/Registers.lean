/-
# Registers of interrupted code

What a breakpoint finds when it is hit: the eight general registers, the flags
and the address that the hit would return to.  `Register` names the eight that
expressions and configurations can speak of; the flags and the return address
have no name there.
-/
import CodePatch.Text.Ascii

namespace CodePatch

/-- A general register. -/
inductive Register where
  | eax
  | ecx
  | edx
  | ebx
  | esp
  | ebp
  | esi
  | edi
deriving DecidableEq, Repr

namespace Register

def all : List Register :=
  [.eax, .ecx, .edx, .ebx, .esp, .ebp, .esi, .edi]

def name : Register → String
  | .eax => "eax"
  | .ecx => "ecx"
  | .edx => "edx"
  | .ebx => "ebx"
  | .esp => "esp"
  | .ebp => "ebp"
  | .esi => "esi"
  | .edi => "edi"

/-- The register with this name, in any case. -/
def ofName? (text : List Char) : Option Register :=
  all.find? fun r => Text.sameLetters r.name.toList text

/-- The number of characters of every name. -/
def nameLength : Nat := 3

/-- May `c` continue a name? -/
def continuesName (c : Char) : Bool :=
  c.isAlphanum || c = '_'

/-- The register named at the start of `text`.  The name must end there: `eaxy`
starts with no register. -/
def atStart? (text : List Char) : Option Register :=
  if (text.drop nameLength).head?.any continuesName then none
  else ofName? (text.take nameLength)

end Register

/-- The registers of interrupted code, in the order they lie on the stack. -/
structure Registers where
  flags : UInt32 := 0
  edi : UInt32 := 0
  esi : UInt32 := 0
  ebp : UInt32 := 0
  esp : UInt32 := 0
  ebx : UInt32 := 0
  edx : UInt32 := 0
  ecx : UInt32 := 0
  eax : UInt32 := 0
  returnAddress : UInt32 := 0
deriving DecidableEq, Repr, Inhabited

namespace Registers

def get (s : Registers) : Register → UInt32
  | .eax => s.eax
  | .ecx => s.ecx
  | .edx => s.edx
  | .ebx => s.ebx
  | .esp => s.esp
  | .ebp => s.ebp
  | .esi => s.esi
  | .edi => s.edi

def set (s : Registers) (r : Register) (value : UInt32) : Registers :=
  match r with
  | .eax => { s with eax := value }
  | .ecx => { s with ecx := value }
  | .edx => { s with edx := value }
  | .ebx => { s with ebx := value }
  | .esp => { s with esp := value }
  | .ebp => { s with ebp := value }
  | .esi => { s with esi := value }
  | .edi => { s with edi := value }

/-- Setting a register is seen in it and in no other. -/
theorem get_set (s : Registers) (r q : Register) (value : UInt32) :
    (s.set r value).get q = if q = r then value else s.get q := by
  cases r <;> cases q <;> rfl

end Registers
end CodePatch
