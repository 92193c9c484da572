/-
# Page protection

What may be done with a range of memory, and what it is changed to while it is
being patched: executable memory stays executable then, so that code running
in the same page goes on running.
-/

namespace CodePatch

/-- What may be done with a range of memory. -/
inductive Protection where
  | noAccess
  | read
  | readWrite
  | execute
  | executeRead
  | executeReadWrite
deriving DecidableEq, Repr, Inhabited

namespace Protection

def all : List Protection :=
  [.noAccess, .read, .readWrite, .execute, .executeRead, .executeReadWrite]

/-- The three permissions, a dash for one that is missing. -/
def name : Protection → String
  | .noAccess => "---"
  | .read => "r--"
  | .readWrite => "rw-"
  | .execute => "--x"
  | .executeRead => "r-x"
  | .executeReadWrite => "rwx"

def ofName? (text : String) : Option Protection :=
  all.find? fun p => p.name == text

def isReadable : Protection → Bool
  | .read | .readWrite | .executeRead | .executeReadWrite => true
  | .noAccess | .execute => false

def isWritable : Protection → Bool
  | .readWrite | .executeReadWrite => true
  | .noAccess | .read | .execute | .executeRead => false

def isExecutable : Protection → Bool
  | .execute | .executeRead | .executeReadWrite => true
  | .noAccess | .read | .readWrite => false

/-- The protection granted while memory with this one is patched. -/
def whilePatching (p : Protection) : Protection :=
  if p.isExecutable then .executeReadWrite else .readWrite

/-- Memory that is being patched can be written. -/
theorem isWritable_whilePatching (p : Protection) : p.whilePatching.isWritable = true := by
  cases p <;> rfl

end Protection
end CodePatch
