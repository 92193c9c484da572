/-
# Scripts

A script is a handler given as data: a list of actions, each of which looks
something up or changes a register and puts a note down about it.  The first
action that says where execution goes on ends the script; without one, the
replaced code runs.
-/
import CodePatch.Breakpoint.Hit

namespace CodePatch

/-- A register that a script can set: a general one, the flags or the return
address. -/
inductive Destination where
  | general (register : Register)
  | flags
  | returnAddress
deriving DecidableEq, Repr

def Destination.set (d : Destination) (registers : Registers) (value : UInt32) : Registers :=
  match d with
  | .general register => registers.set register value
  | .flags => { registers with flags := value }
  | .returnAddress => { registers with returnAddress := value }

/-- One step of a script. -/
inductive Action where
  | immediate (key : String)
  /-- Sets a register to a field, or to zero. -/
  | immediateTo (key : String) (destination : Destination)
  | register (key : String)
  /-- Sets the register that a field names. -/
  | registerSet (key : String) (value : UInt32)
  | pointer (key : String)
  | typed (key : String) (width : ValueWidth)
  | config (key : String)
  | read (address : UInt32) (size : Nat)
  | set (destination : Destination) (value : UInt32)
  | flag
  | resume (how : Resume)
  | resumeDefault
deriving Repr

namespace Action

def setRegister (hit : Hit) (destination : Destination) (value : UInt32) : Hit :=
  { hit with registers := destination.set hit.registers value }

/-- What an action does to a hit; a resumption if it ends the script. -/
def perform (hit : Hit) : Action → Option Resume × Hit
  | .immediate key =>
    let (value, hit) := hit.immediate key
    (none, hit.put (.word value))
  | .immediateTo key destination =>
    let (value, hit) := hit.immediate key
    (none, (setRegister hit destination (value.getD 0)).put (.word value))
  | .register key => (none, hit.put (.word ((hit.register? key).map hit.registers.get)))
  | .registerSet key value =>
    match hit.register? key with
    | none => (none, hit.put (.word none))
    | some named =>
      (none, (setRegister hit (.general named) value).put
        (.word (some (hit.registers.get named))))
  | .pointer key =>
    let (location, hit) := hit.pointer key
    (none, hit.put (.location location))
  | .typed key width =>
    let (value, hit) := hit.typed key width
    (none, hit.put (.value value))
  | .config key => (none, hit.put (.config (hit.field? key)))
  | .read address size =>
    let (bytes, hit) := hit.read address size
    (none, hit.put (.read bytes))
  | .set destination value => (none, (setRegister hit destination value).put .done)
  | .flag =>
    let (runs, hit) := hit.runsCave
    (none, hit.put (.flag runs))
  | .resume how => (some how, hit)
  | .resumeDefault =>
    let (how, hit) := hit.defaultResume
    (some how, hit)

end Action

namespace Script

def performAll : List Action → Handler
  | [], hit => (.cave, hit)
  | action :: rest, hit =>
    match action.perform hit with
    | (some how, hit) => (how, hit)
    | (none, hit) => performAll rest hit

/-- The handler that notes its hit and then performs the actions. -/
def handler (actions : List Action) : Handler := fun hit =>
  performAll actions (hit.put (.arrived hit.name hit.address))

end Script
end CodePatch
