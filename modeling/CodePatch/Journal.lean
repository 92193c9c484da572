/-
# The journal

Applying a configuration never stops at one bad entry: it says what went
wrong and goes on.  What is said is the journal, a list of events in the order
they happened.  Every function that has something to say returns its events
beside its result, and whoever calls it puts them in their place.
-/

namespace CodePatch

/-- How much an event matters. -/
inductive Level where
  | info
  | warn
  | error
deriving DecidableEq, Repr

def Level.label : Level → String
  | .info => "INFO"
  | .warn => "WARN"
  | .error => "ERROR"

/-- Something that happened, in words. -/
structure Event where
  level : Level
  text : String
deriving DecidableEq, Repr

namespace Event

def info (text : String) : Event := ⟨.info, text⟩
def warn (text : String) : Event := ⟨.warn, text⟩
def error (text : String) : Event := ⟨.error, text⟩

/-- The event as one line. -/
def line (e : Event) : String :=
  e.level.label ++ " " ++ e.text

end Event

/-- Events in the order they happened. -/
abbrev Journal := List Event

end CodePatch
