/-
# Evaluation

The value of a whole text, or of the part of it before a terminator that
stands outside parentheses and square brackets.  The text must be read to its
end.  `evaluate` is the plain form; `evaluateCounting` also says how often
memory was read, which those who plan faults need to know.
-/
import CodePatch.Expression.Operand
import CodePatch.Journal

namespace CodePatch

/-- The value of an expression, and the offset at which reading it ended. -/
structure Evaluation where
  value : UInt32
  cursor : Nat
deriving DecidableEq, Repr

namespace Expression

/-- The text before the first `stop` outside parentheses and square brackets, of
which `depth` are open; `none` if there is no such `stop`.  The depth is an exact
number: a count of 32 bits agrees with it in texts of fewer than `2 ^ 31` brackets,
and overflows in some that are longer. -/
def before? (stop : Char) : Int → List Char → Option (List Char)
  | _, [] => none
  | depth, c :: rest =>
    if c = stop ∧ depth ≤ 0 then some []
    else
      let depth := if c = '(' ∨ c = '[' then depth + 1
        else if c = ')' ∨ c = ']' then depth - 1
        else depth
      (before? stop depth rest).map (c :: ·)

/-- The part of `text` that is evaluated: up to the terminator, or all of it. -/
def window (stop : Option Char) (text : List Char) : List Char :=
  match stop with
  | none => text
  | some stop => (before? stop 0 text).getD text

/-- The value of a whole text. -/
def run (scope : Scope) (text : List Char) : Evaluated :=
  enclosed (operand scope nestingLimit) false ⟨0, text, 0⟩

/-- The value of `text` up to `stop`, and the number of times memory was read. -/
def evaluateCounting (scope : Scope) (text : List Char) (stop : Option Char) :
    Except ExpressionError Evaluation × Nat :=
  match run scope (window stop text) with
  | .ok (value, c) => (.ok ⟨value, c.offset⟩, c.reads)
  | .error failure => (.error failure.error, failure.reads)

/-- The value of `text` up to `stop`. -/
def evaluate (scope : Scope) (text : List Char) (stop : Option Char) :
    Except ExpressionError Evaluation :=
  (evaluateCounting scope text stop).1

/-- What is said about an expression that has no value. -/
def failureEvent (text : List Char) (error : ExpressionError) : Event :=
  .error s!"Expression '{String.ofList text}': {error.message}"

/-- The value of `text`, or zero if it has none; what is said then; and the
number of times memory was read. -/
def evaluateOrZero (scope : Scope) (text : List Char) : UInt32 × Journal × Nat :=
  match evaluateCounting scope text none with
  | (.ok evaluation, reads) => (evaluation.value, [], reads)
  | (.error error, reads) => (0, [failureEvent text error], reads)

end Expression
end CodePatch
