/-
# Precedence climbing

`climb` reads the operators behind an operand, as far as they bind at least as
strongly as asked for, and computes as it goes; the operands themselves are
read by a function that it is given.  Binary operators and the comma group to
the left; `? :`, `?:` and the assignments group to the right.

A side that does not count is read all the same, with `skipping` set: the
right of `&&` and `||` once the left has decided, the other branch of a
ternary.  Nothing can fail there for its value, only for its form.

The step count of `climb` is the number of characters left.  Each step takes an
operator of at least one character, so no text is left when it runs out.
-/
import CodePatch.Expression.Operator
import CodePatch.Expression.Cursor

namespace CodePatch

/-- Reads one operand.  The flag says that its value does not count. -/
abbrev Operand := Bool → Cursor → Evaluated

namespace Expression

/-- The value of an operator at `offset`; one that has no value is an error only
where its value counts. -/
def combine (op : BinaryOp) (skipping : Bool) (lhs rhs : UInt32) (c : Cursor) (offset : Nat) :
    Except Failure UInt32 :=
  match op.apply lhs rhs with
  | some value => .ok value
  | none => if skipping then .ok 0 else c.fail (.divisionByZero offset)

/-- The colon of a ternary. -/
def expectColon (c : Cursor) : Except Failure Cursor :=
  let c := c.skipSpace
  match c.peek? with
  | some ':' => .ok (c.advance 1)
  | some character => c.unknown character
  | none => c.fail (.unexpectedEnd c.offset)

/-- Reads operators of precedence `least` and above behind the operand `lhs`. -/
def climb (operand : Operand) : Nat → Nat → Bool → UInt32 → Cursor → Evaluated
  | 0, _, _, lhs, c => .ok (lhs, c)
  | steps + 1, least, skipping, lhs, c =>
    let c := c.skipSpace
    match Operator.atStart? c.rest with
    | none => .ok (lhs, c)
    | some (op, length) =>
      if op.precedence < least then .ok (lhs, c)
      else
        let right (least : Nat) (skip : Bool) (c : Cursor) : Evaluated := do
          let (first, c) ← operand skip c
          climb operand steps least skip first c
        let next := c.advance length
        match op with
        | .increment => climb operand steps least skipping lhs next
        | .binary .logicalAnd => do
          let (rhs, c) ← right (op.precedence + 1) (skipping || lhs == 0) next
          climb operand steps least skipping (truth (lhs != 0 && rhs != 0)) c
        | .binary .logicalOr => do
          let (rhs, c) ← right (op.precedence + 1) (skipping || lhs != 0) next
          climb operand steps least skipping (truth (lhs != 0 || rhs != 0)) c
        | .binary binary => do
          let (rhs, after) ← right (op.precedence + 1) skipping next
          let value ← combine binary skipping lhs rhs after c.offset
          climb operand steps least skipping value after
        | .orElse => do
          let (rhs, c) ← right Operator.ternaryPrecedence (skipping || lhs != 0) next
          climb operand steps least skipping (if lhs != 0 then lhs else rhs) c
        | .ternary => do
          let (taken, c) ← right Operator.commaPrecedence (skipping || lhs == 0) next
          let c ← expectColon c
          let (other, c) ← right Operator.ternaryPrecedence (skipping || lhs != 0) c
          climb operand steps least skipping (if lhs != 0 then taken else other) c
        | .assign none => do
          let (rhs, c) ← right Operator.assignPrecedence skipping next
          climb operand steps least skipping rhs c
        | .assign (some binary) => do
          let (rhs, after) ← right Operator.assignPrecedence skipping next
          let value ← combine binary skipping lhs rhs after c.offset
          climb operand steps least skipping value after
        | .comma => do
          let (rhs, c) ← right Operator.assignPrecedence skipping next
          climb operand steps least skipping rhs c

/-- A whole expression: an operand and the operators behind it. -/
def expression (operand : Operand) : Operand := fun skipping c => do
  let (first, c) ← operand skipping c
  climb operand c.rest.length Operator.commaPrecedence skipping first c

end Expression
end CodePatch
