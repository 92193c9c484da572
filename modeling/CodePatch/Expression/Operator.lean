/-
# Operators

The operators that stand between operands, what they compute on 32-bit words,
how strongly they bind, and how they are spelled.  Arithmetic wraps, shifts
take their amount modulo 32, comparisons are unsigned, and `>>>` is the shift
that keeps the sign.  Division and remainder by zero have no value.

`tokens` lists longer spellings before the shorter ones they start with, so
the first match is the longest.
-/

namespace CodePatch

/-- An operator of two operands. -/
inductive BinaryOp where
  | mul
  | div
  | mod
  | add
  | sub
  | shiftLeft
  | shiftRight
  | shiftRightSigned
  | less
  | lessEqual
  | greater
  | greaterEqual
  | equal
  | notEqual
  | bitAnd
  | bitXor
  | bitOr
  | logicalAnd
  | logicalOr
deriving DecidableEq, Repr

/-- One for truth, zero for falsehood. -/
def truth (b : Bool) : UInt32 :=
  if b then 1 else 0

namespace BinaryOp

def precedence : BinaryOp → Nat
  | .mul | .div | .mod => 13
  | .add | .sub => 12
  | .shiftLeft | .shiftRight | .shiftRightSigned => 11
  | .less | .lessEqual | .greater | .greaterEqual => 10
  | .equal | .notEqual => 9
  | .bitAnd => 8
  | .bitXor => 7
  | .bitOr => 6
  | .logicalAnd => 5
  | .logicalOr => 4

/-- The value of the operator; `none` for a division by zero. -/
def apply (op : BinaryOp) (lhs rhs : UInt32) : Option UInt32 :=
  match op with
  | .mul => some (lhs * rhs)
  | .div => if rhs = 0 then none else some (lhs / rhs)
  | .mod => if rhs = 0 then none else some (lhs % rhs)
  | .add => some (lhs + rhs)
  | .sub => some (lhs - rhs)
  | .shiftLeft => some (lhs <<< rhs)
  | .shiftRight => some (lhs >>> rhs)
  | .shiftRightSigned => some ⟨lhs.toBitVec.sshiftRight (rhs.toNat % 32)⟩
  | .less => some (truth (lhs < rhs))
  | .lessEqual => some (truth (lhs ≤ rhs))
  | .greater => some (truth (rhs < lhs))
  | .greaterEqual => some (truth (rhs ≤ lhs))
  | .equal => some (truth (lhs = rhs))
  | .notEqual => some (truth (lhs ≠ rhs))
  | .bitAnd => some (lhs &&& rhs)
  | .bitXor => some (lhs ^^^ rhs)
  | .bitOr => some (lhs ||| rhs)
  | .logicalAnd => some (truth (lhs ≠ 0 && rhs ≠ 0))
  | .logicalOr => some (truth (lhs ≠ 0 || rhs ≠ 0))

/-- Only a division by zero has no value. -/
theorem apply_eq_none_iff {op : BinaryOp} {lhs rhs : UInt32} :
    op.apply lhs rhs = none ↔ (op = .div ∨ op = .mod) ∧ rhs = 0 := by
  cases op <;> simp [apply]

end BinaryOp

/-- Whatever can stand behind an operand. -/
inductive Operator where
  | binary (op : BinaryOp)
  /-- The `?` of `a ? b : c`. -/
  | ternary
  /-- `a ?: b`: `a` unless it is zero. -/
  | orElse
  /-- An assignment, of the operator's result if it names one.  There is nothing
  to assign to, so only the value counts. -/
  | assign (compound : Option BinaryOp)
  /-- `++` and `--`, which have no effect. -/
  | increment
  | comma
deriving DecidableEq, Repr

namespace Operator

def commaPrecedence : Nat := 1
def assignPrecedence : Nat := 2
def ternaryPrecedence : Nat := 3
def unaryPrecedence : Nat := 14

def precedence : Operator → Nat
  | .binary op => op.precedence
  | .ternary | .orElse => ternaryPrecedence
  | .assign _ => assignPrecedence
  | .comma => commaPrecedence
  | .increment => unaryPrecedence

/-- The spellings, longer ones first. -/
def tokens : List (List Char × Operator) :=
  [(['>', '>', '>', '='], .assign (some .shiftRightSigned)),
   (['<', '<', '<', '='], .assign (some .shiftLeft)),
   (['>', '>', '>'], .binary .shiftRightSigned),
   (['<', '<', '<'], .binary .shiftLeft),
   (['>', '>', '='], .assign (some .shiftRight)),
   (['<', '<', '='], .assign (some .shiftLeft)),
   (['>', '>'], .binary .shiftRight),
   (['<', '<'], .binary .shiftLeft),
   (['<', '='], .binary .lessEqual),
   (['>', '='], .binary .greaterEqual),
   (['=', '='], .binary .equal),
   (['!', '='], .binary .notEqual),
   (['&', '&'], .binary .logicalAnd),
   (['|', '|'], .binary .logicalOr),
   (['?', ':'], .orElse),
   (['+', '+'], .increment),
   (['-', '-'], .increment),
   (['+', '='], .assign (some .add)),
   (['-', '='], .assign (some .sub)),
   (['*', '='], .assign (some .mul)),
   (['/', '='], .assign (some .div)),
   (['%', '='], .assign (some .mod)),
   (['&', '='], .assign (some .bitAnd)),
   (['|', '='], .assign (some .bitOr)),
   (['^', '='], .assign (some .bitXor)),
   (['*'], .binary .mul),
   (['/'], .binary .div),
   (['%'], .binary .mod),
   (['+'], .binary .add),
   (['-'], .binary .sub),
   (['<'], .binary .less),
   (['>'], .binary .greater),
   (['&'], .binary .bitAnd),
   (['^'], .binary .bitXor),
   (['|'], .binary .bitOr),
   (['?'], .ternary),
   (['='], .assign none),
   ([','], .comma)]

/-- The operator that `text` starts with, and the length of its spelling. -/
def atStart? (text : List Char) : Option (Operator × Nat) :=
  (tokens.find? fun (token, _) => token.isPrefixOf text).map fun (token, op) => (op, token.length)

end Operator
end CodePatch
