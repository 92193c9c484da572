/-
# Expressions as trees

The meaning that an expression has apart from how it is read.  A `Tree` is what
its operators and operands amount to; `Tree.value` is its value, in natural
numbers below `2 ^ 32`, so that every wrap is written out.  Nothing here
mentions a text, a place in it, or the evaluator.

`&&`, `||`, `?:` and the ternary leave out what does not count.  `Demands` says
which parts of a tree do count, and `value_eq_none_iff` that a tree has no value
exactly if one of those divides by zero.
-/
import Mathlib
import CodePatch.Expression.Operator
import CodePatch.Expression.Cast

namespace CodePatch

/-- One for a proposition that holds, zero for one that does not. -/
def flag (p : Prop) [Decidable p] : Nat :=
  if p then 1 else 0

/-- The meaning of a binary operator; `none` for a division by zero. -/
def BinaryOp.compute (op : BinaryOp) (a b : Nat) : Option Nat :=
  match op with
  | .mul => some (a * b % 2 ^ 32)
  | .div => if b = 0 then none else some (a / b)
  | .mod => if b = 0 then none else some (a % b)
  | .add => some ((a + b) % 2 ^ 32)
  | .sub => some ((2 ^ 32 - b + a) % 2 ^ 32)
  | .shiftLeft => some (a * 2 ^ (b % 32) % 2 ^ 32)
  | .shiftRight => some (a / 2 ^ (b % 32))
  | .shiftRightSigned =>
    -- A negative number is shifted as its complement, so that ones come in.
    some (if a < 2 ^ 31 then a / 2 ^ (b % 32) else 2 ^ 32 - 1 - (2 ^ 32 - 1 - a) / 2 ^ (b % 32))
  | .less => some (flag (a < b))
  | .lessEqual => some (flag (a ≤ b))
  | .greater => some (flag (b < a))
  | .greaterEqual => some (flag (b ≤ a))
  | .equal => some (flag (a = b))
  | .notEqual => some (flag (a ≠ b))
  | .bitAnd => some (a &&& b)
  | .bitXor => some (a ^^^ b)
  | .bitOr => some (a ||| b)
  | .logicalAnd => some (flag (a ≠ 0 ∧ b ≠ 0))
  | .logicalOr => some (flag (a ≠ 0 ∨ b ≠ 0))

/-- Is there a compound assignment of the operator? -/
def BinaryOp.isAssignable : BinaryOp → Bool
  | .mul | .div | .mod | .add | .sub | .shiftLeft | .shiftRight | .shiftRightSigned
  | .bitAnd | .bitXor | .bitOr => true
  | .less | .lessEqual | .greater | .greaterEqual | .equal | .notEqual
  | .logicalAnd | .logicalOr => false

namespace Operator

/-- Does the operator stand between two operands? -/
def takesTwo : Operator → Bool
  | .binary _ | .orElse | .assign none | .comma => true
  | .assign (some op) => op.isAssignable
  | .ternary | .increment => false

/-- The value of the operator where its left operand decides it alone. -/
def decided? (op : Operator) (a : Nat) : Option Nat :=
  match op with
  | .binary .logicalAnd => if a = 0 then some 0 else none
  | .binary .logicalOr => if a ≠ 0 then some 1 else none
  | .orElse => if a ≠ 0 then some a else none
  | _ => none

/-- The value of the operator where both operands count. -/
def compute (op : Operator) (a b : Nat) : Option Nat :=
  match op with
  | .binary op | .assign (some op) => op.compute a b
  | _ => some b

/-- The value of the operator between operands that may have none.  The right one
is left out where the left one decides. -/
def meaning (op : Operator) (left right : Option Nat) : Option Nat :=
  left.bind fun a =>
    match op.decided? a with
    | some v => some v
    | none => right.bind (op.compute a)

/-- Is the operator a division or a remainder, or an assignment of one? -/
def divides : Operator → Bool
  | .binary .div | .binary .mod | .assign (some .div) | .assign (some .mod) => true
  | _ => false

theorem meaning_none (op : Operator) (right : Option Nat) : op.meaning none right = none := rfl

theorem meaning_of_decided {op : Operator} {a v : Nat} (h : op.decided? a = some v)
    (right : Option Nat) : op.meaning (some a) right = some v := by
  rw [meaning, Option.bind_some, h]

theorem meaning_of_undecided {op : Operator} {a : Nat} (h : op.decided? a = none)
    (right : Option Nat) : op.meaning (some a) right = right.bind (op.compute a) := by
  rw [meaning, Option.bind_some, h]

theorem compute_eq_none_iff {op : Operator} {a b : Nat} :
    op.compute a b = none ↔ op.divides = true ∧ b = 0 := by
  rcases op with op | _ | _ | (_ | op) | _ | _ <;> try simp [compute, divides]
  · cases op <;> simp [BinaryOp.compute]
  · cases op <;> simp [BinaryOp.compute]

/-- A division is never decided by what is divided. -/
theorem decided?_of_divides {op : Operator} (h : op.divides = true) (a : Nat) :
    op.decided? a = none := by
  rcases op with op | _ | _ | (_ | op) | _ | _ <;> try rfl
  · cases op <;> first | rfl | cases h
  · cases h

end Operator

namespace Expression

/-- An operator in front of an operand. -/
inductive UnaryOp where
  | not
  | complement
  | negate
  | plus
deriving DecidableEq, Repr

def UnaryOp.compute : UnaryOp → Nat → Nat
  | .not, a => flag (a = 0)
  | .complement, a => 2 ^ 32 - 1 - a
  | .negate, a => (2 ^ 32 - a) % 2 ^ 32
  | .plus, a => a

/-- A type that an operand can be narrowed to. -/
inductive IntegerType where
  | i8
  | u8
  | i16
  | u16
  | i32
  | u32
deriving DecidableEq, Repr

namespace IntegerType

def bits : IntegerType → Nat
  | .i8 | .u8 => 8
  | .i16 | .u16 => 16
  | .i32 | .u32 => 32

def signed : IntegerType → Bool
  | .i8 | .i16 | .i32 => true
  | .u8 | .u16 | .u32 => false

/-- The low bits of a number, continued to the left by the sign if there is one. -/
def compute (type : IntegerType) (a : Nat) : Nat :=
  let low := a % 2 ^ type.bits
  if type.signed ∧ 2 ^ (type.bits - 1) ≤ low then 2 ^ 32 - 2 ^ type.bits + low else low

end IntegerType

/-- An expression of literals and operators. -/
inductive Tree where
  | literal (value : UInt32)
  | unary (op : UnaryOp) (operand : Tree)
  | cast (type : IntegerType) (operand : Tree)
  /-- A binary operator, `?:`, an assignment or the comma. -/
  | joined (op : Operator) (two : op.takesTwo = true) (left right : Tree)
  | ternary (condition taken other : Tree)
deriving DecidableEq, Repr

namespace Tree

/-- The value of a tree; `none` if it comes to a division by zero. -/
def value : Tree → Option Nat
  | literal v => some v.toNat
  | unary op t => t.value.map op.compute
  | cast type t => t.value.map type.compute
  | joined op _ l r => op.meaning l.value r.value
  | ternary c x y => c.value.bind fun a => if a ≠ 0 then x.value else y.value

/-- The value of the tree depends on that of a part of it. -/
inductive Demands : Tree → Tree → Prop where
  | self (t : Tree) : Demands t t
  | unary {op : UnaryOp} {t s : Tree} (h : Demands t s) : Demands (.unary op t) s
  | cast {type : IntegerType} {t s : Tree} (h : Demands t s) : Demands (.cast type t) s
  | left {op : Operator} {two : op.takesTwo = true} {l r s : Tree} (h : Demands l s) :
      Demands (.joined op two l r) s
  | right {op : Operator} {two : op.takesTwo = true} {l r s : Tree} {a : Nat}
      (left : l.value = some a) (undecided : op.decided? a = none) (h : Demands r s) :
      Demands (.joined op two l r) s
  | condition {c x y s : Tree} (h : Demands c s) : Demands (.ternary c x y) s
  | taken {c x y s : Tree} {a : Nat} (condition : c.value = some a) (true : a ≠ 0)
      (h : Demands x s) : Demands (.ternary c x y) s
  | other {c x y s : Tree} (condition : c.value = some 0) (h : Demands y s) :
      Demands (.ternary c x y) s

/-- The tree is a division or a remainder, and its divisor is zero. -/
def DividesByZero : Tree → Prop
  | joined op _ _ r => op.divides = true ∧ r.value = some 0
  | _ => False

theorem DividesByZero.value_eq_none {t : Tree} (h : t.DividesByZero) : t.value = none := by
  cases t with
  | joined op two l r =>
      obtain ⟨hdivides, hzero⟩ := h
      rw [value]
      cases l.value with
      | none => rfl
      | some a =>
          rw [Operator.meaning_of_undecided (Operator.decided?_of_divides hdivides a), hzero]
          exact Operator.compute_eq_none_iff.mpr ⟨hdivides, rfl⟩
  | literal _ => cases h
  | unary _ _ => cases h
  | cast _ _ => cases h
  | ternary _ _ _ => cases h

theorem Demands.value_eq_none {t s : Tree} (h : t.Demands s) (hs : s.value = none) :
    t.value = none := by
  induction h with
  | self => exact hs
  | unary h ih => rw [value, ih hs]; rfl
  | cast h ih => rw [value, ih hs]; rfl
  | left h ih => rw [value, ih hs]; rfl
  | right hleft hundecided h ih =>
      rw [value, hleft, Operator.meaning_of_undecided hundecided, ih hs]
      rfl
  | condition h ih => rw [value, ih hs]; rfl
  | taken hcondition htrue h ih => rw [value, hcondition, Option.bind_some, if_pos htrue, ih hs]
  | other hcondition h ih =>
      rw [value, hcondition, Option.bind_some, if_neg (fun hne => hne rfl), ih hs]

theorem exists_dividesByZero {t : Tree} (h : t.value = none) :
    ∃ s, t.Demands s ∧ s.DividesByZero := by
  induction t with
  | literal v => cases h
  | unary op t ih =>
      obtain ⟨s, hs, hzero⟩ := ih (Option.map_eq_none_iff.mp h)
      exact ⟨s, .unary hs, hzero⟩
  | cast type t ih =>
      obtain ⟨s, hs, hzero⟩ := ih (Option.map_eq_none_iff.mp h)
      exact ⟨s, .cast hs, hzero⟩
  | joined op two l r ihl ihr =>
      rcases hl : l.value with _ | a
      · obtain ⟨s, hs, hzero⟩ := ihl hl
        exact ⟨s, .left hs, hzero⟩
      · rw [value, hl] at h
        rcases hd : op.decided? a with _ | v
        · rw [Operator.meaning_of_undecided hd] at h
          rcases hr : r.value with _ | b
          · obtain ⟨s, hs, hzero⟩ := ihr hr
            exact ⟨s, .right hl hd hs, hzero⟩
          · rw [hr] at h
            obtain ⟨hdivides, rfl⟩ := Operator.compute_eq_none_iff.mp h
            exact ⟨_, .self _, hdivides, hr⟩
        · rw [Operator.meaning_of_decided hd] at h
          cases h
  | ternary c x y ihc ihx ihy =>
      rcases hc : c.value with _ | a
      · obtain ⟨s, hs, hzero⟩ := ihc hc
        exact ⟨s, .condition hs, hzero⟩
      · rw [value, hc, Option.bind_some] at h
        by_cases ha : a = 0
        · subst ha
          obtain ⟨s, hs, hzero⟩ := ihy h
          exact ⟨s, .other hc hs, hzero⟩
        · rw [if_pos ha] at h
          obtain ⟨s, hs, hzero⟩ := ihx h
          exact ⟨s, .taken hc ha hs, hzero⟩

theorem value_eq_none_iff {t : Tree} :
    t.value = none ↔ ∃ s, t.Demands s ∧ s.DividesByZero :=
  ⟨exists_dividesByZero, fun ⟨_, hs, hzero⟩ => hs.value_eq_none hzero.value_eq_none⟩

end Tree
end Expression
end CodePatch
