/-
# Overflow

Sizes and the ends of ranges are 64-bit counts, and the integers that options
are given are read in 128 bits.  A sum, product or negation that leaves its
width has no result: whoever computes it is stopped there, by an overflow of
that kind.  It is not a failure like the others, which are reported and after
which the rest goes on.
-/

namespace CodePatch

/-- The operation whose result leaves its width. -/
inductive Overflow where
  | add
  | multiply
  | negate
deriving DecidableEq, Repr

def Overflow.message : Overflow → String
  | .add => "attempt to add with overflow"
  | .multiply => "attempt to multiply with overflow"
  | .negate => "attempt to negate with overflow"

/-- The number of values of a 64-bit count. -/
def countRange : Nat := UInt64.size

namespace Count

/-- The sum of two counts. -/
def add (a b : Nat) : Except Overflow Nat :=
  if a + b < countRange then .ok (a + b) else .error .add

/-- The product of two counts. -/
def multiply (a b : Nat) : Except Overflow Nat :=
  if a * b < countRange then .ok (a * b) else .error .multiply

theorem add_of_lt {a b : Nat} (h : a + b < countRange) : add a b = .ok (a + b) :=
  if_pos h

theorem add_of_le {a b : Nat} (h : countRange ≤ a + b) : add a b = .error .add :=
  if_neg (Nat.not_lt_of_le h)

theorem add_eq_ok {a b n : Nat} (h : add a b = .ok n) : n = a + b := by
  unfold add at h
  split at h
  · cases h
    rfl
  · cases h

theorem multiply_eq_ok {a b n : Nat} (h : multiply a b = .ok n) : n = a * b := by
  unfold multiply at h
  split at h
  · cases h
    rfl
  · cases h

end Count
end CodePatch
