/-
# What operators compute on words

The evaluator computes on 32-bit words, the trees in natural numbers with every
wrap written out.  The two agree: for the binary operators, for the unary ones,
for the casts, and, in `Operator.finish`, for all that is done with a right
operand once it has been read.
-/
import CodePatch.Proofs.Expression.Tree
import CodePatch.Expression.Climb

namespace CodePatch

theorem toNat_truth (b : Bool) : (truth b).toNat = flag (b = true) := by
  cases b <;> rfl

theorem toNat_shiftedSigned (a b : UInt32) :
    UInt32.toNat ⟨a.toBitVec.sshiftRight (b.toNat % 32)⟩ =
      if a.toNat < 2 ^ 31 then a.toNat / 2 ^ (b.toNat % 32)
      else 2 ^ 32 - 1 - (2 ^ 32 - 1 - a.toNat) / 2 ^ (b.toNat % 32) := by
  have hmsb : a.toBitVec.msb = decide (2 ^ 31 ≤ a.toNat) := a.toBitVec.msb_eq_decide
  have hshifted : (a.toBitVec.sshiftRight (b.toNat % 32)).toNat =
      if a.toBitVec.msb then 2 ^ 32 - 1 - (2 ^ 32 - 1 - a.toNat) >>> (b.toNat % 32)
      else a.toNat >>> (b.toNat % 32) := BitVec.toNat_sshiftRight
  refine hshifted.trans ?_
  rw [hmsb, Nat.shiftRight_eq_div_pow, Nat.shiftRight_eq_div_pow]
  by_cases ha : a.toNat < 2 ^ 31
  · rw [if_pos ha, decide_eq_false (Nat.not_le.mpr ha), if_neg Bool.false_ne_true]
  · rw [if_neg ha, decide_eq_true (Nat.not_lt.mp ha), if_pos rfl]

theorem BinaryOp.toNat_apply (op : BinaryOp) (a b : UInt32) :
    (op.apply a b).map UInt32.toNat = op.compute a.toNat b.toNat := by
  have hzero : b = 0 ↔ b.toNat = 0 := UInt32.toNat_inj.symm
  cases op with
  | mul => exact congrArg some (UInt32.toNat_mul a b)
  | div =>
      by_cases hb : b = 0
      · simp [apply, compute, hb]
      · simp [apply, compute, hb, mt hzero.mpr hb]
  | mod =>
      by_cases hb : b = 0
      · simp [apply, compute, hb]
      · simp [apply, compute, hb, mt hzero.mpr hb]
  | add => exact congrArg some (UInt32.toNat_add a b)
  | sub => exact congrArg some (UInt32.toNat_sub a b)
  | shiftLeft =>
      refine congrArg some ((UInt32.toNat_shiftLeft a b).trans ?_)
      rw [Nat.shiftLeft_eq]
  | shiftRight =>
      refine congrArg some ((UInt32.toNat_shiftRight a b).trans ?_)
      rw [Nat.shiftRight_eq_div_pow]
  | shiftRightSigned => exact congrArg some (toNat_shiftedSigned a b)
  | less => exact congrArg some ((toNat_truth _).trans (by simp [UInt32.lt_iff_toNat_lt]))
  | lessEqual => exact congrArg some ((toNat_truth _).trans (by simp [UInt32.le_iff_toNat_le]))
  | greater => exact congrArg some ((toNat_truth _).trans (by simp [UInt32.lt_iff_toNat_lt]))
  | greaterEqual => exact congrArg some ((toNat_truth _).trans (by simp [UInt32.le_iff_toNat_le]))
  | equal => exact congrArg some ((toNat_truth _).trans (by simp [← UInt32.toNat_inj]))
  | notEqual => exact congrArg some ((toNat_truth _).trans (by simp [← UInt32.toNat_inj]))
  | bitAnd => exact congrArg some (UInt32.toNat_and a b)
  | bitXor => exact congrArg some (UInt32.toNat_xor a b)
  | bitOr => exact congrArg some (UInt32.toNat_or a b)
  | logicalAnd => exact congrArg some ((toNat_truth _).trans (by simp [← UInt32.toNat_inj]))
  | logicalOr => exact congrArg some ((toNat_truth _).trans (by simp [← UInt32.toNat_inj]))

namespace Expression

/-- What the evaluator computes for a unary operator. -/
def UnaryOp.apply : UnaryOp → UInt32 → UInt32
  | .not, v => truth (v == 0)
  | .complement, v => ~~~v
  | .negate, v => 0 - v
  | .plus, v => v

theorem UnaryOp.toNat_apply (op : UnaryOp) (v : UInt32) :
    (op.apply v).toNat = op.compute v.toNat := by
  cases op with
  | not => exact (toNat_truth _).trans (by simp [compute, ← UInt32.toNat_inj])
  | complement => exact UInt32.toNat_not v
  | negate => exact UInt32.toNat_sub 0 v
  | plus => rfl

namespace IntegerType

/-- The cast of the evaluator that the type stands for. -/
def toCast : IntegerType → Cast
  | .i8 => .i8
  | .u8 => .u8
  | .i16 => .i16
  | .u16 => .u16
  | .i32 => .i32
  | .u32 => .u32

theorem toNat_signExtended {w : Nat} (x : BitVec w) (h : w ≤ 32) :
    (x.signExtend 32).toNat =
      if 2 ^ (w - 1) ≤ x.toNat then 2 ^ 32 - 2 ^ w + x.toNat else x.toNat := by
  have hle : 2 ^ w ≤ 2 ^ 32 := Nat.pow_le_pow_right Nat.two_pos h
  rw [BitVec.toNat_signExtend, BitVec.msb_eq_decide, BitVec.toNat_setWidth,
    Nat.mod_eq_of_lt (Nat.lt_of_lt_of_le x.isLt hle)]
  by_cases hx : 2 ^ (w - 1) ≤ x.toNat
  · rw [if_pos hx, decide_eq_true hx, if_pos rfl, Nat.add_comm]
  · rw [if_neg hx, decide_eq_false hx, if_neg Bool.false_ne_true, Nat.add_zero]

theorem toNat_convert (type : IntegerType) (v : UInt32) :
    (type.toCast.convert v).toNat = type.compute v.toNat := by
  have hlow : ∀ w, (v.toBitVec.setWidth w).toNat = v.toNat % 2 ^ w :=
    fun w => BitVec.toNat_setWidth _ _
  cases type with
  | i8 =>
      refine (toNat_signExtended _ (by decide)).trans ?_
      rw [hlow]
      simp [compute, signed, bits]
  | i16 =>
      refine (toNat_signExtended _ (by decide)).trans ?_
      rw [hlow]
      simp [compute, signed, bits]
  | u8 =>
      refine (BitVec.toNat_setWidth _ _).trans ?_
      rw [hlow, Nat.mod_eq_of_lt (by omega)]
      simp [compute, signed, bits]
  | u16 =>
      refine (BitVec.toNat_setWidth _ _).trans ?_
      rw [hlow, Nat.mod_eq_of_lt (by omega)]
      simp [compute, signed, bits]
  | i32 => simp [compute, signed, bits, toCast, Cast.convert]
  | u32 => simp [compute, signed, bits, toCast, Cast.convert]

end IntegerType

/-- A value that is computed is the right one, or nothing has asked for it.  A
value is missing only if it was asked for and does not exist. -/
theorem combine_cases (op : BinaryOp) (skipping : Bool) (lhs rhs : UInt32) (c : Cursor)
    (offset : Nat) :
    (∃ v, combine op skipping lhs rhs c offset = .ok v ∧
      (skipping = false → op.compute lhs.toNat rhs.toNat = some v.toNat)) ∨
    (skipping = false ∧ op.compute lhs.toNat rhs.toNat = none ∧
      combine op skipping lhs rhs c offset = .error ⟨.divisionByZero offset, c.reads⟩) := by
  rw [← op.toNat_apply]
  rcases happly : op.apply lhs rhs with _ | v
  · cases skipping with
    | true => exact Or.inl ⟨0, by rw [combine, happly]; rfl, nofun⟩
    | false => exact Or.inr ⟨rfl, rfl, by rw [combine, happly]; rfl⟩
  · exact Or.inl ⟨v, by rw [combine, happly], fun _ => rfl⟩

end Expression

namespace Operator

/-- Is the right operand of the operator read without being asked for, behind the
left operand `lhs`? -/
def skips (op : Operator) (skipping : Bool) (lhs : UInt32) : Bool :=
  match op with
  | .binary .logicalAnd => skipping || lhs == 0
  | .binary .logicalOr | .orElse => skipping || lhs != 0
  | _ => skipping

/-- What the evaluator makes of both operands, read up to `after`, for an operator
at `offset`. -/
def finish (op : Operator) (skipping : Bool) (lhs rhs : UInt32) (after : Cursor) (offset : Nat) :
    Except Failure UInt32 :=
  match op with
  | .binary .logicalAnd => .ok (truth (lhs != 0 && rhs != 0))
  | .binary .logicalOr => .ok (truth (lhs != 0 || rhs != 0))
  | .binary op | .assign (some op) => Expression.combine op skipping lhs rhs after offset
  | .orElse => .ok (if lhs != 0 then lhs else rhs)
  | _ => .ok rhs

theorem ne_zero_iff (lhs : UInt32) : (lhs != 0) = true ↔ lhs.toNat ≠ 0 := by
  simp [← UInt32.toNat_inj]

theorem skips_eq (op : Operator) (skipping : Bool) (lhs : UInt32) :
    op.skips skipping lhs = (skipping || (op.decided? lhs.toNat).isSome) := by
  have heq : (lhs == 0) = decide (lhs.toNat = 0) :=
    decide_eq_decide.mpr UInt32.toNat_inj.symm
  have hne : (lhs != 0) = decide (lhs.toNat ≠ 0) := by rw [bne, heq, decide_not]
  cases op with
  | binary op =>
      cases op with
      | logicalAnd =>
          rw [skips, heq, decided?]
          by_cases h : lhs.toNat = 0 <;> simp [h]
      | logicalOr =>
          rw [skips, hne, decided?]
          by_cases h : lhs.toNat = 0 <;> simp [h]
      | _ => exact (Bool.or_false skipping).symm
  | orElse =>
      rw [skips, hne, decided?]
      by_cases h : lhs.toNat = 0 <;> simp [h]
  | _ => exact (Bool.or_false skipping).symm

theorem skips_eq_false_iff {op : Operator} {skipping : Bool} {lhs : UInt32} :
    op.skips skipping lhs = false ↔ skipping = false ∧ op.decided? lhs.toNat = none := by
  rw [skips_eq, Bool.or_eq_false_iff, Option.isSome_eq_false_iff, Option.isNone_iff_eq_none]

/-- A left operand that decides does so whatever was read on the right. -/
theorem finish_of_decided {op : Operator} {lhs : UInt32} {v : Nat}
    (h : op.decided? lhs.toNat = some v) (rhs : UInt32) (after : Cursor) (offset : Nat) :
    ∃ w, op.finish false lhs rhs after offset = .ok w ∧ w.toNat = v := by
  unfold decided? at h
  split at h
  · obtain ⟨hzero, hv⟩ := Option.ite_none_right_eq_some.mp h
    cases hv
    have hlhs : lhs = 0 := UInt32.toNat_inj.mp hzero
    exact ⟨0, by rw [finish, hlhs]; rfl, rfl⟩
  · obtain ⟨hne, hv⟩ := Option.ite_none_right_eq_some.mp h
    cases hv
    exact ⟨1, by rw [finish, (ne_zero_iff lhs).mpr hne]; rfl, rfl⟩
  · obtain ⟨hne, hv⟩ := Option.ite_none_right_eq_some.mp h
    cases hv
    exact ⟨lhs, by rw [finish, (ne_zero_iff lhs).mpr hne]; rfl, rfl⟩
  · cases h

theorem finish_of_undecided {op : Operator} {lhs : UInt32} (h : op.decided? lhs.toNat = none)
    (rhs : UInt32) (after : Cursor) (offset : Nat) :
    (∃ v, op.finish false lhs rhs after offset = .ok v ∧
      op.compute lhs.toNat rhs.toNat = some v.toNat) ∨
    (op.compute lhs.toNat rhs.toNat = none ∧
      op.finish false lhs rhs after offset = .error ⟨.divisionByZero offset, after.reads⟩) := by
  have hcombine : ∀ binary : BinaryOp,
      (∃ v, Expression.combine binary false lhs rhs after offset = .ok v ∧
        binary.compute lhs.toNat rhs.toNat = some v.toNat) ∨
      (binary.compute lhs.toNat rhs.toNat = none ∧
        Expression.combine binary false lhs rhs after offset =
          .error ⟨.divisionByZero offset, after.reads⟩) := by
    intro binary
    rcases Expression.combine_cases binary false lhs rhs after offset with
      ⟨v, hv, hvalue⟩ | ⟨-, hnone, herror⟩
    · exact Or.inl ⟨v, hv, hvalue rfl⟩
    · exact Or.inr ⟨hnone, herror⟩
  unfold finish
  split
  · exact Or.inl ⟨_, rfl, congrArg some (by rw [toNat_truth]; simp [← UInt32.toNat_inj])⟩
  · exact Or.inl ⟨_, rfl, congrArg some (by rw [toNat_truth]; simp [← UInt32.toNat_inj])⟩
  · exact hcombine _
  · exact hcombine _
  · refine Or.inl ⟨rhs, ?_, rfl⟩
    have hzero : ¬(lhs != 0) = true := fun hne => by
      rw [decided?, if_pos ((ne_zero_iff lhs).mp hne)] at h
      cases h
    rw [if_neg hzero]
  · rename_i hbinary hassign _
    refine Or.inl ⟨rhs, rfl, ?_⟩
    unfold compute
    split
    · exact absurd rfl (hbinary _)
    · exact absurd rfl (hassign _)
    · rfl

/-- An operator has one value wherever it stands, or divides by zero wherever it stands. -/
theorem finish_or_divides (op : Operator) (skipping : Bool) (lhs rhs : UInt32) :
    (∃ v, ∀ after offset, op.finish skipping lhs rhs after offset = .ok v) ∨
    (skipping = false ∧ op.divides = true ∧
      ∀ after offset, op.finish skipping lhs rhs after offset =
        .error ⟨.divisionByZero offset, after.reads⟩) := by
  have hcombine : ∀ binary : BinaryOp, (binary = .div ∨ binary = .mod → op.divides = true) →
      (∃ v, ∀ after offset, Expression.combine binary skipping lhs rhs after offset = .ok v) ∨
      (skipping = false ∧ op.divides = true ∧
        ∀ after offset, Expression.combine binary skipping lhs rhs after offset =
          .error ⟨.divisionByZero offset, after.reads⟩) := by
    intro binary hdivides
    rcases happly : binary.apply lhs rhs with _ | v
    · have hkind := (BinaryOp.apply_eq_none_iff.mp happly).1
      cases skipping with
      | true => exact Or.inl ⟨0, fun _ _ => by rw [Expression.combine, happly]; rfl⟩
      | false =>
          exact Or.inr ⟨rfl, hdivides hkind, fun _ _ => by rw [Expression.combine, happly]; rfl⟩
    · exact Or.inl ⟨v, fun _ _ => by rw [Expression.combine, happly]⟩
  cases op with
  | binary binary =>
      have hkind : binary = .div ∨ binary = .mod → (Operator.binary binary).divides = true := by
        rintro (rfl | rfl) <;> rfl
      cases binary with
      | logicalAnd => exact Or.inl ⟨_, fun _ _ => rfl⟩
      | logicalOr => exact Or.inl ⟨_, fun _ _ => rfl⟩
      | _ => exact hcombine _ hkind
  | assign compound =>
      rcases compound with _ | binary
      · exact Or.inl ⟨rhs, fun _ _ => rfl⟩
      · exact hcombine binary (by rintro (rfl | rfl) <;> rfl)
  | orElse => exact Or.inl ⟨_, fun _ _ => rfl⟩
  | comma => exact Or.inl ⟨rhs, fun _ _ => rfl⟩
  | ternary => exact Or.inl ⟨rhs, fun _ _ => rfl⟩
  | increment => exact Or.inl ⟨rhs, fun _ _ => rfl⟩

theorem finish_skipping (op : Operator) (lhs rhs : UInt32) :
    ∃ v, ∀ after offset, op.finish true lhs rhs after offset = .ok v := by
  rcases op.finish_or_divides true lhs rhs with hvalue | ⟨hfalse, -⟩
  · exact hvalue
  · cases hfalse

/-- Operands that are right where they count make the value of the operator. -/
theorem finish_cases (op : Operator) {skipping : Bool} {lhs rhs : UInt32} {left right : Option Nat}
    (hleft : skipping = false → left = some lhs.toNat)
    (hright : op.skips skipping lhs = false → right = some rhs.toNat)
    (after : Cursor) (offset : Nat) :
    (∃ v, op.finish skipping lhs rhs after offset = .ok v ∧
      (skipping = false → op.meaning left right = some v.toNat)) ∨
    (skipping = false ∧ op.meaning left right = none ∧
      op.finish skipping lhs rhs after offset = .error ⟨.divisionByZero offset, after.reads⟩) := by
  cases skipping with
  | true =>
      obtain ⟨v, hv⟩ := op.finish_skipping lhs rhs
      exact Or.inl ⟨v, hv after offset, nofun⟩
  | false =>
      rw [hleft rfl]
      rcases hd : op.decided? lhs.toNat with _ | v
      · rw [meaning_of_undecided hd, hright (skips_eq_false_iff.mpr ⟨rfl, hd⟩), Option.bind_some]
        rcases finish_of_undecided hd rhs after offset with ⟨v, hv, hvalue⟩ | ⟨hnone, herror⟩
        · exact Or.inl ⟨v, hv, fun _ => hvalue⟩
        · exact Or.inr ⟨rfl, hnone, herror⟩
      · obtain ⟨w, hw, rfl⟩ := finish_of_decided hd rhs after offset
        exact Or.inl ⟨w, hw, fun _ => meaning_of_decided hd right⟩

end Operator
end CodePatch
