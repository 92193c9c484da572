/-
# Text whose value does not count

The side of `&&`, `||`, `?:` or of a ternary that is not taken is read with
`skipping` set.  Two readings of one text are compared here: one as it is asked
for, and one with `skipping` set, which sees other values on its way and so
takes other branches of the operators it meets.

They stay in step, as two readings do (`skippable_operandAndMore`).  Where the
first ends, so does the second, at the same place; and skipped text fails for
its form alone, since it goes on where the first lacks a value.

What is skipped has read memory as often at its end as at its start, so the
counts of the two readings differ: the place that the second reaches has the
count that it started with.
-/
import CodePatch.Proofs.Expression.Walk

namespace CodePatch

theorem ExpressionError.isOfValue_shift (error : ExpressionError) (distance : Nat) :
    (error.shift distance).isOfValue = error.isOfValue := by
  cases error <;> rfl

namespace Expression

/-- A reading that is only skipped fails for the form of the text. -/
theorem Tracks.by_form {reads : Nat} {Goes : Cursor → Prop} {Fails : Failure → Prop}
    {r r' : Evaluated} {failure : Failure} (h : Tracks { skipped := some reads } Goes Fails r r')
    (hfails : r' = .error failure) : failure.error.isOfValue = false := by
  induction h with
  | reached => cases hfails
  | failed _ hboth =>
      cases hfails
      rw [ExpressionError.isOfValue_shift]
      exact hboth.resolve_left nofun
  | lacking _ _ _ _ ih => exact ih hfails
  | tooDeep _ hdeeper => cases hdeeper

/-- Where the operand can be read, it is skipped up to the same place; and where it cannot be
skipped, it is for its form. -/
structure Skippable (read : Operand) : Prop where
  same_place : ∀ {v : UInt32} {c c' : Cursor}, read false c = .ok (v, c') →
    ∃ w, read true c = .ok (w, { c' with reads := c.reads })
  by_form : ∀ {c : Cursor} {failure : Failure}, read true c = .error failure →
    failure.error.isOfValue = false

/-- Every operand is skipped in step, with the operators behind it, however deeply it is nested. -/
theorem skippable_operandAndMore (scope : Scope) (levels : Nat) (steps : List Char → Nat)
    (least : Nat) :
    Skippable (operandAndMore (operand scope levels) (fun c => steps c.rest) least) := by
  have hread : ∀ skipping (c : Cursor), Tracks { skipped := some c.reads }
      (Went scope c) (FailsFrom scope (fun _ => True) c)
      (operandAndMore (operand scope levels) (fun c => steps c.rest) least skipping c)
      (operandAndMore (operand scope levels) (fun c => steps c.rest) least true c) :=
    fun skipping c => walks_operandAndMore (fun _ _ _ _ => trivial)
      ((walks_operand scope { skipped := some c.reads } levels).mono fun _ _ => trivial)
      steps least skipping c
  refine ⟨fun {v c c'} hok => ?_, fun {c failure} => (hread false c).by_form⟩
  have hsame := hread false c
  rw [hok] at hsame
  generalize operandAndMore (operand scope levels) (fun c => steps c.rest) least true c = r at hsame
  cases hsame with
  | @reached _ w => exact ⟨w, rfl⟩

/-! ## Sides that are not taken -/

/-- `result` comes of passing over a side of an operator at `c`, whose value does not count,
and of going on with `next` behind it. -/
structure PassesOver (side : Operand) (c : Cursor) (next : Cursor → Evaluated)
    (result : Evaluated) : Prop where
  goes_on : ∀ w c', side true c = .ok (w, c') → result = next c'
  same_place : ∀ v c', side false c = .ok (v, c') → result = next { c' with reads := c.reads }
  by_form : ∀ failure, side true c = .error failure →
    result = .error failure ∧ failure.error.isOfValue = false

theorem Skippable.passesOver {side : Operand} (h : Skippable side) {c : Cursor}
    {next : Cursor → Evaluated} {result : Evaluated}
    (hresult : result = side true c >>= fun read => next read.2) :
    PassesOver side c next result where
  goes_on w c' hside := by rw [hresult, hside]; rfl
  same_place v c' hside := by
    obtain ⟨w, hskip⟩ := h.same_place hside
    rw [hresult, hskip]
    rfl
  by_form failure hside := ⟨by rw [hresult, hside]; rfl, h.by_form hside⟩

section Sides

variable {operand : Operand} {steps least length : Nat} {lhs : UInt32} {c : Cursor}
  (h : ∀ least, Skippable (operandAndMore operand (fun _ => steps) least))
include h

theorem passesOver_of_decided {op : Operator} {value : UInt32}
    (hop : Operator.atStart? c.skipSpace.rest = some (op, length)) (hle : least ≤ op.level)
    (hdecided : op.decided? lhs.toNat = some value.toNat) :
    PassesOver (operandAndMore operand (fun _ => steps) (rightLevel op.level))
      (c.skipSpace.advance length) (climb operand steps least false value)
      (climb operand (steps + 1) least false lhs c) := by
  have htwo : op.takesTwo = true := by
    rcases takesTwo_of_atStart? hop with htwo | rfl | rfl
    · exact htwo
    · cases hdecided
    · cases hdecided
  have hskips : op.skips false lhs = true := by
    rw [Operator.skips_eq, hdecided]
    rfl
  refine (h (rightLevel op.level)).passesOver ?_
  rw [climb_joined operand htwo hop hle, hskips]
  refine congrArg _ (funext fun ⟨rhs, after⟩ => ?_)
  obtain ⟨w, hfinish, hw⟩ := Operator.finish_of_decided hdecided rhs after c.skipSpace.offset
  cases UInt32.toNat_inj.mp hw
  simp only [hfinish]
  rfl

theorem passesOver_first
    (hop : Operator.atStart? c.skipSpace.rest = some (.ternary, length)) (hle : least ≤ 3) :
    PassesOver (operandAndMore operand (fun _ => steps) 1) (c.skipSpace.advance length)
      (fun c => do
        let c ← expectColon c
        let (other, c) ← operandAndMore operand (fun _ => steps) 3 false c
        climb operand steps least false other c)
      (climb operand (steps + 1) least false 0 c) :=
  (h 1).passesOver (climb_ternary operand hop hle)

theorem passesOver_second {taken : UInt32} {behind other : Cursor}
    (hop : Operator.atStart? c.skipSpace.rest = some (.ternary, length)) (hle : least ≤ 3)
    (hlhs : lhs ≠ 0)
    (htaken : operandAndMore operand (fun _ => steps) 1 false (c.skipSpace.advance length) =
      .ok (taken, behind))
    (hcolon : expectColon behind = .ok other) :
    PassesOver (operandAndMore operand (fun _ => steps) 3) other
      (climb operand steps least false taken) (climb operand (steps + 1) least false lhs c) := by
  have hzero : (lhs == 0) = false := beq_eq_false_iff_ne.mpr hlhs
  have hnonzero : (lhs != 0) = true := bne_iff_ne.mpr hlhs
  refine (h 3).passesOver ?_
  rw [climb_ternary operand hop hle, hzero, Bool.or_false, htaken]
  show (expectColon behind >>= _) = _
  rw [hcolon, hnonzero]
  rfl

end Sides

/-- Text whose value does not count is transparent.  From any place, and for operators of any
precedence: where an operand and what follows it can be read, it is skipped up to the same
place; and where it cannot be skipped, it is for its form or its nesting.  So a side that is
not taken never moves what is read behind it, and fails for its form alone: the right of an
operator that its left decides, and the branch of a ternary that the condition leaves out.

A whole `expression` is the case of as many steps as characters are left, and of precedence 1. -/
theorem skipping_is_transparent (scope : Scope) (levels : Nat) :
    (∀ (steps : List Char → Nat) (least : Nat) (c : Cursor),
      let read := operandAndMore (operand scope levels) (fun c => steps c.rest) least
      (∀ v c', read false c = .ok (v, c') →
        ∃ w, read true c = .ok (w, { c' with reads := c.reads })) ∧
      ∀ failure, read true c = .error failure → failure.error.isOfValue = false) ∧
    ∀ (steps least length : Nat) (lhs : UInt32) (c : Cursor),
      let side (least : Nat) := operandAndMore (operand scope levels) (fun _ => steps) least
      let goOn (value : UInt32) := climb (operand scope levels) steps least false value
      let result := climb (operand scope levels) (steps + 1) least false lhs c
      let behind := c.skipSpace.advance length
      (∀ op value, Operator.atStart? c.skipSpace.rest = some (op, length) → least ≤ op.level →
        op.decided? lhs.toNat = some value.toNat →
          PassesOver (side (rightLevel op.level)) behind (goOn value) result) ∧
      (Operator.atStart? c.skipSpace.rest = some (.ternary, length) → least ≤ 3 →
        (lhs = 0 →
          PassesOver (side 1) behind
            (fun c => do
              let c ← expectColon c
              let (other, c) ← side 3 false c
              goOn other c)
            result) ∧
        (lhs ≠ 0 → ∀ taken colon other, side 1 false behind = .ok (taken, colon) →
          expectColon colon = .ok other → PassesOver (side 3) other (goOn taken) result)) := by
  have hside : ∀ (steps : List Char → Nat) least,
      Skippable (operandAndMore (operand scope levels) (fun c => steps c.rest) least) :=
    skippable_operandAndMore scope levels
  refine ⟨fun steps least c => ?_, fun steps least length lhs c => ⟨?_, ?_⟩⟩
  · exact ⟨fun v c' => (hside steps least).same_place, fun failure => (hside steps least).by_form⟩
  · exact fun op value hop hle hdecided =>
      passesOver_of_decided (hside fun _ => steps) hop hle hdecided
  · refine fun hop hle => ⟨?_, ?_⟩
    · rintro rfl
      exact passesOver_first (hside fun _ => steps) hop hle
    · exact fun hlhs taken colon other htaken hcolon =>
        passesOver_second (hside fun _ => steps) hop hle hlhs htaken hcolon

-- The right of `&&` is passed over up to the comma, unless the left is not zero.
example : evaluate { symbols := {}, options := {} } "0 && <option:gone> , 7".toList none =
    .ok ⟨7, 22⟩ := by rfl
example : evaluate { symbols := {}, options := {} } "1 && <option:gone> , 7".toList none =
    .error (.optionNotFound "gone") := by rfl

end Expression
end CodePatch
