/-
# One climb over the operators

What `climb` does with one operator in front of it, and where it stops.  A
printed tree is read in two ways: as an operand, which yields its value
(`Yields`), and as the first operands of a longer text, after which the climb
goes on (`Continues`).  Where a value is not asked for, any value will do.

The climb stops at the end, at a colon, and at an operator that binds too weakly
for it (`Follows`).
-/
import CodePatch.Proofs.Expression.Tokens

namespace CodePatch

namespace Cursor

theorem skipSpace_rest (c : Cursor) : c.skipSpace.rest = c.rest.dropWhile isSpace := by
  have hsplit : c.rest.takeWhile isSpace ++ c.rest.dropWhile isSpace = c.rest :=
    List.takeWhile_append_dropWhile
  calc c.rest.drop (c.rest.takeWhile isSpace).length
      = (c.rest.takeWhile isSpace ++ c.rest.dropWhile isSpace).drop
          (c.rest.takeWhile isSpace).length := by rw [hsplit]
    _ = c.rest.dropWhile isSpace := List.drop_left

theorem length_skipSpace_le (c : Cursor) : c.skipSpace.rest.length ≤ c.rest.length :=
  (List.drop_sublist _ c.rest).length_le

theorem dropWhile_dropWhile (text : List Char) :
    (text.dropWhile isSpace).dropWhile isSpace = text.dropWhile isSpace := by
  induction text with
  | nil => rfl
  | cons first rest ih =>
      by_cases hfirst : isSpace first = true
      · rw [List.dropWhile_cons, if_pos hfirst, ih]
      · rw [List.dropWhile_cons, if_neg hfirst, List.dropWhile_cons, if_neg hfirst]

/-- The place has been reached from which `tail` is left, up to blanks. -/
structure Stands (c : Cursor) (tail : List Char) : Prop where
  rest : c.skipSpace.rest = tail.dropWhile isSpace
  length : c.rest.length ≤ tail.length

theorem stands_of_rest {c : Cursor} {tail : List Char} (h : c.rest = tail) : c.Stands tail where
  rest := by rw [skipSpace_rest, h]
  length := Nat.le_of_eq (congrArg List.length h)

theorem Stands.skipSpace {c : Cursor} {tail : List Char} (h : c.Stands tail) :
    c.skipSpace.Stands tail where
  rest := by rw [skipSpace_rest, h.rest, dropWhile_dropWhile]
  length := Nat.le_trans c.length_skipSpace_le h.length

theorem Stands.rest_of_solid {c : Cursor} {text : List Char} (h : c.Stands (' ' :: text))
    (hsolid : Expression.StartsSolid text) : c.skipSpace.rest = text :=
  h.rest.trans hsolid.dropWhile

theorem skipSpace_advance_of_solid {c : Cursor} {token text : List Char}
    (h : c.rest = token ++ ' ' :: text) (hsolid : Expression.StartsSolid text) :
    (c.advance token.length).skipSpace.rest = text := by
  have hrest : (c.advance token.length).rest = ' ' :: text := by
    rw [advance, h]
    exact List.drop_left
  rw [skipSpace_rest, hrest]
  exact hsolid.dropWhile

end Cursor

namespace Expression

/-- What comes of reading a text of this value: the value and the place in front
of `tail`, or a division by zero. -/
inductive Yields (tail : List Char) (skipping : Bool) (value : Option Nat) : Evaluated → Prop where
  | value {v : UInt32} {c : Cursor} (right : skipping = false → value = some v.toNat)
      (stands : c.Stands tail) : Yields tail skipping value (.ok (v, c))
  | failure {offset reads : Nat} (counts : skipping = false) (none : value = none) :
      Yields tail skipping value (.error ⟨.divisionByZero offset, reads⟩)

/-- What comes of reading a text of this value and climbing on behind it. -/
inductive Continues (operand : Operand) (least : Nat) (tail : List Char) (skipping : Bool)
    (value : Option Nat) : Evaluated → Prop where
  | climbing {v : UInt32} {c : Cursor} {steps : Nat}
      (right : skipping = false → value = some v.toNat) (stands : c.Stands tail)
      (enough : c.rest.length ≤ steps) :
      Continues operand least tail skipping value (climb operand steps least skipping v c)
  | failure {offset reads : Nat} (counts : skipping = false) (none : value = none) :
      Continues operand least tail skipping value (.error ⟨.divisionByZero offset, reads⟩)

theorem Yields.bind {tail : List Char} {skipping : Bool} {value : Option Nat} {r : Evaluated}
    {f : UInt32 × Cursor → Evaluated} {P : Evaluated → Prop}
    (h : Yields tail skipping value r)
    (hok : ∀ v c, (skipping = false → value = some v.toNat) → c.Stands tail → P (f (v, c)))
    (hfail : ∀ offset reads, skipping = false → value = none →
      P (.error ⟨.divisionByZero offset, reads⟩)) :
    P (r >>= f) := by
  cases h with
  | value hright hstands => exact hok _ _ hright hstands
  | failure hcounts hnone => exact hfail _ _ hcounts hnone

theorem Continues.extend {operand : Operand} {least : Nat} {tail : List Char} {skipping : Bool}
    {value : Option Nat} {r : Evaluated} {P : Evaluated → Prop}
    (h : Continues operand least tail skipping value r)
    (hok : ∀ v c steps, (skipping = false → value = some v.toNat) → c.Stands tail →
      c.rest.length ≤ steps → P (climb operand steps least skipping v c))
    (hfail : ∀ offset reads, skipping = false → value = none →
      P (.error ⟨.divisionByZero offset, reads⟩)) :
    P r := by
  cases h with
  | climbing hright hstands henough => exact hok _ _ _ hright hstands henough
  | failure hcounts hnone => exact hfail _ _ hcounts hnone

/-! ## Where the climb stops -/

/-- Behind an expression there is nothing, or a colon, or an operator below `bound`. -/
inductive Follows (bound : Nat) : List Char → Prop where
  | nothing : Follows bound []
  | blank : Follows bound [' ']
  | colon (rest : List Char) : Follows bound (' ' :: ':' :: rest)
  | operator {op : Operator} (printed : op.isPrinted = true) (below : op.level < bound)
      (rest : List Char) : Follows bound (' ' :: (op.spelling ++ ' ' :: rest))

namespace Follows

theorem mono {bound bound' : Nat} {tail : List Char} (h : Follows bound tail)
    (hle : bound ≤ bound') : Follows bound' tail := by
  cases h with
  | nothing => exact nothing
  | blank => exact blank
  | colon rest => exact colon rest
  | operator printed below rest => exact operator printed (Nat.lt_of_lt_of_le below hle) rest

theorem apart {bound : Nat} {tail : List Char} (h : Follows bound tail) : Literal.Apart tail := by
  cases h with
  | nothing => exact nofun
  | blank => exact fun c hc => (Option.mem_some.mp hc).symm
  | colon rest => exact fun c hc => (Option.mem_some.mp hc).symm
  | operator printed below rest => exact fun c hc => (Option.mem_some.mp hc).symm

theorem atStart? {bound : Nat} {tail : List Char} (h : Follows bound tail) {op : Operator}
    {length : Nat} (hop : Operator.atStart? (tail.dropWhile Cursor.isSpace) = some (op, length)) :
    op.precedence < bound := by
  cases h with
  | nothing => cases hop
  | blank => cases hop
  | colon rest => cases hop
  | @operator op' printed below rest =>
      have hsolid : StartsSolid (op'.spelling ++ ' ' :: rest) := op'.startsSolid_spelling.append _
      have hskip : (' ' :: (op'.spelling ++ ' ' :: rest)).dropWhile Cursor.isSpace =
          op'.spelling ++ ' ' :: rest := hsolid.dropWhile
      rw [hskip, Operator.atStart?_spelling printed] at hop
      cases hop
      rwa [Operator.precedence_eq_level]

end Follows

theorem climb_still (operand : Operand) {steps least : Nat} {skipping : Bool} {lhs : UInt32}
    {c : Cursor} (h : ∀ op length, Operator.atStart? c.skipSpace.rest = some (op, length) →
      op.level < least) :
    climb operand (steps + 1) least skipping lhs c = .ok (lhs, c.skipSpace) := by
  rw [climb]
  rcases hop : Operator.atStart? c.skipSpace.rest with _ | ⟨op, length⟩
  · rfl
  · have hbelow : op.precedence < least := by
      rw [Operator.precedence_eq_level]
      exact h op length hop
    exact if_pos hbelow

theorem goes_or_still (c : Cursor) (least : Nat) :
    (∃ op length, Operator.atStart? c.skipSpace.rest = some (op, length) ∧ least ≤ op.level) ∨
      ∀ op length, Operator.atStart? c.skipSpace.rest = some (op, length) → op.level < least := by
  rcases Classical.em (∃ op length,
      Operator.atStart? c.skipSpace.rest = some (op, length) ∧ least ≤ op.level) with hgoes | hgoes
  · exact .inl hgoes
  · exact .inr fun op length hop => Nat.lt_of_not_le fun hle => hgoes ⟨op, length, hop, hle⟩

theorem climb_stop (operand : Operand) {steps least bound : Nat} {skipping : Bool} {lhs : UInt32}
    {c : Cursor} {tail : List Char} (hstands : c.Stands tail) (hfollows : Follows bound tail)
    (hle : bound ≤ least) :
    ∃ c', climb operand steps least skipping lhs c = .ok (lhs, c') ∧ c'.Stands tail := by
  cases steps with
  | zero => exact ⟨c, rfl, hstands⟩
  | succ steps =>
      refine ⟨c.skipSpace, climb_still operand fun op length hop => ?_, hstands.skipSpace⟩
      rw [← Operator.precedence_eq_level]
      exact Nat.lt_of_lt_of_le (hfollows.atStart? (hstands.rest ▸ hop)) hle

/-- The climb ends where nothing is left for it. -/
theorem Continues.yields {operand : Operand} {least bound : Nat} {tail : List Char}
    {skipping : Bool} {value : Option Nat} {r : Evaluated}
    (h : Continues operand least tail skipping value r) (hfollows : Follows bound tail)
    (hle : bound ≤ least) : Yields tail skipping value r := by
  cases h with
  | climbing hright hstands _ =>
      obtain ⟨c', hstop, hstands'⟩ := climb_stop operand hstands hfollows hle
      rw [hstop]
      exact .value hright hstands'
  | failure hcounts hnone => exact .failure hcounts hnone

/-! ## One operator -/

/-- An operand and the operators behind it that bind at least as strongly as `least`,
in as many steps as `steps` allows from there. -/
def operandAndMore (operand : Operand) (steps : Cursor → Nat) (least : Nat) (skipping : Bool)
    (c : Cursor) : Evaluated := do
  let (first, c) ← operand skipping c
  climb operand (steps c) least skipping first c

theorem climb_joined (operand : Operand) {op : Operator} (two : op.takesTwo = true)
    {steps least length : Nat} {skipping : Bool} {lhs : UInt32} {c : Cursor}
    (hop : Operator.atStart? c.skipSpace.rest = some (op, length)) (hle : least ≤ op.level) :
    climb operand (steps + 1) least skipping lhs c = (do
      let (rhs, after) ← operandAndMore operand (fun _ => steps) (rightLevel op.level)
        (op.skips skipping lhs) (c.skipSpace.advance length)
      let value ← op.finish skipping lhs rhs after c.skipSpace.offset
      climb operand steps least skipping value after) := by
  have hnot : ¬ op.precedence < least := by
    rw [Operator.precedence_eq_level]
    exact Nat.not_lt.mpr hle
  rw [climb]
  simp only [hop, if_neg hnot]
  cases op with
  | binary op => cases op <;> rfl
  | orElse => rfl
  | comma => rfl
  | assign compound =>
      rcases compound with _ | op
      · rfl
      · cases op <;> rfl
  | ternary => cases two
  | increment => cases two

theorem climb_ternary (operand : Operand) {steps least length : Nat} {skipping : Bool}
    {lhs : UInt32} {c : Cursor}
    (hop : Operator.atStart? c.skipSpace.rest = some (.ternary, length)) (hle : least ≤ 3) :
    climb operand (steps + 1) least skipping lhs c = (do
      let (taken, c) ← operandAndMore operand (fun _ => steps) 1 (skipping || lhs == 0)
        (c.skipSpace.advance length)
      let c ← expectColon c
      let (other, c) ← operandAndMore operand (fun _ => steps) 3 (skipping || lhs != 0) c
      climb operand steps least skipping (if lhs != 0 then taken else other) c) := by
  have hnot : ¬ Operator.ternary.precedence < least := Nat.not_lt.mpr hle
  rw [climb]
  simp only [hop, if_neg hnot]
  rfl

/-- Whatever stands behind an operand stands between two, or is a `?`, `++` or `--`. -/
theorem takesTwo_of_atStart? {text : List Char} {op : Operator} {length : Nat}
    (h : Operator.atStart? text = some (op, length)) :
    op.takesTwo = true ∨ op = .ternary ∨ op = .increment := by
  have hall : ∀ entry ∈ Operator.tokens,
      entry.2.takesTwo = true ∨ entry.2 = .ternary ∨ entry.2 = .increment := by
    decide
  rw [Operator.atStart?, Option.map_eq_some_iff] at h
  obtain ⟨entry, hfind, heq⟩ := h
  cases heq
  exact hall entry (List.mem_of_find?_eq_some hfind)

theorem climb_increment (operand : Operand) {steps least length : Nat} {skipping : Bool}
    {lhs : UInt32} {c : Cursor}
    (hop : Operator.atStart? c.skipSpace.rest = some (.increment, length)) (hle : least ≤ 14) :
    climb operand (steps + 1) least skipping lhs c =
      climb operand steps least skipping lhs (c.skipSpace.advance length) := by
  have hnot : ¬ Operator.increment.precedence < least := Nat.not_lt.mpr hle
  rw [climb]
  simp only [hop, if_neg hnot]

end Expression
end CodePatch
