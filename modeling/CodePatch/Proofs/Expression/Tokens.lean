/-
# Tokens in front of a blank

In a printed tree every token is followed by a blank or by nothing, so the
evaluator finds exactly the token that was printed: no operator runs into the
next one, no literal runs on into letters, and neither is taken for the other,
for a cast, or for a register.

Of literals more is said: each of their forms is read up to the end of its run
of digits, in front of anything that does not go on with the run.
-/
import CodePatch.Proofs.Expression.Printed
import CodePatch.Proofs.Expression.Words
import CodePatch.Proofs.Text.HexDigits
import CodePatch.Proofs.Text.Utf8
import CodePatch.Expression.Literal
import CodePatch.Registers

namespace CodePatch

/-! ## Operators -/

theorem Operator.atStart?_spelling {op : Operator} (h : op.isPrinted = true) (rest : List Char) :
    atStart? (op.spelling ++ ' ' :: rest) = some (op, op.spelling.length) := by
  cases op with
  | binary op => cases op <;> rfl
  | assign compound =>
      rcases compound with _ | op
      · rfl
      · cases op <;> first | rfl | cases h
  | increment => cases h
  | _ => rfl

theorem Operator.startsSolid_spelling (op : Operator) : Expression.StartsSolid op.spelling := by
  cases op with
  | binary op => cases op <;> exact ⟨_, _, rfl, by decide, by decide⟩
  | assign compound =>
      rcases compound with _ | op
      · exact ⟨_, _, rfl, by decide, by decide⟩
      · cases op <;> exact ⟨_, _, rfl, by decide, by decide⟩
  | _ => exact ⟨_, _, rfl, by decide, by decide⟩

/-! ## Casts -/

theorem Cast.atStart?_token (type : Expression.IntegerType) (rest : List Char) :
    atStart? (type.token ++ rest) = some (type.toCast, type.token.length) := by
  cases type <;> rfl

theorem Cast.atStart?_sign (op : Expression.UnaryOp) (rest : List Char) :
    atStart? (op.sign :: rest) = none := by
  cases op <;> rfl

/-- A bracket that a blank follows opens a group, not a cast. -/
theorem Cast.atStart?_group (rest : List Char) : atStart? ('(' :: ' ' :: rest) = none := rfl

/-! ## Digits -/

namespace Text

theorem toLower_of_isDigit {c : Char} (h : c.isDigit = true) : c.toLower = c := by
  rw [Char.toLower, dif_neg]
  intro hupper
  exact absurd (UInt32.le_trans hupper.1 (bounds_of_isDigit h).2) (by decide)

end Text

theorem Cast.atStart?_digit {first : Char} (h : first.isDigit = true) (rest : List Char) :
    atStart? (first :: rest) = none := by
  rw [atStart?, Option.map_eq_none_iff, List.find?_eq_none]
  intro entry hentry hlike
  simp only [tokens, List.mem_cons, List.not_mem_nil, or_false] at hentry
  have hhead := congrArg List.head? (eq_of_beq hlike)
  rcases hentry with rfl | rfl | rfl | rfl | rfl | rfl | rfl | rfl | rfl | rfl | rfl <;>
    simp [Text.toLower_of_isDigit h] at hhead <;> subst hhead <;> revert h <;> decide

theorem Register.atStart?_digit {first : Char} (h : first.isDigit = true) (rest : List Char) :
    atStart? (first :: rest) = none := by
  have hnone : ofName? ((first :: rest).take nameLength) = none := by
    rw [ofName?, List.find?_eq_none]
    intro r hr hlike
    have hhead := congrArg List.head? (eq_of_beq hlike)
    cases r <;> simp [name, nameLength, Text.toLower_of_isDigit h] at hhead <;> subst hhead <;>
      revert h <;> decide
  rw [atStart?, hnone, ite_self]

/-! ## Literals -/

namespace Literal

/-- Nothing is left, or a blank separates what is left. -/
def Apart (tail : List Char) : Prop :=
  ∀ c ∈ tail.head?, c = ' '

theorem value_of_isNumeral {radix : UInt32} {digits : List Char} {n : Nat}
    (h : Text.IsNumeral radix.toNat digits n) : value radix digits = UInt32.ofNat n := by
  unfold value
  induction h with
  | @digit c d h =>
      rw [List.foldl_cons, List.foldl_nil, h, Option.getD_some, UInt32.zero_mul, UInt32.zero_add]
  | @more digits n d c front h ih =>
      rw [List.foldl_append, ih, List.foldl_cons, List.foldl_nil, h, Option.getD_some,
        UInt32.ofNat_add, UInt32.ofNat_mul, UInt32.ofNat_toNat]

theorem isDigit_of_mem {n : Nat} {c : Char} (h : c ∈ Nat.toDigits 10 n) : c.isDigit = true :=
  Nat.isDigit_of_mem_toDigits (by decide) (by decide) h

section Runs
variable {digits tail : List Char} {n : Nat}

/-- What is left does not go on with a run of digits. -/
def Ends (isDigit : Char → Bool) (tail : List Char) : Prop :=
  ∀ c ∈ tail.head?, isDigit c = false

theorem takeWhile_run {isDigit : Char → Bool} (h : ∀ c ∈ digits, isDigit c = true)
    (htail : Ends isDigit tail) : (digits ++ tail).takeWhile isDigit = digits := by
  have hstop : tail.takeWhile isDigit = [] := by
    rcases tail with _ | ⟨c, rest⟩
    · rfl
    · exact List.takeWhile_cons_of_neg (Bool.eq_false_iff.mp (htail c rfl))
  rw [List.takeWhile_append_of_pos h, hstop, List.append_nil]

theorem marked?_of_isNumeral (radix : UInt32) (h : Text.IsNumeral radix.toNat digits n)
    (mark : Nat) (base : UInt32) :
    marked? mark base radix digits = some (base + UInt32.ofNat n, mark + digits.length) := by
  have hsome : ¬ digits.isEmpty = true := fun hempty => h.ne_nil (List.isEmpty_iff.mp hempty)
  rw [marked?, if_neg hsome, value_of_isNumeral h]

theorem atStart?_hex (moduleBase : UInt32) {mark : Char} (hmark : mark = 'x' ∨ mark = 'X')
    (h : Text.IsNumeral 16 digits n) (htail : Ends Text.isHexDigit tail) :
    atStart? moduleBase ('0' :: mark :: (digits ++ tail)) =
      some (UInt32.ofNat n, 2 + digits.length) := by
  have hlike : Text.startsLike ['0', 'x'] ('0' :: mark :: (digits ++ tail)) = true := by
    rcases hmark with rfl | rfl <;> rfl
  rw [atStart?, if_pos hlike, List.drop_succ_cons, List.drop_succ_cons, List.drop_zero, hexRun,
    takeWhile_run h.isHexDigit htail, marked?_of_isNumeral 16 h, UInt32.zero_add]

theorem atStart?_relativeHex (moduleBase : UInt32) {letter mark : Char}
    (hletter : letter = 'r' ∨ letter = 'R') (hmark : mark = 'x' ∨ mark = 'X')
    (h : Text.IsNumeral 16 digits n) (htail : Ends Text.isHexDigit tail) :
    atStart? moduleBase (letter :: mark :: (digits ++ tail)) =
      some (moduleBase + UInt32.ofNat n, 2 + digits.length) := by
  have hlike : Text.startsLike ['0', 'x'] (letter :: mark :: (digits ++ tail)) = false ∧
      Text.startsLike ['r', 'x'] (letter :: mark :: (digits ++ tail)) = true := by
    rcases hletter with rfl | rfl <;> rcases hmark with rfl | rfl <;> exact ⟨rfl, rfl⟩
  rw [atStart?, hlike.1, if_neg Bool.false_ne_true, if_pos hlike.2, List.drop_succ_cons,
    List.drop_succ_cons, List.drop_zero, hexRun, takeWhile_run h.isHexDigit htail,
    marked?_of_isNumeral 16 h]

/-- Without a mark behind the letter, the digits are decimal; none of them is an `x`. -/
theorem atStart?_relative (moduleBase : UInt32) {letter : Char}
    (hletter : letter = 'r' ∨ letter = 'R') (h : Text.IsNumeral 10 digits n)
    (htail : Ends Char.isDigit tail) :
    atStart? moduleBase (letter :: (digits ++ tail)) =
      some (moduleBase + UInt32.ofNat n, 1 + digits.length) := by
  have hlike : Text.startsLike ['0', 'x'] (letter :: (digits ++ tail)) = false ∧
      Text.startsLike ['r', 'x'] (letter :: (digits ++ tail)) = false ∧
      Text.startsLike ['r'] (letter :: (digits ++ tail)) = true := by
    obtain ⟨first, rest, rfl⟩ := List.exists_cons_of_ne_nil h.ne_nil
    have hfirst : first.isDigit = true := h.isDigit first List.mem_cons_self
    have hmark : first.toLower ≠ 'x' := by
      rw [Text.toLower_of_isDigit hfirst]
      rintro rfl
      cases hfirst
    refine ⟨?_, beq_eq_false_iff_ne.mpr fun heq => hmark ?_, ?_⟩
    · rcases hletter with rfl | rfl <;> rfl
    · exact (List.cons.inj (List.cons.inj heq).2).1
    · rcases hletter with rfl | rfl <;> rfl
  rw [atStart?, hlike.1, hlike.2.1, hlike.2.2, if_neg Bool.false_ne_true,
    if_neg Bool.false_ne_true, if_pos rfl, List.drop_succ_cons, List.drop_zero, decimalRun,
    takeWhile_run h.isDigit htail, marked?_of_isNumeral 10 h]

theorem eq_of_toLower_eq_x {c : Char} (h : c.toLower = 'x') : c = 'x' ∨ c = 'X' := by
  rcases Text.toLower_cases c with hsame | ⟨-, -, hcapital⟩
  · exact Or.inl (hsame.symm.trans h)
  · rw [h] at hcapital
    have hx : 'x'.toNat = 'X'.toNat + 32 := by decide
    exact Or.inr (Char.toNat_inj.mp (Nat.add_right_cancel (hcapital.symm.trans hx)))

/-- A digit is no mark of a literal, nor is a zero, if no `x` is next to it. -/
theorem startsLike_mark {first : Char} {rest : List Char} (h : first.isDigit = true)
    (hrest : first = '0' → ∀ c ∈ rest.head?, c ≠ 'x' ∧ c ≠ 'X') :
    Text.startsLike ['0', 'x'] (first :: rest) = false ∧
    Text.startsLike ['r', 'x'] (first :: rest) = false ∧
    Text.startsLike ['r'] (first :: rest) = false := by
  have hlower := Text.toLower_of_isDigit h
  have hletter : first ≠ 'r' := by
    rintro rfl
    cases h
  refine ⟨?_, ?_, ?_⟩
  · cases rest with
    | nil => exact beq_eq_false_iff_ne.mpr fun heq => nomatch (List.cons.inj heq).2
    | cons c rest =>
        refine beq_eq_false_iff_ne.mpr fun heq => ?_
        obtain ⟨hzero, hmark⟩ := List.cons.inj heq
        have hnext := hrest (hlower.symm.trans hzero) c rfl
        exact (eq_of_toLower_eq_x (List.cons.inj hmark).1).elim hnext.1 hnext.2
  · refine beq_eq_false_iff_ne.mpr fun heq => hletter ?_
    exact hlower.symm.trans (List.cons.inj heq).1
  · refine beq_eq_false_iff_ne.mpr fun heq => hletter ?_
    exact hlower.symm.trans (List.cons.inj heq).1

/-- A run that starts with a digit is read in base ten if all of it is decimal. -/
theorem atStart?_plain (moduleBase : UInt32) (hfirst : digits.head?.any Char.isDigit = true)
    (hdigits : ∀ c ∈ digits, Text.isHexDigit c = true) (htail : Ends Text.isHexDigit tail)
    (hmark : digits = ['0'] → ∀ c ∈ tail.head?, c ≠ 'x' ∧ c ≠ 'X') :
    atStart? moduleBase (digits ++ tail) =
      some (value (if digits.all Char.isDigit then 10 else 16) digits, digits.length) := by
  rcases digits with _ | ⟨first, rest⟩
  · cases hfirst
  · have hnext : first = '0' → ∀ c ∈ (rest ++ tail).head?, c ≠ 'x' ∧ c ≠ 'X' := by
      rintro rfl c hc
      rcases rest with _ | ⟨second, rest⟩
      · exact hmark rfl c hc
      · cases hc
        have hdigit := hdigits c (List.mem_cons_of_mem _ List.mem_cons_self)
        exact ⟨Text.ne_of_isHexDigit hdigit rfl, Text.ne_of_isHexDigit hdigit rfl⟩
    obtain ⟨hhex, hrelative, hmodule⟩ := startsLike_mark hfirst hnext
    have hrun : hexRun (first :: (rest ++ tail)) = first :: rest := takeWhile_run hdigits htail
    have hany : (first :: (rest ++ tail)).head?.any Char.isDigit = true := hfirst
    rw [List.cons_append, atStart?, hhex, hrelative, hmodule, if_neg Bool.false_ne_true,
      if_neg Bool.false_ne_true, if_neg Bool.false_ne_true, plain?, if_pos hany, hrun]

theorem atStart?_decimal (moduleBase : UInt32) (h : Text.IsNumeral 10 digits n)
    (htail : Ends Text.isHexDigit tail)
    (hmark : digits = ['0'] → ∀ c ∈ tail.head?, c ≠ 'x' ∧ c ≠ 'X') :
    atStart? moduleBase (digits ++ tail) = some (UInt32.ofNat n, digits.length) := by
  have hall : digits.all Char.isDigit = true := List.all_eq_true.mpr h.isDigit
  have hvalue : value 10 digits = UInt32.ofNat n := value_of_isNumeral h
  have hfirst : digits.head?.any Char.isDigit = true := by
    obtain ⟨first, rest, rfl⟩ := List.exists_cons_of_ne_nil h.ne_nil
    exact h.isDigit first List.mem_cons_self
  rw [atStart?_plain moduleBase hfirst h.isHexDigit htail hmark, if_pos hall, hvalue]

/-- What is left goes on neither with digits nor with the mark of a base. -/
def Closes (tail : List Char) : Prop :=
  ∀ c ∈ tail.head?, Text.isHexDigit c = false ∧ c ≠ 'x' ∧ c ≠ 'X'

theorem closes_nil : Closes [] := nofun

theorem Apart.closes (h : Apart tail) : Closes tail := by
  intro c hc
  rw [h c hc]
  decide

theorem atStart?_spelled (moduleBase : UInt32) {text : List Char} (h : Text.Spells n text)
    (htail : Closes tail) :
    atStart? moduleBase (text ++ tail) = some (UInt32.ofNat n, text.length) := by
  have hends : Ends Text.isHexDigit tail := fun c hc => (htail c hc).1
  cases h with
  | decimal h => exact atStart?_decimal moduleBase h hends fun _ c hc => (htail c hc).2
  | hex hmark h =>
      rw [List.cons_append, List.cons_append, atStart?_hex moduleBase hmark h hends,
        List.length_cons, List.length_cons, Nat.add_comm]

end Runs

theorem atStart?_toDigits (moduleBase : UInt32) (n : Nat) {tail : List Char} (h : Apart tail) :
    atStart? moduleBase (Nat.toDigits 10 n ++ tail) =
      some (UInt32.ofNat n, (Nat.toDigits 10 n).length) :=
  atStart?_spelled moduleBase (.decimal (Text.isNumeral_decimal n)) h.closes

end Literal
end CodePatch
