/-
# Numerals

A numeral is a digit, or a numeral with another digit behind it, and that is how its number
is put together (`IsNumeral`); it is the number that the digits stand for by their places
(`isNumeral_numberOf`).  Leading zeros and the case of letters make no difference to the
number; whoever reads digits below a limit gets the number of a numeral, and nothing else
(`readDigits_eq_ok_iff`).

A numeral may have a sign (`SignedNumeral`).  It is read in two's complement if its number fits,
and no other text is (`readSigned_eq_ok_iff`): where a sign is expected, there may be none, but
there are never two.

In a configuration a number is spelled in base ten, or in base sixteen behind a mark
(`Spells`), where it may be negative with a minus sign in front of all (`SpellsInt`), and there
may be blanks around it.  No digit is blank, and none is a sign.  What is read behind that minus
sign, or without one, is more than that: a sign may stand behind the mark (`MarkedNumeral`).
-/
import Mathlib
import CodePatch.Proofs.Text.Trim
import CodePatch.Text.Numeral

namespace CodePatch.Text

/-- `digits` are the number `n` in the base `radix`. -/
inductive IsNumeral (radix : Nat) : List Char → Nat → Prop where
  | digit {c : Char} {d : Nat} (h : digit? radix c = some d) : IsNumeral radix [c] d
  | more {digits : List Char} {n d : Nat} {c : Char} (front : IsNumeral radix digits n)
      (h : digit? radix c = some d) : IsNumeral radix (digits ++ [c]) (n * radix + d)

/-! ## Digits among other characters -/

theorem digit?_eq_some_iff {radix d : Nat} {c : Char} :
    digit? radix c = some d ↔ hexDigit? c = some d ∧ d < radix := by
  rw [digit?, Option.filter_eq_some_iff, decide_eq_true_eq]

theorem isHexDigit_of_digit? {radix d : Nat} {c : Char} (h : digit? radix c = some d) :
    isHexDigit c = true :=
  Option.isSome_of_eq_some (digit?_eq_some_iff.mp h).1

theorem bounds_of_isHexDigit {c : Char} (h : isHexDigit c = true) :
    (48 ≤ c.toNat ∧ c.toNat ≤ 57) ∨ (97 ≤ c.toNat ∧ c.toNat ≤ 102) ∨
      (65 ≤ c.toNat ∧ c.toNat ≤ 70) := by
  unfold isHexDigit hexDigit? at h
  split at h
  · rename_i hdecimal
    exact Or.inl hdecimal
  · split at h
    · rename_i hlower
      exact Or.inr (Or.inl hlower)
    · split at h
      · rename_i hupper
        exact Or.inr (Or.inr hupper)
      · cases h

theorem hexDigit?_lt {c : Char} {d : Nat} (h : hexDigit? c = some d) : d < 16 := by
  have hzero : '0'.toNat = 48 ∧ 'a'.toNat = 97 ∧ 'A'.toNat = 65 := by decide
  unfold hexDigit? at h
  split at h
  · rename_i hdecimal
    have hhigh : c.toNat ≤ 57 := hdecimal.2
    cases h
    omega
  · split at h
    · rename_i hlower
      have hhigh : c.toNat ≤ 102 := hlower.2
      cases h
      omega
    · split at h
      · rename_i hupper
        have hhigh : c.toNat ≤ 70 := hupper.2
        cases h
        omega
      · cases h

theorem exists_digit?_of_isHexDigit {c : Char} (h : isHexDigit c = true) :
    ∃ d, digit? 16 c = some d := by
  obtain ⟨d, hd⟩ := Option.isSome_iff_exists.mp h
  exact ⟨d, digit?_eq_some_iff.mpr ⟨hd, hexDigit?_lt hd⟩⟩

theorem bounds_of_isDigit {c : Char} (h : c.isDigit = true) : 48 ≤ c.val ∧ c.val ≤ 57 := by
  simpa [Char.isDigit] using h

theorem digit?_of_isDigit {c : Char} (h : c.isDigit = true) :
    digit? 10 c = some (c.toNat - '0'.toNat) := by
  have hbounds := bounds_of_isDigit h
  have hhigh : c.toNat ≤ 57 := hbounds.2
  have hzero : '0'.toNat = 48 := rfl
  exact digit?_eq_some_iff.mpr ⟨if_pos hbounds, by omega⟩

theorem isHexDigit_of_isDigit {c : Char} (h : c.isDigit = true) : isHexDigit c = true :=
  isHexDigit_of_digit? (digit?_of_isDigit h)

theorem isDigit_of_digit? {c : Char} {d : Nat} (h : digit? 10 c = some d) : c.isDigit = true := by
  obtain ⟨hdigit, hlt⟩ := digit?_eq_some_iff.mp h
  unfold hexDigit? at hdigit
  split at hdigit
  · rename_i hdecimal
    simp only [Char.isDigit, Bool.and_eq_true, decide_eq_true_eq]
    exact hdecimal
  -- the letters are worth ten at least
  · split at hdigit
    · cases hdigit
      omega
    · split at hdigit
      · cases hdigit
        omega
      · cases hdigit

theorem isBlank_of_isHexDigit {c : Char} (h : isHexDigit c = true) : isBlank c = false := by
  have hbounds := bounds_of_isHexDigit h
  rw [Bool.eq_false_iff]
  intro hblank
  obtain ⟨⟨first, last⟩, hrange, hin⟩ := List.any_eq_true.mp hblank
  obtain ⟨hfirst, hlast⟩ := Bool.and_eq_true_iff.mp hin
  have hfirst := of_decide_eq_true hfirst
  have hlast := of_decide_eq_true hlast
  simp only [blankRanges, List.mem_cons, Prod.mk.injEq, List.not_mem_nil, or_false] at hrange
  omega

theorem ne_of_isHexDigit {c mark : Char} (h : isHexDigit c = true)
    (hmark : isHexDigit mark = false) : c ≠ mark := by
  rintro rfl
  rw [h] at hmark
  cases hmark

theorem afterHexMark?_of_digits {digits : List Char} (h : ∀ c ∈ digits, isHexDigit c = true) :
    afterHexMark? digits = none := by
  unfold afterHexMark?
  split
  · exact absurd rfl (ne_of_isHexDigit (h 'x' (by simp)) rfl)
  · exact absurd rfl (ne_of_isHexDigit (h 'X' (by simp)) rfl)
  · rfl

/-! ## Numerals and their numbers -/

theorem readDigits_append (radix limit value : Nat) (front back : List Char) :
    readDigits radix limit value (front ++ back) =
      readDigits radix limit value front >>= fun n => readDigits radix limit n back := by
  induction front generalizing value with
  | nil => rfl
  | cons c rest ih =>
      simp only [List.cons_append, readDigits]
      split
      · rfl
      · split
        · exact ih _
        · rfl

theorem readDigits_digit {radix limit value d : Nat} {c : Char} (hc : digit? radix c = some d)
    (h : value * radix + d < limit) :
    readDigits radix limit value [c] = .ok (value * radix + d) := by
  simp only [readDigits, hc, if_pos h]

namespace IsNumeral
variable {radix limit n : Nat} {digits : List Char}

theorem ne_nil (h : IsNumeral radix digits n) : digits ≠ [] := by
  cases h with
  | digit _ => exact List.cons_ne_nil _ _
  | more _ _ => exact List.append_ne_nil_of_right_ne_nil _ (List.cons_ne_nil _ _)

theorem forall_digit (h : IsNumeral radix digits n) :
    ∀ c ∈ digits, ∃ d, digit? radix c = some d := by
  induction h with
  | digit h =>
      intro c hc
      exact ⟨_, List.mem_singleton.mp hc ▸ h⟩
  | more front h ih =>
      intro c hc
      rcases List.mem_append.mp hc with hc | hc
      · exact ih c hc
      · exact ⟨_, List.mem_singleton.mp hc ▸ h⟩

theorem isHexDigit (h : IsNumeral radix digits n) : ∀ c ∈ digits, Text.isHexDigit c = true := by
  intro c hc
  obtain ⟨d, hd⟩ := h.forall_digit c hc
  exact isHexDigit_of_digit? hd

theorem trimmed (h : IsNumeral radix digits n) : Trimmed digits :=
  trimmed_of_forall fun c hc => isBlank_of_isHexDigit (h.isHexDigit c hc)

theorem isDigit (h : IsNumeral 10 digits n) : ∀ c ∈ digits, c.isDigit = true := by
  intro c hc
  obtain ⟨d, hd⟩ := h.forall_digit c hc
  exact isDigit_of_digit? hd

theorem cons_zero (h : IsNumeral radix digits n) : IsNumeral radix ('0' :: digits) n := by
  induction h with
  | @digit c d h =>
      have hradix : 0 < radix := Nat.zero_lt_of_lt (digit?_eq_some_iff.mp h).2
      have hzero : digit? radix '0' = some 0 := digit?_eq_some_iff.mpr ⟨rfl, hradix⟩
      have hmore := (IsNumeral.digit hzero).more h
      rwa [Nat.zero_mul, Nat.zero_add] at hmore
  | more _ h ih => exact ih.more h

theorem append_zeros (h : IsNumeral radix digits n) (count : Nat) :
    IsNumeral radix (List.replicate count '0' ++ digits) n := by
  induction count with
  | zero => exact h
  | succ count ih => exact ih.cons_zero

/-- A numeral is read from the left, and no number on the way is greater than its own. -/
theorem readDigits (h : IsNumeral radix digits n) (hlt : n < limit) :
    Text.readDigits radix limit 0 digits = .ok n := by
  induction h with
  | @digit c d h =>
      have hd : 0 * radix + d = d := by omega
      rw [readDigits_digit h (by omega), hd]
  | @more digits n d c front h ih =>
      have hradix : 0 < radix := Nat.zero_lt_of_lt (digit?_eq_some_iff.mp h).2
      have hfront : n ≤ n * radix := Nat.le_mul_of_pos_right n hradix
      rw [readDigits_append, ih (by omega)]
      exact readDigits_digit h hlt

end IsNumeral

theorem readDigits_single_eq_ok {radix limit value n : Nat} {c : Char}
    (h : Text.readDigits radix limit value [c] = .ok n) :
    ∃ d, digit? radix c = some d ∧ n = value * radix + d ∧ n < limit := by
  simp only [Text.readDigits] at h
  split at h
  · cases h
  · rename_i d hd
    split at h
    · rename_i hlt
      cases h
      exact ⟨d, hd, rfl, hlt⟩
    · cases h

/-- What is read is a numeral, and nothing else is. -/
theorem readDigits_eq_ok_iff {radix limit n : Nat} {digits : List Char} (hne : digits ≠ []) :
    Text.readDigits radix limit 0 digits = .ok n ↔ IsNumeral radix digits n ∧ n < limit := by
  refine ⟨fun h => ?_, fun h => h.1.readDigits h.2⟩
  induction digits using List.reverseRecOn generalizing n with
  | nil => exact absurd rfl hne
  | append_singleton front c ih =>
      rw [readDigits_append] at h
      rcases hfront : Text.readDigits radix limit 0 front with _ | k
      · rw [hfront] at h
        cases h
      · rw [hfront] at h
        obtain ⟨d, hd, rfl, hlt⟩ := readDigits_single_eq_ok h
        refine ⟨?_, hlt⟩
        by_cases hnil : front = []
        · subst hnil
          cases hfront
          rw [Nat.zero_mul, Nat.zero_add]
          exact .digit hd
        · exact (ih hnil hfront).1.more hd

/-! ## Places -/

/-- The number that digits stand for by their places, the last one being the lowest. -/
def numberOf (radix : Nat) (digits : List Char) : Nat :=
  Nat.ofDigits radix (digits.filterMap hexDigit?).reverse

theorem numberOf_append {radix d : Nat} {c : Char} (front : List Char)
    (h : digit? radix c = some d) :
    numberOf radix (front ++ [c]) = numberOf radix front * radix + d := by
  have hdigit : [c].filterMap hexDigit? = [d] := by
    rw [List.filterMap_cons_some (digit?_eq_some_iff.mp h).1, List.filterMap_nil]
  rw [numberOf, List.filterMap_append, hdigit, List.reverse_append, List.reverse_singleton,
    List.singleton_append, Nat.ofDigits_cons, ← numberOf, Nat.mul_comm, Nat.add_comm]

theorem isNumeral_numberOf {radix : Nat} {digits : List Char} (hne : digits ≠ [])
    (h : ∀ c ∈ digits, ∃ d, digit? radix c = some d) :
    IsNumeral radix digits (numberOf radix digits) := by
  induction digits using List.reverseRecOn with
  | nil => exact absurd rfl hne
  | append_singleton front c ih =>
      obtain ⟨d, hd⟩ := h c (by simp)
      rw [numberOf_append front hd]
      by_cases hfront : front = []
      · subst hfront
        have hzero : numberOf radix [] * radix + d = d := by simp [numberOf]
        rw [hzero]
        exact .digit hd
      · exact (ih hfront fun e he => h e (List.mem_append_left _ he)).more hd

/-! ## Signs -/

theorem readUnsigned_digits {radix limit : Nat} {digits : List Char} (hne : digits ≠ [])
    (h : ∀ c ∈ digits, isHexDigit c = true) :
    readUnsigned radix limit digits = readDigits radix limit 0 digits := by
  rcases digits with _ | ⟨c, rest⟩
  · exact absurd rfl hne
  · have hplus : c ≠ '+' := ne_of_isHexDigit (h c List.mem_cons_self) rfl
    unfold readUnsigned
    split
    · rename_i heq
      cases heq
    · rename_i heq
      cases heq
      exact absurd rfl hplus
    · rename_i heq
      cases heq
      exact absurd rfl hplus
    · rfl

section Signed
variable {radix bits : Nat} {digits : List Char}

theorem readSigned_bare (hne : digits ≠ []) (hplus : ∀ rest, digits ≠ '+' :: rest)
    (hminus : ∀ rest, digits ≠ '-' :: rest) :
    readSigned radix bits digits =
      (readDigits radix (1 <<< (bits - 1)) 0 digits).map fun n : Nat => (n : Int) := by
  unfold readSigned
  split
  · exact absurd rfl hne
  · exact absurd rfl (hplus _)
  · exact absurd rfl (hminus _)
  · exact absurd rfl (hplus _)
  · exact absurd rfl (hminus _)
  · rfl

theorem readSigned_plus (hne : digits ≠ []) :
    readSigned radix bits ('+' :: digits) =
      (readDigits radix (1 <<< (bits - 1)) 0 digits).map fun n : Nat => (n : Int) := by
  cases digits with
  | nil => exact absurd rfl hne
  | cons c rest => rfl

/-- Behind a minus sign there is room for one more. -/
theorem readSigned_minus (hne : digits ≠ []) :
    readSigned radix bits ('-' :: digits) =
      (readDigits radix (1 <<< (bits - 1) + 1) 0 digits).map fun n : Nat => -(n : Int) := by
  cases digits with
  | nil => exact absurd rfl hne
  | cons c rest =>
      simp only [readSigned]
      rcases readDigits radix (1 <<< (bits - 1) + 1) 0 (c :: rest) with _ | _
      · rfl
      · rfl

theorem readSigned_digits (hne : digits ≠ []) (h : ∀ c ∈ digits, isHexDigit c = true) :
    readSigned radix bits digits =
      (readDigits radix (1 <<< (bits - 1)) 0 digits).map fun n : Nat => (n : Int) := by
  refine readSigned_bare hne ?_ ?_
  · rintro rest rfl
    exact absurd rfl (ne_of_isHexDigit (h '+' List.mem_cons_self) rfl)
  · rintro rest rfl
    exact absurd rfl (ne_of_isHexDigit (h '-' List.mem_cons_self) rfl)

end Signed

/-- A numeral, with or without a sign in front of it. -/
inductive SignedNumeral (radix : Nat) : List Char → Int → Prop where
  | bare {digits : List Char} {n : Nat} (h : IsNumeral radix digits n) :
      SignedNumeral radix digits n
  | plus {digits : List Char} {n : Nat} (h : IsNumeral radix digits n) :
      SignedNumeral radix ('+' :: digits) n
  | minus {digits : List Char} {n : Nat} (h : IsNumeral radix digits n) :
      SignedNumeral radix ('-' :: digits) (-n)

/-- The integers that `bits` bits hold in two's complement. -/
def Fits (bits : Nat) (n : Int) : Prop :=
  -2 ^ (bits - 1) ≤ n ∧ n < 2 ^ (bits - 1)

instance (bits : Nat) (n : Int) : Decidable (Fits bits n) :=
  inferInstanceAs (Decidable (_ ∧ _))

theorem map_readDigits_eq_ok_iff {radix limit : Nat} {digits : List Char} (hne : digits ≠ [])
    {f : Nat → Int} {n : Int} :
    (readDigits radix limit 0 digits).map f = .ok n ↔
      ∃ k, IsNumeral radix digits k ∧ k < limit ∧ n = f k := by
  constructor
  · intro h
    rcases hread : readDigits radix limit 0 digits with _ | k
    · rw [hread] at h
      cases h
    · rw [hread] at h
      cases h
      obtain ⟨hnumeral, hlt⟩ := (readDigits_eq_ok_iff hne).mp hread
      exact ⟨k, hnumeral, hlt, rfl⟩
  · rintro ⟨k, hnumeral, hlt, rfl⟩
    rw [hnumeral.readDigits hlt]
    rfl

theorem readSigned_eq_ok_iff {radix bits : Nat} {text : List Char} {n : Int} :
    readSigned radix bits text = .ok n ↔ SignedNumeral radix text n ∧ Fits bits n := by
  have hlimit : ((1 <<< (bits - 1) : Nat) : Int) = 2 ^ (bits - 1) := by
    rw [Nat.one_shiftLeft]
    push_cast
    rfl
  have hpositive : (0 : Int) < 2 ^ (bits - 1) := by positivity
  unfold Fits
  constructor
  · intro h
    rcases text with _ | ⟨c, digits⟩
    · cases h
    by_cases hplus : c = '+'
    · subst hplus
      have hne : digits ≠ [] := by
        rintro rfl
        cases h
      rw [readSigned_plus hne, map_readDigits_eq_ok_iff hne] at h
      obtain ⟨k, hnumeral, hlt, rfl⟩ := h
      exact ⟨.plus hnumeral, by omega⟩
    by_cases hminus : c = '-'
    · subst hminus
      have hne : digits ≠ [] := by
        rintro rfl
        cases h
      rw [readSigned_minus hne, map_readDigits_eq_ok_iff hne] at h
      obtain ⟨k, hnumeral, hlt, rfl⟩ := h
      exact ⟨.minus hnumeral, by omega⟩
    · rw [readSigned_bare (List.cons_ne_nil _ _) (fun _ heq => hplus (List.cons.inj heq).1)
        (fun _ heq => hminus (List.cons.inj heq).1),
        map_readDigits_eq_ok_iff (List.cons_ne_nil _ _)] at h
      obtain ⟨k, hnumeral, hlt, rfl⟩ := h
      exact ⟨.bare hnumeral, by omega⟩
  · rintro ⟨hsigned, hlow, hhigh⟩
    cases hsigned with
    | bare hnumeral =>
        rw [readSigned_digits hnumeral.ne_nil hnumeral.isHexDigit,
          map_readDigits_eq_ok_iff hnumeral.ne_nil]
        exact ⟨_, hnumeral, by omega, rfl⟩
    | plus hnumeral =>
        rw [readSigned_plus hnumeral.ne_nil, map_readDigits_eq_ok_iff hnumeral.ne_nil]
        exact ⟨_, hnumeral, by omega, rfl⟩
    | minus hnumeral =>
        rw [readSigned_minus hnumeral.ne_nil, map_readDigits_eq_ok_iff hnumeral.ne_nil]
        exact ⟨_, hnumeral, by omega, rfl⟩

/-! ## Spellings -/

/-- The ways to write a number in a configuration: in base ten, or in base sixteen behind
`0x` or `0X`. -/
inductive Spells (n : Nat) : List Char → Prop where
  | decimal {digits : List Char} (h : IsNumeral 10 digits n) : Spells n digits
  | hex {mark : Char} {digits : List Char} (hmark : mark = 'x' ∨ mark = 'X')
      (h : IsNumeral 16 digits n) : Spells n ('0' :: mark :: digits)

theorem Spells.trimmed {n : Nat} {text : List Char} (h : Spells n text) : Trimmed text := by
  cases h with
  | decimal h => exact h.trimmed
  | @hex mark digits hmark h =>
      have hfront : Trimmed ['0', mark] := by
        rcases hmark with rfl | rfl <;> decide
      exact hfront.append h.trimmed

theorem Spells.ne_minus {n : Nat} {text : List Char} (h : Spells n text) (rest : List Char) :
    text ≠ '-' :: rest := by
  rintro rfl
  cases h with
  | decimal h => exact absurd rfl (ne_of_isHexDigit (h.isHexDigit '-' List.mem_cons_self) rfl)

/-- The ways to write an integer: as its number, behind a minus sign if it is not positive. -/
inductive SpellsInt : Int → List Char → Prop where
  | plain {n : Nat} {text : List Char} (h : Spells n text) : SpellsInt n text
  | minus {n : Nat} {text : List Char} (h : Spells n text) : SpellsInt (-n) ('-' :: text)

theorem SpellsInt.trimmed {n : Int} {text : List Char} (h : SpellsInt n text) : Trimmed text := by
  cases h with
  | plain h => exact h.trimmed
  | minus h =>
      have hminus : Trimmed ['-'] := by decide
      exact hminus.append h.trimmed

/-! ## Marks -/

theorem afterHexMark?_eq_some_iff {text digits : List Char} :
    afterHexMark? text = some digits ↔
      ∃ mark, (mark = 'x' ∨ mark = 'X') ∧ text = '0' :: mark :: digits := by
  constructor
  · intro h
    unfold afterHexMark? at h
    split at h
    · cases h
      exact ⟨'x', Or.inl rfl, rfl⟩
    · cases h
      exact ⟨'X', Or.inr rfl, rfl⟩
    · cases h
  · rintro ⟨mark, rfl | rfl, rfl⟩ <;> rfl

theorem SignedNumeral.afterHexMark?_eq_none {radix : Nat} {text : List Char} {n : Int}
    (h : SignedNumeral radix text n) : afterHexMark? text = none := by
  cases h with
  | bare h => exact afterHexMark?_of_digits h.isHexDigit
  | plus _ => rfl
  | minus _ => rfl

/-- The ways to write an integer that may have a sign of its own: in base ten, or in base sixteen
with the mark in front of the sign. -/
inductive MarkedNumeral : List Char → Int → Prop where
  | decimal {text : List Char} {n : Int} (h : SignedNumeral 10 text n) : MarkedNumeral text n
  | hex {mark : Char} {digits : List Char} {n : Int} (hmark : mark = 'x' ∨ mark = 'X')
      (h : SignedNumeral 16 digits n) : MarkedNumeral ('0' :: mark :: digits) n

theorem Spells.marked {n : Nat} {text : List Char} (h : Spells n text) : MarkedNumeral text n := by
  cases h with
  | decimal h => exact .decimal (.bare h)
  | hex hmark h => exact .hex hmark (.bare h)

theorem markedNumeral_of_mark {text digits : List Char} (h : afterHexMark? text = some digits)
    {n : Int} : MarkedNumeral text n ↔ SignedNumeral 16 digits n := by
  constructor
  · intro hmarked
    cases hmarked with
    | decimal hsigned =>
        rw [hsigned.afterHexMark?_eq_none] at h
        cases h
    | hex hmark hsigned =>
        rw [afterHexMark?_eq_some_iff.mpr ⟨_, hmark, rfl⟩] at h
        cases h
        exact hsigned
  · obtain ⟨mark, hmark, rfl⟩ := afterHexMark?_eq_some_iff.mp h
    exact .hex hmark

theorem markedNumeral_of_no_mark {text : List Char} (h : afterHexMark? text = none) {n : Int} :
    MarkedNumeral text n ↔ SignedNumeral 10 text n := by
  refine ⟨fun hmarked => ?_, .decimal⟩
  cases hmarked with
  | decimal hsigned => exact hsigned
  | hex hmark _ =>
      rw [afterHexMark?_eq_some_iff.mpr ⟨_, hmark, rfl⟩] at h
      cases h

end CodePatch.Text
