/-
# ASCII letters, digits and cuts

What the readers share: the value of a digit in a radix up to sixteen,
comparison without regard to the case of ASCII letters, and splitting a text
at a character.  Nothing here knows a character outside ASCII; a letter
beyond it equals only itself and is no digit.
-/

namespace CodePatch.Text

/-- The value of `c` as a hexadecimal digit. -/
def hexDigit? (c : Char) : Option Nat :=
  if '0' ≤ c ∧ c ≤ '9' then some (c.toNat - '0'.toNat)
  else if 'a' ≤ c ∧ c ≤ 'f' then some (c.toNat - 'a'.toNat + 10)
  else if 'A' ≤ c ∧ c ≤ 'F' then some (c.toNat - 'A'.toNat + 10)
  else none

/-- The value of `c` as a digit below `radix`, for a radix of at most sixteen. -/
def digit? (radix : Nat) (c : Char) : Option Nat :=
  (hexDigit? c).filter (· < radix)

def isHexDigit (c : Char) : Bool :=
  (hexDigit? c).isSome

/-- Equality up to the case of ASCII letters. -/
def sameLetters (a b : List Char) : Bool :=
  a.map Char.toLower == b.map Char.toLower

/-- Does `text` start with `token`, up to the case of ASCII letters? -/
def startsLike (token text : List Char) : Bool :=
  sameLetters (text.take token.length) token

/-- What follows `token` at the start of `text`. -/
def after? (token text : List Char) : Option (List Char) :=
  if text.take token.length = token then some (text.drop token.length) else none

/-- What follows a leading `0x` or `0X`. -/
def afterHexMark? (text : List Char) : Option (List Char) :=
  match text with
  | '0' :: 'x' :: rest => some rest
  | '0' :: 'X' :: rest => some rest
  | _ => none

/-- The text before and after the first `c`. -/
def splitFirst? (c : Char) : List Char → Option (List Char × List Char)
  | [] => none
  | x :: xs =>
    if x = c then some ([], xs)
    else (splitFirst? c xs).map fun (before, behind) => (x :: before, behind)

/-- The text before and after the last `c`. -/
def splitLast? (c : Char) : List Char → Option (List Char × List Char)
  | [] => none
  | x :: xs =>
    match splitLast? c xs with
    | some (before, behind) => some (x :: before, behind)
    | none => if x = c then some ([], xs) else none

/-! ## Laws of the cuts: nothing is lost and the cut is where it says -/

theorem splitFirst?_eq_some {c : Char} {text before behind : List Char}
    (h : splitFirst? c text = some (before, behind)) :
    text = before ++ c :: behind ∧ c ∉ before := by
  induction text generalizing before behind with
  | nil => simp [splitFirst?] at h
  | cons x xs ih =>
    by_cases hx : x = c
    · simp only [splitFirst?, hx, if_true, Option.some.injEq, Prod.mk.injEq] at h
      obtain ⟨rfl, rfl⟩ := h
      simp [hx]
    · simp only [splitFirst?, hx, if_false, Option.map_eq_some_iff, Prod.mk.injEq,
        Prod.exists] at h
      obtain ⟨b, r, hs, rfl, rfl⟩ := h
      obtain ⟨rfl, hb⟩ := ih hs
      exact ⟨rfl, by simp [hb, Ne.symm hx]⟩

theorem splitLast?_eq_none_iff {c : Char} {text : List Char} :
    splitLast? c text = none ↔ c ∉ text := by
  induction text with
  | nil => simp [splitLast?]
  | cons x xs ih =>
    rw [splitLast?]
    cases h : splitLast? c xs with
    | some parts =>
      have hmem : c ∈ xs := Decidable.byContradiction fun hout => by simp [ih.mpr hout] at h
      simp [hmem]
    | none =>
      have hout : c ∉ xs := ih.mp h
      by_cases hx : x = c
      · simp [hx]
      · simp [hx, hout, Ne.symm hx]

theorem splitLast?_eq_some_iff {c : Char} {text before behind : List Char} :
    splitLast? c text = some (before, behind) ↔ text = before ++ c :: behind ∧ c ∉ behind := by
  constructor
  · intro h
    induction text generalizing before with
    | nil => cases h
    | cons x xs ih =>
      rw [splitLast?] at h
      split at h
      · rename_i hxs
        cases h
        obtain ⟨htext, hlast⟩ := ih hxs
        exact ⟨congrArg (x :: ·) htext, hlast⟩
      · rename_i hxs
        obtain ⟨rfl, hparts⟩ := Option.ite_none_right_eq_some.mp h
        cases hparts
        exact ⟨rfl, splitLast?_eq_none_iff.mp hxs⟩
  · rintro ⟨rfl, hlast⟩
    induction before with
    | nil =>
      rw [List.nil_append, splitLast?, splitLast?_eq_none_iff.mpr hlast]
      exact if_pos rfl
    | cons first rest ih => rw [List.cons_append, splitLast?, ih]

end CodePatch.Text
