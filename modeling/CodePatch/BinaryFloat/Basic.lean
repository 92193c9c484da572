/-
# Binary floating-point numbers as bit patterns

A float that reaches memory is a pattern of bits, so that is how this library
holds one: a `Format` says how many bits the exponent and the fraction have,
`Format.decode` says which number a pattern stands for, and `Format.round`
gives the pattern of the number nearest to a fraction, a tie going to the even
pattern.  All of it is exact arithmetic on natural numbers; the machine's own
floats are not used, so every conversion can be computed in a proof.
-/

namespace CodePatch.BinaryFloat

/-- How a pattern divides into sign, exponent and fraction. -/
structure Format where
  exponentBits : Nat
  fractionBits : Nat
deriving DecidableEq, Repr

def binary32 : Format := ⟨8, 23⟩
def binary64 : Format := ⟨11, 52⟩

/-- The number that a pattern stands for: `mantissa * 2 ^ exponent`, unless it
is infinite or not a number at all. -/
inductive Number where
  | nan (negative : Bool)
  | infinite (negative : Bool)
  | finite (negative : Bool) (mantissa : Nat) (exponent : Int)
deriving DecidableEq, Repr

/-- The quotient rounded to the nearest integer, a tie to the even one. -/
def roundDiv (num den : Nat) : Nat :=
  let q := num / den
  let r := 2 * (num % den)
  if r < den then q
  else if den < r then q + 1
  else if q % 2 = 0 then q else q + 1

namespace Format

/-- Half the range of exponents, less one. -/
def bias (f : Format) : Nat :=
  1 <<< (f.exponentBits - 1) - 1

/-- The exponent of the last place of the smallest numbers. -/
def leastExponent (f : Format) : Int :=
  1 - (f.bias : Int) - f.fractionBits

/-- The pattern of positive infinity. -/
def infinity (f : Format) : Nat :=
  (1 <<< f.exponentBits - 1) <<< f.fractionBits

/-- The pattern of the positive quiet number-that-is-none. -/
def quietNan (f : Format) : Nat :=
  f.infinity + 1 <<< (f.fractionBits - 1)

/-- The pattern `bits` with the sign bit set if `negative`. -/
def signed (f : Format) (negative : Bool) (bits : Nat) : Nat :=
  if negative then 1 <<< (f.exponentBits + f.fractionBits) + bits else bits

/-- The number that the pattern `bits` stands for. -/
def decode (f : Format) (bits : Nat) : Number :=
  let negative := bits >>> (f.exponentBits + f.fractionBits) % 2 == 1
  let exponent := bits >>> f.fractionBits % 1 <<< f.exponentBits
  let fraction := bits % 1 <<< f.fractionBits
  if exponent = 1 <<< f.exponentBits - 1 then
    if fraction = 0 then .infinite negative else .nan negative
  else if exponent = 0 then .finite negative fraction f.leastExponent
  else .finite negative (1 <<< f.fractionBits + fraction) (f.leastExponent + (exponent - 1))

/-- The exponent of the last place that `num / den` has in this format. -/
def placeExponent (f : Format) (num den : Nat) : Int :=
  let digits : Int := f.fractionBits + 1
  let guess : Int := (Nat.log2 num : Int) - Nat.log2 den - digits
  let tooFine :=
    if guess + digits < 0 then den ≤ num <<< (-(guess + digits)).toNat
    else den <<< (guess + digits).toNat ≤ num
  max (if tooFine then guess + 1 else guess) f.leastExponent

/-- The pattern of the number nearest to `num / den`; past the greatest number
it is infinity. -/
def round (f : Format) (num den : Nat) : Nat :=
  if num = 0 then 0
  else
    let e := f.placeExponent num den
    let m := if e < 0 then roundDiv (num <<< (-e).toNat) den else roundDiv num (den <<< e.toNat)
    let hidden := 1 <<< f.fractionBits
    let bits := if m < hidden then m else (e - f.leastExponent).toNat * hidden + m
    min bits f.infinity

/-- The pattern nearest to an integer. -/
def ofInt (f : Format) (i : Int) : Nat :=
  f.signed (i < 0) (f.round i.natAbs 1)

end Format

namespace Number

/-- The magnitude of a finite number as a fraction. -/
def ratio (mantissa : Nat) (exponent : Int) : Nat × Nat :=
  if exponent < 0 then (mantissa, 1 <<< (-exponent).toNat) else (mantissa <<< exponent.toNat, 1)

/-- The nearest pattern of the format `f`. -/
def toBits (f : Format) : Number → Nat
  | .nan n => f.signed n f.quietNan
  | .infinite n => f.signed n f.infinity
  | .finite n m e => f.signed n (f.round (ratio m e).1 (ratio m e).2)

/-- The integer part, kept within `low` and `high`; what is not a number
becomes zero. -/
def truncate (low high : Int) : Number → Int
  | .nan _ => 0
  | .infinite n => if n then low else high
  | .finite n m e =>
    let whole : Int := (ratio m e).1 / (ratio m e).2
    max low (min high (if n then -whole else whole))

end Number

/-- The integer part of a single, within `bits` bits of two's complement. -/
def truncate32 (bits : Nat) (f : UInt32) : Int :=
  (binary32.decode f.toNat).truncate (-(1 <<< (bits - 1) : Nat)) ((1 <<< (bits - 1) : Nat) - 1)

/-- The integer part of a double, within `bits` bits of two's complement. -/
def truncate64 (bits : Nat) (f : UInt64) : Int :=
  (binary64.decode f.toNat).truncate (-(1 <<< (bits - 1) : Nat)) ((1 <<< (bits - 1) : Nat) - 1)

/-- The single nearest to a double. -/
def narrow (f : UInt64) : UInt32 :=
  UInt32.ofNat ((binary64.decode f.toNat).toBits binary32)

/-! ## Patterns that pin the formats down -/

example : binary32.ofInt 1 = 0x3F800000 ∧ binary32.ofInt (-3) = 0xC0400000 := by decide
example : binary64.round 1 10 = 0x3FB999999999999A := by decide +kernel
example : binary32.ofInt 16777217 = 0x4B800000 ∧ binary32.ofInt 16777219 = 0x4B800002 := by decide
example : binary64.round 5 (10 ^ 324) = 1 ∧ binary64.round 2 (10 ^ 324) = 0 := by decide +kernel
example : binary64.round (10 ^ 309) 1 = binary64.infinity := by decide +kernel
example : truncate64 64 0xC007333333333333 = -2 ∧ truncate32 32 0x7FC00000 = 0 := by decide

end CodePatch.BinaryFloat
