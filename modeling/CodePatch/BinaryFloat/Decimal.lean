/-
# Decimal text read as a float

The grammar of a decimal number that stands alone: an optional sign, then
`inf`, `infinity` or `nan` in any case, or digits with at most one point among
them and an optional exponent.  At least one digit is needed before the
exponent and, if there is one, in it.  The value is exact; only its pattern is
rounded, once, to the nearest of the format.
-/
import CodePatch.BinaryFloat.Basic
import CodePatch.Text.Ascii

namespace CodePatch.BinaryFloat

/-- The number `digits * 10 ^ exponent`, with a sign of its own. -/
structure Decimal where
  negative : Bool
  digits : Nat
  exponent : Int
deriving DecidableEq, Repr

namespace Decimal

/-- A number of this many digits before the point, or zeros behind it, is past
every format in use. -/
def beyond : Int := 400

/-- The pattern nearest to a decimal.  Numbers far outside the format's range
are settled by their size alone. -/
def toBits (f : Format) (d : Decimal) : Nat :=
  let size := d.exponent + (Nat.toDigits 10 d.digits).length
  f.signed d.negative <|
    if d.digits = 0 then 0
    else if beyond < size then f.infinity
    else if size < -beyond then 0
    else if d.exponent < 0 then f.round d.digits (Nat.pow 10 (-d.exponent).toNat)
    else f.round (d.digits * Nat.pow 10 d.exponent.toNat) 1

end Decimal

/-- The value of a run of decimal digits. -/
def digitsValue (digits : List Char) : Nat :=
  digits.foldl (fun n c => 10 * n + (c.toNat - '0'.toNat)) 0

/-- The part of an exponent that can matter; longer ones are cut to this many
digits' worth. -/
def exponentLimit : Nat := 1000000000

/-- The exponent that ends a number: nothing, or a mark, a sign and digits. -/
def readExponent? : List Char → Option Int
  | [] => some 0
  | mark :: rest =>
    if mark = 'e' ∨ mark = 'E' then
      let (negative, digits) := match rest with
        | '-' :: ds => (true, ds)
        | '+' :: ds => (false, ds)
        | ds => (false, ds)
      if digits.isEmpty || !digits.all Char.isDigit then none
      else
        let size : Int := min (digitsValue digits) exponentLimit
        some (if negative then -size else size)
    else none

/-- Digits with at most one point among them, and an exponent. -/
def readDecimal? (negative : Bool) (cs : List Char) : Option Decimal :=
  let whole := cs.takeWhile Char.isDigit
  let behind := cs.dropWhile Char.isDigit
  let (fraction, tail) := match behind with
    | '.' :: rest => (rest.takeWhile Char.isDigit, rest.dropWhile Char.isDigit)
    | rest => ([], rest)
  if whole.isEmpty && fraction.isEmpty then none
  else (readExponent? tail).map fun exponent =>
    ⟨negative, digitsValue (whole ++ fraction), exponent - fraction.length⟩

/-- The pattern of an unsigned number. -/
def readUnsigned? (f : Format) (negative : Bool) (cs : List Char) : Option Nat :=
  if Text.sameLetters cs "inf".toList || Text.sameLetters cs "infinity".toList then
    some (f.signed negative f.infinity)
  else if Text.sameLetters cs "nan".toList then some (f.signed negative f.quietNan)
  else (readDecimal? negative cs).map (Decimal.toBits f)

/-- The pattern of the number that is written as `cs`. -/
def read? (f : Format) : List Char → Option Nat
  | '-' :: cs => readUnsigned? f true cs
  | '+' :: cs => readUnsigned? f false cs
  | cs => readUnsigned? f false cs

/-- A single from its text. -/
def readSingle? (cs : List Char) : Option UInt32 :=
  (read? binary32 cs).map UInt32.ofNat

/-- A double from its text. -/
def readDouble? (cs : List Char) : Option UInt64 :=
  (read? binary64 cs).map UInt64.ofNat

end CodePatch.BinaryFloat
