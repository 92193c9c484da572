/-
# The shortest decimal of a float

Of all decimals that read back as a given double, the one with the fewest
digits is written, and of those the nearest to the exact value.  `shortest?`
searches the grids of one, two, … seventeen digits: on each, only the two
neighbours of the value can be nearest, so those two are tried.  `Layout` is
what a format decides about writing the digits down.
-/
import CodePatch.BinaryFloat.Decimal

namespace CodePatch.BinaryFloat

/-- How a selected decimal is laid out. -/
structure Layout where
  /-- The least exponent of the leading digit that is written positionally. -/
  plainFrom : Int
  /-- The least exponent above it that is not. -/
  plainBelow : Int
  /-- Is a positive exponent written with its sign? -/
  signsExponent : Bool
deriving DecidableEq, Repr

/-- The exponent of the leading digit of `num / den`, both positive. -/
def leadingExponent (num den : Nat) : Int :=
  if den ≤ num then (Nat.toDigits 10 (num / den)).length - 1
  else
    let zeros := (Nat.toDigits 10 (den / num)).length - 1
    if num * Nat.pow 10 zeros < den then -(zeros + 1 : Int) else -(zeros : Int)

/-- The neighbours of `num / den` among the multiples of `10 ^ place`, the
nearer first; of two equally near the even one. -/
def gridNeighbours (num den : Nat) (place : Int) : List Nat :=
  let (n, d) :=
    if place < 0 then (num * Nat.pow 10 (-place).toNat, den)
    else (num, den * Nat.pow 10 place.toNat)
  let low := n / d
  let twice := 2 * (n % d)
  if twice < d ∨ (twice = d ∧ low % 2 = 0) then [low, low + 1] else [low + 1, low]

/-- The digits and the place of the last one, trying grids of `17 - grids + 1`
digits and more. -/
def searchGrids (f : Format) (bits num den : Nat) : Nat → Option (Nat × Int)
  | 0 => none
  | grids + 1 =>
    let place := leadingExponent num den - (16 - grids : Int)
    let readsBack (n : Nat) : Bool := Decimal.toBits f ⟨false, n, place⟩ == bits
    match (gridNeighbours num den place).find? readsBack with
    | some n => some (n, place)
    | none => searchGrids f bits num den grids

/-- `digits` without the zeros at its end, each moved to the exponent. -/
def stripZeros : Nat → Nat → Int → Nat × Int
  | 0, digits, place => (digits, place)
  | steps + 1, digits, place =>
    if digits % 10 = 0 then stripZeros steps (digits / 10) (place + 1) else (digits, place)

/-- The shortest decimal that reads back as the positive pattern `bits`. -/
def shortest? (f : Format) (bits : Nat) : Option (Nat × Int) :=
  match f.decode bits with
  | .finite _ (m + 1) e =>
    let r := Number.ratio (m + 1) e
    (searchGrids f bits r.1 r.2 17).map fun (digits, place) => stripZeros 17 digits place
  | _ => none

/-- The text of `digits * 10 ^ place`, both from `shortest?`. -/
def Layout.text (layout : Layout) (digits : Nat) (place : Int) : String :=
  let ds := Nat.toDigits 10 digits
  let lead : Int := place + ds.length - 1
  let zeros (n : Int) : List Char := List.replicate n.toNat '0'
  if layout.plainFrom ≤ lead ∧ lead < layout.plainBelow then
    if 0 ≤ place then String.ofList (ds ++ zeros place ++ ['.', '0'])
    else if 0 ≤ lead then
      String.ofList (ds.take (lead + 1).toNat ++ '.' :: ds.drop (lead + 1).toNat)
    else String.ofList ('0' :: '.' :: zeros (-lead - 1) ++ ds)
  else
    let sign := if lead < 0 then "-" else if layout.signsExponent then "+" else ""
    let point := if ds.length = 1 then ds else ds.take 1 ++ '.' :: ds.drop 1
    String.ofList point ++ "e" ++ sign ++ toString lead.natAbs

/-- The text of a finite double. -/
def Layout.double (layout : Layout) (f : UInt64) : String :=
  let sign := if 1 <<< 63 ≤ f.toNat then "-" else ""
  match shortest? binary64 (f.toNat % 1 <<< 63) with
  | some (digits, place) => sign ++ layout.text digits place
  | none => sign ++ "0.0"

end CodePatch.BinaryFloat
